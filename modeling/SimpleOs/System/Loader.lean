import SimpleOs.Foundation.Scan
import SimpleOs.System.Cpu

/-! # Loading a program

`loader.c` reads a program from its text with `fscanf`, `fgets` and `sscanf`. A conversion
that does not match leaves its target as it was, and the targets are fields of an array from
`malloc`. So what `run` reads of an instruction comes from the text exactly where the text
has enough numbers for the opcode.
-/

namespace SimpleOs

/-- How `load` can end without a process: with `exit(1)`, or where C leaves the behaviour
undefined. -/
inductive LoadFailure where
  | exit
  | undefined
  deriving DecidableEq

/-! ## Opcodes -/

/-- `OPT_CALC` -/
def optCalc : List Char := ['c', 'a', 'l', 'c']

/-- `OPT_ALLOC` -/
def optAlloc : List Char := ['a', 'l', 'l', 'o', 'c']

/-- `OPT_FREE` -/
def optFree : List Char := ['f', 'r', 'e', 'e']

/-- `OPT_READ` -/
def optRead : List Char := ['r', 'e', 'a', 'd']

/-- `OPT_WRITE` -/
def optWrite : List Char := ['w', 'r', 'i', 't', 'e']

/-- `OPT_SYSCALL` -/
def optSyscall : List Char := ['s', 'y', 's', 'c', 'a', 'l', 'l']

/-- `get_opcode` -/
def getOpcode (opt : List Char) : Except LoadFailure InsOpcode :=
  if opt = optCalc then .ok .calc
  else if opt = optAlloc then .ok .alloc
  else if opt = optFree then .ok .free
  else if opt = optRead then .ok .read
  else if opt = optWrite then .ok .write
  else if opt = optSyscall then .ok .syscall
  else .error .exit

namespace InsOpcode

/-- The format that `load` gives to `fscanf`, and for a system call to `sscanf`. -/
def format : InsOpcode → List Scan.Directive
  | .calc => []
  | .alloc => [.unsigned, .space, .unsigned, .space]
  | .free => [.unsigned, .space]
  | .read => [.unsigned, .space, .unsigned, .space, .unsigned, .space]
  | .write => [.unsigned, .space, .unsigned, .space, .unsigned, .space]
  | .syscall => [.unsigned, .unsigned, .unsigned, .unsigned]

/-- How many arguments `run` reads. Of the last operand of a `READ` it takes the address. -/
def reads : InsOpcode → Nat
  | .calc => 0
  | .alloc => 2
  | .free => 1
  | .read => 2
  | .write => 3
  | .syscall => 4

end InsOpcode

/-! ## One instruction -/

/-- The string in a character array. -/
def cString (chars : List Char) : List Char := chars.takeWhile fun char => char.toNat != 0

/-- What is left of the file, and the strings in the arrays `opcode` and `buf`. An array has
none while nothing in it ends one. -/
structure LoadState where
  file : List Char
  opcode : Option (List Char)
  buf : Option (List Char)

namespace LoadState

/-- `fscanf(file, "%s", opcode)`. The array has 10 characters, and at the end of the file it
is left as it was. -/
def scanOpcode (st : LoadState) : Except LoadFailure LoadState :=
  match Scan.token st.file with
  | (none, file) => .ok { st with file := file }
  | (some token, file) =>
      if token.length < 10 then .ok { st with file := file, opcode := some (cString token) }
      else .error .undefined

/-- `fgets(buf, sizeof(buf), file)` -/
def readBuf (st : LoadState) : LoadState :=
  match Scan.fgets 200 st.file with
  | (none, file) => { st with file := file }
  | (some line, file) => { st with file := file, buf := some (cString line) }

/-- The operands of an instruction that match. -/
def scanOperands (st : LoadState) (opcode : InsOpcode) :
    Except LoadFailure (List Addr × LoadState) :=
  match opcode with
  | .syscall =>
      let st := st.readBuf
      match st.buf with
      | none => .error .undefined
      | some buf => .ok ((Scan.scan opcode.format buf).1, st)
  | _ =>
      let (operands, file) := Scan.scan opcode.format st.file
      .ok (operands, { st with file := file })

/-- One pass of the loop of `load`: the opcode and the operands that match. -/
def scanInst (st : LoadState) : Except LoadFailure ((InsOpcode × List Addr) × LoadState) := do
  let st ← st.scanOpcode
  match st.opcode with
  | none => .error .undefined
  | some opt =>
      let opcode ← getOpcode opt
      let (operands, st) ← st.scanOperands opcode
      return ((opcode, operands), st)

end LoadState

/-- Assign the opcode and the operands that match. The other arguments keep their contents. -/
def InstT.assign (ins : InstT) (opcode : InsOpcode) (operands : List Addr) : InstT where
  opcode := opcode
  arg0 := operands[0]?.getD ins.arg0
  arg1 := operands[1]?.getD ins.arg1
  arg2 := operands[2]?.getD ins.arg2
  arg3 := operands[3]?.getD ins.arg3

/-! ## The program -/

/-- What memory holds before `load` writes to it: the priority and size of the process, the
arrays on the stack and the array of instructions. -/
structure Unwritten where
  priority : Word32
  size : Word32
  opcode : Option (List Char)
  buf : Option (List Char)
  text : Nat → InstT

/-- The fields of the process that are read from its file. -/
structure LoadedProc where
  priority : Word32
  text : List InstT
  deriving DecidableEq

/-- The loop of `load`, from an index on. -/
def loadText (text : Nat → InstT) (index : Nat) :
    Nat → LoadState → Except LoadFailure (List InstT)
  | 0, _ => .ok []
  | count + 1, st => do
      let ((opcode, operands), st) ← st.scanInst
      let rest ← loadText text (index + 1) count st
      return (text index).assign opcode operands :: rest

/-- `fscanf(file, "%u %u", ..)`: the values of the header that match, and the loop's start. -/
def scanHeader (unwritten : Unwritten) (file : List Char) : Word32 × Word32 × LoadState :=
  let (values, file) := Scan.scan [.unsigned, .space, .unsigned] file
  ((values[0]?.map (BitVec.setWidth 32)).getD unwritten.priority,
    (values[1]?.map (BitVec.setWidth 32)).getD unwritten.size,
    { file := file, opcode := unwritten.opcode, buf := unwritten.buf })

/-- `load`, for the contents of the file. -/
def load (unwritten : Unwritten) (file : List Char) : Except LoadFailure LoadedProc := do
  let (priority, size, st) := scanHeader unwritten file
  let text ← loadText unwritten.text 0 size.toNat st
  return { priority := priority, text := text }

end SimpleOs
