import SimpleOs.Foundation.Runs
import SimpleOs.System.Loader

/-! # The calls of a loaded program

Two loads of one text differ at most in what the array of instructions held before. The
loaded programs make the same calls exactly if every instruction of the text has as many
numbers as `run` reads of it; a field without a number is handed to the library or to the
kernel as `malloc` left it.
-/

namespace SimpleOs

variable {Proc : Type}

/-! ## What `run` asks for -/

/-- What `run` makes of an instruction: nothing, a library call or a system call. -/
inductive RunCall where
  | none
  | library (call : LibCall)
  | system (syscallIdx : Word32) (a1 a2 a3 : Addr)
  deriving DecidableEq

/-- The call in the `switch` of `run`, with its arguments as the callee declares them. -/
def InstT.runCall (ins : InstT) : RunCall :=
  match ins.opcode with
  | .calc => .none
  | .alloc => .library (.alloc ins.arg0 (ins.arg1.setWidth 32))
  | .free => .library (.free (ins.arg0.setWidth 32))
  | .read => .library (.read (ins.arg0.setWidth 32) ins.arg1)
  | .write => .library (.write (ins.arg0.setWidth 8) (ins.arg1.setWidth 32) ins.arg2)
  | .syscall => .system (ins.arg0.setWidth 32) ins.arg1 ins.arg2 ins.arg3

/-- The effect of the call. -/
def RunCall.issue (pidOf : Proc → Except Fault Word32) (junk : Byte) (krnl : Krnl Proc)
    (pid : Word32) : RunCall → Except Fault (Int × Krnl Proc)
  | .none => .ok (0, krnl)
  | .library call => call.call pidOf junk krnl pid
  | .system syscallIdx a1 a2 a3 => libsyscall pidOf junk krnl pid syscallIdx a1 a2 a3

/-- An instruction does what its call does. -/
theorem InstT.execute_eq_issue (pidOf : Proc → Except Fault Word32) (junk : Byte)
    (krnl : Krnl Proc) (pid : Word32) (ins : InstT) :
    ins.execute pidOf junk krnl pid = ins.runCall.issue pidOf junk krnl pid := by
  unfold InstT.execute InstT.runCall
  cases ins.opcode <;> rfl

def InstT.args (ins : InstT) : List Addr := [ins.arg0, ins.arg1, ins.arg2, ins.arg3]

/-- The opcode and the arguments that `run` reads. -/
def InstT.readFields (ins : InstT) : InsOpcode × List Addr :=
  (ins.opcode, ins.args.take ins.opcode.reads)

/-- The call for an opcode and the arguments that `run` reads. -/
def callOf : InsOpcode × List Addr → RunCall
  | (.alloc, [size, regIndex]) => .library (.alloc size (regIndex.setWidth 32))
  | (.free, [regIndex]) => .library (.free (regIndex.setWidth 32))
  | (.read, [source, offset]) => .library (.read (source.setWidth 32) offset)
  | (.write, [data, destination, offset]) =>
      .library (.write (data.setWidth 8) (destination.setWidth 32) offset)
  | (.syscall, [syscallIdx, a1, a2, a3]) => .system (syscallIdx.setWidth 32) a1 a2 a3
  | _ => .none

/-- `run` asks for the same whenever it reads the same. -/
theorem InstT.runCall_eq_callOf (ins : InstT) : ins.runCall = callOf ins.readFields := by
  obtain ⟨opcode, arg0, arg1, arg2, arg3⟩ := ins
  cases opcode <;> rfl

/-! ## Text and array -/

/-- The opcodes and operands that the loop of `load` scans. -/
def scanText : Nat → LoadState → Except LoadFailure (List (InsOpcode × List Addr))
  | 0, _ => .ok []
  | count + 1, st => do
      let (line, st) ← st.scanInst
      let rest ← scanText count st
      return line :: rest

def scanProgram (unwritten : Unwritten) (file : List Char) :
    Except LoadFailure (List (InsOpcode × List Addr)) :=
  let (_, size, st) := scanHeader unwritten file
  scanText size.toNat st

/-- The instructions of an array, from an index on, after the assignments. -/
def assignFrom (text : Nat → InstT) : Nat → List (InsOpcode × List Addr) → List InstT
  | _, [] => []
  | index, (opcode, operands) :: rest =>
      (text index).assign opcode operands :: assignFrom text (index + 1) rest

/-- The loop scans without looking at the array, and then assigns. -/
theorem loadText_eq (text : Nat → InstT) (index count : Nat) (st : LoadState) :
    loadText text index count st = (scanText count st).map (assignFrom text index) := by
  induction count generalizing index st with
  | zero => rfl
  | succ count ih =>
      unfold loadText scanText
      cases st.scanInst with
      | error failure => rfl
      | ok scanned =>
          obtain ⟨⟨opcode, operands⟩, next⟩ := scanned
          change (loadText text (index + 1) count next >>= fun rest =>
            pure ((text index).assign opcode operands :: rest)) =
              (scanText count next >>= fun rest => pure ((opcode, operands) :: rest)).map
                (assignFrom text index)
          rw [ih]
          cases scanText count next <;> rfl

/-- The process that `load` makes of a text. -/
theorem load_eq (unwritten : Unwritten) (file : List Char) :
    load unwritten file = (scanProgram unwritten file).map fun lines =>
      { priority := (scanHeader unwritten file).1
        text := assignFrom unwritten.text 0 lines } := by
  unfold load scanProgram
  simp only [loadText_eq]
  cases scanText (scanHeader unwritten file).2.1.toNat (scanHeader unwritten file).2.2 <;> rfl

/-! ## Fields with and without a number -/

/-- The operands that match come first, and the fields behind them keep their contents. -/
theorem args_assign (ins : InstT) (opcode : InsOpcode) (operands : List Addr) :
    (ins.assign opcode operands).args = operands.take 4 ++ ins.args.drop operands.length := by
  rcases operands with _ | ⟨first, _ | ⟨second, _ | ⟨third, _ | ⟨fourth, rest⟩⟩⟩⟩
  · rfl
  · rfl
  · rfl
  · rfl
  · simp [InstT.args, InstT.assign]

theorem InsOpcode.reads_le (opcode : InsOpcode) : opcode.reads ≤ 4 := by
  cases opcode <;> decide

/-- With enough operands all that `run` reads is assigned from the text. -/
theorem readFields_assign {opcode : InsOpcode} {operands : List Addr}
    (henough : opcode.reads ≤ operands.length) (ins : InstT) :
    (ins.assign opcode operands).readFields = (opcode, operands.take opcode.reads) := by
  have hreads := opcode.reads_le
  have htake : (ins.assign opcode operands).args.take opcode.reads =
      operands.take opcode.reads := by
    rw [args_assign, List.take_append_of_le_length (by rw [List.length_take]; omega),
      List.take_take, Nat.min_eq_left hreads]
  exact congrArg (Prod.mk opcode) htake

/-- An element whose arguments all hold the same word. -/
def filledWith (word : Addr) : InstT where
  opcode := .calc
  arg0 := word
  arg1 := word
  arg2 := word
  arg3 := word

/-- Without enough operands, zeros and ones in the array give different calls. -/
theorem runCall_assign_ne {opcode : InsOpcode} {operands : List Addr}
    (hfew : operands.length < opcode.reads) :
    ((filledWith 0).assign opcode operands).runCall ≠
      ((filledWith 1).assign opcode operands).runCall := by
  have hreads := opcode.reads_le
  -- the first field without a number is one that `run` reads
  rcases operands with _ | ⟨first, _ | ⟨second, _ | ⟨third, _ | ⟨fourth, rest⟩⟩⟩⟩
  · cases opcode <;> simp [InsOpcode.reads, InstT.runCall, InstT.assign, filledWith] at hfew ⊢
  · cases opcode <;> simp [InsOpcode.reads, InstT.runCall, InstT.assign, filledWith] at hfew ⊢
  · cases opcode <;> simp [InsOpcode.reads, InstT.runCall, InstT.assign, filledWith] at hfew ⊢
  · cases opcode <;> simp [InsOpcode.reads, InstT.runCall, InstT.assign, filledWith] at hfew ⊢
  · simp only [List.length_cons] at hfew
    omega

/-! ## Two loads -/

/-- The memory that `load` finds, with another array of instructions. -/
def Unwritten.withText (unwritten : Unwritten) (text : Nat → InstT) : Unwritten :=
  { unwritten with text := text }

/-- Each instruction of the text has at least as many numbers as `run` reads of it. -/
def FullyOperanded (unwritten : Unwritten) (file : List Char) : Prop :=
  ∀ lines, scanProgram unwritten file = .ok lines →
    ∀ line ∈ lines, line.1.reads ≤ line.2.length

/-- Whatever the array held, a load ends in the same way, and of two processes that are
loaded `run` reads the same fields. -/
def FieldsFromText (unwritten : Unwritten) (file : List Char) : Prop :=
  ∀ text other, (load (unwritten.withText text) file).map
      (fun proc => (proc.priority, proc.text.map InstT.readFields)) =
    (load (unwritten.withText other) file).map
      (fun proc => (proc.priority, proc.text.map InstT.readFields))

/-- Whatever the array held, a load ends in the same way, and two processes that are loaded
ask for the same calls. -/
def CallsFromText (unwritten : Unwritten) (file : List Char) : Prop :=
  ∀ text other, (load (unwritten.withText text) file).map
      (fun proc => (proc.priority, proc.text.map InstT.runCall)) =
    (load (unwritten.withText other) file).map
      (fun proc => (proc.priority, proc.text.map InstT.runCall))

theorem load_withText (unwritten : Unwritten) (text : Nat → InstT) (file : List Char) :
    load (unwritten.withText text) file = (scanProgram unwritten file).map fun lines =>
      { priority := (scanHeader unwritten file).1
        text := assignFrom text 0 lines } :=
  load_eq (unwritten.withText text) file

theorem map_readFields_assignFrom (text : Nat → InstT) {lines : List (InsOpcode × List Addr)}
    (henough : ∀ line ∈ lines, line.1.reads ≤ line.2.length) (index : Nat) :
    (assignFrom text index lines).map InstT.readFields =
      lines.map fun line => (line.1, line.2.take line.1.reads) := by
  induction lines generalizing index with
  | nil => rfl
  | cons line rest ih =>
      have hline := henough line List.mem_cons_self
      have hrest := ih (fun other hother => henough other (List.mem_cons_of_mem _ hother))
      unfold assignFrom
      rw [List.map_cons, List.map_cons, readFields_assign hline, hrest]

/-- An array that is the same everywhere. -/
theorem assignFrom_const (ins : InstT) (index : Nat) (lines : List (InsOpcode × List Addr)) :
    assignFrom (fun _ => ins) index lines = lines.map fun line => ins.assign line.1 line.2 := by
  induction lines generalizing index with
  | nil => rfl
  | cons line rest ih =>
      unfold assignFrom
      rw [ih, List.map_cons]

variable {unwritten : Unwritten} {file : List Char}

theorem FullyOperanded.fieldsFromText (hfull : FullyOperanded unwritten file) :
    FieldsFromText unwritten file := by
  intro text other
  rw [load_withText, load_withText]
  cases hlines : scanProgram unwritten file with
  | error failure => rfl
  | ok lines =>
      have henough := hfull lines hlines
      simp only [Except.map]
      rw [map_readFields_assignFrom text henough, map_readFields_assignFrom other henough]

theorem FieldsFromText.callsFromText (hfields : FieldsFromText unwritten file) :
    CallsFromText unwritten file := by
  intro text other
  have hsame := hfields text other
  rw [load_withText, load_withText] at hsame ⊢
  cases hlines : scanProgram unwritten file with
  | error failure => rfl
  | ok lines =>
      rw [hlines] at hsame
      have hread := congrArg (List.map callOf) (Prod.mk.inj (Except.ok.inj hsame)).2
      rw [List.map_map, List.map_map] at hread
      have hcall : callOf ∘ InstT.readFields = InstT.runCall :=
        funext fun ins => ins.runCall_eq_callOf.symm
      rw [hcall] at hread
      exact congrArg (fun calls => Except.ok (_, calls)) hread

theorem CallsFromText.fullyOperanded (hcalls : CallsFromText unwritten file) :
    FullyOperanded unwritten file := by
  intro lines hlines line hline
  have hsame := hcalls (fun _ => filledWith 0) (fun _ => filledWith 1)
  rw [load_withText, load_withText, hlines] at hsame
  have hcall := (Prod.mk.inj (Except.ok.inj hsame)).2
  simp only [assignFrom_const, List.map_map] at hcall
  by_contra hfew
  exact runCall_assign_ne (Nat.lt_of_not_le hfew) (List.map_inj_left.mp hcall line hline)

/-- What `run` reads, and the calls that it makes, come from the text alone exactly if each
instruction of the text has its numbers. -/
theorem load_fromText_iff (unwritten : Unwritten) (file : List Char) :
    (FieldsFromText unwritten file ↔ FullyOperanded unwritten file) ∧
      (CallsFromText unwritten file ↔ FullyOperanded unwritten file) :=
  ⟨⟨fun hfields => hfields.callsFromText.fullyOperanded, fun hfull => hfull.fieldsFromText⟩,
    ⟨fun hcalls => hcalls.fullyOperanded, fun hfull => hfull.fieldsFromText.callsFromText⟩⟩

/-- Memory in which nothing was written but zeros. -/
def zeroed : Unwritten where
  priority := 0
  size := 0
  opcode := some []
  buf := some []
  text _ := filledWith 0

/-- The system call of the shipped program `sc2`, which has two numbers for four arguments. -/
def mapCallText : List Char :=
  ['2', '0', ' ', '1', Char.ofNat 10, 's', 'y', 's', 'c', 'a', 'l', 'l', ' ', '1', '0', '1', ' ',
    '1', Char.ofNat 10]

/-- The text is loaded, and the last two arguments of its call are those of the array. -/
theorem not_callsFromText :
    (load (zeroed.withText fun _ => filledWith 0) mapCallText).toOption.map
        (fun proc => proc.text.map InstT.runCall) = some [.system 101 1 0 0] ∧
      (load (zeroed.withText fun _ => filledWith 1) mapCallText).toOption.map
        (fun proc => proc.text.map InstT.runCall) = some [.system 101 1 1 1] ∧
      ¬ CallsFromText zeroed mapCallText := by
  have hzeros : (load (zeroed.withText fun _ => filledWith 0) mapCallText).toOption.map
      (fun proc => proc.text.map InstT.runCall) = some [.system 101 1 0 0] := by
    decide +kernel
  have hones : (load (zeroed.withText fun _ => filledWith 1) mapCallText).toOption.map
      (fun proc => proc.text.map InstT.runCall) = some [.system 101 1 1 1] := by
    decide +kernel
  refine ⟨hzeros, hones, ?_⟩
  intro hcalls
  have hsame := hcalls (fun _ => filledWith 0) (fun _ => filledWith 1)
  obtain ⟨proc, hproc, hissued⟩ := Option.map_eq_some_iff.mp hzeros
  obtain ⟨other, hother, hotherIssued⟩ := Option.map_eq_some_iff.mp hones
  rw [Runs.toOption_eq_some_iff.mp hproc, Runs.toOption_eq_some_iff.mp hother] at hsame
  have hissue := (Prod.mk.inj (Except.ok.inj hsame)).2
  rw [hissued, hotherIssued] at hissue
  exact absurd hissue (by decide)

end SimpleOs
