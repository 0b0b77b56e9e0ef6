import SimpleOs.Foundation.Spelling
import SimpleOs.System.LoadedCalls

/-! # Program files

`load` reads a program back from every file that writes it, whatever the layout: numbers and
opcodes may stand after any white space, only the operands of a system call stay on its line.
-/

namespace SimpleOs

open Scan

/-! ## What a file writes -/

/-- The name of an opcode in a program. -/
def InsOpcode.name : InsOpcode → List Char
  | .calc => optCalc
  | .alloc => optAlloc
  | .free => optFree
  | .read => optRead
  | .write => optWrite
  | .syscall => optSyscall

/-- The white space that may stand between operands. -/
def InsOpcode.allows : InsOpcode → Char → Bool
  | .syscall, char => char.toNat != 10
  | _, _ => true

/-- The operands of a system call fit the array `buf`, and the line ends after them. -/
def InsOpcode.EndsLine (opcode : InsOpcode) (text rest : List Char) : Prop :=
  opcode = .syscall → text.length < 200 ∧ ∀ char tail, rest = char :: tail → char.toNat = 10

/-- The words of some operands. -/
def operandWords (operands : List Addr) : List (List Char) :=
  operands.map fun operand => decimal operand.toNat

/-- The text writes the instructions, each with a number for every conversion of its format.
What follows the last one is left open. -/
inductive WritesText : List (InsOpcode × List Addr) → List Char → Prop where
  | nil {rest} : WritesText [] rest
  | cons {opcode operands lines blank text rest}
      (hblank : ∀ char ∈ blank, isSpace char = true)
      (hcount : conversions opcode.format = operands.length)
      (hspells : Spells opcode.allows (operandWords operands) text) (hrest : Separated rest)
      (hline : opcode.EndsLine text rest) (htail : WritesText lines rest) :
      WritesText ((opcode, operands) :: lines) (blank ++ opcode.name ++ text ++ rest)

/-- The file writes the program: its priority, its number of instructions, and these. -/
def WritesProgram (priority : Word32) (lines : List (InsOpcode × List Addr))
    (file : List Char) : Prop :=
  ∃ rest, Begins [decimal priority.toNat, decimal lines.length] rest file ∧ WritesText lines rest

/-! ## One instruction -/

theorem getOpcode_name (opcode : InsOpcode) : getOpcode opcode.name = .ok opcode := by
  cases opcode <;> rfl

theorem name_spec (opcode : InsOpcode) : opcode.name ≠ [] ∧ opcode.name.length < 10 ∧
    (∀ char ∈ opcode.name, isSpace char = false) ∧ cString opcode.name = opcode.name := by
  have hword : opcode.name.all (fun char => !isSpace char) = true := by cases opcode <;> rfl
  refine ⟨?_, ?_, by simpa using hword, ?_⟩ <;> cases opcode <;> decide

/-- What stands between and in the operands. -/
theorem operands_char {allowed : Char → Bool} {operands : List Addr} {text : List Char}
    (hspells : Spells allowed (operandWords operands) text) {char : Char} (hchar : char ∈ text) :
    (isSpace char = true ∧ allowed char = true) ∨ char.isDigit = true := by
  apply (hspells.mem_cases hchar).imp_right
  rintro ⟨word, hword, hmem⟩
  obtain ⟨operand, -, rfl⟩ := List.mem_map.mp hword
  exact isDigit_of_mem_decimal hmem

theorem toNat_ne_zero_of_isSpace {char : Char} (hchar : isSpace char = true) :
    char.toNat ≠ 0 := by
  intro hzero
  simp [isSpace, hzero] at hchar

/-- Neither does a string end in the operands. -/
theorem operands_toNat_ne_zero {allowed : Char → Bool} {operands : List Addr} {text : List Char}
    (hspells : Spells allowed (operandWords operands) text) {char : Char} (hchar : char ∈ text) :
    char.toNat ≠ 0 := by
  rcases operands_char hspells hchar with ⟨hspace, -⟩ | hdigit
  · exact toNat_ne_zero_of_isSpace hspace
  · have hrange := toNat_of_isDigit hdigit
    omega

theorem cString_eq {text : List Char} (htext : ∀ char ∈ text, char.toNat ≠ 0) :
    cString text = text := by
  unfold cString
  apply List.takeWhile_eq_self_iff.mpr
  simpa using htext

variable {opcode : InsOpcode} {operands : List Addr} {text rest : List Char}

/-- The operands of a system call, which are read from a copy of the line. -/
theorem LoadState.scanOperands_syscall {st : LoadState} (hfile : st.file = text ++ rest)
    (hcount : conversions InsOpcode.syscall.format = operands.length)
    (hspells : Spells InsOpcode.syscall.allows (operandWords operands) text)
    (hline : InsOpcode.syscall.EndsLine text rest) :
    ∃ next, st.scanOperands .syscall = .ok (operands, next) ∧
      skipSpace next.file = skipSpace rest := by
  obtain ⟨hlength, hend⟩ := hline rfl
  have hnewline : ∀ char ∈ text, char.toNat ≠ 10 := fun char hchar => by
    rcases operands_char hspells hchar with ⟨-, hallowed⟩ | hdigit
    · simpa [InsOpcode.allows] using hallowed
    · have hrange := toNat_of_isDigit hdigit
      omega
  have hwords : operandWords operands ≠ [] := by
    intro hnil
    rw [List.map_eq_nil_iff.mp hnil] at hcount
    cases hcount
  have hsome : st.file ≠ [] := by
    rw [hfile]
    simp [hspells.ne_nil hwords]
  obtain ⟨ending, left, hread, hending, hleft⟩ :=
    line_append hnewline (Nat.le_of_lt_succ hlength) hend
  have hseparated : Separated ending := by
    cases ending with
    | nil => trivial
    | cons char tail =>
        have hchar := hending char List.mem_cons_self
        simp [Separated, isSpace, hchar]
  have hbuf : cString (text ++ ending) = text ++ ending := by
    apply cString_eq
    intro char hchar
    rcases List.mem_append.mp hchar with htext | hlast
    · exact operands_toNat_ne_zero hspells htext
    · rw [hending char hlast]
      decide
  have hbegins : Begins (operandWords operands ++ []) ending (text ++ ending) := by
    rw [List.append_nil]
    exact hspells.begins hseparated
  obtain ⟨after, hscan, -⟩ := hbegins.scan hcount
  refine ⟨{ st with file := left, buf := some (text ++ ending) }, ?_, hleft⟩
  unfold LoadState.scanOperands LoadState.readBuf fgets
  rw [if_neg hsome, hfile]
  simp only [hread, hbuf, hscan]

/-- The operands that a text spells are read back. -/
theorem LoadState.scanOperands_of_spells {st : LoadState} (hfile : st.file = text ++ rest)
    (hcount : conversions opcode.format = operands.length)
    (hspells : Spells opcode.allows (operandWords operands) text) (hrest : Separated rest)
    (hline : opcode.EndsLine text rest) :
    ∃ next, st.scanOperands opcode = .ok (operands, next) ∧
      skipSpace next.file = skipSpace rest := by
  by_cases hsyscall : opcode = .syscall
  · subst hsyscall
    exact scanOperands_syscall hfile hcount hspells hline
  · have hbegins : Begins (operandWords operands ++ []) rest st.file := by
      rw [List.append_nil, hfile]
      exact hspells.begins hrest
    obtain ⟨left, hscan, hleft⟩ := hbegins.scan hcount
    refine ⟨{ st with file := left }, ?_, hleft.done⟩
    unfold LoadState.scanOperands
    cases opcode with
    | syscall => exact absurd rfl hsyscall
    | _ => simp only [hscan]

theorem LoadState.scanInst_of_spells {st : LoadState}
    (hfile : skipSpace st.file = skipSpace (opcode.name ++ text ++ rest))
    (hcount : conversions opcode.format = operands.length)
    (hspells : Spells opcode.allows (operandWords operands) text) (hrest : Separated rest)
    (hline : opcode.EndsLine text rest) :
    ∃ next, st.scanInst = .ok ((opcode, operands), next) ∧
      skipSpace next.file = skipSpace rest := by
  obtain ⟨hne, hlength, hname, hstring⟩ := name_spec opcode
  have htoken : token st.file = (some opcode.name, text ++ rest) := by
    rw [token_congr hfile, List.append_assoc]
    exact token_word hne hname (hspells.separated hrest)
  have hopcode : st.scanOpcode =
      .ok { st with file := text ++ rest, opcode := some opcode.name } := by
    unfold LoadState.scanOpcode
    simp only [htoken, if_pos hlength, hstring]
  obtain ⟨next, hoperands, hleft⟩ := @scanOperands_of_spells opcode operands text rest
    { st with file := text ++ rest, opcode := some opcode.name } rfl hcount hspells hrest hline
  refine ⟨next, ?_, hleft⟩
  unfold LoadState.scanInst
  simp only [hopcode, bind, Except.bind, getOpcode_name, hoperands]
  rfl

/-! ## Whole files -/

theorem scanText_of_writes {lines : List (InsOpcode × List Addr)} {file : List Char}
    {st : LoadState} (hwrites : WritesText lines file)
    (hfile : skipSpace st.file = skipSpace file) : scanText lines.length st = .ok lines := by
  induction hwrites generalizing st with
  | nil => rfl
  | cons hblank hcount hspells hrest hline htail ih =>
      rw [List.append_assoc, List.append_assoc, skipSpace_append hblank,
        ← List.append_assoc] at hfile
      obtain ⟨next, hinst, hleft⟩ :=
        LoadState.scanInst_of_spells hfile hcount hspells hrest hline
      simp only [List.length_cons, scanText, hinst, bind, Except.bind, ih hleft]
      rfl

theorem scanHeader_of_begins {priority : Word32} {count : Nat} {rest file : List Char}
    (hcount : count < 2 ^ 32)
    (hbegins : Begins [decimal priority.toNat, decimal count] rest file) (unwritten : Unwritten) :
    ∃ left, scanHeader unwritten file = (priority, BitVec.ofNat 32 count,
        { file := left, opcode := unwritten.opcode, buf := unwritten.buf }) ∧
      skipSpace left = skipSpace rest := by
  have hvalues : conversions [.unsigned, .space, .unsigned] =
      [priority.setWidth 64, BitVec.ofNat 64 count].length := rfl
  have hwords : Begins (operandWords [priority.setWidth 64, BitVec.ofNat 64 count] ++ [])
      rest file := by
    have hpriority : (priority.setWidth 64).toNat = priority.toNat :=
      BitVec.toNat_setWidth_of_le (by decide)
    have hlong : (BitVec.ofNat 64 count).toNat = count := by
      simp
      omega
    simp only [operandWords, List.map_cons, List.map_nil, hpriority, hlong]
    exact hbegins
  obtain ⟨left, hscan, hleft⟩ := hwords.scan hvalues
  refine ⟨left, ?_, hleft.done⟩
  unfold scanHeader
  simp only [hscan]
  simp

/-- The scan of a file that writes a program. -/
theorem scanProgram_of_writes {priority : Word32} {lines : List (InsOpcode × List Addr)}
    {file : List Char} (hsize : lines.length < 2 ^ 32)
    (hwrites : WritesProgram priority lines file) (unwritten : Unwritten) :
    scanProgram unwritten file = .ok lines ∧ (scanHeader unwritten file).1 = priority := by
  obtain ⟨rest, hbegins, hlines⟩ := hwrites
  obtain ⟨left, hheader, hleft⟩ := scanHeader_of_begins hsize hbegins unwritten
  have hcount : (BitVec.ofNat 32 lines.length).toNat = lines.length :=
    Nat.mod_eq_of_lt hsize
  have htext : scanText lines.length
      { file := left, opcode := unwritten.opcode, buf := unwritten.buf } = .ok lines :=
    scanText_of_writes hlines hleft
  unfold scanProgram
  simp only [hheader, hcount, htext, and_self]

/-! ## Printed programs -/

/-- An instruction on a line of its own, before the newline that ends it. -/
def printInst (line : InsOpcode × List Addr) : List Char :=
  line.1.name ++ printWords (operandWords line.2)

theorem length_decimal_le (operand : Addr) : (decimal operand.toNat).length ≤ 20 := by
  apply (Nat.length_toDigits_le_iff (by decide) (by decide)).mpr
  have hlt := operand.isLt
  omega

theorem length_printWords_le (operands : List Addr) :
    (printWords (operandWords operands)).length ≤ 21 * operands.length := by
  induction operands with
  | nil => exact Nat.le_refl 0
  | cons operand operands ih =>
      have hhead := length_decimal_le operand
      change ((' ' :: decimal operand.toNat) ++ printWords (operandWords operands)).length ≤ _
      simp only [List.length_append, List.length_cons]
      omega

/-- The instructions of a printed program, each on a line of its own. -/
def printLines (lines : List (InsOpcode × List Addr)) : List Char :=
  lines.flatMap (fun line => '\n' :: printInst line) ++ ['\n']

theorem exists_printLines_eq (lines : List (InsOpcode × List Addr)) :
    ∃ tail, printLines lines = '\n' :: tail := by
  cases lines with
  | nil => exact ⟨[], rfl⟩
  | cons line lines => exact ⟨_, rfl⟩

/-- Every printed program is one that `load` reads. -/
theorem writesText_printLines {lines : List (InsOpcode × List Addr)}
    (hlines : ∀ line ∈ lines, conversions line.1.format = line.2.length) :
    WritesText lines (printLines lines) := by
  induction lines with
  | nil => exact .nil
  | cons line lines ih =>
      obtain ⟨opcode, operands⟩ := line
      obtain ⟨tail, htail⟩ := exists_printLines_eq lines
      have hcount : conversions opcode.format = operands.length :=
        hlines _ List.mem_cons_self
      have hallowed : opcode.allows ' ' = true := by cases opcode <;> decide
      have hline : opcode.EndsLine (printWords (operandWords operands)) (printLines lines) := by
        rintro rfl
        have hlength := length_printWords_le operands
        rw [← hcount] at hlength
        refine ⟨hlength.trans_lt (by decide), fun char rest hrest => ?_⟩
        rw [htail] at hrest
        cases hrest
        rfl
      have hrest : Separated (printLines lines) := by
        rw [htail]
        exact (by decide : isSpace '\n' = true)
      have hshape : printLines ((opcode, operands) :: lines) =
          ['\n'] ++ opcode.name ++ printWords (operandWords operands) ++ printLines lines := by
        simp [printLines, printInst]
      rw [hshape]
      exact .cons (by simp [isSpace]) hcount (spells_printWords hallowed _) hrest hline
        (ih fun line hline => hlines line (List.mem_cons_of_mem _ hline))

def printProgram (priority : Word32) (lines : List (InsOpcode × List Addr)) : List Char :=
  decimal priority.toNat ++ ' ' :: decimal lines.length ++ printLines lines

theorem writesProgram_printProgram (priority : Word32)
    {lines : List (InsOpcode × List Addr)}
    (hlines : ∀ line ∈ lines, conversions line.1.format = line.2.length) :
    WritesProgram priority lines (printProgram priority lines) := by
  obtain ⟨tail, htail⟩ := exists_printLines_eq lines
  have hrest : Separated (printLines lines) := by
    rw [htail]
    exact (by decide : isSpace '\n' = true)
  refine ⟨printLines lines, (begins_printWords _ hrest).congr ?_, writesText_printLines hlines⟩
  have hspace := skipSpace_append blank_space.2 (printProgram priority lines)
  rw [← hspace]
  simp [printProgram, printWords]

/-- `load` reads a program back from every file that writes it, whatever its layout and
whatever memory held. The arguments that its format does not name keep their contents. -/
theorem load_of_writes (unwritten : Unwritten) (priority : Word32)
    (lines : List (InsOpcode × List Addr)) (file : List Char)
    (hsize : lines.length < 2 ^ 32) (hwrites : WritesProgram priority lines file) :
    load unwritten file = .ok
      { priority := priority, text := assignFrom unwritten.text 0 lines } := by
  obtain ⟨hscan, hpriority⟩ := scanProgram_of_writes hsize hwrites unwritten
  rw [load_eq, hscan, ← hpriority]
  rfl

/-- Two instructions, printed and loaded over memory full of ones. -/
theorem load_of_writes_printed :
    load { priority := 1, size := 1, opcode := none, buf := none, text := fun _ => filledWith 1 }
        (printProgram 7 [(.alloc, [300, 4]), (.syscall, [17, 1, 2, 3])]) =
      .ok { priority := 7
            text := [⟨.alloc, 300, 4, 1, 1⟩, ⟨.syscall, 17, 1, 2, 3⟩] } :=
  load_of_writes _ 7 [(.alloc, [300, 4]), (.syscall, [17, 1, 2, 3])] _ (by decide)
    (writesProgram_printProgram 7 (by decide))

end SimpleOs
