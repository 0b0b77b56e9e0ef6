import Mathlib.Data.List.DropRight
import SimpleOs.Foundation.Scan

/-! # Texts that spell words and numbers

What a text spells, its words and its numbers in decimal, is read back from it, whatever
blanks stand between them. The blank before a number or word belongs to it, as the conversions
skip it.
-/

namespace Scan

/-- The text ends the word or number before it. -/
def Separated : List Char → Prop
  | [] => True
  | char :: _ => isSpace char = true

/-- A blank is not empty, and consists of white space. -/
def Blank (blank : List Char) : Prop := blank ≠ [] ∧ ∀ char ∈ blank, isSpace char = true

/-- A natural number in decimal. -/
def decimal (value : Nat) : List Char := Nat.toDigits 10 value

/-- An integer in decimal. -/
def decimalInt (value : Int) : List Char :=
  if value < 0 then '-' :: decimal value.natAbs else decimal value.natAbs

variable {text other rest blank word : List Char}

/-! ## White space -/

@[simp] theorem skipSpace_skipSpace (text : List Char) :
    skipSpace (skipSpace text) = skipSpace text := List.dropWhile_idempotent _ _

theorem skipSpace_append (hblank : ∀ char ∈ blank, isSpace char = true) (text : List Char) :
    skipSpace (blank ++ text) = skipSpace text := List.dropWhile_append_of_pos hblank

/-- A text that begins with something else than white space. -/
theorem skipSpace_cons_of_not {char : Char} (hchar : isSpace char = false) (rest : List Char) :
    skipSpace (char :: rest) = char :: rest := by
  apply List.dropWhile_cons_of_neg
  simp [hchar]

theorem Blank.separated (hblank : Blank blank) (rest : List Char) :
    Separated (blank ++ rest) := by
  obtain ⟨hne, hspace⟩ := hblank
  cases blank with
  | nil => exact absurd rfl hne
  | cons char tail => exact hspace char List.mem_cons_self

/-- The conversions skip white space, so they do not depend on it. -/
theorem unsigned_congr (hsame : skipSpace text = skipSpace other) :
    unsigned text = unsigned other := by
  unfold unsigned
  rw [hsame]

theorem token_congr (hsame : skipSpace text = skipSpace other) : token text = token other := by
  unfold token
  rw [hsame]

theorem integer_congr (hsame : skipSpace text = skipSpace other) :
    integer text = integer other := by
  unfold integer
  rw [hsame]

/-! ## Words -/

theorem takeWhile_separated {p : Char → Bool}
    (hspace : ∀ char, isSpace char = true → p char = false)
    (hword : ∀ char ∈ word, p char = true) (hrest : Separated rest) :
    (word ++ rest).takeWhile p = word ∧ (word ++ rest).dropWhile p = rest := by
  rw [List.takeWhile_append_of_pos hword, List.dropWhile_append_of_pos hword]
  cases rest with
  | nil => exact ⟨List.append_nil _, rfl⟩
  | cons char tail =>
      have hchar := hspace char hrest
      simp [hchar]

/-- A word is read back. -/
theorem token_word (hne : word ≠ []) (hword : ∀ char ∈ word, isSpace char = false)
    (hrest : Separated rest) : token (word ++ rest) = (some word, rest) := by
  obtain ⟨htake, hdrop⟩ := @takeWhile_separated rest word (!isSpace ·)
    (fun char hchar => by simp [hchar]) (fun char hchar => by simp [hword char hchar]) hrest
  have hskip : skipSpace (word ++ rest) = word ++ rest := by
    cases word with
    | nil => exact absurd rfl hne
    | cons char tail => exact skipSpace_cons_of_not (hword char List.mem_cons_self) _
  unfold token
  rw [hskip, if_neg (fun hnil => hne (List.append_eq_nil_iff.mp hnil).1), htake, hdrop]

/-! ## Numbers -/

theorem toNat_of_isDigit {char : Char} (hchar : char.isDigit = true) :
    48 ≤ char.toNat ∧ char.toNat ≤ 57 := by
  simp only [Char.isDigit, Bool.and_eq_true, decide_eq_true_eq, ge_iff_le,
    UInt32.le_iff_toNat_le] at hchar
  exact hchar

/-- No character is both a digit and white space. -/
theorem isSpace_of_isDigit {char : Char} (hchar : char.isDigit = true) :
    isSpace char = false := by
  have hrange := toNat_of_isDigit hchar
  simp [isSpace]
  omega

theorem isDigit_of_isSpace {char : Char} (hchar : isSpace char = true) :
    char.isDigit = false := by
  apply Bool.eq_false_iff.mpr
  intro hdigit
  rw [isSpace_of_isDigit hdigit] at hchar
  cases hchar

theorem isDigit_of_mem_decimal {value : Nat} {char : Char} (hchar : char ∈ decimal value) :
    char.isDigit = true := Nat.isDigit_of_mem_toDigits (by decide) (by decide) hchar

theorem decimal_ne_nil (value : Nat) : decimal value ≠ [] := Nat.toDigits_ne_nil

/-- A number in decimal begins with a digit, so neither with white space nor with a sign. -/
theorem sign_skipSpace_decimal (value : Nat) (rest : List Char) :
    sign (skipSpace (decimal value ++ rest)) = (false, decimal value ++ rest) := by
  cases hdecimal : decimal value with
  | nil => exact absurd hdecimal (decimal_ne_nil value)
  | cons char tail =>
      have hdigit : char.isDigit = true :=
        isDigit_of_mem_decimal (hdecimal ▸ List.mem_cons_self)
      have hminus : char ≠ '-' := by
        rintro rfl
        cases hdigit
      have hplus : char ≠ '+' := by
        rintro rfl
        cases hdigit
      rw [List.cons_append, skipSpace_cons_of_not (isSpace_of_isDigit hdigit)]
      simp [sign, hminus, hplus]

theorem takeWhile_decimal (value : Nat) (hrest : Separated rest) :
    (decimal value ++ rest).takeWhile Char.isDigit = decimal value ∧
      (decimal value ++ rest).dropWhile Char.isDigit = rest :=
  takeWhile_separated (fun _ => isDigit_of_isSpace) (fun _ => isDigit_of_mem_decimal) hrest

theorem ofDigitChars_decimal (value : Nat) : Nat.ofDigitChars 10 (decimal value) 0 = value :=
  Nat.ofDigitChars_ten_toDigits

theorem strtoull_decimal (value : BitVec 64) : strtoull false (decimal value.toNat) = value := by
  have hvalue : (decimal value.toNat).foldl
      (fun value digit => 10 * value + (digit.toNat - 48)) 0 = value.toNat :=
    ofDigitChars_decimal value.toNat
  unfold strtoull
  simp only [hvalue]
  rw [if_neg (Nat.not_le.mpr value.isLt)]
  simp

/-- An unsigned number is read back. -/
theorem unsigned_decimal (value : BitVec 64) (hrest : Separated rest) :
    unsigned (decimal value.toNat ++ rest) = (some value, rest) := by
  obtain ⟨htake, hdrop⟩ := takeWhile_decimal value.toNat hrest
  unfold unsigned
  rw [sign_skipSpace_decimal]
  simp only [htake, hdrop]
  rw [if_neg (decimal_ne_nil _), strtoull_decimal]

/-- An integer is read back. -/
theorem integer_decimalInt (value : Int) (hrest : Separated rest) :
    integer (decimalInt value ++ rest) = (some value, rest) := by
  obtain ⟨htake, hdrop⟩ := takeWhile_decimal value.natAbs hrest
  unfold integer decimalInt
  by_cases hnegative : value < 0
  · have hskip : skipSpace ('-' :: decimal value.natAbs ++ rest) =
        '-' :: (decimal value.natAbs ++ rest) := skipSpace_cons_of_not (by decide) _
    have hsign : sign ('-' :: (decimal value.natAbs ++ rest)) =
        (true, decimal value.natAbs ++ rest) := rfl
    have hvalue : -(value.natAbs : Int) = value := by omega
    rw [if_pos hnegative, hskip, hsign]
    simp only [htake, hdrop, if_neg (decimal_ne_nil _), ofDigitChars_decimal, if_true, hvalue]
  · have hvalue : (value.natAbs : Int) = value := by omega
    rw [if_neg hnegative, sign_skipSpace_decimal]
    simp only [htake, hdrop, if_neg (decimal_ne_nil _), ofDigitChars_decimal, hvalue]
    rfl

/-! ## Several words -/

/-- The text consists of the words, each after a blank of the allowed characters. -/
inductive Spells (allowed : Char → Bool) : List (List Char) → List Char → Prop where
  | nil : Spells allowed [] []
  | cons {word words blank text} (hblank : Blank blank)
      (hallowed : ∀ char ∈ blank, allowed char = true) (htail : Spells allowed words text) :
      Spells allowed (word :: words) (blank ++ word ++ text)

variable {allowed : Char → Bool} {words : List (List Char)}

theorem Spells.separated (hspells : Spells allowed words text) (hrest : Separated rest) :
    Separated (text ++ rest) := by
  cases hspells with
  | nil => exact hrest
  | cons hblank hallowed htail =>
      rw [List.append_assoc, List.append_assoc]
      exact hblank.separated _

theorem Spells.ne_nil (hspells : Spells allowed words text) (hwords : words ≠ []) :
    text ≠ [] := by
  cases hspells with
  | nil => exact absurd rfl hwords
  | cons hblank hallowed htail => simp [hblank.1]

/-- What stands in the text is allowed white space or belongs to a word. -/
theorem Spells.mem_cases (hspells : Spells allowed words text) {char : Char}
    (hchar : char ∈ text) :
    (isSpace char = true ∧ allowed char = true) ∨ ∃ word ∈ words, char ∈ word := by
  induction hspells with
  | nil => cases hchar
  | cons hblank hallowed htail ih =>
      rcases List.mem_append.mp hchar with hhead | hlater
      · rcases List.mem_append.mp hhead with hfirst | hword
        · exact Or.inl ⟨hblank.2 char hfirst, hallowed char hfirst⟩
        · exact Or.inr ⟨_, List.mem_cons_self, hword⟩
      · apply (ih hlater).imp_right
        rintro ⟨word, hmem, hword⟩
        exact ⟨word, List.mem_cons_of_mem _ hmem, hword⟩

/-- The text begins with the words and goes on with the rest, up to what the conversions
skip. -/
structure Begins (words : List (List Char)) (rest text : List Char) : Prop where
  separated : Separated rest
  spelled : ∃ allowed spelled, Spells allowed words spelled ∧
    skipSpace text = skipSpace (spelled ++ rest)

theorem Spells.begins (hspells : Spells allowed words text) (hrest : Separated rest) :
    Begins words rest (text ++ rest) := ⟨hrest, allowed, text, hspells, rfl⟩

/-- White space in front of the text does not matter. -/
theorem Begins.congr (hbegins : Begins words rest text) (hsame : skipSpace other = skipSpace text) :
    Begins words rest other := by
  obtain ⟨hrest, allowed, spelled, hspells, htext⟩ := hbegins
  exact ⟨hrest, allowed, spelled, hspells, hsame.trans htext⟩

theorem Begins.skipSpace (hbegins : Begins words rest text) :
    Begins words rest (skipSpace text) := hbegins.congr (skipSpace_skipSpace text)

/-- After the last word comes the rest. -/
theorem Begins.done (hbegins : Begins [] rest text) :
    Scan.skipSpace text = Scan.skipSpace rest := by
  obtain ⟨hrest, allowed, spelled, hspells, htext⟩ := hbegins
  cases hspells with
  | nil => exact htext

/-- The first word of a text, and what the text goes on with. -/
theorem Begins.cons (hbegins : Begins (word :: words) rest text) :
    ∃ left, Scan.skipSpace text = Scan.skipSpace (word ++ left) ∧ Separated left ∧
      Begins words rest left := by
  obtain ⟨hrest, allowed, spelled, hspells, hsame⟩ := hbegins
  cases hspells with
  | @cons _ _ blank spelled hblank hallowed htail =>
      refine ⟨spelled ++ rest, ?_, htail.separated hrest, htail.begins hrest⟩
      rw [hsame, List.append_assoc, List.append_assoc, skipSpace_append hblank.2]

theorem Begins.token (hbegins : Begins (word :: words) rest text) (hne : word ≠ [])
    (hword : ∀ char ∈ word, isSpace char = false) :
    ∃ left, Scan.token text = (some word, left) ∧ Begins words rest left := by
  obtain ⟨left, hsame, hleft, htail⟩ := hbegins.cons
  exact ⟨left, (token_congr hsame).trans (token_word hne hword hleft), htail⟩

theorem Begins.unsigned {value : BitVec 64}
    (hbegins : Begins (decimal value.toNat :: words) rest text) :
    ∃ left, Scan.unsigned text = (some value, left) ∧ Begins words rest left := by
  obtain ⟨left, hsame, hleft, htail⟩ := hbegins.cons
  exact ⟨left, (unsigned_congr hsame).trans (unsigned_decimal value hleft), htail⟩

theorem Begins.integer {value : Int} (hbegins : Begins (decimalInt value :: words) rest text) :
    ∃ left, Scan.integer text = (some value, left) ∧ Begins words rest left := by
  obtain ⟨left, hsame, hleft, htail⟩ := hbegins.cons
  exact ⟨left, (integer_congr hsame).trans (integer_decimalInt value hleft), htail⟩

/-! ## Printed words -/

theorem blank_space : Blank [' '] := by
  constructor <;> simp [isSpace]

/-- The words, each after a space. -/
def printWords (words : List (List Char)) : List Char := words.flatMap (' ' :: ·)

theorem spells_printWords (hallowed : allowed ' ' = true) (words : List (List Char)) :
    Spells allowed words (printWords words) := by
  induction words with
  | nil => exact .nil
  | cons word words ih => exact .cons blank_space (by simpa using hallowed) ih

/-- What follows the printed words is left open. -/
theorem begins_printWords (words : List (List Char)) (hrest : Separated rest) :
    Begins words rest (printWords words ++ rest) :=
  (@spells_printWords (fun _ => true) rfl words).begins hrest

/-! ## Formats -/

/-- How many numbers a format takes. -/
def conversions : List Directive → Nat
  | [] => 0
  | .space :: format => conversions format
  | .unsigned :: format => conversions format + 1

/-- A format with as many conversions as there are numbers reads them all. -/
theorem Begins.scan {format : List Directive} {values : List (BitVec 64)}
    (hcount : conversions format = values.length)
    (hbegins : Begins (values.map (fun value => decimal value.toNat) ++ words) rest text) :
    ∃ left, Scan.scan format text = (values, left) ∧ Begins words rest left := by
  induction format generalizing values text with
  | nil =>
      obtain rfl := List.eq_nil_of_length_eq_zero hcount.symm
      exact ⟨text, rfl, hbegins⟩
  | cons directive format ih =>
      cases directive with
      | space => exact ih hcount hbegins.skipSpace
      | unsigned =>
          cases values with
          | nil => cases hcount
          | cons value values =>
              obtain ⟨middle, hvalue, hmiddle⟩ := hbegins.unsigned
              obtain ⟨left, hvalues, hleft⟩ := ih (Nat.succ.inj hcount) hmiddle
              refine ⟨left, ?_, hleft⟩
              simp only [Scan.scan, hvalue, hvalues]

/-! ## Lines -/

/-- What `fgets` takes of a line that fits its array: the line, with the newline where there is
room for it. -/
theorem line_append {count : Nat} (hline : ∀ char ∈ text, char.toNat ≠ 10)
    (hlength : text.length ≤ count) (hrest : ∀ char tail, rest = char :: tail → char.toNat = 10) :
    ∃ ending left, line count (text ++ rest) = (text ++ ending, left) ∧
      (∀ char ∈ ending, char.toNat = 10) ∧ skipSpace left = skipSpace rest := by
  induction text generalizing count with
  | nil =>
      cases count with
      | zero => exact ⟨[], rest, rfl, nofun, rfl⟩
      | succ count =>
          cases rest with
          | nil => exact ⟨[], [], rfl, nofun, rfl⟩
          | cons char tail =>
              have hchar := hrest char tail rfl
              refine ⟨[char], tail, ?_, ?_, ?_⟩
              · simp [line, hchar]
              · simpa using hchar
              · simp [skipSpace, isSpace, hchar]
  | cons char text ih =>
      cases count with
      | zero => cases hlength
      | succ count =>
          have hchar := hline char List.mem_cons_self
          obtain ⟨ending, left, hread, hending, hleft⟩ :=
            ih (fun other hother => hline other (List.mem_cons_of_mem _ hother))
              (Nat.le_of_succ_le_succ hlength)
          refine ⟨ending, left, ?_, hending, hleft⟩
          simp [line, hchar, hread]

end Scan
