import Mathlib.Algebra.Order.Ring.Nat
import Mathlib.Data.List.Basic

/-! # Formatted input

What the input functions of C take from a text in memory: words and lines, and the unsigned
numbers of a format. A format stops at its first conversion that fails. The conversions
before it have their values, and the others have none.
-/

namespace Scan

/-- `isspace`: a blank, or one of the characters from tab to carriage return. -/
def isSpace (char : Char) : Bool := char.toNat == 32 || (9 ≤ char.toNat && char.toNat ≤ 13)

def skipSpace (text : List Char) : List Char := text.dropWhile isSpace

/-- `%s`: the next word, `none` at the end of the text. -/
def token (text : List Char) : Option (List Char) × List Char :=
  let text := skipSpace text
  if text = [] then (none, text)
  else (some (text.takeWhile (!isSpace ·)), text.dropWhile (!isSpace ·))

/-- An optional sign: whether it is a minus, and what follows it. -/
def sign : List Char → Bool × List Char
  | [] => (false, [])
  | char :: rest =>
      if char = '-' then (true, rest)
      else if char = '+' then (false, rest)
      else (false, char :: rest)

/-- `strtoull` of some digits. A number that does not fit is the largest one, and a minus
negates within the word. -/
def strtoull (negative : Bool) (digits : List Char) : BitVec 64 :=
  let value := digits.foldl (fun value digit => 10 * value + (digit.toNat - 48)) 0
  if value ≥ 2 ^ 64 then BitVec.allOnes 64
  else if negative then -BitVec.ofNat 64 value
  else BitVec.ofNat 64 value

/-- `%llu`: the next number, `none` when the text does not go on with one. A sign without
digits is taken from the text all the same. -/
def unsigned (text : List Char) : Option (BitVec 64) × List Char :=
  let (negative, text) := sign (skipSpace text)
  let digits := text.takeWhile Char.isDigit
  (if digits = [] then none else some (strtoull negative digits), text.dropWhile Char.isDigit)

/-- `%d`, before the number is stored: its value, `none` when the text does not go on with
one. -/
def integer (text : List Char) : Option Int × List Char :=
  let (negative, text) := sign (skipSpace text)
  let digits := text.takeWhile Char.isDigit
  let value : Int := Nat.ofDigitChars 10 digits 0
  (if digits = [] then none else some (if negative then -value else value),
    text.dropWhile Char.isDigit)

/-- A directive of a format: white space, or the conversion of a number. -/
inductive Directive where
  | space
  | unsigned

/-- `scanf`: the values of the conversions that match, and the rest of the text. -/
def scan : List Directive → List Char → List (BitVec 64) × List Char
  | [], text => ([], text)
  | .space :: format, text => scan format (skipSpace text)
  | .unsigned :: format, text =>
      match unsigned text with
      | (none, rest) => ([], rest)
      | (some value, rest) => (value :: (scan format rest).1, (scan format rest).2)

/-- The text up to and with the next newline, but no more than `count` characters of it. -/
def line : Nat → List Char → List Char × List Char
  | 0, text => ([], text)
  | _ + 1, [] => ([], [])
  | count + 1, char :: rest =>
      if char.toNat = 10 then ([char], rest)
      else (char :: (line count rest).1, (line count rest).2)

/-- `fgets` into an array of the given size, `none` at the end of the text. -/
def fgets (size : Nat) (text : List Char) : Option (List Char) × List Char :=
  if text = [] then (none, text)
  else (some (line (size - 1) text).1, (line (size - 1) text).2)

end Scan
