import OfficePreview.Text.Digits
/-!
# Reference — columns by letters, rows by numbers

Columns are named `A` to `Z`, then `AA`, `AB` and so on: the bijective numerals of base 26, in which no letter stands for
zero. A reference is a column in letters of either case followed by the number of a row, counted from one. Positions are
counted from zero, and a reference beyond the largest sheet is none.
-/
namespace OfficePreview.Sheet

/-- The number of columns of the largest sheet, `A` to `XFD`. -/
def maxColumns : Nat := 16384

def maxRows : Nat := 1048576

/-- An ASCII letter. -/
def isLetter (c : Char) : Bool := c.isAlpha

/-- The value of a letter as a digit, from one to 26. -/
def letterValue (c : Char) : Nat := c.toUpper.toNat - 64

/-- The column after one more letter; there is none once the largest sheet is left. -/
def columnStep (n : Nat) (c : Char) : Option Nat :=
  if isLetter c then
    let next := n * 26 + letterValue c
    if next > maxColumns then none else some next
  else none

def columnOfLetters? (letters : List Char) : Option Nat :=
  if letters.isEmpty then none else (letters.foldlM columnStep 0).map (· - 1)

/-- The letters of the number `n` in front of `tail`, one being `A`; zero has no letters. -/
def lettersOnto (tail : List Char) (n : Nat) : List Char :=
  match n with
  | 0 => tail
  | m + 1 => lettersOnto (Char.ofNat (65 + m % 26) :: tail) (m / 26)
termination_by n
decreasing_by omega

def columnLetters (column : Nat) : String := String.ofList (lettersOnto [] (column + 1))

/-- The row that a reference numbers. The number is converted to a word of 32 bits, which takes any count of leading zeros;
that a number is too great for the word does not show, since it is beyond the last row. -/
def rowOfDigits? (digits : List Char) : Option Nat := do
  let number ← Text.number? 10 digits
  if 1 ≤ number ∧ number ≤ maxRows then some (number - 1) else none

/-- The position of a cell. -/
structure Position where
  row : Nat
  column : Nat
deriving DecidableEq, Repr

def Position.ofReference? (reference : String) : Option Position := do
  let column ← columnOfLetters? (reference.toList.takeWhile isLetter)
  let row ← rowOfDigits? (reference.toList.dropWhile isLetter)
  some { row, column }

end OfficePreview.Sheet
