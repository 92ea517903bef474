/-!
# Utf8 — decoding bytes that may not be UTF-8

A lead byte fixes how many bytes follow it and the range each must lie in. A sequence that breaks off is replaced by one
U+FFFD for the part that could still have become a character; the byte that broke it is read again as a lead.
-/
namespace OfficePreview.Text

/-- What stands for a sequence that is no character. -/
def replacement : Char := '\uFFFD'

/-- The bits that a lead byte contributes and the ranges of the bytes after it; none for a byte that leads nothing. -/
def followers? (lead : UInt8) : Option (Nat × List (UInt8 × UInt8)) :=
  if lead < 0x80 then some (lead.toNat, [])
  else if lead < 0xC2 then none
  else if lead < 0xE0 then some (lead.toNat - 0xC0, [(0x80, 0xBF)])
  else if lead < 0xF0 then
    some (lead.toNat - 0xE0, [(if lead = 0xE0 then 0xA0 else 0x80, if lead = 0xED then 0x9F else 0xBF), (0x80, 0xBF)])
  else if lead < 0xF5 then
    some (lead.toNat - 0xF0,
      [(if lead = 0xF0 then 0x90 else 0x80, if lead = 0xF4 then 0x8F else 0xBF), (0x80, 0xBF), (0x80, 0xBF)])
  else none

/-- Reads the bytes that must follow a lead, and gives the character with the bytes left over. -/
def completeChar (value : Nat) : List (UInt8 × UInt8) → List UInt8 → Char × List UInt8
  | [], bytes => (Char.ofNat value, bytes)
  | _ :: _, [] => (replacement, [])
  | (low, high) :: ranges, b :: bytes =>
    if low ≤ b ∧ b ≤ high then completeChar (value * 64 + b.toNat % 64) ranges bytes else (replacement, b :: bytes)

theorem completeChar_length_le (value : Nat) (ranges : List (UInt8 × UInt8)) (bytes : List UInt8) :
    (completeChar value ranges bytes).2.length ≤ bytes.length := by
  fun_induction completeChar value ranges bytes with
  | case1 => exact Nat.le_refl _
  | case2 => exact Nat.le_refl _
  | case3 => rename_i ih; exact Nat.le_succ_of_le ih
  | case4 => exact Nat.le_refl _

/-- The first character of `lead :: bytes` and the bytes after it. -/
def firstChar (lead : UInt8) (bytes : List UInt8) : Char × List UInt8 :=
  match followers? lead with
  | none => (replacement, bytes)
  | some (value, ranges) => completeChar value ranges bytes

theorem firstChar_length_le (lead : UInt8) (bytes : List UInt8) : (firstChar lead bytes).2.length ≤ bytes.length := by
  unfold firstChar
  split
  · exact Nat.le_refl _
  · exact completeChar_length_le ..

/-- The characters of a byte sequence after those in `decoded`, which are held last first. -/
def decodeOnto (decoded : List Char) : List UInt8 → List Char
  | [] => decoded.reverse
  | lead :: bytes => decodeOnto ((firstChar lead bytes).1 :: decoded) (firstChar lead bytes).2
termination_by bytes => bytes.length
decreasing_by exact Nat.lt_succ_of_le (firstChar_length_le lead bytes)

/-- The text of a byte sequence read as UTF-8, U+FFFD standing for what is not. -/
def decode (bytes : ByteArray) : String := String.ofList (decodeOnto [] bytes.data.toList)

end OfficePreview.Text
