/-!
# Hex — numbers for messages in base sixteen
-/
namespace OfficePreview.Text

/-- A number with the sign of its base and eight digits at the least. -/
def hexWord (n : Nat) : String :=
  let digits := Nat.toDigits 16 n
  "0x" ++ String.ofList (List.replicate (8 - digits.length) '0' ++ digits)

end OfficePreview.Text
