/-!
# Digits — numbers written with ASCII digits

A number is one or more digits of its base and nothing else: no sign, no blank, no separator. Any count of leading
zeros is allowed, so one number has many written forms.
-/
namespace OfficePreview.Text

/-- The value of an ASCII digit, letters of either case counting from ten, if it is a digit of `base`. -/
def digit? (base : Nat) (c : Char) : Option Nat :=
  let value :=
    if '0' ≤ c ∧ c ≤ '9' then c.toNat - 48
    else if 'a' ≤ c ∧ c ≤ 'f' then c.toNat - 87
    else if 'A' ≤ c ∧ c ≤ 'F' then c.toNat - 55
    else base
  if value < base then some value else none

/-- The number that the digits of `base` write, the most significant first. -/
def number? (base : Nat) (cs : List Char) : Option Nat :=
  if cs.isEmpty then none else cs.foldlM (fun n c => (digit? base c).map (n * base + ·)) 0

end OfficePreview.Text
