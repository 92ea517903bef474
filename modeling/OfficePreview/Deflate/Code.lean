import OfficePreview.Deflate.Bits
/-!
# Code — prefix codes as trees

A code is given by the length of each symbol's code word. Words of one length are consecutive numbers in the order of
their symbols, and they come before the words of every greater length; so the nodes of one level of the tree are, from
left to right, the leaves of that length followed by the parents of the nodes one level below. A tree is built from the
bottom level up in that way.

Lengths may not ask for more words than there are, and a code whose words leave room is refused, with two exceptions:
a code without any word, which no stream may use, and, where it is allowed, a code of one single-bit word.
-/
namespace OfficePreview.Deflate

/-- A prefix code: what the bits read so far lead to. -/
inductive Code
  | vacant
  | leaf (symbol : Nat)
  | branch (zero one : Code)
deriving Repr

namespace Code

def maxLength : Nat := 15

def pairUp : List Code → List Code
  | [] => []
  | [a] => [.branch a .vacant]
  | a :: b :: rest => .branch a b :: pairUp rest

/-- The symbols whose words have `length` bits, as leaves. -/
def leaves (lengths : List Nat) (length : Nat) : List Code :=
  (lengths.zipIdx.filter (·.1 = length)).map fun (_, symbol) => .leaf symbol

/-- The nodes that lie `length` bits below the root, when words have `length + levels` bits at the most. -/
def level (lengths : List Nat) (length : Nat) : (levels : Nat) → List Code
  | 0 => leaves lengths length
  | n + 1 => leaves lengths length ++ pairUp (level lengths (length + 1) n)

/-- The tree of a code given by its lengths, length zero standing for a symbol without a word. -/
def ofLengths (lengths : List Nat) : Code :=
  match level lengths 1 (maxLength - 1) with
  | [] => .vacant
  | [a] => .branch a .vacant
  | a :: b :: _ => .branch a b

/-- How many of the `2 ^ maxLength` longest words the words of a code take up. -/
def wordsUsed (lengths : List Nat) : Nat :=
  lengths.foldr (fun length used => (if length = 0 then 0 else 1 <<< (maxLength - length)) + used) 0

/-- The tree of a code, unless its lengths ask for too much or leave room that they may not leave. -/
def ofLengths? (loneWord : Bool) (lengths : List Nat) : Option Code :=
  if wordsUsed lengths > 1 <<< maxLength then none
  else if wordsUsed lengths = 1 <<< maxLength ∨ lengths.all (· = 0) ∨ (loneWord ∧ lengths.all (· ≤ 1)) then
    some (ofLengths lengths)
  else none

/-- Follows the bits from `pos` on down to a leaf, and gives its symbol with the position after the bits read. -/
def follow (bytes : ByteArray) : Code → Nat → Except Failure (Nat × Nat)
  | .vacant, _ => .error .corrupt
  | .leaf symbol, pos => .ok (symbol, pos)
  | .branch zero one, pos =>
    match bit? bytes pos with
    | none => .error .incomplete
    | some false => zero.follow bytes (pos + 1)
    | some true => one.follow bytes (pos + 1)

/-- Reads one symbol at `pos`. At least one bit is read, also of a code without words. -/
def decode (code : Code) (bytes : ByteArray) (pos : Nat) : Except Failure (Nat × Nat) :=
  match code with
  | .branch .. => code.follow bytes pos
  | _ => if (bit? bytes pos).isNone then .error .incomplete else .error .corrupt

theorem le_of_follow {bytes : ByteArray} {code : Code} {pos symbol next : Nat}
    (h : code.follow bytes pos = .ok (symbol, next)) : pos ≤ next := by
  induction code generalizing pos with
  | vacant => cases h
  | leaf s => cases h; exact Nat.le_refl _
  | branch zero one ihz iho =>
    unfold follow at h
    split at h
    · cases h
    · exact Nat.le_of_succ_le (ihz h)
    · exact Nat.le_of_succ_le (iho h)

theorem lt_of_decode {bytes : ByteArray} {code : Code} {pos symbol next : Nat}
    (h : code.decode bytes pos = .ok (symbol, next)) : pos < next ∧ pos < 8 * bytes.size := by
  unfold decode at h
  split at h
  · unfold follow at h
    split at h
    · cases h
    · rename_i hb; exact ⟨le_of_follow h, lt_of_bit? hb⟩
    · rename_i hb; exact ⟨le_of_follow h, lt_of_bit? hb⟩
  · split at h <;> cases h

end Code

end OfficePreview.Deflate
