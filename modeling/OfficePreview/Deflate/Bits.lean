/-!
# Bits — a byte buffer read bit by bit

Bit `p` of a buffer is bit `p % 8` of its byte `p / 8`, the least significant bit of a byte first. Numbers are stored
least significant bit first. A stream that ends inside a field is incomplete, which is told apart from one that cannot
be right however it goes on.
-/
namespace OfficePreview.Deflate

/-- Why a stream gives no bytes. -/
inductive Failure
  | corrupt
  | incomplete
deriving DecidableEq, Repr

def Failure.message : Failure → String
  | .corrupt => "corrupt deflate stream"
  | .incomplete => "incomplete deflate stream"

def bit? (bytes : ByteArray) (pos : Nat) : Option Bool := bytes[pos / 8]?.map fun b => b.toNat.testBit (pos % 8)

/-- The number in the `count` bits from `pos` on. -/
def bits (bytes : ByteArray) : (count pos : Nat) → Except Failure Nat
  | 0, _ => .ok 0
  | n + 1, pos =>
    match bit? bytes pos with
    | none => .error .incomplete
    | some b => (bits bytes n (pos + 1)).map (b.toNat + 2 * ·)

theorem lt_of_bit? {bytes : ByteArray} {pos : Nat} {b : Bool} (h : bit? bytes pos = some b) : pos < 8 * bytes.size := by
  unfold bit? at h
  obtain ⟨x, hx, -⟩ := Option.map_eq_some_iff.1 h
  have : pos / 8 < bytes.size := (getElem?_eq_some_iff.1 hx).1
  omega

theorem lt_of_bits {bytes : ByteArray} {n pos v : Nat} (h : bits bytes (n + 1) pos = .ok v) : pos < 8 * bytes.size := by
  unfold bits at h
  split at h
  · cases h
  · rename_i hb
    exact lt_of_bit? hb

end OfficePreview.Deflate
