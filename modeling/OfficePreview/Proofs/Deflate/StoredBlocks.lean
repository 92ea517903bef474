import OfficePreview.Proofs.Deflate.Inflated
import OfficePreview.Proofs.Zip.Agreement
/-!
# StoredBlocks — streams of bytes as they stand

Any content can be written as a stream without compressing it: it is cut into blocks of at most 65535 bytes, and each
block is written with its length in front (`StoredBlock.written`).  A block starts at the boundary of a byte if the block
before it ends there, so the bits of such blocks are the bits of their bytes (`blocks_streamOf`).  The stream is inflated
to the bytes of its blocks, whatever comes after it (`inflate_streamOf`).
-/
namespace OfficePreview.Deflate

open Zip (digits length_digits)

/-! ## The bits of bytes -/

/-- A number in more bits is its remainder and then its quotient. -/
theorem numeral_add : ∀ (m n value : Nat), numeral (m + n) value = numeral m value ++ numeral n (value / 2 ^ m)
  | 0, n, value => by rw [Nat.zero_add, Nat.pow_zero, Nat.div_one, numeral, List.nil_append]
  | m + 1, n, value => by
    rw [Nat.add_right_comm, numeral, numeral_add m n, numeral, Nat.div_div_eq_div_mul, ← Nat.pow_succ', List.cons_append]

theorem numeral_mod : ∀ (width value : Nat), numeral width (value % 2 ^ width) = numeral width value
  | 0, _ => rfl
  | n + 1, value => by
    have hodd : value % 2 ^ (n + 1) % 2 = value % 2 := Nat.mod_mod_of_dvd value ⟨2 ^ n, Nat.pow_succ'⟩
    have hhalf : value % 2 ^ (n + 1) / 2 = value / 2 % 2 ^ n := by rw [Nat.pow_succ', Nat.mod_mul_right_div_self]
    rw [numeral, numeral, hodd, hhalf, numeral_mod n]

/-- The bits of bytes in a list, one byte after the other. -/
def bitsOf (xs : List UInt8) : List Bool := xs.flatMap fun b => numeral 8 b.toNat

theorem bitsOf_append (xs ys : List UInt8) : bitsOf (xs ++ ys) = bitsOf xs ++ bitsOf ys := List.flatMap_append

theorem bitsOf_digits : ∀ (width value : Nat), bitsOf (digits width value) = numeral (8 * width) value
  | 0, _ => rfl
  | n + 1, value => by
    have hbyte : numeral 8 (UInt8.ofNat value).toNat = numeral 8 value := by
      rw [UInt8.toNat_ofNat', numeral_mod]
    have hrest : bitsOf (digits n (value / 256)) = numeral (8 * n) (value / 2 ^ 8) := bitsOf_digits n (value / 256)
    rw [digits, bitsOf, List.flatMap_cons, hbyte, ← bitsOf, hrest, Nat.mul_add, Nat.add_comm (8 * n), numeral_add]

/-! ## Blocks -/

/-- A block of bytes as they stand, and the bits that fill the byte of its header. -/
structure StoredBlock where
  padding : Nat
  data : ByteArray
  padding_lt : padding < 32
  short : data.size ≤ 65535

namespace StoredBlock

/-- The byte of the header: whether the block is final, its type, which is zero, and the filling bits. -/
def header (block : StoredBlock) (final : Bool) : UInt8 := UInt8.ofNat (final.toNat + 8 * block.padding)

def written (block : StoredBlock) (final : Bool) : List UInt8 :=
  block.header final :: (digits 2 block.data.size ++ (digits 2 (65535 - block.data.size) ++ block.data.data.toList))

theorem bits_header (block : StoredBlock) (final : Bool) :
    numeral 8 (block.header final).toNat = final :: (numeral 2 0 ++ numeral 5 block.padding) := by
  have hpadding := block.padding_lt
  have hfinal := Bool.toNat_le final
  have hlt : final.toNat + 8 * block.padding < 2 ^ 8 := by omega
  have hrest : (final.toNat + 8 * block.padding) / 2 ^ 3 = block.padding := by omega
  have hthree : numeral 3 (final.toNat + 8 * block.padding) = final :: numeral 2 0 := by
    have hmod : (final.toNat + 8 * block.padding) % 2 ^ 3 = final.toNat := by omega
    rw [← numeral_mod, hmod]
    cases final <;> rfl
  rw [header, UInt8.toNat_ofNat', Nat.mod_eq_of_lt hlt, numeral_add 3 5, hthree, hrest, List.cons_append]

/-- The bits of a block after its first three. -/
def body (block : StoredBlock) : List Bool :=
  numeral 5 block.padding ++ (numeral 16 block.data.size ++ (numeral 16 (65535 - block.data.size) ++ octets block.data))

theorem length_body (block : StoredBlock) : block.body.length = 5 + 32 + 8 * block.data.size := by
  simp only [body, List.length_append, length_numeral, length_octets]
  omega

theorem bitsOf_written (block : StoredBlock) (final : Bool) :
    bitsOf (block.written final) = final :: (numeral 2 0 ++ block.body) := by
  rw [written, bitsOf, List.flatMap_cons, bits_header, ← bitsOf, bitsOf_append, bitsOf_append, bitsOf_digits,
    bitsOf_digits, List.cons_append, List.append_assoc]
  rfl

/-- **A block that starts at a byte** stands for its bytes. -/
theorem stored_body (block : StoredBlock) (i : Nat) (out : ByteArray) :
    Body (8 * i + 3) out 0 block.body (out ++ block.data) := by
  refine .stored (.mk ?_ (Nat.lt_succ_of_le block.short))
  rw [length_numeral]
  omega

end StoredBlock

/-! ## Streams -/

/-- The bytes of a stream of blocks, the last of them final. -/
def streamOf : List StoredBlock → List UInt8
  | [] => []
  | block :: blocks => block.written blocks.isEmpty ++ streamOf blocks

/-- The bytes that blocks stand for. -/
def contentOf : List StoredBlock → ByteArray
  | [] => .empty
  | block :: blocks => block.data ++ contentOf blocks

/-- **The bits of stored blocks are blocks** that stand for their bytes, from any byte on. -/
theorem blocks_streamOf : ∀ (blocks : List StoredBlock), blocks ≠ [] → ∀ (i : Nat) (out : ByteArray),
    Blocks (8 * i) out (bitsOf (streamOf blocks)) (out ++ contentOf blocks)
  | [], ne, _, _ => absurd rfl ne
  | [block], _, i, out => by
    rw [streamOf, streamOf, List.append_nil, contentOf, contentOf, ByteArray.append_empty, StoredBlock.bitsOf_written]
    exact .final (block.stored_body i out)
  | block :: next :: blocks, _, i, out => by
    have rest := blocks_streamOf (next :: blocks) (List.cons_ne_nil next blocks) (i + 5 + block.data.size)
      (out ++ block.data)
    have hend : 8 * (i + 5 + block.data.size) = 8 * i + 3 + block.body.length := by
      rw [block.length_body]
      omega
    rw [hend, ByteArray.append_assoc] at rest
    rw [streamOf, bitsOf_append, StoredBlock.bitsOf_written, List.cons_append, List.append_assoc, contentOf]
    exact .more (block.stored_body i out) rest

/-- **A stream of stored blocks is inflated to their bytes**, and what comes after it is not looked at. -/
theorem inflate_streamOf {blocks : List StoredBlock} (ne : blocks ≠ []) (trailing : List UInt8) :
    inflate (streamOf blocks ++ trailing).toByteArray = .ok (contentOf blocks) := by
  have stream : IsStream (bitsOf (streamOf blocks)) (contentOf blocks) := by
    have hblocks := blocks_streamOf blocks ne 0 .empty
    rw [ByteArray.empty_append] at hblocks
    exact hblocks
  have stands : BitsAt (streamOf blocks ++ trailing).toByteArray (8 * 0) (bitsOf (streamOf blocks)) := by
    refine bitsAt_flatMap_iff.2 fun k hk => ?_
    rw [Nat.zero_add, ← Zip.getElem?_toList, List.toList_data_toByteArray, List.getElem?_append_left hk]
  exact inflate_eq_ok_iff.2 ⟨_, stream, stands⟩

end OfficePreview.Deflate
