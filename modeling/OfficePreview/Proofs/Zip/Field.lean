import Mathlib.Algebra.Group.Nat.Defs
import OfficePreview.Zip.Record
/-!
# Field — the numbers and the texts that stand in a buffer

A buffer is looked at as the list of its bytes.  A field of some width at a position is the number that its bytes write in
base 256, least digit first; the readers give this number where the whole field lies inside the buffer and nothing
elsewhere (`uint16?_eq`, `uint32?_eq`), and so a record is read where its last field lies inside.

Digits are recovered from the number (`number_inj`), so that a signature is read exactly where its bytes stand
(`uint32?_eq_some_iff`).
-/
namespace OfficePreview.Zip

/-! ## Numbers -/

def number : List UInt8 → Nat
  | [] => 0
  | b :: bs => b.toNat + 256 * number bs

/-- The digits of a number modulo `256 ^ width`. -/
def digits : (width value : Nat) → List UInt8
  | 0, _ => []
  | n + 1, value => UInt8.ofNat value :: digits n (value / 256)

@[simp] theorem length_digits (width value : Nat) : (digits width value).length = width := by
  induction width generalizing value with
  | zero => rfl
  | succ n ih => rw [digits, List.length_cons, ih]

theorem number_digits {width value : Nat} (h : value < 256 ^ width) : number (digits width value) = value := by
  induction width generalizing value with
  | zero => simp only [Nat.pow_zero] at h; simp only [digits, number]; omega
  | succ n ih =>
    rw [digits, number, ih (by rw [Nat.pow_succ] at h; omega), UInt8.toNat_ofNat']
    omega

theorem number_append (xs ys : List UInt8) : number (xs ++ ys) = number xs + 256 ^ xs.length * number ys := by
  induction xs with
  | nil => simp [number]
  | cons x xs ih =>
    rw [List.cons_append, number, ih, number, List.length_cons, Nat.pow_succ', Nat.mul_add, Nat.add_assoc,
      Nat.mul_assoc]

theorem number_inj {xs ys : List UInt8} (hl : xs.length = ys.length) (h : number xs = number ys) : xs = ys := by
  induction xs generalizing ys with
  | nil => exact (List.eq_nil_of_length_eq_zero hl.symm).symm
  | cons x xs ih =>
    cases ys with
    | nil => cases hl
    | cons y ys =>
      have hx := x.toNat_lt
      have hy := y.toNat_lt
      simp only [number] at h
      obtain rfl : x = y := UInt8.toNat_inj.1 (by omega)
      rw [ih (Nat.succ.inj hl) (by omega)]

/-! ## Bytes at a position -/

/-- The bytes `xs` stand at position `i`. -/
def StandsAt (bytes : ByteArray) (i : Nat) (xs : List UInt8) : Prop := xs <+: bytes.data.toList.drop i

instance (bytes : ByteArray) (i : Nat) (xs : List UInt8) : Decidable (StandsAt bytes i xs) :=
  inferInstanceAs (Decidable (_ <+: _))

/-- The number in the `width` bytes at position `i`. -/
def field (bytes : ByteArray) (i width : Nat) : Nat := number ((bytes.data.toList.drop i).take width)

variable {bytes : ByteArray} {i : Nat}

theorem length_toList (bytes : ByteArray) : bytes.data.toList.length = bytes.size := rfl

theorem StandsAt.le_size {xs : List UInt8} (h : StandsAt bytes i xs) (hx : xs ≠ []) : i + xs.length ≤ bytes.size := by
  have hlen := h.length_le
  have hpos := List.length_pos_iff.2 hx
  rw [List.length_drop, length_toList] at hlen
  omega

theorem StandsAt.take_eq {xs : List UInt8} (h : StandsAt bytes i xs) :
    (bytes.data.toList.drop i).take xs.length = xs := (List.prefix_iff_eq_take.1 h).symm

theorem StandsAt.field_eq {xs : List UInt8} (h : StandsAt bytes i xs) : field bytes i xs.length = number xs := by
  rw [field, h.take_eq]

theorem standsAt_append {xs ys : List UInt8} :
    StandsAt bytes i (xs ++ ys) ↔ StandsAt bytes i xs ∧ StandsAt bytes (i + xs.length) ys := by
  unfold StandsAt
  rw [← List.drop_drop]
  constructor
  · rintro ⟨rest, h⟩
    rw [← h, List.append_assoc, List.drop_left]
    exact ⟨List.prefix_append .., List.prefix_append ..⟩
  · rintro ⟨⟨rest, h⟩, hy⟩
    rw [← h, List.drop_left] at hy
    rw [← h]
    exact (List.prefix_append_right_inj xs).2 hy

theorem length_take_drop {width : Nat} (h : i + width ≤ bytes.size) :
    ((bytes.data.toList.drop i).take width).length = width := by
  rw [List.length_take, List.length_drop, length_toList]
  omega

theorem field_add {m : Nat} (h : i + m ≤ bytes.size) (n : Nat) :
    field bytes i (m + n) = field bytes i m + 256 ^ m * field bytes (i + m) n := by
  rw [field, List.take_add, number_append, length_take_drop h, List.drop_drop]
  rfl

/-! ## Fields that are read -/

theorem byte?_eq (bytes : ByteArray) (i : Nat) :
    byte? bytes i = if i + 1 ≤ bytes.size then some (field bytes i 1) else none := by
  unfold byte?
  split
  case isTrue h =>
    have hi : i < bytes.data.toList.length := h
    have hb : bytes[i]? = some bytes.data.toList[i] := getElem?_pos bytes i h
    rw [hb, field, List.drop_eq_getElem_cons hi]
    rfl
  case isFalse h => rw [getElem?_neg bytes i h]; rfl

theorem uint16?_eq (bytes : ByteArray) (i : Nat) :
    uint16? bytes i = if i + 2 ≤ bytes.size then some (field bytes i 2) else none := by
  unfold uint16?
  rw [byte?_eq, byte?_eq]
  by_cases h : i + 2 ≤ bytes.size
  · rw [if_pos h, if_pos (by omega), if_pos (by omega), field_add (m := 1) (by omega) 1]
    rfl
  · rw [if_neg h, if_neg (c := i + 1 + 1 ≤ bytes.size) (by omega)]
    split <;> rfl

theorem uint32?_eq (bytes : ByteArray) (i : Nat) :
    uint32? bytes i = if i + 4 ≤ bytes.size then some (field bytes i 4) else none := by
  unfold uint32?
  rw [uint16?_eq, uint16?_eq]
  by_cases h : i + 4 ≤ bytes.size
  · rw [if_pos h, if_pos (by omega), if_pos (by omega), field_add (m := 2) (by omega) 2]
    rfl
  · rw [if_neg h, if_neg (c := i + 2 + 2 ≤ bytes.size) (by omega)]
    split <;> rfl

/-- **A number is read where its bytes stand.** -/
theorem uint32?_eq_some_iff {xs : List UInt8} (hl : xs.length = 4) :
    uint32? bytes i = some (number xs) ↔ StandsAt bytes i xs := by
  rw [uint32?_eq]
  constructor
  · intro h
    obtain ⟨hi, hn⟩ := Option.ite_none_right_eq_some.1 h
    have heq := number_inj ((length_take_drop hi).trans hl.symm) (Option.some.inj hn)
    rw [StandsAt, ← heq]
    exact List.take_prefix ..
  · intro h
    have hsize := h.le_size (List.ne_nil_of_length_eq_add_one hl)
    rw [hl] at hsize
    rw [if_pos hsize, ← hl, h.field_eq]

/-! ## Records that are read -/

/-- **A directory record is read where its fixed bytes lie inside the buffer.** -/
theorem CentralRecord.read?_eq (bytes : ByteArray) (offset : Nat) : CentralRecord.read? bytes offset =
    if offset + 46 ≤ bytes.size then
      some
        { signature := field bytes offset 4
          method := field bytes (offset + 10) 2
          compressedSize := field bytes (offset + 20) 4
          uncompressedSize := field bytes (offset + 24) 4
          nameLength := field bytes (offset + 28) 2
          extraLength := field bytes (offset + 30) 2
          commentLength := field bytes (offset + 32) 2
          localOffset := field bytes (offset + 42) 4 }
    else none := by
  unfold CentralRecord.read?
  simp only [uint16?_eq, uint32?_eq]
  by_cases h : offset + 46 ≤ bytes.size
  · repeat rw [if_pos (by omega)]
    rfl
  · rw [if_neg h, if_neg (c := offset + 42 + 4 ≤ bytes.size) (by omega)]
    simp

theorem EndRecord.read?_of_le {p : Nat} (h : p + 22 ≤ bytes.size) : EndRecord.read? bytes p =
    some
      { entryCount := field bytes (p + 10) 2
        directorySize := field bytes (p + 12) 4
        directoryOffset := field bytes (p + 16) 4 } := by
  unfold EndRecord.read?
  simp only [uint16?_eq, uint32?_eq]
  repeat rw [if_pos (by omega)]
  rfl

/-- **A local header is read where its fixed bytes lie inside the buffer.** -/
theorem LocalHeader.read?_eq (bytes : ByteArray) (offset : Nat) : LocalHeader.read? bytes offset =
    if offset + 30 ≤ bytes.size then
      some
        { signature := field bytes offset 4
          nameLength := field bytes (offset + 26) 2
          extraLength := field bytes (offset + 28) 2 }
    else none := by
  unfold LocalHeader.read?
  simp only [uint16?_eq, uint32?_eq]
  by_cases h : offset + 30 ≤ bytes.size
  · repeat rw [if_pos (by omega)]
    rfl
  · rw [if_neg h, if_neg (c := offset + 28 + 2 ≤ bytes.size) (by omega)]
    simp

end OfficePreview.Zip
