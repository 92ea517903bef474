import OfficePreview.Proofs.Deflate.Stream
/-!
# Reading — bits, numbers, words and bytes in a buffer

Bits stand in a buffer (`BitsAt`), or the buffer ends before they do (`CutOff`).  A reader follows its part of a stream if
it gives in the first case what the bits stand for and finds the stream incomplete in the second one (`Reads`); readers
that follow their parts follow them one after the other (`Reads.bind`).  Here are the readers of the smallest parts: the
numbers, the words of a code, and bytes at the boundary of a byte.
-/
namespace OfficePreview.Deflate

/-! ## Bits in a buffer -/

/-- The bits `bs` stand at position `pos`. -/
def BitsAt (bytes : ByteArray) : (pos : Nat) → List Bool → Prop
  | _, [] => True
  | pos, b :: bs => bit? bytes pos = some b ∧ BitsAt bytes (pos + 1) bs

instance decidableBitsAt (bytes : ByteArray) : (pos : Nat) → (bs : List Bool) → Decidable (BitsAt bytes pos bs)
  | _, [] => isTrue trivial
  | pos, b :: bs =>
    have := decidableBitsAt bytes (pos + 1) bs
    inferInstanceAs (Decidable (bit? bytes pos = some b ∧ BitsAt bytes (pos + 1) bs))

/-- The bits `bs` stand at position `pos` as far as the buffer goes, and it ends before they do. -/
def CutOff (bytes : ByteArray) : (pos : Nat) → List Bool → Prop
  | _, [] => False
  | pos, b :: bs => bit? bytes pos = none ∨ bit? bytes pos = some b ∧ CutOff bytes (pos + 1) bs

variable {bytes : ByteArray} {pos : Nat}

theorem bitsAt_append {xs ys : List Bool} :
    BitsAt bytes pos (xs ++ ys) ↔ BitsAt bytes pos xs ∧ BitsAt bytes (pos + xs.length) ys := by
  induction xs generalizing pos with
  | nil => simp [BitsAt]
  | cons x xs ih =>
    rw [List.cons_append, BitsAt, BitsAt, ih, and_assoc, List.length_cons, Nat.add_right_comm, ← Nat.add_assoc]

theorem cutOff_append {xs ys : List Bool} : CutOff bytes pos (xs ++ ys) ↔
    CutOff bytes pos xs ∨ BitsAt bytes pos xs ∧ CutOff bytes (pos + xs.length) ys := by
  induction xs generalizing pos with
  | nil => simp [CutOff, BitsAt]
  | cons x xs ih =>
    rw [List.cons_append, CutOff, CutOff, BitsAt, ih, List.length_cons, Nat.add_right_comm, ← Nat.add_assoc, and_or_left,
      or_assoc, and_assoc]

/-! ## Readings -/

/-- A reading that starts where the bits `bs` stand comes to `x`; where the buffer ends before they do, it is
incomplete. -/
structure Reads {α : Type} (bytes : ByteArray) (pos : Nat) (bs : List Bool) (r : Except Failure α) (x : α) : Prop where
  whole : BitsAt bytes pos bs → r = .ok x
  cut : CutOff bytes pos bs → r = .error .incomplete

namespace Reads

variable {α β : Type} {bs bs' : List Bool} {r : Except Failure α} {x : α}

theorem done (bytes : ByteArray) (pos : Nat) (x : α) : Reads bytes pos [] (.ok x) x := ⟨fun _ => rfl, fun h => h.elim⟩

/-- **Readings one after the other.** -/
theorem bind {f : α → Except Failure β} {y : β} (h : Reads bytes pos bs r x)
    (h' : Reads bytes (pos + bs.length) bs' (f x) y) : Reads bytes pos (bs ++ bs') (r >>= f) y := by
  constructor
  · intro hbits
    rw [bitsAt_append] at hbits
    rw [h.whole hbits.1]
    exact h'.whole hbits.2
  · intro hcut
    rw [cutOff_append] at hcut
    rcases hcut with hcut | ⟨hbits, hcut⟩
    · rw [h.cut hcut]
      rfl
    · rw [h.whole hbits]
      exact h'.cut hcut

theorem map (h : Reads bytes pos bs r x) (f : α → β) : Reads bytes pos bs (r.map f) (f x) := by
  constructor
  · intro hbits
    rw [h.whole hbits]
    rfl
  · intro hcut
    rw [h.cut hcut]
    rfl

end Reads

theorem ok_of_bind {α β : Type} {r : Except Failure α} {f : α → Except Failure β} {y : β} (h : (r >>= f) = .ok y) :
    ∃ x, r = .ok x ∧ f x = .ok y := by
  cases r with
  | error e => cases h
  | ok x => exact ⟨x, rfl, h⟩

theorem ok_of_map {α β : Type} {r : Except Failure α} {f : α → β} {y : β} (h : r.map f = .ok y) :
    ∃ x, r = .ok x ∧ f x = y := by
  cases r with
  | error e => cases h
  | ok x => exact ⟨x, rfl, Except.ok.inj h⟩

/-! ## Numbers -/

/-- **A number is read where its bits stand.** -/
theorem reads_bits {width value : Nat} (h : value < 2 ^ width) :
    Reads bytes pos (numeral width value) (bits bytes width pos) value := by
  induction width generalizing pos value with
  | zero =>
    obtain rfl : value = 0 := by omega
    exact .done bytes pos 0
  | succ n ih =>
    have hrest : Reads bytes (pos + 1) (numeral n (value / 2)) (bits bytes n (pos + 1)) (value / 2) :=
      ih (by rw [Nat.pow_succ] at h; omega)
    constructor
    · rintro ⟨hbit, hbits⟩
      rw [bits, hbit, hrest.whole hbits]
      dsimp only [Except.map]
      by_cases hodd : value % 2 = 1
      · rw [decide_eq_true hodd, Bool.toNat_true]
        congr 1
        omega
      · rw [decide_eq_false hodd, Bool.toNat_false]
        congr 1
        omega
    · rintro (hbit | ⟨hbit, hcut⟩)
      · rw [bits, hbit]
      · rw [bits, hbit, hrest.cut hcut]
        rfl

theorem bitsAt_of_bits {width value : Nat} (h : bits bytes width pos = .ok value) :
    value < 2 ^ width ∧ BitsAt bytes pos (numeral width value) := by
  induction width generalizing pos value with
  | zero =>
    cases h
    exact ⟨by decide, trivial⟩
  | succ n ih =>
    rw [bits] at h
    cases hbit : bit? bytes pos with
    | none =>
      rw [hbit] at h
      cases h
    | some b =>
      rw [hbit] at h
      obtain ⟨rest, hrest, rfl⟩ := ok_of_map h
      obtain ⟨hlt, hbits⟩ := ih hrest
      have hbound := Bool.toNat_lt b
      have hhalf : (b.toNat + 2 * rest) / 2 = rest := by omega
      have hodd : decide ((b.toNat + 2 * rest) % 2 = 1) = b := by
        rw [Nat.add_mul_mod_self_left]
        cases b <;> rfl
      refine ⟨?_, ?_, ?_⟩
      · rw [Nat.pow_succ]
        omega
      · rw [hodd]
        exact hbit
      · rw [hhalf]
        exact hbits

/-! ## Words -/

theorem reads_follow {code : Code} {bs : List Bool} {symbol : Nat} (h : code.Word bs symbol) :
    Reads bytes pos bs (code.follow bytes pos) (symbol, pos + bs.length) := by
  induction h generalizing pos with
  | leaf symbol => exact .done bytes pos _
  | @zero zero one bs symbol h ih =>
    have hrest : Reads bytes (pos + 1) bs _ (symbol, pos + 1 + bs.length) := ih
    rw [Nat.add_assoc, Nat.add_comm 1] at hrest
    constructor
    · rintro ⟨hbit, hbits⟩
      rw [Code.follow, hbit]
      exact hrest.whole hbits
    · rintro (hbit | ⟨hbit, hcut⟩)
      · rw [Code.follow, hbit]
      · rw [Code.follow, hbit]
        exact hrest.cut hcut
  | @one zero one bs symbol h ih =>
    have hrest : Reads bytes (pos + 1) bs _ (symbol, pos + 1 + bs.length) := ih
    rw [Nat.add_assoc, Nat.add_comm 1] at hrest
    constructor
    · rintro ⟨hbit, hbits⟩
      rw [Code.follow, hbit]
      exact hrest.whole hbits
    · rintro (hbit | ⟨hbit, hcut⟩)
      · rw [Code.follow, hbit]
      · rw [Code.follow, hbit]
        exact hrest.cut hcut

theorem exists_word_of_follow {code : Code} {symbol next : Nat} (h : code.follow bytes pos = .ok (symbol, next)) :
    ∃ bs, code.Word bs symbol ∧ BitsAt bytes pos bs ∧ next = pos + bs.length := by
  induction code generalizing pos with
  | vacant => cases h
  | leaf symbol' =>
    cases h
    exact ⟨[], .leaf _, trivial, rfl⟩
  | branch zero one ihz iho =>
    rw [Code.follow] at h
    cases hbit : bit? bytes pos with
    | none =>
      rw [hbit] at h
      cases h
    | some b =>
      rw [hbit] at h
      cases b with
      | false =>
        obtain ⟨bs, word, hbits, rfl⟩ := ihz h
        exact ⟨false :: bs, .zero word, ⟨hbit, hbits⟩, by rw [List.length_cons]; omega⟩
      | true =>
        obtain ⟨bs, word, hbits, rfl⟩ := iho h
        exact ⟨true :: bs, .one word, ⟨hbit, hbits⟩, by rw [List.length_cons]; omega⟩

/-- **A symbol is read where its word stands.** -/
theorem reads_decode {code : Code} {bs : List Bool} {symbol : Nat} (h : code.Spells bs symbol) :
    Reads bytes pos bs (code.decode bytes pos) (symbol, pos + bs.length) := by
  obtain ⟨word, hne⟩ := h
  cases word with
  | leaf => exact absurd rfl hne
  | zero h => exact reads_follow (.zero h)
  | one h => exact reads_follow (.one h)

theorem exists_word_of_decode {code : Code} {symbol next : Nat} (h : code.decode bytes pos = .ok (symbol, next)) :
    ∃ bs, code.Spells bs symbol ∧ BitsAt bytes pos bs ∧ next = pos + bs.length := by
  cases code with
  | vacant =>
    simp only [Code.decode] at h
    split at h <;> cases h
  | leaf symbol' =>
    simp only [Code.decode] at h
    split at h <;> cases h
  | branch zero one =>
    have hlt := (Code.lt_of_decode h).1
    obtain ⟨bs, word, hbits, rfl⟩ := exists_word_of_follow h
    refine ⟨bs, ⟨word, ?_⟩, hbits, rfl⟩
    rintro rfl
    exact absurd hlt (Nat.lt_irrefl pos)

/-! ## Bytes -/

theorem bit?_eq_none_iff : bit? bytes pos = none ↔ 8 * bytes.size ≤ pos := by
  rw [bit?, Option.map_eq_none_iff, getElem?_eq_none_iff]
  constructor <;> intro h <;> omega

theorem CutOff.size_lt {bs : List Bool} (h : CutOff bytes pos bs) : 8 * bytes.size < pos + bs.length := by
  induction bs generalizing pos with
  | nil => exact h.elim
  | cons b bs ih =>
    rw [List.length_cons]
    rcases h with hnone | ⟨-, hcut⟩
    · have := bit?_eq_none_iff.1 hnone
      omega
    · have := ih hcut
      omega

/-- Bits that stand in a buffer end before it does. -/
theorem BitsAt.le_size {bs : List Bool} (h : BitsAt bytes pos bs) (hne : bs ≠ []) :
    pos + bs.length ≤ 8 * bytes.size := by
  induction bs generalizing pos with
  | nil => exact absurd rfl hne
  | cons b bs ih =>
    have hpos := lt_of_bit? h.1
    rw [List.length_cons]
    by_cases hbs : bs = []
    · rw [hbs]
      exact hpos
    · have := ih h.2 hbs
      omega

/-- A number that starts behind the end of the buffer is incomplete. -/
theorem bits_of_size_le (width : Nat) (h : 8 * bytes.size ≤ pos) :
    bits bytes (width + 1) pos = .error .incomplete := by
  rw [bits, bit?_eq_none_iff.2 h]

theorem bits_in_byte {i shift width : Nat} {x : UInt8} (h : shift + width ≤ 8) (hx : bytes[i]? = some x) :
    bits bytes width (8 * i + shift) = .ok (x.toNat / 2 ^ shift % 2 ^ width) := by
  induction width generalizing shift with
  | zero => rw [bits, Nat.pow_zero, Nat.mod_one]
  | succ n ih =>
    have hbit : bit? bytes (8 * i + shift) = some (x.toNat.testBit shift) := by
      have hbyte : (8 * i + shift) / 8 = i := by omega
      have hplace : (8 * i + shift) % 8 = shift := by omega
      rw [bit?, hbyte, hplace, hx]
      rfl
    rw [bits, hbit, Nat.add_assoc, ih (by omega)]
    dsimp only [Except.map]
    rw [Nat.toNat_testBit, Nat.pow_succ' (n := n), Nat.mod_mul, Nat.div_div_eq_div_mul, ← Nat.pow_succ]

/-- **A byte at the boundary of a byte is a byte of the buffer.** -/
theorem bitsAt_byte_iff {i : Nat} {b : UInt8} : BitsAt bytes (8 * i) (numeral 8 b.toNat) ↔ bytes[i]? = some b := by
  have hlt : b.toNat < 2 ^ 8 := b.toNat_lt
  constructor
  · intro h
    have hread := (reads_bits hlt).whole h
    cases hx : bytes[i]? with
    | none =>
      have hsize : 8 * bytes.size ≤ 8 * i := by
        have := (getElem?_eq_none_iff bytes i).1 hx
        omega
      rw [bits_of_size_le 7 hsize] at hread
      cases hread
    | some x =>
      have hbyte := bits_in_byte (show 0 + 8 ≤ 8 from Nat.le_refl 8) hx
      rw [Nat.add_zero, hread, Nat.pow_zero, Nat.div_one, Nat.mod_eq_of_lt x.toNat_lt] at hbyte
      rw [UInt8.toNat_inj.1 (Except.ok.inj hbyte)]
  · intro hx
    have hbyte := bits_in_byte (show 0 + 8 ≤ 8 from Nat.le_refl 8) hx
    rw [Nat.add_zero, Nat.pow_zero, Nat.div_one, Nat.mod_eq_of_lt hlt] at hbyte
    exact (bitsAt_of_bits hbyte).2

theorem bitsAt_flatMap_iff {i : Nat} {xs : List UInt8} :
    BitsAt bytes (8 * i) (xs.flatMap fun b => numeral 8 b.toNat) ↔ ∀ k < xs.length, bytes[i + k]? = xs[k]? := by
  induction xs generalizing i with
  | nil => simp [BitsAt]
  | cons x xs ih =>
    have hnext : 8 * i + (numeral 8 x.toNat).length = 8 * (i + 1) := by
      rw [length_numeral]
      omega
    rw [List.flatMap_cons, bitsAt_append, bitsAt_byte_iff, hnext, ih, List.length_cons, Nat.forall_lt_succ_left]
    simp only [Nat.add_zero, List.getElem?_cons_zero, List.getElem?_cons_succ, Nat.add_assoc, Nat.add_comm 1]

theorem length_octets (data : ByteArray) : (octets data).length = 8 * data.size := by
  have hmap : (data.data.toList.map fun b => (numeral 8 b.toNat).length) = List.replicate data.size 8 := by
    simp only [length_numeral, List.map_const']
    rfl
  rw [octets, List.length_flatMap, hmap, List.sum_replicate_nat, Nat.mul_comm]

/-- **Bytes at the boundary of a byte are the bytes of the buffer there.** -/
theorem bitsAt_octets_iff {i : Nat} {data : ByteArray} (h : i + data.size ≤ bytes.size) :
    BitsAt bytes (8 * i) (octets data) ↔ bytes.extract i (i + data.size) = data := by
  have hsize : (bytes.extract i (i + data.size)).size = data.size := by
    rw [ByteArray.size_extract]
    omega
  have hat (k : Nat) (hk : k < data.size) : data.data.toList[k]? = some data[k] := List.getElem?_eq_getElem hk
  rw [octets, bitsAt_flatMap_iff]
  constructor
  · intro hbytes
    apply ByteArray.ext_getElem hsize
    intro k hk hk'
    have heq := hbytes k hk'
    rw [hat k hk', getElem?_pos bytes (i + k) (by omega)] at heq
    rw [ByteArray.getElem_extract]
    exact Option.some.inj heq
  · intro heq k hk
    have hk' : k < (bytes.extract i (i + data.size)).size := by
      rw [hsize]
      exact hk
    have hin : i + k < bytes.size := by
      have : k < data.size := hk
      omega
    have hdata : (bytes.extract i (i + data.size))[k]? = data[k]? := by rw [heq]
    rw [getElem?_pos _ k hk', getElem?_pos data k hk, ByteArray.getElem_extract] at hdata
    rw [hat k hk, getElem?_pos bytes (i + k) hin]
    exact hdata

end OfficePreview.Deflate
