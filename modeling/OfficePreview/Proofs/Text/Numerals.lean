import OfficePreview.Text.Digits
/-!
# Numerals — numbers that are read back from their digits

A numeral of a number is any text of its digits: with any number of zeros before them, and with letters of either case
(`IsNumeral`).  In every base up to sixteen the number is read back from each of its numerals (`number?_of_isNumeral`),
and nothing else is read as the number (`isNumeral_of_number?`).
-/
namespace OfficePreview.Text

/-! ## Digits -/

theorem digit?_digitChar {base d : Nat} (hbase : base ≤ 16) (hd : d < base) : digit? base d.digitChar = some d := by
  have hvalue : ∀ d < 16,
      ('0' ≤ d.digitChar ∧ d.digitChar ≤ '9') ∧ d.digitChar.toNat - 48 = d ∨
        ¬ ('0' ≤ d.digitChar ∧ d.digitChar ≤ '9') ∧ ('a' ≤ d.digitChar ∧ d.digitChar ≤ 'f') ∧
          d.digitChar.toNat - 87 = d := by
    decide
  rcases hvalue d (Nat.lt_of_lt_of_le hd hbase) with ⟨hdigit, hv⟩ | ⟨hdigit, hletter, hv⟩
  · simp only [digit?, if_pos hdigit, hv, hd, if_true]
  · simp only [digit?, if_neg hdigit, if_pos hletter, hv, hd, if_true]

theorem toNat_toLower {c : Char} (h : 65 ≤ c.toNat ∧ c.toNat ≤ 90) : c.toLower.toNat = c.toNat + 32 := by
  have hupper : c.val ≥ 'A'.val ∧ c.val ≤ 'Z'.val := h
  have hsum : (c.val + 32).toNat = (c.val.toNat + 32) % 2 ^ 32 := UInt32.toNat_add c.val 32
  have hc : c.val.toNat = c.toNat := rfl
  have hlower : c.toLower = ⟨c.val + ('a'.val - 'A'.val), _⟩ := dif_pos hupper
  rw [hlower]
  change (c.val + 32).toNat = _
  omega

/-- A letter counts the same in either case. -/
theorem digit?_toLower (base : Nat) (c : Char) : digit? base c.toLower = digit? base c := by
  by_cases h : 65 ≤ c.toNat ∧ c.toNat ≤ 90
  · have hlower := toNat_toLower h
    have hle (a b : Char) : a ≤ b ↔ a.toNat ≤ b.toNat := Iff.rfl
    simp only [digit?, hle, hlower, Char.reduceToNat]
    grind
  · have hupper : ¬ (c.val ≥ 'A'.val ∧ c.val ≤ 'Z'.val) := h
    have hsame : c.toLower = c := dif_neg hupper
    rw [hsame]

theorem toNat_digitChar {d : Nat} (hd : d < 16) : d.digitChar.toNat = if d < 10 then 48 + d else 87 + d := by
  have all : ∀ d < 16, d.digitChar.toNat = if d < 10 then 48 + d else 87 + d := by decide
  exact all d hd

/-- A digit is the one that stands for its value, but for the case of a letter. -/
theorem toLower_of_digit? {base d : Nat} {c : Char} (hbase : base ≤ 16) (h : digit? base c = some d) :
    d < base ∧ c.toLower = d.digitChar := by
  have hle (a b : Char) : a ≤ b ↔ a.toNat ≤ b.toNat := Iff.rfl
  simp only [digit?, hle, Char.reduceToNat, Option.ite_none_right_eq_some, Option.some.injEq] at h
  obtain ⟨hlt, hd⟩ := h
  have hdb : d < base := hd ▸ hlt
  refine ⟨hdb, Char.toNat_inj.1 ?_⟩
  rw [toNat_digitChar (Nat.lt_of_lt_of_le hdb hbase)]
  by_cases hupper : 65 ≤ c.toNat ∧ c.toNat ≤ 90
  · rw [toNat_toLower hupper]
    grind
  · have hsame : c.toLower = c := dif_neg hupper
    rw [hsame]
    grind

/-- Decimal digits have no case. -/
theorem toLower_eq_of_digit? {d : Nat} {c : Char} (h : digit? 10 c = some d) : c.toLower = c := by
  by_cases hupper : 65 ≤ c.toNat ∧ c.toNat ≤ 90
  · obtain ⟨hlt, hlower⟩ := toLower_of_digit? (by decide) h
    have hdigit := toNat_digitChar (Nat.lt_trans hlt (by decide))
    rw [← hlower, toNat_toLower hupper, if_pos hlt] at hdigit
    omega
  · exact dif_neg hupper

/-! ## Numbers -/

/-- A number with one more digit after its own. -/
def pushDigit (base n : Nat) (c : Char) : Option Nat := (digit? base c).map (n * base + ·)

theorem number?_eq {base : Nat} {cs : List Char} (h : cs ≠ []) : number? base cs = cs.foldlM (pushDigit base) 0 := by
  rw [number?, if_neg (by simpa using h)]
  rfl

/-- What is read as a number is digits. -/
theorem digit?_of_number? {base n : Nat} {cs : List Char} (h : number? base cs = some n) :
    ∀ c ∈ cs, digit? base c ≠ none := by
  have go (cs : List Char) (m : Nat) (h : cs.foldlM (pushDigit base) m = some n) : ∀ c ∈ cs, digit? base c ≠ none := by
    induction cs generalizing m with
    | nil => exact fun _ hc => absurd hc List.not_mem_nil
    | cons c cs ih =>
      rw [List.foldlM_cons] at h
      cases hd : digit? base c with
      | none => simp [pushDigit, hd] at h
      | some d =>
        simp only [pushDigit, hd, Option.map_some, Option.bind_eq_bind, Option.bind_some] at h
        exact List.forall_mem_cons.2 ⟨by simp [hd], ih _ h⟩
  intro c hc
  rw [number?_eq (List.ne_nil_of_mem hc)] at h
  exact go cs 0 h c hc

theorem foldlM_toDigits {base : Nat} (hone : 1 < base) (hbase : base ≤ 16) (n : Nat) :
    (Nat.toDigits base n).foldlM (pushDigit base) 0 = some n := by
  induction n using Nat.strongRecOn with
  | ind n ih =>
    by_cases h : n < base
    · rw [Nat.toDigits_of_lt_base h]
      simp [pushDigit, digit?_digitChar hbase h]
    · have hlt : n / base < n := Nat.div_lt_self (by omega) hone
      have hmod : n % base < base := Nat.mod_lt n (by omega)
      rw [Nat.toDigits_of_base_le hone (by omega), List.foldlM_append, ih _ hlt]
      simp [pushDigit, digit?_digitChar hbase hmod, Nat.div_add_mod']

/-- **A number is read back from its digits.** -/
theorem number?_toDigits {base : Nat} (hone : 1 < base) (hbase : base ≤ 16) (n : Nat) :
    number? base (Nat.toDigits base n) = some n := by
  rw [number?_eq Nat.toDigits_ne_nil, foldlM_toDigits hone hbase]

/-! ## Numerals -/

/-- Digits write a number in a base, with any number of zeros before it and with letters of either case. -/
def IsNumeral (base : Nat) (digits : List Char) (n : Nat) : Prop :=
  ∃ zeros, digits.map Char.toLower = List.replicate zeros '0' ++ Nat.toDigits base n

theorem foldlM_zeros {base : Nat} (hbase : 0 < base) (zeros : Nat) (cs : List Char) :
    (List.replicate zeros '0' ++ cs).foldlM (pushDigit base) 0 = cs.foldlM (pushDigit base) 0 := by
  have hzero : pushDigit base 0 '0' = some 0 := by simp [pushDigit, digit?, hbase]
  induction zeros with
  | zero => rfl
  | succ zeros ih => rw [List.replicate_succ, List.cons_append, List.foldlM_cons, hzero, ← ih]; rfl

/-- **A number is read back from each of its numerals.** -/
theorem number?_of_isNumeral {base n : Nat} {digits : List Char} (hone : 1 < base) (hbase : base ≤ 16)
    (h : IsNumeral base digits n) : number? base digits = some n := by
  obtain ⟨zeros, hz⟩ := h
  have hne : digits ≠ [] := by
    rintro rfl
    exact Nat.toDigits_ne_nil (List.append_eq_nil_iff.1 hz.symm).2
  have hlower : (digits.map Char.toLower).foldlM (pushDigit base) 0 = digits.foldlM (pushDigit base) 0 := by
    rw [List.foldlM_map]
    simp only [pushDigit, digit?_toLower]
    rfl
  rw [number?_eq hne, ← hlower, hz, foldlM_zeros (by omega), foldlM_toDigits hone hbase]

theorem toDigits_append_of_foldlM {base n : Nat} (hone : 1 < base) (hbase : base ≤ 16) :
    ∀ (cs : List Char) (m : Nat), 0 < m → cs.foldlM (pushDigit base) m = some n →
      Nat.toDigits base m ++ cs.map Char.toLower = Nat.toDigits base n
  | [], m, _, h => by
    cases h
    simp
  | c :: cs, m, hm, h => by
    rw [List.foldlM_cons] at h
    cases hd : digit? base c with
    | none => simp [pushDigit, hd] at h
    | some d =>
      simp only [pushDigit, hd, Option.map_some, Option.bind_eq_bind, Option.bind_some] at h
      obtain ⟨hlt, hlower⟩ := toLower_of_digit? hbase hd
      have hpos : 0 < m * base := Nat.mul_pos hm (by omega)
      have hrest := toDigits_append_of_foldlM hone hbase cs (m * base + d) (by omega) h
      have hjoin := Nat.toDigits_append_toDigits hone hm hlt
      rw [Nat.toDigits_of_lt_base hlt, Nat.mul_comm] at hjoin
      rw [← hrest, ← hjoin, List.map_cons, hlower, List.append_assoc]
      rfl

/-- **What is read as a number is a numeral of it.**  A zero in front is one of the zeros of the numeral unless it is all
of it; from any other digit on, the numeral is the digits of the number. -/
theorem isNumeral_of_number? {base n : Nat} {digits : List Char} (hone : 1 < base) (hbase : base ≤ 16)
    (h : number? base digits = some n) : IsNumeral base digits n := by
  have hne : digits ≠ [] := by
    rintro rfl
    cases h
  rw [number?_eq hne] at h
  induction digits with
  | nil => exact absurd rfl hne
  | cons c cs ih =>
    rw [List.foldlM_cons] at h
    cases hd : digit? base c with
    | none => simp [pushDigit, hd] at h
    | some d =>
      simp only [pushDigit, hd, Option.map_some, Option.bind_eq_bind, Option.bind_some, Nat.zero_mul, Nat.zero_add] at h
      obtain ⟨hlt, hlower⟩ := toLower_of_digit? hbase hd
      rcases Nat.eq_zero_or_pos d with rfl | hpos
      · by_cases hcs : cs = []
        · subst hcs
          cases h
          exact ⟨0, by simp [hlower, Nat.toDigits_of_lt_base hlt]⟩
        · obtain ⟨zeros, hz⟩ := ih h hcs
          exact ⟨zeros + 1, by rw [List.map_cons, hz, hlower, List.replicate_succ]; rfl⟩
      · have hrest := toDigits_append_of_foldlM hone hbase cs d hpos h
        rw [Nat.toDigits_of_lt_base hlt] at hrest
        exact ⟨0, by rw [List.map_cons, hlower, ← hrest]; rfl⟩

/-- What is read as a decimal number is its digits as they stand, with any zeros before them. -/
theorem exists_zeros_of_number? {n : Nat} {digits : List Char} (h : number? 10 digits = some n) :
    ∃ zeros, digits = List.replicate zeros '0' ++ Nat.toDigits 10 n := by
  obtain ⟨zeros, hz⟩ := isNumeral_of_number? (by decide) (by decide) h
  have hsame : digits.map Char.toLower = digits.map id := by
    apply List.map_congr_left
    intro c hc
    obtain ⟨d, hd⟩ := Option.ne_none_iff_exists'.1 (digit?_of_number? h c hc)
    exact toLower_eq_of_digit? hd
  rw [hsame, List.map_id] at hz
  exact ⟨zeros, hz⟩

end OfficePreview.Text
