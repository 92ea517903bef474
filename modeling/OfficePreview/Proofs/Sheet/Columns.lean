import Mathlib
import OfficePreview.Sheet.Reference
/-!
# Columns — the letters of a column are its number

The letters of a column are a numeral of base 26 in which no digit stands for zero: the letters from `A` to `Z` count from
one to 26, each letter 26 times as much as the one behind it (`numeralValue`).  Such a numeral has a value above zero
unless it is empty, and every number has exactly one (`lettersOnto_numeralValue`, `numeralValue_columnLetters`).

A column is read from its letters in either case and from nothing else (`columnOfLetters?_eq_some_iff`).  No number on the
way grows past a machine word, since reading gives up where the largest sheet ends (`columnStep_lt`).
-/
namespace OfficePreview.Sheet

/-! ## Letters -/

theorem isUpper_iff {c : Char} : c.isUpper = true ↔ 65 ≤ c.toNat ∧ c.toNat ≤ 90 := decide_eq_true_iff

theorem toUpper_of_isUpper {c : Char} (h : c.isUpper = true) : c.toUpper = c :=
  Char.toUpper_eq_of_not_isLower (Char.not_isLower_of_isUpper h)

/-- A letter counts from one to 26. -/
theorem letterValue_bounds {c : Char} (h : c.isAlpha = true) : 1 ≤ letterValue c ∧ letterValue c ≤ 26 := by
  have := isUpper_iff.1 ((Char.isUpper_toUpper_eq_isAlpha c).trans h)
  unfold letterValue
  omega

/-! ## Numerals without a zero -/

/-- The value of a numeral of base 26 in the digits from `A`, which is one, to `Z`. -/
def numeralValue : List Char → Nat
  | [] => 0
  | c :: cs => (c.toNat - 64) * 26 ^ cs.length + numeralValue cs

theorem numeralValue_pos {letters : List Char} (hne : letters ≠ []) (h : ∀ c ∈ letters, c.isUpper = true) :
    0 < numeralValue letters := by
  obtain ⟨c, cs, rfl⟩ := List.exists_cons_of_ne_nil hne
  have hc := isUpper_iff.1 (h c List.mem_cons_self)
  have hdigit : 0 < (c.toNat - 64) * 26 ^ cs.length := Nat.mul_pos (by omega) (Nat.pow_pos (by decide))
  rw [numeralValue]
  omega

/-- The digits of a number in front of a digit: those of the number with the digit behind it. -/
theorem lettersOnto_digit (tail : List Char) (n : Nat) {c : Char} (hc : c.isUpper = true) :
    lettersOnto tail (n * 26 + (c.toNat - 64)) = lettersOnto (c :: tail) n := by
  have hrange := isUpper_iff.1 hc
  obtain ⟨m, hm⟩ : ∃ m, n * 26 + (c.toNat - 64) = m + 1 := ⟨n * 26 + (c.toNat - 65), by omega⟩
  have hmod : 65 + m % 26 = c.toNat := by omega
  have hdiv : m / 26 = n := by omega
  rw [hm, lettersOnto, hmod, hdiv, Char.ofNat_toNat]

/-- **Every numeral is the letters of its value.** -/
theorem lettersOnto_numeralValue (tail : List Char) :
    ∀ (letters : List Char) (n : Nat), (∀ c ∈ letters, c.isUpper = true) →
      lettersOnto tail (n * 26 ^ letters.length + numeralValue letters) = lettersOnto (letters ++ tail) n
  | [], n, _ => by simp [numeralValue]
  | c :: cs, n, h => by
    have hrest := lettersOnto_numeralValue tail cs (n * 26 + (c.toNat - 64)) fun d hd => h d (List.mem_cons_of_mem c hd)
    have hvalue : n * 26 ^ (c :: cs).length + numeralValue (c :: cs) =
        (n * 26 + (c.toNat - 64)) * 26 ^ cs.length + numeralValue cs := by
      rw [numeralValue, List.length_cons, Nat.pow_succ', ← Nat.mul_assoc, Nat.add_mul, Nat.add_assoc]
    rw [hvalue, hrest, lettersOnto_digit (cs ++ tail) n (h c List.mem_cons_self)]
    rfl

theorem numeralValue_lettersOnto (tail : List Char) (n : Nat) :
    numeralValue (lettersOnto tail n) = n * 26 ^ tail.length + numeralValue tail := by
  fun_induction lettersOnto tail n with
  | case1 => simp
  | case2 tail m ih =>
    have hdigit : ∀ k < 26, (Char.ofNat (65 + k)).toNat - 64 = k + 1 := by decide
    have hm : m / 26 * 26 + (m % 26 + 1) = m + 1 := by omega
    rw [ih, numeralValue, hdigit _ (Nat.mod_lt m (by decide)), List.length_cons, Nat.pow_succ', ← Nat.mul_assoc,
      ← Nat.add_assoc, ← Nat.add_mul, hm]

theorem isUpper_of_mem_lettersOnto {tail : List Char} {n : Nat} (h : ∀ c ∈ tail, c.isUpper = true) :
    ∀ c ∈ lettersOnto tail n, c.isUpper = true := by
  fun_induction lettersOnto tail n with
  | case1 => exact h
  | case2 tail m ih =>
    have hdigit : ∀ k < 26, (Char.ofNat (65 + k)).isUpper = true := by decide
    exact ih (List.forall_mem_cons.2 ⟨hdigit _ (Nat.mod_lt m (by decide)), h⟩)

theorem isUpper_of_mem_columnLetters (column : Nat) : ∀ c ∈ (columnLetters column).toList, c.isUpper = true := by
  rw [columnLetters, String.toList_ofList]
  exact isUpper_of_mem_lettersOnto fun _ h => absurd h List.not_mem_nil

theorem numeralValue_columnLetters (column : Nat) : numeralValue (columnLetters column).toList = column + 1 := by
  rw [columnLetters, String.toList_ofList, numeralValue_lettersOnto]
  simp [numeralValue]

theorem columnLetters_ne_nil (column : Nat) : (columnLetters column).toList ≠ [] := by
  intro h
  have hvalue := numeralValue_columnLetters column
  rw [h, numeralValue] at hvalue
  cases hvalue

theorem eq_columnLetters {letters : List Char} {column : Nat} (h : ∀ c ∈ letters, c.isUpper = true)
    (hvalue : numeralValue letters = column + 1) : letters = (columnLetters column).toList := by
  have hletters := lettersOnto_numeralValue [] letters 0 h
  rw [Nat.zero_mul, Nat.zero_add, hvalue, List.append_nil, lettersOnto] at hletters
  rw [columnLetters, String.toList_ofList, hletters]

/-! ## Reading columns -/

theorem columnStep_eq_some_iff {n m : Nat} {c : Char} :
    columnStep n c = some m ↔ c.isAlpha = true ∧ n * 26 + letterValue c = m ∧ m ≤ maxColumns := by
  unfold columnStep isLetter
  by_cases hc : c.isAlpha = true
  · by_cases hnext : n * 26 + letterValue c ≤ maxColumns
    · rw [if_pos hc, if_neg (Nat.not_lt.2 hnext), Option.some.injEq]
      constructor
      · rintro rfl
        exact ⟨hc, rfl, hnext⟩
      · rintro ⟨-, h, -⟩
        exact h
    · rw [if_pos hc, if_pos (Nat.lt_of_not_le hnext)]
      constructor
      · intro h
        cases h
      · rintro ⟨-, rfl, h⟩
        exact absurd h hnext
  · rw [if_neg hc]
    constructor
    · intro h
      cases h
    · rintro ⟨h, -⟩
      exact absurd h hc

/-- **Letters behind a column** are read if they are letters and the largest sheet has the column that they lead to.  A
column grows with every letter, so that letters which lead to a column of the sheet never leave the sheet on the way. -/
theorem foldlM_columnStep_iff (m : Nat) :
    ∀ (letters : List Char) (n : Nat), n ≤ maxColumns →
      (letters.foldlM columnStep n = some m ↔
        (∀ c ∈ letters, c.isAlpha = true) ∧
          n * 26 ^ letters.length + numeralValue (letters.map Char.toUpper) = m ∧ m ≤ maxColumns)
  | [], n, hn => by
    rw [List.foldlM_nil, Option.pure_def, Option.some.injEq, List.map_nil, numeralValue, List.length_nil]
    constructor
    · rintro rfl
      refine ⟨?_, by omega, hn⟩
      intro c h
      cases h
    · rintro ⟨-, h, -⟩
      omega
  | c :: cs, n, _ => by
    have hvalue : n * 26 ^ (c :: cs).length + numeralValue ((c :: cs).map Char.toUpper) =
        (n * 26 + letterValue c) * 26 ^ cs.length + numeralValue (cs.map Char.toUpper) := by
      rw [List.map_cons, numeralValue, List.length_map, List.length_cons, Nat.pow_succ', ← Nat.mul_assoc, Nat.add_mul,
        Nat.add_assoc]
      rfl
    rw [hvalue, List.foldlM_cons, Option.bind_eq_bind, Option.bind_eq_some_iff, List.forall_mem_cons]
    constructor
    · rintro ⟨next, hstep, hrest⟩
      obtain ⟨hc, rfl, hnext⟩ := columnStep_eq_some_iff.1 hstep
      obtain ⟨hcs, hm, hmax⟩ := (foldlM_columnStep_iff m cs _ hnext).1 hrest
      exact ⟨⟨hc, hcs⟩, hm, hmax⟩
    · rintro ⟨⟨hc, hcs⟩, hm, hmax⟩
      have hgrows : n * 26 + letterValue c ≤ (n * 26 + letterValue c) * 26 ^ cs.length :=
        Nat.le_mul_of_pos_right _ (Nat.pow_pos (by decide))
      have hnext : n * 26 + letterValue c ≤ maxColumns := by omega
      exact ⟨_, columnStep_eq_some_iff.2 ⟨hc, rfl, hnext⟩, (foldlM_columnStep_iff m cs _ hnext).2 ⟨hcs, hm, hmax⟩⟩

/-- **A column is read from its letters in either case, and from nothing else.** -/
theorem columnOfLetters?_eq_some_iff (letters : List Char) (column : Nat) :
    columnOfLetters? letters = some column ↔
      letters ≠ [] ∧ (∀ c ∈ letters, c.isAlpha = true) ∧ letters.map Char.toUpper = (columnLetters column).toList ∧
        column < maxColumns := by
  have upper (h : ∀ c ∈ letters, c.isAlpha = true) : ∀ c ∈ letters.map Char.toUpper, c.isUpper = true := by
    intro c hc
    obtain ⟨d, hd, rfl⟩ := List.mem_map.1 hc
    exact (Char.isUpper_toUpper_eq_isAlpha d).trans (h d hd)
  by_cases hne : letters = []
  · simp [columnOfLetters?, hne]
  have hread (m : Nat) := foldlM_columnStep_iff m letters 0 (Nat.zero_le _)
  simp only [Nat.zero_mul, Nat.zero_add] at hread
  rw [columnOfLetters?, if_neg (by simpa using hne), Option.map_eq_some_iff]
  constructor
  · rintro ⟨m, hm, rfl⟩
    obtain ⟨hletters, hvalue, hmax⟩ := (hread m).1 hm
    have hpos := numeralValue_pos (by simpa using hne) (upper hletters)
    exact ⟨hne, hletters, eq_columnLetters (upper hletters) (by omega), by omega⟩
  · rintro ⟨-, hletters, hname, hmax⟩
    refine ⟨column + 1, (hread (column + 1)).2 ⟨hletters, ?_, hmax⟩, rfl⟩
    rw [hname, numeralValue_columnLetters]

theorem isAlpha_of_mem_columnLetters (column : Nat) : ∀ c ∈ (columnLetters column).toList, c.isAlpha = true := by
  intro c hc
  exact Bool.or_eq_true_iff.2 (.inl (isUpper_of_mem_columnLetters column c hc))

theorem columnOfLetters?_columnLetters {column : Nat} (h : column < maxColumns) :
    columnOfLetters? (columnLetters column).toList = some column := by
  have hsame : (columnLetters column).toList.map Char.toUpper = (columnLetters column).toList.map id := by
    apply List.map_congr_left
    intro c hc
    exact toUpper_of_isUpper (isUpper_of_mem_columnLetters column c hc)
  rw [List.map_id] at hsame
  exact (columnOfLetters?_eq_some_iff _ _).2 ⟨columnLetters_ne_nil column, isAlpha_of_mem_columnLetters column, hsame, h⟩

/-- The numbers that the reading of a column goes through, also the one at which it gives up, are small. -/
theorem columnStep_lt {letters : List Char} {n : Nat} {c : Char} (h : letters.foldlM columnStep 0 = some n)
    (hc : c.isAlpha = true) : n * 26 + letterValue c < 2 ^ 32 := by
  obtain ⟨-, -, hmax⟩ := (foldlM_columnStep_iff n letters 0 (Nat.zero_le _)).1 h
  have := letterValue_bounds hc
  unfold maxColumns at hmax
  omega

end OfficePreview.Sheet
