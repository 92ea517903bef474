import OfficePreview.Proofs.Sheet.Columns
import OfficePreview.Proofs.Text.Numerals
/-!
# References — positions and how they are written

No digit is a letter, so a reference comes apart where its letters end.  A position on a sheet is read back from its
reference (`Position.ofReference?_reference`), and nothing else is read as the position but for the case of the letters
and zeros before the digits (`Position.exists_of_ofReference?`).
-/
namespace OfficePreview.Sheet

theorem isLetter_of_mem_columnLetters (column : Nat) : ∀ c ∈ (columnLetters column).toList, isLetter c = true :=
  isAlpha_of_mem_columnLetters column

theorem isLetter_of_isDigit {c : Char} (h : c.isDigit = true) : isLetter c = false := by
  simp only [isLetter, Char.isAlpha, Char.isUpper, Char.isLower, Char.isDigit, Bool.and_eq_true, decide_eq_true_eq,
    Bool.or_eq_false_iff, Bool.and_eq_false_iff, decide_eq_false_iff_not, UInt32.le_iff_toNat_le, ge_iff_le] at *
  change 48 ≤ c.val.toNat ∧ c.val.toNat ≤ 57 at h
  change ¬ (65 ≤ c.val.toNat ∧ c.val.toNat ≤ 90) ∧ (¬ 97 ≤ c.val.toNat ∨ ¬ c.val.toNat ≤ 122)
  omega

/-- A position as it is written: the letters of its column and the number of its row. -/
def Position.reference (p : Position) : String := columnLetters p.column ++ toString (p.row + 1)

theorem Position.toList_reference (p : Position) :
    p.reference.toList = (columnLetters p.column).toList ++ Nat.toDigits 10 (p.row + 1) := by
  simp [reference]

theorem Position.ofReference?_reference {p : Position} (hrow : p.row < maxRows) (hcolumn : p.column < maxColumns) :
    Position.ofReference? p.reference = some p := by
  have hletters := isLetter_of_mem_columnLetters p.column
  have hread := columnOfLetters?_columnLetters hcolumn
  have hdigits : (Nat.toDigits 10 (p.row + 1)).takeWhile isLetter = [] ∧
      (Nat.toDigits 10 (p.row + 1)).dropWhile isLetter = Nat.toDigits 10 (p.row + 1) := by
    cases hd : Nat.toDigits 10 (p.row + 1) with
    | nil => exact absurd hd Nat.toDigits_ne_nil
    | cons d ds =>
      have hmem : d ∈ Nat.toDigits 10 (p.row + 1) := by simp [hd]
      have hnot : isLetter d = false :=
        isLetter_of_isDigit (Nat.isDigit_of_mem_toDigits (by decide) (by decide) hmem)
      simp [hnot]
  have hnumber : rowOfDigits? (Nat.toDigits 10 (p.row + 1)) = some p.row := by
    simp [rowOfDigits?, Text.number?_toDigits, Nat.succ_le_of_lt hrow]
  rw [ofReference?, toList_reference, List.takeWhile_append_of_pos hletters, List.dropWhile_append_of_pos hletters, hdigits.1,
    hdigits.2, List.append_nil, hread, hnumber]
  rfl

/-- **The number of a row is read from its decimal digits**, with any zeros before them, and from nothing else. -/
theorem exists_of_rowOfDigits? {digits : List Char} {row : Nat} (h : rowOfDigits? digits = some row) :
    row < maxRows ∧ ∃ zeros, digits = List.replicate zeros '0' ++ Nat.toDigits 10 (row + 1) := by
  obtain ⟨number, hnumber, hrow⟩ := Option.bind_eq_some_iff.1 h
  simp only [Option.ite_none_right_eq_some, Option.some.injEq] at hrow
  obtain ⟨⟨hone, hmax⟩, rfl⟩ := hrow
  obtain ⟨zeros, hz⟩ := Text.exists_zeros_of_number? hnumber
  exact ⟨by omega, zeros, by rw [hz, Nat.sub_add_cancel hone]⟩

theorem Position.exists_of_ofReference? {s : String} {p : Position} (h : Position.ofReference? s = some p) :
    p.column < maxColumns ∧ p.row < maxRows ∧
      ∃ letters zeros, s.toList = letters ++ (List.replicate zeros '0' ++ (toString (p.row + 1)).toList) ∧
        (∀ c ∈ letters, c.isAlpha = true) ∧ letters.map Char.toUpper = (columnLetters p.column).toList := by
  obtain ⟨column, hcolumn, h⟩ := Option.bind_eq_some_iff.1 h
  obtain ⟨row, hrow, h⟩ := Option.bind_eq_some_iff.1 h
  cases h
  obtain ⟨-, hletters, hname, hmax⟩ := (columnOfLetters?_eq_some_iff _ _).1 hcolumn
  obtain ⟨hrows, zeros, hz⟩ := exists_of_rowOfDigits? hrow
  refine ⟨hmax, hrows, s.toList.takeWhile isLetter, zeros, ?_, hletters, hname⟩
  have hdigits : (toString (row + 1)).toList = Nat.toDigits 10 (row + 1) := by simp
  rw [hdigits, ← hz, List.takeWhile_append_dropWhile]

/-- **References and positions name each other.**  The letters of a column are the one numeral of base 26 that has the
column, counted from one, as its value.  A column of the largest sheet is read from these letters in either case and from
nothing else, and the numbers on the way stay small.  A position of the largest sheet is read from its column and row, and
what is read as a position is such a reference, with letters in either case and perhaps zeros before the digits. -/
theorem references_name_positions :
    (∀ (column : Nat) (letters : List Char), letters = (columnLetters column).toList ↔
      letters ≠ [] ∧ (∀ c ∈ letters, c.isUpper = true) ∧ numeralValue letters = column + 1) ∧
    (∀ (letters : List Char) (column : Nat), columnOfLetters? letters = some column ↔
      letters ≠ [] ∧ (∀ c ∈ letters, c.isAlpha = true) ∧ letters.map Char.toUpper = (columnLetters column).toList ∧
        column < maxColumns) ∧
    (∀ (letters : List Char) (n : Nat) (c : Char), letters.foldlM columnStep 0 = some n → c.isAlpha = true →
      n * 26 + letterValue c < 2 ^ 32) ∧
    (∀ row column : Nat, row < maxRows → column < maxColumns →
      Position.ofReference? (columnLetters column ++ toString (row + 1)) = some { row, column }) ∧
    ∀ (s : String) (p : Position), Position.ofReference? s = some p →
      p.column < maxColumns ∧ p.row < maxRows ∧
        ∃ letters zeros, s.toList = letters ++ (List.replicate zeros '0' ++ (toString (p.row + 1)).toList) ∧
          (∀ c ∈ letters, c.isAlpha = true) ∧ letters.map Char.toUpper = (columnLetters p.column).toList := by
  refine ⟨fun column letters => ?_, columnOfLetters?_eq_some_iff, fun _ _ _ => columnStep_lt, fun row column => ?_,
    fun _ _ => Position.exists_of_ofReference?⟩
  · constructor
    · rintro rfl
      exact ⟨columnLetters_ne_nil column, isUpper_of_mem_columnLetters column, numeralValue_columnLetters column⟩
    · rintro ⟨-, upper, hvalue⟩
      exact eq_columnLetters upper hvalue
  · intro hrow hcolumn
    exact @Position.ofReference?_reference { row, column } hrow hcolumn

theorem references_name_positions_lastColumn :
    (∀ c ∈ ['X', 'F', 'D'], c.isUpper = true) ∧ ['X', 'F', 'D'] = (columnLetters 16383).toList ∧
      Position.ofReference? (columnLetters 16383 ++ toString (6 + 1)) = some { row := 6, column := 16383 } ∧
      Position.ofReference? "xfD007" = some { row := 6, column := 16383 } ∧
      ∃ letters zeros, "xfD007".toList = letters ++ (List.replicate zeros '0' ++ (toString (6 + 1)).toList) ∧
        letters.map Char.toUpper = (columnLetters 16383).toList := by
  obtain ⟨letters, -, -, written, reference⟩ := references_name_positions
  have upper : ∀ c ∈ ['X', 'F', 'D'], c.isUpper = true := List.all_eq_true.1 rfl
  have read : Position.ofReference? "xfD007" = some { row := 6, column := 16383 } := by decide +kernel
  obtain ⟨-, -, begins, zeros, hs, -, hname⟩ := reference "xfD007" { row := 6, column := 16383 } read
  exact ⟨upper, (letters 16383 _).2 ⟨by decide, upper, by decide +kernel⟩, written 6 16383 (by decide) (by decide), read,
    begins, zeros, hs, hname⟩

end OfficePreview.Sheet
