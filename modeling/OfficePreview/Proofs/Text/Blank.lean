import Mathlib.Data.List.TakeWhile
import OfficePreview.Text.Blank
/-!
# Blank — what trimming leaves

Trimming stops at the first character from either end that is not of the class.  So a text whose last character stays is
trimmed at its beginning alone (`trim_of_last`), and one whose ends both stay is left as it is (`trim_eq_self`).
-/
namespace OfficePreview.Text

variable {p : Char → Bool} {c : Char} {xs ys : List Char}

theorem dropWhile_append_stop (hc : p c = false) : (xs ++ c :: ys).dropWhile p = xs.dropWhile p ++ c :: ys := by
  rw [List.dropWhile_append]
  split
  · rename_i hempty
    rw [List.isEmpty_iff.1 hempty, List.nil_append, List.dropWhile_cons_of_neg (by simp [hc])]
  · rfl

theorem trimEnd_append_stop (hc : p c = false) : trimEnd p (xs ++ c :: ys) = xs ++ c :: trimEnd p ys := by
  rw [trimEnd, List.reverse_append, List.reverse_cons, List.append_assoc, List.singleton_append,
    dropWhile_append_stop hc]
  simp [trimEnd]

theorem trim_of_last (h : ∀ c ∈ xs.getLast?, p c = false) : trim p xs = xs.dropWhile p := by
  rcases List.eq_nil_or_concat xs with rfl | ⟨xs, c, rfl⟩
  · rfl
  · rw [List.concat_eq_append] at h ⊢
    have hc : p c = false := h c (by simp)
    rw [trim, dropWhile_append_stop hc, trimEnd_append_stop hc]
    rfl

theorem trim_eq_self (hhead : ∀ c ∈ xs.head?, p c = false) (hlast : ∀ c ∈ xs.getLast?, p c = false) :
    trim p xs = xs := by
  rw [trim_of_last hlast]
  cases h : xs with
  | nil => rfl
  | cons c cs => exact List.dropWhile_cons_of_neg (by simp [hhead c (by simp [h])])

theorem isBlank_of_isDigit (h : c.isDigit = true) : isBlank c = false := by
  simp only [Char.isDigit, Bool.and_eq_true, decide_eq_true_eq, UInt32.le_iff_toNat_le, ge_iff_le] at h
  change 48 ≤ c.toNat ∧ c.toNat ≤ 57 at h
  simp only [isBlank, Bool.or_eq_false_iff, Bool.and_eq_false_iff, decide_eq_false_iff_not, beq_eq_false_iff_ne]
  omega

end OfficePreview.Text
