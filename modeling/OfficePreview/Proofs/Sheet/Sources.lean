import OfficePreview.Proofs.Sheet.Sheets
import OfficePreview.Proofs.Xml.Source
/-!
# Sources — what is read from the source of a sheet

Character data is taken piece by piece, so that a sheet is read as the trees of its source say, also where text has come to
stand beside text (`Grid.ofText_of_writtenAs`).  Whatever the trees are, nothing is open after them if nothing was open
before (`IsResting.run`), and trees without rows and cells leave no trace (`IsResting.run_of_tags`).
-/
namespace OfficePreview.Sheet

open Xml (Event Tag Forest IsWellFormed WrittenAs)

namespace GridBuilder

variable {part : String} {shared : SharedStrings} {b : GridBuilder}

theorem isResting_close (b : GridBuilder) {name : String} (hn : Xml.localName name = "c") :
    (b.close shared name).IsResting := by
  unfold GridBuilder.close
  rw [if_pos hn]
  dsimp only
  split
  · exact IsResting.place ⟨rfl, rfl, rfl, rfl⟩ shared _
  · exact ⟨rfl, rfl, rfl, rfl⟩

theorem IsResting.startRow (hb : b.IsResting) (tag : Tag) : (b.startRow tag).IsResting :=
  ⟨hb.cell, hb.inValue, hb.inText, hb.phonetic⟩

theorem IsResting.tag (hb : b.IsResting) {tag : Tag} (hc : tag.isLocal "c" = false) (opens : Bool) :
    (b.tag part shared tag opens).IsResting := by
  unfold GridBuilder.tag
  rw [hc, hb.cell]
  split
  · exact hb.startRow tag
  · exact hb

theorem IsResting.emptyCell (hb : b.IsResting) (tag : Tag) : (b.startCell part shared tag false).IsResting :=
  (hb.past part tag).place shared _

/-- **Whatever is read between cells, nothing is open after it**, also where cells lie in one another. -/
theorem IsResting.run (hb : b.IsResting) (f : Forest) (depth : Nat) :
    (GridBuilder.run part shared b (f.events depth)).IsResting := by
  induction f generalizing b depth with
  | nil => exact hb
  | element tag children rest ihc ihr =>
    rw [run_element]
    refine ihr ?_ depth
    cases hc : tag.isLocal "c" with
    | true => exact isResting_close _ (by simpa [Tag.isLocal] using hc)
    | false =>
      have hstart : (b.tag part shared tag true).IsResting := hb.tag hc true
      have hchildren := ihc hstart (depth + 1)
      rw [hchildren.close (by simpa [Tag.isLocal] using hc)]
      exact hchildren
  | empty tag rest ihr =>
    rw [run_empty]
    refine ihr ?_ depth
    cases hc : tag.isLocal "c" with
    | true =>
      cases hr : tag.isLocal "row" with
      | true =>
        simp only [GridBuilder.tag, hr, if_true]
        exact hb.startRow tag
      | false =>
        simp only [GridBuilder.tag, hr, hc, Bool.false_eq_true, if_false, if_true]
        exact hb.emptyCell tag
    | false => exact hb.tag hc false
  | leaf l rest ihr =>
    rw [Forest.events, run_cons, hb.step_leaf]
    exact ihr hb depth

/-- **Trees without rows and cells leave no trace**, whatever else they hold. -/
theorem IsResting.run_of_tags (hb : b.IsResting) {f : Forest}
    (hf : ∀ tag ∈ f.tags, tag.isLocal "c" = false ∧ tag.isLocal "row" = false) (depth : Nat) :
    GridBuilder.run part shared b (f.events depth) = b := by
  have htag {tag : Tag} (ht : tag.isLocal "c" = false ∧ tag.isLocal "row" = false) (opens : Bool) :
      b.tag part shared tag opens = b := by
    simp [GridBuilder.tag, ht, hb.cell]
  induction f generalizing depth with
  | nil => rfl
  | element tag children rest ihc ihr =>
    simp only [Forest.tags, List.mem_cons, List.mem_append] at hf
    have hn := hf tag (.inl rfl)
    rw [run_element, htag hn, ihc (fun t ht => hf t (.inr (.inl ht))), hb.close (by simpa [Tag.isLocal] using hn.1),
      ihr fun t ht => hf t (.inr (.inr ht))]
  | empty tag rest ihr =>
    simp only [Forest.tags, List.mem_cons] at hf
    rw [run_empty, htag (hf tag (.inl rfl)), ihr fun t ht => hf t (.inr ht)]
  | leaf l rest ihr =>
    rw [Forest.events, run_cons, hb.step_leaf]
    exact ihr hf depth

theorem isResting_empty : ({} : GridBuilder).IsResting := ⟨rfl, rfl, rfl, rfl⟩

/-! ## The text of a sheet -/

theorem data_append (b : GridBuilder) (x y : String) : (b.data x).data y = b.data (x ++ y) := by
  unfold GridBuilder.data
  cases hcell : b.cell with
  | none => simp [hcell]
  | some c => cases hv : b.inValue <;> cases ht : b.inText <;> simp [hcell, hv, ht, String.append_assoc]

end GridBuilder

/-- **A sheet is read as the trees of its source say**, text piece by piece. -/
theorem Grid.ofText_of_writtenAs (part : String) (shared : SharedStrings) {text : String} {source : Xml.Source}
    (h : WrittenAs text source) (accepted : IsWellFormed text) : (Grid.ofText part shared text).outcome =
      .ok (GridBuilder.run part shared {} (source.forest.events 0)).grid.ensureNotEmpty := by
  exact h.readAll accepted (fun b x y _ => b.data_append x y) _ _

end OfficePreview.Sheet
