import OfficePreview.Proofs.Word.Loops
/-!
# Filled — tables that are read have rows, and their rows have cells

A table loses its rows without cells when it is closed, and without rows it is not taken over.  So nothing that is read
from a part holds an empty table or an empty row (`isFilled_of_ofText`), whatever the part is like.
-/
namespace OfficePreview.Word

open Xml (Event)

/-- A table with rows that have cells. -/
structure Table.IsFilled (t : Table) : Prop where
  rows_ne : t.rows ≠ []
  cells_ne : ∀ row ∈ t.rows, row.cells ≠ []

theorem Table.IsFilled.isEmpty_eq {t : Table} (h : t.IsFilled) : t.isEmpty = false := by
  simpa [isEmpty] using h.rows_ne

def Block.IsFilled : Block → Prop
  | .paragraph _ => True
  | .table t => t.IsFilled

theorem isFilled_ofRows {rows : List Row} (h : (Table.ofRows rows).isEmpty = false) : (Table.ofRows rows).IsFilled where
  rows_ne := by
    intro hn
    rw [Table.isEmpty, hn] at h
    cases h
  cells_ne := by
    intro row hrow hn
    have := (List.mem_filter.1 hrow).2
    simp [hn] at this

/-- A table that is closed has been rid of its empty rows. -/
theorem TableBuilder.eq_ofRows_of_close {b : TableBuilder} {depth : Nat} {t : Table} (h : b.close depth = .done t) :
    ∃ rows, t = .ofRows rows := by
  unfold close at h
  split at h
  · cases h
    exact ⟨_, rfl⟩
  · repeat' split at h
    all_goals cases h

theorem OpenTable.eq_ofRows_of_step {b : OpenTable} {e : Event} {depth : Nat} {t : Table}
    (h : b.step e depth = .done t) : ∃ rows, t = .ofRows rows := by
  unfold step at h
  split at h
  · split at h <;> cases h
  · split at h
    · cases h
    · cases h
    · split at h
      · cases h
      · rename_i hc
        cases h
        exact TableBuilder.eq_ofRows_of_close hc
    · cases h

namespace BodyBuilder

/-- The tables among the blocks that have been read are filled. -/
def IsFilled (b : BodyBuilder) : Prop := ∀ block ∈ b.blocks.toList, block.IsFilled

theorem IsFilled.empty : IsFilled {} := fun _ hmem => absurd hmem List.not_mem_nil

theorem IsFilled.push {b : BodyBuilder} (h : b.IsFilled) (place : Place) (block : Block) (hb : block.IsFilled) :
    IsFilled ⟨b.blocks.push block, place⟩ := by
  intro other hmem
  rw [Array.toList_push, List.mem_append, List.mem_singleton] at hmem
  rcases hmem with hmem | rfl
  · exact h other hmem
  · exact hb

theorem IsFilled.addTable {b : BodyBuilder} (h : b.IsFilled) (place : Place) (rows : List Row) :
    IsFilled ⟨Word.addTable b.blocks (.ofRows rows), place⟩ := by
  unfold Word.addTable
  by_cases he : (Table.ofRows rows).isEmpty = true
  · rw [if_pos he]
    exact h
  · rw [if_neg he]
    exact h.push place (.table _) (isFilled_ofRows (Bool.eq_false_iff.2 he))

/-- **No step takes over a table that is not filled.** -/
theorem IsFilled.step {b : BodyBuilder} (h : b.IsFilled) (e : Event) (depth : Nat) : (b.step e depth).IsFilled := by
  unfold BodyBuilder.step
  split
  · repeat' split
    all_goals exact h
  · split
    · repeat' split
      all_goals exact h
    · split
      · exact h.push _ (.paragraph _) trivial
      · exact h
    · split <;> exact h
    · exact h
  · split
    · exact h
    · exact h.push _ (.paragraph _) trivial
  · split
    · exact h
    · -- the one place where a table is taken over
      rename_i hd
      obtain ⟨rows, rfl⟩ := OpenTable.eq_ofRows_of_step hd
      exact h.addTable _ rows
  · exact h

end BodyBuilder

/-- **The tables of a document that was read are filled.** -/
theorem isFilled_of_ofText {text : String} {d : Document} (h : Document.ofText text = .ok d) :
    ∀ block ∈ d.blocks, block.IsFilled := by
  rw [Document.ofText_eq, Xml.parsePart, Xml.readPart, Xml.Reader.fold_value] at h
  cases hv : ((Xml.Reader.ofText text).fold BodyBuilder.step {}).2 with
  | error fault => simp [hv, Except.map] at h
  | ok u =>
    rw [hv] at h
    cases h
    exact List.foldlRecOn (motive := BodyBuilder.IsFilled) _ _ .empty fun b hb p _ => hb.step p.1 p.2

end OfficePreview.Word
