import OfficePreview.Proofs.Word.Loops
import OfficePreview.Proofs.Word.Runs
/-!
# Paragraphs — paragraphs and tables fed to their builders

A builder holds the builder of the element that is open in it, and feeding the one is feeding the other until that
element is closed.  A paragraph collects the runs at any depth (`feed_paragraph`).  In a table the depth of a place
decides what counts there: among its own trees the rows, among those of a row the cells, and everywhere in a cell the
paragraphs (`feed_table`).
-/
namespace OfficePreview.Word

open Xml (Event Tag Forest Leaf)

/-! ## Paragraphs -/

namespace ParagraphBuilder

theorem step_inRun {pd depth : Nat} (hd : pd < depth) (runs : Array Run) (b : RunBuilder) (e : Event) :
    step ⟨pd, runs, some b⟩ e depth = match b.step e depth with
      | .more b => .more ⟨pd, runs, some b⟩
      | .done r => .more ⟨pd, runs.push r, none⟩ := by
  cases e with
  | close name =>
    refine (if_neg (Nat.ne_of_gt hd)).trans ?_
    cases hb : b.close depth <;> simp only [RunBuilder.step, hb]
  | _ => rfl

theorem feed_runElement {tag : Tag} (hr : tag.isWord "r" = true) (children rest : Forest) {pd depth : Nat}
    (hd : pd ≤ depth) (runs : Array Run) :
    feed step ⟨pd, runs, none⟩ ((Forest.element tag children rest).events depth) =
      feed step ⟨pd, runs.push (Run.ofForest children), none⟩ (rest.events depth) := by
  have hs : step ⟨pd, runs, none⟩ (.start tag) (depth + 1) = .more ⟨pd, runs, some { depth := depth + 1 }⟩ := by
    simp [step, ParagraphBuilder.tag, hr]
  have hin := RunBuilder.feed_run children {} (depth + 1)
  rw [Run.ofForest_eq] at hin
  have hc := feed_map step (fun b => ⟨pd, runs, some b⟩)
    (fun p hp b c h => by
      rw [step_inRun (Nat.lt_of_lt_of_le (Nat.lt_succ_of_le hd) (Forest.le_depth_of_mem hp)), h]) hin
  refine feed_element hs hc ?_
  rw [step_inRun (Nat.lt_succ_of_le hd), RunBuilder.step, RunBuilder.close]
  simp

theorem step_leaf (pd : Nat) (runs : Array Run) (l : Leaf) (depth : Nat) :
    step ⟨pd, runs, none⟩ l.event depth = .more ⟨pd, runs, none⟩ := by
  cases l <;> rfl

/-- **A paragraph collects the runs at any depth.** -/
theorem feed_paragraph (f : Forest) {pd depth : Nat} (hd : pd ≤ depth) (runs : Array Run) :
    feed step ⟨pd, runs, none⟩ (f.events depth) = some ⟨pd, runs ++ (runsOf f).toArray, none⟩ := by
  induction f generalizing depth runs with
  | nil => simp [Forest.events, feed, runsOf]
  | element tag children rest ihc ihr =>
    cases hr : tag.isWord "r" with
    | true =>
      rw [feed_runElement hr children rest hd, ihr hd]
      simp [runsOf, hr]
    | false =>
      have hs : step ⟨pd, runs, none⟩ (.start tag) (depth + 1) = .more ⟨pd, runs, none⟩ := by
        simp [step, ParagraphBuilder.tag, hr]
      have he : step ⟨pd, runs ++ (runsOf children).toArray, none⟩ (.close tag.name) (depth + 1) =
          .more ⟨pd, runs ++ (runsOf children).toArray, none⟩ := by
        simp only [step, if_neg (Nat.ne_of_gt (Nat.lt_succ_of_le hd))]
      rw [feed_element hs (ihc (Nat.le_succ_of_le hd) runs) he, ihr hd]
      simp [runsOf, hr]
  | empty tag rest ihr =>
    have hs : step ⟨pd, runs, none⟩ (.empty tag) (depth + 1) = .more ⟨pd, runs, none⟩ := by
      simp [step, ParagraphBuilder.tag]
    rw [Forest.events, feed_cons hs, ihr hd]
    simp [runsOf]
  | leaf l rest ihr =>
    rw [Forest.events, feed_cons (step_leaf pd runs l depth), ihr hd]
    simp [runsOf]

theorem step_end (pd : Nat) (runs : Array Run) (name : String) :
    step ⟨pd, runs, none⟩ (.close name) pd = .done ⟨runs.toList⟩ := by
  simp [step]

end ParagraphBuilder

/-! ## Tables -/

namespace OpenTable

open TableBuilder (addCell addParagraph close empty)

theorem step_leaf (td : Nat) (rows : Array Row) (row : Option (Array Cell)) (cell : Option (Array Paragraph)) (l : Leaf)
    (depth : Nat) : step ⟨⟨td, rows, row, cell⟩, none⟩ l.event depth = .more ⟨⟨td, rows, row, cell⟩, none⟩ := by
  cases l <;> rfl

theorem step_inParagraph (td : Nat) (rows : Array Row) (row : Option (Array Cell)) (cell : Option (Array Paragraph))
    (b : ParagraphBuilder) (e : Event) (depth : Nat) :
    step ⟨⟨td, rows, row, cell⟩, some b⟩ e depth = match b.step e depth with
      | .more b => .more ⟨⟨td, rows, row, cell⟩, some b⟩
      | .done p => .more ⟨⟨td, rows, row, cell.map (·.push p)⟩, none⟩ := by
  unfold step
  dsimp only
  cases b.step e depth <;> rfl

theorem feed_paragraphElement {tag : Tag} (hp : tag.isWord "p" = true) (children rest : Forest) (td depth : Nat)
    (rows : Array Row) (row : Option (Array Cell)) (cell : Option (Array Paragraph)) :
    feed step ⟨⟨td, rows, row, cell⟩, none⟩ ((Forest.element tag children rest).events depth) =
      feed step ⟨⟨td, rows, row, cell.map (· ++ #[⟨runsOf children⟩])⟩, none⟩ (rest.events depth) := by
  have hs : step ⟨⟨td, rows, row, cell⟩, none⟩ (.start tag) (depth + 1) =
      .more ⟨⟨td, rows, row, cell⟩, some { depth := depth + 1 }⟩ := by
    simp [step, start, hp, isWord_eq_false hp (b := "tr") (by decide), isWord_eq_false hp (b := "tc") (by decide)]
  have hc := feed_map step (fun b => ⟨⟨td, rows, row, cell⟩, some b⟩)
    (fun p _ b c h => by rw [step_inParagraph, h])
    (ParagraphBuilder.feed_paragraph children (Nat.le_refl (depth + 1)) #[])
  refine feed_element hs hc ?_
  rw [step_inParagraph, ParagraphBuilder.step_end]
  simp

/-! ### In a cell, and where no row and no cell is open -/

/-- A place deep enough for neither rows nor cells: below the cells of the table, or outside its rows. -/
def Below (td depth : Nat) (row : Option (Array Cell)) (cell : Option (Array Paragraph)) : Prop :=
  td + 2 ≤ depth ∨ td + 1 ≤ depth ∧ row = none ∧ cell = none

section

variable {td depth : Nat} {row : Option (Array Cell)} {cell : Option (Array Paragraph)}

theorem Below.inside (hd : td + 2 ≤ depth) (row : Option (Array Cell)) (cell : Option (Array Paragraph)) :
    Below td depth row cell := .inl hd

theorem Below.outside (hd : td + 1 ≤ depth) : Below td depth none none := .inr ⟨hd, rfl, rfl⟩

theorem Below.deeper (h : Below td depth row cell) : Below td (depth + 1) row cell := by
  unfold Below at *
  omega

theorem Below.add (h : Below td depth row cell) (ps : Array Paragraph) : Below td depth row (cell.map (· ++ ps)) := by
  rcases h with h | ⟨h, hr, rfl⟩
  · exact .inl h
  · exact .inr ⟨h, hr, rfl⟩

theorem step_start_below (h : Below td depth row cell) (rows : Array Row) {tag : Tag} (hp : tag.isWord "p" = false) :
    step ⟨⟨td, rows, row, cell⟩, none⟩ (.start tag) (depth + 1) = .more ⟨⟨td, rows, row, cell⟩, none⟩ := by
  have hr : ¬ (depth + 1 = td + 1 ∧ tag.isWord "tr" = true) := by
    rcases h with h | ⟨h, -, -⟩ <;> omega
  have hc : ¬ (depth + 1 = td + 2 ∧ row.isSome = true ∧ tag.isWord "tc" = true) := by
    rcases h with h | ⟨-, rfl, -⟩
    · omega
    · simp
  simp only [step, start]
  rw [if_neg hr, if_neg hc, hp, if_neg Bool.false_ne_true]

theorem step_empty_below (h : Below td depth row cell) (rows : Array Row) (tag : Tag) :
    step ⟨⟨td, rows, row, cell⟩, none⟩ (.empty tag) (depth + 1) =
      .more ⟨⟨td, rows, row, cell.map (· ++ (if tag.isWord "p" then [({} : Paragraph)] else []).toArray)⟩, none⟩ := by
  simp only [step, empty]
  rcases h with h | ⟨h, rfl, rfl⟩
  · rw [if_neg (by omega)]
    cases tag.isWord "p" <;> simp [addParagraph]
  · cases tag.isWord "p" <;> simp [addParagraph, addCell]

theorem step_close_below (h : Below td depth row cell) (rows : Array Row) (name : String) :
    step ⟨⟨td, rows, row, cell⟩, none⟩ (.close name) (depth + 1) = .more ⟨⟨td, rows, row, cell⟩, none⟩ := by
  simp only [step, close]
  rcases h with h | ⟨h, rfl, rfl⟩
  · rw [if_neg (by omega), if_neg (by omega), if_neg (by omega)]
  · rw [if_neg (by omega), if_neg (by omega), ite_self]

end

/-- **In a cell the paragraphs at any depth count**, and outside of cells none does. -/
theorem feed_below (f : Forest) {td depth : Nat} {row : Option (Array Cell)} {cell : Option (Array Paragraph)}
    (h : Below td depth row cell) (rows : Array Row) :
    feed step ⟨⟨td, rows, row, cell⟩, none⟩ (f.events depth) =
      some ⟨⟨td, rows, row, cell.map (· ++ (paragraphsOf f).toArray)⟩, none⟩ := by
  induction f generalizing depth cell with
  | nil => simp [Forest.events, feed, paragraphsOf]
  | element tag children rest ihc ihr =>
    cases hp : tag.isWord "p" with
    | true =>
      rw [feed_paragraphElement hp, ihr (h.add _)]
      simp [paragraphsOf, hp, Function.comp_def]
    | false =>
      rw [feed_element (step_start_below h rows hp) (ihc h.deeper) (step_close_below (h.add _) rows tag.name),
        ihr (h.add _)]
      simp [paragraphsOf, hp, Function.comp_def]
  | empty tag rest ihr =>
    rw [Forest.events, feed_cons (step_empty_below h rows tag), ihr (h.add _)]
    simp [paragraphsOf, Function.comp_def]
  | leaf l rest ihr =>
    rw [Forest.events, feed_cons (step_leaf ..), ihr h]
    simp [paragraphsOf]

/-! ### Cells and rows -/

/-- **The trees of a row**: its cells count, in their order. -/
theorem feed_row (f : Forest) (td : Nat) (rows : Array Row) (cells : Array Cell) :
    feed step ⟨⟨td, rows, some cells, none⟩, none⟩ (f.events (td + 1)) =
      some ⟨⟨td, rows, some (cells ++ (cellsOf f).toArray), none⟩, none⟩ := by
  induction f generalizing cells with
  | nil => simp [Forest.events, feed, cellsOf]
  | element tag children rest _ ihr =>
    cases hp : tag.isWord "p" with
    | true =>
      rw [feed_paragraphElement hp, Option.map_none, ihr]
      simp [cellsOf, isWord_eq_false hp (b := "tc") (by decide)]
    | false =>
      cases hc : tag.isWord "tc" with
      | true =>
        have hs : step ⟨⟨td, rows, some cells, none⟩, none⟩ (.start tag) (td + 1 + 1) =
            .more ⟨⟨td, rows, some cells, some #[]⟩, none⟩ := by
          simp [step, start, hc]
        have hin := feed_below children (Below.inside (Nat.le_refl (td + 2)) (some cells) (some #[])) rows
        have he : step ⟨⟨td, rows, some cells, some (#[] ++ (paragraphsOf children).toArray)⟩, none⟩ (.close tag.name)
            (td + 1 + 1) = .more ⟨⟨td, rows, some (cells.push ⟨paragraphsOf children⟩), none⟩, none⟩ := by
          simp [step, close, addCell, show ¬ td + 1 + 1 = td by omega]
        rw [feed_element hs hin he, ihr]
        simp [cellsOf, hc]
      | false =>
        have hs : step ⟨⟨td, rows, some cells, none⟩, none⟩ (.start tag) (td + 1 + 1) =
            .more ⟨⟨td, rows, some cells, none⟩, none⟩ := by
          simp [step, start, hp, hc]
        have hin := feed_below children (Below.inside (Nat.le_refl (td + 2)) (some cells) none) rows
        have he : step ⟨⟨td, rows, some cells, none⟩, none⟩ (.close tag.name) (td + 1 + 1) =
            .more ⟨⟨td, rows, some cells, none⟩, none⟩ := by
          simp [step, close, show ¬ td + 1 + 1 = td by omega]
        rw [feed_element hs hin he, ihr]
        simp [cellsOf, hc]
  | empty tag rest ihr =>
    have hs : step ⟨⟨td, rows, some cells, none⟩, none⟩ (.empty tag) (td + 1 + 1) =
        .more ⟨⟨td, rows, some (cells ++ (if tag.isWord "tc" then [({} : Cell)] else []).toArray), none⟩, none⟩ := by
      cases hc : tag.isWord "tc" <;> simp [step, empty, addCell, addParagraph, hc]
    rw [Forest.events, feed_cons hs, ihr]
    simp [cellsOf]
  | leaf l rest ihr =>
    rw [Forest.events, feed_cons (step_leaf ..), ihr]
    simp [cellsOf]

/-- **The trees of a table**: its rows count, in their order. -/
theorem feed_table (f : Forest) (td : Nat) (rows : Array Row) :
    feed step ⟨⟨td, rows, none, none⟩, none⟩ (f.events td) =
      some ⟨⟨td, rows ++ (rowsOf f).toArray, none, none⟩, none⟩ := by
  induction f generalizing rows with
  | nil => simp [Forest.events, feed, rowsOf]
  | element tag children rest _ ihr =>
    cases hp : tag.isWord "p" with
    | true =>
      rw [feed_paragraphElement hp, Option.map_none, ihr]
      simp [rowsOf, isWord_eq_false hp (b := "tr") (by decide)]
    | false =>
      cases hr : tag.isWord "tr" with
      | true =>
        have hs : step ⟨⟨td, rows, none, none⟩, none⟩ (.start tag) (td + 1) =
            .more ⟨⟨td, rows, some #[], none⟩, none⟩ := by
          simp [step, start, hr]
        have he : step ⟨⟨td, rows, some (#[] ++ (cellsOf children).toArray), none⟩, none⟩ (.close tag.name) (td + 1) =
            .more ⟨⟨td, rows.push ⟨cellsOf children⟩, none, none⟩, none⟩ := by
          simp [step, close]
        rw [feed_element hs (feed_row children td rows #[]) he, ihr]
        simp [rowsOf, hr]
      | false =>
        have hs : step ⟨⟨td, rows, none, none⟩, none⟩ (.start tag) (td + 1) =
            .more ⟨⟨td, rows, none, none⟩, none⟩ := by
          simp [step, start, hp, hr]
        have hin := feed_below children (Below.outside (Nat.le_refl (td + 1))) rows
        have he : step ⟨⟨td, rows, none, none⟩, none⟩ (.close tag.name) (td + 1) =
            .more ⟨⟨td, rows, none, none⟩, none⟩ := by
          simp [step, close]
        rw [feed_element hs hin he, ihr]
        simp [rowsOf, hr]
  | empty tag rest ihr =>
    have hs : step ⟨⟨td, rows, none, none⟩, none⟩ (.empty tag) (td + 1) = .more ⟨⟨td, rows, none, none⟩, none⟩ := by
      simp [step, empty, addParagraph]
    rw [Forest.events, feed_cons hs, ihr]
    simp [rowsOf]
  | leaf l rest ihr =>
    rw [Forest.events, feed_cons (step_leaf ..), ihr]
    simp [rowsOf]

theorem step_end (td : Nat) (rows : Array Row) (name : String) :
    step ⟨⟨td, rows, none, none⟩, none⟩ (.close name) td = .done (.ofRows rows.toList) := by
  simp [step, close]

end OpenTable

end OfficePreview.Word
