import OfficePreview.Proofs.Sheet.Sources
import OfficePreview.Proofs.Xml.Nesting
/-!
# Area — the grid of a sheet stays within the largest area

A grid grows by rows and by cells, and by either only as far as it fits (`GridBuilder.isBounded_step`).  So it is within
the largest area after every event and at the end, when it is given a row and a column if it has none.

A cell that does not fit leaves no trace in the grid.  What it does leave, a warning and the column after it, has no part
in what is read later, if all cells say where they are: builders that agree but for these two go on to agree
(`GridBuilder.bare_step`).  So a sheet shows the same grid without the cell (`area_bounded`).
-/
namespace OfficePreview.Sheet

open Xml (Event Tag Forest Leaf Reader IsWellFormed WrittenAs)

/-! ## The area of a grid -/

namespace Grid

variable {g : Grid}

/-- A grid within the largest area, a grid without columns counting as one column wide.  It has columns only if it has
rows. -/
structure IsBounded (g : Grid) : Prop where
  isRectangular : g.isRectangular = true
  columns_eq : g.rowCount = 0 → g.columns = 0
  area_le : max g.columns 1 * g.rowCount ≤ maxArea

theorem isBounded_empty : ({} : Grid).IsBounded := ⟨isRectangular_empty, fun _ => rfl, by decide⟩

theorem fits_iff (g : Grid) (rows columns : Nat) :
    g.fits rows columns = true ↔ max rows g.rowCount * max (max columns g.columns) 1 ≤ maxArea := by
  simp [fits, rowCount]

theorem IsBounded.ensureRows (hg : g.IsBounded) {count : Nat} (h : g.fits (count + 1) 0 = true) :
    (g.ensureRows (count + 1)).IsBounded where
  isRectangular := isRectangular_ensureRows hg.isRectangular _
  columns_eq := by
    rw [rowCount_ensureRows]
    omega
  area_le := by
    rw [fits_iff, Nat.zero_max] at h
    rw [rowCount_ensureRows, columns_ensureRows, Nat.mul_comm, Nat.max_comm g.rowCount]
    exact h

theorem IsBounded.set (hg : g.IsBounded) {row column : Nat} (h : g.fits (row + 1) (column + 1) = true) (value : String) :
    (g.set row column value).IsBounded where
  isRectangular := isRectangular_set hg.isRectangular ..
  columns_eq := by
    rw [rowCount_set]
    omega
  area_le := by
    rw [fits_iff] at h
    rw [rowCount_set, columns_set, Nat.mul_comm, Nat.max_comm g.rowCount, Nat.max_comm g.columns]
    exact h

/-- **A grid that is within the largest area is so with a row and a column.** -/
theorem IsBounded.ensureNotEmpty (hg : g.IsBounded) :
    g.ensureNotEmpty.isRectangular = true ∧ 1 ≤ g.ensureNotEmpty.rowCount ∧ 1 ≤ g.ensureNotEmpty.columns ∧
      g.ensureNotEmpty.rowCount * g.ensureNotEmpty.columns ≤ maxArea := by
  have hrows : g.ensureNotEmpty.rowCount = max g.rowCount 1 := by
    rw [Grid.ensureNotEmpty, rowCount_ensureRows, rowCount_ensureColumns]
  have hcolumns : g.ensureNotEmpty.columns = max g.columns 1 := by
    rw [Grid.ensureNotEmpty, columns_ensureRows, columns_ensureColumns]
  refine ⟨isRectangular_ensureRows (isRectangular_ensureColumns hg.isRectangular 1) 1, by omega, by omega, ?_⟩
  rw [hrows, hcolumns, Nat.mul_comm]
  rcases Nat.eq_zero_or_pos g.rowCount with h | h
  · rw [h, hg.columns_eq h]
    decide
  · rw [Nat.max_eq_left h]
    exact hg.area_le

end Grid

namespace GridBuilder

variable {part : String} {shared : SharedStrings} {b : GridBuilder}

theorem isBounded_place (hb : b.grid.IsBounded) (c : OpenCell) : (b.place shared c).grid.IsBounded := by
  unfold place
  split
  · exact hb
  · split
    · exact hb.set ‹_› _
    · exact hb

theorem isBounded_tag (hb : b.grid.IsBounded) (tag : Tag) (opens : Bool) :
    (b.tag part shared tag opens).grid.IsBounded := by
  unfold GridBuilder.tag
  split
  · rw [startRow_eq]
    dsimp only
    split
    · exact hb.ensureRows ‹_›
    · exact hb
  · split
    · unfold startCell
      dsimp only
      split
      · exact hb
      · refine isBounded_place ?_ _
        exact hb
    · split
      · split
        · unfold startInside
          repeat' split
          all_goals exact hb
        · exact hb
      · exact hb

/-- **Every event** keeps the grid within the largest area. -/
theorem isBounded_step (hb : b.grid.IsBounded) (e : Event) (depth : Nat) :
    (step part shared b e depth).grid.IsBounded := by
  unfold step
  split
  · exact isBounded_tag hb _ _
  · exact isBounded_tag hb _ _
  · unfold GridBuilder.close
    dsimp only
    split
    · split
      · refine isBounded_place ?_ _
        exact hb
      · exact hb
    · repeat' split
      all_goals exact hb
  · split
    · unfold GridBuilder.data
      repeat' split
      all_goals exact hb
    · exact hb

theorem isBounded_run (hb : b.grid.IsBounded) (es : List (Event × Nat)) : (run part shared b es).grid.IsBounded := by
  induction es generalizing b with
  | nil => exact hb
  | cons p es ih => exact ih (isBounded_step hb p.1 p.2)

/-! ## What is read after a cell -/

/-- A builder without its warnings and the column after the last cell. -/
def bare (b : GridBuilder) : GridBuilder := { b with nextColumn := 0, warnings := [] }

theorem bare_grid (b : GridBuilder) : b.bare.grid = b.grid := rfl

/-- A tag that, being a cell, says where the cell is. -/
def HasPlace (tag : Tag) : Prop := tag.isLocal "c" = true → (tag.attribute? "r").isSome

instance (tag : Tag) : Decidable (HasPlace tag) := inferInstanceAs (Decidable (_ → _))

theorem bare_place (b : GridBuilder) (c : OpenCell) : (b.place shared c).bare = (b.bare.place shared c).bare := by
  have hfits (position : Position) : b.bare.grid.fits (position.row + 1) (position.column + 1) =
      b.grid.fits (position.row + 1) (position.column + 1) := rfl
  unfold place
  cases c.position with
  | none => rfl
  | some position =>
    dsimp only
    rw [hfits]
    split <;> rfl

theorem bare_place_congr {b b' : GridBuilder} (h : b.bare = b'.bare) (c : OpenCell) :
    (b.place shared c).bare = (b'.place shared c).bare := by
  rw [bare_place b, h, ← bare_place b']

theorem bare_startCell (b : GridBuilder) {tag : Tag} (h : (tag.attribute? "r").isSome) (opens : Bool) :
    (b.startCell part shared tag opens).bare = (b.bare.startCell part shared tag opens).bare := by
  obtain ⟨reference, hr⟩ := Option.isSome_iff_exists.1 h
  have hlocate : b.locate part tag = b.bare.locate part tag := by simp only [locate, hr]
  cases opens with
  | true =>
    simp only [startCell, hlocate]
    rfl
  | false =>
    simp only [startCell, hlocate, Bool.false_eq_true, if_false]
    refine bare_place_congr ?_ _
    rfl

theorem bare_tag (b : GridBuilder) {tag : Tag} (h : HasPlace tag) (opens : Bool) :
    (b.tag part shared tag opens).bare = (b.bare.tag part shared tag opens).bare := by
  have hcell : b.bare.cell = b.cell := rfl
  unfold GridBuilder.tag
  split
  · rfl
  · split
    · exact bare_startCell b (h ‹_›) opens
    · rw [hcell]
      split
      · split
        · unfold startInside
          repeat' split
          all_goals first | rfl | contradiction
        · rfl
      · rfl

theorem bare_close (b : GridBuilder) (name : String) :
    (b.close shared name).bare = (b.bare.close shared name).bare := by
  have hcell : b.bare.cell = b.cell := rfl
  have hvalue : b.bare.inValue = b.inValue := rfl
  unfold GridBuilder.close
  dsimp only
  rw [hcell, hvalue]
  split
  · split
    · refine bare_place_congr ?_ _
      rfl
    · rfl
  · repeat' split
    all_goals rfl

theorem bare_step (b : GridBuilder) {e : Event} (h : ∀ tag, e.tag? = some tag → HasPlace tag) (depth : Nat) :
    (step part shared b e depth).bare = (step part shared b.bare e depth).bare := by
  unfold step
  split
  · exact bare_tag b (h _ rfl) true
  · exact bare_tag b (h _ rfl) false
  · exact bare_close b _
  · split
    · have hcell : b.bare.cell = b.cell := rfl
      unfold GridBuilder.data
      rw [hcell]
      repeat' split
      all_goals first | rfl | contradiction
    · rfl

/-- **Builders that agree but for the warnings and the next column** go on to agree, if all cells say where they are. -/
theorem bare_run {b b' : GridBuilder} {es : List (Event × Nat)} (h : b.bare = b'.bare)
    (hplace : ∀ p ∈ es, ∀ tag, p.1.tag? = some tag → HasPlace tag) :
    (run part shared b es).bare = (run part shared b' es).bare := by
  induction es generalizing b b' with
  | nil => exact h
  | cons p es ih =>
    obtain ⟨hp, hplace⟩ := List.forall_mem_cons.1 hplace
    refine ih ?_ hplace
    rw [bare_step b hp, h, ← bare_step b' hp]

/-! ## A cell that does not fit -/

/-- A builder in a cell with the given position. -/
def InCell (b : GridBuilder) (position : Option Position) (s : GridBuilder) : Prop :=
  ∃ c inValue inText k, s = b.inside c inValue inText k ∧ c.position = position

variable {s : GridBuilder} {position : Option Position}

theorem InCell.tag (h : b.InCell position s) {tag : Tag} (hc : tag.isLocal "c" = false) (hr : tag.isLocal "row" = false)
    (opens : Bool) : b.InCell position (s.tag part shared tag opens) := by
  obtain ⟨c, inValue, inText, k, rfl, hp⟩ := h
  cases opens with
  | true =>
    rw [tag_inside hc hr]
    unfold startInside
    repeat' split
    all_goals exact ⟨c, _, _, _, rfl, hp⟩
  | false => exact ⟨c, inValue, inText, k, by simp [GridBuilder.tag, hc, hr, inside], hp⟩

theorem InCell.close (h : b.InCell position s) {name : String} (hn : Xml.localName name ≠ "c") :
    b.InCell position (s.close shared name) := by
  obtain ⟨c, inValue, inText, k, rfl, hp⟩ := h
  unfold GridBuilder.close
  rw [if_neg hn]
  split
  · exact ⟨_, _, _, _, rfl, hp⟩
  · repeat' split
    all_goals exact ⟨c, _, _, _, rfl, hp⟩

theorem InCell.leaf (h : b.InCell position s) (l : Leaf) (depth : Nat) :
    b.InCell position (step part shared s l.event depth) := by
  obtain ⟨c, inValue, inText, k, rfl, hp⟩ := h
  rw [GridBuilder.step_leaf]
  split
  · cases inValue <;> cases inText <;> exact ⟨_, _, _, _, rfl, hp⟩
  · exact ⟨c, _, _, _, rfl, hp⟩

/-- **What is read in a cell stays in the cell.** -/
theorem InCell.run (h : b.InCell position s) {f : Forest}
    (hf : ∀ tag ∈ f.tags, tag.isLocal "c" = false ∧ tag.isLocal "row" = false) (depth : Nat) :
    b.InCell position (GridBuilder.run part shared s (f.events depth)) := by
  induction f generalizing s depth with
  | nil => exact h
  | element tag children rest ihc ihr =>
    simp only [Forest.tags, List.mem_cons, List.mem_append] at hf
    obtain ⟨hc, hr⟩ := hf tag (.inl rfl)
    rw [run_element]
    refine ihr (InCell.close ?_ (by simpa [Tag.isLocal] using hc)) (fun t ht => hf t (.inr (.inr ht))) depth
    exact ihc (h.tag hc hr true) (fun t ht => hf t (.inr (.inl ht))) (depth + 1)
  | empty tag rest ihr =>
    simp only [Forest.tags, List.mem_cons] at hf
    obtain ⟨hc, hr⟩ := hf tag (.inl rfl)
    rw [run_empty]
    exact ihr (h.tag hc hr false) (fun t ht => hf t (.inr ht)) depth
  | leaf l rest ihr => exact ihr (h.leaf l depth) hf depth

/-- An element that, being a cell, holds no cells and rows. -/
def HoldsNone (tag : Tag) (content : Forest) : Prop :=
  tag.isLocal "c" = true → ∀ inner ∈ content.tags, inner.isLocal "c" = false ∧ inner.isLocal "row" = false

instance (tag : Tag) (content : Forest) : Decidable (HoldsNone tag content) := inferInstanceAs (Decidable (_ → _))

/-- All cells say where they are and hold no cells and rows. -/
structure IsFlat (f : Forest) : Prop where
  hasPlace : ∀ tag ∈ f.tags, HasPlace tag
  holdsNone : f.Every HoldsNone

/-- A forest that is one cell, with a start tag or self-closing. -/
def IsCell (tag : Tag) (cell : Forest) : Prop :=
  tag.isLocal "c" = true ∧ ((∃ content, cell = .element tag content .nil) ∨ cell = .empty tag .nil)

/-- A cell does not fit: its reference leads beyond the largest area of the grid. -/
def LeavesOut (b : GridBuilder) (tag : Tag) : Prop :=
  ∃ position, (tag.attribute? "r").bind Position.ofReference? = some position ∧
    b.grid.fits (position.row + 1) (position.column + 1) = false

/-- **A cell that does not fit leaves a warning and the column after it**, and nothing else. -/
theorem IsResting.bare_run_cell (hb : b.IsResting) {cell : Forest} {tag : Tag} (hcell : IsCell tag cell)
    (hnone : cell.Every HoldsNone) (hout : b.LeavesOut tag) (depth : Nat) :
    (GridBuilder.run part shared b (cell.events depth)).bare = b.bare := by
  obtain ⟨hc, hcell⟩ := hcell
  obtain ⟨position, hposition, hfits⟩ := hout
  obtain ⟨reference, hr, hp⟩ := Option.bind_eq_some_iff.1 hposition
  have hlocate : (b.locate part tag).1 = some position := by simp [locate, hr, hp]
  have hrow : tag.isLocal "row" = false := by
    simp only [Tag.isLocal, decide_eq_true_eq] at hc
    simp [Tag.isLocal, hc]
  have hplace (c : OpenCell) (h : c.position = some position) : ((b.past part tag).place shared c).bare = b.bare := by
    have hfits : (b.past part tag).grid.fits (position.row + 1) (position.column + 1) = false := hfits
    simp only [GridBuilder.place, h, hfits, Bool.false_eq_true, if_false]
    rfl
  rcases hcell with ⟨content, rfl⟩ | rfl
  · have hstart : b.tag part shared tag true = (b.past part tag).inside (b.opened part tag) false false 0 := by
      simp only [GridBuilder.tag, hrow, hc, Bool.false_eq_true, if_false, if_true]
      exact hb.startCell_eq part shared tag
    have hopened : (b.past part tag).InCell (some position) (b.tag part shared tag true) :=
      ⟨_, _, _, _, hstart, hlocate⟩
    have hread : (b.past part tag).InCell (some position)
        (GridBuilder.run part shared (b.tag part shared tag true) (content.events (depth + 1))) :=
      hopened.run (hnone.1 hc) (depth + 1)
    obtain ⟨c, inValue, inText, k, hrun, hc'⟩ := hread
    rw [run_element, hrun, (hb.past part tag).close_cell _ _ _ _ (by simpa [Tag.isLocal] using hc)]
    exact hplace c hc'
  · rw [run_empty]
    simp only [GridBuilder.tag, hrow, hc, Bool.false_eq_true, if_false, if_true]
    exact hplace _ hlocate

/-! ## A sheet without a cell that does not fit -/

/-- Events after which builders that agree but for the warnings and the next column agree. -/
theorem bare_run_events {b b' : GridBuilder} (h : b.bare = b'.bare) {f : Forest} (hf : ∀ tag ∈ f.tags, HasPlace tag)
    (depth : Nat) : (run part shared b (f.events depth)).bare = (run part shared b' (f.events depth)).bare :=
  bare_run h fun _ hp tag ht => hf tag (Forest.mem_tags_of_mem_events hp ht)

/-- **Taking out a cell that does not fit** leaves what is read as it is, but for the warnings and the next column. -/
theorem IsResting.bare_run_takesOut (hb : b.IsResting) {removed source source' : Xml.Source} {depth : Nat}
    {before : List (Event × Nat)} (h : removed.TakesOut depth before source source') {tag : Tag}
    (hcell : IsCell tag removed.forest) (hflat : IsFlat source.forest)
    (hout : (GridBuilder.run part shared b before).LeavesOut tag) :
    (GridBuilder.run part shared b (source'.forest.events depth)).bare =
      (GridBuilder.run part shared b (source.forest.events depth)).bare := by
  induction h generalizing b with
  | here depth rest =>
    have hnone := ((Xml.Source.every_append _ removed rest).1 hflat.holdsNone).1
    rw [Xml.Source.events_append, run_append]
    refine bare_run_events (hb.bare_run_cell hcell hnone hout depth).symm (fun t ht => ?_) depth
    exact hflat.hasPlace t (by simp [Xml.Source.tags_append, ht])
  | after first _ ih =>
    rw [run_append] at hout
    rw [Xml.Source.events_append, Xml.Source.events_append, run_append, run_append]
    refine ih (hb.run first.forest _) ⟨fun t ht => ?_, ?_⟩ hout
    · exact hflat.hasPlace t (by simp [Xml.Source.tags_append, ht])
    · exact ((Xml.Source.every_append _ first _).1 hflat.holdsNone).2
  | @inside depth before children children' opening outer closing rest hinside ih =>
    obtain ⟨hplace, houter, hchildren, -⟩ := hflat
    have hplaceC : ∀ t ∈ children.forest.tags, HasPlace t := fun t ht => hplace t (by simp [Xml.Source.forest, Forest.tags, ht])
    have hplaceR : ∀ t ∈ rest.forest.tags, HasPlace t := fun t ht => hplace t (by simp [Xml.Source.forest, Forest.tags, ht])
    -- the element around a cell is no cell, so that nothing is open where its children begin
    have hnotCell : outer.isLocal "c" = false := by
      cases ho : outer.isLocal "c" with
      | false => rfl
      | true =>
        have hmem : tag ∈ removed.forest.tags := by
          rcases hcell.2 with ⟨content, hcell⟩ | hcell <;> simp [hcell, Forest.tags]
        have hnone := (houter ho tag (hinside.mem_tags hmem)).1
        rw [hcell.1] at hnone
        cases hnone
    have hstart : (b.tag part shared outer true).IsResting := hb.tag hnotCell true
    rw [Xml.Source.forest, Xml.Source.forest, run_element, run_element]
    refine bare_run_events ?_ hplaceR depth
    rw [bare_close, ih hstart ⟨hplaceC, hchildren⟩ hout, ← bare_close]

end GridBuilder

/-- **A sheet stays within the largest area.**  The grid of a sheet is a rectangle with at least one row and one column
and within the largest area; so is the grid after every event, a grid without columns counting as one column wide.  Where
cells say where they are and hold no cells and rows, a cell that does not fit may as well not be there: the sheet without
it shows the same grid. -/
theorem area_bounded (part : String) (shared : SharedStrings) (text : String) :
    (∀ g, (Grid.ofText part shared text).outcome = .ok g →
      g.isRectangular = true ∧ 1 ≤ g.rowCount ∧ 1 ≤ g.columns ∧ g.rowCount * g.columns ≤ maxArea) ∧
    (∀ es r, Reader.Reads (.ofText text) es r →
      max (GridBuilder.run part shared {} es).grid.columns 1 * (GridBuilder.run part shared {} es).grid.rowCount ≤
        maxArea) ∧
    ∀ (source removed source' : Xml.Source) before tag text', WrittenAs text source → IsWellFormed text →
      removed.TakesOut 0 before source source' → GridBuilder.IsCell tag removed.forest →
      (∀ root ∈ source.forest.rootTags, root.isLocal "c" = false) → GridBuilder.IsFlat source.forest →
      (GridBuilder.run part shared {} before).LeavesOut tag → WrittenAs text' source' →
        IsWellFormed text' ∧ (Grid.ofText part shared text').outcome = (Grid.ofText part shared text).outcome := by
  have bounded (es : List (Event × Nat)) : (GridBuilder.run part shared {} es).grid.IsBounded :=
    GridBuilder.isBounded_run Grid.isBounded_empty es
  refine ⟨fun g hg => ?_, fun es r _ => (bounded es).area_le, ?_⟩
  · have hread : (Xml.readPart (GridBuilder.step part shared) {} text).1 =
        GridBuilder.run part shared {} (Reader.ofText text).trace := Reader.fold_value _ _ _
    unfold Grid.ofText at hg
    rw [Xml.readAll_eq, Xml.parsePart, hread] at hg
    cases hv : (Xml.readPart (GridBuilder.step part shared) {} text).2 with
    | error fault =>
      rw [hv] at hg
      cases hg
    | ok u =>
      rw [hv] at hg
      cases hg
      exact (bounded _).ensureNotEmpty
  · intro source removed source' before tag text' written accepted taken hcell hroot hflat hout written'
    have hinside : tag ∈ removed.forest.rootTags ∧ tag ∉ source.forest.rootTags := by
      refine ⟨?_, fun h => ?_⟩
      · rcases hcell.2 with ⟨content, h⟩ | h <;> simp [h, Forest.rootTags]
      · have := hcell.1
        rw [hroot tag h] at this
        cases this
    have document := taken.isDocument (written.isWellFormed_iff.1 accepted) ⟨tag, hinside⟩
    have accepted' : IsWellFormed text' := written'.isWellFormed_iff.2 document
    have hbare : (GridBuilder.run part shared {} (source'.forest.events 0)).bare =
        (GridBuilder.run part shared {} (source.forest.events 0)).bare :=
      GridBuilder.isResting_empty.bare_run_takesOut taken hcell hflat hout
    have hgrid : (GridBuilder.run part shared {} (source'.forest.events 0)).grid =
        (GridBuilder.run part shared {} (source.forest.events 0)).grid := by
      rw [← GridBuilder.bare_grid, hbare, GridBuilder.bare_grid]
    refine ⟨accepted', ?_⟩
    rw [Grid.ofText_of_writtenAs part shared written' accepted', Grid.ofText_of_writtenAs part shared written accepted,
      hgrid]

/-- A sheet with a cell in the last row and the last column between two cells in the first row. -/
def farText : String := "<s><c r='A1'><v>1</v></c><c r='XFD1048576'><v>2</v></c><c r='B1'/></s>"

def nearText : String := "<s><c r='A1'><v>1</v></c><c r='B1'/></s>"

def valueSource (opening reference value : String) : Xml.Source :=
  .element opening.toList ⟨"c", [⟨"r", reference⟩]⟩
    (.element "<v>".toList ⟨"v", []⟩ (.leaf value.toList (.text value) .nil) "</v>".toList .nil) "</c>".toList .nil

def firstCell : Xml.Source := valueSource "<c r='A1'>" "A1" "1"

def farCell : Xml.Source := valueSource "<c r='XFD1048576'>" "XFD1048576" "2"

def lastCell : Xml.Source := .empty "<c r='B1'/>".toList ⟨"c", [⟨"r", "B1"⟩]⟩ .nil

def sheetSource (cells : Xml.Source) : Xml.Source := .element "<s>".toList ⟨"s", []⟩ cells "</s>".toList .nil

theorem area_bounded_farText : IsWellFormed nearText ∧
    (Grid.ofText "sheet" {} nearText).outcome = (Grid.ofText "sheet" {} farText).outcome ∧
      (Grid.ofText "sheet" {} farText).warnings = [.beyondArea ⟨1048575, 16383⟩] := by
  obtain ⟨-, -, takes⟩ := area_bounded "sheet" {} farText
  have written : WrittenAs farText (sheetSource (firstCell.append (farCell.append lastCell))) :=
    ⟨by decide +kernel, by decide +kernel⟩
  have written' : WrittenAs nearText (sheetSource (firstCell.append lastCell)) :=
    ⟨by decide +kernel, by decide +kernel⟩
  have taken : farCell.TakesOut 0 _ (sheetSource (firstCell.append (farCell.append lastCell)))
      (sheetSource (firstCell.append lastCell)) := .inside _ _ _ _ (.after firstCell (.here 1 lastCell))
  have hflat : GridBuilder.IsFlat (sheetSource (firstCell.append (farCell.append lastCell))).forest :=
    ⟨by decide +kernel, by decide +kernel⟩
  obtain ⟨accepted, same⟩ := takes _ _ _ _ ⟨"c", [⟨"r", "XFD1048576"⟩]⟩ nearText written (by decide +kernel) taken
    ⟨by decide, .inl ⟨_, rfl⟩⟩ (by decide +kernel) hflat ⟨⟨1048575, 16383⟩, by decide +kernel, by decide +kernel⟩ written'
  exact ⟨accepted, same, by decide +kernel⟩

end OfficePreview.Sheet
