import OfficePreview.Proofs.Sheet.Contents
import OfficePreview.Proofs.Sheet.Grid
import OfficePreview.Proofs.Xml.Described
/-!
# Sheets — what is read from a sheet is what its tree marks

Between cells nothing is open (`IsResting`), and a builder at rest goes from one row or cell to the next (`settle`,
`IsResting.run_events`).  It follows the marks of the rows and cells that it has passed (`Follows`): it knows the last row
and the next column, and its grid shows the marks.  The area of the grid so far is at most that of the whole grid, so that
no cell of a sheet that fits is left out (`follows_settle`, `Grid.exists_outcome_of_describes`).
-/
namespace OfficePreview.Sheet

open Xml (Event Tag Forest Leaf Describes IsWellFormed)

theorem landmarks_of_tags {f : Forest} (h : ∀ tag ∈ f.tags, tag.isLocal "c" = false ∧ tag.isLocal "row" = false) :
    landmarks f = [] := by
  induction f with
  | nil => rfl
  | element tag children rest ihc ihr =>
    simp only [Forest.tags, List.mem_cons, List.mem_append] at h
    have hc := ihc (fun t ht => h t (.inr (.inl ht)))
    have hr := ihr (fun t ht => h t (.inr (.inr ht)))
    simp [landmarks, landmarkOf, h tag (.inl rfl), hc, hr]
  | empty tag rest ihr =>
    simp only [Forest.tags, List.mem_cons] at h
    have hr := ihr (fun t ht => h t (.inr ht))
    simp [landmarks, landmarkOf, h tag (.inl rfl), hr]
  | leaf l rest ihr => exact ihr h

namespace GridBuilder

variable {part : String} {shared : SharedStrings}

/-! ## From one row or cell to the next -/

/-- Nothing is open. -/
structure IsResting (b : GridBuilder) : Prop where
  cell : b.cell = none
  inValue : b.inValue = false
  inText : b.inText = false
  phonetic : b.phonetic = 0

def opened (b : GridBuilder) (part : String) (tag : Tag) : OpenCell where
  position := (b.locate part tag).1
  source := .ofType (tag.attribute? "t")

def past (b : GridBuilder) (part : String) (tag : Tag) : GridBuilder :=
  { b with
    nextColumn := match (b.locate part tag).1 with
      | some position => position.column + 1
      | none => b.nextColumn
    warnings := (b.locate part tag).2 ++ b.warnings }

def settle (part : String) (shared : SharedStrings) (b : GridBuilder) : Landmark → GridBuilder
  | .row tag => b.startRow tag
  | .cell tag content => (b.past part tag).place shared (addContent (b.opened part tag) content 0)

theorem settle_row (part : String) (shared : SharedStrings) (b : GridBuilder) (tag : Tag) :
    b.settle part shared (.row tag) = b.startRow tag := rfl

variable {b : GridBuilder}

theorem IsResting.past (hb : b.IsResting) (part : String) (tag : Tag) : (b.past part tag).IsResting :=
  ⟨hb.cell, hb.inValue, hb.inText, hb.phonetic⟩

theorem IsResting.place (hb : b.IsResting) (shared : SharedStrings) (c : OpenCell) : (b.place shared c).IsResting := by
  obtain ⟨hc, hv, ht, hp⟩ := hb
  unfold GridBuilder.place
  split
  · exact ⟨hc, hv, ht, hp⟩
  · split <;> exact ⟨hc, hv, ht, hp⟩

theorem IsResting.settle (hb : b.IsResting) (part : String) (shared : SharedStrings) (l : Landmark) :
    (b.settle part shared l).IsResting := by
  cases l with
  | row tag => exact ⟨hb.cell, hb.inValue, hb.inText, hb.phonetic⟩
  | cell tag content => exact (hb.past part tag).place shared _

theorem IsResting.foldl_settle (hb : b.IsResting) (part : String) (shared : SharedStrings) (ls : List Landmark) :
    (ls.foldl (GridBuilder.settle part shared) b).IsResting := by
  induction ls generalizing b with
  | nil => exact hb
  | cons l ls ih => exact ih (hb.settle part shared l)

theorem IsResting.close (hb : b.IsResting) {name : String} (hc : Xml.localName name ≠ "c") :
    b.close shared name = b := by
  obtain ⟨hcell, hv, ht, hp⟩ := hb
  unfold GridBuilder.close
  cases b
  simp_all

theorem IsResting.startCell_eq (hb : b.IsResting) (part : String) (shared : SharedStrings) (tag : Tag) :
    b.startCell part shared tag true = (b.past part tag).inside (b.opened part tag) false false 0 := by
  obtain ⟨hcell, hv, ht, hp⟩ := hb
  cases b
  simp_all only [startCell, inside, GridBuilder.past, opened]
  rfl

theorem IsResting.close_cell (hb : b.IsResting) (c : OpenCell) (inValue inText : Bool) (k : Nat) {name : String}
    (hn : Xml.localName name = "c") : (b.inside c inValue inText k).close shared name = b.place shared c := by
  obtain ⟨hcell, hv, ht, hp⟩ := hb
  cases b
  simp_all [GridBuilder.close, inside]

theorem IsResting.step_leaf (hb : b.IsResting) (l : Leaf) (depth : Nat) : step part shared b l.event depth = b := by
  rw [GridBuilder.step_leaf]
  cases l.event.data? with
  | none => rfl
  | some text => simp [data, hb.cell]

theorem IsResting.close_content (hb : b.IsResting) {tag : Tag} (hc : tag.isLocal "c" = true) {content : Forest}
    (hinner : ∀ inner ∈ content.tags, inner.isLocal "c" = false ∧ inner.isLocal "row" = false)
    (hplain : content.Every IsPlain) (depth : Nat) :
    (run part shared (b.startCell part shared tag true) (content.events depth)).close shared tag.name =
      b.settle part shared (.cell tag content) := by
  rw [hb.startCell_eq, run_content content hinner hplain,
    (hb.past part tag).close_cell _ _ _ _ (by simpa [Tag.isLocal] using hc)]
  rfl

/-- **A builder at rest goes from one row or cell to the next.** -/
theorem IsResting.run_events (hb : b.IsResting) {f : Forest} (hplain : f.Every IsPlain) (depth : Nat) :
    run part shared b (f.events depth) = (landmarks f).foldl (GridBuilder.settle part shared) b := by
  induction f generalizing b depth with
  | nil => rfl
  | element tag children rest ihc ihr =>
    obtain ⟨⟨hcell, -⟩, hplainC, hplainR⟩ := hplain
    rw [run_element, landmarks, List.foldl_append, List.foldl_append]
    cases hr : tag.isLocal "row" with
    | true =>
      have hname : Xml.localName tag.name ≠ "c" := by
        simp only [Tag.isLocal, decide_eq_true_eq] at hr
        simp [hr]
      have hs := hb.settle part shared (.row tag)
      rw [GridBuilder.tag, if_pos hr, landmarkOf, if_pos hr, ← settle_row part shared, ihc hs hplainC,
        (hs.foldl_settle part shared _).close hname, ihr (hs.foldl_settle part shared _) hplainR]
      rfl
    | false =>
      cases hc : tag.isLocal "c" with
      | true =>
        have hs := hb.settle part shared (.cell tag children)
        simp only [GridBuilder.tag, landmarkOf, hr, hc, if_true, Bool.false_eq_true, if_false,
          landmarks_of_tags (hcell hc), List.foldl_nil]
        rw [hb.close_content hc (hcell hc) hplainC, ihr hs hplainR]
        rfl
      | false =>
        have hname : Xml.localName tag.name ≠ "c" := by simpa [Tag.isLocal] using hc
        simp only [GridBuilder.tag, landmarkOf, hr, hc, Bool.false_eq_true, if_false, hb.cell, List.foldl_nil]
        rw [ihc hb hplainC, (hb.foldl_settle part shared _).close hname, ihr (hb.foldl_settle part shared _) hplainR]
  | empty tag rest ihr =>
    rw [run_empty, landmarks, List.foldl_append]
    cases hr : tag.isLocal "row" with
    | true =>
      rw [GridBuilder.tag, if_pos hr, landmarkOf, if_pos hr, ← settle_row part shared, ihr (hb.settle part shared _) hplain]
      rfl
    | false =>
      cases hc : tag.isLocal "c" with
      | true =>
        have hs : b.startCell part shared tag false = b.settle part shared (.cell tag .nil) := by
          simp only [startCell, GridBuilder.settle, addContent, valueOf?, inPlaceOf, Option.or_none, if_true,
            String.append_empty]
          rfl
        simp only [GridBuilder.tag, landmarkOf, hr, hc, if_true, Bool.false_eq_true, if_false, hs]
        rw [ihr (hb.settle part shared _) hplain]
        rfl
      | false =>
        simp only [GridBuilder.tag, landmarkOf, hr, hc, Bool.false_eq_true, if_false, hb.cell, List.foldl_nil]
        exact ihr hb hplain depth
  | leaf l rest ihr =>
    rw [Forest.events, run_cons, hb.step_leaf, ihr hb hplain]
    rfl

end GridBuilder

/-! ## Grids that show marks -/

/-- A grid shows marks: it reaches as far as they need, and its texts are those marked last. -/
structure Grid.Shows (g : Grid) (marks : List Mark) : Prop where
  isRectangular : g.isRectangular = true
  rowCount_eq : g.rowCount = height marks
  columns_eq : g.columns = width marks
  textAt_eq : ∀ i j, g.textAt i j = lastText marks i j

/-- The grid that marks need is within the largest area. -/
def WithinArea (marks : List Mark) : Prop := max 1 (height marks) * max 1 (width marks) ≤ maxArea

instance (marks : List Mark) : Decidable (WithinArea marks) := inferInstanceAs (Decidable (_ ≤ _))

theorem WithinArea.of_append {ms ns : List Mark} (h : WithinArea (ms ++ ns)) : WithinArea ms := by
  rw [WithinArea, height_append, width_append] at h
  exact Nat.le_trans (Nat.mul_le_mul (by omega) (by omega)) h

namespace Grid.Shows

variable {g : Grid} {marks : List Mark}

theorem empty : Grid.Shows {} [] := ⟨isRectangular_empty, rfl, rfl, fun i j => by simp [textAt, get?, lastText]⟩

/-- **A grid that fits with one more mark takes it in.** -/
theorem fits (hg : g.Shows marks) {m : Mark} (h : WithinArea (marks ++ [m])) : g.fits m.rows m.columns = true := by
  have hrows : g.rows.size = height marks := hg.rowCount_eq
  -- Every mark needs a row; a grid without columns counts as one column wide, as the bound has it.
  have hm : max m.rows (height marks) * max (max m.columns (width marks)) 1 =
      max 1 (height (marks ++ [m])) * max 1 (width (marks ++ [m])) := by
    have hpos : 1 ≤ m.rows := by cases m <;> exact Nat.le_add_left 1 _
    have hh : height [m] = m.rows := by simp [height]
    have hw : width [m] = m.columns := by simp [width]
    rw [height_append, width_append, hh, hw]
    congr 1 <;> omega
  rw [Grid.fits, hrows, hg.columns_eq, hm]
  exact decide_eq_true h

theorem ensureRows (hg : g.Shows marks) (index : Nat) :
    (g.ensureRows (index + 1)).Shows (marks ++ [.row index]) where
  isRectangular := isRectangular_ensureRows hg.isRectangular _
  rowCount_eq := by rw [rowCount_ensureRows, hg.rowCount_eq, height_append]; simp [height, Mark.rows]
  columns_eq := by rw [columns_ensureRows, hg.columns_eq, width_append]; simp [width, Mark.columns]
  textAt_eq i j := by rw [textAt_ensureRows, hg.textAt_eq, lastText_append_one]; rfl

theorem set (hg : g.Shows marks) (position : Position) (text : String) :
    (g.set position.row position.column text).Shows (marks ++ [.cell position text]) where
  isRectangular := isRectangular_set hg.isRectangular ..
  rowCount_eq := by rw [rowCount_set, hg.rowCount_eq, height_append]; simp [height, Mark.rows]
  columns_eq := by rw [columns_set, hg.columns_eq, width_append]; simp [width, Mark.columns]
  textAt_eq i j := by
    rw [textAt_set hg.isRectangular, hg.textAt_eq, lastText_append_one, Mark.textAt?]
    split <;> rfl

theorem ensureNotEmpty (hg : g.Shows marks) :
    g.ensureNotEmpty.isRectangular = true ∧ g.ensureNotEmpty.rowCount = max 1 (height marks) ∧
      g.ensureNotEmpty.columns = max 1 (width marks) ∧
        ∀ i j, g.ensureNotEmpty.textAt i j = lastText marks i j := by
  unfold Grid.ensureNotEmpty
  refine ⟨isRectangular_ensureRows (isRectangular_ensureColumns hg.isRectangular 1) 1, ?_, ?_, fun i j => ?_⟩
  · rw [rowCount_ensureRows, rowCount_ensureColumns, hg.rowCount_eq, Nat.max_comm]
  · rw [columns_ensureRows, columns_ensureColumns, hg.columns_eq, Nat.max_comm]
  · rw [textAt_ensureRows, textAt_ensureColumns, hg.textAt_eq]

end Grid.Shows

/-! ## A builder follows the marks -/

namespace GridBuilder

variable {part : String} {shared : SharedStrings} {b : GridBuilder} {earlier : List Landmark} {marks : List Mark}

/-- A builder has passed the landmarks `earlier`, the last one first, and its grid shows the marks of all of them. -/
structure Follows (b : GridBuilder) (earlier : List Landmark) (marks : List Mark) : Prop where
  row_eq : b.row = lastRow? earlier
  nextColumn_eq : b.nextColumn = columnAfter earlier
  shows : b.grid.Shows marks
  complete : ∀ position, .beyondArea position ∉ b.warnings

theorem Follows.empty : Follows {} [] [] := ⟨rfl, rfl, .empty, fun _ => List.not_mem_nil⟩

theorem startRow_eq (b : GridBuilder) (tag : Tag) : b.startRow tag =
    { b with
      grid := if b.grid.fits (rowIndex tag b.row + 1) 0 then b.grid.ensureRows (rowIndex tag b.row + 1) else b.grid
      row := some (rowIndex tag b.row)
      nextColumn := 0 } := rfl

theorem locate_fst (b : GridBuilder) (part : String) (tag : Tag) :
    (b.locate part tag).1 = position? tag (b.row.getD 0) b.nextColumn := by
  rw [locate, position?]
  cases tag.attribute? "r" with
  | none => rfl
  | some reference =>
    dsimp only
    cases Position.ofReference? reference <;> rfl

theorem Follows.locate_eq (hb : b.Follows earlier marks) (part : String) (tag : Tag) :
    (b.locate part tag).1 = position? tag ((lastRow? earlier).getD 0) (columnAfter earlier) := by
  rw [locate_fst, hb.row_eq, hb.nextColumn_eq]

theorem beyondArea_notMem_locate (b : GridBuilder) (part : String) (tag : Tag) (position : Position) :
    .beyondArea position ∉ (b.locate part tag).2 := by
  unfold locate
  split
  · exact List.not_mem_nil
  · split <;> simp

theorem display_addContent (shared : SharedStrings) (position : Option Position) (tag : Tag) (content : Forest) :
    ∃ warnings, (addContent { position, source := .ofType (tag.attribute? "t") } content 0).display shared =
      (cellText shared tag content, warnings) ∧ ∀ position, .beyondArea position ∉ warnings := by
  unfold OpenCell.display addContent cellText
  cases Source.ofType (tag.attribute? "t") with
  | inPlace => exact ⟨[], by simp, fun _ => List.not_mem_nil⟩
  | value => exact ⟨[], by simp, fun _ => List.not_mem_nil⟩
  | shared =>
    dsimp only
    rw [Option.none_or]
    cases (sharedIndex? ((valueOf? content).getD "")).bind shared.get? with
    | some text => exact ⟨[], rfl, fun _ => List.not_mem_nil⟩
    | none => exact ⟨_, rfl, by simp⟩

/-- **A row or a cell that fits leaves its mark.** -/
theorem follows_settle (hb : b.Follows earlier marks) {l : Landmark}
    (h : WithinArea (marks ++ markOf shared earlier l)) :
    (b.settle part shared l).Follows (l :: earlier) (marks ++ markOf shared earlier l) := by
  cases l with
  | row tag =>
    rw [markOf, ← hb.row_eq] at h ⊢
    have hfits : b.grid.fits (rowIndex tag b.row + 1) 0 = true := hb.shows.fits h
    rw [settle, startRow_eq, if_pos hfits]
    refine ⟨?_, rfl, hb.shows.ensureRows _, hb.complete⟩
    rw [lastRow?, hb.row_eq]
  | cell tag content =>
    have hlocate := hb.locate_eq part tag
    have hcomplete (position : Position) : .beyondArea position ∉ (b.past part tag).warnings := by
      simp [past, beyondArea_notMem_locate, hb.complete]
    rw [settle, opened, hlocate]
    rw [markOf] at h ⊢
    cases hp : position? tag ((lastRow? earlier).getD 0) (columnAfter earlier) with
    | none =>
      rw [hp] at hlocate
      rw [List.append_nil]
      refine ⟨hb.row_eq, ?_, hb.shows, hcomplete⟩
      simp [columnAfter, hp, place, addContent, past, hlocate, hb.nextColumn_eq]
    | some position =>
      rw [hp] at h hlocate
      obtain ⟨warnings, hdisplay, hnone⟩ := display_addContent shared (some position) tag content
      have hfits : (b.past part tag).grid.fits (position.row + 1) (position.column + 1) = true := hb.shows.fits h
      rw [place, hdisplay]
      simp only [addContent, hfits, if_true]
      refine ⟨hb.row_eq, ?_, hb.shows.set position _, fun other => ?_⟩
      · simp [columnAfter, hp, past, hlocate]
      · simp [hnone, hcomplete]

/-- **Rows and cells that fit together leave their marks.** -/
theorem follows_foldl_settle (part : String) (later : List Landmark) (hb : b.Follows earlier marks)
    (h : WithinArea (marks ++ marksAfter shared earlier later)) :
    (later.foldl (settle part shared) b).Follows (later.reverse ++ earlier)
      (marks ++ marksAfter shared earlier later) := by
  induction later generalizing b earlier marks with
  | nil => simpa [marksAfter] using hb
  | cons l later ih =>
    rw [marksAfter, ← List.append_assoc] at h ⊢
    rw [List.reverse_cons, List.append_assoc]
    exact ih (follows_settle hb h.of_append) h

end GridBuilder

/-- **The grid of a sheet whose marks are within the largest area** is the one that the marks need, and no cell is left out
for want of area. -/
theorem Grid.exists_outcome_of_describes (part : String) {shared : SharedStrings} {text : String} {forest : Forest}
    (described : Describes text forest) (hplain : forest.Every IsPlain) (hfits : WithinArea (marksOf shared forest)) :
    (∃ g, (Grid.ofText part shared text).outcome = .ok g ∧ g.isRectangular = true ∧
      g.rowCount = max 1 (height (marksOf shared forest)) ∧ g.columns = max 1 (width (marksOf shared forest)) ∧
        ∀ i j, g.textAt i j = lastText (marksOf shared forest) i j) ∧
      ∀ position, .beyondArea position ∉ (Grid.ofText part shared text).warnings := by
  have hresting : ({} : GridBuilder).IsResting := ⟨rfl, rfl, rfl, rfl⟩
  have hrun : GridBuilder.run part shared {} (forest.events 0) =
      (landmarks forest).foldl (GridBuilder.settle part shared) {} := hresting.run_events hplain 0
  have hfollows := GridBuilder.follows_foldl_settle part (landmarks forest) .empty hfits
  rw [← hrun] at hfollows
  rw [Grid.ofText, described.readAll]
  exact ⟨⟨_, rfl, hfollows.shows.ensureNotEmpty⟩, fun position h => hfollows.complete position (List.mem_reverse.1 h)⟩

/-- **A sheet whose grid fits is read as its tree says.**  The part describes exactly one forest; if its elements are
plain and its marks are within the largest area, the grid has the rows and the columns that the marks need and at least
one of each, every place shows the text that was marked there last, and no cell is left out for want of area. -/
theorem ofText_eq_marks (part : String) (shared : SharedStrings) (text : String) (accepted : IsWellFormed text) :
    (∃ forest, Describes text forest ∧ ∀ other, Describes text other → other = forest) ∧
      ∀ forest, Describes text forest → forest.Every IsPlain → WithinArea (marksOf shared forest) →
        (∃ g, (Grid.ofText part shared text).outcome = .ok g ∧ g.isRectangular = true ∧
          g.rowCount = max 1 (height (marksOf shared forest)) ∧ g.columns = max 1 (width (marksOf shared forest)) ∧
            ∀ i < g.rowCount, ∀ j < g.columns, g.get? i j = some (lastText (marksOf shared forest) i j)) ∧
          ∀ position, .beyondArea position ∉ (Grid.ofText part shared text).warnings := by
  refine ⟨Xml.exists_unique_describes accepted, fun forest described hplain hfits => ?_⟩
  obtain ⟨⟨g, hg, hrect, hrows, hcolumns, htexts⟩, complete⟩ :=
    Grid.exists_outcome_of_describes part described hplain hfits
  refine ⟨⟨g, hg, hrect, hrows, hcolumns, fun i hi j hj => ?_⟩, complete⟩
  exact (Grid.get?_of_lt hrect hi hj).trans (congrArg some (htexts i j))

/-- A row with a number; a cell without a reference, one with a reference to another row and one after it. -/
def strayText : String :=
  "<s><row r='2'><c><v>1</v></c><c r='D1' t='inlineStr'><t>a</t><rPh><t>b</t></rPh></c><c t='s'><v>0</v></c></row></s>"

def strayForest : Forest :=
  let cell (attributes : List Xml.Attribute) (content : Forest) := Forest.element ⟨"c", attributes⟩ content
  let value (data : String) := Forest.element ⟨"v", []⟩ (.leaf (.text data) .nil) .nil
  let written (data : String) := Forest.element ⟨"t", []⟩ (.leaf (.text data) .nil)
  .element ⟨"s", []⟩ (.element ⟨"row", [⟨"r", "2"⟩]⟩
    (cell [] (value "1")
      (cell [⟨"r", "D1"⟩, ⟨"t", "inlineStr"⟩] (written "a" (.element ⟨"rPh", []⟩ (written "b" .nil) .nil))
        (cell [⟨"t", "s"⟩] (value "0") .nil))) .nil) .nil

theorem describes_strayText : Describes strayText strayForest := ⟨by decide +kernel, by decide +kernel⟩

theorem marks_strayForest : marksOf ⟨#["x"]⟩ strayForest =
    [.row 1, .cell ⟨1, 0⟩ "1", .cell ⟨0, 3⟩ "a", .cell ⟨1, 4⟩ "x"] := by decide +kernel

theorem ofText_eq_marks_strayText : ∃ g, (Grid.ofText "sheet" ⟨#["x"]⟩ strayText).outcome = .ok g ∧ g.rowCount = 2 ∧
    g.columns = 5 ∧ g.get? 1 0 = some "1" ∧ g.get? 0 3 = some "a" ∧ g.get? 1 4 = some "x" ∧ g.get? 0 0 = some "" := by
  have hplain : strayForest.Every IsPlain := by decide +kernel
  have hfits : WithinArea (marksOf ⟨#["x"]⟩ strayForest) := by rw [marks_strayForest]; decide
  obtain ⟨-, reads⟩ := ofText_eq_marks "sheet" ⟨#["x"]⟩ strayText describes_strayText.isWellFormed
  obtain ⟨⟨g, hg, -, hrows, hcolumns, htexts⟩, -⟩ := reads strayForest describes_strayText hplain hfits
  rw [marks_strayForest] at hrows hcolumns htexts
  have hrows : g.rowCount = 2 := hrows
  have hcolumns : g.columns = 5 := hcolumns
  rw [hrows, hcolumns] at htexts
  exact ⟨g, hg, hrows, hcolumns, htexts 1 (by decide) 0 (by decide), htexts 0 (by decide) 3 (by decide),
    htexts 1 (by decide) 4 (by decide), htexts 0 (by decide) 0 (by decide)⟩

end OfficePreview.Sheet
