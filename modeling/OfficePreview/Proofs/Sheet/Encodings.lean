import Mathlib.Data.List.Perm.Basic
import OfficePreview.Proofs.Sheet.Sheets
import OfficePreview.Proofs.Sheet.Written
import OfficePreview.Proofs.Text.Blank
/-!
# Encodings — three ways to write the text of a cell

A cell shows the text that it was written for, in whatever encoding (`cellText_content`), at the position that its
reference was written for (`position?_tag`).  So the marks of a written sheet are its cells (`marksOf_sheetTree`), and the
grid that is read is the bounding box of the cells with the texts in their places, in whatever order and encoding they are
written (`encodings_agree`).
-/
namespace OfficePreview.Sheet

open Xml (Tag Forest Describes)

/-! ## A cell that is read -/

/-- The number of a shared text is read back. -/
theorem sharedIndex?_toString (index : UInt64) : sharedIndex? (toString index.toNat) = some index.toNat := by
  have visible : ∀ c ∈ Nat.toDigits 10 index.toNat, Text.isBlank c = false := fun c hc =>
    Text.isBlank_of_isDigit (Nat.isDigit_of_mem_toDigits (by decide) (by decide) hc)
  have htrim : Text.trim Text.isBlank (Nat.toDigits 10 index.toNat) = Nat.toDigits 10 index.toNat :=
    Text.trim_eq_self (fun c hc => visible c (List.mem_of_mem_head? hc)) fun c hc => visible c (List.mem_of_getLast? hc)
  have hlength : (Nat.toDigits 10 index.toNat).length ≤ 20 := by
    have hlt := index.toNat_lt
    exact (Nat.length_toDigits_le_iff (by decide) (by decide)).2 (by omega)
  have htoList : (toString index.toNat).toList = Nat.toDigits 10 index.toNat := by simp
  rw [sharedIndex?, htoList, htrim]
  exact (if_pos hlength).trans (Text.number?_toDigits (by decide) (by decide) _)

theorem valueOf?_textTree (text : String) : valueOf? (textTree "v" text .nil) = some text := by
  have hv : (plainTag "v").isLocal "v" = true := by decide
  simp [textTree, valueOf?, hv, Forest.data_withText, Forest.data]

/-- **A cell shows its text**, in whatever encoding. -/
theorem cellText_content {strings : List String} {c : Encoded} (h : c.IsGiven strings) :
    cellText ⟨strings.toArray⟩ c.tag c.content = c.text := by
  unfold cellText Encoded.content
  cases he : c.encoding with
  | value =>
    have htype : Source.ofType (c.tag.attribute? "t") = .value := by simp [Encoded.tag, he, Tag.attribute?, Source.ofType]
    rw [htype]
    exact congrArg (·.getD "") (valueOf?_textTree c.text)
  | inPlace =>
    have htype : Source.ofType (c.tag.attribute? "t") = .inPlace := by
      have hvalue : (Xml.Attribute.mk "t" "inlineStr").value = "inlineStr" := by decide
      simp [Encoded.tag, he, Tag.attribute?, Source.ofType, hvalue]
    have his : (plainTag "is").isLocal "rPh" = false ∧ (plainTag "is").isLocal "t" = false := by decide
    have ht : (plainTag "t").isLocal "rPh" = false ∧ (plainTag "t").isLocal "t" = true := by decide
    rw [htype]
    simp [textTree, inPlaceOf, his, ht, Forest.data_withText, Forest.data]
  | shared index =>
    have htype : Source.ofType (c.tag.attribute? "t") = .shared := by
      have hvalue : (Xml.Attribute.mk "t" "s").value = "s" := by decide
      simp [Encoded.tag, he, Tag.attribute?, Source.ofType, hvalue]
    have hstring : strings[index.toNat]? = some c.text := by simpa [Encoded.IsGiven, he] using h
    rw [htype]
    dsimp only
    rw [valueOf?_textTree, Option.getD_some, sharedIndex?_toString]
    simp [SharedStrings.get?, hstring]

theorem position?_tag {c : Encoded} (hrow : c.position.row < maxRows) (hcolumn : c.position.column < maxColumns)
    (row column : Nat) : position? c.tag row column = some c.position := by
  have hvalue : (Xml.Attribute.mk "r" c.position.reference).value = c.position.reference := by
    have h := Xml.value_escape "r" c.position.reference
    rwa [escape_reference] at h
  have hattribute : c.tag.attribute? "r" = some c.position.reference := by
    simp [Encoded.tag, Tag.attribute?, hvalue]
  rw [position?, hattribute]
  exact Position.ofReference?_reference hrow hcolumn

theorem tags_content (c : Encoded) : ∀ inner ∈ c.content.tags, inner.isLocal "c" = false ∧ inner.isLocal "row" = false := by
  intro inner hinner
  unfold Encoded.content at hinner
  split at hinner
  · obtain rfl : inner = plainTag "v" := by simpa [tags_textTree, Forest.tags] using hinner
    decide
  · obtain rfl | rfl : inner = plainTag "is" ∨ inner = plainTag "t" := by
      simpa [tags_textTree, Forest.tags] using hinner
    · decide
    · decide
  · obtain rfl : inner = plainTag "v" := by simpa [tags_textTree, Forest.tags] using hinner
    decide

theorem isPlain_sheetTree (rows : List (List Encoded)) : (sheetTree rows .nil).Every IsPlain := by
  have outside {tag : Tag} (hc : tag.isLocal "c" = false) (hv : tag.isLocal "v" = false) (ht : tag.isLocal "t" = false)
      (f : Forest) : IsPlain tag f := by
    simp [IsPlain, hc, hv, ht]
  have htext (name text : String) (h : (plainTag name).isLocal "c" = false) :
      (textTree name text .nil).Every IsPlain := by
    refine ⟨⟨fun hc => ?_, fun _ => by simp [Forest.tags]⟩, every_withText_nil _ text, trivial⟩
    rw [h] at hc
    cases hc
  have hcell (c : Encoded) : IsPlain c.tag c.content ∧ c.content.Every IsPlain := by
    have hv : c.tag.isLocal "v" = false ∧ c.tag.isLocal "t" = false :=
      (by decide : Tag.isLocal ⟨"c", []⟩ "v" = false ∧ Tag.isLocal ⟨"c", []⟩ "t" = false)
    refine ⟨⟨fun _ => tags_content c, by simp [hv]⟩, ?_⟩
    unfold Encoded.content
    split
    · exact htext _ _ (by decide)
    · exact ⟨outside (by decide) (by decide) (by decide) _, htext _ _ (by decide), trivial⟩
    · exact htext _ _ (by decide)
  have hrow (cells : List Encoded) (f : Forest) (h : f.Every IsPlain) : (rowTree cells f).Every IsPlain := by
    refine ⟨outside (by decide) (by decide) (by decide) _, ?_, h⟩
    exact List.foldrRecOn _ _ trivial fun f hf c _ => ⟨(hcell c).1, (hcell c).2, hf⟩
  have hrows : (rows.foldr rowTree .nil).Every IsPlain :=
    List.foldrRecOn _ _ trivial fun f hf cells _ => hrow cells f hf
  exact ⟨outside (by decide) (by decide) (by decide) _, ⟨outside (by decide) (by decide) (by decide) _, hrows, trivial⟩,
    trivial⟩

/-! ## The marks of the cells -/

def Placed.mark (c : Placed) : Mark := .cell c.position c.text

/-- The marks of rows without numbers that begin `n` rows down the sheet, and of their cells. -/
def rowMarks (n : Nat) : List (List Encoded) → List Mark
  | [] => []
  | row :: rows => .row n :: (row.map (·.toPlaced.mark) ++ rowMarks (n + 1) rows)

def rowLandmarks (row : List Encoded) : List Landmark :=
  .row (plainTag "row") :: row.map fun c => .cell c.tag c.content

theorem landmarks_rows (rows : List (List Encoded)) : landmarks (rows.foldr rowTree .nil) = rows.flatMap rowLandmarks := by
  have hcells (row : List Encoded) :
      landmarks (row.foldr Encoded.tree .nil) = row.map fun c => .cell c.tag c.content := by
    induction row with
    | nil => rfl
    | cons c row ih =>
      have hc : c.tag.isLocal "row" = false ∧ c.tag.isLocal "c" = true :=
        (by decide : Tag.isLocal ⟨"c", []⟩ "row" = false ∧ Tag.isLocal ⟨"c", []⟩ "c" = true)
      simp [Encoded.tree, landmarks, landmarkOf, hc, landmarks_of_tags (tags_content c), ih]
  induction rows with
  | nil => rfl
  | cons row rows ih =>
    have hrow : (plainTag "row").isLocal "row" = true := by decide
    simp [rowTree, landmarks, landmarkOf, hrow, hcells, ih, rowLandmarks]

theorem marksAfter_append (shared : SharedStrings) (earlier ls ms : List Landmark) :
    marksAfter shared earlier (ls ++ ms) = marksAfter shared earlier ls ++ marksAfter shared (ls.reverse ++ earlier) ms := by
  induction ls generalizing earlier with
  | nil => rfl
  | cons l ls ih => simp [marksAfter, ih]

theorem marksAfter_cells {strings : List String} {row : List Encoded}
    (inSheet : ∀ c ∈ row, c.position.row < maxRows ∧ c.position.column < maxColumns)
    (given : ∀ c ∈ row, c.IsGiven strings) (earlier : List Landmark) :
    marksAfter ⟨strings.toArray⟩ earlier (row.map fun c => .cell c.tag c.content) = row.map (·.toPlaced.mark) ∧
      lastRow? ((row.map fun c => .cell c.tag c.content).reverse ++ earlier) = lastRow? earlier := by
  induction row generalizing earlier with
  | nil => exact ⟨rfl, rfl⟩
  | cons c row ih =>
    obtain ⟨⟨hrow, hcolumn⟩, inSheet⟩ := List.forall_mem_cons.1 inSheet
    obtain ⟨hc, given⟩ := List.forall_mem_cons.1 given
    obtain ⟨hmarks, hlast⟩ := ih inSheet given (.cell c.tag c.content :: earlier)
    refine ⟨?_, by simpa [lastRow?] using hlast⟩
    simp only [List.map_cons, marksAfter, markOf, position?_tag hrow hcolumn, cellText_content hc, hmarks]
    rfl

theorem marksAfter_rows {strings : List String} {rows : List (List Encoded)}
    (inSheet : ∀ c ∈ rows.flatten, c.position.row < maxRows ∧ c.position.column < maxColumns)
    (given : ∀ c ∈ rows.flatten, c.IsGiven strings) (earlier : List Landmark) {n : Nat}
    (next : rowIndex (plainTag "row") (lastRow? earlier) = n) :
    marksAfter ⟨strings.toArray⟩ earlier (rows.flatMap rowLandmarks) = rowMarks n rows := by
  induction rows generalizing earlier n with
  | nil => rfl
  | cons row rows ih =>
    simp only [List.flatten_cons, List.forall_mem_append] at inSheet given
    obtain ⟨hmarks, hlast⟩ := marksAfter_cells inSheet.1 given.1 (.row (plainTag "row") :: earlier)
    have hnext : rowIndex (plainTag "row") (lastRow? ((rowLandmarks row).reverse ++ earlier)) = n + 1 := by
      rw [rowLandmarks, List.reverse_cons, List.append_assoc, List.singleton_append, hlast, lastRow?, next]
      rfl
    rw [List.flatMap_cons, marksAfter_append, ih inSheet.2 given.2 _ hnext, rowLandmarks, marksAfter, hmarks, markOf, next]
    rfl

theorem marksOf_sheetTree {strings : List String} {rows : List (List Encoded)}
    (inSheet : ∀ c ∈ rows.flatten, c.position.row < maxRows ∧ c.position.column < maxColumns)
    (given : ∀ c ∈ rows.flatten, c.IsGiven strings) :
    marksOf ⟨strings.toArray⟩ (sheetTree rows .nil) = rowMarks 0 rows := by
  have hlandmarks : landmarks (sheetTree rows .nil) = rows.flatMap rowLandmarks := by
    have hsheet : landmarkOf (plainTag "worksheet") = fun _ => [] := by funext f; rfl
    have hdata : landmarkOf (plainTag "sheetData") = fun _ => [] := by funext f; rfl
    simp [sheetTree, landmarks, hsheet, hdata, landmarks_rows]
  rw [marksOf, hlandmarks]
  exact marksAfter_rows inSheet given [] rfl

/-! ## The bounding box -/

/-- The number of rows down to the last cell. -/
def rowsOf (cells : List Placed) : Nat := (cells.map (·.position.row + 1)).foldr max 0

/-- The number of columns up to the last cell. -/
def columnsOf (cells : List Placed) : Nat := (cells.map (·.position.column + 1)).foldr max 0

/-- The text of the cell at a place, or the empty text. -/
def textOf (cells : List Placed) (i j : Nat) : String :=
  ((cells.find? (·.position = ⟨i, j⟩)).map (·.text)).getD ""

/-- The grid that takes in all cells, with their texts in their places and the empty text elsewhere. -/
def boundingGrid (cells : List Placed) : Grid := .ofTexts (rowsOf cells) (columnsOf cells) (textOf cells)

theorem height_mark (cells : List Placed) : height (cells.map Placed.mark) = rowsOf cells := by
  rw [height, List.map_map]
  rfl

theorem width_mark (cells : List Placed) : width (cells.map Placed.mark) = columnsOf cells := by
  rw [width, List.map_map]
  rfl

variable {cells : List Placed} {rows : List (List Encoded)}

theorem height_rowMarks (n : Nat) (rows : List (List Encoded)) :
    max n (height (rowMarks n rows)) = max (n + rows.length) (rowsOf (rows.flatten.map (·.toPlaced))) := by
  induction rows generalizing n with
  | nil => rfl
  | cons row rows ih =>
    have ih := ih (n + 1)
    have hrow : height (row.map (·.toPlaced.mark)) = rowsOf (row.map (·.toPlaced)) := by
      rw [← height_mark, List.map_map]
      rfl
    have hsplit : rowsOf ((row :: rows).flatten.map (·.toPlaced)) =
        max (rowsOf (row.map (·.toPlaced))) (rowsOf (rows.flatten.map (·.toPlaced))) := by
      rw [List.flatten_cons, List.map_append, ← height_mark, List.map_append, height_append, height_mark, height_mark]
    have hcons : height (rowMarks n (row :: rows)) =
        max (n + 1) (max (rowsOf (row.map (·.toPlaced))) (height (rowMarks (n + 1) rows))) := by
      rw [← hrow, ← height_append]
      rfl
    rw [hcons, hsplit, List.length_cons]
    omega

theorem width_rowMarks (n : Nat) (rows : List (List Encoded)) :
    width (rowMarks n rows) = columnsOf (rows.flatten.map (·.toPlaced)) := by
  induction rows generalizing n with
  | nil => rfl
  | cons row rows ih =>
    have hcons : width (rowMarks n (row :: rows)) = max 0 (width (row.map (·.toPlaced.mark) ++ rowMarks (n + 1) rows)) :=
      rfl
    rw [hcons, Nat.zero_max, width_append, ih, ← width_mark, ← width_mark, List.flatten_cons, List.map_append,
      List.map_append, width_append, List.map_map, List.map_map]
    rfl

theorem filterMap_rowMarks (n : Nat) (rows : List (List Encoded)) (i j : Nat) :
    (rowMarks n rows).filterMap (Mark.textAt? i j) =
      ((rows.flatten.map (·.toPlaced)).filter (·.position = ⟨i, j⟩)).map (·.text) := by
  have hcells (row : List Encoded) : (row.map (·.toPlaced.mark)).filterMap (Mark.textAt? i j) =
      ((row.map (·.toPlaced)).filter (·.position = ⟨i, j⟩)).map (·.text) := by
    induction row with
    | nil => rfl
    | cons c row ih =>
      have hmark : c.toPlaced.mark.textAt? i j = if c.position = ⟨i, j⟩ then some c.text else none := by
        obtain ⟨⟨⟨row, column⟩, text⟩, encoding⟩ := c
        simp [Placed.mark, Mark.textAt?, eq_comm]
      by_cases h : c.position = ⟨i, j⟩ <;> simp_all
  induction rows generalizing n with
  | nil => rfl
  | cons row rows ih =>
    rw [rowMarks, List.filterMap_cons_none rfl, List.filterMap_append, ih, hcells, List.flatten_cons, List.map_append,
      List.filter_append, List.map_append]

/-- Where positions are distinct there is at most one cell at each. -/
theorem filter_position_cases (distinct : (cells.map (·.position)).Nodup) (p : Position) :
    cells.filter (·.position = p) = [] ∨ ∃ c, cells.filter (·.position = p) = [c] := by
  have hnodup : ((cells.filter (·.position = p)).map (·.position)).Nodup :=
    (List.filter_sublist.map _).nodup distinct
  have hposition : ∀ c ∈ cells.filter (·.position = p), c.position = p := fun c hc => by
    simpa using (List.mem_filter.1 hc).2
  match h : cells.filter (·.position = p) with
  | [] => exact .inl h
  | [c] => exact .inr ⟨c, h⟩
  | c :: d :: rest =>
    rw [h] at hnodup hposition
    have hc := hposition c (by simp)
    have hd := hposition d (by simp)
    simp [hc, hd] at hnodup

theorem lastText_rowMarks (distinct : (cells.map (·.position)).Nodup)
    (order : (rows.flatten.map (·.toPlaced)).Perm cells) (n i j : Nat) :
    lastText (rowMarks n rows) i j = textOf cells i j := by
  have horder := order.filter (·.position = (⟨i, j⟩ : Position))
  rw [lastText, filterMap_rowMarks, textOf, ← List.head?_filter]
  rcases filter_position_cases distinct ⟨i, j⟩ with h | ⟨c, h⟩
  · rw [h] at horder ⊢
    rw [horder.eq_nil]
    rfl
  · rw [h] at horder ⊢
    rw [List.perm_singleton.1 horder]
    rfl

theorem rowsOf_perm {cells' : List Placed} (h : cells'.Perm cells) : rowsOf cells' = rowsOf cells :=
  (h.map _).foldr_eq 0

theorem columnsOf_perm {cells' : List Placed} (h : cells'.Perm cells) : columnsOf cells' = columnsOf cells :=
  (h.map _).foldr_eq 0

/-- **The encodings of a text agree.**  A sheet shows its cells in their bounding box, each text in its place and the
empty text elsewhere, in whatever order they are written and whether each text is written as a value, in place or as its
number in a table that is read beside the sheet. -/
theorem encodings_agree (part : String) (cells : List Placed) (rows : List (List Encoded)) (strings : List String)
    (nonempty : cells ≠ []) (distinct : (cells.map (·.position)).Nodup)
    (inSheet : ∀ c ∈ cells, c.position.row < maxRows ∧ c.position.column < maxColumns)
    (withinArea : rowsOf cells * columnsOf cells ≤ maxArea)
    (order : (rows.flatten.map (·.toPlaced)).Perm cells) (rowsInBox : rows.length ≤ rowsOf cells)
    (given : ∀ c ∈ rows.flatten, c.IsGiven strings) :
    ∃ table, SharedStrings.ofText (tableText strings) = .ok table ∧
      (Grid.ofText part table (sheetText rows)).outcome = .ok (boundingGrid cells) := by
  refine ⟨_, ofText_tableText strings, ?_⟩
  have inSheet : ∀ c ∈ rows.flatten, c.position.row < maxRows ∧ c.position.column < maxColumns := fun c hc =>
    inSheet c.toPlaced (order.subset (List.mem_map_of_mem hc))
  have hmarks := marksOf_sheetTree inSheet given
  have hheight : height (rowMarks 0 rows) = rowsOf cells := by
    have h := height_rowMarks 0 rows
    rw [rowsOf_perm order] at h
    omega
  have hwidth : width (rowMarks 0 rows) = columnsOf cells := (width_rowMarks 0 rows).trans (columnsOf_perm order)
  have hbox : 1 ≤ rowsOf cells ∧ 1 ≤ columnsOf cells := by
    cases cells with
    | nil => exact absurd rfl nonempty
    | cons c cells => constructor <;> exact Nat.le_trans (Nat.le_add_left 1 _) (Nat.le_max_left _ _)
  have hfits : WithinArea (marksOf ⟨strings.toArray⟩ (sheetTree rows .nil)) := by
    rw [hmarks, WithinArea, hheight, hwidth, Nat.max_eq_right hbox.1, Nat.max_eq_right hbox.2]
    exact withinArea
  obtain ⟨⟨g, hg, hrect, hrows, hcolumns, htexts⟩, -⟩ :=
    Grid.exists_outcome_of_describes part (describes_sheetText rows) (isPlain_sheetTree rows) hfits
  rw [hmarks] at hrows hcolumns htexts
  rw [hg, Grid.eq_ofTexts hrect (hrows.trans ?_) (hcolumns.trans ?_) fun i j =>
    (htexts i j).trans (lastText_rowMarks distinct order 0 i j)]
  · rfl
  · rw [hheight, Nat.max_eq_right hbox.1]
  · rw [hwidth, Nat.max_eq_right hbox.2]

def threeCells : List Placed := [⟨⟨0, 1⟩, "a<b"⟩, ⟨⟨2, 0⟩, ""⟩, ⟨⟨1, 1⟩, " x "⟩]

/-- The three cells in another order, each in an encoding of its own. -/
def threeRows : List (List Encoded) :=
  [[⟨⟨⟨1, 1⟩, " x "⟩, .shared 1⟩], [⟨⟨⟨0, 1⟩, "a<b"⟩, .inPlace⟩, ⟨⟨⟨2, 0⟩, ""⟩, .value⟩]]

theorem encodings_agree_threeCells : ∃ table, SharedStrings.ofText (tableText ["y", " x "]) = .ok table ∧
    (Grid.ofText "sheet" table (sheetText threeRows)).outcome =
      .ok ⟨#[#["", "a<b"], #["", " x "], #["", ""]], 2⟩ := by
  have hbox : boundingGrid threeCells = ⟨#[#["", "a<b"], #["", " x "], #["", ""]], 2⟩ := by decide +kernel
  rw [← hbox]
  exact encodings_agree "sheet" threeCells threeRows ["y", " x "] (by decide) (by decide) (by decide) (by decide)
    (by decide) (by decide) (by decide)

end OfficePreview.Sheet
