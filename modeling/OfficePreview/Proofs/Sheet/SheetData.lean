import OfficePreview.Proofs.Sheet.Sources
/-!
# SheetData — what stands beside the data of a sheet

Rows and cells are told by their local names at any depth, so that a sheet has the rows of whatever vocabulary stands
beside its data: the anchor of a control ends in a row that adds a row to the grid (`anchor_adds_row`).  Where nothing but
the data holds rows and cells, the grid is the same without all that stands beside the data (`sheetData_decides_grid`).
-/
namespace OfficePreview

open Xml (Event Tag Forest IsWellFormed WrittenAs)

/-! ## Elements taken out of a root -/

namespace Xml.Source

/-- Trees without those elements that do not have a property; what stands beside elements is kept. -/
def keeping (p : Tag → Bool) : Source → Source
  | .nil => .nil
  | .element opening tag children closing rest =>
    if p tag then .element opening tag children closing (rest.keeping p) else rest.keeping p
  | .empty written tag rest => if p tag then .empty written tag (rest.keeping p) else rest.keeping p
  | .leaf written l rest => .leaf written l (rest.keeping p)

/-- A part with other trees in its root. -/
def inRoot (change : Source → Source) : Source → Source
  | .nil => .nil
  | .element opening tag children closing rest => .element opening tag (change children) closing (rest.inRoot change)
  | .empty written tag rest => .empty written tag (rest.inRoot change)
  | .leaf written l rest => .leaf written l (rest.inRoot change)

theorem rootTags_inRoot (change : Source → Source) (source : Source) :
    (source.inRoot change).forest.rootTags = source.forest.rootTags := by
  induction source with
  | nil => rfl
  | element opening tag children closing rest _ ih => simp [inRoot, forest, Forest.rootTags, ih]
  | empty written tag rest ih => simp [inRoot, forest, Forest.rootTags, ih]
  | leaf written l rest ih => exact ih

theorem references_keeping_subset (p : Tag → Bool) (source : Source) :
    (source.keeping p).forest.references ⊆ source.forest.references := by
  induction source with
  | nil => exact List.Subset.refl _
  | element opening tag children closing rest _ ih =>
    unfold keeping
    split
    · exact List.append_subset.2 ⟨List.subset_append_left _ _, List.Subset.trans ih (List.subset_append_right _ _)⟩
    · exact List.Subset.trans ih (List.subset_append_right _ _)
  | empty written tag rest ih =>
    unfold keeping
    split <;> exact ih
  | leaf written l rest ih =>
    cases l with
    | reference name => exact List.cons_subset_cons name ih
    | _ => exact ih

theorem references_inRoot_subset {change : Source → Source}
    (h : ∀ source : Source, (change source).forest.references ⊆ source.forest.references) (source : Source) :
    (source.inRoot change).forest.references ⊆ source.forest.references := by
  induction source with
  | nil => exact List.Subset.refl _
  | element opening tag children closing rest _ ih =>
    exact List.append_subset.2 ⟨List.Subset.trans (h children) (List.subset_append_left _ _),
      List.Subset.trans ih (List.subset_append_right _ _)⟩
  | empty written tag rest ih => exact ih
  | leaf written l rest ih =>
    cases l with
    | reference name => exact List.cons_subset_cons name ih
    | _ => exact ih

/-- **A document is a document without some of the elements in its root.** -/
theorem isDocument_inRoot {source : Source} (document : source.forest.IsDocument) (p : Tag → Bool) :
    (source.inRoot (keeping p)).forest.IsDocument where
  oneRoot := by
    rw [rootTags_inRoot]
    exact document.oneRoot
  isResolved name h := document.isResolved name (references_inRoot_subset (references_keeping_subset p) source h)

end Xml.Source

namespace Sheet

def isSheetData (tag : Tag) : Bool := tag.isLocal "sheetData"

/-- The source of a sheet without what stands in its root beside the data. -/
def dataAlone (source : Xml.Source) : Xml.Source := source.inRoot (.keeping isSheetData)

/-- The source of a sheet without its data. -/
def besideData (source : Xml.Source) : Xml.Source := source.inRoot (.keeping fun tag => !isSheetData tag)

namespace GridBuilder

variable {part : String} {shared : SharedStrings} {b : GridBuilder}

/-- **Elements without rows and cells can be taken out** where nothing is open. -/
theorem IsResting.run_keeping (hb : b.IsResting) {p : Tag → Bool} {source : Xml.Source}
    (h : ∀ tag ∈ (source.keeping fun tag => !p tag).forest.tags, tag.isLocal "c" = false ∧ tag.isLocal "row" = false)
    (depth : Nat) :
    GridBuilder.run part shared b ((source.keeping p).forest.events depth) =
      GridBuilder.run part shared b (source.forest.events depth) := by
  induction source generalizing b with
  | nil => rfl
  | element opening tag children closing rest _ ih =>
    -- the element stands before the rest, whether or not it is kept
    have hfirst (after : Forest) : GridBuilder.run part shared b ((Forest.element tag children.forest after).events depth) =
        GridBuilder.run part shared
          (GridBuilder.run part shared b ((Forest.element tag children.forest .nil).events depth))
          (after.events depth) := by
      rw [run_element, run_element]
      rfl
    have hafter : (GridBuilder.run part shared b ((Forest.element tag children.forest .nil).events depth)).IsResting :=
      hb.run _ depth
    cases hp : p tag with
    | true =>
      simp only [Xml.Source.keeping, hp, Bool.not_true, Bool.false_eq_true, if_false, if_true] at h ⊢
      rw [Xml.Source.forest, Xml.Source.forest, hfirst (rest.keeping p).forest, hfirst rest.forest, ih hafter h]
    | false =>
      simp only [Xml.Source.keeping, hp, Bool.not_false, if_true, Bool.false_eq_true, if_false] at h ⊢
      simp only [Xml.Source.forest, Forest.tags, List.mem_cons, List.mem_append] at h
      have hnone : ∀ t ∈ (Forest.element tag children.forest .nil).tags, t.isLocal "c" = false ∧ t.isLocal "row" = false := by
        simp only [Forest.tags, List.append_nil, List.mem_cons]
        exact fun t ht => h t (ht.imp_right .inl)
      rw [Xml.Source.forest, hfirst rest.forest, hb.run_of_tags hnone]
      exact ih hb fun t ht => h t (.inr (.inr ht))
  | empty written tag rest ih =>
    cases hp : p tag with
    | true =>
      simp only [Xml.Source.keeping, hp, Bool.not_true, Bool.false_eq_true, if_false, if_true] at h ⊢
      rw [Xml.Source.forest, Xml.Source.forest, run_empty, run_empty]
      have hafter : (GridBuilder.run part shared b ((Forest.empty tag .nil).events depth)).IsResting := hb.run _ depth
      exact ih hafter h
    | false =>
      simp only [Xml.Source.keeping, hp, Bool.not_false, if_true, Bool.false_eq_true, if_false] at h ⊢
      simp only [Xml.Source.forest, Forest.tags, List.mem_cons] at h
      have hnone : ∀ t ∈ (Forest.empty tag .nil).tags, t.isLocal "c" = false ∧ t.isLocal "row" = false := by
        simpa [Forest.tags] using h tag (.inl rfl)
      have htag : b.tag part shared tag false = b := hb.run_of_tags hnone depth
      rw [Xml.Source.forest, run_empty, htag]
      exact ih hb fun t ht => h t (.inr ht)
  | leaf written l rest ih =>
    rw [Xml.Source.keeping, Xml.Source.forest, Xml.Source.forest, Forest.events, Forest.events, run_cons, run_cons,
      hb.step_leaf]
    exact ih hb h

/-- **A sheet is read as its data alone** if nothing beside the data is a row or a cell. -/
theorem IsResting.run_dataAlone (hb : b.IsResting) {source : Xml.Source}
    (h : ∀ tag ∈ (besideData source).forest.tags, tag.isLocal "c" = false ∧ tag.isLocal "row" = false) (depth : Nat) :
    GridBuilder.run part shared b ((dataAlone source).forest.events depth) =
      GridBuilder.run part shared b (source.forest.events depth) := by
  induction source generalizing b with
  | nil => rfl
  | element opening tag children closing rest _ ih =>
    simp only [besideData, Xml.Source.inRoot, Xml.Source.forest, Forest.tags, List.mem_cons, List.mem_append] at h
    obtain ⟨hc, -⟩ := h tag (.inl rfl)
    have hroot : (b.tag part shared tag true).IsResting := hb.tag hc true
    have hname : Xml.localName tag.name ≠ "c" := by simpa [Tag.isLocal] using hc
    have hchildren : GridBuilder.run part shared (b.tag part shared tag true)
        ((children.keeping isSheetData).forest.events (depth + 1)) =
          GridBuilder.run part shared (b.tag part shared tag true) (children.forest.events (depth + 1)) :=
      hroot.run_keeping (fun t ht => h t (.inr (.inl ht))) (depth + 1)
    have hafter : (GridBuilder.run part shared (b.tag part shared tag true)
        (children.forest.events (depth + 1))).IsResting := hroot.run children.forest (depth + 1)
    simp only [dataAlone, Xml.Source.inRoot, Xml.Source.forest, run_element]
    rw [hchildren, hafter.close hname]
    exact ih hafter fun t ht => h t (.inr (.inr ht))
  | empty written tag rest ih =>
    simp only [besideData, Xml.Source.inRoot, Xml.Source.forest, Forest.tags, List.mem_cons] at h
    simp only [dataAlone, Xml.Source.inRoot, Xml.Source.forest, run_empty]
    exact ih (hb.tag (h tag (.inl rfl)).1 false) fun t ht => h t (.inr ht)
  | leaf written l rest ih =>
    simp only [dataAlone, Xml.Source.inRoot, Xml.Source.forest, Forest.events, run_cons, hb.step_leaf]
    exact ih hb h

end GridBuilder

/-- **The data of a sheet decides its grid**, if nothing beside the data is a row or a cell: the sheet without what stands
in its root beside the data shows the same grid. -/
theorem sheetData_decides_grid (part : String) (shared : SharedStrings) {text text' : String} {source : Xml.Source}
    (written : WrittenAs text source) (accepted : IsWellFormed text)
    (h : ∀ tag ∈ (besideData source).forest.tags, tag.isLocal "c" = false ∧ tag.isLocal "row" = false)
    (written' : WrittenAs text' (dataAlone source)) :
    IsWellFormed text' ∧ (Grid.ofText part shared text').outcome = (Grid.ofText part shared text).outcome := by
  have accepted' : IsWellFormed text' :=
    written'.isWellFormed_iff.2 (Xml.Source.isDocument_inRoot (written.isWellFormed_iff.1 accepted) isSheetData)
  refine ⟨accepted', ?_⟩
  rw [Grid.ofText_of_writtenAs part shared written' accepted', Grid.ofText_of_writtenAs part shared written accepted,
    GridBuilder.isResting_empty.run_dataAlone h]

/-! ## A sheet with and without a control -/

def sevenText : String := "<sheetData><row r=\"1\"><c r=\"A1\"><v>7</v></c></row></sheetData>"

/-- The rows of a sheet with one cell. -/
def sevenSource : Xml.Source :=
  .wrap ⟨"row", [⟨"r", "1"⟩]⟩
    (.wrap ⟨"c", [⟨"r", "A1"⟩]⟩ (.wrap ⟨"v", []⟩ (.leaf "7".toList (.text "7") .nil) .nil) .nil) .nil

/-- A sheet with its data and what stands after it. -/
def besideSource (after : Xml.Source) : Xml.Source :=
  .wrap ⟨"worksheet", []⟩ (.wrap ⟨"sheetData", []⟩ sevenSource after) .nil

theorem sheetData_decides_grid_margins :
    (Grid.ofText "sheet" {} ("<worksheet>" ++ sevenText ++ "</worksheet>")).outcome =
      (Grid.ofText "sheet" {} ("<worksheet>" ++ sevenText ++ "<margins/></worksheet>")).outcome := by
  have written : WrittenAs ("<worksheet>" ++ sevenText ++ "<margins/></worksheet>")
      (besideSource (.empty "<margins/>".toList ⟨"margins", []⟩ .nil)) := ⟨by decide +kernel, by decide +kernel⟩
  refine (sheetData_decides_grid "sheet" {} written (by decide +kernel) (by decide +kernel) ?_).2
  exact ⟨by decide +kernel, by decide +kernel⟩

/-- A control whose anchor is in the fourth row. -/
def anchorSource : Xml.Source :=
  .wrap ⟨"controls", []⟩
    (.wrap ⟨"anchor", []⟩ (.wrap ⟨"xdr:row", []⟩ (.leaf "3".toList (.text "3") .nil) .nil) .nil) .nil

/-- **The row of an anchor is taken for a row of the sheet**, so that a sheet has one row less without a control. -/
theorem anchor_adds_row :
    WrittenAs ("<worksheet>" ++ sevenText ++ "<controls><anchor><xdr:row>3</xdr:row></anchor></controls></worksheet>")
        (besideSource anchorSource) ∧
      WrittenAs ("<worksheet>" ++ sevenText ++ "</worksheet>") (dataAlone (besideSource anchorSource)) ∧
      (Grid.ofText "sheet" {} ("<worksheet>" ++ sevenText ++
          "<controls><anchor><xdr:row>3</xdr:row></anchor></controls></worksheet>")).outcome =
        .ok ⟨#[#["7"], #[""]], 1⟩ ∧
      (Grid.ofText "sheet" {} ("<worksheet>" ++ sevenText ++ "</worksheet>")).outcome = .ok ⟨#[#["7"]], 1⟩ := by
  refine ⟨⟨?_, ?_⟩, ⟨?_, ?_⟩, ?_, ?_⟩ <;> decide +kernel

end Sheet

end OfficePreview
