import OfficePreview.Html.Sheet
import OfficePreview.Proofs.Html.Reading
/-!
# Sheets — the markup of a sheet says what the sheet holds

The markup of a grid is a part in its own right: it has one root, and its references can be resolved
(`describes_toHtml`).  Read as a sheet, it gives the caption, the values at their places and the classes that went into
it (`toHtml_reads_back`).  No value, caption or class adds anything to it.
-/
namespace OfficePreview.Html

open Xml (Tag Forest Describes)

/-! ## Writing a table -/

variable (o : Options)

def valueTree (value : String) (f : Forest) : Forest :=
  .element (Element.td.tag o.sheetCellClass) (Forest.withText value .nil) f

def rowTree (row : Array String) (f : Forest) : Forest :=
  .element (Element.tr.tag "") (row.toList.foldr (valueTree o) .nil) f

def captionTree : Option String → Forest → Forest
  | some caption, f => .element (Element.caption.tag o.sheetCaptionClass) (Forest.withText caption .nil) f
  | none, f => f

def bodyTree (g : Sheet.Grid) (f : Forest) : Forest :=
  .element (Element.tbody.tag "") (g.rows.toList.foldr (rowTree o) .nil) f

def gridTree (caption : Option String) (g : Sheet.Grid) (f : Forest) : Forest :=
  .element (Element.table.tag o.sheetTableClass) (captionTree o caption (bodyTree o g .nil)) f

theorem writes_ofValue (value : String) : Writes (ofValue o value) (valueTree o value) :=
  (Writes.text value).wrap .td o.sheetCellClass

theorem writes_ofValues (row : Array String) : Writes (ofValues o row) (rowTree o row) :=
  (Writes.flatMap fun value _ => writes_ofValue o value).wrap .tr ""

theorem writes_ofCaption (caption : Option String) : Writes (ofCaption o caption) (captionTree o caption) := by
  cases caption with
  | none => exact Writes.nil
  | some caption => exact (Writes.text caption).wrap .caption o.sheetCaptionClass

theorem writes_ofGrid (caption : Option String) (g : Sheet.Grid) :
    Writes (ofGrid o caption g) (gridTree o caption g) := by
  have hbody : Writes (wrap .tbody "" (g.rows.toList.flatMap (ofValues o))) (bodyTree o g) :=
    (Writes.flatMap fun row _ => writes_ofValues o row).wrap .tbody ""
  exact ((writes_ofCaption o caption).append hbody).wrap .table o.sheetTableClass

/-! ## The table is a document -/

theorem isResolved_valueTree (value : String) (f : Forest) (h : f.IsResolved) : (valueTree o value f).IsResolved :=
  (Forest.isResolved_nil.withText value).element h _

theorem isResolved_rowTree (row : Array String) (f : Forest) (h : f.IsResolved) : (rowTree o row f).IsResolved := by
  have values : (row.toList.foldr (valueTree o) .nil).IsResolved :=
    List.foldrRecOn _ _ Forest.isResolved_nil fun f hf value _ => isResolved_valueTree o value f hf
  exact values.element h _

theorem isDocument_gridTree (caption : Option String) (g : Sheet.Grid) : (gridTree o caption g .nil).IsDocument := by
  refine ⟨rfl, Forest.IsResolved.element ?_ Forest.isResolved_nil _⟩
  have rows : (g.rows.toList.foldr (rowTree o) .nil).IsResolved :=
    List.foldrRecOn _ _ Forest.isResolved_nil fun f hf row _ => isResolved_rowTree o row f hf
  have hbody : (bodyTree o g .nil).IsResolved := rows.element Forest.isResolved_nil _
  cases caption with
  | none => exact hbody
  | some caption => exact (Forest.isResolved_nil.withText caption).element hbody _

theorem describes_toHtml (caption : Option String) (g : Sheet.Grid) :
    Describes (g.toHtml o caption) (gridTree o caption g .nil) := by
  obtain ⟨cs, hlt⟩ := toList_render_wrap .table o.sheetTableClass
    (ofCaption o caption ++ wrap .tbody "" (g.rows.toList.flatMap (ofValues o))) []
  rw [List.append_nil] at hlt
  exact Xml.describes_iff.2 ⟨(writes_ofGrid o caption g).spells hlt, isDocument_gridTree o caption g⟩

/-! ## What is read back -/

/-- The cells of a row as they are read. -/
def labelledRow (row : Array String) : List Labelled := row.toList.map (⟨classValue? o.sheetCellClass, ·⟩)

theorem readRow?_rowTree (row : Array String) :
    readRow? (Labelled.read? "td") (Element.tr.tag "") (row.toList.foldr (valueTree o) .nil) =
      some (labelledRow o row) := by
  rw [readRow?_tr]
  exact readElements?_foldr fun value _ => readElements?_element (read?_withText .td o.sheetCellClass value)

theorem readBody?_bodyTree (g : Sheet.Grid) :
    readBody? (Labelled.read? "td") (bodyTree o g .nil) = some (g.rows.toList.map (labelledRow o)) := by
  rw [bodyTree, readBody?_tbody]
  exact readElements?_foldr fun row _ => readElements?_element (readRow?_rowTree o row)

theorem ofForest?_gridTree (caption : Option String) (g : Sheet.Grid) :
    SheetMarkup.ofForest? (gridTree o caption g .nil) = some {
      className := classValue? o.sheetTableClass
      caption := caption.map (⟨classValue? o.sheetCaptionClass, ·⟩)
      rows := g.rows.toList.map (labelledRow o) } := by
  have hname : (Element.table.tag o.sheetTableClass).name = "table" := rfl
  have hbody := readBody?_bodyTree o g
  have htable : SheetMarkup.ofForest? (gridTree o caption g .nil) =
      SheetMarkup.readTable? (Element.table.tag o.sheetTableClass) (captionTree o caption (bodyTree o g .nil)) := rfl
  rw [htable]
  cases caption with
  | none =>
    change (if _ then (readBody? (Labelled.read? "td") (bodyTree o g .nil)).map _ else none) = _
    rw [if_pos hname, hbody, Element.attribute?_tag]
    rfl
  | some caption =>
    have hcaption : Labelled.read? "caption" (Element.caption.tag o.sheetCaptionClass) (Forest.withText caption .nil) =
        _ := read?_withText .caption o.sheetCaptionClass caption
    change (if _ then (Labelled.read? "caption" _ _).bind fun caption =>
      (readBody? (Labelled.read? "td") (bodyTree o g .nil)).map _ else none) = _
    rw [if_pos hname, hcaption, hbody, Element.attribute?_tag]
    rfl

/-! ## No other markup -/

/-- The tags of a sheet: each has its class, or none, and no other attribute. -/
def sheetTags : List Label :=
  [("table", classValues o.sheetTableClass), ("caption", classValues o.sheetCaptionClass), ("tbody", []), ("tr", []),
    ("td", classValues o.sheetCellClass)]

theorem tagsAmong_rowTree (row : Array String) (f : Forest) (h : TagsAmong (sheetTags o) f) :
    TagsAmong (sheetTags o) (rowTree o row f) := by
  have values : TagsAmong (sheetTags o) (row.toList.foldr (valueTree o) .nil) := by
    refine List.foldrRecOn _ _ TagsAmong.nil fun f hf value _ => ?_
    exact TagsAmong.element (by simp [sheetTags, Element.name]) (TagsAmong.nil.withText value) hf
  exact TagsAmong.element (by simp [sheetTags, Element.name]) values h

theorem tagsAmong_gridTree (caption : Option String) (g : Sheet.Grid) :
    TagsAmong (sheetTags o) (gridTree o caption g .nil) := by
  have rows : TagsAmong (sheetTags o) (g.rows.toList.foldr (rowTree o) .nil) :=
    List.foldrRecOn _ _ TagsAmong.nil fun f hf row _ => tagsAmong_rowTree o row f hf
  have hbody : TagsAmong (sheetTags o) (bodyTree o g .nil) :=
    TagsAmong.element (by simp [sheetTags, Element.name]) rows .nil
  refine TagsAmong.element (by simp [sheetTags, Element.name]) ?_ .nil
  cases caption with
  | none => exact hbody
  | some caption =>
    exact TagsAmong.element (by simp [sheetTags, Element.name]) (TagsAmong.nil.withText caption) hbody

/-- **The markup of a sheet says exactly what the sheet holds.**  It is a part that describes one forest, and this is read
as one table with the caption, if there is one, with the values of the grid row by row, and with the classes of the
options, an empty one being none.  No other tag and no other attribute is in it. -/
theorem toHtml_reads_back (g : Sheet.Grid) (o : Options) (caption : Option String) :
    ∃ forest, Describes (g.toHtml o caption) forest ∧
      (∀ other, Describes (g.toHtml o caption) other → other = forest) ∧
        SheetMarkup.ofForest? forest = some {
          className := classValue? o.sheetTableClass
          caption := caption.map (⟨classValue? o.sheetCaptionClass, ·⟩)
          rows := g.rows.toList.map fun row => row.toList.map (⟨classValue? o.sheetCellClass, ·⟩) } ∧
          TagsAmong (sheetTags o) forest := by
  have described := describes_toHtml o caption g
  refine ⟨gridTree o caption g .nil, described, fun other h => ?_, ofForest?_gridTree o caption g,
    tagsAmong_gridTree o caption g⟩
  exact (Xml.describes_iff.1 h).1.unique (Xml.describes_iff.1 described).1

end OfficePreview.Html
