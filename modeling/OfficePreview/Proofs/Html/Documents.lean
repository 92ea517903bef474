import Mathlib.Control.Monad.Basic
import OfficePreview.Html.Document
import OfficePreview.Proofs.Html.Shown
import OfficePreview.Proofs.Word.Filled
/-!
# Documents — the fragment of a document says what the document shows

The fragment of a document is read back from the trees that it spells.  A document with blocks is read as they are shown
(`readFragment?_documentTree`), and a document without blocks as the placeholder.  No text of the document is read as
markup, so that two documents with the same fragment show the same (`toHtml_shows`).
-/
namespace OfficePreview.Html

open Word (Run Paragraph Cell Row Table Block Document)
open Xml (Tag Forest Spells)

/-! ## Trees -/

/-- Trees inside an element, or without it. -/
def within (applies : Bool) (tag : Tag) (before : Forest → Forest) (f : Forest) : Forest :=
  if applies then .element tag (before .nil) f else before f

def formattedTree (r : Run) : Forest → Forest :=
  within r.bold (Element.strong.tag "") <| within r.italic (Element.em.tag "") <|
    within r.underline underlineTag <| Forest.withText r.text

def breakTree (r : Run) (f : Forest) : Forest := if r.lineBreak then .empty breakTag f else f

def runTree (r : Run) (f : Forest) : Forest :=
  if r.text = "" then breakTree r f else formattedTree r (breakTree r f)

def paragraphTree (className : String) (p : Paragraph) (f : Forest) : Forest :=
  .element (Element.p.tag className) (if p.hasContent then p.runs.foldr runTree .nil else blankTree) f

variable (o : Options)

def cellTree (c : Cell) (f : Forest) : Forest :=
  .element (Element.td.tag o.tableCellClass)
    (if c.paragraphs.isEmpty then blankTree else c.paragraphs.foldr (paragraphTree o.compactParagraphClass) .nil) f

def cellsTree (r : Row) (f : Forest) : Forest := .element (Element.tr.tag "") (r.cells.foldr (cellTree o) .nil) f

def tableTree (t : Table) (f : Forest) : Forest :=
  if t.isEmpty then f
  else .element (Element.table.tag o.tableClass)
    (.element (Element.tbody.tag "") (t.rows.foldr (cellsTree o) .nil) .nil) f

def blockTree : Block → Forest → Forest
  | .paragraph p => paragraphTree o.paragraphClass p
  | .table t => tableTree o t

def placeholderTree (f : Forest) : Forest :=
  .element (Element.p.tag o.placeholderClass) (Forest.withText o.emptyDocumentText .nil) f

def documentTree (d : Document) (f : Forest) : Forest :=
  if d.isEmpty then placeholderTree o f else d.blocks.foldr (blockTree o) f

/-! ## Writing the trees -/

theorem Writes.within {ps qs : List Piece} {before : Forest → Forest} {tag : Tag} (h : Writes ps before)
    (hw : Writes qs fun f => .element tag (before .nil) f) (applies : Bool) :
    Writes (if applies then qs else ps) (within applies tag before) := by
  cases applies with
  | true => exact hw
  | false => exact h

theorem writes_formatted (r : Run) : Writes (formatted r) (formattedTree r) := by
  have htext := Writes.text r.text
  have hunderline := htext.within htext.underline r.underline
  have hitalic := hunderline.within (hunderline.wrap .em "") r.italic
  exact hitalic.within (hitalic.wrap .strong "") r.bold

theorem writes_break (r : Run) : Writes (if r.lineBreak then [.lineBreak] else []) (breakTree r) := by
  unfold breakTree
  cases r.lineBreak with
  | true => exact Writes.lineBreak
  | false => exact Writes.nil

theorem writes_ofRun (r : Run) : Writes (ofRun r) (runTree r) := by
  unfold ofRun runTree
  by_cases h : r.text = ""
  · simp only [h, if_true]
    exact Writes.nil.append (writes_break r)
  · simp only [h, if_false]
    exact (writes_formatted r).append (writes_break r)

theorem writes_ofParagraph (className : String) (p : Paragraph) :
    Writes (ofParagraph className p) (paragraphTree className p) := by
  unfold ofParagraph paragraphTree
  cases p.hasContent with
  | true => exact (Writes.flatMap fun r _ => writes_ofRun r).wrap .p className
  | false => exact Writes.blank.wrap .p className

theorem writes_ofCell (c : Cell) : Writes (ofCell o c) (cellTree o c) := by
  unfold ofCell cellTree
  cases c.paragraphs.isEmpty with
  | true => exact Writes.blank.wrap .td o.tableCellClass
  | false => exact (Writes.flatMap fun p _ => writes_ofParagraph o.compactParagraphClass p).wrap .td o.tableCellClass

theorem writes_ofRow (r : Row) : Writes (ofRow o r) (cellsTree o r) :=
  (Writes.flatMap fun c _ => writes_ofCell o c).wrap .tr ""

theorem writes_ofTable (t : Table) : Writes (ofTable o t) (tableTree o t) := by
  unfold ofTable tableTree
  cases t.isEmpty with
  | true => exact Writes.nil
  | false => exact ((Writes.flatMap fun r _ => writes_ofRow o r).wrap .tbody "").wrap .table o.tableClass

theorem writes_ofBlock (b : Block) : Writes (ofBlock o b) (blockTree o b) := by
  cases b with
  | paragraph p => exact writes_ofParagraph o.paragraphClass p
  | table t => exact writes_ofTable o t

theorem writes_ofDocument (d : Document) : Writes (ofDocument o d) (documentTree o d) := by
  unfold ofDocument documentTree
  cases d.isEmpty with
  | true => exact (Writes.text o.emptyDocumentText).wrap .p o.placeholderClass
  | false => exact Writes.flatMap fun b _ => writes_ofBlock o b

/-! ## The start of a fragment -/

theorem ofBlock_eq_wrap {b : Block} (h : b.IsFilled) : ∃ e className inside, ofBlock o b = wrap e className inside := by
  cases b with
  | paragraph p => exact ⟨_, _, _, rfl⟩
  | table t =>
    refine ⟨.table, o.tableClass, wrap .tbody "" (t.rows.flatMap (ofRow o)), ?_⟩
    rw [ofBlock, ofTable, h.isEmpty_eq]
    rfl

/-- A fragment begins with an element. -/
theorem ofDocument_eq_wrap {d : Document} (h : ∀ b ∈ d.blocks, b.IsFilled) :
    ∃ e className inside rest, ofDocument o d = wrap e className inside ++ rest := by
  unfold ofDocument Document.isEmpty
  cases hd : d.blocks with
  | nil => exact ⟨_, _, _, [], (List.append_nil _).symm⟩
  | cons b bs =>
    obtain ⟨e, className, inside, hb⟩ := ofBlock_eq_wrap o (h b (hd ▸ List.mem_cons_self))
    exact ⟨e, className, inside, bs.flatMap (ofBlock o), by simp [hb]⟩

theorem toList_toHtml {d : Document} (h : ∀ b ∈ d.blocks, b.IsFilled) : ∃ cs, (d.toHtml o).toList = '<' :: cs := by
  obtain ⟨e, className, inside, rest, hd⟩ := ofDocument_eq_wrap o h
  rw [Document.toHtml, hd]
  exact toList_render_wrap e className inside rest

theorem spells_toHtml {d : Document} (h : ∀ b ∈ d.blocks, b.IsFilled) :
    Spells (d.toHtml o) (documentTree o d .nil) := by
  obtain ⟨cs, hlt⟩ := toList_toHtml o h
  exact (writes_ofDocument o d).spells hlt

/-! ## Reading marks -/

theorem readMarks?_withChar (formats : Formats) (c : Char) (f : Forest) :
    readMarks? formats (f.withChar c) = (readMarks? formats f).map (.char c formats :: ·) := by
  unfold Forest.withChar
  cases hc : Xml.referenceFor? c with
  | some name =>
    have hdata : (Xml.Leaf.reference name).event.data? = some c.toString := by
      simp [Xml.Leaf.event, Xml.Event.data?, Xml.resolve_referenceFor? hc]
    simp [readMarks?, hdata]
  | none =>
    dsimp only
    split
    · rename_i data rest
      simp [readMarks?, Xml.Leaf.event, Xml.Event.data?, Function.comp_def]
    · simp [readMarks?, Xml.Leaf.event, Xml.Event.data?]

/-- Trees that are read as these marks, in the formats around them, before those of the trees that follow. -/
def ReadsMarks (before : Forest → Forest) (marks : Formats → List Mark) : Prop :=
  ∀ formats f, readMarks? formats (before f) = (readMarks? formats f).map (marks formats ++ ·)

theorem readsMarks_withText (s : String) :
    ReadsMarks (Forest.withText s) fun formats => s.toList.map (.char · formats) := by
  intro formats f
  unfold Forest.withText
  induction s.toList with
  | nil => simp
  | cons c cs ih =>
    rw [List.foldr_cons, readMarks?_withChar, ih, Option.map_map]
    rfl

theorem ReadsMarks.within {before : Forest → Forest} {marks : Formats → List Mark} (h : ReadsMarks before marks)
    (tag : Tag) {inner : Formats → Formats} (ht : ∀ formats, Formats.within? formats tag = some (inner formats))
    (applies : Bool) :
    ReadsMarks (within applies tag before) fun formats => marks (if applies then inner formats else formats) := by
  cases applies with
  | false => exact h
  | true =>
    intro formats f
    have hin : readMarks? (inner formats) (before .nil) = some (marks (inner formats)) := by
      rw [h]
      simp [readMarks?]
    simp [Html.within, readMarks?, ht, hin]

theorem readMarks?_formattedTree (r : Run) (f : Forest) :
    readMarks? {} (formattedTree r f) = (readMarks? {} f).map (r.text.toList.map (.char · (.ofRun r)) ++ ·) := by
  have hunderline := (readsMarks_withText r.text).within underlineTag (fun _ => rfl) r.underline
  have hitalic := hunderline.within (Element.em.tag "") (fun _ => rfl) r.italic
  have hbold := hitalic.within (Element.strong.tag "") (fun _ => rfl) r.bold
  rw [formattedTree, hbold]
  unfold Formats.ofRun
  cases r.bold <;> cases r.italic <;> cases r.underline <;> rfl

theorem readMarks?_runTree (r : Run) (f : Forest) :
    readMarks? {} (runTree r f) = (readMarks? {} f).map (marksOfRun r ++ ·) := by
  have hbreak : readMarks? {} (breakTree r f) =
      (readMarks? {} f).map ((if r.lineBreak then [.lineBreak] else []) ++ ·) := by
    unfold breakTree
    cases r.lineBreak <;> simp [readMarks?, breakTag]
  unfold runTree marksOfRun
  by_cases h : r.text = ""
  · simp [h, hbreak]
  · rw [if_neg h, readMarks?_formattedTree, hbreak, Option.map_map]
    simp [Function.comp_def]

theorem readMarks?_runs (rs : List Run) : readMarks? {} (rs.foldr runTree .nil) = some (rs.flatMap marksOfRun) := by
  induction rs with
  | nil => rfl
  | cons r rs ih =>
    rw [List.foldr_cons, readMarks?_runTree, ih]
    rfl

/-! ## Reading blocks -/

/-- Contents that are read are not a blank, which cannot be read. -/
theorem readContents?_of_ne_nil {α : Type} {read : Forest → Option (List α)} {children : Forest} {as : List α}
    (blank : read blankTree = none) (h : read children = some as) (hne : as ≠ []) :
    readContents? read children = some (some as) := by
  have hb : children ≠ blankTree := by
    rintro rfl
    simp [blank] at h
  unfold readContents?
  rw [if_neg hb, h]
  simp [hne]

theorem readParagraph?_tag (className : String) (p : Paragraph) :
    readParagraph? (Element.p.tag className) (if p.hasContent then p.runs.foldr runTree .nil else blankTree) =
      some (shownParagraph p) := by
  have hname : (Element.p.tag className).name = "p" := rfl
  rw [readParagraph?, if_pos hname]
  unfold shownParagraph
  cases hp : p.hasContent with
  | false => rfl
  | true =>
    have hne : marksOf p ≠ [] := by simp [marksOf_eq_nil_iff, hp]
    exact readContents?_of_ne_nil rfl (readMarks?_runs p.runs) hne

theorem readCell?_tag (c : Cell) :
    readCell? (Element.td.tag o.tableCellClass) (if c.paragraphs.isEmpty then blankTree
      else c.paragraphs.foldr (paragraphTree o.compactParagraphClass) .nil) = some (shownCell c) := by
  have hname : (Element.td.tag o.tableCellClass).name = "td" := rfl
  rw [readCell?, if_pos hname]
  unfold shownCell
  cases hc : c.paragraphs with
  | nil => rfl
  | cons p ps =>
    refine readContents?_of_ne_nil rfl (readElements?_foldr fun p _ => ?_) (by simp)
    exact readElements?_element (readParagraph?_tag o.compactParagraphClass p)

theorem readRow?_cells (r : Row) :
    readRow? readCell? (Element.tr.tag "") (r.cells.foldr (cellTree o) .nil) = some (r.cells.map shownCell) := by
  rw [readRow?_tr]
  exact readElements?_foldr fun c _ => readElements?_element (readCell?_tag o c)

theorem readBody?_rows (t : Table) :
    readBody? readCell? (.element (Element.tbody.tag "") (t.rows.foldr (cellsTree o) .nil) .nil) =
      some (t.rows.map fun row => row.cells.map shownCell) := by
  rw [readBody?_tbody]
  exact readElements?_foldr fun r _ => readElements?_element (readRow?_cells o r)

/-- **A block is read as it is shown.** -/
theorem readElements?_blockTree {b : Block} (h : b.IsFilled) (f : Forest) :
    readElements? readBlock? (blockTree o b f) = (readElements? readBlock? f).map (shown b :: ·) := by
  cases b with
  | paragraph p =>
    have hname : (Element.p.tag o.paragraphClass).name ≠ "table" := by simp [Element.tag, Element.name]
    refine readElements?_element ?_ f
    rw [readBlock?, if_neg hname, readParagraph?_tag]
    rfl
  | table t =>
    have hname : (Element.table.tag o.tableClass).name = "table" := rfl
    rw [blockTree, tableTree, h.isEmpty_eq, if_neg Bool.false_ne_true]
    refine readElements?_element ?_ f
    rw [readBlock?, if_pos hname, readBody?_rows]
    rfl

theorem readFragment?_documentTree {d : Document} (h : ∀ b ∈ d.blocks, b.IsFilled) (hd : d.isEmpty = false) :
    readFragment? (documentTree o d .nil) = some (d.blocks.map shown) := by
  rw [documentTree, hd, if_neg Bool.false_ne_true]
  exact readElements?_foldr fun b hb => readElements?_blockTree o (h b hb)

/-! ## No other markup and nothing empty -/

/-- The tags of the blocks of a document: each has its class, or none, and no other attribute, but for the style that
underlines. -/
def blockTags : List Label :=
  [("p", classValues o.paragraphClass), ("p", classValues o.compactParagraphClass), ("strong", []), ("em", []),
    ("span", [("style", "text-decoration: underline;")]), ("br", []), ("table", classValues o.tableClass), ("tbody", []),
    ("tr", []), ("td", classValues o.tableCellClass)]

/-- Trees that are drawn from a list of tags, with no element that is empty. -/
structure IsDrawn (listed : List Label) (f : Forest) : Prop where
  tagsAmong : TagsAmong listed f
  filled : f.Every fun _ children => children ≠ .nil

namespace IsDrawn

variable {listed : List Label} {tag : Tag} {children rest : Forest}

theorem nil : IsDrawn listed .nil := ⟨.nil, trivial⟩

theorem element (ht : labelOf tag ∈ listed) (hne : children ≠ .nil) (hc : IsDrawn listed children)
    (hr : IsDrawn listed rest) : IsDrawn listed (.element tag children rest) :=
  ⟨.element ht hc.tagsAmong hr.tagsAmong, hne, hc.filled, hr.filled⟩

theorem empty (ht : labelOf tag ∈ listed) (hr : IsDrawn listed rest) : IsDrawn listed (.empty tag rest) :=
  ⟨.empty ht hr.tagsAmong, hr.filled⟩

theorem blank : IsDrawn listed blankTree where
  tagsAmong := fun _ h => nomatch h
  filled := trivial

theorem withText (hr : IsDrawn listed rest) (s : String) : IsDrawn listed (rest.withText s) where
  tagsAmong := hr.tagsAmong.withText s
  filled := by
    rw [Forest.every_withText]
    exact hr.filled

end IsDrawn

/-- Puts something before other trees, and it is drawn from the list if they are. -/
structure Draws (listed : List Label) (before : Forest → Forest) : Prop where
  ne_nil : ∀ f, before f ≠ .nil
  isDrawn : ∀ f, IsDrawn listed f → IsDrawn listed (before f)

namespace Draws

variable {listed : List Label} {tag : Tag} {before : Forest → Forest}

theorem element {children : Forest} (ht : labelOf tag ∈ listed) (hne : children ≠ .nil) (hc : IsDrawn listed children) :
    Draws listed (.element tag children) where
  ne_nil := by simp
  isDrawn := fun _ hf => .element ht hne hc hf

/-- Things side by side in an element, at least one. -/
theorem elements {α : Type} {before : α → Forest → Forest} {xs : List α} (ht : labelOf tag ∈ listed)
    (h : ∀ x ∈ xs, Draws listed (before x)) (hne : xs ≠ []) : Draws listed (.element tag (xs.foldr before .nil)) := by
  refine element ht ?_ (List.foldrRecOn _ _ .nil fun f hf x hx => (h x hx).isDrawn f hf)
  cases xs with
  | nil => exact absurd rfl hne
  | cons x xs => exact (h x List.mem_cons_self).ne_nil _

theorem text {s : String} (h : s ≠ "") : Draws listed (Forest.withText s) where
  ne_nil := by
    intro f hf
    have hdata : s ++ f.data = "" := by
      rw [← Forest.data_withText, hf]
      rfl
    exact h (String.append_eq_empty_iff.1 hdata).1
  isDrawn := fun _ hf => hf.withText s

theorem within (h : Draws listed before) (tag : Tag) (ht : labelOf tag ∈ listed) (applies : Bool) :
    Draws listed (within applies tag before) := by
  cases applies with
  | true => exact element ht (h.ne_nil .nil) (h.isDrawn .nil .nil)
  | false => exact h

end Draws

theorem isDrawn_runTree (r : Run) (f : Forest) (hf : IsDrawn (blockTags o) f) : IsDrawn (blockTags o) (runTree r f) := by
  have hbreak : IsDrawn (blockTags o) (breakTree r f) := by
    unfold breakTree
    cases r.lineBreak with
    | true => exact hf.empty (by simp [blockTags, labelOf, breakTag])
    | false => exact hf
  unfold runTree
  by_cases h : r.text = ""
  · rwa [if_pos h]
  · rw [if_neg h]
    have hstyle : labelOf underlineTag = ("span", [("style", "text-decoration: underline;")]) := by decide
    have htext : Draws (blockTags o) (Forest.withText r.text) := .text h
    have hunderline := htext.within underlineTag (by simp [blockTags, hstyle]) r.underline
    have hitalic := hunderline.within (Element.em.tag "") (by simp [blockTags, Element.name]) r.italic
    have hbold := hitalic.within (Element.strong.tag "") (by simp [blockTags, Element.name]) r.bold
    exact hbold.isDrawn _ hbreak

theorem draws_paragraphTree {className : String} (ht : labelOf (Element.p.tag className) ∈ blockTags o) (p : Paragraph) :
    Draws (blockTags o) (paragraphTree className p) := by
  refine Draws.element ht ?_ ?_
  · -- an element without contents would not be read as a paragraph
    intro hn
    have hread := readParagraph?_tag className p
    rw [hn] at hread
    cases hread
  · cases p.hasContent with
    | true => exact List.foldrRecOn _ _ .nil fun f hf r _ => isDrawn_runTree o r f hf
    | false => exact .blank

theorem draws_cellTree (c : Cell) : Draws (blockTags o) (cellTree o c) := by
  have ht : labelOf (Element.td.tag o.tableCellClass) ∈ blockTags o := by simp [blockTags, Element.name]
  have hp : labelOf (Element.p.tag o.compactParagraphClass) ∈ blockTags o := by simp [blockTags, Element.name]
  unfold cellTree
  cases hc : c.paragraphs with
  | nil => exact .element ht (by simp [blankTree]) .blank
  | cons p ps => exact .elements ht (fun p _ => draws_paragraphTree o hp p) (List.cons_ne_nil p ps)

theorem draws_tableTree {t : Table} (h : t.IsFilled) : Draws (blockTags o) (tableTree o t) := by
  have hrows : Draws (blockTags o) (.element (Element.tbody.tag "") (t.rows.foldr (cellsTree o) .nil)) := by
    refine .elements (by simp [blockTags, Element.name]) (fun r hr => ?_) h.rows_ne
    exact .elements (by simp [blockTags, Element.name]) (fun c _ => draws_cellTree o c) (h.cells_ne r hr)
  unfold tableTree
  rw [h.isEmpty_eq]
  exact .element (by simp [blockTags, Element.name]) (hrows.ne_nil .nil) (hrows.isDrawn .nil .nil)

theorem draws_blockTree {b : Block} (h : b.IsFilled) : Draws (blockTags o) (blockTree o b) := by
  cases b with
  | paragraph p => exact draws_paragraphTree o (by simp [blockTags, Element.name]) p
  | table t => exact draws_tableTree o h

theorem isDrawn_documentTree {d : Document} (h : ∀ b ∈ d.blocks, b.IsFilled) (hd : d.isEmpty = false) :
    IsDrawn (blockTags o) (documentTree o d .nil) := by
  rw [documentTree, hd, if_neg Bool.false_ne_true]
  exact List.foldrRecOn _ _ .nil fun f hf b hb => (draws_blockTree o (h b hb)).isDrawn f hf

/-! ## The fragment -/

theorem read_placeholderTree :
    TagsAmong [("p", classValues o.placeholderClass)] (placeholderTree o .nil) ∧
      readElements? (Labelled.read? "p") (placeholderTree o .nil) =
        some [⟨classValue? o.placeholderClass, o.emptyDocumentText⟩] := by
  constructor
  · exact .element (by simp [Element.name]) (TagsAmong.nil.withText o.emptyDocumentText) .nil
  · exact readElements?_element (read?_withText .p o.placeholderClass o.emptyDocumentText) .nil

/-- One text spells one forest, and what is read from it is read from both documents. -/
theorem map_shown_eq_of_toHtml_eq {d d' : Document} (h : ∀ b ∈ d.blocks, b.IsFilled) (h' : ∀ b ∈ d'.blocks, b.IsFilled)
    (hd : d.isEmpty = false) (hd' : d'.isEmpty = false) (same : d.toHtml o = d'.toHtml o) :
    d.blocks.map shown = d'.blocks.map shown := by
  have hspells := spells_toHtml o h
  rw [same] at hspells
  have htree : documentTree o d .nil = documentTree o d' .nil := hspells.unique (spells_toHtml o h')
  have hread := readFragment?_documentTree o h hd
  rw [htree, readFragment?_documentTree o h' hd'] at hread
  exact (Option.some.inj hread).symm

/-- **The fragment of a document says what the document shows.**  It is a sequence of elements with the tags of the
options.  Without blocks it is the placeholder; with blocks no element of it is empty, and it is read as the blocks are
shown, so that two documents with the same fragment have the same contents. -/
theorem toHtml_shows {text : String} {d : Document} (read : Document.ofText text = .ok d) (o : Options) :
    d.toHtml o ≠ "" ∧
      (∃ forest, Spells (d.toHtml o) forest ∧
        (d.isEmpty = true → TagsAmong [("p", classValues o.placeholderClass)] forest ∧
          readElements? (Labelled.read? "p") forest = some [⟨classValue? o.placeholderClass, o.emptyDocumentText⟩]) ∧
        (d.isEmpty = false → IsDrawn (blockTags o) forest ∧ readFragment? forest = some (d.blocks.map shown))) ∧
      ∀ text' d', Document.ofText text' = .ok d' → d.isEmpty = false → d'.isEmpty = false →
        d.toHtml o = d'.toHtml o → d.blocks.map content = d'.blocks.map content := by
  have filled := Word.isFilled_of_ofText read
  refine ⟨?_, ⟨documentTree o d .nil, spells_toHtml o filled, fun hd => ?_, fun hd => ?_⟩, ?_⟩
  · intro hn
    obtain ⟨cs, hlt⟩ := toList_toHtml o filled
    rw [hn] at hlt
    cases hlt
  · rw [documentTree, if_pos hd]
    exact read_placeholderTree o
  · exact ⟨isDrawn_documentTree o filled hd, readFragment?_documentTree o filled hd⟩
  · intro text' d' read' hd hd' same
    have filled' := Word.isFilled_of_ofText read'
    exact map_content_of_map_shown (map_shown_eq_of_toHtml_eq o filled filled' hd hd' same)

/-- A text that looks like a blank, and a cell that is one. -/
def blankLikeText : String := "<d><body><p><r><t>&amp;nbsp;</t><br/></r></p><tbl><tr><tc/></tr></tbl></body></d>"

def blankLikeDocument : Document :=
  ⟨[.paragraph ⟨[{ text := "&nbsp;", lineBreak := true }]⟩, .table ⟨[⟨[{}]⟩]⟩]⟩

/-- The same text cut into two runs. -/
def twoRunsText : String :=
  "<d><body><p><r><t>&amp;nb</t></r><r><t>sp;</t><br/></r></p><tbl><tr><tc/></tr></tbl></body></d>"

def twoRunsDocument : Document :=
  ⟨[.paragraph ⟨[{ text := "&nb" }, { text := "sp;", lineBreak := true }]⟩, .table ⟨[⟨[{}]⟩]⟩]⟩

theorem toHtml_shows_twoRunsText :
    Document.ofText blankLikeText = .ok blankLikeDocument ∧ Document.ofText twoRunsText = .ok twoRunsDocument ∧
      blankLikeDocument.toHtml = twoRunsDocument.toHtml ∧
      blankLikeDocument.blocks.map content = twoRunsDocument.blocks.map content ∧
      ∃ forest, Spells blankLikeDocument.toHtml forest ∧ readFragment? forest =
        some [.paragraph (some ("&nbsp;".toList.map (.char · {}) ++ [.lineBreak])), .table [[none]]] := by
  have read : Document.ofText blankLikeText = .ok blankLikeDocument := by decide +kernel
  have read' : Document.ofText twoRunsText = .ok twoRunsDocument := by decide +kernel
  have same : blankLikeDocument.toHtml = twoRunsDocument.toHtml := by decide +kernel
  obtain ⟨-, ⟨forest, spelt, -, reads⟩, unique⟩ := toHtml_shows read {}
  exact ⟨read, read', same, unique _ _ read' rfl rfl same, forest, spelt, (reads rfl).2⟩

end OfficePreview.Html
