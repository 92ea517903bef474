import OfficePreview.Proofs.Html.Pieces
/-!
# Reading — what a fragment says

A fragment is read from its trees, without looking at what wrote it.  Elements are read side by side, and a reading fails
where anything else stands among them, so that what it finds is all there is.

- A tag is read with the values of all its attributes, and trees are held against a list of such tags (`TagsAmong`).
- A sheet is one table: its caption if there is one, and one body with rows of cells (`SheetMarkup.ofForest?`).
- A document is a sequence of paragraphs and tables (`readFragment?`).  A paragraph is read as its characters, each with
  the formats of the elements around it, and its line breaks.  A paragraph and a cell have contents or a blank in place
  of them, never both and never neither.
-/
namespace OfficePreview.Html

open Xml (Tag Forest)

/-! ## Tags -/

/-- A tag as it is read: its name, and the keys of its attributes with the values that they stand for. -/
abbrev Label := String × List (String × String)

def labelOf (tag : Tag) : Label := (tag.name, tag.attributes.map fun a => (a.key, a.value))

def classValues (className : String) : List (String × String) :=
  if className = "" then [] else [("class", className)]

@[simp] theorem classValues_empty : classValues "" = [] := rfl

@[simp] theorem labelOf_tag (e : Element) (className : String) :
    labelOf (e.tag className) = (e.name, classValues className) := by
  unfold labelOf Element.tag classAttributes classValues
  by_cases h : className = ""
  · simp [h]
  · simp [h, Xml.value_escape]

/-- The trees hold no tags but those that are listed. -/
def TagsAmong (listed : List Label) (f : Forest) : Prop := ∀ tag ∈ f.tags, labelOf tag ∈ listed

namespace TagsAmong

variable {listed : List Label} {tag : Tag} {children rest : Forest}

theorem nil : TagsAmong listed .nil := fun _ h => nomatch h

theorem element (ht : labelOf tag ∈ listed) (hc : TagsAmong listed children) (hr : TagsAmong listed rest) :
    TagsAmong listed (.element tag children rest) := by
  intro other h
  rcases List.mem_cons.1 h with rfl | h
  · exact ht
  · rcases List.mem_append.1 h with h | h
    · exact hc other h
    · exact hr other h

theorem empty (ht : labelOf tag ∈ listed) (hr : TagsAmong listed rest) : TagsAmong listed (.empty tag rest) := by
  intro other h
  rcases List.mem_cons.1 h with rfl | h
  · exact ht
  · exact hr other h

theorem withText (hr : TagsAmong listed rest) (s : String) : TagsAmong listed (rest.withText s) := by
  intro other h
  rw [Forest.tags_withText] at h
  exact hr other h

end TagsAmong

/-! ## Elements and tables -/

/-- Elements that stand side by side with nothing else among them, each read by `read`. -/
def readElements? {α : Type} (read : Tag → Forest → Option α) : Forest → Option (List α)
  | .nil => some []
  | .element tag children rest => (read tag children).bind fun a => (readElements? read rest).map (a :: ·)
  | .empty .. => none
  | .leaf .. => none

def readRow? {α : Type} (cell : Tag → Forest → Option α) (tag : Tag) (children : Forest) : Option (List α) :=
  if tag.name = "tr" then readElements? cell children else none

/-- Reads the rows of a table that holds one body and nothing else. -/
def readBody? {α : Type} (cell : Tag → Forest → Option α) : Forest → Option (List (List α))
  | .element tag rows .nil => if tag.name = "tbody" then readElements? (readRow? cell) rows else none
  | _ => none

theorem readElements?_foldr {α β : Type} {read : Tag → Forest → Option β} {before : α → Forest → Forest}
    {value : α → β} {xs : List α}
    (h : ∀ x ∈ xs, ∀ f, readElements? read (before x f) = (readElements? read f).map (value x :: ·)) :
    readElements? read (xs.foldr before .nil) = some (xs.map value) := by
  induction xs with
  | nil => rfl
  | cons x xs ih =>
    rw [List.foldr_cons, h x List.mem_cons_self, ih fun y hy => h y (List.mem_cons_of_mem x hy)]
    rfl

theorem readElements?_element {α : Type} {read : Tag → Forest → Option α} {tag : Tag} {children : Forest} {a : α}
    (h : read tag children = some a) (f : Forest) :
    readElements? read (.element tag children f) = (readElements? read f).map (a :: ·) := by
  rw [readElements?, h]
  rfl

theorem readRow?_tr {α : Type} (cell : Tag → Forest → Option α) (children : Forest) :
    readRow? cell (Element.tr.tag "") children = readElements? cell children := rfl

theorem readBody?_tbody {α : Type} (cell : Tag → Forest → Option α) (rows : Forest) :
    readBody? cell (.element (Element.tbody.tag "") rows .nil) = readElements? (readRow? cell) rows := rfl

/-! ## Sheets -/

/-- An element that holds text and no elements: its class and its text. -/
structure Labelled where
  className : Option String
  text : String
deriving DecidableEq, Repr

def Labelled.read? (name : String) (tag : Tag) (children : Forest) : Option Labelled :=
  if tag.name = name ∧ children.tags = [] then some ⟨tag.attribute? "class", children.data⟩ else none

theorem read?_withText (e : Element) (className text : String) :
    Labelled.read? e.name (e.tag className) (Forest.withText text .nil) = some ⟨classValue? className, text⟩ := by
  have hname : (e.tag className).name = e.name := rfl
  simp [Labelled.read?, hname, e.attribute?_tag, Forest.data_withText, Forest.data, Forest.tags]

/-- What the markup of a sheet says: the class of the table, the caption, and the cells row by row. -/
structure SheetMarkup where
  className : Option String
  caption : Option Labelled
  rows : List (List Labelled)
deriving DecidableEq, Repr

namespace SheetMarkup

def readTable? (tag : Tag) (children : Forest) : Option SheetMarkup :=
  if tag.name = "table" then
    match children with
    | .element first inside (.element next rows rest) =>
      (Labelled.read? "caption" first inside).bind fun caption =>
        (readBody? (Labelled.read? "td") (.element next rows rest)).map fun rows =>
          ⟨tag.attribute? "class", some caption, rows⟩
    | body => (readBody? (Labelled.read? "td") body).map fun rows => ⟨tag.attribute? "class", none, rows⟩
  else none

/-- Reads a part that is one table of a sheet, with nothing before or after it. -/
def ofForest? : Forest → Option SheetMarkup
  | .element tag children .nil => readTable? tag children
  | _ => none

end SheetMarkup

/-! ## Documents -/

/-- The formats that a character is shown in. -/
structure Formats where
  bold : Bool := false
  italic : Bool := false
  underline : Bool := false
deriving DecidableEq, Repr

/-- What a paragraph shows at one place. -/
inductive Mark
  | char (c : Char) (formats : Formats)
  | lineBreak
deriving DecidableEq, Repr

/-- The formats inside an element, given those around it. -/
def Formats.within? (formats : Formats) (tag : Tag) : Option Formats :=
  if tag.name = "strong" then some { formats with bold := true }
  else if tag.name = "em" then some { formats with italic := true }
  else if tag.name = "span" ∧ tag.attribute? "style" = some "text-decoration: underline;" then
    some { formats with underline := true }
  else none

/-- Reads text with formats and line breaks.  A reference that stands for no character is none of these. -/
def readMarks? (formats : Formats) : Forest → Option (List Mark)
  | .nil => some []
  | .element tag children rest =>
    (formats.within? tag).bind fun inner =>
      (readMarks? inner children).bind fun marks => (readMarks? formats rest).map (marks ++ ·)
  | .empty tag rest => if tag.name = "br" then (readMarks? formats rest).map (.lineBreak :: ·) else none
  | .leaf l rest =>
    l.event.data?.bind fun data => (readMarks? formats rest).map (data.toList.map (.char · formats) ++ ·)

def blankTree : Forest := .leaf (.reference "nbsp") .nil

/-- Reads contents that are not empty, or none where a blank stands in their place. -/
def readContents? {α : Type} (read : Forest → Option (List α)) (children : Forest) : Option (Option (List α)) :=
  if children = blankTree then some none
  else (read children).bind fun as => if as.isEmpty then none else some (some as)

def readParagraph? (tag : Tag) (children : Forest) : Option (Option (List Mark)) :=
  if tag.name = "p" then readContents? (readMarks? {}) children else none

def readCell? (tag : Tag) (children : Forest) : Option (Option (List (Option (List Mark)))) :=
  if tag.name = "td" then readContents? (readElements? readParagraph?) children else none

/-- A block by what is known of its paragraph or of the cells of its rows. -/
inductive Outline (π κ : Type)
  | paragraph (paragraph : π)
  | table (rows : List (List κ))
deriving DecidableEq, Repr

def Outline.map {π π' κ κ' : Type} (f : π → π') (g : κ → κ') : Outline π κ → Outline π' κ'
  | .paragraph p => .paragraph (f p)
  | .table rows => .table (rows.map (·.map g))

/-- A block as it is read: a paragraph has its marks or a blank, a cell its paragraphs or a blank. -/
abbrev Shown := Outline (Option (List Mark)) (Option (List (Option (List Mark))))

def readBlock? (tag : Tag) (children : Forest) : Option Shown :=
  if tag.name = "table" then (readBody? readCell? children).map .table
  else (readParagraph? tag children).map .paragraph

def readFragment? : Forest → Option (List Shown) := readElements? readBlock?

end OfficePreview.Html
