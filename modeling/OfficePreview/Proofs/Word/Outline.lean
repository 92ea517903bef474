import OfficePreview.Proofs.Xml.Tree
import OfficePreview.Word.Body
/-!
# Outline — what a document says, read off its tree

The body is the first element of that name with a start tag, and its blocks are its own paragraphs and tables.  Each
level is read off the trees it consists of, without depths and without anything that is open: the runs of a paragraph
lie at any depth in it but not inside one another, the rows of a table and the cells of a row are children of theirs, and
a cell has every paragraph inside it, those of the tables inside it among them.
-/
namespace OfficePreview.Word

open Xml (Tag Forest)

/-! ## Runs -/

def isBreak (tag : Tag) : Bool := tag.isWord "br" || tag.isWord "cr"

/-- Trees without those of them that hold the properties of a run. -/
def withoutProperties : Forest → Forest
  | .nil => .nil
  | .element tag children rest =>
    if tag.isWord "rPr" then withoutProperties rest else .element tag children (withoutProperties rest)
  | .empty tag rest => if tag.isWord "rPr" then withoutProperties rest else .empty tag (withoutProperties rest)
  | .leaf l rest => .leaf l (withoutProperties rest)

def textOf : Forest → String
  | .nil => ""
  | .element tag children rest => (if tag.isWord "t" then children.data else textOf children) ++ textOf rest
  | .empty _ rest => textOf rest
  | .leaf _ rest => textOf rest

def hasBreak (forest : Forest) : Bool := forest.tags.any isBreak

/-- The properties of a run: the children of those of its trees that hold properties. -/
def propertiesOf : Forest → List Tag
  | .nil => []
  | .element tag children rest => (if tag.isWord "rPr" then children.rootTags else []) ++ propertiesOf rest
  | .empty _ rest => propertiesOf rest
  | .leaf _ rest => propertiesOf rest

/-- The value that the last of the properties with this name gives to a format, which is off without one. -/
def formatOf (base : String) (value : Tag → Bool) (properties : List Tag) : Bool :=
  ((properties.filter (·.isWord base)).getLast?.map value).getD false

def Run.ofForest (children : Forest) : Run where
  text := textOf (withoutProperties children)
  bold := formatOf "b" isOn (propertiesOf children)
  italic := formatOf "i" isOn (propertiesOf children)
  underline := formatOf "u" isUnderlined (propertiesOf children)
  lineBreak := hasBreak (withoutProperties children)

/-! ## Paragraphs, cells and rows -/

/-- The runs at any depth that are not inside a run. -/
def runsOf : Forest → List Run
  | .nil => []
  | .element tag children rest => (if tag.isWord "r" then [Run.ofForest children] else runsOf children) ++ runsOf rest
  | .empty _ rest => runsOf rest
  | .leaf _ rest => runsOf rest

/-- The paragraphs at any depth that are not inside a paragraph. -/
def paragraphsOf : Forest → List Paragraph
  | .nil => []
  | .element tag children rest =>
    (if tag.isWord "p" then [⟨runsOf children⟩] else paragraphsOf children) ++ paragraphsOf rest
  | .empty tag rest => (if tag.isWord "p" then [{}] else []) ++ paragraphsOf rest
  | .leaf _ rest => paragraphsOf rest

/-- The cells among the trees of a row. -/
def cellsOf : Forest → List Cell
  | .nil => []
  | .element tag children rest => (if tag.isWord "tc" then [⟨paragraphsOf children⟩] else []) ++ cellsOf rest
  | .empty tag rest => (if tag.isWord "tc" then [{}] else []) ++ cellsOf rest
  | .leaf _ rest => cellsOf rest

/-- The rows among the trees of a table, with or without cells. -/
def rowsOf : Forest → List Row
  | .nil => []
  | .element tag children rest => (if tag.isWord "tr" then [⟨cellsOf children⟩] else []) ++ rowsOf rest
  | .empty _ rest => rowsOf rest
  | .leaf _ rest => rowsOf rest

/-! ## Blocks and the body -/

/-- The blocks among the trees of a body; a table counts if one of its rows has a cell. -/
def blocksOf : Forest → List Block
  | .nil => []
  | .element tag children rest =>
    (if tag.isWord "p" then [.paragraph ⟨runsOf children⟩]
      else if tag.isWord "tbl" ∧ (rowsOf children).any (!·.cells.isEmpty) then
        [.table ⟨(rowsOf children).filter (!·.cells.isEmpty)⟩]
      else []) ++ blocksOf rest
  | .empty tag rest => (if tag.isWord "p" then [.paragraph {}] else []) ++ blocksOf rest
  | .leaf _ rest => blocksOf rest

/-- The children of the first element in the order of the document that is a body with a start tag. -/
def bodyOf? : Forest → Option Forest
  | .nil => none
  | .element tag children rest =>
    if tag.isWord "body" then some children else (bodyOf? children).or (bodyOf? rest)
  | .empty _ rest => bodyOf? rest
  | .leaf _ rest => bodyOf? rest

/-- The document that a part says: the blocks of its body, if it has one. -/
def Document.ofForest (forest : Forest) : Document := ⟨((bodyOf? forest).map blocksOf).getD []⟩

end OfficePreview.Word
