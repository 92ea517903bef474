import OfficePreview.Word.Table
/-!
# Document — the body of a word-processing document
-/
namespace OfficePreview.Word

/-- One block of a body. -/
inductive Block
  | paragraph (paragraph : Paragraph)
  | table (table : Table)
deriving DecidableEq, Repr

/-- The lines of text of a block: a paragraph has one, a table one for each row. -/
def Block.lines : Block → List String
  | .paragraph p => [p.text]
  | .table t => t.rows.map Row.text

/-- A body: paragraphs and tables in their order. -/
structure Document where
  blocks : List Block := []
deriving DecidableEq, Repr

namespace Document

def paragraphs (d : Document) : List Paragraph :=
  d.blocks.filterMap fun
    | .paragraph p => some p
    | .table _ => none

def tables (d : Document) : List Table :=
  d.blocks.filterMap fun
    | .table t => some t
    | .paragraph _ => none

def isEmpty (d : Document) : Bool := d.blocks.isEmpty

def text (d : Document) : String := String.intercalate "\n" (d.blocks.flatMap Block.lines)

end Document

end OfficePreview.Word
