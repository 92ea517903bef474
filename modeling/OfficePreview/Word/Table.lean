import OfficePreview.Word.Paragraph
/-!
# Table — rows of cells of paragraphs

A cell holds its own paragraphs and those of the tables inside it, in the order of the document. A row without cells is
no row.
-/
namespace OfficePreview.Word

/-- A cell of a table. -/
structure Cell where
  paragraphs : List Paragraph := []
deriving DecidableEq, Repr, Inhabited

/-- The text of a cell, one line for each paragraph. -/
def Cell.text (c : Cell) : String := String.intercalate "\n" (c.paragraphs.map Paragraph.text)

/-- A row of a table. -/
structure Row where
  cells : List Cell := []
deriving DecidableEq, Repr, Inhabited

/-- The text of a row, its cells set apart by tabs. -/
def Row.text (r : Row) : String := String.intercalate "\t" (r.cells.map Cell.text)

/-- A table. -/
structure Table where
  rows : List Row := []
deriving DecidableEq, Repr, Inhabited

namespace Table

def ofRows (rows : List Row) : Table := ⟨rows.filter fun row => !row.cells.isEmpty⟩

def rowCount (t : Table) : Nat := t.rows.length

def isEmpty (t : Table) : Bool := t.rows.isEmpty

end Table

end OfficePreview.Word
