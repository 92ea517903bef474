/-!
# Grid — a rectangle of texts

A grid has rows of equally many columns; a place that nothing was written to holds the empty text. It grows to take in
what is written. Sheets are stored densely, so a single cell far away would claim the whole rectangle up to it: the area
of the grid of a sheet is bounded, and what would go beyond the bound is left out.
-/
namespace OfficePreview.Sheet

def maxArea : Nat := 1048576

/-- Rows of texts, all of them `columns` wide. -/
structure Grid where
  rows : Array (Array String) := #[]
  columns : Nat := 0
deriving DecidableEq, Repr

namespace Grid

def rowCount (g : Grid) : Nat := g.rows.size

def isRectangular (g : Grid) : Bool := g.rows.all (·.size = g.columns)

def ensureRows (g : Grid) (count : Nat) : Grid :=
  if g.rows.size < count then
    { g with rows := g.rows ++ Array.replicate (count - g.rows.size) (Array.replicate g.columns "") }
  else g

/-- A row with at least `count` columns. -/
def widen (count : Nat) (row : Array String) : Array String := row ++ Array.replicate (count - row.size) ""

def ensureColumns (g : Grid) (count : Nat) : Grid :=
  if g.columns < count then { rows := g.rows.map (widen count), columns := count } else g

/-- Rows with a text at a place; a place outside them takes none. -/
def write (rows : Array (Array String)) (row column : Nat) (value : String) : Array (Array String) :=
  rows.modify row (·.setIfInBounds column value)

/-- The grid with a text at a place, grown to hold it. -/
def set (g : Grid) (row column : Nat) (value : String) : Grid :=
  let grown := (g.ensureColumns (column + 1)).ensureRows (row + 1)
  { grown with rows := write grown.rows row column value }

def get? (g : Grid) (row column : Nat) : Option String := g.rows[row]?.bind (·[column]?)

/-- `set` at a place given in machine words. The numbers of columns and rows to grow to are words as well, and zero comes
after the largest word. The assignment fails if the place is not there by then. -/
def set? (g : Grid) (row column : UInt64) (value : String) : Option Grid :=
  let grown := (g.ensureColumns (column + 1).toNat).ensureRows (row + 1).toNat
  if (grown.get? row.toNat column.toNat).isSome then
    some { grown with rows := write grown.rows row.toNat column.toNat value }
  else none

/-- Whether the grid, grown to the given rows and columns, keeps within the largest area. A grid without columns counts
as one column wide. -/
def fits (g : Grid) (rows columns : Nat) : Bool := max rows g.rows.size * max (max columns g.columns) 1 ≤ maxArea

/-- The grid with at least one row and one column. -/
def ensureNotEmpty (g : Grid) : Grid := (g.ensureColumns 1).ensureRows 1

/-- The places that hold a text other than the empty one, row by row. -/
def filled (g : Grid) : List (Nat × Nat × String) :=
  g.rows.toList.zipIdx.flatMap fun (row, i) =>
    row.toList.zipIdx.filterMap fun (value, j) => if value = "" then none else some (i, j, value)

end Grid

end OfficePreview.Sheet
