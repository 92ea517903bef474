import OfficePreview.Proofs.Xml.Tree
import OfficePreview.Sheet.Cells
/-!
# Marks — the rows and cells that the tree of a sheet has

The rows and cells of a sheet are the elements with these names, at any depth, in the order of the document
(`landmarks`).  What a row or a cell stands for depends on those before it: a row without a number follows the last row,
and a cell without a reference follows the last cell with a place since the last row began.  So each is told from the
list of the earlier ones, the last of them first (`lastRow?`, `columnAfter`), and what comes out is a list of marks: rows
with their numbers and texts with their positions (`marksOf`).

The marks say what the grid of the sheet is: it reaches to the last row and the last column that a mark needs, and a place
shows the text that was marked there last.
-/
namespace OfficePreview.Sheet

open Xml (Tag Forest)

/-! ## The text of a cell -/

/-- The character data of the first value that has a start tag. -/
def valueOf? : Forest → Option String
  | .nil => none
  | .element tag children rest =>
    if tag.isLocal "v" then some children.data else (valueOf? children).or (valueOf? rest)
  | .empty _ rest => valueOf? rest
  | .leaf _ rest => valueOf? rest

/-- The character data of all texts that are not in a pronunciation. -/
def inPlaceOf : Forest → String
  | .nil => ""
  | .element tag children rest =>
    (if tag.isLocal "rPh" then "" else if tag.isLocal "t" then children.data else inPlaceOf children) ++ inPlaceOf rest
  | .empty _ rest => inPlaceOf rest
  | .leaf _ rest => inPlaceOf rest

/-- The text that a cell shows: the text written in place, the value or the shared text with the value as its number, as
the type of the cell says. -/
def cellText (shared : SharedStrings) (tag : Tag) (content : Forest) : String :=
  match Source.ofType (tag.attribute? "t") with
  | .inPlace => inPlaceOf content
  | .value => (valueOf? content).getD ""
  | .shared => ((sharedIndex? ((valueOf? content).getD "")).bind shared.get?).getD ""

/-! ## Rows and cells in the order of the document -/

/-- A row or a cell of a sheet. -/
inductive Landmark
  | row (tag : Tag)
  | cell (tag : Tag) (content : Forest)
deriving DecidableEq, Repr

def landmarkOf (tag : Tag) (content : Forest) : List Landmark :=
  if tag.isLocal "row" then [.row tag] else if tag.isLocal "c" then [.cell tag content] else []

/-- The rows and cells of a forest. -/
def landmarks : Forest → List Landmark
  | .nil => []
  | .element tag children rest => landmarkOf tag children ++ (landmarks children ++ landmarks rest)
  | .empty tag rest => landmarkOf tag .nil ++ landmarks rest
  | .leaf _ rest => landmarks rest

def rowNumber? (tag : Tag) : Option Nat := (tag.attribute? "r").bind fun r => rowOfDigits? r.toList

/-- The index of a row by its number or else by the index of the row before it. -/
def rowIndex (tag : Tag) (before : Option Nat) : Nat :=
  (rowNumber? tag).getD (match before with
    | some row => row + 1
    | none => 0)

def lastRow? : List Landmark → Option Nat
  | [] => none
  | .row tag :: earlier => some (rowIndex tag (lastRow? earlier))
  | .cell _ _ :: earlier => lastRow? earlier

/-- The position of a cell in front of which a row and a column are next. A reference that cannot be read gives none. -/
def position? (tag : Tag) (row column : Nat) : Option Position :=
  match tag.attribute? "r" with
  | none => some { row, column }
  | some reference => Position.ofReference? reference

/-- The column after the last cell with a position since the last row began. -/
def columnAfter : List Landmark → Nat
  | [] => 0
  | .row _ :: _ => 0
  | .cell tag _ :: earlier =>
    match position? tag ((lastRow? earlier).getD 0) (columnAfter earlier) with
    | some position => position.column + 1
    | none => columnAfter earlier

/-! ## Marks -/

/-- A row with its index or a text with its position. -/
inductive Mark
  | row (index : Nat)
  | cell (position : Position) (text : String)
deriving DecidableEq, Repr

namespace Mark

def rows : Mark → Nat
  | row index => index + 1
  | cell position _ => position.row + 1

def columns : Mark → Nat
  | row _ => 0
  | cell position _ => position.column + 1

/-- The text that a mark puts at a place. -/
def textAt? (i j : Nat) : Mark → Option String
  | row _ => none
  | cell position text => if i = position.row ∧ j = position.column then some text else none

end Mark

/-- The mark of a row or a cell behind the earlier ones. A cell without a position leaves none. -/
def markOf (shared : SharedStrings) (earlier : List Landmark) : Landmark → List Mark
  | .row tag => [.row (rowIndex tag (lastRow? earlier))]
  | .cell tag content =>
    match position? tag ((lastRow? earlier).getD 0) (columnAfter earlier) with
    | some position => [.cell position (cellText shared tag content)]
    | none => []

/-- The marks of rows and cells behind earlier ones. -/
def marksAfter (shared : SharedStrings) (earlier : List Landmark) : List Landmark → List Mark
  | [] => []
  | l :: later => markOf shared earlier l ++ marksAfter shared (l :: earlier) later

/-- **The marks of a sheet.** -/
def marksOf (shared : SharedStrings) (forest : Forest) : List Mark := marksAfter shared [] (landmarks forest)

def height (marks : List Mark) : Nat := (marks.map Mark.rows).foldr max 0

def width (marks : List Mark) : Nat := (marks.map Mark.columns).foldr max 0

/-- The text that was marked last at a place, or the empty text. -/
def lastText (marks : List Mark) (i j : Nat) : String := (marks.filterMap (Mark.textAt? i j)).getLast?.getD ""

theorem foldr_max_append (xs ys : List Nat) : (xs ++ ys).foldr max 0 = max (xs.foldr max 0) (ys.foldr max 0) := by
  induction xs with
  | nil => simp
  | cons x xs ih => rw [List.cons_append, List.foldr_cons, ih, List.foldr_cons, Nat.max_assoc]

theorem height_append (ms ns : List Mark) : height (ms ++ ns) = max (height ms) (height ns) := by
  rw [height, List.map_append, foldr_max_append, height, height]

theorem width_append (ms ns : List Mark) : width (ms ++ ns) = max (width ms) (width ns) := by
  rw [width, List.map_append, foldr_max_append, width, width]

theorem lastText_append_one (ms : List Mark) (m : Mark) (i j : Nat) :
    lastText (ms ++ [m]) i j = (m.textAt? i j).getD (lastText ms i j) := by
  cases h : m.textAt? i j <;> simp [lastText, List.filterMap_append, h]

/-! ## Sheets whose cells can be told apart -/

/-- An element is plain if, being a cell, it holds no cell and no row and, being a value or a text, it holds no
element. -/
def IsPlain (tag : Tag) (content : Forest) : Prop :=
  (tag.isLocal "c" = true → ∀ inner ∈ content.tags, inner.isLocal "c" = false ∧ inner.isLocal "row" = false) ∧
    (tag.isLocal "v" = true ∨ tag.isLocal "t" = true → content.tags = [])

instance (tag : Tag) (content : Forest) : Decidable (IsPlain tag content) := inferInstanceAs (Decidable (_ ∧ _))

end OfficePreview.Sheet
