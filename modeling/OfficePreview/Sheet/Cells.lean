import OfficePreview.Report
import OfficePreview.Sheet.SharedStrings
import OfficePreview.Sheet.Warning
import OfficePreview.Text.Blank
/-!
# Cells — reading the grid of a sheet

Cells are placed by their references. A cell without one follows the last cell of its row that has a place; a row without
a number follows the row before it. A later cell at the same place replaces an earlier one.

A cell gives the text of its first value or, for a text written in place, that of its pieces without pronunciation. A
shared text is given by its number in the table. A cell whose reference cannot be read and a cell that would take the grid
beyond its area are left out with a warning; a number without an entry gives the empty text with a warning.
-/
namespace OfficePreview.Sheet

open Xml (Event Tag)

/-- Where the text of a cell is found. -/
inductive Source
  | shared
  | inPlace
  | value
deriving DecidableEq, Repr

def Source.ofType : Option String → Source
  | some type => if type = "s" then .shared else if type = "inlineStr" then .inPlace else .value
  | none => .value

/-- A cell being read: its place, the value read so far and the text written in place so far. -/
structure OpenCell where
  position : Option Position
  source : Source
  value : Option String := none
  inPlace : String := ""
deriving DecidableEq, Repr

/-- The number that a value gives of a shared text. The number is converted to a word of 64 bits, and this conversion takes
no more digits than the greatest word has, 20, leading zeros included, while that to the 32 bits of a row takes any count.
That a number of 20 digits is too great for the word does not show, since no table has as many entries. -/
def sharedIndex? (value : String) : Option Nat :=
  let digits := Text.trim Text.isBlank value.toList
  if digits.length ≤ 20 then Text.number? 10 digits else none

/-- The text that a cell shows, with a warning if its number stands for no shared text. -/
def OpenCell.display (shared : SharedStrings) (c : OpenCell) : String × List Warning :=
  match c.source with
  | .inPlace => (c.inPlace, [])
  | .value => (c.value.getD "", [])
  | .shared =>
    let raw := c.value.getD ""
    match (sharedIndex? raw).bind shared.get? with
    | some text => (text, [])
    | none => ("", [.noSharedString raw])

/-- A grid being read: the grid so far, the row that was started last, the column after the last cell placed in it, the
cell that is open and what is open in it, and the warnings, the last one first. -/
structure GridBuilder where
  grid : Grid := {}
  row : Option Nat := none
  nextColumn : Nat := 0
  cell : Option OpenCell := none
  inValue : Bool := false
  inText : Bool := false
  phonetic : Nat := 0
  warnings : List Warning := []
deriving DecidableEq, Repr

namespace GridBuilder

def startRow (b : GridBuilder) (tag : Tag) : GridBuilder :=
  let following := match b.row with
    | some row => row + 1
    | none => 0
  let index := ((tag.attribute? "r").bind fun r => rowOfDigits? r.toList).getD following
  { b with
    grid := if b.grid.fits (index + 1) 0 then b.grid.ensureRows (index + 1) else b.grid
    row := some index
    nextColumn := 0 }

/-- The place of a cell, with a warning if its reference cannot be read. -/
def locate (b : GridBuilder) (part : String) (tag : Tag) : Option Position × List Warning :=
  match tag.attribute? "r" with
  | none => (some { row := b.row.getD 0, column := b.nextColumn }, [])
  | some reference =>
    match Position.ofReference? reference with
    | some position => (some position, [])
    | none => (none, [.badReference part reference])

def place (b : GridBuilder) (shared : SharedStrings) (c : OpenCell) : GridBuilder :=
  match c.position with
  | none => b
  | some position =>
    if b.grid.fits (position.row + 1) (position.column + 1) then
      let (text, warnings) := c.display shared
      { b with grid := b.grid.set position.row position.column text, warnings := warnings ++ b.warnings }
    else { b with warnings := .beyondArea position :: b.warnings }

/-- After the tag of a cell; `opens` tells a start tag from a self-closing one. -/
def startCell (b : GridBuilder) (part : String) (shared : SharedStrings) (tag : Tag) (opens : Bool) : GridBuilder :=
  let (position, warnings) := b.locate part tag
  let cell : OpenCell := { position, source := .ofType (tag.attribute? "t") }
  let nextColumn := match position with
    | some position => position.column + 1
    | none => b.nextColumn
  let b := { b with nextColumn, warnings := warnings ++ b.warnings }
  if opens then { b with cell := some cell } else b.place shared cell

/-- After the start tag of an element inside the cell that is open. -/
def startInside (b : GridBuilder) (cell : OpenCell) (tag : Tag) : GridBuilder :=
  if tag.isLocal "rPh" then { b with phonetic := b.phonetic + 1 }
  else if tag.isLocal "v" ∧ cell.value.isNone then { b with inValue := true }
  else if tag.isLocal "t" ∧ b.phonetic = 0 then { b with inText := true }
  else b

def tag (b : GridBuilder) (part : String) (shared : SharedStrings) (tag : Tag) (opens : Bool) : GridBuilder :=
  if tag.isLocal "row" then b.startRow tag
  else if tag.isLocal "c" then b.startCell part shared tag opens
  else
    match b.cell with
    | some cell => if opens then b.startInside cell tag else b
    | none => b

def close (b : GridBuilder) (shared : SharedStrings) (name : String) : GridBuilder :=
  let base := Xml.localName name
  if base = "c" then
    let cell := b.cell
    let b := { b with cell := none, inValue := false, inText := false, phonetic := 0 }
    match cell with
    | some cell => b.place shared cell
    | none => b
  else if base = "v" ∧ b.inValue then
    { b with inValue := false, cell := b.cell.map fun c => { c with value := some (c.value.getD "") } }
  else if base = "t" then { b with inText := false }
  else if base = "rPh" then { b with phonetic := b.phonetic - 1 }
  else b

def data (b : GridBuilder) (data : String) : GridBuilder :=
  match b.cell with
  | none => b
  | some c =>
    if b.inValue then { b with cell := some { c with value := some (c.value.getD "" ++ data) } }
    else if b.inText then { b with cell := some { c with inPlace := c.inPlace ++ data } }
    else b

def step (part : String) (shared : SharedStrings) (b : GridBuilder) (e : Event) (_depth : Nat) : GridBuilder :=
  match e with
  | .start tag => b.tag part shared tag true
  | .empty tag => b.tag part shared tag false
  | .close name => b.close shared name
  | e =>
    match e.data? with
    | some text => b.data text
    | none => b

end GridBuilder

/-- Reads the grid of the sheet in `part`. The warnings up to a fault are kept. -/
def Grid.ofText (part : String) (shared : SharedStrings) (text : String) : Report Warning Xml.Fault Grid :=
  let (b, outcome) := Xml.readAll (GridBuilder.step part shared) (·.grid.ensureNotEmpty) {} text
  ⟨outcome, b.warnings.reverse⟩

end OfficePreview.Sheet
