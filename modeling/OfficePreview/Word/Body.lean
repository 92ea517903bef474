import OfficePreview.Word.Document
import OfficePreview.Xml.Reader
/-!
# Body — reading the body of a document

The body is the first element of that name with a start tag. Its paragraphs and tables are its blocks; whatever else lies
directly in it is passed over with all it holds.

A paragraph, a table and the body are each read by a loop that starts after their start tag and returns at their closing
tag. Depths tell a loop which closing tag is its own:

- a paragraph collects runs at any depth, and a run collects text, breaks and, from its own properties, formats;
- a table takes rows one level below itself and cells one level below those, and gives a cell every paragraph inside it.

The body leaves its paragraphs and tables to their loops, and a table its paragraphs. A loop that comes to the end of the
part returns what it has.
-/
namespace OfficePreview.Word

open Xml (Event Fault Progress Reader Tag)

/-! ## Runs -/

def formatValue? (tag : Tag) : Option String := (tag.attribute? "w:val").or (tag.attribute? "val")

/-- Whether an element turns its format on: it does unless its value says that it is off. -/
def isOn (tag : Tag) : Bool :=
  match formatValue? tag with
  | some value => value ≠ "0" && value ≠ "false" && value ≠ "off"
  | none => true

/-- Whether an element turns underlining on: every style of line does, the style `none` does not. -/
def isUnderlined (tag : Tag) : Bool := formatValue? tag ≠ some "none"

def Run.format (r : Run) (tag : Tag) : Run :=
  if tag.isWord "b" then { r with bold := isOn tag }
  else if tag.isWord "i" then { r with italic := isOn tag }
  else if tag.isWord "u" then { r with underline := isUnderlined tag }
  else r

/-- A run being read: its depth, and the depths of the properties and of the text that are open in it. -/
structure RunBuilder where
  run : Run := {}
  depth : Nat
  properties : Option Nat := none
  text : Option Nat := none
deriving DecidableEq, Repr

namespace RunBuilder

/-- After the tag of an element inside the run; `opens` tells a start tag from a self-closing one. -/
def tag (b : RunBuilder) (tag : Tag) (opens : Bool) (depth : Nat) : RunBuilder :=
  match b.properties with
  | some outer => if depth = outer + 1 then { b with run := b.run.format tag } else b
  | none =>
    if depth = b.depth + 1 ∧ tag.isWord "rPr" then
      if opens then { b with properties := some depth } else b
    else if tag.isWord "t" then
      if opens ∧ b.text.isNone then { b with text := some depth } else b
    else if tag.isWord "br" ∨ tag.isWord "cr" then { b with run := { b.run with lineBreak := true } }
    else b

def data (b : RunBuilder) (e : Event) : RunBuilder :=
  match b.text, e.data? with
  | some _, some data => { b with run := { b.run with text := b.run.text ++ data } }
  | _, _ => b

/-- After a closing tag inside the run, or that of the run itself. -/
def close (b : RunBuilder) (depth : Nat) : Progress RunBuilder Run :=
  if b.text = some depth then .more { b with text := none }
  else if b.properties = some depth then .more { b with properties := none }
  else if depth = b.depth then .done b.run
  else .more b

end RunBuilder

/-! ## Paragraphs -/

/-- A paragraph being read: its depth, the runs read and the run that is open. -/
structure ParagraphBuilder where
  depth : Nat
  runs : Array Run := #[]
  current : Option RunBuilder := none
deriving DecidableEq, Repr

namespace ParagraphBuilder

/-- After the tag of an element inside the paragraph. -/
def tag (b : ParagraphBuilder) (tag : Tag) (opens : Bool) (depth : Nat) : ParagraphBuilder :=
  match b.current with
  | some run => { b with current := some (run.tag tag opens depth) }
  | none => if opens ∧ tag.isWord "r" then { b with current := some { depth } } else b

def step (b : ParagraphBuilder) (e : Event) (depth : Nat) : Progress ParagraphBuilder Paragraph :=
  match e with
  | .start tag => .more (b.tag tag true depth)
  | .empty tag => .more (b.tag tag false depth)
  | .close _ =>
    if depth = b.depth then .done ⟨b.runs.toList⟩
    else
      match b.current with
      | none => .more b
      | some run =>
        match run.close depth with
        | .more run => .more { b with current := some run }
        | .done run => .more { b with runs := b.runs.push run, current := none }
  | e => .more { b with current := b.current.map (·.data e) }

end ParagraphBuilder

/-- Reads a paragraph whose start tag, at the given depth, was the last event. -/
def readParagraph (depth : Nat) (r : Reader) : Except Fault (Paragraph × r.After) :=
  (Reader.loop (Reader.single ParagraphBuilder.step) (fun b => ⟨b.runs.toList⟩) { depth } r.here).2

/-! ## Tables -/

/-- A table being read: its depth, the rows read, and the cells of the row and the paragraphs of the cell that are open. -/
structure TableBuilder where
  depth : Nat
  rows : Array Row := #[]
  row : Option (Array Cell) := none
  cell : Option (Array Paragraph) := none
deriving DecidableEq, Repr

namespace TableBuilder

/-- With one more paragraph in the cell that is open; a paragraph outside of cells is not kept. -/
def addParagraph (b : TableBuilder) (p : Paragraph) : TableBuilder := { b with cell := b.cell.map (·.push p) }

def addCell (b : TableBuilder) (c : Cell) : TableBuilder := { b with row := b.row.map (·.push c) }

def empty (b : TableBuilder) (tag : Tag) (depth : Nat) : TableBuilder :=
  if depth = b.depth + 2 ∧ tag.isWord "tc" then b.addCell {}
  else if tag.isWord "p" then b.addParagraph {}
  else b

def close (b : TableBuilder) (depth : Nat) : Progress TableBuilder Table :=
  if depth = b.depth then .done (.ofRows b.rows.toList)
  else if depth = b.depth + 1 then
    match b.row with
    | some cells => .more { b with rows := b.rows.push ⟨cells.toList⟩, row := none }
    | none => .more b
  else if depth = b.depth + 2 then
    match b.cell with
    | some paragraphs => .more ({ b with cell := none }.addCell ⟨paragraphs.toList⟩)
    | none => .more b
  else .more b

/-- The start tag of a paragraph, wherever it lies in the table, hands over to the loop of the paragraph. -/
def turn (b : TableBuilder) (e : Event) (r : Reader) : Except Fault (Progress TableBuilder Table × r.After) :=
  match e with
  | .start tag =>
    if r.depth = b.depth + 1 ∧ tag.isWord "tr" then .ok (.more { b with row := some #[] }, r.here)
    else if r.depth = b.depth + 2 ∧ b.row.isSome ∧ tag.isWord "tc" then .ok (.more { b with cell := some #[] }, r.here)
    else if tag.isWord "p" then (readParagraph r.depth r).map (Prod.map (.more <| b.addParagraph ·) id)
    else .ok (.more b, r.here)
  | .empty tag => .ok (.more (b.empty tag r.depth), r.here)
  | .close _ => .ok (b.close r.depth, r.here)
  | _ => .ok (.more b, r.here)

end TableBuilder

/-- Reads a table whose start tag, at the given depth, was the last event. -/
def readTable (depth : Nat) (r : Reader) : Except Fault (Table × r.After) :=
  (Reader.loop TableBuilder.turn (fun b => .ofRows b.rows.toList) { depth } r.here).2

/-! ## The body -/

/-- The blocks with one more table, unless the table is empty. -/
def addTable (blocks : Array Block) (t : Table) : Array Block := if t.isEmpty then blocks else blocks.push (.table t)

/-- What the loop of a body at the given depth does with an event. -/
def bodyTurn (depth : Nat) (blocks : Array Block) (e : Event) (r : Reader) :
    Except Fault (Progress (Array Block) (Array Block) × r.After) :=
  match e with
  | .start tag =>
    if r.depth = depth + 1 ∧ tag.isWord "p" then
      (readParagraph r.depth r).map (Prod.map (.more <| blocks.push <| .paragraph ·) id)
    else if r.depth = depth + 1 ∧ tag.isWord "tbl" then
      (readTable r.depth r).map (Prod.map (.more <| addTable blocks ·) id)
    else .ok (.more blocks, r.here)
  | .empty tag =>
    .ok (.more (if r.depth = depth + 1 ∧ tag.isWord "p" then blocks.push (.paragraph {}) else blocks), r.here)
  | .close _ => .ok (if r.depth = depth then .done blocks else .more blocks, r.here)
  | _ => .ok (.more blocks, r.here)

/-- Reads the blocks of a body whose start tag, at the given depth, was the last event. -/
def readBody (depth : Nat) (r : Reader) : Except Fault (Array Block × r.After) :=
  (Reader.loop (bodyTurn depth) id #[] r.here).2

/-- Looks for the first body and is done once it has been read. -/
def seekTurn (_ : Unit) (e : Event) (r : Reader) : Except Fault (Progress Unit (Option (Array Block)) × r.After) :=
  match e with
  | .start tag =>
    if tag.isWord "body" then (readBody r.depth r).map (Prod.map (.done <| some ·) id)
    else .ok (.more (), r.here)
  | _ => .ok (.more (), r.here)

/-- Reads the first body of a document part. The part without a body has no blocks; behind the body the rest of the part
must be well-formed too. -/
def Document.ofText (text : String) : Except Fault Document :=
  match (Reader.loop seekTurn (fun _ => none) () (Reader.ofText text).here).2 with
  | .error fault => .error fault
  | .ok (none, _) => .ok ⟨[]⟩
  | .ok (some blocks, s) => s.1.finish.map fun _ => ⟨blocks.toList⟩

end OfficePreview.Word
