import OfficePreview.Package.Part
import OfficePreview.Package.PartName
import OfficePreview.Package.Relationship
/-!
# Workbook — finding the first sheet

The workbook lists its sheets; the first one counts. Its relationship leads to the part that holds it. The target of the
relationship is read within the directory of the workbook, whether or not it starts with a slash; only if no entry has
that name is a target with a slash taken as a name from the root of the package.
-/
namespace OfficePreview.Sheet

open Zip (Archive)
open Package (PartName Relationships readRequired ofReading)

/-- What a workbook says about a sheet. -/
structure SheetEntry where
  name : String
  relationshipId : Option String
deriving DecidableEq, Repr

namespace SheetEntry

def ofTag (tag : Xml.Tag) : SheetEntry where
  name := (tag.attribute? "name").getD "Sheet1"
  relationshipId := tag.prefixed? "id"

/-- The first entry after one more event of the workbook. -/
def step (first : Option SheetEntry) (e : Xml.Event) (_depth : Nat) : Option SheetEntry :=
  match first, e.tag? with
  | none, some tag => if tag.isLocal "sheet" then some (ofTag tag) else none
  | _, _ => first

/-- Reads the first entry of a workbook; the rest of the part must be well-formed too. -/
def firstOfText (part text : String) : Except Error SheetEntry :=
  match ofReading part (Xml.readAll step id none text).2 with
  | .error e => .error e
  | .ok none => .error .noWorksheets
  | .ok (some entry) => .ok entry

end SheetEntry

/-- The type of the relationships that lead to sheets. -/
def worksheetType : String := "http://schemas.openxmlformats.org/officeDocument/2006/relationships/worksheet"

/-- The entry that the target of a relationship names. -/
def sheetPart (a : Archive) (target : String) : String :=
  let resolved := (PartName.within Package.sheetRoot target).entryName
  if a.contains resolved then resolved
  else
    match target.toList with
    | '/' :: rest => if a.contains (String.ofList rest) then String.ofList rest else resolved
    | _ => resolved

/-- Finds the first sheet of a package: its name and the part that holds it. -/
def locateFirst (a : Archive) : Attempt (String × String) := do
  let workbook ← readRequired a Package.workbookPart
  let entry ← .ofExcept (SheetEntry.firstOfText Package.workbookPart workbook)
  match entry.relationshipId with
  | none => .fail (.missingRelationship (.noId entry.name))
  | some id =>
    let text ← readRequired a Package.workbookRelationshipsPart
    let relationships ← .ofExcept (ofReading Package.workbookRelationshipsPart (Relationships.ofText text))
    match relationships.get? id with
    | none => .fail (.missingRelationship (.undeclared id))
    | some r =>
      if r.isExternal then .fail (.missingRelationship (.outside id r.target))
      else
        if r.type ≠ "" ∧ r.type ≠ worksheetType then
          Report.warn (.sheet (.relationshipType Package.workbookRelationshipsPart id r.type))
        pure (entry.name, sheetPart a r.target)

/-- A sheet: its name and its grid. -/
structure Worksheet where
  name : String
  grid : Grid
deriving DecidableEq, Repr

end OfficePreview.Sheet
