import OfficePreview.Html.Document
import OfficePreview.Html.Sheet
import OfficePreview.Package.Kind
import OfficePreview.Sheet.Cells
import OfficePreview.Sheet.Workbook
import OfficePreview.Word.Body
/-!
# Preview — from the bytes of a package to a fragment

The kind of a package decides which of its parts are read: the body of a document, or the first sheet of a workbook with
the texts its cells share. Other parts are not looked at, so damage to them does no harm.
-/
namespace OfficePreview

open Zip (Archive)
open Package (openArchive readPart? readRequired ofReading)

/-! ## Kinds -/

def Package.Kind.ofArchive? (a : Archive) : Option Package.Kind :=
  if a.contains Package.documentPart then some .wordProcessing
  else if a.contains Package.workbookPart then some .spreadsheet
  else none

def Package.Kind.detect (bytes : ByteArray) : Attempt (Option Package.Kind) := do
  let a ← openArchive bytes
  pure (Package.Kind.ofArchive? a)

/-! ## Documents -/

def Word.Document.ofArchive (a : Archive) : Attempt Word.Document := do
  let text ← readRequired a Package.documentPart
  .ofExcept (ofReading Package.documentPart (Word.Document.ofText text))

/-- Reads the document of a package given by its bytes. -/
def Word.Document.ofBytes (bytes : ByteArray) (strict : Bool := true) : Attempt Word.Document := do
  let a ← openArchive bytes strict
  Word.Document.ofArchive a

/-! ## Sheets -/

namespace Sheet

/-- Reads the texts that the cells of a package share. -/
def SharedStrings.ofArchive (a : Archive) : Attempt SharedStrings := do
  match ← readPart? a Package.sharedStringsPart with
  | some text => .ofExcept (ofReading Package.sharedStringsPart (SharedStrings.ofText text))
  | none => pure {}

def Worksheet.ofArchive (a : Archive) : Attempt Worksheet := do
  let (name, part) ← locateFirst a
  let text ← readRequired a part
  let shared ← SharedStrings.ofArchive a
  let grid ← (Grid.ofText part shared text).lift .sheet (.malformedXml part)
  pure { name, grid }

/-- Reads the first sheet of a package given by its bytes. -/
def Worksheet.ofBytes (bytes : ByteArray) (strict : Bool := true) : Attempt Worksheet := do
  let a ← openArchive bytes strict
  Worksheet.ofArchive a

/-- A sheet as an HTML fragment, with its name as the caption. -/
def Worksheet.toHtml (s : Worksheet) (o : Html.Options := {}) : String := s.grid.toHtml o (some s.name)

end Sheet

/-! ## Conversion -/

/-- A fragment, with the name of the sheet if it shows one. -/
inductive Preview
  | document (html : String)
  | sheet (name html : String)
deriving DecidableEq, Repr

namespace Preview

def html : Preview → String
  | .document html => html
  | .sheet _ html => html

/-- The kind of the package that a preview shows. -/
def kind : Preview → Package.Kind
  | .document _ => .wordProcessing
  | .sheet .. => .spreadsheet

def sheetName? : Preview → Option String
  | .document _ => none
  | .sheet name _ => some name

end Preview

def convert (bytes : ByteArray) (kind : Package.Kind) (o : Html.Options := {}) : Attempt Preview :=
  match kind with
  | .wordProcessing => do
    let document ← Word.Document.ofBytes bytes
    pure (.document (document.toHtml o))
  | .spreadsheet => do
    let sheet ← Sheet.Worksheet.ofBytes bytes
    pure (.sheet sheet.name (sheet.toHtml o))

end OfficePreview
