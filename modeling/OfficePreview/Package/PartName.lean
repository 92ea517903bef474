import OfficePreview.Text.Blank
/-!
# PartName — the names of parts and references to them

A part is named by a path of segments from the root of its package. A reference is read against the directory of the part
that holds it: empty segments and single dots stand for nothing, two dots for one step back, and no step leads out of the
root.
-/
namespace OfficePreview.Package

def segments (path : List Char) : List (List Char) :=
  let (ended, current) := path.foldl
    (fun (ended, current) c => if c = '/' then (current.reverse :: ended, []) else (ended, c :: current)) ([], [])
  (current.reverse :: ended).reverse

/-- The steps taken so far, the last one first, after one more segment. -/
def enter (steps : List (List Char)) (segment : List Char) : List (List Char) :=
  if segment = [] ∨ segment = ['.'] then steps
  else if segment = ['.', '.'] then steps.tail
  else segment :: steps

def joinPaths (base reference : List Char) : List Char :=
  Text.trimEnd (· = '/') base ++ '/' :: reference.dropWhile (· = '/')

/-- The name of a part: the segments from the root of its package. -/
structure PartName where
  path : List (List Char)
deriving DecidableEq, Repr

namespace PartName

/-- The part that a reference names when it is read against a directory. -/
def ofReference (base reference : String) : PartName :=
  ⟨((segments (joinPaths base.toList reference.toList)).foldl enter []).reverse⟩

/-- The part that a reference names within the directory `root`, whether or not it starts with a slash. -/
def within (root reference : String) : PartName :=
  ofReference (String.ofList ('/' :: Text.trim (· = '/') root.toList)) reference

/-- The name of the archive entry that holds a part. -/
def entryName (p : PartName) : String := String.intercalate "/" (p.path.map String.ofList)

def uri (p : PartName) : String := "/" ++ p.entryName

end PartName

/-! ## Parts with a fixed name -/

def documentPart : String := "word/document.xml"

def workbookPart : String := "xl/workbook.xml"

def workbookRelationshipsPart : String := "xl/_rels/workbook.xml.rels"

/-- The texts that cells of a spreadsheet package share. -/
def sharedStringsPart : String := "xl/sharedStrings.xml"

def sheetRoot : String := "xl"

end OfficePreview.Package
