import OfficePreview.Error
import OfficePreview.Zip.Archive
/-!
# Part — opening a package and reading its parts

A package is an archive whose entries are parts. Parts are text, and a part may be required or optional; an error tells
which part it concerns.
-/
namespace OfficePreview.Package

/-- Opens a package. -/
def openArchive (bytes : ByteArray) (strict : Bool := true) : Attempt Zip.Archive :=
  (Zip.Archive.ofBytes bytes strict).lift .archive .archive

def readPart? (a : Zip.Archive) (part : String) : Attempt (Option String) :=
  (a.readText part).lift .archive .archive

def readRequired (a : Zip.Archive) (part : String) : Attempt String := do
  match ← readPart? a part with
  | some text => pure text
  | none => .fail (.missingPart part)

/-- What the reading of a part comes to, a fault being told with the name of the part. -/
def ofReading {α : Type} (part : String) (r : Except Xml.Fault α) : Except Error α :=
  r.mapError (.malformedXml part)

end OfficePreview.Package
