import OfficePreview.Report
import OfficePreview.Sheet.Warning
import OfficePreview.Xml.Fault
import OfficePreview.Zip.Error
/-!
# Error — why a package has no preview

Every error is a cause. Its wording has two parts: the sentence that its kind begins, and the detail that it ends with.
All errors but one kind lie in the package, so that trying again cannot help.
-/
namespace OfficePreview

/-- Why the relationship of a sheet leads to no part. -/
inductive RelationshipGap
  | noId (sheet : String)
  | undeclared (id : String)
  | outside (id target : String)
deriving DecidableEq, Repr

def RelationshipGap.message : RelationshipGap → String
  | .noId sheet => "sheet '" ++ sheet ++ "' has no relationship id"
  | .undeclared id => id
  | .outside id target => id ++ " targets " ++ target ++ " outside the package"

/-- Why a package has no preview. -/
inductive Error
  | archive (error : Zip.Error)
  | missingPart (part : String)
  | missingRelationship (gap : RelationshipGap)
  | noWorksheets
  | malformedXml (part : String) (fault : Xml.Fault)
deriving DecidableEq, Repr

/-- The kinds of errors, among them the one that is no fault of the package: the task that made the preview did not come
to its end. -/
inductive ErrorKind
  | notAZip
  | corruptCentralDirectory
  | corruptLocalHeader
  | unsupportedCompression
  | decompression
  | missingPart
  | missingRelationship
  | noWorksheets
  | malformedXml
  | runtime
deriving DecidableEq, Repr

namespace ErrorKind

def ofArchive : Zip.ErrorKind → ErrorKind
  | .notAZip => .notAZip
  | .corruptCentralDirectory => .corruptCentralDirectory
  | .corruptLocalHeader => .corruptLocalHeader
  | .unsupportedCompression => .unsupportedCompression
  | .decompression => .decompression

/-- The sentence that tells an error of this kind with the given detail. -/
def describe (detail : String) : ErrorKind → String
  | .notAZip => "Not a ZIP-based Office package"
  | .corruptCentralDirectory => "Corrupt central directory: " ++ detail
  | .corruptLocalHeader => "Corrupt local file header: " ++ detail
  | .unsupportedCompression => "Unsupported compression method: " ++ detail
  | .decompression => "Decompression failed: " ++ detail
  | .missingPart => "Missing part: " ++ detail
  | .missingRelationship => "Missing relationship: " ++ detail
  | .noWorksheets => "Workbook contains no worksheets"
  | .malformedXml => "Malformed XML in " ++ detail
  | .runtime => "Conversion task failed: " ++ detail

def isTransient : ErrorKind → Bool
  | .runtime => true
  | _ => false

end ErrorKind

namespace Error

def kind : Error → ErrorKind
  | .archive e => .ofArchive e.kind
  | .missingPart _ => .missingPart
  | .missingRelationship _ => .missingRelationship
  | .noWorksheets => .noWorksheets
  | .malformedXml .. => .malformedXml

def malformedDetail (part fault : String) : String := part ++ ": " ++ fault

def detail : Error → String
  | .archive e => e.detail
  | .missingPart part => part
  | .missingRelationship gap => gap.message
  | .noWorksheets => ""
  | .malformedXml part fault => malformedDetail part fault.message

def message (e : Error) : String := e.kind.describe e.detail

end Error

/-- What is doubtful about a package that can be read. -/
inductive Warning
  | archive (warning : Zip.Warning)
  | sheet (warning : Sheet.Warning)
deriving DecidableEq, Repr

def Warning.message : Warning → String
  | .archive w => w.message
  | .sheet w => w.message

/-- What reading a package comes to, with the warnings raised on the way. -/
abbrev Attempt (α : Type) := Report Warning Error α

end OfficePreview
