import OfficePreview.Deflate.Bits
import OfficePreview.Text.Hex
/-!
# Error — why an archive or one of its entries cannot be read

Every error is a cause. Its wording has two parts: the sentence that its kind begins, and the detail that it ends with.
-/
namespace OfficePreview.Zip

/-- What is wrong with a central directory. -/
inductive DirectoryFault
  | beyondArchive (offset size length : Nat)
  | truncated (index offset : Nat)
  | signature (index offset found : Nat)
  | name (index : Nat)
  | walkEnd (reached recorded : Nat)
deriving DecidableEq, Repr

def DirectoryFault.message : DirectoryFault → String
  | .beyondArchive offset size length =>
    s!"directory at offset {offset} with size {size} exceeds archive length {length}"
  | .truncated index offset => s!"record {index} at offset {offset} is truncated"
  | .signature index offset found => s!"record {index} at offset {offset} has signature {Text.hexWord found}"
  | .name index => s!"name of record {index} runs past the archive"
  | .walkEnd reached recorded => s!"walk ended at offset {reached} but directory ends at {recorded}"

/-- What is wrong with the local header of the entry `name`. -/
inductive HeaderFault
  | truncated (name : String) (offset : Nat)
  | signature (name : String) (offset found : Nat)
  | payload (name : String) (size start : Nat)
deriving DecidableEq, Repr

def HeaderFault.message : HeaderFault → String
  | .truncated name offset => s!"header of {name} at offset {offset} is truncated"
  | .signature name offset found => s!"header of {name} at offset {offset} has signature {Text.hexWord found}"
  | .payload name size start => s!"payload of {name} ({size} bytes at offset {start}) runs past the archive"

/-- Why an archive or an entry cannot be read. -/
inductive Error
  | notAZip
  | corruptCentralDirectory (fault : DirectoryFault)
  | corruptLocalHeader (fault : HeaderFault)
  | unsupportedCompression (method : Nat)
  | decompression (name : String) (failure : Deflate.Failure)
deriving DecidableEq, Repr

/-- The kinds of errors. -/
inductive ErrorKind
  | notAZip
  | corruptCentralDirectory
  | corruptLocalHeader
  | unsupportedCompression
  | decompression
deriving DecidableEq, Repr

/-- The sentence that tells an error of this kind with the given detail. -/
def ErrorKind.describe (detail : String) : ErrorKind → String
  | .notAZip => "not a ZIP archive: end of central directory record not found"
  | .corruptCentralDirectory => "corrupt central directory: " ++ detail
  | .corruptLocalHeader => "corrupt local file header: " ++ detail
  | .unsupportedCompression => "unsupported compression method: " ++ detail
  | .decompression => "failed to inflate " ++ detail

namespace Error

def kind : Error → ErrorKind
  | .notAZip => .notAZip
  | .corruptCentralDirectory _ => .corruptCentralDirectory
  | .corruptLocalHeader _ => .corruptLocalHeader
  | .unsupportedCompression _ => .unsupportedCompression
  | .decompression .. => .decompression

/-- How the failure to decompress an entry is told. -/
def decompressionDetail (name failure : String) : String := name ++ ": " ++ failure

def detail : Error → String
  | .notAZip => ""
  | .corruptCentralDirectory fault => fault.message
  | .corruptLocalHeader fault => fault.message
  | .unsupportedCompression method => toString method
  | .decompression name failure => decompressionDetail name failure.message

def message (e : Error) : String := e.kind.describe e.detail

end Error

/-- What is doubtful about an archive that can be read. -/
inductive Warning
  | walkEnd (reached recorded : Nat)
  | inflatedSize (name : String) (size declared : Nat)
deriving DecidableEq, Repr

def Warning.message : Warning → String
  | .walkEnd reached recorded => s!"central directory walk ended at offset {reached} instead of {recorded}"
  | .inflatedSize name size declared => s!"{name} inflated to {size} bytes, directory declares {declared}"

end OfficePreview.Zip
