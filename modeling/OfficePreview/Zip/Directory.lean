import OfficePreview.Report
import OfficePreview.Text.Utf8
import OfficePreview.Zip.Error
import OfficePreview.Zip.Record
/-!
# Directory — the entries of an archive

The end record counts the records of the central directory and says where the first one starts; each further record
starts where the one before it ends. The walk should end where the end record says the directory ends. A strict reading
refuses any other end, a lenient reading only warns of it.
-/
namespace OfficePreview.Zip

/-- How a payload is stored. -/
inductive Method
  | stored
  | deflate
  | other (id : Nat)
deriving DecidableEq, Repr

namespace Method

def ofId : Nat → Method
  | 0 => .stored
  | 8 => .deflate
  | id => .other id

def id : Method → Nat
  | .stored => 0
  | .deflate => 8
  | .other id => id

theorem id_ofId (n : Nat) : (ofId n).id = n := by
  unfold ofId
  split <;> rfl

end Method

/-- What the directory says about one payload. -/
structure Entry where
  name : String
  method : Method
  compressedSize : Nat
  uncompressedSize : Nat
  localOffset : Nat
deriving DecidableEq, Repr

/-- The entry that a directory record describes under the given name. -/
def CentralRecord.entry (r : CentralRecord) (name : ByteArray) : Entry where
  name := Text.decode name
  method := .ofId r.method
  compressedSize := r.compressedSize
  uncompressedSize := r.uncompressedSize
  localOffset := r.localOffset

/-- Reads the record number `index` at `offset`, and gives its entry with the position of the next record. -/
def readRecord (bytes : ByteArray) (index offset : Nat) : Except DirectoryFault (Entry × Nat) :=
  match CentralRecord.read? bytes offset with
  | none => .error (.truncated index offset)
  | some r =>
    if r.signature = CentralRecord.expected then
      match slice? bytes (offset + CentralRecord.fixedSize) r.nameLength with
      | none => .error (.name index)
      | some name => .ok (r.entry name, offset + r.size)
    else .error (.signature index offset r.signature)

/-- Reads `count` records, the first of them number `index` at `offset`, and gives their entries in front of those in
`known`, the last one first, with the position after the last record. -/
def walk (bytes : ByteArray) : (count index offset : Nat) → (known : List Entry) →
    Except DirectoryFault (List Entry × Nat)
  | 0, _, offset, known => .ok (known, offset)
  | n + 1, index, offset, known =>
    match readRecord bytes index offset with
    | .error fault => .error fault
    | .ok (entry, next) => walk bytes n (index + 1) next (entry :: known)

/-- The entries that the directory of an archive lists, the last one first. -/
def directory (strict : Bool) (bytes : ByteArray) : Report Warning Error (List Entry) :=
  match EndRecord.locate? bytes with
  | none => .fail .notAZip
  | some (_, r) =>
    if r.directoryEnd > bytes.size then
      .fail (.corruptCentralDirectory (.beyondArchive r.directoryOffset r.directorySize bytes.size))
    else
      match walk bytes r.entryCount 0 r.directoryOffset [] with
      | .error fault => .fail (.corruptCentralDirectory fault)
      | .ok (entries, reached) =>
        if reached = r.directoryEnd then pure entries
        else if strict then .fail (.corruptCentralDirectory (.walkEnd reached r.directoryEnd))
        else do
          Report.warn (.walkEnd reached r.directoryEnd)
          pure entries

end OfficePreview.Zip
