import OfficePreview.Deflate.Inflate
import OfficePreview.Zip.Directory
/-!
# Archive — an archive in memory and the payloads of its entries

An archive is opened by reading its directory; payloads are looked at only when they are read. A name stands for the
last record that has it, and names are compared exactly.
-/
namespace OfficePreview.Zip

/-- An archive with the entries of its directory, the last one first. -/
structure Archive where
  bytes : ByteArray
  entries : List Entry

namespace Archive

def ofBytes (bytes : ByteArray) (strict : Bool := true) : Report Warning Error Archive := do
  let entries ← directory strict bytes
  pure { bytes, entries }

def entry? (a : Archive) (name : String) : Option Entry := a.entries.find? (·.name = name)

def contains (a : Archive) (name : String) : Bool := Option.isSome <| a.entry? name

def names (a : Archive) : List String := (a.entries.map (·.name)).eraseDups

def size (a : Archive) : Nat := a.names.length

def isEmpty (a : Archive) : Bool := a.entries.isEmpty

def summary (a : Archive) : String := "ArchiveReader \x7b file_count: " ++ toString a.size ++ " \x7d"

/-- The bytes of an entry as they lie in the archive. -/
def payload (a : Archive) (e : Entry) : Except HeaderFault ByteArray :=
  match LocalHeader.read? a.bytes e.localOffset with
  | none => .error (.truncated e.name e.localOffset)
  | some h =>
    if h.signature = LocalHeader.expected then
      let start := h.payloadOffset e.localOffset
      match slice? a.bytes start e.compressedSize with
      | none => .error (.payload e.name e.compressedSize start)
      | some payload => .ok payload
    else .error (.signature e.name e.localOffset h.signature)

/-- The bytes that an entry stands for. A size other than the declared one is only warned of. -/
def readEntry (a : Archive) (e : Entry) : Report Warning Error ByteArray :=
  match a.payload e with
  | .error fault => .fail (.corruptLocalHeader fault)
  | .ok payload =>
    match e.method with
    | .stored => pure payload
    | .other id => .fail (.unsupportedCompression id)
    | .deflate =>
      match Deflate.inflate payload with
      | .error failure => .fail (.decompression e.name failure)
      | .ok bytes => do
        if bytes.size ≠ e.uncompressedSize then
          Report.warn (.inflatedSize e.name bytes.size e.uncompressedSize)
        pure bytes

/-- The bytes of the entry of a name, if there is one. -/
def read (a : Archive) (name : String) : Report Warning Error (Option ByteArray) :=
  match a.entry? name with
  | none => pure none
  | some e => some <$> a.readEntry e

/-- The text of the entry of a name, if there is one. -/
def readText (a : Archive) (name : String) : Report Warning Error (Option String) :=
  (·.map Text.decode) <$> a.read name

end Archive

end OfficePreview.Zip
