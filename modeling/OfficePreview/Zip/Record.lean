import OfficePreview.Zip.Bytes
/-!
# Record — the three fixed layouts of an archive

An archive ends with a record that counts the entries and says where the central directory lies; the directory has one
record for each entry, and each entry's payload has a local header in front. Only the fields that lead to a payload are
read. A record that runs past the buffer is absent.

The end record is followed by a comment of at most 65535 bytes, so it starts in the last 65557 bytes of the archive; of
several signatures there, the last one counts.
-/
namespace OfficePreview.Zip

/-- The end of the central directory. -/
structure EndRecord where
  entryCount : Nat
  directorySize : Nat
  directoryOffset : Nat
deriving DecidableEq, Repr

namespace EndRecord

def signature : Nat := 0x06054B50

/-- The bytes of an end record without its comment. -/
def fixedSize : Nat := 22

def maxComment : Nat := 65535

/-- The fields of the end record at `offset`, whatever its signature. -/
def read? (bytes : ByteArray) (offset : Nat) : Option EndRecord := do
  let entryCount ← uint16? bytes (offset + 10)
  let directorySize ← uint32? bytes (offset + 12)
  let directoryOffset ← uint32? bytes (offset + 16)
  some { entryCount, directorySize, directoryOffset }

/-- The position after the last byte of the directory. -/
def directoryEnd (r : EndRecord) : Nat := r.directoryOffset + r.directorySize

/-- The last of the `count` positions from `first` on that holds the signature. -/
def lastSignature? (bytes : ByteArray) (first : Nat) : (count : Nat) → Option Nat
  | 0 => none
  | n + 1 => if uint32? bytes (first + n) = some signature then some (first + n) else lastSignature? bytes first n

/-- The end record of an archive, with its position. -/
def locate? (bytes : ByteArray) : Option (Nat × EndRecord) :=
  if bytes.size < fixedSize then none
  else do
    let last := bytes.size - fixedSize
    let first := last - maxComment
    let position ← lastSignature? bytes first (last - first + 1)
    let record ← read? bytes position
    some (position, record)

end EndRecord

/-- One record of the central directory. -/
structure CentralRecord where
  signature : Nat
  method : Nat
  compressedSize : Nat
  uncompressedSize : Nat
  nameLength : Nat
  extraLength : Nat
  commentLength : Nat
  localOffset : Nat
deriving DecidableEq, Repr

namespace CentralRecord

def expected : Nat := 0x02014B50

/-- The bytes of a directory record before its name. -/
def fixedSize : Nat := 46

/-- The fields of the directory record at `offset`, whatever its signature. -/
def read? (bytes : ByteArray) (offset : Nat) : Option CentralRecord := do
  let signature ← uint32? bytes offset
  let method ← uint16? bytes (offset + 10)
  let compressedSize ← uint32? bytes (offset + 20)
  let uncompressedSize ← uint32? bytes (offset + 24)
  let nameLength ← uint16? bytes (offset + 28)
  let extraLength ← uint16? bytes (offset + 30)
  let commentLength ← uint16? bytes (offset + 32)
  let localOffset ← uint32? bytes (offset + 42)
  some { signature, method, compressedSize, uncompressedSize, nameLength, extraLength, commentLength, localOffset }

/-- The bytes of a directory record with its name, extra field and comment. -/
def size (r : CentralRecord) : Nat := fixedSize + r.nameLength + r.extraLength + r.commentLength

end CentralRecord

/-- The header in front of an entry's payload. -/
structure LocalHeader where
  signature : Nat
  nameLength : Nat
  extraLength : Nat
deriving DecidableEq, Repr

namespace LocalHeader

def expected : Nat := 0x04034B50

def fixedSize : Nat := 30

/-- The fields of the local header at `offset`, whatever its signature. -/
def read? (bytes : ByteArray) (offset : Nat) : Option LocalHeader := do
  let signature ← uint32? bytes offset
  let nameLength ← uint16? bytes (offset + 26)
  let extraLength ← uint16? bytes (offset + 28)
  some { signature, nameLength, extraLength }

/-- Where the payload starts when the header starts at `offset`. -/
def payloadOffset (h : LocalHeader) (offset : Nat) : Nat := offset + fixedSize + h.nameLength + h.extraLength

end LocalHeader

end OfficePreview.Zip
