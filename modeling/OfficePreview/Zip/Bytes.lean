/-!
# Bytes — fields of a binary record

Unsigned little-endian fields of two and four bytes at a position, and stretches of bytes. A field or a stretch that does
not lie inside the buffer as a whole is absent.
-/
namespace OfficePreview.Zip

def byte? (bytes : ByteArray) (i : Nat) : Option Nat := bytes[i]?.map UInt8.toNat

def uint16? (bytes : ByteArray) (i : Nat) : Option Nat := do
  let low ← byte? bytes i
  let high ← byte? bytes (i + 1)
  some (low + 256 * high)

def uint32? (bytes : ByteArray) (i : Nat) : Option Nat := do
  let low ← uint16? bytes i
  let high ← uint16? bytes (i + 2)
  some (low + 65536 * high)

def slice? (bytes : ByteArray) (start length : Nat) : Option ByteArray :=
  if start + length ≤ bytes.size then some (bytes.extract start (start + length)) else none

end OfficePreview.Zip
