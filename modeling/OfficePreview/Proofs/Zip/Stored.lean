import OfficePreview.Proofs.Deflate.StoredBlocks
import OfficePreview.Proofs.Zip.Layout
import OfficePreview.Proofs.Zip.Truncated
/-!
# Stored — contents that are stored in two ways

A content is stored as it stands, or as a compressed stream that holds it in blocks as they stand.  What is read does not
tell the two apart: it depends on the payload alone, which lies where the directory record and the local header say
(`Carries`), and neither on what follows the stream in the payload nor on the size that the record declares.  The size
shows in a warning if it is not that of the content (`stored_blocks_read_back`).
-/
namespace OfficePreview.Zip

open Deflate (StoredBlock streamOf contentOf)

/-- The payload of the directory record at `record`, stored by the method with the number `id`, lies in the buffer: the
record tells its size and leads to a local header, and the payload stands behind the header. -/
structure Carries (bytes : ByteArray) (record id : Nat) (payload : List UInt8) : Prop where
  id_eq : field bytes (record + 10) 2 = id
  size_eq : field bytes (record + 20) 4 = payload.length
  header_fits : field bytes (record + 42) 4 + 30 ≤ bytes.size
  header_signed : StandsAt bytes (field bytes (record + 42) 4) [0x50, 0x4B, 0x03, 0x04]
  payload_fits : payloadStart bytes (entryAt bytes record) + payload.length ≤ bytes.size
  stands : StandsAt bytes (payloadStart bytes (entryAt bytes record)) payload

namespace Archive

variable {a : Archive} {name : String} {e : Entry} {record id : Nat} {payload : List UInt8}

theorem payload_of_carries (h : Carries a.bytes record id payload) :
    a.payload (entryAt a.bytes record) = .ok payload.toByteArray := by
  have hstands : StandsAt a.bytes (payloadStart a.bytes (entryAt a.bytes record)) payload.toByteArray.data.toList := by
    rw [List.toList_data_toByteArray]
    exact h.stands
  have hsize : (entryAt a.bytes record).compressedSize = payload.toByteArray.size := by
    rw [List.size_toByteArray]
    exact h.size_eq
  refine payload_eq_ok_iff.2 ⟨h.header_fits, ?_, ?_, ?_⟩
  · exact h.header_signed.field_eq
  · rw [hsize, List.size_toByteArray]
    exact h.payload_fits
  · rw [hsize]
    exact hstands.extract_eq

theorem method_of_carries (h : Carries a.bytes record id payload) : (entryAt a.bytes record).method = .ofId id := by
  rw [← h.id_eq]
  rfl

theorem read_of_stored (h : a.entry? name = some e) (hm : e.method = .stored) {data : ByteArray}
    (hp : a.payload e = .ok data) : a.read name = pure (some data) := by
  rw [read, h]
  dsimp only
  rw [readEntry, hp]
  dsimp only
  rw [hm]
  rfl

/-- The size that is declared shows in a warning, unless it is that of the content. -/
theorem warnings_of_inflate_ok (h : a.entry? name = some e) (hm : e.method = .deflate) {data bytes : ByteArray}
    (hp : a.payload e = .ok bytes) (hok : Deflate.inflate bytes = .ok data) : (a.read name).warnings =
      if e.uncompressedSize = data.size then [] else [.inflatedSize name data.size e.uncompressedSize] := by
  rw [read, h]
  dsimp only
  rw [readEntry, hp]
  dsimp only
  rw [hm, hok, name_of_lookup h]
  dsimp only
  by_cases hsize : e.uncompressedSize = data.size
  · rw [if_pos hsize, if_neg (not_not_intro hsize.symm)]
    rfl
  · rw [if_neg hsize, if_pos (Ne.symm hsize)]
    rfl

end Archive

open Archive in
/-- **A content in stored blocks is read as the content stored as it stands.**  However it is cut into blocks, whatever
follows the final one, and whatever size the directory declares, reading gives the bytes of the content; there is one
warning if the size is another one, and none if it is right. -/
theorem stored_blocks_read_back {a a' : Archive} {name name' : String} {record record' : Nat} {content : ByteArray}
    {blocks : List StoredBlock} {trailing : List UInt8} (ne : blocks ≠ []) (cut : contentOf blocks = content)
    (entry : a.entry? name = some (entryAt a.bytes record))
    (deflated : Carries a.bytes record 8 (streamOf blocks ++ trailing))
    (entry' : a'.entry? name' = some (entryAt a'.bytes record'))
    (stored : Carries a'.bytes record' 0 content.data.toList) :
    (a.read name).outcome = .ok (some content) ∧ a'.read name' = pure (some content) ∧
      (a.read name).warnings = if field a.bytes (record + 24) 4 = content.size then []
        else [.inflatedSize name content.size (field a.bytes (record + 24) 4)] := by
  have hinflate := Deflate.inflate_streamOf ne trailing
  have hcontent : content.data.toList.toByteArray = content := by
    apply ByteArray.ext
    apply Array.toList_inj.1
    rw [List.toList_data_toByteArray]
  have hpayload' := payload_of_carries stored
  rw [cut] at hinflate
  rw [hcontent] at hpayload'
  have hmethod : (entryAt a.bytes record).method = .deflate := method_of_carries deflated
  exact ⟨read_of_inflate_ok entry hmethod (payload_of_carries deflated) hinflate,
    read_of_stored entry' (method_of_carries stored) hpayload',
    warnings_of_inflate_ok entry hmethod (payload_of_carries deflated) hinflate⟩

/-- Two bytes in two blocks, the first of them with its filling bits set. -/
def twoBlocks : List StoredBlock :=
  [⟨31, ⟨#[0x61]⟩, by decide, by decide⟩, ⟨0, ⟨#[0x62]⟩, by decide, by decide⟩]

/-- A directory record of a payload behind the local header at `offset`, under a name of one letter. -/
def letterRecord (id size declared offset : Nat) (letter : UInt8) : List UInt8 :=
  [0x50, 0x4B, 0x01, 0x02] ++ List.replicate 6 0 ++ digits 2 id ++ List.replicate 8 0 ++ digits 4 size ++
    digits 4 declared ++ digits 2 1 ++ List.replicate 12 0 ++ digits 4 offset ++ [letter]

/-- An archive of one content stored in both ways.  A byte follows the stream, and its record declares nine bytes. -/
def twoWays : ByteArray :=
  ⟨([0x50, 0x4B, 0x03, 0x04] ++ List.replicate 26 0 ++ (streamOf twoBlocks ++ [7]) ++
    [0x50, 0x4B, 0x03, 0x04] ++ List.replicate 26 0 ++ [0x61, 0x62] ++ letterRecord 8 13 9 0 0x61 ++
    letterRecord 0 2 2 43 0x62 ++ endRecord 2 94 75).toArray⟩

def twoWaysArchive : Archive := ⟨twoWays, [entryAt twoWays 122, entryAt twoWays 75]⟩

theorem stored_blocks_read_back_twoWays : (Archive.ofBytes twoWays).outcome = .ok twoWaysArchive ∧
    Carries twoWays 75 8 (streamOf twoBlocks ++ [7]) ∧ Carries twoWays 122 0 [0x61, 0x62] ∧
    (twoWaysArchive.read "a").outcome = .ok (some ⟨#[0x61, 0x62]⟩) ∧
    twoWaysArchive.read "b" = pure (some ⟨#[0x61, 0x62]⟩) ∧
    (twoWaysArchive.read "a").warnings = [.inflatedSize "a" 2 9] := by
  have deflated : Carries twoWays 75 8 (streamOf twoBlocks ++ [7]) := by
    refine ⟨?_, ?_, ?_, ?_, ?_, ?_⟩ <;> decide +kernel
  have stored : Carries twoWays 122 0 [0x61, 0x62] := by
    refine ⟨?_, ?_, ?_, ?_, ?_, ?_⟩ <;> decide +kernel
  have entry : twoWaysArchive.entry? "a" = some (entryAt twoWays 75) := by decide +kernel
  have entry' : twoWaysArchive.entry? "b" = some (entryAt twoWays 122) := by decide +kernel
  have declared : field twoWays (75 + 24) 4 = 9 := by decide +kernel
  obtain ⟨hread, hread', hwarnings⟩ := stored_blocks_read_back (List.cons_ne_nil _ _)
    (show contentOf twoBlocks = ⟨#[0x61, 0x62]⟩ by decide +kernel) entry deflated entry' stored
  refine ⟨Archive.outcome_of_directory (by decide +kernel), deflated, stored, hread, hread', hwarnings.trans ?_⟩
  rw [show field twoWaysArchive.bytes (75 + 24) 4 = 9 from declared]
  rfl

end OfficePreview.Zip
