import OfficePreview.Proofs.Deflate.Inflated
import OfficePreview.Proofs.Zip.Comment
/-!
# Truncated — entries whose streams are cut short

The payload of a compressed entry is read to the end of its stream or not at all: what is read is the content of a stream
that the payload starts with, and a payload that ends before its stream does is an error that tells the name of the entry
(`deflated_read_whole`).
-/
namespace OfficePreview.Zip

open Deflate (BitsAt EndsEarly IsStream)

namespace Archive

variable {a : Archive} {name : String} {e : Entry} {payload : ByteArray}

theorem name_of_lookup (h : a.entry? name = some e) : e.name = name := by
  unfold entry? at h
  have hname := List.find?_some h
  exact of_decide_eq_true hname

/-- A compressed entry is read as its payload is inflated. -/
theorem read_of_inflate_error (h : a.entry? name = some e) (hm : e.method = .deflate) (hp : a.payload e = .ok payload)
    {failure : Deflate.Failure} (hfail : Deflate.inflate payload = .error failure) :
    a.read name = .fail (.decompression name failure) := by
  rw [read, h]
  dsimp only
  rw [readEntry, hp]
  dsimp only
  rw [hm, hfail, name_of_lookup h]
  rfl

theorem read_of_inflate_ok (h : a.entry? name = some e) (hm : e.method = .deflate) (hp : a.payload e = .ok payload)
    {data : ByteArray} (hok : Deflate.inflate payload = .ok data) : (a.read name).outcome = .ok (some data) := by
  rw [read, h]
  dsimp only
  rw [readEntry, hp]
  dsimp only
  rw [hm, hok]
  dsimp only
  split <;> rfl

end Archive

open Archive in
/-- **A compressed entry is read whole or not at all.**  What is read is the content of a stream that the payload starts with.
If the payload ends before a stream is complete, reading the entry fails, as a decompression that tells its name.  So it
does for what is left of a stream that is cut short anywhere, and for no bytes at all. -/
theorem deflated_read_whole {a : Archive} {name : String} {e : Entry} {payload : ByteArray}
    (h : a.entry? name = some e) (hm : e.method = .deflate) (hp : a.payload e = .ok payload) :
    (∀ data, (a.read name).outcome = .ok (some data) ↔ ∃ bs, IsStream bs data ∧ BitsAt payload 0 bs) ∧
      (EndsEarly payload → ∃ failure, a.read name = .fail (.decompression name failure)) ∧
      (∀ whole n bs data, IsStream bs data → BitsAt whole 0 bs → payload = whole.extract 0 n →
        8 * payload.size < bs.length →
          EndsEarly payload ∧ a.read name = .fail (.decompression name .incomplete)) ∧
      (payload = .empty → EndsEarly payload) := by
  refine ⟨?_, ?_, ?_, ?_⟩
  · intro data
    rw [← Deflate.inflate_eq_ok_iff]
    cases hinflate : Deflate.inflate payload with
    | error failure =>
      rw [read_of_inflate_error h hm hp hinflate]
      constructor <;> intro hok <;> cases hok
    | ok inflated =>
      rw [read_of_inflate_ok h hm hp hinflate]
      constructor <;> intro hok <;> cases hok <;> rfl
  · intro early
    obtain ⟨failure, hfail⟩ := Deflate.endsEarly_iff.1 early
    exact ⟨failure, read_of_inflate_error h hm hp hfail⟩
  · intro whole n bs data stream hbits hcut hshort
    have hfail : Deflate.inflate payload = .error .incomplete := by
      rw [hcut] at hshort ⊢
      exact Deflate.inflate_of_cut_short stream hbits hshort
    exact ⟨Deflate.endsEarly_iff.2 ⟨_, hfail⟩, read_of_inflate_error h hm hp hfail⟩
  · rintro rfl
    exact Deflate.endsEarly_empty

/-- A stream of two bytes as they stand. -/
def twoBytes : ByteArray := ⟨#[1, 2, 0, 0xFD, 0xFF, 0x61, 0x62]⟩

def cutEntry : Entry where
  name := "a"
  method := .deflate
  compressedSize := 6
  uncompressedSize := 2
  localOffset := 0

/-- An archive of one compressed entry, whose stream has lost its last byte. -/
def cutArchive : ByteArray :=
  ⟨([0x50, 0x4B, 0x03, 0x04] ++ List.replicate 26 0 ++ (twoBytes.extract 0 6).data.toList ++ [0x50, 0x4B, 0x01, 0x02] ++
    List.replicate 6 0 ++ digits 2 8 ++ List.replicate 8 0 ++ digits 4 6 ++ digits 4 2 ++ digits 2 1 ++
    List.replicate 16 0 ++ [0x61] ++ endRecord 1 47 36).toArray⟩

theorem deflated_read_whole_cutArchive :
    (Archive.ofBytes cutArchive).outcome = .ok ⟨cutArchive, [cutEntry]⟩ ∧
      Archive.entry? ⟨cutArchive, [cutEntry]⟩ "a" = some cutEntry ∧ cutEntry.method = .deflate ∧
      (⟨cutArchive, [cutEntry]⟩ : Archive).payload cutEntry = .ok (twoBytes.extract 0 6) ∧
      (⟨cutArchive, [cutEntry]⟩ : Archive).read "a" = .fail (.decompression "a" .incomplete) := by
  have hpayload : (⟨cutArchive, [cutEntry]⟩ : Archive).payload cutEntry = .ok (twoBytes.extract 0 6) :=
    Archive.eq_ok_of_toOption (by decide +kernel)
  have hentry : Archive.entry? ⟨cutArchive, [cutEntry]⟩ "a" = some cutEntry := by decide
  have stored : Deflate.Stored 3 .empty (List.replicate 5 false ++ (Deflate.numeral 16 2 ++
      (Deflate.numeral 16 (65535 - 2) ++ Deflate.octets ⟨#[0x61, 0x62]⟩))) (.empty ++ ⟨#[0x61, 0x62]⟩) :=
    @Deflate.Stored.mk 3 .empty (List.replicate 5 false) ⟨#[0x61, 0x62]⟩ (by decide) (by decide)
  have stream := Deflate.Blocks.final (Deflate.Body.stored stored)
  have hcut := (deflated_read_whole hentry rfl hpayload).2.2.1 twoBytes 6 _ _ stream (by decide +kernel) rfl
    (by decide +kernel)
  exact ⟨Archive.outcome_of_directory (by decide +kernel), hentry, rfl, hpayload, hcut.2⟩

end OfficePreview.Zip
