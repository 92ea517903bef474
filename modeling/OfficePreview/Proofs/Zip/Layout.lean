import OfficePreview.Proofs.Text.Utf8
import OfficePreview.Proofs.Zip.Directory
/-!
# Layout — archives as they are written

An archive is written from its items: a local header and the content for each of them, then one directory record for each
of them, then the end record.  What a reader passes over is left open: bytes in front of the local headers and of the
directory, fields that nothing depends on, names and extra fields of local headers, extra fields and comments of
directory records, and the comment of the archive.

What is written stands where it was written, and so a directory record is read with the fields that were written
(`Item.read_centralRecord`), and the content behind a local header with the bytes of the item (`Item.readEntry_record`).
-/
namespace OfficePreview.Zip

/-! ## Items -/

/-- What is stored under a name, with all that is written beside the name and the content. -/
structure Item where
  name : String
  content : ByteArray
  gap : List UInt8
  localFields : Vector UInt8 22
  localName : List UInt8
  localExtra : List UInt8
  versions : Vector UInt8 6
  stamps : Vector UInt8 8
  attributes : Vector UInt8 8
  extra : List UInt8
  comment : List UInt8
  name_lt : name.toUTF8.size < 65536
  localName_lt : localName.length < 65536
  localExtra_lt : localExtra.length < 65536
  extra_lt : extra.length < 65536
  comment_lt : comment.length < 65536

namespace Item

def record (item : Item) : List UInt8 :=
  [0x50, 0x4B, 0x03, 0x04] ++ item.localFields.toList ++ digits 2 item.localName.length ++
    digits 2 item.localExtra.length ++ item.localName ++ item.localExtra ++ item.content.data.toList

/-- The directory record of an item whose local header is at `offset`. -/
def centralRecord (item : Item) (offset : Nat) : List UInt8 :=
  [0x50, 0x4B, 0x01, 0x02] ++ item.versions.toList ++ digits 2 0 ++ item.stamps.toList ++ digits 4 item.content.size ++
    digits 4 item.content.size ++ digits 2 item.name.toUTF8.size ++ digits 2 item.extra.length ++
    digits 2 item.comment.length ++ item.attributes.toList ++ digits 4 offset ++ item.name.toUTF8.data.toList ++
    item.extra ++ item.comment

def entry (item : Item) (offset : Nat) : Entry where
  name := item.name
  method := .stored
  compressedSize := item.content.size
  uncompressedSize := item.content.size
  localOffset := offset

variable {bytes : ByteArray} {item : Item}

theorem length_record (item : Item) : item.record.length =
    30 + item.localName.length + item.localExtra.length + item.content.size := by
  simp only [record, List.length_append, Vector.length_toList, length_digits, length_toList, List.length_cons,
    List.length_nil]

theorem length_centralRecord (item : Item) (offset : Nat) : (item.centralRecord offset).length =
    46 + item.name.toUTF8.size + item.extra.length + item.comment.length := by
  simp only [centralRecord, List.length_append, Vector.length_toList, length_digits, length_toList, List.length_cons,
    List.length_nil]

end Item

theorem StandsAt.field_digits {bytes : ByteArray} {i width value : Nat} (h : StandsAt bytes i (digits width value))
    (hv : value < 256 ^ width) : field bytes i width = value := by
  have hf := h.field_eq
  rw [length_digits, number_digits hv] at hf
  exact hf

theorem StandsAt.extract_eq {bytes b : ByteArray} {i : Nat} (h : StandsAt bytes i b.data.toList) :
    bytes.extract i (i + b.size) = b := by
  have ht := h.take_eq
  rw [length_toList] at ht
  apply ByteArray.ext
  apply Array.toList_inj.1
  rw [← ht]
  simp [ByteArray.data_extract]

namespace Item

variable {bytes : ByteArray} {item : Item}

/-- **A directory record is read as it was written.** -/
theorem read_centralRecord {i offset : Nat} (h : StandsAt bytes i (item.centralRecord offset))
    (hcontent : item.content.size < 4294967296) (hoffset : offset < 4294967296) :
    HoldsRecord bytes i ∧ recordEnd bytes i = i + (item.centralRecord offset).length ∧
      entryAt bytes i = item.entry offset := by
  have hsize := h.le_size (by simp [centralRecord])
  rw [length_centralRecord] at hsize ⊢
  simp only [centralRecord, standsAt_append, List.length_append, Vector.length_toList, length_digits, length_toList,
    List.length_cons, List.length_nil, Nat.reduceAdd] at h
  obtain ⟨⟨⟨⟨⟨⟨⟨⟨⟨⟨⟨⟨⟨hsigned, -⟩, hmethod⟩, -⟩, hcompressed⟩, huncompressed⟩, hname⟩, hextra⟩, hcomment⟩, -⟩, hlocal⟩,
    htext⟩, -⟩, -⟩ := h
  have hname := hname.field_digits item.name_lt
  have hextra := hextra.field_digits item.extra_lt
  have hcomment := hcomment.field_digits item.comment_lt
  refine ⟨⟨by omega, hsigned, by rw [hname]; omega⟩, ?_, ?_⟩
  · rw [recordEnd, hname, hextra, hcomment]
    omega
  · rw [entryAt, hname, htext.extract_eq, Text.decode_toUTF8, hmethod.field_digits (by decide),
      hcompressed.field_digits hcontent, huncompressed.field_digits hcontent, hlocal.field_digits hoffset]
    rfl

/-- **The content behind a local header is read as it was written.** -/
theorem readEntry_record {i : Nat} (h : StandsAt bytes i item.record) (es : List Entry) :
    (⟨bytes, es⟩ : Archive).readEntry (item.entry i) = pure item.content := by
  have hsize := h.le_size (by simp [record])
  rw [length_record] at hsize
  simp only [record, standsAt_append, List.length_append, Vector.length_toList, length_digits, List.length_cons,
    List.length_nil, Nat.reduceAdd] at h
  obtain ⟨⟨⟨⟨⟨⟨hsigned, -⟩, hname⟩, hextra⟩, -⟩, -⟩, hcontent⟩ := h
  have hname := hname.field_digits item.localName_lt
  have hextra := hextra.field_digits item.localExtra_lt
  have hsigned : field bytes i 4 = LocalHeader.expected := hsigned.field_eq
  have hread := LocalHeader.read?_eq bytes i
  rw [if_pos (by omega), hsigned, hname, hextra] at hread
  have hslice : slice? bytes (i + 30 + item.localName.length + item.localExtra.length) item.content.size =
      some item.content := by
    have hstart : i + (30 + item.localName.length + item.localExtra.length) =
        i + 30 + item.localName.length + item.localExtra.length := by omega
    rw [slice?, if_pos (by omega), ← hstart, hcontent.extract_eq]
  have hpayload : (⟨bytes, es⟩ : Archive).payload (item.entry i) = .ok item.content := by
    simp only [Archive.payload, entry, hread, if_true, LocalHeader.payloadOffset, LocalHeader.fixedSize, hslice]
  rw [Archive.readEntry, hpayload]
  rfl

end Item

/-! ## Archives -/

/-- Items with the positions of their local headers, the first item written from `start` on. -/
def placedFrom (start : Nat) : List Item → List (Item × Nat)
  | [] => []
  | item :: items =>
    (item, start + item.gap.length) :: placedFrom (start + item.gap.length + item.record.length) items

def centralRecords (placed : List (Item × Nat)) : List UInt8 := placed.flatMap fun p => p.1.centralRecord p.2

/-- An archive to be written: its items, what stands between the last of them and the directory, and the parts of the
end record that lead nowhere. -/
structure Layout where
  items : List Item
  gap : List UInt8
  disks : Vector UInt8 6
  commentLength : Vector UInt8 2
  comment : List UInt8
  items_lt : items.length < 65536
  comment_lt : comment.length < 65536

namespace Layout

def payloads (l : Layout) : List UInt8 := (l.items.flatMap fun item => item.gap ++ item.record) ++ l.gap

def placed (l : Layout) : List (Item × Nat) := placedFrom 0 l.items

def directory (l : Layout) : List UInt8 := centralRecords l.placed

def endRecord (l : Layout) : List UInt8 :=
  [0x50, 0x4B, 0x05, 0x06] ++ l.disks.toList ++ digits 2 l.items.length ++ digits 4 l.directory.length ++
    digits 4 l.payloads.length ++ l.commentLength.toList

def bytes (l : Layout) : ByteArray := (l.payloads ++ l.directory ++ l.endRecord ++ l.comment).toByteArray

def endPosition (l : Layout) : Nat := l.payloads.length + l.directory.length

/-- An archive that positions of four bytes reach everywhere and whose end record is the last that can be. -/
structure IsReadable (l : Layout) : Prop where
  size_lt : l.bytes.size < 4294967296
  last : ∀ q, l.endPosition < q → q + 22 ≤ l.bytes.size → ¬ StandsAt l.bytes q [0x50, 0x4B, 0x05, 0x06]

theorem size_bytes (l : Layout) : l.bytes.size = l.endPosition + 22 + l.comment.length := by
  simp only [bytes, endPosition, endRecord, List.size_toByteArray, List.length_append, Vector.length_toList,
    length_digits, List.length_cons, List.length_nil]

theorem bytes_eq (l : Layout) :
    l.bytes = ⟨(l.payloads ++ l.directory ++ l.endRecord ++ l.comment).toArray⟩ := by
  apply ByteArray.ext
  apply Array.toList_inj.1
  rw [bytes, List.toList_data_toByteArray]

theorem stands (l : Layout) : StandsAt l.bytes 0 l.payloads ∧ StandsAt l.bytes l.payloads.length l.directory ∧
    StandsAt l.bytes l.endPosition l.endRecord := by
  have hall : StandsAt l.bytes 0 (l.payloads ++ l.directory ++ l.endRecord ++ l.comment) := by
    rw [StandsAt, bytes, List.toList_data_toByteArray]
    exact List.prefix_rfl
  simp only [standsAt_append, List.length_append, Nat.zero_add] at hall
  exact ⟨hall.1.1.1, hall.1.1.2, hall.1.2⟩

end Layout

theorem standsAt_of_mem_placedFrom {bytes : ByteArray} {items : List Item} {start : Nat} {p : Item × Nat}
    (h : StandsAt bytes start (items.flatMap fun item => item.gap ++ item.record)) (hp : p ∈ placedFrom start items) :
    StandsAt bytes p.2 p.1.record := by
  induction items generalizing start with
  | nil => cases hp
  | cons item items ih =>
    simp only [List.flatMap_cons, standsAt_append, List.length_append, ← Nat.add_assoc] at h
    obtain ⟨⟨-, hrecord⟩, hrest⟩ := h
    rcases List.mem_cons.1 hp with rfl | hp
    · exact hrecord
    · exact ih hrest hp

theorem map_fst_placedFrom (start : Nat) (items : List Item) : (placedFrom start items).map Prod.fst = items := by
  induction items generalizing start with
  | nil => rfl
  | cons item items ih => rw [placedFrom, List.map_cons, ih]

/-- **Directory records written one after the other are read one after the other.** -/
theorem read_centralRecords {bytes : ByteArray} (placed : List (Item × Nat)) {first : Nat}
    (h : StandsAt bytes first (centralRecords placed))
    (hsmall : ∀ p ∈ placed, p.1.content.size < 4294967296 ∧ p.2 < 4294967296) :
    (∀ k < placed.length, HoldsRecord bytes (recordStart bytes first k)) ∧
      recordStart bytes first placed.length = first + (centralRecords placed).length ∧
        entriesFrom bytes first placed.length = placed.map fun p => p.1.entry p.2 := by
  induction placed generalizing first with
  | nil => exact ⟨fun k hk => absurd hk (Nat.not_lt_zero k), rfl, rfl⟩
  | cons p placed ih =>
    rw [centralRecords, List.flatMap_cons, standsAt_append] at h
    obtain ⟨hcontent, hoffset⟩ := hsmall p List.mem_cons_self
    obtain ⟨hholds, hend, hentry⟩ := Item.read_centralRecord h.1 hcontent hoffset
    -- The other records stand where the first one ends.
    rw [← hend] at h
    obtain ⟨hlater, hreached, hentries⟩ := ih h.2 fun q hq => hsmall q (List.mem_cons_of_mem _ hq)
    refine ⟨Nat.forall_lt_succ_left.2 ⟨hholds, fun k hk => ?_⟩, ?_, ?_⟩
    · rw [← recordStart_recordEnd]
      exact hlater k hk
    · rw [List.length_cons, ← recordStart_recordEnd, hreached, hend, centralRecords, centralRecords, List.flatMap_cons,
        List.length_append, Nat.add_assoc]
    · rw [List.length_cons, entriesFrom_succ, hentry, hentries, List.map_cons]

end OfficePreview.Zip
