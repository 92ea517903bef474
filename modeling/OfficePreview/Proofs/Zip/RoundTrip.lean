import Mathlib.Data.Finset.Card
import OfficePreview.Proofs.Zip.Layout
/-!
# RoundTrip — an archive that is written is read back

The end record of a written archive is found where it was written (`isEndRecord`), its fields lead to the directory, and
the records there are those of the items (`listed_eq`).  So the archive opens, its names are those of the items, and a name
stands for the content of the last item that has it (`read_archive`).  Nothing depends on what the contents hold, be it
signatures of their own.
-/
namespace OfficePreview.Zip

namespace Layout

variable {l : Layout}

theorem isEndRecord (h : l.IsReadable) : IsEndRecord l.bytes l.endPosition := by
  have hsize := l.size_bytes
  have hcomment := l.comment_lt
  have hsigned := l.stands.2.2
  simp only [endRecord, standsAt_append] at hsigned
  refine ⟨⟨by omega, by omega, hsigned.1.1.1.1.1⟩, fun q hq => Nat.le_of_not_lt fun hlt => ?_⟩
  exact h.last q hlt hq.fits hq.signed

theorem endFields (h : l.IsReadable) : recordCount l.bytes l.endPosition = l.items.length ∧
    directoryStart l.bytes l.endPosition = l.payloads.length ∧ directoryEnd l.bytes l.endPosition = l.endPosition := by
  have hsize := l.size_bytes
  have hbound := h.size_lt
  have hend := l.stands.2.2
  have hposition : l.endPosition = l.payloads.length + l.directory.length := rfl
  simp only [endRecord, standsAt_append, List.length_append, Vector.length_toList, length_digits, List.length_cons,
    List.length_nil, Nat.reduceAdd] at hend
  obtain ⟨⟨⟨⟨-, hcount⟩, hlength⟩, hstart⟩, -⟩ := hend
  have hstart := hstart.field_digits (by omega)
  have hlength := hlength.field_digits (by omega)
  exact ⟨hcount.field_digits l.items_lt, hstart, by rw [directoryEnd, hstart, hlength, hposition]⟩

theorem standsAt_of_mem_placed {p : Item × Nat} (hp : p ∈ l.placed) : StandsAt l.bytes p.2 p.1.record := by
  have hpayloads := l.stands.1
  rw [payloads, standsAt_append] at hpayloads
  exact standsAt_of_mem_placedFrom hpayloads.1 hp

theorem small_of_mem_placed (h : l.IsReadable) {p : Item × Nat} (hp : p ∈ l.placed) :
    p.1.content.size < 4294967296 ∧ p.2 < 4294967296 := by
  have hsize := (standsAt_of_mem_placed hp).le_size (by simp [Item.record])
  have hbound := h.size_lt
  rw [Item.length_record] at hsize
  omega

theorem length_placed (l : Layout) : l.placed.length = l.items.length := by
  rw [← List.length_map (f := Prod.fst), placed, map_fst_placedFrom]

/-- **The directory that is written is the directory that is read.** -/
theorem listed_eq (h : l.IsReadable) : ListsRecords l.bytes l.endPosition ∧
    walkEnd l.bytes l.endPosition = directoryEnd l.bytes l.endPosition ∧
      listed l.bytes l.endPosition = l.placed.map fun p => p.1.entry p.2 := by
  have hsize := l.size_bytes
  obtain ⟨hcount, hstart, hend⟩ := endFields h
  obtain ⟨hholds, hreached, hentries⟩ :=
    read_centralRecords l.placed l.stands.2.1 fun p hp => small_of_mem_placed h hp
  rw [length_placed] at hholds hreached hentries
  refine ⟨⟨by omega, ?_⟩, ?_, ?_⟩
  · rw [hcount, hstart]
    exact hholds
  · rw [walkEnd, hcount, hstart, hend]
    exact hreached
  · rw [listed, hcount, hstart]
    exact hentries

/-- **An archive that is written is opened without a warning**, however strictly it is read. -/
theorem directory_eq (h : l.IsReadable) (strict : Bool) :
    Zip.directory strict l.bytes = ⟨.ok (l.placed.map fun p => p.1.entry p.2).reverse, []⟩ := by
  obtain ⟨hlists, hends, hlisted⟩ := listed_eq h
  rw [directory_of_lists strict (isEndRecord h) hlists, if_pos hends, hlisted]

theorem isReadable_of_comment (hsize : l.bytes.size < 4294967296)
    (h : ∀ k < l.comment.length, ¬ StandsAt l.bytes (l.endPosition + 1 + k) [0x50, 0x4B, 0x05, 0x06]) :
    l.IsReadable where
  size_lt := hsize
  last q hq hfits := by
    rw [size_bytes] at hfits
    have hnot := h (q - (l.endPosition + 1)) (by omega)
    rw [Nat.add_sub_of_le hq] at hnot
    exact hnot

def last? (l : Layout) (name : String) : Option (Item × Nat) := (l.placed.filter (·.1.name = name)).getLast?

theorem map_last? (l : Layout) (name : String) :
    (l.last? name).map (·.1) = (l.items.filter (·.name = name)).getLast? := by
  rw [last?, ← List.getLast?_map, ← map_fst_placedFrom 0 l.items, List.filter_map, ← placed]
  rfl

def archive (l : Layout) : Archive := ⟨l.bytes, (l.placed.map fun p => p.1.entry p.2).reverse⟩

theorem ofBytes_eq (h : l.IsReadable) (strict : Bool) : Archive.ofBytes l.bytes strict = ⟨.ok l.archive, []⟩ := by
  rw [Archive.ofBytes, directory_eq h strict]
  rfl

theorem indexes_archive (l : Layout) : l.archive.Indexes (l.placed.map fun p => p.1.entry p.2) :=
  Archive.indexes_reverse l.bytes _

theorem exists_entry_iff (l : Layout) (name : String) :
    (∃ e ∈ l.placed.map (fun p => p.1.entry p.2), e.name = name) ↔ name ∈ l.items.map (·.name) := by
  rw [← map_fst_placedFrom 0 l.items, List.map_map, ← placed]
  simp [Item.entry]

theorem size_archive (l : Layout) : l.archive.size = (l.items.map (·.name)).toFinset.card := by
  have hnames : l.archive.names.toFinset = (l.items.map (·.name)).toFinset := by
    ext name
    rw [List.mem_toFinset, List.mem_toFinset, l.indexes_archive.mem_names_iff, exists_entry_iff]
  rw [← hnames, List.toFinset_card_of_nodup l.indexes_archive.nodup_names, Archive.size]

theorem read_archive (l : Layout) (name : String) :
    l.archive.read name = pure ((l.items.filter (·.name = name)).getLast?.map (·.content)) := by
  have hentry : l.archive.entry? name = (l.last? name).map fun p => p.1.entry p.2 := by
    rw [l.indexes_archive.lookup_eq, List.filter_map, List.getLast?_map]
    rfl
  rw [Archive.read, hentry, ← map_last?]
  cases hlast : l.last? name with
  | none => rfl
  | some p =>
    have hp : p ∈ l.placed := List.mem_of_mem_filter (List.mem_of_getLast? hlast)
    have hread := Item.readEntry_record (standsAt_of_mem_placed hp) (l.placed.map fun p => p.1.entry p.2).reverse
    simp only [Option.map_some]
    rw [archive, hread, map_pure]

end Layout

open Layout in
/-- **An archive that is written is read back.**  It opens without a warning, however strictly it is read; it has the
names of its items and no others; and reading a name gives the content of the last item of that name, byte for byte, and
nothing for a name that no item has. -/
theorem read_written (l : Layout) (h : l.IsReadable) (strict : Bool) :
    ∃ a, (Archive.ofBytes l.bytes strict).outcome = .ok a ∧ (Archive.ofBytes l.bytes strict).warnings = [] ∧
      (∀ name, a.contains name = true ↔ name ∈ l.items.map (·.name)) ∧
      a.size = (l.items.map (·.name)).toFinset.card ∧
      ∀ name, a.read name = pure ((l.items.filter (·.name = name)).getLast?.map (·.content)) := by
  refine ⟨l.archive, by rw [ofBytes_eq h], by rw [ofBytes_eq h], fun name => ?_, l.size_archive, l.read_archive⟩
  rw [l.indexes_archive.contains_iff, exists_entry_iff]

/-- An item with a name and a content and a byte in front of it. -/
def plainItem (name : String) (content : ByteArray) (name_lt : name.toUTF8.size < 65536) : Item where
  name
  content
  gap := [0x50]
  localFields := .replicate 22 0
  localName := [0x3F]
  localExtra := [1, 2]
  versions := .replicate 6 0
  stamps := .replicate 8 0
  attributes := .replicate 8 0
  extra := [3]
  comment := [4, 5]
  name_lt
  localName_lt := by decide
  localExtra_lt := by decide
  extra_lt := by decide
  comment_lt := by decide

/-- Two items of one name around another one, the last of them holding the signature of an end record. -/
def twiceLayout : Layout where
  items := [plainItem "a" ⟨#[1]⟩ (by decide), plainItem "b" ⟨#[2]⟩ (by decide),
    plainItem "a" ⟨#[0x50, 0x4B, 0x05, 0x06]⟩ (by decide)]
  gap := []
  disks := .replicate 6 0
  commentLength := ⟨#[4, 0], rfl⟩
  comment := [0x50, 0x4B, 0x05, 0x06]
  items_lt := by decide
  comment_lt := by decide

theorem isReadable_twiceLayout : twiceLayout.IsReadable :=
  Layout.isReadable_of_comment (by decide +kernel) (by decide +kernel)

theorem read_written_twiceLayout : twiceLayout.IsReadable ∧
    ∃ a, (Archive.ofBytes twiceLayout.bytes).outcome = .ok a ∧ a.size = 2 ∧
      a.read "a" = pure (some ⟨#[0x50, 0x4B, 0x05, 0x06]⟩) ∧ a.read "b" = pure (some ⟨#[2]⟩) ∧
      a.read "/a" = pure none := by
  obtain ⟨a, hopen, -, -, hsize, hread⟩ := read_written twiceLayout isReadable_twiceLayout true
  refine ⟨isReadable_twiceLayout, a, hopen, ?_, ?_, ?_, ?_⟩
  · rw [hsize]
    decide
  · rw [hread]
    rfl
  · rw [hread]
    rfl
  · rw [hread]
    rfl

end OfficePreview.Zip
