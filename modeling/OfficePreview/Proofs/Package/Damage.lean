import OfficePreview.Preview
import OfficePreview.Proofs.Zip.Agreement
import OfficePreview.Proofs.Zip.RoundTrip
/-!
# Damage — parts that are not used do no harm

A preview is made from few parts of a package: one for a document; the workbook, its relationships, the first sheet and
the shared texts for a sheet.  Each step of making it either asks whether the directory has a name or reads a part, so
in a package that keeps the directory and the records of these parts each step comes to the same (`SameIfOk`), and so
does the whole.  All other bytes may be anything (`unused_damage_invisible`).
-/
namespace OfficePreview

open Zip (Archive AgreeOn IsEndRecord KeepsDirectory KeepsRecord MayEnd StandsAt)
open Package (openArchive readPart? readRequired)

/-! ## Reports that are the same where they succeed -/

namespace Report

variable {ω ε α β : Type}

/-- Where the first report is a success, the second is the same report. -/
def SameIfOk (r r' : Report ω ε α) : Prop := ∀ a, r.outcome = .ok a → r' = r

namespace SameIfOk

theorem refl (r : Report ω ε α) : SameIfOk r r := fun _ _ => rfl

/-- **Two sequences of steps come to the same if their steps do**; the later steps need only be compared at what the
earlier ones come to. -/
theorem bind {r r' : Report ω ε α} {f f' : α → Report ω ε β} (h : SameIfOk r r')
    (hf : ∀ a, r.outcome = .ok a → SameIfOk (f a) (f' a)) : SameIfOk (r >>= f) (r' >>= f') := by
  intro b hb
  rw [outcome_bind] at hb
  cases hr : r.outcome with
  | error e =>
    rw [hr] at hb
    cases hb
  | ok a =>
    rw [hr] at hb
    rw [h a hr]
    have hfa : f' a = f a := hf a hr b hb
    simp [Bind.bind, Report.bind, hr, hfa]

theorem map {r r' : Report ω ε α} (h : SameIfOk r r') (f : α → β) : SameIfOk (f <$> r) (f <$> r') :=
  h.bind fun _ _ => refl _

theorem lift {ω' ε' : Type} {r r' : Report ω ε α} (h : SameIfOk r r') (f : ω → ω') (g : ε → ε') :
    SameIfOk (r.lift f g) (r'.lift f g) := by
  intro a ha
  cases hr : r.outcome with
  | error e =>
    rw [outcome_lift, hr] at ha
    cases ha
  | ok a => rw [h a hr]

end SameIfOk

end Report

open Report (SameIfOk)

/-! ## Archives with the same entries -/

/-- The archive `a'` has the entries of `a`, and its buffer is no shorter. -/
structure Zip.Archive.SameIndex (a a' : Archive) : Prop where
  entries_eq : a'.entries = a.entries
  size_le : a.bytes.size ≤ a'.bytes.size

/-- The buffer `c` keeps the local record of the part `name` of an archive, if there is one. -/
def Zip.Archive.KeepsPart (a : Archive) (c : ByteArray) (name : String) : Prop :=
  ∀ e, a.entry? name = some e → KeepsRecord a.bytes c e

instance (a : Archive) (c : ByteArray) (name : String) : Decidable (a.KeepsPart c name) :=
  match h : a.entry? name with
  | none => isTrue fun e he => by
      rw [h] at he
      cases he
  | some e => decidable_of_iff (KeepsRecord a.bytes c e) ⟨fun keeps e' he => by
      rw [h] at he
      cases he
      exact keeps, fun keeps => keeps e h⟩

namespace Zip.Archive.SameIndex

variable {a a' : Archive} (index : a.SameIndex a')
include index

theorem lookup_eq (name : String) : a'.entry? name = a.entry? name := lookup_of_entries index.entries_eq name

theorem contains_eq (name : String) : a'.contains name = a.contains name := by
  rw [contains, contains, index.lookup_eq]

theorem read {name : String} (keeps : a.KeepsPart a'.bytes name) : SameIfOk (a.read name) (a'.read name) :=
  fun _ h => read_of_keeps index.entries_eq index.size_le keeps h

theorem readPart? {name : String} (keeps : a.KeepsPart a'.bytes name) :
    SameIfOk (Package.readPart? a name) (Package.readPart? a' name) :=
  ((index.read keeps).map _).lift _ _

theorem readRequired {name : String} (keeps : a.KeepsPart a'.bytes name) :
    SameIfOk (Package.readRequired a name) (Package.readRequired a' name) :=
  (index.readPart? keeps).bind fun _ _ => .refl _

/-! ## Documents and sheets -/

theorem document (keeps : a.KeepsPart a'.bytes Package.documentPart) :
    SameIfOk (Word.Document.ofArchive a) (Word.Document.ofArchive a') :=
  (index.readRequired keeps).bind fun _ _ => .refl _

theorem sheetPart_eq (target : String) : Sheet.sheetPart a' target = Sheet.sheetPart a target := by
  unfold Sheet.sheetPart
  simp only [index.contains_eq]

/-- **The first sheet is found again**; the directory is asked for names, but no part is read besides the two. -/
theorem locateFirst (workbook : a.KeepsPart a'.bytes Package.workbookPart)
    (relationships : a.KeepsPart a'.bytes Package.workbookRelationshipsPart) :
    SameIfOk (Sheet.locateFirst a) (Sheet.locateFirst a') := by
  refine (index.readRequired workbook).bind fun _ _ => ?_
  refine (SameIfOk.refl _).bind fun entry _ => ?_
  cases entry.relationshipId with
  | none => exact .refl _
  | some id =>
    refine (index.readRequired relationships).bind fun _ _ => ?_
    refine (SameIfOk.refl _).bind fun found _ => ?_
    simp only [index.sheetPart_eq]
    exact .refl _

theorem sharedStrings (keeps : a.KeepsPart a'.bytes Package.sharedStringsPart) :
    SameIfOk (Sheet.SharedStrings.ofArchive a) (Sheet.SharedStrings.ofArchive a') :=
  (index.readPart? keeps).bind fun _ _ => .refl _

theorem worksheet (workbook : a.KeepsPart a'.bytes Package.workbookPart)
    (relationships : a.KeepsPart a'.bytes Package.workbookRelationshipsPart)
    (sheet : ∀ name part, (Sheet.locateFirst a).outcome = .ok (name, part) → a.KeepsPart a'.bytes part)
    (shared : a.KeepsPart a'.bytes Package.sharedStringsPart) :
    SameIfOk (Sheet.Worksheet.ofArchive a) (Sheet.Worksheet.ofArchive a') := by
  refine (index.locateFirst workbook relationships).bind fun found hfound => ?_
  obtain ⟨name, part⟩ := found
  refine (index.readRequired (sheet name part hfound)).bind fun _ _ => ?_
  exact (index.sharedStrings shared).bind fun _ _ => .refl _

end Zip.Archive.SameIndex

/-! ## Packages with damage elsewhere -/

theorem openArchive_of_ofBytes {bytes : ByteArray} {a : Archive} (h : Archive.ofBytes bytes = ⟨.ok a, []⟩) :
    openArchive bytes = pure a := by
  rw [openArchive, h]
  rfl

/-- The buffer `c` is as long as `b` and holds the same bytes from the end record of `b` at `p` on, and in the range
where this record says that the directory lies. -/
structure DamagedElsewhere (b c : ByteArray) (p : Nat) : Prop where
  size_eq : c.size = b.size
  tail : AgreeOn b c p b.size
  records : AgreeOn b c (Zip.directoryStart b p) (Zip.directoryEnd b p)

namespace DamagedElsewhere

variable {b c : ByteArray} {p : Nat}

theorem refl (b : ByteArray) (p : Nat) : DamagedElsewhere b b p := ⟨rfl, fun _ _ _ => rfl, fun _ _ _ => rfl⟩

theorem mayEnd_iff (h : DamagedElsewhere b c p) {q : Nat} (hq : p ≤ q) : MayEnd c q ↔ MayEnd b q := by
  have hsigned (hfits : q + 22 ≤ b.size) :
      StandsAt c q [0x50, 0x4B, 0x05, 0x06] ↔ StandsAt b q [0x50, 0x4B, 0x05, 0x06] :=
    (h.tail.mono hq (by simp only [List.length_cons, List.length_nil]; omega)).standsAt_iff
  constructor
  · rintro ⟨hfits, hcomment, hs⟩
    rw [h.size_eq] at hfits hcomment
    exact ⟨hfits, hcomment, (hsigned hfits).1 hs⟩
  · rintro ⟨hfits, hcomment, hs⟩
    refine ⟨?_, ?_, (hsigned hfits).2 hs⟩
    · rw [h.size_eq]
      exact hfits
    · rw [h.size_eq]
      exact hcomment

/-- The end record is found where it was. -/
theorem isEndRecord (h : DamagedElsewhere b c p) (hp : IsEndRecord b p) : IsEndRecord c p := by
  refine ⟨(h.mayEnd_iff (Nat.le_refl p)).2 hp.1, fun q hq => Nat.le_of_not_lt fun hlt => ?_⟩
  have := hp.2 q ((h.mayEnd_iff (Nat.le_of_lt hlt)).1 hq)
  omega

theorem keepsDirectory (h : DamagedElsewhere b c p) (hp : IsEndRecord b p) {a : Archive}
    (opened : (Archive.ofBytes b).outcome = .ok a) : KeepsDirectory b c p := by
  obtain ⟨-, hends, -⟩ := Archive.lists_of_strict hp opened
  refine ⟨Nat.le_of_eq h.size_eq.symm, ?_, fun k hk => Zip.keepsCentral_of_agreeOn ?_ hk⟩
  · have := hp.1.fits
    exact h.tail.mono (by omega) (by omega)
  · -- The records fill the range of the directory, since the package opens strictly.
    have hreached : Zip.recordStart b (Zip.directoryStart b p) (Zip.recordCount b p) = Zip.directoryEnd b p := hends
    rw [hreached]
    exact h.records

/-- **A package that opens strictly opens again**, with the same entries and without a warning. -/
theorem ofBytes_eq (h : DamagedElsewhere b c p) (hp : IsEndRecord b p) {a : Archive}
    (opened : (Archive.ofBytes b).outcome = .ok a) :
    a.bytes = b ∧ Archive.ofBytes c = ⟨.ok ⟨c, a.entries⟩, []⟩ :=
  Archive.ofBytes_of_keeps hp (h.isEndRecord hp) (h.keepsDirectory hp opened) opened

theorem openArchive_eq (h : DamagedElsewhere b c p) (hp : IsEndRecord b p) {a : Archive}
    (opened : (Archive.ofBytes b).outcome = .ok a) : openArchive c = pure ⟨c, a.entries⟩ :=
  openArchive_of_ofBytes (h.ofBytes_eq hp opened).2

end DamagedElsewhere

variable {b c : ByteArray} {p : Nat} {a : Archive}

theorem convert_document (opened : openArchive b = pure a) (o : Html.Options) : convert b .wordProcessing o =
    Word.Document.ofArchive a >>= fun document => pure (.document (document.toHtml o)) := by
  rw [convert, Word.Document.ofBytes, opened, pure_bind]

theorem convert_sheet (opened : openArchive b = pure a) (o : Html.Options) : convert b .spreadsheet o =
    Sheet.Worksheet.ofArchive a >>= fun sheet => pure (.sheet sheet.name (sheet.toHtml o)) := by
  rw [convert, Sheet.Worksheet.ofBytes, opened, pure_bind]

/-- **Damage outside the parts that are used does not show.**  Take a package that opens strictly and a buffer that
differs from it outside the end record with what follows and outside the directory.  It opens with the same entries.  A
name whose local record is kept, if it is read from the package, is read the same from the buffer.  A document is
converted the same if the record of its one part is kept; a sheet, if those of the workbook, of its relationships, of
the first sheet and of the shared texts are. -/
theorem unused_damage_invisible (hp : IsEndRecord b p) (damaged : DamagedElsewhere b c p)
    (opened : (Archive.ofBytes b).outcome = .ok a) :
    ∃ a', (Archive.ofBytes c).outcome = .ok a' ∧ a'.bytes = c ∧ a'.entries = a.entries ∧
      (∀ name data, a.KeepsPart c name → (a.read name).outcome = .ok data → a'.read name = a.read name) ∧
      (∀ o preview, a.KeepsPart c Package.documentPart →
        (convert b .wordProcessing o).outcome = .ok preview →
          convert c .wordProcessing o = convert b .wordProcessing o) ∧
      (∀ o preview, a.KeepsPart c Package.workbookPart → a.KeepsPart c Package.workbookRelationshipsPart →
        (∀ name part, (Sheet.locateFirst a).outcome = .ok (name, part) → a.KeepsPart c part) →
          a.KeepsPart c Package.sharedStringsPart →
            (convert b .spreadsheet o).outcome = .ok preview →
              convert c .spreadsheet o = convert b .spreadsheet o) := by
  obtain ⟨hbytes, hopen⟩ := damaged.ofBytes_eq hp opened
  have hb : openArchive b = pure a := by
    rw [(DamagedElsewhere.refl b p).openArchive_eq hp opened, ← hbytes]
  have hc : openArchive c = pure ⟨c, a.entries⟩ := damaged.openArchive_eq hp opened
  have index : a.SameIndex ⟨c, a.entries⟩ := ⟨rfl, Nat.le_of_eq (by rw [hbytes, damaged.size_eq])⟩
  refine ⟨⟨c, a.entries⟩, by rw [hopen], rfl, rfl, ?_, ?_, ?_⟩
  · intro name data keeps hread
    exact index.read keeps data hread
  · intro o preview keeps hconvert
    rw [convert_document hb] at hconvert ⊢
    rw [convert_document hc]
    exact (index.document keeps).bind (fun _ _ => .refl _) preview hconvert
  · intro o preview workbook relationships sheet shared hconvert
    rw [convert_sheet hb] at hconvert ⊢
    rw [convert_sheet hc]
    exact (index.worksheet workbook relationships sheet shared).bind (fun _ _ => .refl _) preview hconvert

/-- A package of a document and a sheet, and a picture that neither of them shows. -/
def pictureLayout (picture : List UInt8) : Zip.Layout where
  items := [Zip.plainItem "a.png" ⟨picture.toArray⟩ (by decide),
    Zip.plainItem "word/document.xml" "<w:body><w:p><w:r><w:t>x</w:t></w:r></w:p></w:body>".toUTF8 (by decide),
    Zip.plainItem "xl/workbook.xml" "<sheet name='S' r:id='r1'/>".toUTF8 (by decide),
    Zip.plainItem "xl/_rels/workbook.xml.rels" "<Relationship Id='r1' Target='s.xml'/>".toUTF8 (by decide),
    Zip.plainItem "xl/s.xml" "<c><v>1</v></c>".toUTF8 (by decide)]
  gap := []
  disks := .replicate 6 0
  commentLength := .replicate 2 0
  comment := []
  items_lt := by simp
  comment_lt := by decide

theorem isReadable_pictureLayout : (pictureLayout [1, 2]).IsReadable := by
  refine Zip.Layout.isReadable_of_comment ?_ fun k hk => absurd hk (Nat.not_lt_zero k)
  rw [Zip.Layout.size_bytes]
  decide +kernel

theorem damagedElsewhere_pictureLayout : DamagedElsewhere (pictureLayout [1, 2]).bytes (pictureLayout [0, 0]).bytes
    (pictureLayout [1, 2]).endPosition := by
  obtain ⟨-, hstart, hend⟩ := Zip.Layout.endFields isReadable_pictureLayout
  refine ⟨?_, ?_, ?_⟩
  · rw [Zip.Layout.size_bytes, Zip.Layout.size_bytes]
    decide +kernel
  · rw [Zip.Layout.bytes_eq, Zip.Layout.bytes_eq]
    decide +kernel
  · rw [hstart, hend, Zip.Layout.bytes_eq, Zip.Layout.bytes_eq]
    decide +kernel

theorem keepsPart_pictureLayout : ∀ name ∈ [Package.documentPart, Package.workbookPart,
    Package.workbookRelationshipsPart, "xl/s.xml", Package.sharedStringsPart],
      (pictureLayout [1, 2]).archive.KeepsPart (pictureLayout [0, 0]).bytes name := by
  rw [Zip.Layout.archive, Zip.Layout.bytes_eq, Zip.Layout.bytes_eq]
  decide +kernel

theorem locateFirst_pictureLayout :
    (Sheet.locateFirst (pictureLayout [1, 2]).archive).outcome = .ok ("S", "xl/s.xml") := by
  rw [Zip.Layout.archive, Zip.Layout.bytes_eq]
  decide +kernel

theorem convert_pictureLayout :
    (convert (pictureLayout [1, 2]).bytes .wordProcessing .plain).outcome = .ok (.document "<p>x</p>") ∧
      (convert (pictureLayout [1, 2]).bytes .spreadsheet .plain).outcome =
        .ok (.sheet "S" "<table><caption>S</caption><tbody><tr><td>1</td></tr></tbody></table>") := by
  have hopen := openArchive_of_ofBytes (Zip.Layout.ofBytes_eq isReadable_pictureLayout true)
  constructor
  · rw [convert_document hopen, Zip.Layout.archive, Zip.Layout.bytes_eq]
    decide +kernel
  · rw [convert_sheet hopen, Zip.Layout.archive, Zip.Layout.bytes_eq]
    decide +kernel

theorem unused_damage_invisible_pictureLayout :
    IsEndRecord (pictureLayout [1, 2]).bytes (pictureLayout [1, 2]).endPosition ∧
      DamagedElsewhere (pictureLayout [1, 2]).bytes (pictureLayout [0, 0]).bytes (pictureLayout [1, 2]).endPosition ∧
      (Archive.ofBytes (pictureLayout [1, 2]).bytes).outcome = .ok (pictureLayout [1, 2]).archive ∧
      convert (pictureLayout [0, 0]).bytes .wordProcessing .plain =
        convert (pictureLayout [1, 2]).bytes .wordProcessing .plain ∧
      convert (pictureLayout [0, 0]).bytes .spreadsheet .plain =
        convert (pictureLayout [1, 2]).bytes .spreadsheet .plain := by
  have located := Zip.Layout.isEndRecord isReadable_pictureLayout
  have opened : (Archive.ofBytes (pictureLayout [1, 2]).bytes).outcome = .ok (pictureLayout [1, 2]).archive :=
    congrArg Report.outcome (Zip.Layout.ofBytes_eq isReadable_pictureLayout true)
  obtain ⟨-, -, -, -, -, document, sheet⟩ :=
    unused_damage_invisible located damagedElsewhere_pictureLayout opened
  refine ⟨located, damagedElsewhere_pictureLayout, opened, ?_, ?_⟩
  · exact document .plain _ (keepsPart_pictureLayout _ (by simp)) convert_pictureLayout.1
  · have part : ∀ name part, (Sheet.locateFirst (pictureLayout [1, 2]).archive).outcome = .ok (name, part) →
        (pictureLayout [1, 2]).archive.KeepsPart (pictureLayout [0, 0]).bytes part := by
      intro name part found
      rw [locateFirst_pictureLayout] at found
      cases found
      exact keepsPart_pictureLayout _ (by simp)
    exact sheet .plain _ (keepsPart_pictureLayout _ (by simp)) (keepsPart_pictureLayout _ (by simp)) part
      (keepsPart_pictureLayout _ (by simp)) convert_pictureLayout.2

end OfficePreview
