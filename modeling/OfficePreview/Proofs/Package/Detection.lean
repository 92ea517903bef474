import OfficePreview.Preview
import OfficePreview.Proofs.Sheet.Located
/-!
# Detection — the kind that is detected is the kind that can be converted

Detection opens a package and looks for the main parts; a conversion opens it again, requires the main part of its kind
(`Kind.mainPart`) and then other parts, which the package itself may name.  It calls a part missing only if the package
has none of that name (`ofArchive_bearsOut`), and its main part always then (`ofArchive_eq_missing_iff`), so that the two
agree (`conversion_agrees_with_detection`).
-/
namespace OfficePreview

open Zip (Archive)
open Package (Kind openArchive readPart? readRequired ofReading documentPart workbookPart outcome_readRequired
  read_eq_none_iff mapError_eq_error_iff)

/-! ## How a report can fail -/

namespace Report

variable {ω ε α β : Type} {p : ε → Prop}

theorem outcome_bind_of_error {r : Report ω ε α} {e : ε} (h : r.outcome = .error e) (f : α → Report ω ε β) :
    (r >>= f).outcome = .error e := by
  rw [outcome_bind, h]
  rfl

/-- An error that the report comes to has the property. -/
def FailsOnly (p : ε → Prop) (r : Report ω ε α) : Prop := ∀ e, r.outcome = .error e → p e

namespace FailsOnly

theorem pure (a : α) : FailsOnly p (Pure.pure a : Report ω ε α) := nofun

theorem fail {e : ε} (h : p e) : FailsOnly p (Report.fail e : Report ω ε α) := by
  intro e' he
  cases he
  exact h

/-- **A sequence of steps fails as its steps do.** -/
theorem bind {r : Report ω ε α} {f : α → Report ω ε β} (h : FailsOnly p r) (hf : ∀ a, FailsOnly p (f a)) :
    FailsOnly p (r >>= f) := by
  intro e he
  rw [outcome_bind] at he
  cases hr : r.outcome with
  | error e' =>
    rw [hr] at he
    cases he
    exact h e hr
  | ok a =>
    rw [hr] at he
    exact hf a e he

theorem lift {ω' ε' : Type} {p : ε' → Prop} {g : ε → ε'} (hg : ∀ e, p (g e)) (f : ω → ω') (r : Report ω ε α) :
    FailsOnly p (r.lift f g) := by
  intro e' he
  rw [outcome_lift, mapError_eq_error_iff] at he
  obtain ⟨e, -, rfl⟩ := he
  exact hg e

end FailsOnly

end Report

open Report (FailsOnly outcome_bind_of_error)

/-! ## Parts that are called missing -/

/-- A part that the error calls missing is none of the archive. -/
def BearsOut (a : Archive) (e : Error) : Prop := ∀ part, e = .missingPart part → a.contains part = false

variable {a : Archive}

theorem bearsOut_missingPart {part : String} (h : a.contains part = false) : BearsOut a (.missingPart part) := by
  intro part' heq
  cases heq
  exact h

theorem readPart?_bearsOut (part : String) : FailsOnly (BearsOut a) (readPart? a part) := .lift (fun _ => nofun) _ _

theorem readRequired_bearsOut (part : String) : FailsOnly (BearsOut a) (readRequired a part) := by
  intro e he
  rw [outcome_readRequired] at he
  cases hr : (a.read part).outcome with
  | error z =>
    rw [hr] at he
    cases he
    exact nofun
  | ok found =>
    rw [hr] at he
    cases found with
    | none =>
      cases he
      exact bearsOut_missingPart ((read_eq_none_iff a part).1 hr)
    | some bytes => cases he

theorem ofReading_bearsOut {α : Type} (part : String) (r : Except Xml.Fault α) :
    FailsOnly (BearsOut a) (.ofExcept (ofReading part r) : Attempt α) := by
  intro e he
  obtain ⟨fault, -, rfl⟩ := (mapError_eq_error_iff _ _ _).1 he
  exact nofun

theorem firstOfText_bearsOut (part text : String) :
    FailsOnly (BearsOut a) (.ofExcept (Sheet.SheetEntry.firstOfText part text) : Attempt Sheet.SheetEntry) := by
  intro e he
  rw [Report.outcome_ofExcept, Sheet.SheetEntry.firstOfText] at he
  split at he
  · rename_i e' hreading
    cases he
    exact ofReading_bearsOut part _ e hreading
  · cases he
    exact nofun
  · cases he

theorem locateFirst_bearsOut : FailsOnly (BearsOut a) (Sheet.locateFirst a) := by
  refine (readRequired_bearsOut _).bind fun workbook => ?_
  refine (firstOfText_bearsOut _ workbook).bind fun entry => ?_
  cases entry.relationshipId with
  | none => exact .fail nofun
  | some id =>
    refine (readRequired_bearsOut _).bind fun text => ?_
    refine (ofReading_bearsOut _ _).bind fun relationships => ?_
    cases relationships.get? id with
    | none => exact .fail nofun
    | some r =>
      dsimp only
      split
      · exact .fail nofun
      · split
        · exact nofun
        · exact nofun

theorem sharedStrings_bearsOut : FailsOnly (BearsOut a) (Sheet.SharedStrings.ofArchive a) := by
  refine (readPart?_bearsOut _).bind fun found => ?_
  cases found with
  | none => exact .pure _
  | some text => exact ofReading_bearsOut _ _

theorem worksheet_bearsOut : FailsOnly (BearsOut a) (Sheet.Worksheet.ofArchive a) := by
  refine locateFirst_bearsOut.bind fun located => ?_
  refine (readRequired_bearsOut located.2).bind fun text => ?_
  refine sharedStrings_bearsOut.bind fun shared => ?_
  exact (FailsOnly.lift (fun _ => nofun) _ _).bind fun grid => .pure _

theorem document_bearsOut : FailsOnly (BearsOut a) (Word.Document.ofArchive a) :=
  (readRequired_bearsOut _).bind fun _ => ofReading_bearsOut _ _

/-! ## Conversion of an opened package -/

/-- The part that a package of the kind cannot be without. -/
def Package.Kind.mainPart : Kind → String
  | .wordProcessing => documentPart
  | .spreadsheet => workbookPart

/-- The preview of an opened package. -/
def Preview.ofArchive (a : Archive) (kind : Kind) (o : Html.Options) : Attempt Preview :=
  match kind with
  | .wordProcessing => do
    let document ← Word.Document.ofArchive a
    pure (.document (document.toHtml o))
  | .spreadsheet => do
    let sheet ← Sheet.Worksheet.ofArchive a
    pure (.sheet sheet.name (sheet.toHtml o))

theorem convert_eq (bytes : ByteArray) (kind : Kind) (o : Html.Options) :
    convert bytes kind o = openArchive bytes >>= fun a => Preview.ofArchive a kind o := by
  cases kind with
  | wordProcessing => rw [convert, Word.Document.ofBytes, bind_assoc]; rfl
  | spreadsheet => rw [convert, Sheet.Worksheet.ofBytes, bind_assoc]; rfl

/-- **A conversion calls no part missing that the package has**, whichever parts the package leads it to. -/
theorem ofArchive_bearsOut (kind : Kind) (o : Html.Options) : FailsOnly (BearsOut a) (Preview.ofArchive a kind o) := by
  cases kind with
  | wordProcessing => exact document_bearsOut.bind fun _ => .pure _
  | spreadsheet => exact worksheet_bearsOut.bind fun _ => .pure _

theorem outcome_readRequired_of_missing {part : String} (h : a.contains part = false) :
    (readRequired a part).outcome = .error (.missingPart part) := by
  rw [outcome_readRequired, (read_eq_none_iff a part).2 h]

/-- **A conversion calls its main part missing exactly if the package has none.** -/
theorem ofArchive_eq_missing_iff (kind : Kind) (o : Html.Options) :
    (Preview.ofArchive a kind o).outcome = .error (.missingPart kind.mainPart) ↔ a.contains kind.mainPart = false := by
  constructor
  · intro h
    exact ofArchive_bearsOut kind o _ h _ rfl
  · intro h
    cases kind with
    | wordProcessing =>
      have hdocument : (Word.Document.ofArchive a).outcome = .error (.missingPart documentPart) :=
        outcome_bind_of_error (outcome_readRequired_of_missing h) _
      exact outcome_bind_of_error hdocument _
    | spreadsheet =>
      have hlocated : (Sheet.locateFirst a).outcome = .error (.missingPart workbookPart) :=
        outcome_bind_of_error (outcome_readRequired_of_missing h) _
      have hsheet : (Sheet.Worksheet.ofArchive a).outcome = .error (.missingPart workbookPart) :=
        outcome_bind_of_error hlocated _
      exact outcome_bind_of_error hsheet _

/-! ## Detection -/

theorem Package.Kind.ofArchive?_eq_document_iff :
    Kind.ofArchive? a = some .wordProcessing ↔ a.contains documentPart = true := by
  rw [Kind.ofArchive?]
  cases a.contains documentPart <;> cases a.contains workbookPart <;> simp

theorem Package.Kind.contains_of_ofArchive? {kind : Kind} (h : Kind.ofArchive? a = some kind) :
    a.contains kind.mainPart = true := by
  rw [Kind.ofArchive?] at h
  split at h
  · cases h
    assumption
  · split at h
    · cases h
      assumption
    · cases h

theorem Package.Kind.ofArchive?_eq_none_iff :
    Kind.ofArchive? a = none ↔ ∀ kind : Kind, a.contains kind.mainPart = false := by
  rw [Kind.ofArchive?]
  constructor
  · intro h kind
    cases hdocument : a.contains documentPart <;> cases hworkbook : a.contains workbookPart <;>
      cases kind <;> simp_all [Kind.mainPart]
  · intro h
    have hdocument : a.contains documentPart = false := h .wordProcessing
    have hworkbook : a.contains workbookPart = false := h .spreadsheet
    simp [hdocument, hworkbook]

theorem outcome_detect (bytes : ByteArray) :
    (Kind.detect bytes).outcome = (openArchive bytes).outcome.map Kind.ofArchive? := by
  rw [Kind.detect, Report.outcome_bind]
  cases (openArchive bytes).outcome <;> rfl

/-- **Detection agrees with conversion.**  What cannot be opened to detect its kind is not converted as either kind, for
the same reason.  Otherwise a conversion to a document calls the document missing exactly if that kind is not the one
detected; a sheet that is detected is not converted without its workbook being found; and where no kind is detected,
each conversion calls its main part missing. -/
theorem conversion_agrees_with_detection (bytes : ByteArray) (o : Html.Options) :
    (∀ e, (Kind.detect bytes).outcome = .error e → ∀ kind, (convert bytes kind o).outcome = .error e) ∧
      ∀ found, (Kind.detect bytes).outcome = .ok found →
        ((convert bytes .wordProcessing o).outcome = .error (.missingPart documentPart) ↔
          found ≠ some .wordProcessing) ∧
        (found = some .spreadsheet →
          (convert bytes .spreadsheet o).outcome ≠ .error (.missingPart workbookPart)) ∧
        (found = none → ∀ kind, (convert bytes kind o).outcome = .error (.missingPart kind.mainPart)) := by
  rw [outcome_detect]
  cases hopen : (openArchive bytes).outcome with
  | error e =>
    refine ⟨fun e' he kind => ?_, nofun⟩
    cases he
    rw [convert_eq]
    exact outcome_bind_of_error hopen _
  | ok a =>
    have converts (kind : Kind) : (convert bytes kind o).outcome = (Preview.ofArchive a kind o).outcome := by
      rw [convert_eq, Report.outcome_bind, hopen]
      rfl
    refine ⟨nofun, fun found hfound => ?_⟩
    cases hfound
    refine ⟨?_, ?_, ?_⟩
    · rw [converts, ne_eq, Kind.ofArchive?_eq_document_iff, Bool.not_eq_true]
      exact ofArchive_eq_missing_iff .wordProcessing o
    · intro hsheet hmissing
      rw [converts] at hmissing
      have habsent := (ofArchive_eq_missing_iff .spreadsheet o).1 hmissing
      rw [Kind.contains_of_ofArchive? hsheet] at habsent
      cases habsent
    · intro hnone kind
      rw [converts]
      exact (ofArchive_eq_missing_iff kind o).2 (Kind.ofArchive?_eq_none_iff.1 hnone kind)

/-- A workbook of a sheet that is not in the package. -/
def lostSheetLayout : Zip.Layout :=
  Sheet.linkedLayout "<sheet name='S' r:id='a'/>" "<Relationship Id='a' Target='gone.xml'/>"

theorem openArchive_lostSheetLayout : (openArchive lostSheetLayout.bytes).outcome = .ok lostSheetLayout.archive := by
  have readable : lostSheetLayout.IsReadable :=
    Zip.Layout.isReadable_of_comment (by rw [Zip.Layout.size_bytes]; decide +kernel) (by decide +kernel)
  rw [openArchive, Zip.Layout.ofBytes_eq readable]
  rfl

theorem detect_lostSheetLayout : (Kind.detect lostSheetLayout.bytes).outcome = .ok (some .spreadsheet) := by
  rw [outcome_detect, openArchive_lostSheetLayout, Except.map, Kind.ofArchive?, lostSheetLayout,
    Sheet.contains_linkedLayout, Sheet.contains_linkedLayout]
  decide +kernel

/-- An archive of nothing. -/
def emptyArchive : ByteArray := ⟨(#[0x50, 0x4B, 0x05, 0x06] : Array UInt8) ++ Array.replicate 18 0⟩

/-- No archive, a workbook without its sheet, and an archive of nothing. -/
theorem conversion_agrees_with_detection_lostSheet :
    ((Kind.detect .empty).outcome = .error (.archive .notAZip) ∧
      (convert .empty .spreadsheet .plain).outcome = .error (.archive .notAZip)) ∧
      ((Kind.detect lostSheetLayout.bytes).outcome = .ok (some .spreadsheet) ∧
        (convert lostSheetLayout.bytes .wordProcessing .plain).outcome = .error (.missingPart documentPart) ∧
        (convert lostSheetLayout.bytes .spreadsheet .plain).outcome ≠ .error (.missingPart workbookPart)) ∧
      (Kind.detect emptyArchive).outcome = .ok none ∧
        (convert emptyArchive .spreadsheet .plain).outcome = .error (.missingPart workbookPart) := by
  have unreadable : (Kind.detect .empty).outcome = .error (.archive .notAZip) := by decide +kernel
  have nothing : (Kind.detect emptyArchive).outcome = .ok none := by decide +kernel
  obtain ⟨document, sheet, -⟩ :=
    (conversion_agrees_with_detection lostSheetLayout.bytes .plain).2 _ detect_lostSheetLayout
  refine ⟨⟨unreadable, ?_⟩, ⟨detect_lostSheetLayout, document.2 (by decide), sheet rfl⟩, nothing, ?_⟩
  · exact (conversion_agrees_with_detection .empty .plain).1 _ unreadable .spreadsheet
  · exact ((conversion_agrees_with_detection emptyArchive .plain).2 _ nothing).2.2 rfl .spreadsheet

example : (convert lostSheetLayout.bytes .spreadsheet .plain).outcome = .error (.missingPart "xl/gone.xml") := by
  rw [convert_eq, Report.outcome_bind, openArchive_lostSheetLayout, Zip.Layout.archive, Zip.Layout.bytes_eq]
  decide +kernel

end OfficePreview
