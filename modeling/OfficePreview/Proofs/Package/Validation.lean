import Mathlib.Control.Monad.Basic
import OfficePreview.Package.Relationship
import OfficePreview.Proofs.Word.Loops
import OfficePreview.Proofs.Xml.Tokens
import OfficePreview.Sheet.Cells
import OfficePreview.Sheet.Workbook
/-!
# Validation — every reading of a part checks the whole part

A part has a verdict of its own: what a reader finds that goes through it for its faults alone (`validate`).  A reading
of the part looks for something in it and may have found it long before the end; it fails all the same exactly if the
part does, and with the same error (`FailsAs`).  The list of sheets has one more way to fail, which is to be empty.

It makes no difference either how far a part was read before the rest of it is checked (`Reader.finish_of_skip`).
-/
namespace OfficePreview

open Xml (Event Tag Forest Reader Describes)

/-! ## Checking the rest of a part -/

namespace Xml.Reader

/-- A reader that is asked for `n` events, none of which is a fault.  At the end of the part it stays where it is. -/
def skip (r : Reader) : Nat → Except Fault Reader
  | 0 => .ok r
  | n + 1 =>
    match r.next with
    | .error fault => .error fault
    | .ok (_, s) => s.skip n

/-- **One event more or less does not change the verdict.** -/
theorem finish_of_next {r s : Reader} {e : Option Event} (h : r.next = .ok (e, s)) : s.finish = r.finish := by
  cases e with
  | none => rw [finish_of_end (next_again h), finish_of_end h]
  | some e => exact (finish_of_event h).symm

theorem finish_of_skip {r s : Reader} {n : Nat} (h : r.skip n = .ok s) : s.finish = r.finish := by
  induction n generalizing r with
  | zero =>
    cases h
    rfl
  | succ n ih =>
    unfold skip at h
    split at h
    · cases h
    · rename_i e t hn
      rw [ih h, finish_of_next hn]

end Xml.Reader

/-! ## Verdicts on a part -/

namespace Xml

variable {σ : Type} (f : σ → Event → Nat → σ) (init : σ) (text : String)

theorem readPart_verdict : (readPart f init text).2 = (Reader.ofText text).finish :=
  Reader.fold_verdict f init _

theorem parsePart_eq_error_iff (fault : Fault) :
    parsePart f init text = .error fault ↔ (Reader.ofText text).finish = .error fault := by
  rw [parsePart, readPart_verdict]
  cases (Reader.ofText text).finish <;> simp [Except.map]

end Xml

namespace Package

/-- The verdict on a part: whether it can be read to its end, and if not, the error that tells why. -/
def validate (part text : String) : Except Error Unit := ofReading part (Reader.ofText text).finish

theorem isWellFormed_of_validate {part text : String} (h : validate part text = .ok ()) : Xml.IsWellFormed text := by
  unfold validate ofReading at h
  cases hf : (Reader.ofText text).finish with
  | error fault => simp [hf, Except.mapError] at h
  | ok u => exact hf

/-- A reading of a part fails exactly if the part does, with the same error. -/
def FailsAs {α : Type} (part text : String) (reading : Except Error α) : Prop :=
  ∀ e, reading = .error e ↔ validate part text = .error e

theorem mapError_eq_error_iff {ε ε' α : Type} (f : ε → ε') (r : Except ε α) (e : ε') :
    r.mapError f = .error e ↔ ∃ fault, r = .error fault ∧ f fault = e := by
  cases r <;> simp [Except.mapError]

/-- A reading that has the faults of its part fails as the part does. -/
theorem failsAs_of_faults {α : Type} {part text : String} {reading : Except Xml.Fault α}
    (h : ∀ fault, reading = .error fault ↔ (Reader.ofText text).finish = .error fault) :
    FailsAs part text (ofReading part reading) := by
  intro e
  unfold validate ofReading
  rw [mapError_eq_error_iff, mapError_eq_error_iff]
  simp only [h]

theorem failsAs_of_parsePart {σ α : Type} (part text : String) (f : σ → Event → Nat → σ) (init : σ) (g : σ → α) :
    FailsAs part text (ofReading part ((Xml.parsePart f init text).map g)) := by
  refine failsAs_of_faults fun fault => ?_
  rw [← Xml.parsePart_eq_error_iff f init]
  cases Xml.parsePart f init text <;> simp [Except.map]

/-- A reading by one loop over the whole part. -/
theorem failsAs_readAll {σ α : Type} (part text : String) (step : σ → Event → Nat → σ) (atEnd : σ → α) (init : σ) :
    FailsAs part text (ofReading part (Xml.readAll step atEnd init text).2) := by
  rw [Xml.readAll_eq]
  exact failsAs_of_parsePart part text step init atEnd

theorem failsAs_relationships (part text : String) : FailsAs part text (ofReading part (Relationships.ofText text)) :=
  failsAs_readAll part text Relationships.step id {}

/-- A document: its loops stop at closing tags of their own, and the search for the body stops behind the body. -/
theorem failsAs_document (part text : String) : FailsAs part text (ofReading part (Word.Document.ofText text)) := by
  rw [Word.Document.ofText_eq]
  exact failsAs_of_parsePart part text Word.BodyBuilder.step {} _

end Package

/-! ## Sheets -/

namespace Sheet

open Package (validate FailsAs ofReading)

theorem failsAs_grid (part text : String) (shared : SharedStrings) :
    FailsAs part text ((Grid.ofText part shared text).lift Warning.sheet (Error.malformedXml part)).outcome :=
  Package.failsAs_readAll part text (GridBuilder.step part shared) _ {}

/-- **The first entry of a workbook is its first tag named as a sheet**, in the order of the document. -/
theorem foldl_step_entry (es : List (Event × Nat)) (first : Option SheetEntry) :
    es.foldl (fun s p => SheetEntry.step s p.1 p.2) first =
      first.or (((es.filterMap (fun p => p.1.tag?)).find? (·.isLocal "sheet")).map .ofTag) := by
  induction es generalizing first with
  | nil => simp
  | cons p es ih =>
    rw [List.foldl_cons, ih, List.filterMap_cons]
    cases first with
    | some entry => simp [SheetEntry.step]
    | none =>
      cases ht : p.1.tag? with
      | none => simp [SheetEntry.step, ht]
      | some tag => by_cases hs : tag.isLocal "sheet" = true <;> simp [SheetEntry.step, ht, hs]

theorem firstOfText_of_describes {part text : String} {forest : Forest} (h : Describes text forest) :
    SheetEntry.firstOfText part text =
      match forest.tags.find? (·.isLocal "sheet") with
      | some tag => .ok (.ofTag tag)
      | none => .error .noWorksheets := by
  unfold SheetEntry.firstOfText ofReading
  rw [h.readAll, foldl_step_entry, Forest.filterMap_tag_events]
  cases forest.tags.find? (·.isLocal "sheet") <;> rfl

/-- **The list of sheets of a valid part fails only for having no sheet.** -/
theorem firstOfText_eq_error_iff {part text : String} {forest : Forest} (h : Describes text forest) (e : Error) :
    SheetEntry.firstOfText part text = .error e ↔
      e = .noWorksheets ∧ ∀ tag ∈ forest.tags, tag.isLocal "sheet" = false := by
  rw [firstOfText_of_describes h]
  cases hf : forest.tags.find? (·.isLocal "sheet") with
  | none =>
    have hno : ∀ tag ∈ forest.tags, tag.isLocal "sheet" = false := by simpa using hf
    simp only [Except.error.injEq]
    exact ⟨fun he => ⟨he.symm, hno⟩, fun he => he.1.symm⟩
  | some tag =>
    have hs := List.find?_some hf
    have hm := List.mem_of_find?_eq_some hf
    simp only [reduceCtorEq, false_iff, not_and]
    intro _ hno
    rw [hno tag hm] at hs
    cases hs

theorem firstOfText_of_invalid {part text : String} {e : Error} (h : validate part text = .error e) :
    SheetEntry.firstOfText part text = .error e := by
  have hv := (Package.failsAs_readAll part text SheetEntry.step id none e).2 h
  unfold SheetEntry.firstOfText
  rw [hv]

end Sheet

/-- **Every reading of a part validates the whole part and adds no rejection of its own**, but that a workbook may have no
sheets; and a part that was read for a while has the verdict of the whole part. -/
theorem readings_fail_as_part (part text : String) (shared : Sheet.SharedStrings) :
    Package.FailsAs part text (Package.ofReading part (Word.Document.ofText text)) ∧
      Package.FailsAs part text
        ((Sheet.Grid.ofText part shared text).lift Warning.sheet (Error.malformedXml part)).outcome ∧
      Package.FailsAs part text (Package.ofReading part (Sheet.SharedStrings.ofText text)) ∧
      Package.FailsAs part text (Package.ofReading part (Package.Relationships.ofText text)) ∧
      (∀ e, Package.validate part text = .error e → Sheet.SheetEntry.firstOfText part text = .error e) ∧
      (Package.validate part text = .ok () → ∃ forest, Describes text forest ∧
        ∀ e, Sheet.SheetEntry.firstOfText part text = .error e ↔
          e = .noWorksheets ∧ ∀ tag ∈ forest.tags, tag.isLocal "sheet" = false) ∧
      ∀ n r, (Reader.ofText text).skip n = .ok r → Package.ofReading part r.finish = Package.validate part text := by
  refine ⟨Package.failsAs_document part text, Sheet.failsAs_grid part text shared,
    Package.failsAs_readAll part text Sheet.SharedStrings.Builder.step _ {},
    Package.failsAs_relationships part text, fun e => Sheet.firstOfText_of_invalid, fun valid => ?_, fun n r h => ?_⟩
  · obtain ⟨forest, described, -⟩ := Xml.exists_unique_describes (Package.isWellFormed_of_validate valid)
    exact ⟨forest, described, Sheet.firstOfText_eq_error_iff described⟩
  · rw [Reader.finish_of_skip h, Package.validate]

/-- A body with a paragraph and a table, a sheet in a list behind it, and a second root after the first. -/
def twoRootsText : String :=
  "<w><body><p><r/></p><tbl><tr><tc><p></p></tc></tr></tbl></body><sheet name='a'/></w><x/>"

theorem readings_fail_as_part_twoRootsText :
    Package.validate "p" twoRootsText = .error (.malformedXml "p" .secondRoot) ∧
      Package.ofReading "p" (Word.Document.ofText twoRootsText) = .error (.malformedXml "p" .secondRoot) ∧
      Sheet.SheetEntry.firstOfText "p" twoRootsText = .error (.malformedXml "p" .secondRoot) := by
  have invalid : Package.validate "p" twoRootsText = .error (.malformedXml "p" .secondRoot) := by decide +kernel
  obtain ⟨word, -, -, -, sheet, -⟩ := readings_fail_as_part "p" twoRootsText {}
  exact ⟨invalid, (word _).2 invalid, sheet _ invalid⟩

end OfficePreview
