import OfficePreview.Proofs.Package.Validation
/-!
# Parts — what a package holds in a part and why it withholds one

A part can be read and is well-formed, and then the package holds the one forest that the part describes (`Holds`); or
there is a first reason why not: the package has no such part, the part cannot be read, or what is read is not
well-formed (`Withholds`).  A step that requires a part and reads it fails with that reason in the one case
(`outcome_readThrough_of_withholds`), and makes of the forest what the reading does in the other
(`outcome_readThrough_of_holds`).
-/
namespace OfficePreview.Package

open Xml (Forest Reader Describes)
open Zip (Archive)

variable {a : Archive} {part : String}

/-- The package holds a part that can be read and describes a forest. -/
def Holds (a : Archive) (part : String) (forest : Forest) : Prop :=
  ∃ bytes, (a.read part).outcome = .ok (some bytes) ∧ Describes (Text.decode bytes) forest

/-- Why nothing can be read from a part: the first reason that applies. -/
inductive Withholds (a : Archive) (part : String) : Error → Prop
  | missing : a.contains part = false → Withholds a part (.missingPart part)
  | unreadable {z : Zip.Error} : (a.read part).outcome = .error z → Withholds a part (.archive z)
  | malformed {bytes : ByteArray} {fault : Xml.Fault} : (a.read part).outcome = .ok (some bytes) →
    (Reader.ofText (Text.decode bytes)).finish = .error fault → Withholds a part (.malformedXml part fault)

theorem read_eq_none_iff (a : Archive) (part : String) :
    (a.read part).outcome = .ok none ↔ a.contains part = false := by
  rw [Archive.read, Archive.contains]
  cases a.entry? part with
  | none => simp
  | some e =>
    dsimp only
    rw [map_eq_pure_bind, Report.outcome_bind]
    cases (a.readEntry e).outcome <;> simp [Except.bind]

/-- **A part is withheld or held.** -/
theorem withholds_or_holds (a : Archive) (part : String) :
    (∃ e, Withholds a part e) ∨ ∃ forest, Holds a part forest := by
  cases hr : (a.read part).outcome with
  | error z => exact .inl ⟨_, .unreadable hr⟩
  | ok found =>
    cases found with
    | none => exact .inl ⟨_, .missing ((read_eq_none_iff a part).1 hr)⟩
    | some bytes =>
      cases hf : (Reader.ofText (Text.decode bytes)).finish with
      | error fault => exact .inl ⟨_, .malformed hr hf⟩
      | ok =>
        obtain ⟨forest, described, -⟩ := Xml.exists_unique_describes hf
        exact .inr ⟨forest, bytes, hr, described⟩

/-! ## Reading a required part -/

theorem outcome_readRequired (a : Archive) (part : String) : (readRequired a part).outcome =
    match (a.read part).outcome with
    | .error z => .error (.archive z)
    | .ok none => .error (.missingPart part)
    | .ok (some bytes) => .ok (Text.decode bytes) := by
  rw [readRequired, Report.outcome_bind, readPart?, Report.outcome_lift, Archive.readText, map_eq_pure_bind,
    Report.outcome_bind]
  cases (a.read part).outcome with
  | error z => rfl
  | ok found => cases found <;> rfl

/-- A step that requires a part and reads it. -/
def readThrough {α : Type} (a : Archive) (part : String) (reading : String → Except Error α) : Attempt α :=
  readRequired a part >>= fun text => .ofExcept (reading text)

variable {α : Type} {reading : String → Except Error α}

/-- **A part that is withheld fails every step that reads it**, for the reason why it is withheld. -/
theorem outcome_readThrough_of_withholds (invalid : ∀ text e, validate part text = .error e → reading text = .error e)
    {e : Error} (h : Withholds a part e) : (readThrough a part reading).outcome = .error e := by
  rw [readThrough, Report.outcome_bind, outcome_readRequired]
  cases h with
  | missing h =>
    rw [(read_eq_none_iff a part).2 h]
    rfl
  | unreadable h =>
    rw [h]
    rfl
  | malformed h hf =>
    rw [h]
    exact invalid _ _ (by rw [validate, hf]; rfl)

theorem outcome_readThrough_of_holds {forest : Forest} {r : Except Error α}
    (reads : ∀ text, Describes text forest → reading text = r) (h : Holds a part forest) :
    (readThrough a part reading).outcome = r := by
  obtain ⟨bytes, hr, described⟩ := h
  rw [readThrough, Report.outcome_bind, outcome_readRequired, hr]
  exact reads _ described

end OfficePreview.Package
