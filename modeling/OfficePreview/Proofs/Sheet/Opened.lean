import Mathlib.Data.List.Forall2
import OfficePreview.Proofs.Sheet.Sources
import OfficePreview.Proofs.Sheet.Strings
import OfficePreview.Proofs.Xml.Opened
/-!
# Opened — sheets and tables with self-closing tags opened

An opened tag adds no character data, so that a text in place and a shared text are what they were.  A value is one more
value where it is opened: it stands in the way of a value after it (`valueOf?`), but is itself the empty text that a cell
without a value shows.  So a sheet whose cells hold one value at most shows the same (`Grid.ofText_opened`), and so does
every table whose entries are kept apart (`SharedStrings.ofText_opened`).
-/
namespace OfficePreview.Sheet

open Xml (Tag Forest Describes)

/-- An element that, being a cell, holds one value at most. -/
def HoldsOneValue (tag : Tag) (content : Forest) : Prop :=
  tag.isLocal "c" = true → content.tags.countP (·.isLocal "v") ≤ 1

instance (tag : Tag) (content : Forest) : Decidable (HoldsOneValue tag content) := inferInstanceAs (Decidable (_ → _))

/-! ## The text of a cell and of an entry -/

variable {f f' : Forest}

theorem inPlaceOf_opened (h : f.Opens f') : inPlaceOf f' = inPlaceOf f := by
  induction h with
  | nil => rfl
  | element tag hc _ ihc ihr => simp only [inPlaceOf, ihc, ihr, hc.data_eq]
  | empty tag _ ih => exact ih
  | leaf l _ ih => exact ih
  | opened tag _ ih =>
    have hnil : (if tag.isLocal "rPh" then "" else if tag.isLocal "t" then Forest.nil.data else inPlaceOf .nil) = "" := by
      split <;> [rfl; split <;> rfl]
    rw [inPlaceOf, hnil, String.empty_append, ih]
    rfl

theorem stringsOf_opened (h : f.Opens f') : stringsOf f' = stringsOf f := by
  induction h with
  | nil => rfl
  | element tag hc _ ihc ihr => simp only [stringsOf, ihc, ihr, inPlaceOf_opened hc]
  | empty tag _ ih => simp only [stringsOf, ih]
  | leaf l _ ih => exact ih
  | opened tag _ ih => simp only [stringsOf, inPlaceOf, ih]

theorem valueOf?_eq_first? (f : Forest) : valueOf? f = (f.first? (·.isLocal "v")).map Forest.data := by
  induction f with
  | nil => rfl
  | element tag children rest ihc ihr =>
    rw [valueOf?, Forest.first?, ihc, ihr]
    split
    · rfl
    · cases children.first? (·.isLocal "v") <;> rfl
  | empty tag rest ih => exact ih
  | leaf l rest ih => exact ih

/-- **The value of a cell** that holds one at most: opened, it is empty, as it is where there is none. -/
theorem getD_valueOf?_opened (h : f.Opens f') (one : f.tags.countP (·.isLocal "v") ≤ 1) :
    (valueOf? f').getD "" = (valueOf? f).getD "" := by
  rw [valueOf?_eq_first?, valueOf?_eq_first?]
  exact h.getD_first? Forest.Opens.data_eq one

/-! ## Rows and cells -/

/-- The same row, or the same cell with as much to show. -/
inductive Landmark.Alike : Landmark → Landmark → Prop
  | row (tag : Tag) : Alike (.row tag) (.row tag)
  | cell (tag : Tag) {content content' : Forest} : (valueOf? content').getD "" = (valueOf? content).getD "" →
    inPlaceOf content' = inPlaceOf content → Alike (.cell tag content) (.cell tag content')

theorem landmarkOf_opened (h : f.Opens f') {tag : Tag} (one : HoldsOneValue tag f) :
    List.Forall₂ Landmark.Alike (landmarkOf tag f) (landmarkOf tag f') := by
  unfold landmarkOf
  split
  · exact .cons (.row tag) .nil
  · split
    · rename_i hc
      exact .cons (.cell tag (getD_valueOf?_opened h (one hc)) (inPlaceOf_opened h)) .nil
    · exact .nil

theorem landmarks_opened (h : f.Opens f') (one : f.Every HoldsOneValue) :
    List.Forall₂ Landmark.Alike (landmarks f) (landmarks f') := by
  have hnil (tag : Tag) : HoldsOneValue tag .nil := fun _ => Nat.zero_le 1
  induction h with
  | nil => exact .nil
  | element tag hc _ ihc ihr =>
    exact List.rel_append (landmarkOf_opened hc one.1) (List.rel_append (ihc one.2.1) (ihr one.2.2))
  | empty tag _ ih => exact List.rel_append (landmarkOf_opened .nil (hnil tag)) (ih one)
  | leaf l _ ih => exact ih one
  | opened tag _ ih => exact List.rel_append (landmarkOf_opened .nil (hnil tag)) (ih one)

namespace GridBuilder

variable {part : String} {shared : SharedStrings}

theorem settle_alike {l l' : Landmark} (h : l.Alike l') (b : GridBuilder) :
    b.settle part shared l' = b.settle part shared l := by
  cases h with
  | row tag => rfl
  | @cell tag content content' hvalue hinPlace =>
    have hdisplay : (addContent (b.opened part tag) content' 0).display shared =
        (addContent (b.opened part tag) content 0).display shared := by
      simp only [OpenCell.display, addContent, opened, Option.none_or, hvalue, hinPlace]
    simp only [settle, GridBuilder.place, hdisplay]
    rfl

theorem foldl_settle_alike {ls ls' : List Landmark} (h : List.Forall₂ Landmark.Alike ls ls') (b : GridBuilder) :
    ls'.foldl (settle part shared) b = ls.foldl (settle part shared) b := by
  induction h generalizing b with
  | nil => rfl
  | cons h _ ih => rw [List.foldl_cons, List.foldl_cons, settle_alike h, ih]

end GridBuilder

/-! ## Sheets and tables -/

variable {text text' : String}

/-- **A sheet reads the same with self-closing tags opened**, warnings included, if its cells can be told apart and hold
one value at most. -/
theorem Grid.ofText_opened (part : String) (shared : SharedStrings) (described : Describes text f)
    (described' : Describes text' f') (h : f.Opens f') (plain : f.Every IsPlain) (one : f.Every HoldsOneValue) :
    Grid.ofText part shared text' = Grid.ofText part shared text := by
  have isPlain {tag : Tag} {g g' : Forest} (hg : g'.tags = g.tags) (plain : IsPlain tag g) : IsPlain tag g' := by
    rwa [IsPlain, hg]
  have plain' : f'.Every IsPlain := h.every isPlain (fun tag => ⟨fun _ => nofun, fun _ => rfl⟩) plain
  have hrun : GridBuilder.run part shared {} (f'.events 0) = GridBuilder.run part shared {} (f.events 0) := by
    rw [GridBuilder.isResting_empty.run_events plain', GridBuilder.isResting_empty.run_events plain,
      GridBuilder.foldl_settle_alike (landmarks_opened h one)]
  have hread {α : Type} (atEnd : GridBuilder → α) : Xml.readAll (GridBuilder.step part shared) atEnd {} text' =
      Xml.readAll (GridBuilder.step part shared) atEnd {} text := by
    rw [described.readAll, described'.readAll]
    exact Prod.ext hrun (congrArg (fun b => Except.ok (atEnd b)) hrun)
  rw [Grid.ofText, hread, ← Grid.ofText]

/-- **A table reads the same with self-closing tags opened**, if its entries are kept apart. -/
theorem SharedStrings.ofText_opened (described : Describes text f) (described' : Describes text' f') (h : f.Opens f')
    (apart : f.Every KeepsApart) : SharedStrings.ofText text' = SharedStrings.ofText text := by
  have keepsApart {tag : Tag} {g g' : Forest} (hg : g'.tags = g.tags) (apart : KeepsApart tag g) : KeepsApart tag g' := by
    rwa [KeepsApart, hg]
  have apart' : f'.Every KeepsApart := h.every keepsApart (fun tag => ⟨fun _ => nofun, fun _ => rfl⟩) apart
  rw [SharedStrings.ofText_of_describes described' apart', SharedStrings.ofText_of_describes described apart,
    stringsOf_opened h]

end OfficePreview.Sheet
