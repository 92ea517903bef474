import OfficePreview.Package.Relationship
import OfficePreview.Proofs.Xml.Described
/-!
# Relationships — the first declaration of an identifier counts

The relationships of a part are told from its tags, wherever these stand and whatever their prefix.  A tag declares an
identifier if it is named as a relationship and has a target beside the identifier; a tag without either is passed over
as if it were not there.  So what an identifier stands for is what the first tag that declares it says
(`Relationships.get?_ofTags`).
-/
namespace OfficePreview.Package

open Xml (Event Tag Forest Describes)

/-- Whether a tag declares the relationship of an identifier. -/
def declares (id : String) (tag : Tag) : Bool :=
  tag.isLocal "Relationship" && decide (tag.attribute? "Id" = some id) && (tag.attribute? "Target").isSome

theorem declares_iff {id : String} {tag : Tag} : declares id tag = true ↔
    tag.isLocal "Relationship" = true ∧ tag.attribute? "Id" = some id ∧ ∃ target, tag.attribute? "Target" = some target := by
  rw [declares, Bool.and_eq_true, Bool.and_eq_true, decide_eq_true_eq, Option.isSome_iff_exists, and_assoc]

theorem ofTag?_eq {id target : String} {tag : Tag} (hid : tag.attribute? "Id" = some id)
    (htarget : tag.attribute? "Target" = some target) : Relationship.ofTag? tag =
      some ⟨id, (tag.attribute? "Type").getD "", target, tag.attribute? "TargetMode" = some "External"⟩ := by
  rw [Relationship.ofTag?, hid, htarget]
  rfl

theorem ofTag?_of_declares {id : String} {tag : Tag} (h : declares id tag = true) :
    ∃ r, Relationship.ofTag? tag = some r ∧ r.id = id := by
  obtain ⟨-, hid, target, htarget⟩ := declares_iff.1 h
  exact ⟨_, ofTag?_eq hid htarget, rfl⟩

theorem declares_of_ofTag? {r : Relationship} {tag : Tag} (hl : tag.isLocal "Relationship" = true)
    (h : Relationship.ofTag? tag = some r) : declares r.id tag = true := by
  cases hid : tag.attribute? "Id" with
  | none => simp [Relationship.ofTag?, hid] at h
  | some id =>
    cases htarget : tag.attribute? "Target" with
    | none => simp [Relationship.ofTag?, hid, htarget] at h
    | some target =>
      rw [ofTag?_eq hid htarget, Option.some.injEq] at h
      subst h
      exact declares_iff.2 ⟨hl, hid, target, htarget⟩

namespace Relationships

/-- The relationships that a sequence of tags declares. -/
def ofTags (tags : List Tag) : Relationships := tags.foldl (fun r tag => r.step (.empty tag) 0) {}

theorem ofText_of_describes {text : String} {forest : Forest} (described : Describes text forest) :
    Relationships.ofText text = .ok (.ofTags forest.tags) := by
  have hstep (r : Relationships) (e : Event) (depth : Nat) :
        r.step e depth = e.tag?.elim r fun tag => r.step (.empty tag) 0 := by
    unfold Relationships.step
    cases e.tag? <;> rfl
  rw [Relationships.ofText, described.readAll, Forest.foldl_tags hstep]
  rfl

theorem get?_insertNew (r : Relationships) (entry : Relationship) (id : String) :
    (r.insertNew entry).get? id = (r.get? id).or (if entry.id = id then some entry else none) := by
  rw [insertNew]
  by_cases hid : entry.id = id
  · subst hid
    cases htaken : r.get? entry.id with
    | some earlier => simp [htaken]
    | none => simp [get?]
  · rw [if_neg hid, Option.or_none]
    split
    · rfl
    · simp [get?, hid]

/-- **A tag adds what it declares**, for identifiers that were not declared before it. -/
theorem get?_step (r : Relationships) (tag : Tag) (id : String) :
    (r.step (.empty tag) 0).get? id =
      (r.get? id).or (if declares id tag then Relationship.ofTag? tag else none) := by
  simp only [step, Event.tag?]
  by_cases hl : tag.isLocal "Relationship" = true
  · rw [if_pos hl]
    cases ho : Relationship.ofTag? tag with
    | none => simp
    | some entry =>
      dsimp only
      rw [get?_insertNew]
      have hdeclared : declares id tag = true ↔ entry.id = id := by
        refine ⟨fun h => ?_, fun h => h ▸ declares_of_ofTag? hl ho⟩
        obtain ⟨r, hr, hid⟩ := ofTag?_of_declares h
        rw [ho, Option.some.injEq] at hr
        rw [hr, hid]
      simp only [hdeclared]
  · rw [if_neg hl, if_neg fun h => hl (declares_iff.1 h).1, Option.or_none]

/-- **What an identifier stands for after a sequence of tags** is what it stood for before or what the first of them that
declares it says. -/
theorem get?_foldl_step (id : String) : ∀ (tags : List Tag) (r : Relationships),
    (tags.foldl (fun r tag => r.step (.empty tag) 0) r).get? id =
      (r.get? id).or ((tags.find? (declares id)).bind Relationship.ofTag?)
  | [], r => by simp
  | tag :: tags, r => by
    rw [List.foldl_cons, get?_foldl_step id tags, get?_step, Option.or_assoc, List.find?_cons]
    cases hd : declares id tag with
    | false => simp
    | true =>
      obtain ⟨entry, hentry, -⟩ := ofTag?_of_declares hd
      simp [hentry]

/-- **The first declaration of an identifier counts.** -/
theorem get?_ofTags (tags : List Tag) (id : String) :
    (ofTags tags).get? id = (tags.find? (declares id)).bind Relationship.ofTag? :=
  get?_foldl_step id tags {}

end Relationships

end OfficePreview.Package
