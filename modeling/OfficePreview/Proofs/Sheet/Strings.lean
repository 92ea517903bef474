import OfficePreview.Proofs.Sheet.Marks
import OfficePreview.Proofs.Xml.Described
/-!
# Strings — what is read of a table of shared texts

The entries of a table are read one by one, at whatever depth they lie.  An entry gives its texts without those in
pronunciations, as a cell with a text written in place does (`inPlaceOf`).  Where entries do not lie in one another or in
a pronunciation and texts hold no elements, the strings of the table are those of its entries in the order of the document
(`SharedStrings.ofText_of_describes`).
-/
namespace OfficePreview.Sheet

open Xml (Event Tag Forest Leaf Describes)

/-- The texts of the entries of a forest, in the order of the document. -/
def stringsOf : Forest → List String
  | .nil => []
  | .element tag children rest =>
    (if tag.isLocal "si" then [inPlaceOf children] else stringsOf children) ++ stringsOf rest
  | .empty tag rest => (if tag.isLocal "si" then [""] else []) ++ stringsOf rest
  | .leaf _ rest => stringsOf rest

/-- An element keeps entries apart if, being an entry or a pronunciation, it holds no entry and, being a text, it holds
no element. -/
def KeepsApart (tag : Tag) (content : Forest) : Prop :=
  (tag.isLocal "si" = true ∨ tag.isLocal "rPh" = true → ∀ inner ∈ content.tags, inner.isLocal "si" = false) ∧
    (tag.isLocal "t" = true → content.tags = [])

instance (tag : Tag) (content : Forest) : Decidable (KeepsApart tag content) := inferInstanceAs (Decidable (_ ∧ _))

theorem stringsOf_of_tags {f : Forest} (h : ∀ tag ∈ f.tags, tag.isLocal "si" = false) : stringsOf f = [] := by
  induction f with
  | nil => rfl
  | element tag children rest ihc ihr =>
    simp only [Forest.tags, List.mem_cons, List.mem_append] at h
    have hc := ihc fun t ht => h t (.inr (.inl ht))
    have hr := ihr fun t ht => h t (.inr (.inr ht))
    simp [stringsOf, h tag (.inl rfl), hc, hr]
  | empty tag rest ihr =>
    simp only [Forest.tags, List.mem_cons] at h
    simp [stringsOf, h tag (.inl rfl), ihr fun t ht => h t (.inr ht)]
  | leaf l rest ihr => exact ihr h

namespace SharedStrings.Builder

variable {b : Builder} {text : String} {k depth : Nat}

def run (b : Builder) (es : List (Event × Nat)) : Builder := es.foldl (fun b p => b.step p.1 p.2) b

theorem run_cons (b : Builder) (e : Event) (depth : Nat) (es : List (Event × Nat)) :
    run b ((e, depth) :: es) = run (b.step e depth) es := rfl

theorem run_element (b : Builder) (tag : Tag) (children rest : Forest) (depth : Nat) :
    run b ((Forest.element tag children rest).events depth) =
      run ((run (b.step (.start tag) (depth + 1)) (children.events (depth + 1))).step (.close tag.name) (depth + 1))
        (rest.events depth) := by
  rw [Forest.events, run_cons, run, List.foldl_append, List.foldl_cons]
  rfl

theorem step_leaf (b : Builder) (l : Leaf) (depth : Nat) :
    b.step l.event depth = if b.inText then
      match b.current, l.event.data? with
      | some text, some data => { b with current := some (text ++ data) }
      | _, _ => b
    else b := by
  cases l <;> rfl

/-! ## Inside an entry -/

/-- A builder with an open entry, in a text or not, and inside `phonetic` pronunciations. -/
def inside (b : Builder) (text : String) (inText : Bool) (phonetic : Nat) : Builder :=
  { b with current := some text, inText, phonetic }

theorem run_inText {f : Forest} (hf : f.tags = []) (text : String) :
    run (b.inside text true k) (f.events depth) = b.inside (text ++ f.data) true k := by
  induction f generalizing text with
  | nil => simp [Forest.events, Forest.data, run]
  | element => cases hf
  | empty => cases hf
  | leaf l rest ih =>
    rw [Forest.events, run_cons, step_leaf, Forest.data, Leaf.data]
    cases l.event.data? with
    | none => simpa [inside] using ih hf text
    | some data => simpa [inside, String.append_assoc] using ih hf (text ++ data)

/-- **An entry** takes up its texts outside pronunciations. -/
theorem run_inside (f : Forest) (hno : ∀ tag ∈ f.tags, tag.isLocal "si" = false) (hplain : f.Every KeepsApart)
    (text : String) (k depth : Nat) :
    run (b.inside text false k) (f.events depth) =
      b.inside (text ++ if k = 0 then inPlaceOf f else "") false k := by
  induction f generalizing text k depth with
  | nil => simp [Forest.events, run, inPlaceOf]
  | element tag children rest ihc ihr =>
    obtain ⟨⟨-, hleaves⟩, hplainC, hplainR⟩ := hplain
    simp only [Forest.tags, List.mem_cons, List.mem_append] at hno
    have hs := hno tag (.inl rfl)
    have ihc := ihc (fun t h => hno t (.inr (.inl h))) hplainC
    have ihr := ihr (fun t h => hno t (.inr (.inr h))) hplainR
    rw [run_element]
    simp only [Tag.isLocal, decide_eq_false_iff_not, decide_eq_true_eq] at hs hleaves
    by_cases hp : Xml.localName tag.name = "rPh"
    · have hstart : (b.inside text false k).step (.start tag) (depth + 1) = b.inside text false (k + 1) := by
        simp [step, Tag.isLocal, hp, inside]
      have hclose : (b.inside text false (k + 1)).step (.close tag.name) (depth + 1) = b.inside text false k := by
        simp [step, hp, inside]
      rw [hstart, ihc, if_neg (Nat.succ_ne_zero k), String.append_empty, hclose, ihr]
      simp [inPlaceOf, Tag.isLocal, hp]
    · have hclose (text : String) (inText : Bool) (h : inText = true → Xml.localName tag.name = "t") :
          (b.inside text inText k).step (.close tag.name) (depth + 1) = b.inside text false k := by
        by_cases ht : Xml.localName tag.name = "t" <;> simp_all [step, inside]
      by_cases ht : Xml.localName tag.name = "t" ∧ k = 0
      · obtain ⟨ht, rfl⟩ := ht
        have hstart : (b.inside text false 0).step (.start tag) (depth + 1) = b.inside text true 0 := by
          simp [step, Tag.isLocal, ht, inside]
        rw [hstart, run_inText (hleaves ht), hclose _ true fun _ => ht, ihr]
        simp [inPlaceOf, Tag.isLocal, ht, String.append_assoc]
      · have hstart : (b.inside text false k).step (.start tag) (depth + 1) = b.inside text false k := by
          simp_all [step, Tag.isLocal, inside]
        rw [hstart, ihc, hclose _ false (fun h => absurd h Bool.false_ne_true), ihr]
        cases k with
        | zero =>
          have ht : Xml.localName tag.name ≠ "t" := fun h => ht ⟨h, rfl⟩
          simp [inPlaceOf, Tag.isLocal, hp, ht, String.append_assoc]
        | succ k => simp
  | empty tag rest ihr =>
    simp only [Forest.tags, List.mem_cons] at hno
    have hs : (b.inside text false k).step (.empty tag) (depth + 1) = b.inside text false k := by
      simp [step, hno tag (.inl rfl)]
    rw [Forest.events, run_cons, hs, ihr (fun t h => hno t (.inr h)) hplain]
    rfl
  | leaf l rest ihr =>
    rw [Forest.events, run_cons, step_leaf]
    exact ihr hno hplain text k depth

/-! ## Between entries -/

/-- **From entry to entry**: inside a pronunciation there is none. -/
theorem run_between (f : Forest) (hplain : f.Every KeepsApart) (strings : Array String) (k depth : Nat)
    (hno : k ≠ 0 → ∀ tag ∈ f.tags, tag.isLocal "si" = false) :
    run { strings, phonetic := k } (f.events depth) =
      { strings := strings ++ (stringsOf f).toArray, phonetic := k } := by
  induction f generalizing strings k depth with
  | nil => simp [Forest.events, run, stringsOf]
  | element tag children rest ihc ihr =>
    obtain ⟨⟨hentry, hleaves⟩, hplainC, hplainR⟩ := hplain
    simp only [Forest.tags, List.mem_cons, List.mem_append] at hno
    have ihr (strings : Array String) := ihr hplainR strings k depth fun hk t h => hno hk t (.inr (.inr h))
    rw [run_element]
    cases hs : tag.isLocal "si" with
    | true =>
      have hk : k = 0 := Classical.byContradiction fun hk => by simp [hno hk tag (.inl rfl)] at hs
      subst hk
      have hname : Xml.localName tag.name = "si" := by simpa [Tag.isLocal] using hs
      have hstart : ({ strings, phonetic := 0 } : Builder).step (.start tag) (depth + 1) =
          ({ strings } : Builder).inside "" false 0 := by
        simp [step, hs, inside]
      have hclose (text : String) : (({ strings } : Builder).inside text false 0).step (.close tag.name) (depth + 1) =
          { strings := strings.push text, phonetic := 0 } := by
        simp [step, hname, inside]
      rw [hstart, run_inside children (hentry (.inl hs)) hplainC, hclose, ihr]
      simp [stringsOf, hs]
    | false =>
      have hname : Xml.localName tag.name ≠ "si" := by simpa [Tag.isLocal] using hs
      by_cases hp : Xml.localName tag.name = "rPh"
      · have hpt : tag.isLocal "rPh" = true := by simpa [Tag.isLocal] using hp
        have hstart : ({ strings, phonetic := k } : Builder).step (.start tag) (depth + 1) =
            { strings, phonetic := k + 1 } := by
          simp [step, hs, hpt]
        have hclose : ({ strings, phonetic := k + 1 } : Builder).step (.close tag.name) (depth + 1) =
            { strings, phonetic := k } := by
          simp [step, hp]
        have hnone := stringsOf_of_tags (hentry (.inr hpt))
        rw [hstart, ihc hplainC _ _ _ fun _ => hentry (.inr hpt), hnone]
        simp [hclose, ihr, stringsOf, hs, hnone]
      · have hpt : tag.isLocal "rPh" = false := by simpa [Tag.isLocal] using hp
        have hstart : ({ strings, phonetic := k } : Builder).step (.start tag) (depth + 1) =
            { strings, phonetic := k } := by
          simp [step, hs, hpt]
        have hclose (strings : Array String) : ({ strings, phonetic := k } : Builder).step (.close tag.name) (depth + 1) =
            { strings, phonetic := k } := by
          by_cases ht : Xml.localName tag.name = "t" <;> simp [step, hname, hp, ht]
        rw [hstart, ihc hplainC _ _ _ fun hk t h => hno hk t (.inr (.inl h)), hclose, ihr]
        simp [stringsOf, hs]
  | empty tag rest ihr =>
    simp only [Forest.tags, List.mem_cons] at hno
    rw [Forest.events, run_cons]
    have hs : ({ strings, phonetic := k } : Builder).step (.empty tag) (depth + 1) =
        { strings := strings ++ (if tag.isLocal "si" then [""] else []).toArray, phonetic := k } := by
      cases h : tag.isLocal "si" <;> simp [step, h]
    rw [hs, ihr hplain _ _ _ fun hk t h => hno hk t (.inr h)]
    simp [stringsOf]
  | leaf l rest ihr =>
    rw [Forest.events, run_cons, step_leaf]
    exact ihr hplain strings k depth hno

end SharedStrings.Builder

/-- **A table is read as its entries say.** -/
theorem SharedStrings.ofText_of_describes {text : String} {forest : Forest} (described : Describes text forest)
    (hplain : forest.Every KeepsApart) : SharedStrings.ofText text = .ok ⟨(stringsOf forest).toArray⟩ := by
  have hrun : Builder.run {} (forest.events 0) = { strings := #[] ++ (stringsOf forest).toArray, phonetic := 0 } :=
    Builder.run_between forest hplain #[] 0 0 fun h => absurd rfl h
  rw [ofText, described.readAll]
  change Except.ok (SharedStrings.mk (Builder.run {} (forest.events 0)).strings) = _
  rw [hrun, Array.empty_append]

end OfficePreview.Sheet
