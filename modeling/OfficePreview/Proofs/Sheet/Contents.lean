import OfficePreview.Proofs.Sheet.Marks
/-!
# Contents — what is read of a cell from its start tag to its closing tag

In a cell that holds plain elements at most one value or text is open at a time.  Its character data go to the value or to
the text written in place (`run_inValue`, `run_inText`), and all other data go nowhere.  So the cell that is closed has
the first value and the texts in place of its content (`run_content`).
-/
namespace OfficePreview.Sheet

open Xml (Event Tag Forest Leaf)

theorem valueOf?_of_tags {f : Forest} (h : f.tags = []) : valueOf? f = none := by
  induction f with
  | nil => rfl
  | element => cases h
  | empty => cases h
  | leaf l rest ih => exact ih h

theorem inPlaceOf_of_tags {f : Forest} (h : f.tags = []) : inPlaceOf f = "" := by
  induction f with
  | nil => rfl
  | element => cases h
  | empty => cases h
  | leaf l rest ih => exact ih h

namespace GridBuilder

variable {part : String} {shared : SharedStrings} {b : GridBuilder} {c : OpenCell} {k depth : Nat}

def run (part : String) (shared : SharedStrings) (b : GridBuilder) (es : List (Event × Nat)) : GridBuilder :=
  es.foldl (fun b p => step part shared b p.1 p.2) b

theorem run_cons (b : GridBuilder) (e : Event) (depth : Nat) (es : List (Event × Nat)) :
    run part shared b ((e, depth) :: es) = run part shared (step part shared b e depth) es := rfl

theorem run_append (b : GridBuilder) (es fs : List (Event × Nat)) :
    run part shared b (es ++ fs) = run part shared (run part shared b es) fs := List.foldl_append

/-- **An element is read** by its start tag, its children and its closing tag, and then the trees after it are. -/
theorem run_element (b : GridBuilder) (tag : Tag) (children rest : Forest) (depth : Nat) :
    run part shared b ((Forest.element tag children rest).events depth) =
      run part shared
        ((run part shared (b.tag part shared tag true) (children.events (depth + 1))).close shared tag.name)
        (rest.events depth) := by
  rw [Forest.events, run_cons, run_append, run_cons]
  rfl

theorem run_empty (b : GridBuilder) (tag : Tag) (rest : Forest) (depth : Nat) :
    run part shared b ((Forest.empty tag rest).events depth) =
      run part shared (b.tag part shared tag false) (rest.events depth) := rfl

theorem step_leaf (b : GridBuilder) (l : Leaf) (depth : Nat) :
    step part shared b l.event depth = match l.event.data? with
      | some text => b.data text
      | none => b := by
  cases l <;> rfl

/-! ## Inside a cell -/

/-- A builder with an open cell, in a value or not, in a text or not, and inside `phonetic` pronunciations. -/
def inside (b : GridBuilder) (c : OpenCell) (inValue inText : Bool) (phonetic : Nat) : GridBuilder :=
  { b with cell := some c, inValue, inText, phonetic }

theorem run_inValue {f : Forest} (hf : f.tags = []) (c : OpenCell) : ∃ value : Option String,
    run part shared (b.inside c true false k) (f.events depth) = b.inside { c with value } true false k ∧
      value.getD "" = c.value.getD "" ++ f.data := by
  induction f generalizing c with
  | nil => exact ⟨c.value, rfl, by simp [Forest.data]⟩
  | element => cases hf
  | empty => cases hf
  | leaf l rest ih =>
    rw [Forest.events, run_cons, step_leaf, Forest.data, Leaf.data]
    cases l.event.data? with
    | none =>
      obtain ⟨value, hrun, hvalue⟩ := ih hf c
      exact ⟨value, hrun, by simpa using hvalue⟩
    | some text =>
      obtain ⟨value, hrun, hvalue⟩ := ih hf { c with value := some (c.value.getD "" ++ text) }
      exact ⟨value, hrun, by simpa [String.append_assoc] using hvalue⟩

theorem run_inText {f : Forest} (hf : f.tags = []) (c : OpenCell) :
    run part shared (b.inside c false true k) (f.events depth) =
      b.inside { c with inPlace := c.inPlace ++ f.data } false true k := by
  induction f generalizing c with
  | nil => simp [Forest.events, Forest.data, run]
  | element => cases hf
  | empty => cases hf
  | leaf l rest ih =>
    rw [Forest.events, run_cons, step_leaf, Forest.data, Leaf.data]
    cases l.event.data? with
    | none => simpa using ih hf c
    | some text => simpa [String.append_assoc, data, inside] using ih hf { c with inPlace := c.inPlace ++ text }

theorem step_leaf_inside (b : GridBuilder) (c : OpenCell) (k : Nat) (l : Leaf) (depth : Nat) :
    step part shared (b.inside c false false k) l.event depth = b.inside c false false k := by
  rw [step_leaf]
  cases l.event.data? <;> rfl

/-- The cell after more content, whose texts count outside pronunciations. -/
def addContent (c : OpenCell) (f : Forest) (phonetic : Nat) : OpenCell :=
  { c with
    value := c.value.or (valueOf? f)
    inPlace := c.inPlace ++ if phonetic = 0 then inPlaceOf f else "" }

theorem tag_inside {tag : Tag} (hc : tag.isLocal "c" = false) (hr : tag.isLocal "row" = false) (inValue inText : Bool) :
    (b.inside c inValue inText k).tag part shared tag true = (b.inside c inValue inText k).startInside c tag := by
  simp [GridBuilder.tag, hc, hr, inside]

theorem close_inside {name : String} (hc : Xml.localName name ≠ "c") (hp : Xml.localName name ≠ "rPh") (c : OpenCell) :
    (b.inside c false false k).close shared name = b.inside c false false k := by
  by_cases ht : Xml.localName name = "t" <;> simp [close, hc, hp, ht, inside]

theorem close_value {tag : Tag} (hv : Xml.localName tag.name = "v") {children : Forest} (hleaves : children.tags = [])
    (hc : c.value = none) :
    (run part shared ((b.inside c false false k).startInside c tag) (children.events depth)).close shared tag.name =
      b.inside { c with value := some children.data } false false k := by
  have hs : (b.inside c false false k).startInside c tag = b.inside c true false k := by
    simp [startInside, Tag.isLocal, hv, hc, inside]
  obtain ⟨value, hrun, hvalue⟩ := run_inValue hleaves c
  rw [hs, hrun]
  simp [close, hv, inside, hvalue, hc]

theorem close_text {tag : Tag} (ht : Xml.localName tag.name = "t") {children : Forest} (hleaves : children.tags = [])
    (c : OpenCell) :
    (run part shared ((b.inside c false false 0).startInside c tag) (children.events depth)).close shared tag.name =
      b.inside { c with inPlace := c.inPlace ++ children.data } false false 0 := by
  have hs : (b.inside c false false 0).startInside c tag = b.inside c false true 0 := by
    simp [startInside, Tag.isLocal, ht, inside]
  rw [hs, run_inText hleaves]
  simp [close, ht, inside]

/-- **The content of a cell** gives the cell its first value and its texts in place.  A value or a text holds no element,
so that what is open at its end is what was opened at its start. -/
theorem run_content (f : Forest) (hinner : ∀ tag ∈ f.tags, tag.isLocal "c" = false ∧ tag.isLocal "row" = false)
    (hplain : f.Every IsPlain) (c : OpenCell) (k depth : Nat) :
    run part shared (b.inside c false false k) (f.events depth) = b.inside (addContent c f k) false false k := by
  induction f generalizing c k depth with
  | nil => simp [Forest.events, run, addContent, valueOf?, inPlaceOf]
  | element tag children rest ihc ihr =>
    obtain ⟨⟨-, hleaves⟩, hplainC, hplainR⟩ := hplain
    simp only [Forest.tags, List.mem_cons, List.mem_append] at hinner
    obtain ⟨hc, hr⟩ := hinner tag (.inl rfl)
    have ihc := ihc (fun t h => hinner t (.inr (.inl h))) hplainC
    have ihr := ihr (fun t h => hinner t (.inr (.inr h))) hplainR
    rw [run_element, tag_inside hc hr]
    simp only [Tag.isLocal, decide_eq_false_iff_not, decide_eq_true_eq] at hc hr hleaves
    by_cases hp : Xml.localName tag.name = "rPh"
    · have hs : (b.inside c false false k).startInside c tag = b.inside c false false (k + 1) := by
        simp [startInside, Tag.isLocal, hp, inside]
      have he : (b.inside (addContent c children (k + 1)) false false (k + 1)).close shared tag.name =
          b.inside (addContent c children (k + 1)) false false k := by
        simp [close, hp, inside]
      rw [hs, ihc, he, ihr]
      simp [addContent, valueOf?, inPlaceOf, Tag.isLocal, hp, Option.or_assoc]
    · -- Where its start tag opens nothing, only the content of an element counts.
      have passed (hs : (b.inside c false false k).startInside c tag = b.inside c false false k) :
          run part shared ((run part shared ((b.inside c false false k).startInside c tag)
            (children.events (depth + 1))).close shared tag.name) (rest.events depth) =
              b.inside (addContent (addContent c children k) rest k) false false k := by
        rw [hs, ihc, close_inside hc hp, ihr]
      by_cases hv : Xml.localName tag.name = "v"
      · have hnone := inPlaceOf_of_tags (hleaves (.inl hv))
        cases hvalue : c.value with
        | none =>
          rw [close_value hv (hleaves (.inl hv)) hvalue, ihr]
          simp [addContent, valueOf?, inPlaceOf, Tag.isLocal, hv, hvalue, hnone]
        | some value =>
          rw [passed (by simp [startInside, Tag.isLocal, hv, hvalue])]
          simp [addContent, inPlaceOf, Tag.isLocal, hv, hvalue, hnone]
      · by_cases ht : Xml.localName tag.name = "t"
        · have hnone := valueOf?_of_tags (hleaves (.inr ht))
          cases k with
          | zero =>
            rw [close_text ht (hleaves (.inr ht)), ihr]
            simp [addContent, valueOf?, inPlaceOf, Tag.isLocal, ht, hnone, String.append_assoc]
          | succ k =>
            rw [passed (by simp [startInside, Tag.isLocal, ht, inside])]
            simp [addContent, valueOf?, Tag.isLocal, ht, hnone]
        · rw [passed (by simp [startInside, Tag.isLocal, hp, hv, ht])]
          cases k <;> simp [addContent, valueOf?, inPlaceOf, Tag.isLocal, hp, hv, ht, Option.or_assoc,
            String.append_assoc]
  | empty tag rest ihr =>
    simp only [Forest.tags, List.mem_cons] at hinner
    obtain ⟨hc, hr⟩ := hinner tag (.inl rfl)
    have hs : (b.inside c false false k).tag part shared tag false = b.inside c false false k := by
      simp [GridBuilder.tag, hc, hr, inside]
    rw [run_empty, hs, ihr (fun t h => hinner t (.inr h)) hplain]
    rfl
  | leaf l rest ihr =>
    rw [Forest.events, run_cons, step_leaf_inside, ihr hinner hplain]
    rfl

end GridBuilder

end OfficePreview.Sheet
