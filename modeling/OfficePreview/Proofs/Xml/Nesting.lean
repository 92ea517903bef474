import OfficePreview.Proofs.Xml.Tokens
/-!
# Nesting — what a reader has read is a tree cut short

A reader need not come to the end of its part: the part may have a fault further on.  What it has read up to some point,
with a closing tag added for every element that is still open, is the events of a forest (`Reads.cut`), so that each depth
is the one that its event has in that forest.  The number of open elements goes down at closing tags alone, and never
below zero.
-/
namespace OfficePreview.Xml

/-- The closing tags of the open elements `names`, innermost first. -/
def closings : List String → List (Event × Nat)
  | [] => []
  | name :: names => (.close name, names.length + 1) :: closings names

theorem nested_closings (names : List String) : Nested names (closings names) := by
  induction names with
  | nil => exact .done
  | cons name names ih => exact .close name ih

namespace Reader

/-- A reader that comes from another one by reading events, given with the depths they were reported at. -/
inductive Reads (r : Reader) : List (Event × Nat) → Reader → Prop
  | none : Reads r [] r
  | next {es : List (Event × Nat)} {s t : Reader} {e : Event} :
    Reads r es s → s.next = .ok (some e, t) → Reads r (es ++ [(e, t.depth)]) t

/-- **One event**: the number of open elements stays right, and what nests after the event nests with it. -/
theorem nested_of_next {r s : Reader} {e : Event} (hr : r.Counts) (h : r.next = .ok (some e, s)) :
    s.Counts ∧ ∀ es, Nested s.scanner.enclosing es → Nested r.scanner.enclosing ((e, s.depth) :: es) := by
  obtain ⟨t, hn, ha⟩ := scanner_next_of_event h
  exact nested_of_accept hr (Scanner.enclosing_of_next hn) ha

/-- **A run**: whatever nests after the events that were read nests with them. -/
theorem Reads.nested {r s : Reader} {es : List (Event × Nat)} (h : Reads r es s) (hr : r.Counts) :
    s.Counts ∧ ∀ tail, Nested s.scanner.enclosing tail → Nested r.scanner.enclosing (es ++ tail) := by
  induction h with
  | none => exact ⟨hr, fun tail ht => ht⟩
  | @next es s t e _ hn ih =>
    obtain ⟨hs, hes⟩ := ih
    obtain ⟨ht, he⟩ := nested_of_next hs hn
    refine ⟨ht, fun tail htail => ?_⟩
    rw [List.append_assoc]
    exact hes _ (he tail htail)

/-- What was read from the start of a part, closed where it stands, is the events of a forest. -/
theorem Reads.cut {text : String} {s : Reader} {es : List (Event × Nat)} (h : Reads (ofText text) es s) :
    ∃ forest : Forest, es ++ closings s.scanner.enclosing = forest.events 0 := by
  obtain ⟨-, hes⟩ := h.nested rfl
  exact (hes _ (nested_closings s.scanner.enclosing)).exists_forest

/-- A closing tag is read inside an element, and takes one off the number of those that are open. -/
theorem opened_of_close {r s : Reader} {name : String} (hr : r.Counts) (h : r.next = .ok (some (.close name), s)) :
    r.opened = s.opened + 1 := by
  obtain ⟨t, hn, ha⟩ := scanner_next_of_event h
  have he := Scanner.enclosing_of_next hn
  have hpos : r.opened ≠ 0 := by
    intro h0
    have hnil : r.scanner.enclosing = [] := List.eq_nil_of_length_eq_zero (hr.symm.trans h0)
    rw [hnil] at he
    cases he
  cases ha
  change r.opened = r.opened - 1 + 1
  omega

theorem depth_of_end {r s : Reader} (h : r.next = .ok (none, s)) : s.depth = 0 := by
  match hn : r.scanner.next with
  | .error fault => rw [next_of_error hn] at h; cases h
  | .ok (some (e, t)) =>
    rw [next_of_event hn] at h
    cases ha : r.accept e t <;> simp [ha, Except.map] at h
  | .ok none =>
    rw [next_of_end hn] at h
    unfold acceptEnd at h
    split at h
    · simp [Except.map] at h
    · split at h
      · simp [Except.map] at h
      · cases h
        rfl

end Reader

/-- **A reader follows the tree.**  It reads a part to its end exactly if the text spells a document: markup without a
fault, one root, and references that can be resolved.  On the way, also to a fault, every depth is that of the tree, the
number of open elements never falls below zero, and the end of the part has depth zero. -/
theorem reader_follows_tree (text : String) :
    (IsWellFormed text ↔ ∃ forest, Spells text forest ∧ forest.IsDocument) ∧
      ∀ es r, Reader.Reads (.ofText text) es r →
        (∃ forest : Forest, es ++ closings r.scanner.enclosing = forest.events 0) ∧
          (∀ name s, r.next = .ok (some (.close name), s) → r.opened = s.opened + 1) ∧
            ∀ s, r.next = .ok (none, s) → s.depth = 0 := by
  refine ⟨isWellFormed_iff text, fun es r run => ⟨run.cut, fun name s h => ?_, fun s h => Reader.depth_of_end h⟩⟩
  exact Reader.opened_of_close (run.nested rfl).1 h

/-- A part with a fault after its first closing tag. -/
def brokenText : String := "<a><b>x</b>&y;</a>"

theorem reader_follows_tree_brokenText :
    ¬ IsWellFormed brokenText ∧ ∃ r s, Reader.Reads (.ofText brokenText) [(.start ⟨"a", []⟩, 1), (.start ⟨"b", []⟩, 2),
        (.text "x", 2)] r ∧
      r.next = .ok (some (.close "b"), s) ∧ r.opened = s.opened + 1 := by
  let r₁ : Reader := ⟨⟨"<b>x</b>&y;</a>".toList, ["a"]⟩, 1, true, 1⟩
  let r₂ : Reader := ⟨⟨"x</b>&y;</a>".toList, ["b", "a"]⟩, 2, true, 2⟩
  let r₃ : Reader := ⟨⟨"</b>&y;</a>".toList, ["b", "a"]⟩, 2, true, 2⟩
  let r₄ : Reader := ⟨⟨"&y;</a>".toList, ["a"]⟩, 1, true, 2⟩
  have h₁ : (Reader.ofText brokenText).next = .ok (some (.start ⟨"a", []⟩), r₁) := rfl
  have h₂ : r₁.next = .ok (some (.start ⟨"b", []⟩), r₂) := rfl
  have h₃ : r₂.next = .ok (some (.text "x"), r₃) := rfl
  have h₄ : r₃.next = .ok (some (.close "b"), r₄) := rfl
  have run : Reader.Reads (.ofText brokenText) _ r₃ := ((Reader.Reads.none.next h₁).next h₂).next h₃
  exact ⟨by decide +kernel, r₃, r₄, run, h₄, ((reader_follows_tree brokenText).2 _ _ run).2.1 _ _ h₄⟩

end OfficePreview.Xml
