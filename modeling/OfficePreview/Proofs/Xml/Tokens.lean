import OfficePreview.Proofs.Xml.Described
/-!
# Tokens — a text as its scanner sees it

A scanner takes a text apart into events and asks nothing of them but that closing tags match (`Scanner.events`).  A text
spells a forest if these events are those of its trees (`Spells`).  The reader asks for more: one root, and references
that can be resolved (`Forest.IsDocument`).  It asks for nothing else, so that a part describes a forest exactly if its
text spells the forest and the forest is a document (`describes_iff`).

The depths that a reader adds to the events can be told from the events alone (`withDepths`), hence a forest is
determined by its events without their depths too.
-/
namespace OfficePreview.Xml

/-! ## The events of a text -/

namespace Scanner

/-- The events of a text up to its end, or the first fault of its markup. -/
def events (s : Scanner) : Except Fault (List Event) :=
  match h : s.next with
  | .error fault => .error fault
  | .ok none => .ok []
  | .ok (some (e, t)) =>
    have := length_of_next h
    (events t).map (e :: ·)
termination_by s.rest.length

theorem events_of_error {s : Scanner} {fault : Fault} (h : s.next = .error fault) : s.events = .error fault := by
  rw [events]
  split <;> simp_all

theorem events_of_end {s : Scanner} (h : s.next = .ok none) : s.events = .ok [] := by
  rw [events]
  split <;> simp_all

theorem events_of_event {s t : Scanner} {e : Event} (h : s.next = .ok (some (e, t))) :
    s.events = t.events.map (e :: ·) := by
  rw [events]
  split <;> simp_all

end Scanner

/-! ## The events of a forest without their depths -/

namespace Forest

def tokens : Forest → List Event
  | .nil => []
  | .element tag children rest => .start tag :: (children.tokens ++ .close tag.name :: rest.tokens)
  | .empty tag rest => .empty tag :: rest.tokens
  | .leaf l rest => l.event :: rest.tokens

/-- The names of all references of a forest, in the order of the document. -/
def references : Forest → List String
  | .nil => []
  | .element _ children rest => children.references ++ rest.references
  | .empty _ rest => rest.references
  | .leaf (.reference name) rest => name :: rest.references
  | .leaf _ rest => rest.references

theorem map_fst_events (f : Forest) (depth : Nat) : (f.events depth).map Prod.fst = f.tokens := by
  induction f generalizing depth with
  | nil => rfl
  | element tag children rest ihc ihr => simp [events, tokens, ihc, ihr]
  | empty tag rest ihr => simp [events, tokens, ihr]
  | leaf l rest ihr => simp [events, tokens, ihr]

/-- Every reference of a forest can be resolved. -/
def IsResolved (f : Forest) : Prop := ∀ name ∈ f.references, (resolveInText? name.toList).isSome

/-- A forest that is a document: it has one root, and its references can be resolved. -/
structure IsDocument (f : Forest) : Prop where
  oneRoot : f.rootTags.length = 1
  isResolved : f.IsResolved

theorem isResolved_nil : nil.IsResolved := fun _ h => nomatch h

theorem IsResolved.element {children rest : Forest} (hc : children.IsResolved) (hr : rest.IsResolved) (tag : Tag) :
    (element tag children rest).IsResolved := by
  intro name h
  rcases List.mem_append.1 h with h | h
  · exact hc name h
  · exact hr name h

end Forest

/-- Events with their depths, inside `opened` elements: one more than the elements around it for a tag, and their number
for everything else.  The element that a closing tag ends is still among those that are open. -/
def withDepths (opened : Nat) : List Event → List (Event × Nat)
  | [] => []
  | .start tag :: es => (.start tag, opened + 1) :: withDepths (opened + 1) es
  | .empty tag :: es => (.empty tag, opened + 1) :: withDepths opened es
  | .close name :: es => (.close name, opened) :: withDepths (opened - 1) es
  | e :: es => (e, opened) :: withDepths opened es

theorem withDepths_tokens (f : Forest) (depth : Nat) (es : List Event) :
    withDepths depth (f.tokens ++ es) = f.events depth ++ withDepths depth es := by
  induction f generalizing depth es with
  | nil => rfl
  | element tag children rest ihc ihr => simp [Forest.tokens, Forest.events, withDepths, ihc, ihr]
  | empty tag rest ihr => simp [Forest.tokens, Forest.events, withDepths, ihr]
  | leaf l rest ihr => cases l <;> simp [Forest.tokens, Forest.events, Leaf.event, withDepths, ihr]

theorem Forest.tokens_injective {f g : Forest} (h : f.tokens = g.tokens) : f = g := by
  have hf := withDepths_tokens f 0 []
  have hg := withDepths_tokens g 0 []
  rw [h, hg, List.append_cancel_right_eq] at hf
  exact (events_injective hf).symm

/-! ## What a reader asks of the events -/

/-- What a reader inside `opened` elements, which has seen a root or not, asks of the events that are left. -/
def Admits : Nat → Bool → List Event → Prop
  | opened, rooted, [] => rooted = true ∧ opened = 0
  | opened, rooted, .start _ :: es => ¬(opened = 0 ∧ rooted = true) ∧ Admits (opened + 1) true es
  | opened, rooted, .empty _ :: es => ¬(opened = 0 ∧ rooted = true) ∧ Admits opened true es
  | opened, rooted, .close _ :: es => Admits (opened - 1) rooted es
  | opened, rooted, .reference name :: es => (resolveInText? name.toList).isSome ∧ Admits opened rooted es
  | opened, rooted, _ :: es => Admits opened rooted es

namespace Reader

theorem next_of_end {r : Reader} (h : r.scanner.next = .ok none) : r.next = r.acceptEnd.map (none, ·) := by
  unfold next
  rw [h]

theorem next_of_event {r : Reader} {e : Event} {t : Scanner} (h : r.scanner.next = .ok (some (e, t))) :
    r.next = (r.accept e t).map (some e, ·) := by
  unfold next
  rw [h]

theorem next_of_error {r : Reader} {fault : Fault} (h : r.scanner.next = .error fault) : r.next = .error fault := by
  unfold next
  rw [h]

theorem acceptEnd_isOk_iff (r : Reader) : r.acceptEnd.isOk ↔ r.rooted = true ∧ r.opened = 0 := by
  unfold acceptEnd
  by_cases hr : r.rooted = true
  · by_cases ho : r.opened = 0 <;> simp [hr, ho, Except.isOk, Except.toBool, Nat.pos_iff_ne_zero]
  · simp [hr, Except.isOk, Except.toBool]

/-- **A reader admits an event if it goes on with one that admits the rest.** -/
theorem admits_cons_iff (r : Reader) (e : Event) (t : Scanner) (es : List Event) :
    Admits r.opened r.rooted (e :: es) ↔ ∃ s, r.accept e t = .ok s ∧ Admits s.opened s.rooted es := by
  cases e with
  | start tag =>
    by_cases h : r.opened = 0 ∧ r.rooted = true
    · simp [Admits, accept, h]
    · simp only [Admits, accept, h, not_false_eq_true, true_and, if_false, Except.ok.injEq, exists_eq_left']
  | empty tag =>
    by_cases h : r.opened = 0 ∧ r.rooted = true
    · simp [Admits, accept, h]
    · simp only [Admits, accept, h, not_false_eq_true, true_and, if_false, Except.ok.injEq, exists_eq_left']
  | reference name =>
    by_cases h : (resolveInText? name.toList).isSome
    · simp [Admits, accept, h]
    · simp [Admits, accept, h]
  | _ => simp [Admits, accept]

/-- **A reader reads to the end exactly if its scanner does and it admits the events.** -/
theorem finish_eq_ok_iff (r : Reader) :
    r.finish = .ok () ↔ ∃ es, r.scanner.events = .ok es ∧ Admits r.opened r.rooted es := by
  -- the reader goes on with its scanner, so the text that is left carries the induction
  match h : r.scanner.next with
  | .error fault =>
    rw [finish_of_error (next_of_error h), Scanner.events_of_error h]
    simp
  | .ok none =>
    have hn := next_of_end h
    have hok := acceptEnd_isOk_iff r
    rw [Scanner.events_of_end h]
    cases ha : r.acceptEnd with
    | error fault =>
      rw [ha] at hn hok
      rw [finish_of_error hn]
      simpa [Admits, Except.isOk, Except.toBool] using hok
    | ok s =>
      rw [ha] at hn hok
      rw [finish_of_end hn]
      simpa [Admits, Except.isOk, Except.toBool] using hok
  | .ok (some (e, t)) =>
    have hn := next_of_event h
    rw [Scanner.events_of_event h]
    have hcons : ∀ es, Admits r.opened r.rooted (e :: es) ↔ _ := admits_cons_iff r e t
    cases ha : r.accept e t with
    | error fault =>
      rw [ha] at hn
      rw [finish_of_error hn]
      cases ht : t.events with
      | error fault => simp [Except.map]
      | ok es => simp [Except.map, hcons, ha]
    | ok s =>
      rw [ha] at hn
      have hlt := length_of_next hn
      rw [finish_of_event hn, finish_eq_ok_iff s, scanner_of_accept ha]
      cases ht : t.events with
      | error fault => simp [Except.map]
      | ok es => simp [Except.map, hcons, ha]
termination_by r.scanner.rest.length

/-- The events that a reader hands out up to the end of the part are those of its scanner. -/
theorem events_of_finish (r : Reader) (accepted : r.finish = .ok ()) :
    r.scanner.events = .ok (r.trace.map Prod.fst) := by
  match h : r.next with
  | .error fault =>
    rw [finish_of_error h] at accepted
    cases accepted
  | .ok (none, s) =>
    rw [trace_of_end h]
    refine Scanner.events_of_end ?_
    match hs : r.scanner.next with
    | .error fault => rw [next_of_error hs] at h; cases h
    | .ok none => rfl
    | .ok (some (e, t)) =>
      rw [next_of_event hs] at h
      cases ha : r.accept e t <;> simp [ha, Except.map] at h
  | .ok (some e, s) =>
    obtain ⟨t, hs, ha⟩ := scanner_next_of_event h
    have hlt := length_of_next h
    have ih := events_of_finish s (finish_of_event h ▸ accepted)
    rw [scanner_of_accept ha] at ih
    rw [Scanner.events_of_event hs, trace_of_event h, ih]
    rfl
termination_by r.scanner.rest.length

end Reader

/-- **What a reader asks of the events of a forest**: references that can be resolved and, outside all elements, at most
one root. -/
theorem admits_tokens_iff (f : Forest) (opened : Nat) (rooted : Bool) (es : List Event) :
    Admits opened rooted (f.tokens ++ es) ↔
      f.IsResolved ∧
        (opened = 0 → f.rootTags.length + rooted.toNat ≤ 1 ∨ f.rootTags = []) ∧
          Admits opened (rooted || !f.rootTags.isEmpty) es := by
  induction f generalizing opened rooted es with
  | nil => simp [Forest.tokens, Forest.IsResolved, Forest.references, Forest.rootTags]
  | element tag children rest ihc ihr =>
    simp only [Forest.tokens, Forest.IsResolved, Forest.references, Forest.rootTags, List.cons_append, List.append_assoc,
      Admits, ihc, ihr, Nat.add_sub_cancel]
    cases rooted <;> cases hr : rest.rootTags <;> simp [or_imp, forall_and] <;> grind
  | empty tag rest ihr =>
    simp only [Forest.tokens, Forest.IsResolved, Forest.references, Forest.rootTags, List.cons_append, Admits, ihr]
    cases rooted <;> cases hr : rest.rootTags <;> simp <;> grind
  | leaf l rest ihr =>
    cases l <;>
      simp [Forest.tokens, Forest.IsResolved, Forest.references, Forest.rootTags, Leaf.event, Admits, ihr, and_assoc]

/-! ## Spelling a forest -/

/-- A text spells a forest: its events are those of the trees. -/
def Spells (text : String) (forest : Forest) : Prop := (Scanner.ofText text).events = .ok forest.tokens

theorem Spells.unique {text : String} {f g : Forest} (hf : Spells text f) (hg : Spells text g) : f = g :=
  Forest.tokens_injective (Except.ok.inj (hf.symm.trans hg))

theorem isWellFormed_iff_of_spells {text : String} {f : Forest} (h : Spells text f) :
    IsWellFormed text ↔ f.IsDocument := by
  have hf := admits_tokens_iff f 0 false []
  rw [List.append_nil] at hf
  rw [IsWellFormed, Reader.finish_eq_ok_iff]
  change (∃ es, (Scanner.ofText text).events = .ok es ∧ Admits 0 false es) ↔ _
  rw [h]
  simp only [Except.ok.injEq, exists_eq_left', hf]
  constructor
  · rintro ⟨resolved, hroot, hend⟩
    refine ⟨?_, resolved⟩
    cases hr : f.rootTags with
    | nil => simp [hr, Admits] at hend
    | cons tag tags =>
      have := hroot trivial
      simp only [hr, List.length_cons, Bool.toNat_false, reduceCtorEq, or_false] at this
      rw [List.length_cons]
      omega
  · rintro ⟨oneRoot, resolved⟩
    refine ⟨resolved, fun _ => .inl (by simp [oneRoot]), ?_⟩
    have hne : f.rootTags ≠ [] := by
      intro hn
      simp [hn] at oneRoot
    simp [Admits, hne]

/-- **A part describes the forest that its text spells, if this is a document.** -/
theorem describes_iff {text : String} {f : Forest} : Describes text f ↔ Spells text f ∧ f.IsDocument := by
  constructor
  · intro h
    have hs : Spells text f := by
      have := Reader.events_of_finish (Reader.ofText text) h.isWellFormed
      rw [h.trace_eq, Forest.map_fst_events] at this
      exact this
    exact ⟨hs, (isWellFormed_iff_of_spells hs).1 h.isWellFormed⟩
  · rintro ⟨hs, hd⟩
    have accepted := (isWellFormed_iff_of_spells hs).2 hd
    obtain ⟨g, hg, -⟩ := exists_unique_describes accepted
    have hgs := Reader.events_of_finish (Reader.ofText text) hg.isWellFormed
    rw [hg.trace_eq, Forest.map_fst_events] at hgs
    rwa [Spells.unique hs hgs]

/-- **A part is well-formed exactly if its text spells a document.** -/
theorem isWellFormed_iff (text : String) : IsWellFormed text ↔ ∃ f, Spells text f ∧ f.IsDocument := by
  constructor
  · intro accepted
    obtain ⟨f, hf, -⟩ := exists_unique_describes accepted
    exact ⟨f, describes_iff.1 hf⟩
  · rintro ⟨f, hs, hd⟩
    exact (isWellFormed_iff_of_spells hs).2 hd

end OfficePreview.Xml
