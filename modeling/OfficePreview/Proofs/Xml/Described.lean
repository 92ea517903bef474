import OfficePreview.Proofs.Xml.Folds
import OfficePreview.Proofs.Xml.Tree
/-!
# Described — a part that is read to its end describes a forest

A reader knows the names of the open elements (in its scanner) and their number.  From a reader whose number is right,
the events up to the end of the part close every element that is open, innermost first, and each closing tag has the name
of its start tag (`nested_trace`).  Such a sequence is the events of a forest cut open at the elements that are open
(`Nested.exists_forests`); at the start of a part none is, and the part describes a forest (`exists_unique_describes`).

Whatever is read from such a part is a fold over the events of its forest (`Describes.readPart`).
-/
namespace OfficePreview.Xml

/-! ## Tags match -/

/-- The names of the open elements after an event, from those before it. -/
def Event.enclosing? (names : List String) : Event → Option (List String)
  | .start tag => some (tag.name :: names)
  | .close name => if names.head? = some name then some names.tail else none
  | _ => some names

namespace Scanner

theorem tagEvent_eq (inside : List Char) : ∃ tag, tagEvent inside = .start tag ∨ tagEvent inside = .empty tag := by
  unfold tagEvent
  dsimp only
  split
  · exact ⟨_, .inr rfl⟩
  · exact ⟨_, .inl rfl⟩

theorem enclosing_of_openTag {names : List String} {cs : List Char} {e : Event} {s : Scanner}
    (h : openTag names cs = .ok (e, s)) : e.enclosing? names = some s.enclosing := by
  unfold openTag at h
  split at h
  · cases h
  · rename_i inside rest _
    obtain ⟨tag, ht | ht⟩ := tagEvent_eq inside <;> (rw [ht] at h; cases h; rfl)

theorem enclosing_of_closeTag {names : List String} {cs : List Char} {e : Event} {s : Scanner}
    (h : closeTag names cs = .ok (e, s)) : e.enclosing? names = some s.enclosing := by
  unfold closeTag at h
  split at h
  · cases h
  · split at h
    · cases h
    · split at h
      · cases h; simp [Event.enclosing?]
      · cases h

theorem enclosing_of_instruction {names : List String} {cs : List Char} {e : Event} {s : Scanner}
    (h : instruction names cs = .ok (e, s)) : e.enclosing? names = some s.enclosing := by
  unfold instruction at h
  dsimp only at h
  split at h <;> cases h
  rfl

theorem enclosing_of_doctype {names : List String} {cs : List Char} {e : Event} {s : Scanner}
    (h : doctype names cs = .ok (e, s)) : e.enclosing? names = some s.enclosing := by
  unfold doctype at h
  split at h
  · split at h
    · cases h
    · split at h <;> cases h
      rfl
  · cases h

theorem enclosing_of_bang {names : List String} {cs : List Char} {e : Event} {s : Scanner}
    (h : bang names cs = .ok (e, s)) : e.enclosing? names = some s.enclosing := by
  unfold bang at h
  split at h
  · split at h
    · split at h <;> cases h
      rfl
    · cases h
  · split at h
    · split at h <;> cases h
      rfl
    · cases h
  · split at h
    · exact enclosing_of_doctype h
    · cases h
  · cases h

theorem enclosing_of_markup {names : List String} {cs : List Char} {e : Event} {s : Scanner}
    (h : markup names cs = .ok (e, s)) : e.enclosing? names = some s.enclosing := by
  unfold markup at h
  split at h
  · exact enclosing_of_bang h
  · exact enclosing_of_instruction h
  · exact enclosing_of_closeTag h
  · exact enclosing_of_openTag h

theorem enclosing_of_reference {names : List String} {cs : List Char} {e : Event} {s : Scanner}
    (h : reference names cs = .ok (e, s)) : e.enclosing? names = some s.enclosing := by
  unfold reference at h
  split at h <;> cases h
  rfl

theorem ok_of_map_some {α : Type} {r : Except Fault α} {a : α} (h : r.map some = .ok (some a)) : r = .ok a := by
  cases r <;> simp_all [Except.map]

/-- **Every event changes the open elements as it says**; a closing tag has the name of the innermost one. -/
theorem enclosing_of_next {s t : Scanner} {e : Event} (h : s.next = .ok (some (e, t))) :
    e.enclosing? s.enclosing = some t.enclosing := by
  unfold next at h
  split at h
  · cases h
  · exact enclosing_of_markup (ok_of_map_some h)
  · exact enclosing_of_reference (ok_of_map_some h)
  · cases h; rfl

end Scanner

/-! ## The events of a well-formed part nest -/

/-- A sequence of events with depths that closes the open elements `names` and every element that it opens. -/
inductive Nested : List String → List (Event × Nat) → Prop
  | done : Nested [] []
  | start {names : List String} {es : List (Event × Nat)} (tag : Tag) :
    Nested (tag.name :: names) es → Nested names ((.start tag, names.length + 1) :: es)
  | empty {names : List String} {es : List (Event × Nat)} (tag : Tag) :
    Nested names es → Nested names ((.empty tag, names.length + 1) :: es)
  | leaf {names : List String} {es : List (Event × Nat)} (l : Leaf) :
    Nested names es → Nested names ((l.event, names.length) :: es)
  | close {names : List String} {es : List (Event × Nat)} (name : String) :
    Nested names es → Nested (name :: names) ((.close name, names.length + 1) :: es)

namespace Reader

/-- A reader whose number of open elements is that of its scanner. -/
def Counts (r : Reader) : Prop := r.opened = r.scanner.enclosing.length

/-- **An accepted event goes on with the nesting**, and the number of open elements stays right. -/
theorem nested_of_accept {r s : Reader} {e : Event} {scanner : Scanner} (hr : r.Counts)
    (he : e.enclosing? r.scanner.enclosing = some scanner.enclosing) (h : r.accept e scanner = .ok s) :
    s.Counts ∧ ∀ es, Nested s.scanner.enclosing es → Nested r.scanner.enclosing ((e, s.depth) :: es) := by
  unfold Counts at hr
  -- A leaf leaves the open elements as they are and lies as deep as they are many.
  have keep (l : Leaf) (hl : l.event = e) (hs : s = { r with scanner, depth := r.opened })
      (hn : r.scanner.enclosing = scanner.enclosing) :
      s.Counts ∧ ∀ es, Nested s.scanner.enclosing es → Nested r.scanner.enclosing ((e, s.depth) :: es) := by
    subst hl hs
    exact ⟨by rw [Counts, hr, hn], fun es hes => by dsimp only; rw [hr]; exact .leaf l (hn ▸ hes)⟩
  cases e with
  | start tag =>
    simp only [Event.enclosing?, Option.some.injEq] at he
    simp only [accept] at h
    split at h <;> cases h
    exact ⟨by simp [Counts, hr, ← he], fun es hes => by dsimp only; rw [hr]; exact .start tag (he ▸ hes)⟩
  | empty tag =>
    simp only [Event.enclosing?, Option.some.injEq] at he
    simp only [accept] at h
    split at h <;> cases h
    exact ⟨by simp [Counts, hr, ← he], fun es hes => by dsimp only; rw [hr]; exact .empty tag (he ▸ hes)⟩
  | close name =>
    cases h
    cases hn : r.scanner.enclosing with
    | nil => simp [Event.enclosing?, hn] at he
    | cons outer names =>
      simp only [Event.enclosing?, hn, List.head?_cons, Option.some.injEq, List.tail_cons, Option.ite_none_right_eq_some]
        at he
      obtain ⟨rfl, he⟩ := he
      rw [hn, List.length_cons] at hr
      exact ⟨by simp [Counts, hr, he], fun es hes => by dsimp only; rw [hr]; exact .close outer (he ▸ hes)⟩
  | reference name =>
    simp only [accept] at h
    split at h <;> cases h
    exact keep (.reference name) rfl rfl (Option.some.inj he)
  | text data => cases h; exact keep (.text data) rfl rfl (Option.some.inj he)
  | cdata data => cases h; exact keep (.cdata data) rfl rfl (Option.some.inj he)
  | aside kind => cases h; exact keep (.aside kind) rfl rfl (Option.some.inj he)

theorem scanner_next_of_event {r s : Reader} {e : Event} (h : r.next = .ok (some e, s)) :
    ∃ scanner, r.scanner.next = .ok (some (e, scanner)) ∧ r.accept e scanner = .ok s := by
  unfold next at h
  split at h
  · cases h
  · cases ha : r.acceptEnd <;> simp [ha, Except.map] at h
  · rename_i e' scanner hs
    cases ha : r.accept e' scanner with
    | error fault => simp [ha, Except.map] at h
    | ok t =>
      simp only [ha, Except.map, Except.ok.injEq, Prod.mk.injEq, Option.some.injEq] at h
      obtain ⟨rfl, rfl⟩ := h
      exact ⟨scanner, hs, ha⟩

theorem opened_of_end {r s : Reader} (h : r.next = .ok (none, s)) : r.opened = 0 := by
  unfold next at h
  split at h
  · cases h
  · unfold acceptEnd at h
    split at h
    · simp [Except.map] at h
    · split at h
      · simp [Except.map] at h
      · omega
  · rename_i e scanner _
    cases ha : r.accept e scanner <;> simp [ha, Except.map] at h

/-- **The events up to the end of a part close every element that is open.** -/
theorem nested_trace (r : Reader) (hr : r.Counts) (accepted : r.finish = .ok ()) :
    Nested r.scanner.enclosing r.trace := by
  match h : r.next with
  | .error fault => rw [finish_of_error h] at accepted; cases accepted
  | .ok (none, s) =>
    have hn : r.scanner.enclosing = [] := List.eq_nil_of_length_eq_zero (hr.symm.trans (opened_of_end h))
    rw [trace_of_end h, hn]
    exact .done
  | .ok (some e, s) =>
    obtain ⟨scanner, hn, ha⟩ := scanner_next_of_event h
    obtain ⟨hs, hes⟩ := nested_of_accept hr (Scanner.enclosing_of_next hn) (ha)
    have := length_of_next h
    rw [trace_of_event h]
    exact hes _ (nested_trace s hs (finish_of_event h ▸ accepted))
termination_by r.scanner.rest.length

end Reader

/-! ## What nests is a forest -/

namespace Nested

/-- The events of forests, the first of them inside all the elements `names`, each other one after the closing tag of the
innermost element that is still open. -/
def spread : List String → Forest → List Forest → List (Event × Nat)
  | name :: names, f, g :: gs => f.events (names.length + 1) ++ (.close name, names.length + 1) :: spread names g gs
  | names, f, _ => f.events names.length

theorem exists_spread (names : List String) (gs : List Forest) :
    ∃ es, ∀ f, spread names f gs = f.events names.length ++ es := by
  cases names with
  | nil => exact ⟨[], fun f => by simp [spread]⟩
  | cons name names =>
    cases gs with
    | nil => exact ⟨[], fun f => by simp [spread]⟩
    | cons g gs => exact ⟨(.close name, names.length + 1) :: spread names g gs, fun f => rfl⟩

/-- **What nests is the events of forests**, one inside each element that is open and one beside them. -/
theorem exists_forests {names : List String} {es : List (Event × Nat)} (h : Nested names es) :
    ∃ f gs, gs.length = names.length ∧ es = spread names f gs := by
  induction h with
  | done => exact ⟨.nil, [], rfl, rfl⟩
  | @start names es tag _ ih =>
    obtain ⟨f, gs, hl, rfl⟩ := ih
    match gs, hl with
    | g :: gs, hl =>
      obtain ⟨tail, ht⟩ := exists_spread names gs
      refine ⟨.element tag f g, gs, by simpa using hl, ?_⟩
      simp [spread, ht, Forest.events]
  | @empty names es tag _ ih =>
    obtain ⟨f, gs, hl, rfl⟩ := ih
    obtain ⟨tail, ht⟩ := exists_spread names gs
    exact ⟨.empty tag f, gs, hl, by simp [ht, Forest.events]⟩
  | @leaf names es l _ ih =>
    obtain ⟨f, gs, hl, rfl⟩ := ih
    obtain ⟨tail, ht⟩ := exists_spread names gs
    exact ⟨.leaf l f, gs, hl, by simp [ht, Forest.events]⟩
  | close name _ ih =>
    obtain ⟨f, gs, hl, rfl⟩ := ih
    exact ⟨.nil, f :: gs, by simp [hl], by simp [spread, Forest.events]⟩

theorem exists_forest {es : List (Event × Nat)} (h : Nested [] es) : ∃ f : Forest, es = f.events 0 := by
  obtain ⟨f, gs, -, rfl⟩ := exists_forests h
  exact ⟨f, rfl⟩

end Nested

/-! ## Parts that are read to their end -/

/-- A part is read to its end without a fault. -/
def IsWellFormed (text : String) : Prop := (Reader.ofText text).finish = .ok ()

instance (text : String) : Decidable (IsWellFormed text) :=
  match h : (Reader.ofText text).finish with
  | .ok () => isTrue h
  | .error _ => isFalse (by simp [IsWellFormed, h])

/-- **A part describes a forest**: it is read to its end, and its events are those of the forest. -/
structure Describes (text : String) (forest : Forest) : Prop where
  isWellFormed : IsWellFormed text
  trace_eq : (Reader.ofText text).trace = forest.events 0

/-- **A part that is read to its end describes exactly one forest.** -/
theorem exists_unique_describes {text : String} (accepted : IsWellFormed text) :
    ∃ forest, Describes text forest ∧ ∀ other, Describes text other → other = forest := by
  have hn : Nested [] (Reader.ofText text).trace := Reader.nested_trace (Reader.ofText text) rfl accepted
  obtain ⟨forest, hf⟩ := hn.exists_forest
  exact ⟨forest, ⟨accepted, hf⟩, fun other h => Forest.events_injective (h.trace_eq.symm.trans hf)⟩

namespace Describes

variable {σ : Type} {text : String} {forest : Forest}

/-- **Whatever is read from a part that describes a forest is a fold over the events of the forest.** -/
theorem readPart (h : Describes text forest) (f : σ → Event → Nat → σ) (init : σ) :
    Xml.readPart f init text = ((forest.events 0).foldl (fun s p => f s p.1 p.2) init, .ok ()) := by
  refine Prod.ext ?_ ?_
  · exact (Reader.fold_value f init _).trans (by rw [h.trace_eq])
  · exact (Reader.fold_verdict f init _).trans h.isWellFormed

theorem parsePart (h : Describes text forest) (f : σ → Event → Nat → σ) (init : σ) :
    Xml.parsePart f init text = .ok ((forest.events 0).foldl (fun s p => f s p.1 p.2) init) := by
  rw [Xml.parsePart, h.readPart]
  rfl

theorem readAll {α : Type} (h : Describes text forest) (step : σ → Event → Nat → σ) (atEnd : σ → α) (init : σ) :
    Xml.readAll step atEnd init text =
      ((forest.events 0).foldl (fun s p => step s p.1 p.2) init,
        .ok (atEnd ((forest.events 0).foldl (fun s p => step s p.1 p.2) init))) := by
  rw [readAll_eq, h.readPart, h.parsePart]
  rfl

end Describes

end OfficePreview.Xml
