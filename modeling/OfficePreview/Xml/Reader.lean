import OfficePreview.Xml.Scanner
/-!
# Reader — the events of a well-formed part

A reader asks of the events what a tree needs: one root element, nothing left open at the end, and references that can be
resolved. It counts the elements that are open and gives every event its depth: its own depth for a tag, the root being
at depth one, and that of the enclosing element for everything else.

Whoever reads a part does so in loops. A loop takes the events one by one with a state of its own, until it has what it
looks for or the part ends; on the way it may leave events to a loop inside it, which gives back the reader where it
stopped. A reading that stops early has `finish` check the rest of the part.
-/
namespace OfficePreview.Xml

/-- What one turn of a loop comes to: the state for the next turn, or the result of the loop. -/
inductive Progress (β α : Type)
  | more (state : β)
  | done (result : α)

/-- A reader between two events. -/
structure Reader where
  scanner : Scanner
  opened : Nat
  rooted : Bool
  depth : Nat
deriving DecidableEq, Repr

namespace Reader

def ofText (text : String) : Reader := { scanner := .ofText text, opened := 0, rooted := false, depth := 0 }

/-- The check of an event against what was read before it, and the reader after it. -/
def accept (r : Reader) (e : Event) (scanner : Scanner) : Except Fault Reader :=
  match e with
  | .start _ =>
    if r.opened = 0 ∧ r.rooted then .error .secondRoot
    else .ok { scanner, opened := r.opened + 1, rooted := true, depth := r.opened + 1 }
  | .empty _ =>
    if r.opened = 0 ∧ r.rooted then .error .secondRoot
    else .ok { scanner, opened := r.opened, rooted := true, depth := r.opened + 1 }
  | .close _ => .ok { scanner, opened := r.opened - 1, rooted := r.rooted, depth := r.opened }
  | .reference name =>
    if (resolveInText? name.toList).isSome then .ok { r with scanner, depth := r.opened }
    else .error (.unknownReference name)
  | .text _ | .cdata _ | .aside _ => .ok { r with scanner, depth := r.opened }

def acceptEnd (r : Reader) : Except Fault Reader :=
  if !r.rooted then .error .noRoot
  else if r.opened > 0 then .error (.leftOpen r.opened)
  else .ok { r with depth := 0 }

/-- Reads one event, with the reader after it; there is none at the end of the part. -/
def next (r : Reader) : Except Fault (Option Event × Reader) :=
  match r.scanner.next with
  | .error fault => .error fault
  | .ok none => r.acceptEnd.map (none, ·)
  | .ok (some (e, scanner)) => (r.accept e scanner).map (some e, ·)

theorem scanner_of_accept {r s : Reader} {e : Event} {scanner : Scanner} (h : r.accept e scanner = .ok s) :
    s.scanner = scanner := by
  cases e with
  | start | empty =>
    simp only [accept] at h
    split at h
    · cases h
    · cases h; rfl
  | reference =>
    simp only [accept] at h
    split at h
    · cases h; rfl
    · cases h
  | _ => cases h; rfl

theorem length_of_next {r s : Reader} {e : Event} (h : r.next = .ok (some e, s)) :
    s.scanner.rest.length < r.scanner.rest.length := by
  unfold next at h
  split at h
  · cases h
  · cases hm : r.acceptEnd <;> simp [hm, Except.map] at h
  · rename_i e' scanner hs
    cases hm : r.accept e' scanner with
    | error f => simp [hm, Except.map] at h
    | ok t =>
      simp only [hm, Except.map, Except.ok.injEq, Prod.mk.injEq, Option.some.injEq] at h
      rw [← h.2, scanner_of_accept hm]
      exact Scanner.length_of_next hs

theorem scanner_of_end {r s : Reader} (h : r.next = .ok (none, s)) : s.scanner = r.scanner := by
  unfold next at h
  split at h
  · cases h
  · unfold acceptEnd at h
    split at h
    · cases h
    · split at h <;> cases h
      rfl
  · rename_i e scanner _
    cases ha : r.accept e scanner <;> simp [ha, Except.map] at h

/-- Reads to the end of the part for its faults alone. -/
def finish (r : Reader) : Except Fault Unit :=
  match h : r.next with
  | .error fault => .error fault
  | .ok (none, _) => .ok ()
  | .ok (some _, s) =>
    have := length_of_next h
    s.finish
termination_by r.scanner.rest.length

/-! ## Loops -/

/-- The readers with no more of the part left than `r` has. -/
abbrev After (r : Reader) := { s : Reader // s.scanner.rest.length ≤ r.scanner.rest.length }

def here (r : Reader) : r.After := ⟨r, Nat.le_refl _⟩

/-- What a loop does with an event, given the reader after it. It may read on from there, and gives back the reader that
the loop goes on with. -/
abbrev Turn (β α : Type) := β → Event → (s : Reader) → Except Fault (Progress β α × s.After)

variable {α β : Type}

/-- A turn that takes the event and its depth and reads no further. -/
def single (step : β → Event → Nat → Progress β α) : Turn β α := fun b e s => .ok (step b e s.depth, s.here)

/-- A turn that takes the event and its depth, after which the loop always goes on. -/
def each (step : β → Event → Nat → β) : Turn β α := single fun b e depth => .more (step b e depth)

theorem length_of_turn {s t : Reader} {e : Event} (h : s.next = .ok (some e, t)) (u : t.After) :
    u.1.scanner.rest.length < s.scanner.rest.length := Nat.lt_of_le_of_lt u.2 (length_of_next h)

/-- Takes events until a turn is done, and gives back the reader there. At the end of the part the result is what `atEnd`
makes of the state. The state is there after a fault too, since a reading may have warnings to give besides its result. -/
def loop (turn : Turn β α) (atEnd : β → α) {r : Reader} (b : β) (s : r.After) : β × Except Fault (α × r.After) :=
  match h : s.1.next with
  | .error fault => (b, .error fault)
  | .ok (none, t) => (b, .ok (atEnd b, ⟨t, scanner_of_end h ▸ s.2⟩))
  | .ok (some e, t) =>
    match turn b e t with
    | .error fault => (b, .error fault)
    | .ok (.done a, u) => (b, .ok (a, ⟨u.1, Nat.le_of_lt (Nat.lt_of_lt_of_le (length_of_turn h u) s.2)⟩))
    | .ok (.more c, u) =>
      have := length_of_turn h u
      loop turn atEnd c ⟨u.1, Nat.le_of_lt (Nat.lt_of_lt_of_le this s.2)⟩
termination_by s.1.scanner.rest.length

end Reader

variable {α β : Type}

/-- A loop over a whole part: the state that it ends with and its result, or the fault of the part. -/
def readAll (step : β → Event → Nat → β) (atEnd : β → α) (init : β) (text : String) : β × Except Fault α :=
  let (b, outcome) := Reader.loop (Reader.each step) atEnd init (Reader.ofText text).here
  (b, outcome.map Prod.fst)

end OfficePreview.Xml
