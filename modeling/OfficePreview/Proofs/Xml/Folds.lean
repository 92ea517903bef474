import OfficePreview.Xml.Reader
/-!
# Folds — what is read in loops is a fold over the events

The events of a part up to its end or its first fault do not depend on who reads them.  A fold takes them one after the
other, to the last; whatever it carries, its verdict is that of `finish` (`fold_verdict`).  A loop over the whole part is
a fold at once (`readAll_eq`).

A loop that returns before the end, or leaves events to another loop, follows a fold if each of its turns does
(`follows_loop`): it fails only with the fault of the part, and when it returns, a state of the fold stands beside the
reader that it gives back, from where the fold ends as it would have.
-/
namespace OfficePreview.Xml

namespace Reader

variable {α β σ τ : Type}

/-! ## Folds -/

/-- Reads to the end of the part or to its first fault, and carries a value through the events and their depths. -/
def fold (f : σ → Event → Nat → σ) (init : σ) (r : Reader) : σ × Except Fault Unit :=
  match h : r.next with
  | .error fault => (init, .error fault)
  | .ok (none, _) => (init, .ok ())
  | .ok (some e, s) =>
    have := length_of_next h
    fold f (f init e s.depth) s
termination_by r.scanner.rest.length

variable {r s : Reader}

theorem fold_of_error {fault : Fault} (h : r.next = .error fault) (f : σ → Event → Nat → σ) (a : σ) :
    r.fold f a = (a, .error fault) := by
  rw [fold]
  split <;> simp_all

theorem fold_of_end (h : r.next = .ok (none, s)) (f : σ → Event → Nat → σ) (a : σ) : r.fold f a = (a, .ok ()) := by
  rw [fold]
  split <;> simp_all

theorem fold_of_event {e : Event} (h : r.next = .ok (some e, s)) (f : σ → Event → Nat → σ) (a : σ) :
    r.fold f a = s.fold f (f a e s.depth) := by
  rw [fold]
  split <;> simp_all

theorem finish_of_error {fault : Fault} (h : r.next = .error fault) : r.finish = .error fault := by
  rw [finish]
  split <;> simp_all

theorem finish_of_end (h : r.next = .ok (none, s)) : r.finish = .ok () := by
  rw [finish]
  split <;> simp_all

theorem finish_of_event {e : Event} (h : r.next = .ok (some e, s)) : r.finish = s.finish := by
  rw [finish]
  split <;> simp_all

/-- A reader at the end of its part is there again when it is asked once more. -/
theorem next_again (h : r.next = .ok (none, s)) : s.next = .ok (none, s) := by
  unfold next at h
  split at h
  · cases h
  · rename_i hend
    unfold acceptEnd at h
    split at h
    · simp [Except.map] at h
    · rename_i hroot
      split at h
      · simp [Except.map] at h
      · rename_i hopen
        cases h
        unfold next
        simp [hend, acceptEnd, hroot, hopen, Except.map]
  · rename_i e scanner _
    cases ha : r.accept e scanner <;> simp [ha, Except.map] at h

/-- **Whatever a fold carries, its verdict is that of the part.** -/
theorem fold_verdict (f : σ → Event → Nat → σ) (a : σ) (r : Reader) : (r.fold f a).2 = r.finish := by
  fun_induction fold f a r with
  | case1 a r fault h => rw [finish_of_error h]
  | case2 a r s h => rw [finish_of_end h]
  | case3 a r e s h _ ih => rw [ih, finish_of_event h]

/-- A fold whose steps keep the value only checks the part. -/
theorem fold_fixed {f : σ → Event → Nat → σ} {a : σ} (hf : ∀ e depth, f a e depth = a) (r : Reader) :
    r.fold f a = (a, r.finish) := by
  match h : r.next with
  | .error fault => rw [fold_of_error h, finish_of_error h]
  | .ok (none, s) => rw [fold_of_end h, finish_of_end h]
  | .ok (some e, s) =>
    have := length_of_next h
    rw [fold_of_event h, finish_of_event h, hf, fold_fixed hf s]
termination_by r.scanner.rest.length

/-- **A fold followed by a map is a fold**, if the map takes the steps of the one to those of the other. -/
theorem fold_map {f : σ → Event → Nat → σ} {g : τ → Event → Nat → τ} (φ : σ → τ)
    (hφ : ∀ s e depth, φ (f s e depth) = g (φ s) e depth) (a : σ) (r : Reader) :
    φ (r.fold f a).1 = (r.fold g (φ a)).1 := by
  fun_induction fold f a r with
  | case1 a r fault h => rw [fold_of_error h]
  | case2 a r s h => rw [fold_of_end h]
  | case3 a r e s h _ ih => rw [ih, hφ, fold_of_event h g]

/-! ## The events of a part -/

def collect (es : List (Event × Nat)) (e : Event) (depth : Nat) : List (Event × Nat) := es ++ [(e, depth)]

/-- The events up to the end of the part or to its first fault, with their depths. -/
def trace (r : Reader) : List (Event × Nat) := (r.fold collect []).1

theorem fold_value (f : σ → Event → Nat → σ) (a : σ) (r : Reader) :
    (r.fold f a).1 = r.trace.foldl (fun s p => f s p.1 p.2) a := by
  have h := fold_map (f := collect) (g := f) (fun es => es.foldl (fun s p => f s p.1 p.2) a)
    (fun es e depth => by rw [collect, List.foldl_append]; rfl) [] r
  exact h.symm

theorem trace_of_end (h : r.next = .ok (none, s)) : r.trace = [] := by rw [trace, fold_of_end h]

theorem trace_of_event {e : Event} (h : r.next = .ok (some e, s)) : r.trace = (e, s.depth) :: s.trace := by
  have hs := fold_map (f := collect) (g := collect) ((e, s.depth) :: ·) (fun _ _ _ => rfl) [] s
  rw [trace, fold_of_event h, trace, hs]
  rfl

/-! ## Loops over the whole part -/

theorem loop_each (step : β → Event → Nat → β) (atEnd : β → α) (b : β) (s : r.After) :
    (loop (each step) atEnd b s).1 = (s.1.fold step b).1 ∧
      (loop (each step) atEnd b s).2.map Prod.fst = (s.1.fold step b).2.map fun _ => atEnd (s.1.fold step b).1 := by
  fun_induction loop (each step) atEnd b s with
  | case1 b s fault h => rw [fold_of_error h]; exact ⟨rfl, rfl⟩
  | case2 b s t h => rw [fold_of_end h]; exact ⟨rfl, rfl⟩
  | case3 b s e t h fault ht => cases ht
  | case4 b s e t h a u ht => cases ht
  | case5 b s e t h c u ht _ ih =>
    cases ht
    rw [fold_of_event h]
    exact ih

/-! ## Loops that return -/

/-- A reading that starts at `r` beside the state `m` of a fold.  It fails only with the fault of the part.  When it
returns, the fold comes from some state beside the reader given back to the same end, and `Q` holds of the result, that
reader and that state. -/
def Follows (f : τ → Event → Nat → τ) (m : τ) (r : Reader) (Q : α → Reader → τ → Prop) {q : Reader} :
    Except Fault (α × q.After) → Prop
  | .error fault => r.finish = .error fault
  | .ok (a, s) => ∃ m', r.fold f m = s.1.fold f m' ∧ Q a s m'

section

variable {f : τ → Event → Nat → τ} {m : τ} {q : Reader}

theorem Follows.map {Q : α → Reader → τ → Prop} {Q' : β → Reader → τ → Prop} {outcome : Except Fault (α × q.After)}
    (h : Follows f m r Q outcome) (g : α → β) (hg : ∀ a s m', Q a s m' → Q' (g a) s m') :
    Follows f m r Q' (outcome.map (Prod.map g id)) := by
  cases outcome with
  | error fault => exact h
  | ok p =>
    obtain ⟨m', hf, hq⟩ := h
    exact ⟨m', hf, hg _ _ _ hq⟩

/-- A reading that stays where it is. -/
theorem Follows.here {Q : α → Reader → τ → Prop} {a : α} (h : Q a r m) : Follows f m r Q (.ok (a, r.here)) :=
  ⟨m, rfl, h⟩

end

/-- What holds of a turn: the one property if the loop goes on, the other if it is done. -/
def progressed (P : β → Reader → τ → Prop) (Q : α → Reader → τ → Prop) : Progress β α → Reader → τ → Prop
  | .more b => P b
  | .done a => Q a

/-- **A loop follows a fold if its turns do**: `P` holds between the turns, and `Q` when the loop returns. -/
theorem follows_loop {f : τ → Event → Nat → τ} {turn : Turn β α} {atEnd : β → α} {P : β → Reader → τ → Prop}
    {Q : α → Reader → τ → Prop} (hend : ∀ b s t m, P b s m → s.next = .ok (none, t) → Q (atEnd b) t m)
    (hturn : ∀ b e s t m, P b s m → s.next = .ok (some e, t) →
      Follows f (f m e t.depth) t (progressed P Q) (turn b e t)) {b : β} {s : r.After} {m : τ} (h : P b s m) :
    Follows f m s Q (loop turn atEnd b s).2 := by
  fun_induction loop turn atEnd b s generalizing m with
  | case1 b s fault hn => exact finish_of_error hn
  | case2 b s t hn => exact ⟨m, by rw [fold_of_end hn, fold_of_end (next_again hn)], hend _ _ _ _ h hn⟩
  | case3 b s e t hn fault ht =>
    have hf := hturn b e s t m h hn
    rw [ht] at hf
    exact (finish_of_event hn).trans hf
  | case4 b s e t hn a u ht =>
    have hf := hturn b e s t m h hn
    rw [ht] at hf
    obtain ⟨m', hm, hq⟩ := hf
    exact ⟨m', (fold_of_event hn f m).trans hm, hq⟩
  | case5 b s e t hn c u ht _ ih =>
    have hf := hturn b e s t m h hn
    rw [ht] at hf
    obtain ⟨m', hm, hp⟩ := hf
    have hloop := ih hp
    unfold Follows at hloop ⊢
    split
    · rename_i fault hl
      rw [hl] at hloop
      rw [← fold_verdict f m s.1, fold_of_event hn, hm, fold_verdict]
      exact hloop
    · rename_i a v hl
      rw [hl] at hloop
      obtain ⟨m'', hm', hq⟩ := hloop
      exact ⟨m'', ((fold_of_event hn f m).trans hm).trans hm', hq⟩

end Reader

/-! ## Whole parts -/

section

variable {α σ : Type}

def readPart (f : σ → Event → Nat → σ) (init : σ) (text : String) : σ × Except Fault Unit :=
  (Reader.ofText text).fold f init

/-- What a fold over a whole part comes to, or the fault of the part. -/
def parsePart (f : σ → Event → Nat → σ) (init : σ) (text : String) : Except Fault σ :=
  (readPart f init text).2.map fun _ => (readPart f init text).1

/-- **A loop over a whole part is a fold**, with what the loop makes of the last state. -/
theorem readAll_eq (step : σ → Event → Nat → σ) (atEnd : σ → α) (init : σ) (text : String) :
    readAll step atEnd init text = ((readPart step init text).1, (parsePart step init text).map atEnd) := by
  obtain ⟨state, outcome⟩ := Reader.loop_each step atEnd init (Reader.ofText text).here
  refine Prod.ext state (outcome.trans ?_)
  dsimp only [parsePart, readPart, Reader.here]
  cases ((Reader.ofText text).fold step init).2 <;> rfl

end

end OfficePreview.Xml
