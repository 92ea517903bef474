/-!
# Report — an outcome together with the warnings raised on the way

Reading a damaged or unusual package can go on after a doubtful step, and it can fail after such a step. A report
therefore keeps the warnings, in the order in which they were raised, beside the outcome and not inside it.
-/
namespace OfficePreview

/-- An outcome with error `ε` or value `α`, and the warnings `ω` raised up to it. -/
structure Report (ω ε α : Type) where
  outcome : Except ε α
  warnings : List ω

namespace Report

variable {ω ε α β : Type}

/-- A step that gives a value and raises nothing. -/
protected def pure (a : α) : Report ω ε α := ⟨.ok a, []⟩

def fail (e : ε) : Report ω ε α := ⟨.error e, []⟩

def warn (w : ω) : Report ω ε Unit := ⟨.ok (), [w]⟩

/-- A step that raises no warning, given by its outcome. -/
def ofExcept (r : Except ε α) : Report ω ε α := ⟨r, []⟩

/-- One step after another; a failure ends the sequence and keeps the warnings before it. -/
protected def bind (r : Report ω ε α) (f : α → Report ω ε β) : Report ω ε β :=
  match r.outcome with
  | .error e => ⟨.error e, r.warnings⟩
  | .ok a => ⟨(f a).outcome, r.warnings ++ (f a).warnings⟩

instance : Monad (Report ω ε) where
  pure := Report.pure
  bind := Report.bind

instance : LawfulMonad (Report ω ε) := by
  refine LawfulMonad.mk' _ ?_ ?_ ?_
  · rintro α ⟨_ | _, _⟩ <;> simp [Functor.map, Report.bind, Report.pure]
  · intro α β a f
    simp [Bind.bind, Pure.pure, Report.bind, Report.pure]
  · rintro α β γ ⟨_ | _, _⟩ f g
    · rfl
    · rename_i ws a
      rcases hf : f a with ⟨_ | _, _⟩ <;> simp [Bind.bind, Report.bind, hf]

/-- The same report in the words of another layer. -/
def lift {ω' ε' : Type} (f : ω → ω') (g : ε → ε') (r : Report ω ε α) : Report ω' ε' α :=
  ⟨r.outcome.mapError g, r.warnings.map f⟩

@[simp] theorem outcome_pure (a : α) : (pure a : Report ω ε α).outcome = .ok a := rfl

@[simp] theorem warnings_pure (a : α) : (pure a : Report ω ε α).warnings = [] := rfl

@[simp] theorem outcome_fail (e : ε) : (fail e : Report ω ε α).outcome = .error e := rfl

@[simp] theorem warnings_fail (e : ε) : (fail e : Report ω ε α).warnings = [] := rfl

@[simp] theorem outcome_ofExcept (r : Except ε α) : (ofExcept r : Report ω ε α).outcome = r := rfl

@[simp] theorem warnings_ofExcept (r : Except ε α) : (ofExcept r : Report ω ε α).warnings = [] := rfl

@[simp] theorem outcome_lift {ω' ε' : Type} (f : ω → ω') (g : ε → ε') (r : Report ω ε α) :
    (r.lift f g).outcome = r.outcome.mapError g := rfl

@[simp] theorem warnings_lift {ω' ε' : Type} (f : ω → ω') (g : ε → ε') (r : Report ω ε α) :
    (r.lift f g).warnings = r.warnings.map f := rfl

@[simp] theorem outcome_bind (r : Report ω ε α) (f : α → Report ω ε β) :
    (r >>= f).outcome = r.outcome.bind fun a => (f a).outcome := by
  cases h : r.outcome <;> simp [Bind.bind, Report.bind, Except.bind, h]

theorem warnings_bind_of_ok {r : Report ω ε α} {a : α} (h : r.outcome = .ok a) (f : α → Report ω ε β) :
    (r >>= f).warnings = r.warnings ++ (f a).warnings := by
  simp [Bind.bind, Report.bind, h]

theorem warnings_bind_of_error {r : Report ω ε α} {e : ε} (h : r.outcome = .error e) (f : α → Report ω ε β) :
    (r >>= f).warnings = r.warnings := by
  simp [Bind.bind, Report.bind, h]

end Report

end OfficePreview
