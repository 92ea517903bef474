import OfficePreview.Proofs.Xml.Written
/-!
# Escaped — text that is read back as it was before it was escaped

In an element an escaped text is read back as text and references that stand for its characters, one after the other
(`events_escape`, `Forest.data_withText`); in a value it is read back as the text itself (`value_escape`).  No escaped
text holds markup, so the trees before and after it are not touched, and it adds no tag to them.
-/
namespace OfficePreview.Xml

/-! ## Characters -/

/-- The reference that a character is written as, if it does not stand for itself. -/
def referenceFor? (c : Char) : Option String :=
  if c = '&' then some "amp"
  else if c = '<' then some "lt"
  else if c = '>' then some "gt"
  else if c = '"' then some "quot"
  else if c = '\'' then some "#39"
  else none

theorem toList_escapeChar (c : Char) :
    (escapeChar c).toList = match referenceFor? c with
      | some name => '&' :: (name.toList ++ [';'])
      | none => [c] := by
  by_cases h1 : c = '&'
  · subst h1; rfl
  by_cases h2 : c = '<'
  · subst h2; rfl
  by_cases h3 : c = '>'
  · subst h3; rfl
  by_cases h4 : c = '"'
  · subst h4; rfl
  by_cases h5 : c = '\''
  · subst h5; rfl
  simp [escapeChar, referenceFor?, h1, h2, h3, h4, h5]

theorem toList_escape (s : String) : (escape s).toList = s.toList.flatMap fun c => (escapeChar c).toList := by
  simp [escape, String.toList_join, List.flatMap_map]

theorem referenceFor?_cases {c : Char} {name : String} (h : referenceFor? c = some name) :
    (c = '&' ∧ name = "amp") ∨ (c = '<' ∧ name = "lt") ∨ (c = '>' ∧ name = "gt") ∨ (c = '"' ∧ name = "quot") ∨
      (c = '\'' ∧ name = "#39") := by
  unfold referenceFor? at h
  repeat' split at h
  all_goals simp_all

theorem resolve_referenceFor? {c : Char} {name : String} (h : referenceFor? c = some name) :
    resolveInText? name.toList = some c := by
  rcases referenceFor?_cases h with ⟨rfl, rfl⟩ | ⟨rfl, rfl⟩ | ⟨rfl, rfl⟩ | ⟨rfl, rfl⟩ | ⟨rfl, rfl⟩ <;> decide

theorem isReferenceName_referenceFor? {c : Char} {name : String} (h : referenceFor? c = some name) :
    ∀ d ∈ name.toList, Scanner.isReferenceName d = true := by
  rcases referenceFor?_cases h with ⟨rfl, rfl⟩ | ⟨rfl, rfl⟩ | ⟨rfl, rfl⟩ | ⟨rfl, rfl⟩ | ⟨rfl, rfl⟩ <;>
    exact List.all_eq_true.1 (by decide)

theorem isData_of_referenceFor? {c : Char} (h : referenceFor? c = none) : Scanner.isData c = true := by
  unfold referenceFor? at h
  repeat' split at h
  all_goals simp_all [Scanner.isData]

/-- A text that needs no references is its own escaped form. -/
theorem escape_eq_self {s : String} (h : ∀ c ∈ s.toList, referenceFor? c = none) : escape s = s := by
  rw [← String.toList_inj, toList_escape]
  revert h
  induction s.toList with
  | nil => exact fun _ => rfl
  | cons c cs ih =>
    intro h
    obtain ⟨hc, hcs⟩ := List.forall_mem_cons.1 h
    rw [List.flatMap_cons, ih hcs, toList_escapeChar, hc]
    rfl

theorem referenceFor?_of_isAlphanum {c : Char} (h : c.isAlphanum = true) : referenceFor? c = none := by
  cases hr : referenceFor? c with
  | none => rfl
  | some name =>
    rcases referenceFor?_cases hr with ⟨rfl, -⟩ | ⟨rfl, -⟩ | ⟨rfl, -⟩ | ⟨rfl, -⟩ | ⟨rfl, -⟩ <;> cases h

/-! ## Text -/

namespace Forest

/-- Trees with one more character of text before them. -/
def withChar (c : Char) (f : Forest) : Forest :=
  match referenceFor? c with
  | some name => .leaf (.reference name) f
  | none =>
    match f with
    | .leaf (.text data) rest => .leaf (.text (c.toString ++ data)) rest
    | f => .leaf (.text c.toString) f

/-- Trees with a text before them, as the text is read back from its escaped form. -/
def withText (s : String) (f : Forest) : Forest := s.toList.foldr withChar f

theorem data_withChar (c : Char) (f : Forest) : (f.withChar c).data = c.toString ++ f.data := by
  unfold withChar
  split
  · rename_i name h
    simp [data, Leaf.data, Leaf.event, Event.data?, resolve_referenceFor? h]
  · split <;> simp [data, Leaf.data, Leaf.event, Event.data?, String.append_assoc]

theorem data_withText (s : String) (f : Forest) : (f.withText s).data = s ++ f.data := by
  have go (cs : List Char) : (cs.foldr withChar f).data.toList = cs ++ f.data.toList := by
    induction cs with
    | nil => rfl
    | cons c cs ih => simp [data_withChar, ih]
  rw [← String.toList_inj, withText, go, String.toList_append]

/-- What leaves do not touch, text does not touch. -/
theorem eq_withText {α : Type} (m : Forest → α) (hm : ∀ l f, m (.leaf l f) = m f) (s : String) (f : Forest) :
    m (f.withText s) = m f := by
  unfold withText
  induction s.toList with
  | nil => rfl
  | cons c cs ih =>
    rw [List.foldr_cons, ← ih]
    generalize cs.foldr withChar f = g
    unfold withChar
    split
    · exact hm _ g
    · split
      · rw [hm, hm]
      · exact hm _ g

@[simp] theorem tags_withText (s : String) (f : Forest) : (f.withText s).tags = f.tags :=
  eq_withText tags (fun _ _ => rfl) s f

theorem every_withText (p : Tag → Forest → Prop) (s : String) (f : Forest) : (f.withText s).Every p = f.Every p :=
  eq_withText (Every p) (fun _ _ => rfl) s f

/-- The references of a written text can be resolved. -/
theorem IsResolved.withText {f : Forest} (h : f.IsResolved) (s : String) : (f.withText s).IsResolved := by
  unfold Forest.withText
  induction s.toList with
  | nil => exact h
  | cons c cs ih =>
    rw [List.foldr_cons]
    generalize cs.foldr withChar f = g at ih
    unfold withChar
    split
    · rename_i name hc
      intro other hmem
      rcases List.mem_cons.1 hmem with rfl | hmem
      · rw [resolve_referenceFor? hc]
        rfl
      · exact ih other hmem
    · split <;> exact ih

end Forest

/-- **An escaped character is read back before whatever is read after it**, unless that is text by itself, which only an
open end of the text could be. -/
theorem events_escapeChar {c : Char} {cs : List Char} {names : List String} {f : Forest} {es : List Event}
    (hes : ∀ data rest, es ≠ .text data :: rest) (h : Scanner.events ⟨cs, names⟩ = .ok (f.tokens ++ es)) :
    Scanner.events ⟨(escapeChar c).toList ++ cs, names⟩ = .ok ((f.withChar c).tokens ++ es) := by
  rw [toList_escapeChar]
  unfold Forest.withChar
  cases hc : referenceFor? c with
  | some name =>
    simp only [List.cons_append, List.append_assoc, List.nil_append]
    rw [Scanner.events_reference (isReferenceName_referenceFor? hc), h, String.ofList_toList]
    rfl
  | none =>
    simp only [List.cons_append, List.nil_append]
    rw [Scanner.events_data (isData_of_referenceFor? hc), h]
    cases f with
    | nil => simp [Except.map, Forest.tokens, Scanner.pushChar_of_ne hes, Leaf.event]
    | element tag children rest => rfl
    | empty tag rest => rfl
    | leaf l rest => cases l <;> rfl

theorem events_escape {s : String} {cs : List Char} {names : List String} {f : Forest} {es : List Event}
    (hes : ∀ data rest, es ≠ .text data :: rest) (h : Scanner.events ⟨cs, names⟩ = .ok (f.tokens ++ es)) :
    Scanner.events ⟨(escape s).toList ++ cs, names⟩ = .ok ((f.withText s).tokens ++ es) := by
  rw [toList_escape]
  unfold Forest.withText
  induction s.toList with
  | nil => exact h
  | cons c rest ih =>
    rw [List.flatMap_cons, List.append_assoc]
    exact events_escapeChar hes ih

/-! ## Values -/

/-- An escaped text holds no character that a tag or a value ends with. -/
theorem notMem_escape {d : Char} (hd : d = '<' ∨ d = '>' ∨ d = '"') (s : String) : d ∉ (escape s).toList := by
  intro hmem
  rw [toList_escape] at hmem
  obtain ⟨c, -, hc⟩ := List.mem_flatMap.1 hmem
  rw [toList_escapeChar] at hc
  cases hr : referenceFor? c with
  | some name =>
    rw [hr] at hc
    rcases hd with rfl | rfl | rfl <;>
      rcases referenceFor?_cases hr with ⟨-, rfl⟩ | ⟨-, rfl⟩ | ⟨-, rfl⟩ | ⟨-, rfl⟩ | ⟨-, rfl⟩ <;> simp at hc
  | none =>
    rw [hr, List.mem_singleton] at hc
    subst hc
    rcases hd with rfl | rfl | rfl <;> cases hr

theorem quote_notMem_escape (s : String) : '"' ∉ (escape s).toList := notMem_escape (.inr (.inr rfl)) s

theorem foldlM_valueStep_name {name : List Char} (h : ∀ d ∈ name, Scanner.isReferenceName d = true)
    (read opened : List Char) :
    name.foldlM valueStep (read, some opened) = some (read, some (name.reverse ++ opened)) := by
  induction name generalizing opened with
  | nil => rfl
  | cons d name ih =>
    have hd := h d List.mem_cons_self
    simp only [Scanner.isReferenceName, Bool.and_eq_true, decide_eq_true_eq] at hd
    have hs : valueStep (read, some opened) d = some (read, some (d :: opened)) := by
      simp [valueStep, hd]
    rw [List.foldlM_cons, hs]
    simpa using ih (fun e he => h e (List.mem_cons_of_mem d he)) (d :: opened)

theorem resolveInValue_referenceFor? {c : Char} {name : String} (h : referenceFor? c = some name) :
    resolveInValue? name.toList = some c := by
  rcases referenceFor?_cases h with ⟨rfl, rfl⟩ | ⟨rfl, rfl⟩ | ⟨rfl, rfl⟩ | ⟨rfl, rfl⟩ | ⟨rfl, rfl⟩ <;> decide

theorem foldlM_valueStep_escapeChar (c : Char) (read : List Char) :
    (escapeChar c).toList.foldlM valueStep (read, none) = some (c :: read, none) := by
  rw [toList_escapeChar]
  cases hr : referenceFor? c with
  | some name =>
    have hopen : valueStep (read, none) '&' = some (read, some []) := by simp [valueStep]
    have hclose (opened : List Char) : valueStep (read, some opened) ';' =
        (resolveInValue? opened.reverse).map fun r => (r :: read, none) := by
      simp [valueStep]
    simp [List.foldlM_append, hopen, hclose, foldlM_valueStep_name (isReferenceName_referenceFor? hr),
      resolveInValue_referenceFor? hr]
  | none =>
    have hc : c ≠ '&' := by
      rintro rfl
      cases hr
    simp [valueStep, hc]

/-- **An escaped value stands for the text that was escaped.** -/
theorem unescape_escape (s : String) : unescape? (escape s).toList = some s.toList := by
  have go (cs read : List Char) :
      (cs.flatMap fun c => (escapeChar c).toList).foldlM valueStep (read, none) = some (cs.reverse ++ read, none) := by
    induction cs generalizing read with
    | nil => rfl
    | cons c cs ih => simp [List.foldlM_append, foldlM_valueStep_escapeChar, ih]
  rw [unescape?, toList_escape, go]
  simp

theorem value_escape (key s : String) : (Attribute.mk key (escape s)).value = s := by
  simp [Attribute.value, unescape_escape]

end OfficePreview.Xml
