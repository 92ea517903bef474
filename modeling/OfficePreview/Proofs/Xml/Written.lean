import OfficePreview.Proofs.Xml.Tokens
/-!
# Written — markup that is read back as it was written

A tag is said by its name and its attributes, with any number of spaces between them (`Scanner.saidBy_spaced`), and is
read back from what says it (`events_start`, `events_empty`, `events_close`).  A reference is read back as that reference,
and a character of text as text, joined to the text that follows (`events_data`).  Each statement leaves what follows open,
so that the events of a longer text are put together from those of its parts.
-/
namespace OfficePreview.Xml

theorem ne_of_isAlpha {c d : Char} (hc : c.isAlpha = true) (hd : d.isAlpha = false) : c ≠ d := by
  rintro rfl
  rw [hc] at hd
  cases hd

theorem isSpace_of_isAlpha {c : Char} (hc : c.isAlpha = true) : isSpace c = false := by
  simp [isSpace, ne_of_isAlpha hc (d := ' ') (by decide), ne_of_isAlpha hc (d := '\t') (by decide),
    ne_of_isAlpha hc (d := '\r') (by decide), ne_of_isAlpha hc (d := '\n') (by decide)]

/-! ## Tags as they are written -/

/-- A character that stands for itself in a closing tag. -/
structure IsBare (c : Char) : Prop where
  isSpace_eq : isSpace c = false
  ne_gt : c ≠ '>'
  ne_double : c ≠ '"'
  ne_single : c ≠ '\''

instance (c : Char) : Decidable (IsBare c) :=
  decidable_of_iff (isSpace c = false ∧ c ≠ '>' ∧ c ≠ '"' ∧ c ≠ '\'')
    ⟨fun ⟨h1, h2, h3, h4⟩ => ⟨h1, h2, h3, h4⟩, fun ⟨h1, h2, h3, h4⟩ => ⟨h1, h2, h3, h4⟩⟩

theorem isBare_of_all {cs : List Char} (h : cs.all (fun c => decide (IsBare c)) = true) : ∀ c ∈ cs, IsBare c :=
  fun c hc => of_decide_eq_true (List.all_eq_true.1 h c hc)

theorem isBare_of_isAlpha {c : Char} (hc : c.isAlpha = true) : IsBare c :=
  ⟨isSpace_of_isAlpha hc, ne_of_isAlpha hc (by decide), ne_of_isAlpha hc (by decide), ne_of_isAlpha hc (by decide)⟩

/-- An attribute after the name of its tag. -/
def Attribute.written (a : Attribute) : List Char := ' ' :: (a.key.toList ++ '=' :: '"' :: (a.raw.toList ++ ['"']))

/-- An attribute with more spaces before it. -/
def Attribute.spaced (a : Nat × Attribute) : List Char := List.replicate a.1 ' ' ++ a.2.written

/-- An attribute whose key ends at its equals sign and whose raw text at its quote. -/
structure Attribute.IsLegible (a : Attribute) : Prop where
  key_ne : a.key.toList ≠ []
  key_isBare : ∀ c ∈ a.key.toList, IsBare c
  equals_notMem : '=' ∉ a.key.toList
  quote_notMem : '"' ∉ a.raw.toList

/-- A name that begins a tag and ends where the name of the tag does. -/
structure IsLegible (name : String) : Prop where
  ne : name.toList ≠ []
  isBare : ∀ c ∈ name.toList, IsBare c
  slash_notMem : '/' ∉ name.toList
  head_ne : ∀ c ∈ name.toList.head?, c ≠ '!' ∧ c ≠ '?'

/-- An attribute whose key has letters only and whose raw text holds no quote. -/
structure Attribute.IsPlain (a : Attribute) : Prop where
  key_ne : a.key.toList ≠ []
  key_isAlpha : ∀ c ∈ a.key.toList, c.isAlpha = true
  quote_notMem : '"' ∉ a.raw.toList

/-- A tag without its angle brackets. -/
def Tag.inside (t : Tag) : List Char := t.name.toList ++ t.attributes.flatMap Attribute.written

/-- A tag whose name has letters only, with plain attributes of distinct keys. -/
structure Tag.IsPlain (t : Tag) : Prop where
  name_ne : t.name.toList ≠ []
  name_isAlpha : ∀ c ∈ t.name.toList, c.isAlpha = true
  attributes_isPlain : ∀ a ∈ t.attributes, a.IsPlain
  keys_nodup : (t.attributes.map Attribute.key).Nodup

theorem Attribute.IsPlain.isLegible {a : Attribute} (h : a.IsPlain) : a.IsLegible where
  key_ne := h.key_ne
  key_isBare c hc := isBare_of_isAlpha (h.key_isAlpha c hc)
  equals_notMem hc := ne_of_isAlpha (h.key_isAlpha '=' hc) (by decide) rfl
  quote_notMem := h.quote_notMem

theorem Tag.IsPlain.isLegible {tag : Tag} (h : tag.IsPlain) : IsLegible tag.name where
  ne := h.name_ne
  isBare c hc := isBare_of_isAlpha (h.name_isAlpha c hc)
  slash_notMem hc := ne_of_isAlpha (h.name_isAlpha '/' hc) (by decide) rfl
  head_ne c hc := by
    have halpha := h.name_isAlpha c (List.mem_of_mem_head? hc)
    exact ⟨ne_of_isAlpha halpha (by decide), ne_of_isAlpha halpha (by decide)⟩

/-! ## Where a written tag ends -/

theorem cutTag_bare {xs : List Char} (h : ∀ c ∈ xs, IsBare c) (before cs : List Char) :
    cutTag none before (xs ++ cs) = cutTag none (xs.reverse ++ before) cs := by
  induction xs generalizing before with
  | nil => rfl
  | cons c xs ih =>
    have hc := h c List.mem_cons_self
    rw [List.cons_append, cutTag]
    simp only [hc.ne_gt, hc.ne_double, hc.ne_single, or_self, if_false]
    rw [ih fun d hd => h d (List.mem_cons_of_mem c hd)]
    simp

theorem cutTag_quoted {q : Char} {xs : List Char} (h : q ∉ xs) (before cs : List Char) :
    cutTag (some q) before (xs ++ q :: cs) = cutTag none (q :: (xs.reverse ++ before)) cs := by
  induction xs generalizing before with
  | nil => simp [cutTag]
  | cons c xs ih =>
    have hc : c ≠ q := fun hc => h (hc ▸ List.mem_cons_self)
    rw [List.cons_append, cutTag, if_neg hc, ih fun hq => h (List.mem_cons_of_mem c hq)]
    simp

theorem cutTag_spaces (n : Nat) (before cs : List Char) :
    cutTag none before (List.replicate n ' ' ++ cs) = cutTag none (List.replicate n ' ' ++ before) cs := by
  induction n generalizing before with
  | zero => rfl
  | succ n ih =>
    rw [List.replicate_succ, List.cons_append, cutTag, if_neg (by decide), if_neg (by decide), ih]
    rw [← List.replicate_succ, List.replicate_succ', List.append_assoc, List.singleton_append]

theorem cutTag_attribute {a : Nat × Attribute} (h : a.2.IsLegible) (before cs : List Char) :
    cutTag none before (Attribute.spaced a ++ cs) = cutTag none ((Attribute.spaced a).reverse ++ before) cs := by
  have hspace : cutTag none before (Attribute.spaced a ++ cs) = cutTag none (' ' :: (List.replicate a.1 ' ' ++ before))
      (a.2.key.toList ++ '=' :: '"' :: (a.2.raw.toList ++ '"' :: cs)) := by
    rw [Attribute.spaced, List.append_assoc, cutTag_spaces]
    simp [Attribute.written, cutTag]
  have hequals (before cs : List Char) : cutTag none before ('=' :: '"' :: cs) =
      cutTag (some '"') ('"' :: '=' :: before) cs := by
    simp [cutTag]
  rw [hspace, cutTag_bare h.key_isBare, hequals, cutTag_quoted h.quote_notMem]
  simp [Attribute.spaced, Attribute.written]

theorem cutTag_attributes {as : List (Nat × Attribute)} (h : ∀ a ∈ as, a.2.IsLegible) (before cs : List Char) :
    cutTag none before (as.flatMap Attribute.spaced ++ cs) =
      cutTag none ((as.flatMap Attribute.spaced).reverse ++ before) cs := by
  induction as generalizing before with
  | nil => rfl
  | cons a as ih =>
    rw [List.flatMap_cons, List.append_assoc, cutTag_attribute (h a List.mem_cons_self),
      ih fun b hb => h b (List.mem_cons_of_mem a hb)]
    simp

/-! ## What a written tag says -/

namespace Attribute

theorem foldl_step_key {key : List Char} (h : ∀ c ∈ key, IsBare c) (hequals : '=' ∉ key) (read : List Char)
    (seen : List (List Char)) (found : List Attribute) :
    key.foldl State.step ⟨.key read, seen, found⟩ = ⟨.key (key.reverse ++ read), seen, found⟩ := by
  induction key generalizing read with
  | nil => rfl
  | cons c key ih =>
    have hs : State.step ⟨.key read, seen, found⟩ c = ⟨.key (c :: read), seen, found⟩ := by
      have h1 : c ≠ '=' := fun hc => hequals (hc ▸ List.mem_cons_self)
      simp [State.step, h1, (h c List.mem_cons_self).isSpace_eq]
    rw [List.foldl_cons, hs, ih (fun d hd => h d (List.mem_cons_of_mem c hd))
      fun hd => hequals (List.mem_cons_of_mem c hd)]
    simp

theorem foldl_step_value {raw : List Char} (h : '"' ∉ raw) (key read : List Char) (seen : List (List Char))
    (found : List Attribute) :
    raw.foldl State.step ⟨.value key '"' read, seen, found⟩ = ⟨.value key '"' (raw.reverse ++ read), seen, found⟩ := by
  induction raw generalizing read with
  | nil => rfl
  | cons c raw ih =>
    have hc : c ≠ '"' := fun hc => h (hc ▸ List.mem_cons_self)
    have hs : State.step ⟨.value key '"' read, seen, found⟩ c = ⟨.value key '"' (c :: read), seen, found⟩ := by
      simp [State.step, hc]
    rw [List.foldl_cons, hs, ih fun hq => h (List.mem_cons_of_mem c hq)]
    simp

theorem foldl_step_spaces (n : Nat) (seen : List (List Char)) (found : List Attribute) :
    (List.replicate n ' ').foldl State.step ⟨.gap, seen, found⟩ = ⟨.gap, seen, found⟩ := by
  have hspace : State.step ⟨.gap, seen, found⟩ ' ' = ⟨.gap, seen, found⟩ := by simp [State.step, isSpace]
  induction n with
  | zero => rfl
  | succ n ih => rw [List.replicate_succ, List.foldl_cons, hspace, ih]

/-- **A written attribute is found**, if its key has not occurred before. -/
theorem foldl_step_spaced {a : Nat × Attribute} (h : a.2.IsLegible) {seen : List (List Char)}
    (fresh : a.2.key.toList.reverse ∉ seen) (found : List Attribute) :
    (spaced a).foldl State.step ⟨.gap, seen, found⟩ = ⟨.gap, a.2.key.toList.reverse :: seen, a.2 :: found⟩ := by
  have hgap : a.2.key.toList.foldl State.step ⟨.gap, seen, found⟩ = ⟨.key a.2.key.toList.reverse, seen, found⟩ := by
    cases hk : a.2.key.toList with
    | nil => exact absurd hk h.key_ne
    | cons c key =>
      have hbare := h.key_isBare
      have hequals := h.equals_notMem
      rw [hk] at hbare hequals
      have hs : State.step ⟨.gap, seen, found⟩ c = ⟨.key [c], seen, found⟩ := by
        simp [State.step, (hbare c List.mem_cons_self).isSpace_eq]
      rw [List.foldl_cons, hs, foldl_step_key (fun d hd => hbare d (List.mem_cons_of_mem c hd))
        fun hd => hequals (List.mem_cons_of_mem c hd)]
      simp
  have hspace : State.step ⟨.gap, seen, found⟩ ' ' = ⟨.gap, seen, found⟩ := by simp [State.step, isSpace]
  have hequals : State.step ⟨.key a.2.key.toList.reverse, seen, found⟩ '=' =
      ⟨.valueStart a.2.key.toList.reverse, a.2.key.toList.reverse :: seen, found⟩ := by
    simp [State.step, State.keyDone, fresh]
  have hopen (key : List Char) (seen : List (List Char)) : State.step ⟨.valueStart key, seen, found⟩ '"' =
      ⟨.value key '"' [], seen, found⟩ := by
    simp [State.step, isSpace]
  have hclose (key read : List Char) (seen : List (List Char)) : State.step ⟨.value key '"' read, seen, found⟩ '"' =
      ⟨.gap, seen, ⟨String.ofList key.reverse, String.ofList read.reverse⟩ :: found⟩ := by
    simp [State.step]
  simp only [spaced, written, List.foldl_cons, List.foldl_append, List.foldl_nil, foldl_step_spaces, hspace, hgap,
    hequals, hopen, foldl_step_value h.quote_notMem, hclose, List.append_nil, List.reverse_reverse, String.ofList_toList]

theorem scan_spaced {as : List (Nat × Attribute)} (legible : ∀ a ∈ as, a.2.IsLegible)
    (nodup : (as.map (·.2.key)).Nodup) : scan (as.flatMap spaced) = as.map (·.2) := by
  have go (as : List (Nat × Attribute)) (legible : ∀ a ∈ as, a.2.IsLegible) (nodup : (as.map (·.2.key)).Nodup)
      (seen : List (List Char)) (fresh : ∀ a ∈ as, a.2.key.toList.reverse ∉ seen) (found : List Attribute) :
      ((as.flatMap spaced).foldl State.step ⟨.gap, seen, found⟩).found = (as.map (·.2)).reverse ++ found := by
    induction as generalizing seen found with
    | nil => rfl
    | cons a as ih =>
      rw [List.map_cons, List.nodup_cons] at nodup
      rw [List.flatMap_cons, List.foldl_append,
        foldl_step_spaced (legible a List.mem_cons_self) (fresh a List.mem_cons_self),
        ih (fun b hb => legible b (List.mem_cons_of_mem a hb)) nodup.2]
      · simp
      · intro b hb hmem
        rcases List.mem_cons.1 hmem with hk | hk
        · have hkey : b.2.key = a.2.key := String.toList_injective (List.reverse_inj.1 hk)
          exact nodup.1 (hkey ▸ List.mem_map_of_mem hb)
        · exact fresh b (List.mem_cons_of_mem a hb) hk
  rw [scan, go as legible nodup [] (fun _ _ => List.not_mem_nil) []]
  simp

end Attribute

/-- The text between the angle brackets of a tag says the tag: it is cut off as a whole, and what is cut off is read as the
tag, a self-closing one if a slash comes after it. -/
structure Tag.SaidBy (tag : Tag) (inside : List Char) : Prop where
  name_isBare : ∀ c ∈ tag.name.toList, IsBare c
  markup_eq : ∀ names cs, Scanner.markup names (inside ++ cs) = Scanner.openTag names (inside ++ cs)
  cutTag_eq : ∀ cs, cutTag none [] (inside ++ cs) = cutTag none inside.reverse cs
  event_eq : Scanner.tagEvent inside = .start tag
  event_slash : Scanner.tagEvent (inside ++ ['/']) = .empty tag

namespace Scanner

section
variable {name : String} {as : List (Nat × Attribute)}

theorem takeWhile_name (h : ∀ c ∈ name.toList, IsBare c) :
    (name.toList ++ as.flatMap Attribute.spaced).takeWhile (!isSpace ·) = name.toList := by
  rw [List.takeWhile_append_of_pos fun c hc => by simp [(h c hc).isSpace_eq]]
  cases as with
  | nil => simp
  | cons a as => cases h : a.1 <;> simp [Attribute.spaced, Attribute.written, isSpace, h, List.replicate_succ]

theorem dropWhile_name (h : ∀ c ∈ name.toList, IsBare c) :
    (name.toList ++ as.flatMap Attribute.spaced).dropWhile (!isSpace ·) = as.flatMap Attribute.spaced := by
  rw [List.dropWhile_append_of_pos fun c hc => by simp [(h c hc).isSpace_eq]]
  cases as with
  | nil => simp
  | cons a as => cases h : a.1 <;> simp [Attribute.spaced, Attribute.written, isSpace, h, List.replicate_succ]

theorem getLast?_spaced (h : '/' ∉ name.toList) (as : List (Nat × Attribute)) :
    (name.toList ++ as.flatMap Attribute.spaced).getLast? ≠ some '/' := by
  rcases List.eq_nil_or_concat as with rfl | ⟨as', a, has⟩
  · rw [List.flatMap_nil, List.append_nil]
    exact fun hl => h (List.mem_of_getLast? hl)
  · have hq : name.toList ++ (as' ++ [a]).flatMap Attribute.spaced = name.toList ++ (as'.flatMap Attribute.spaced ++
        (List.replicate a.1 ' ' ++ ' ' :: (a.2.key.toList ++ '=' :: '"' :: a.2.raw.toList))) ++ ['"'] := by
      simp [Attribute.spaced, Attribute.written]
    rw [has, List.concat_eq_append, hq, List.getLast?_concat]
    simp

/-- **A tag is said by its name and its attributes, with any number of spaces between them.** -/
theorem saidBy_spaced (h : IsLegible name) (legible : ∀ a ∈ as, a.2.IsLegible) (nodup : (as.map (·.2.key)).Nodup) :
    Tag.SaidBy ⟨name, as.map (·.2)⟩ (name.toList ++ as.flatMap Attribute.spaced) where
  name_isBare := h.isBare
  markup_eq names cs := by
    have hhead := h.head_ne
    have hslash := h.slash_notMem
    cases hn : name.toList with
    | nil => exact absurd hn h.ne
    | cons c cs =>
      rw [hn] at hhead hslash
      have h1 := hhead c rfl
      have h2 : c ≠ '/' := fun hc => hslash (hc ▸ List.mem_cons_self)
      simp only [List.cons_append]
      unfold markup
      split <;> simp_all
  cutTag_eq cs := by
    rw [List.append_assoc, cutTag_bare h.isBare, cutTag_attributes legible]
    simp
  event_eq := by
    unfold tagEvent
    split
    rename_i hm
    split at hm
    · rename_i body hb
      refine absurd ?_ (getLast?_spaced h.slash_notMem as)
      rw [List.getLast?_eq_head?_reverse, hb]
      rfl
    · cases hm
      rw [takeWhile_name h.isBare, dropWhile_name h.isBare, Attribute.scan_spaced legible nodup, String.ofList_toList]
      rfl
  event_slash := by
    simp only [tagEvent, List.reverse_append, List.reverse_singleton, List.singleton_append, List.reverse_reverse]
    rw [takeWhile_name h.isBare, dropWhile_name h.isBare, Attribute.scan_spaced legible nodup, String.ofList_toList]
    rfl

theorem saidBy_map {α : Type} {xs : List α} (f : α → Nat × Attribute) (h : IsLegible name)
    (legible : ∀ x ∈ xs, (f x).2.IsLegible) (nodup : (xs.map fun x => (f x).2.key).Nodup) :
    Tag.SaidBy ⟨name, xs.map fun x => (f x).2⟩ (name.toList ++ xs.flatMap fun x => Attribute.spaced (f x)) := by
  have legible' : ∀ a ∈ xs.map f, a.2.IsLegible := by
    intro a ha
    obtain ⟨x, hx, rfl⟩ := List.mem_map.1 ha
    exact legible x hx
  have nodup' : ((xs.map f).map (·.2.key)).Nodup := by
    rw [List.map_map]
    exact nodup
  have said := saidBy_spaced h legible' nodup'
  rw [List.map_map, List.flatMap_map] at said
  exact said

end

end Scanner

theorem Tag.IsPlain.saidBy {tag : Tag} (h : tag.IsPlain) : tag.SaidBy tag.inside := by
  have said := Scanner.saidBy_map (fun a => (0, a)) h.isLegible (fun a ha => (h.attributes_isPlain a ha).isLegible)
    h.keys_nodup
  rw [List.map_id'] at said
  exact said

/-! ## Tags and references in a text -/

namespace Scanner

variable {names : List String}

theorem events_of_markup {cs : List Char} {e : Event} {t : Scanner} (h : markup names cs = .ok (e, t)) :
    events ⟨'<' :: cs, names⟩ = t.events.map (e :: ·) := by
  refine events_of_event ?_
  change (markup names cs).map some = _
  rw [h]
  rfl

/-- **A start tag is read back.** -/
theorem events_start {tag : Tag} {inside : List Char} (h : tag.SaidBy inside) (cs : List Char) :
    events ⟨'<' :: (inside ++ '>' :: cs), names⟩ = (events ⟨cs, tag.name :: names⟩).map (.start tag :: ·) := by
  refine events_of_markup ?_
  have hcut : cutTag none [] (inside ++ '>' :: cs) = .ok (inside, cs) := by
    rw [h.cutTag_eq]
    simp [cutTag]
  rw [h.markup_eq]
  simp only [openTag, hcut, h.event_eq]

/-- **A self-closing tag is read back.** -/
theorem events_empty {tag : Tag} {inside : List Char} (h : tag.SaidBy inside) (cs : List Char) :
    events ⟨'<' :: (inside ++ '/' :: '>' :: cs), names⟩ = (events ⟨cs, names⟩).map (.empty tag :: ·) := by
  refine events_of_markup ?_
  have hcut : cutTag none [] (inside ++ '/' :: '>' :: cs) = .ok (inside ++ ['/'], cs) := by
    rw [h.cutTag_eq]
    simp [cutTag]
  rw [h.markup_eq]
  simp only [openTag, hcut, h.event_slash]

/-- **A closing tag is read back**, if its element is the innermost one. -/
theorem events_close {name : String} (h : ∀ c ∈ name.toList, IsBare c) (cs : List Char) :
    events ⟨'<' :: '/' :: (name.toList ++ '>' :: cs), name :: names⟩ =
      (events ⟨cs, names⟩).map (.close name :: ·) := by
  refine events_of_markup ?_
  change closeTag (name :: names) (name.toList ++ '>' :: cs) = _
  have hcut : cutTag none [] (name.toList ++ '>' :: cs) = .ok (name.toList, cs) := by
    rw [cutTag_bare h]
    simp [cutTag]
  have hname : closingName name.toList = name := by
    have hdrop : name.toList.reverse.dropWhile isSpace = name.toList.reverse := by
      cases hr : name.toList.reverse with
      | nil => rfl
      | cons c cs =>
        have hc : c ∈ name.toList := by
          rw [← List.mem_reverse, hr]
          exact List.mem_cons_self
        simp [(h c hc).isSpace_eq]
    unfold closingName
    rw [hdrop]
    split <;> simp
  simp [closeTag, hcut, hname]

/-- A reference is read back, whatever comes after its semicolon. -/
theorem reference_written {name : List Char} (h : ∀ c ∈ name, isReferenceName c = true) (cs : List Char) :
    reference names (name ++ ';' :: cs) = .ok (.reference (String.ofList name), ⟨cs, names⟩) := by
  have htake : (name ++ ';' :: cs).takeWhile isReferenceName = name := by
    rw [List.takeWhile_append_of_pos h]
    simp [isReferenceName]
  have hdrop : (name ++ ';' :: cs).dropWhile isReferenceName = ';' :: cs := by
    rw [List.dropWhile_append_of_pos h]
    simp [isReferenceName]
  simp only [reference, htake, hdrop]

theorem events_reference {name : List Char} (h : ∀ c ∈ name, isReferenceName c = true) (cs : List Char) :
    events ⟨'&' :: (name ++ ';' :: cs), names⟩ =
      (events ⟨cs, names⟩).map (.reference (String.ofList name) :: ·) :=
  events_of_event (congrArg (Except.map some) (reference_written h cs))

/-! ## Text -/

/-- Events after one more character of text. -/
def pushChar (c : Char) : List Event → List Event
  | .text data :: es => .text (c.toString ++ data) :: es
  | es => .text c.toString :: es

theorem pushChar_of_ne {es : List Event} (h : ∀ data rest, es ≠ .text data :: rest) (c : Char) :
    pushChar c es = .text c.toString :: es := by
  unfold pushChar
  split
  · rename_i data rest
    exact absurd rfl (h data rest)
  · rfl

theorem openTag_ne_text {cs : List Char} {data : String} {t : Scanner} : openTag names cs ≠ .ok (.text data, t) := by
  intro h
  unfold openTag at h
  split at h
  · cases h
  · rename_i inside rest _
    obtain ⟨tag, ht | ht⟩ := tagEvent_eq inside <;> (rw [ht] at h; cases h)

/-- Markup is not text. -/
theorem markup_ne_text {cs : List Char} {data : String} {t : Scanner} : markup names cs ≠ .ok (.text data, t) := by
  intro h
  unfold markup at h
  split at h
  · unfold bang doctype at h
    repeat' split at h
    all_goals cases h
  · unfold instruction at h
    dsimp only at h
    split at h <;> cases h
  · unfold closeTag at h
    repeat' split at h
    all_goals cases h
  · exact openTag_ne_text h

theorem reference_ne_text {cs : List Char} {data : String} {t : Scanner} :
    reference names cs ≠ .ok (.text data, t) := by
  intro h
  unfold reference at h
  split at h <;> cases h

/-- Text ends where something else begins. -/
theorem events_ne_text {c : Char} (h : isData c = false) {cs : List Char} {es : List Event}
    (he : events ⟨c :: cs, names⟩ = .ok es) (data : String) (rest : List Event) : es ≠ .text data :: rest := by
  rintro rfl
  match hn : next ⟨c :: cs, names⟩ with
  | .error fault => rw [events_of_error hn] at he; cases he
  | .ok none => rw [events_of_end hn] at he; cases he
  | .ok (some (e, t)) =>
    rw [events_of_event hn] at he
    obtain rfl : e = .text data := by
      cases ht : t.events with
      | error fault => rw [ht] at he; cases he
      | ok es => rw [ht] at he; cases he; rfl
    have hc : c = '<' ∨ c = '&' := by
      unfold isData at h
      simpa [Classical.or_iff_not_imp_left] using h
    rcases hc with rfl | rfl
    · exact markup_ne_text (ok_of_map_some hn)
    · exact reference_ne_text (ok_of_map_some hn)

theorem next_data {c : Char} (h : isData c = true) (cs : List Char) :
    next ⟨c :: cs, names⟩ =
      .ok (some (.text (String.ofList (c :: cs.takeWhile isData)), ⟨cs.dropWhile isData, names⟩)) := by
  have h1 : c ≠ '<' := by
    rintro rfl
    cases h
  have h2 : c ≠ '&' := by
    rintro rfl
    cases h
  unfold next
  split <;> simp_all

/-- **A character of text joins the text after it.** -/
theorem events_data {c : Char} (h : isData c = true) (cs : List Char) :
    events ⟨c :: cs, names⟩ = (events ⟨cs, names⟩).map (pushChar c) := by
  have joined (data : List Char) : String.ofList (c :: data) = c.toString ++ String.ofList data := by
    simp
  rw [events_of_event (next_data h cs), joined]
  cases cs with
  | nil =>
    have hend : events ⟨[], names⟩ = .ok [] := events_of_end rfl
    simp [hend, Except.map, pushChar]
  | cons d ds =>
    cases hd : isData d with
    | true =>
      rw [events_of_event (next_data hd ds), List.takeWhile_cons_of_pos hd, List.dropWhile_cons_of_pos hd]
      cases events ⟨ds.dropWhile isData, names⟩ <;> rfl
    | false =>
      have hnd : ¬ isData d = true := by simp [hd]
      rw [List.takeWhile_cons_of_neg hnd, List.dropWhile_cons_of_neg hnd]
      cases he : events ⟨d :: ds, names⟩ with
      | error fault => rfl
      | ok es => simp [Except.map, pushChar_of_ne (events_ne_text hd he)]

end Scanner

end OfficePreview.Xml
