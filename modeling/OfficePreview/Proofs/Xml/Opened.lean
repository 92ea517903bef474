import OfficePreview.Proofs.Xml.Source
/-!
# Opened — a start tag and a closing tag in place of a self-closing tag

A self-closing tag and a start tag with its closing tag right after it are two ways to write an element that holds
nothing.  Where one stands in a text, the other can stand, unless the name or the end of the tag would be read in another
way (`CanOpen.isLexeme_opening`, `isLexeme_closing`).  A part in which some of the self-closing tags are opened is as
well-formed as before, and the two describe trees that differ only in this (`Source.Opens.exists_describes`): they have
the same tags and the same character data.
-/
namespace OfficePreview.Xml

/-! ## The tag without its slash -/

/-- A tag by what stands between its angle brackets, without the slash if it is self-closing. -/
def selfClosing (body : List Char) : List Char := '<' :: (body ++ ['/', '>'])

def opening (body : List Char) : List Char := '<' :: (body ++ ['>'])

/-- A self-closing tag can be opened if it has one slash at its end and no quote in its name. -/
structure CanOpen (body : List Char) (tag : Tag) : Prop where
  getLast?_ne : body.getLast? ≠ some '/'
  unquoted : ∀ c ∈ tag.name.toList, c ≠ '"' ∧ c ≠ '\''

instance (body : List Char) (tag : Tag) : Decidable (CanOpen body tag) :=
  -- the characters of the name are gone through, not all characters
  have := List.decidableBAll (fun c => c ≠ '"' ∧ c ≠ '\'') tag.name.toList
  decidable_of_iff (body.getLast? ≠ some '/' ∧ ∀ c ∈ tag.name.toList, c ≠ '"' ∧ c ≠ '\'')
    ⟨fun h => ⟨h.1, h.2⟩, fun h => ⟨h.1, h.2⟩⟩

/-- A tag is cut at the same place without its slash. A quote that is open before the slash would hide the end. -/
theorem cutTag_without_slash {quote : Option Char} (hq : quote ≠ some '/') {before body inside : List Char}
    (h : cutTag quote before (body ++ ['/', '>']) = .ok (inside, [])) :
    inside = before.reverse ++ (body ++ ['/']) ∧
      ∀ rest, cutTag quote before (body ++ '>' :: rest) = .ok (before.reverse ++ body, rest) := by
  induction body generalizing quote before with
  | nil =>
    cases quote with
    | none =>
      have hi : before.reverse ++ ['/'] = inside := by simpa [cutTag] using h
      exact ⟨hi.symm, fun rest => by simp [cutTag]⟩
    | some q =>
      have hslash : '/' ≠ q := fun hs => hq (by rw [hs])
      simp [cutTag, hslash] at h
  | cons c body ih =>
    -- one character is passed in the same way before both ends
    have pass (next : Option Char) (hn : next ≠ some '/')
        (hstep : ∀ cs, cutTag quote before (c :: cs) = cutTag next (c :: before) cs) :
        inside = before.reverse ++ (c :: body ++ ['/']) ∧
          ∀ rest, cutTag quote before (c :: body ++ '>' :: rest) = .ok (before.reverse ++ c :: body, rest) := by
      rw [List.cons_append, hstep] at h
      obtain ⟨hi, hcut⟩ := ih hn h
      exact ⟨by simpa using hi, fun rest => by rw [List.cons_append, hstep, hcut]; simp⟩
    cases quote with
    | some q => exact pass (if c = q then none else some q) (by split <;> simp_all) fun cs => by rw [cutTag]
    | none =>
      by_cases hc : c = '>'
      · subst hc
        simp [cutTag] at h
      · refine pass (if c = '"' ∨ c = '\'' then some c else none) ?_ fun cs => by rw [cutTag, if_neg hc]
        split
        · rename_i hquote
          rintro ⟨rfl⟩
          revert hquote
          decide
        · simp

theorem gt_notMem_of_cutTag {xs : List Char} (hx : ∀ c ∈ xs, c ≠ '"' ∧ c ≠ '\'') {before ys inside : List Char}
    (h : cutTag none before (xs ++ ys) = .ok (inside, [])) (hy : ys ≠ []) : '>' ∉ xs := by
  induction xs generalizing before with
  | nil => exact List.not_mem_nil
  | cons c xs ih =>
    obtain ⟨⟨h1, h2⟩, hx⟩ := List.forall_mem_cons.1 hx
    rw [List.cons_append, cutTag] at h
    by_cases hc : c = '>'
    · subst hc
      simp [hy] at h
    · simp only [if_neg hc, h1, h2, or_self, if_false] at h
      intro hmem
      rcases List.mem_cons.1 hmem with heq | hmem
      · exact hc heq.symm
      · exact ih hx h hmem

namespace Scanner

variable {names : List String} {cs : List Char} {tag : Tag} {t : Scanner}

theorem openTag_of_markup (h : markup names cs = .ok (.empty tag, t)) :
    cs.head? ≠ some '!' ∧ cs.head? ≠ some '?' ∧ cs.head? ≠ some '/' ∧ openTag names cs = .ok (.empty tag, t) := by
  unfold markup at h
  split at h
  · unfold bang at h
    repeat' split at h
    all_goals first | cases h | (unfold doctype at h; repeat' split at h) <;> cases h
  · unfold instruction at h
    dsimp only at h
    repeat' split at h
    all_goals cases h
  · unfold closeTag at h
    repeat' split at h
    all_goals cases h
  · rename_i hbang hquestion hslash
    refine ⟨?_, ?_, ?_, h⟩ <;> cases cs <;> simp_all

theorem markup_eq_openTag (h1 : cs.head? ≠ some '!') (h2 : cs.head? ≠ some '?') (h3 : cs.head? ≠ some '/') :
    markup names cs = openTag names cs := by
  unfold markup
  split <;> simp_all

theorem cutTag_of_openTag (h : openTag names cs = .ok (.empty tag, t)) :
    ∃ inside, cutTag none [] cs = .ok (inside, t.rest) ∧ tagEvent inside = .empty tag := by
  unfold openTag at h
  split at h
  · cases h
  · rename_i inside rest hcut
    obtain ⟨tag', ht | ht⟩ := tagEvent_eq inside
    · rw [ht] at h
      cases h
    · rw [ht] at h
      cases h
      exact ⟨inside, hcut, ht⟩

theorem tagEvent_slash (body : List Char) : ∃ tag, tagEvent (body ++ ['/']) = .empty tag ∧
    tag.name.toList = body.takeWhile (!isSpace ·) ∧
      (body.getLast? ≠ some '/' → tagEvent body = .start tag) := by
  refine ⟨_, by simp [tagEvent]; rfl, by simp, fun h => ?_⟩
  unfold tagEvent
  split
  rename_i hm
  split at hm
  · rename_i outer hb
    refine absurd ?_ h
    rw [List.getLast?_eq_head?_reverse, hb]
    rfl
  · cases hm
    rfl

end Scanner

section

variable {body : List Char} {tag : Tag}

/-- **A self-closing tag without its slash is the start tag**, and its name stands for itself in a closing tag. -/
theorem CanOpen.isLexeme_opening (hopen : CanOpen body tag) (h : IsLexeme (selfClosing body) (.empty tag)) :
    IsLexeme (opening body) (.start tag) ∧ ∀ c ∈ tag.name.toList, IsBare c := by
  have hn : (Event.empty tag).enclosing? [] = some [] := rfl
  have hmarkup : Scanner.markup [] (body ++ ['/', '>'] ++ []) = .ok (.empty tag, ⟨[], []⟩) :=
    Scanner.ok_of_map_some (h.next_eq (fun _ => Event.noConfusion) hn [])
  rw [List.append_nil] at hmarkup
  obtain ⟨h1, h2, h3, hread⟩ := Scanner.openTag_of_markup hmarkup
  -- the tag without its slash begins with the same character
  have hhead (rest : List Char) : (body ++ '>' :: rest).head? = (body ++ ['/', '>']).head? := by
    cases body with
    | nil => exact absurd rfl h3
    | cons c body => rfl
  obtain ⟨inside, hcut, htag⟩ := Scanner.cutTag_of_openTag hread
  have hquote : (none : Option Char) ≠ some '/' := nofun
  obtain ⟨rfl, hshort⟩ := cutTag_without_slash hquote hcut
  obtain ⟨tag', htag', hname, hstart⟩ := Scanner.tagEvent_slash body
  obtain rfl : tag = tag' := Event.empty.inj (htag.symm.trans htag')
  refine ⟨?_, fun c hc => ?_⟩
  · have hopened : Scanner.markup [] (body ++ '>' :: []) = .ok (.start tag, ⟨[], [tag.name]⟩) := by
      rw [Scanner.markup_eq_openTag (by rwa [hhead]) (by rwa [hhead]) (by rwa [hhead])]
      simp only [Scanner.openTag, hshort, List.reverse_nil, List.nil_append, hstart hopen.getLast?_ne]
    exact (Scanner.events_of_markup hopened).trans (by rw [Scanner.events_of_end rfl]; rfl)
  · have hgt : '>' ∉ tag.name.toList := by
      have hsplit : cutTag none [] (tag.name.toList ++ (body.dropWhile (!isSpace ·) ++ ['/', '>'])) =
          .ok (body ++ ['/'], []) := by
        rw [hname, ← List.append_assoc, List.takeWhile_append_dropWhile]
        exact hcut
      exact gt_notMem_of_cutTag hopen.unquoted hsplit (by simp)
    obtain ⟨hdouble, hsingle⟩ := hopen.unquoted c hc
    refine ⟨?_, fun heq => hgt (heq ▸ hc), hdouble, hsingle⟩
    rw [hname] at hc
    simpa using List.mem_takeWhile_imp hc

/-- **A closing tag is read as such** if the name stands for itself. -/
theorem isLexeme_closing (h : ∀ c ∈ tag.name.toList, IsBare c) : IsLexeme tag.closing (.close tag.name) :=
  (Scanner.events_close h []).trans (by rw [Scanner.events_of_end rfl]; rfl)

end

/-! ## Trees with some of their empty elements opened -/

/-- Trees and the same trees with some of their self-closing tags opened. -/
inductive Forest.Opens : Forest → Forest → Prop
  | nil : Opens .nil .nil
  | element (tag : Tag) {children children' rest rest' : Forest} : Opens children children' → Opens rest rest' →
    Opens (.element tag children rest) (.element tag children' rest')
  | empty (tag : Tag) {rest rest' : Forest} : Opens rest rest' → Opens (.empty tag rest) (.empty tag rest')
  | leaf (l : Leaf) {rest rest' : Forest} : Opens rest rest' → Opens (.leaf l rest) (.leaf l rest')
  | opened (tag : Tag) {rest rest' : Forest} : Opens rest rest' → Opens (.empty tag rest) (.element tag .nil rest')

/-- The children of the first element with a start tag, in the order of the document, whose tag is looked for. -/
def Forest.first? (p : Tag → Bool) : Forest → Option Forest
  | .nil => none
  | .element tag children rest => if p tag then some children else (children.first? p).or (rest.first? p)
  | .empty _ rest => rest.first? p
  | .leaf _ rest => rest.first? p

theorem Forest.first?_of_countP {p : Tag → Bool} {f : Forest} (h : f.tags.countP p = 0) : f.first? p = none := by
  induction f with
  | nil => rfl
  | element tag children rest ihc ihr =>
    simp only [tags, List.countP_cons, List.countP_append] at h
    have hp : ¬ p tag = true := fun hp => by simp [hp] at h
    rw [first?, if_neg hp, ihc (by omega), ihr (by omega), Option.none_or]
  | empty tag rest ih =>
    simp only [tags, List.countP_cons] at h
    exact ih (by omega)
  | leaf l rest ih => exact ih h

namespace Forest.Opens

variable {f f' : Forest}

theorem tags_eq (h : f.Opens f') : f'.tags = f.tags := by
  induction h with
  | nil => rfl
  | element tag _ _ ihc ihr => simp [tags, ihc, ihr]
  | empty tag _ ih => simp [tags, ih]
  | leaf l _ ih => exact ih
  | opened tag _ ih => simp [tags, ih]

theorem rootTags_eq (h : f.Opens f') : f'.rootTags = f.rootTags := by
  induction h with
  | nil => rfl
  | element tag _ _ _ ihr => simp [rootTags, ihr]
  | empty tag _ ih => simp [rootTags, ih]
  | leaf l _ ih => exact ih
  | opened tag _ ih => simp [rootTags, ih]

theorem references_eq (h : f.Opens f') : f'.references = f.references := by
  induction h with
  | nil => rfl
  | element tag _ _ ihc ihr => simp [references, ihc, ihr]
  | empty tag _ ih => exact ih
  | leaf l _ ih => cases l <;> simp [references, ih]
  | opened tag _ ih => simpa [references] using ih

theorem data_eq (h : f.Opens f') : f'.data = f.data := by
  induction h with
  | nil => rfl
  | element tag _ _ ihc ihr => simp [data, ihc, ihr]
  | empty tag _ ih => exact ih
  | leaf l _ ih => simp [data, ih]
  | opened tag _ ih => simpa [data] using ih

theorem isDocument (h : f.Opens f') (document : f.IsDocument) : f'.IsDocument where
  oneRoot := by
    rw [h.rootTags_eq]
    exact document.oneRoot
  isResolved := by
    rw [IsResolved, h.references_eq]
    exact document.isResolved

/-- A property that elements have by the tags in them, and that empty elements have. -/
theorem every {p : Tag → Forest → Prop} (hp : ∀ {tag g g'}, g'.tags = g.tags → p tag g → p tag g')
    (hnil : ∀ tag, p tag .nil) (h : f.Opens f') (hf : f.Every p) : f'.Every p := by
  induction h with
  | nil => trivial
  | element tag hc _ ihc ihr => exact ⟨hp hc.tags_eq hf.1, ihc hf.2.1, ihr hf.2.2⟩
  | empty tag _ ih => exact ih hf
  | leaf l _ ih => exact ih hf
  | opened tag _ ih => exact ⟨hnil tag, trivial, ih hf⟩

/-- **The only element with a start tag** that is looked for holds as much as before; opened, it holds nothing, as much as
where there is none. -/
theorem getD_first? {α : Type} {m : Forest → α} (hm : ∀ {g g'}, g.Opens g' → m g' = m g) {p : Tag → Bool}
    (h : f.Opens f') (one : f.tags.countP p ≤ 1) :
    ((f'.first? p).map m).getD (m .nil) = ((f.first? p).map m).getD (m .nil) := by
  induction h with
  | nil => rfl
  | @element tag children children' rest rest' hc hr ihc ihr =>
    simp only [tags, List.countP_cons, List.countP_append] at one
    by_cases hp : p tag = true
    · simp [first?, hp, hm hc]
    · simp only [first?, if_neg hp]
      -- it is among the children or among the trees after the element, and there is none in the other place
      rcases Nat.eq_zero_or_pos (children.tags.countP p) with hzero | hpos
      · have hnone := first?_of_countP hzero
        have hnone' : children'.first? p = none := first?_of_countP (by rwa [hc.tags_eq])
        rw [hnone, hnone', Option.none_or, Option.none_or, ihr (by omega)]
      · have hzero : rest.tags.countP p = 0 := by omega
        have hnone := first?_of_countP hzero
        have hnone' : rest'.first? p = none := first?_of_countP (by rwa [hr.tags_eq])
        rw [hnone, hnone', Option.or_none, Option.or_none, ihc (by omega)]
  | empty tag _ ih =>
    simp only [tags, List.countP_cons] at one
    exact ih (by omega)
  | leaf l _ ih => exact ih one
  | @opened tag rest rest' _ ih =>
    simp only [tags, List.countP_cons] at one
    by_cases hp : p tag = true
    · simp only [hp, if_true] at one
      have hnone : rest.first? p = none := first?_of_countP (by omega)
      simp [first?, hp, hnone]
    · simp only [first?, if_neg hp, Option.none_or]
      exact ih (by omega)

theorem joinLeaf (h : f.Opens f') (l : Leaf) : (Forest.joinLeaf l f).Opens (Forest.joinLeaf l f') := by
  rcases joinLeaf_cases l f with ⟨a, b, rest, rfl, rfl, hj⟩ | hj
  · cases h with
    | leaf _ hr =>
      rw [hj]
      exact .leaf _ hr
  · rcases joinLeaf_cases l f' with ⟨a, b, rest, rfl, rfl, hj'⟩ | hj'
    · cases h with
      | leaf _ hr =>
        rw [hj']
        exact .leaf _ hr
    · rw [hj, hj']
      exact .leaf l h

/-- Text is joined at the same places in both. -/
theorem joined (h : f.Opens f') : f.joined.Opens f'.joined := by
  induction h with
  | nil => exact .nil
  | element tag _ _ ihc ihr => exact .element tag ihc ihr
  | empty tag _ ih => exact .empty tag ih
  | leaf l _ ih => exact ih.joinLeaf l
  | opened tag _ ih => exact .opened tag ih

end Forest.Opens

/-! ## Texts with some of their self-closing tags opened -/

/-- A source and the same source with some of the self-closing tags opened in which this can be done. -/
inductive Source.Opens : Source → Source → Prop
  | nil : Opens .nil .nil
  | element (opening : List Char) (tag : Tag) (closing : List Char) {children children' rest rest' : Source} :
    Opens children children' → Opens rest rest' →
      Opens (.element opening tag children closing rest) (.element opening tag children' closing rest')
  | empty (written : List Char) (tag : Tag) {rest rest' : Source} : Opens rest rest' →
    Opens (.empty written tag rest) (.empty written tag rest')
  | leaf (written : List Char) (l : Leaf) {rest rest' : Source} : Opens rest rest' →
    Opens (.leaf written l rest) (.leaf written l rest')
  | opened {body : List Char} {tag : Tag} {rest rest' : Source} : CanOpen body tag → Opens rest rest' →
    Opens (.empty (selfClosing body) tag rest) (.element (opening body) tag .nil tag.closing rest')

namespace Source.Opens

theorem refl (source : Source) : source.Opens source := by
  induction source with
  | nil => exact .nil
  | element opening tag children closing rest ihc ihr => exact .element opening tag closing ihc ihr
  | empty written tag rest ih => exact .empty written tag ih
  | leaf written l rest ih => exact .leaf written l ih

variable {source source' : Source}

theorem forest (h : source.Opens source') : source.forest.Opens source'.forest := by
  induction h with
  | nil => exact .nil
  | element opening tag closing _ _ ihc ihr => exact .element tag ihc ihr
  | empty written tag _ ih => exact .empty tag ih
  | leaf written l _ ih => exact .leaf l ih
  | opened _ _ ih => exact .opened _ ih

/-- **Opened tags are read as the tags that they are.** -/
theorem isLexed (h : source.Opens source') (lexed : source.IsLexed) : source'.IsLexed := by
  induction h with
  | nil => trivial
  | element opening tag closing _ _ ihc ihr => exact ⟨lexed.1, ihc lexed.2.1, lexed.2.2.1, ihr lexed.2.2.2⟩
  | empty written tag _ ih => exact ⟨lexed.1, ih lexed.2⟩
  | leaf written l _ ih => exact ⟨lexed.1, ih lexed.2⟩
  | opened hopen _ ih =>
    obtain ⟨hstart, hbare⟩ := hopen.isLexeme_opening lexed.1
    exact ⟨hstart, trivial, isLexeme_closing hbare, ih lexed.2⟩

/-- **A part with some of its self-closing tags opened** describes the trees of the part, with these opened. -/
theorem exists_describes {text text' : String} {f : Forest} (h : source.Opens source') (written : WrittenAs text source)
    (described : Describes text f) (htext : (Scanner.ofText text').rest = source'.text) :
    ∃ f', Describes text' f' ∧ f.Opens f' := by
  obtain ⟨spelt, document⟩ := describes_iff.1 described
  obtain rfl : f = source.forest.joined := spelt.unique written.spells
  have written' : WrittenAs text' source' := ⟨htext, h.isLexed written.isLexed⟩
  have opens := h.forest.joined
  exact ⟨_, describes_iff.2 ⟨written'.spells, opens.isDocument document⟩, opens⟩

end Source.Opens

end OfficePreview.Xml
