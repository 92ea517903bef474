import OfficePreview.Proofs.Xml.Lexemes
import OfficePreview.Proofs.Xml.Writing
/-!
# Source — trees with the text that they are written as

A source is a forest in which every tag and every leaf has the piece of text it is written as.  Every well-formed part is
written as a source (`exists_writtenAs`), and a change to the text of a part is a change to its source.  What the changed
text describes can be told from the source: its own forest, in which leaves of text that have come to stand side by side
are one (`WrittenAs.describes`).  A reading that takes text piece by piece does not see the difference (`foldl_joined`).
-/
namespace OfficePreview.Xml

/-- Trees from left to right with the text of their tags and leaves. -/
inductive Source
  | nil
  | element (opening : List Char) (tag : Tag) (children : Source) (closing : List Char) (rest : Source)
  | empty (written : List Char) (tag : Tag) (rest : Source)
  | leaf (written : List Char) (leaf : Leaf) (rest : Source)
deriving DecidableEq, Repr

namespace Source

def text : Source → List Char
  | .nil => []
  | .element opening _ children closing rest => opening ++ (children.text ++ (closing ++ rest.text))
  | .empty written _ rest => written ++ rest.text
  | .leaf written _ rest => written ++ rest.text

def forest : Source → Forest
  | .nil => .nil
  | .element _ tag children _ rest => .element tag children.forest rest.forest
  | .empty _ tag rest => .empty tag rest.forest
  | .leaf _ l rest => .leaf l rest.forest

/-- Every piece of text is what it is taken for. -/
def IsLexed : Source → Prop
  | .nil => True
  | .element opening tag children closing rest =>
    IsLexeme opening (.start tag) ∧ children.IsLexed ∧ IsLexeme closing (.close tag.name) ∧ rest.IsLexed
  | .empty written tag rest => IsLexeme written (.empty tag) ∧ rest.IsLexed
  | .leaf written l rest => IsLexeme written l.event ∧ rest.IsLexed

instance decidableIsLexed : ∀ source : Source, Decidable source.IsLexed
  | .nil => inferInstanceAs (Decidable True)
  | .element opening tag children closing rest =>
    have := decidableIsLexed children
    have := decidableIsLexed rest
    inferInstanceAs (Decidable (IsLexeme opening (.start tag) ∧ children.IsLexed ∧ IsLexeme closing (.close tag.name) ∧
      rest.IsLexed))
  | .empty written tag rest =>
    have := decidableIsLexed rest
    inferInstanceAs (Decidable (IsLexeme written (.empty tag) ∧ rest.IsLexed))
  | .leaf written l rest =>
    have := decidableIsLexed rest
    inferInstanceAs (Decidable (IsLexeme written l.event ∧ rest.IsLexed))

/-- An element with its start tag and its closing tag as they are written. -/
def wrap (tag : Tag) (children rest : Source) : Source := .element tag.opening tag children tag.closing rest

/-- Sources one after the other. -/
def append : Source → Source → Source
  | .nil, after => after
  | .element opening tag children closing rest, after => .element opening tag children closing (rest.append after)
  | .empty written tag rest, after => .empty written tag (rest.append after)
  | .leaf written l rest, after => .leaf written l (rest.append after)

end Source

/-- A text is written as a source, but for a byte order mark at its start. -/
structure WrittenAs (text : String) (source : Source) : Prop where
  rest_eq : (Scanner.ofText text).rest = source.text
  isLexed : source.IsLexed

/-! ## Every well-formed part is written as a source -/

/-- **Where the events of trees are read, the trees are written.** -/
theorem exists_source_of_events {f : Forest} {s : Scanner} {es : List Event} (h : s.events = .ok (f.tokens ++ es)) :
    ∃ (source : Source) (t : Scanner), source.forest = f ∧ source.IsLexed ∧ s.rest = source.text ++ t.rest ∧
      t.events = .ok es := by
  induction f generalizing s es with
  | nil => exact ⟨.nil, s, rfl, trivial, rfl, h⟩
  | element tag children rest ihc ihr =>
    simp only [Forest.tokens, List.cons_append, List.append_assoc] at h
    obtain ⟨s₁, hstart, h₁⟩ := Scanner.exists_next_of_events h
    obtain ⟨inside, s₂, rfl, hinside, hr₁, h₂⟩ := ihc h₁
    obtain ⟨s₃, hclose, h₃⟩ := Scanner.exists_next_of_events h₂
    obtain ⟨after, s₄, rfl, hafter, hr₃, h₄⟩ := ihr h₃
    obtain ⟨opening, ho, hopening⟩ := exists_lexeme hstart
    obtain ⟨closing, hc, hclosing⟩ := exists_lexeme hclose
    refine ⟨.element opening tag inside closing after, s₄, rfl, ⟨hopening, hinside, hclosing, hafter⟩, ?_, h₄⟩
    simp [ho, hr₁, hc, hr₃, Source.text]
  | empty tag rest ihr =>
    obtain ⟨s₁, hempty, h₁⟩ := Scanner.exists_next_of_events h
    obtain ⟨after, s₂, rfl, hafter, hr₁, h₂⟩ := ihr h₁
    obtain ⟨written, hw, hwritten⟩ := exists_lexeme hempty
    exact ⟨.empty written tag after, s₂, rfl, ⟨hwritten, hafter⟩, by simp [hw, hr₁, Source.text], h₂⟩
  | leaf l rest ihr =>
    obtain ⟨s₁, hleaf, h₁⟩ := Scanner.exists_next_of_events h
    obtain ⟨after, s₂, rfl, hafter, hr₁, h₂⟩ := ihr h₁
    obtain ⟨written, hw, hwritten⟩ := exists_lexeme hleaf
    exact ⟨.leaf written l after, s₂, rfl, ⟨hwritten, hafter⟩, by simp [hw, hr₁, Source.text], h₂⟩

/-- **Every well-formed part is written as a source.** -/
theorem exists_writtenAs {text : String} (accepted : IsWellFormed text) :
    ∃ source, WrittenAs text source ∧ Describes text source.forest := by
  obtain ⟨f, described, -⟩ := exists_unique_describes accepted
  have hspells : (Scanner.ofText text).events = .ok (f.tokens ++ []) := by
    rw [List.append_nil]
    exact (describes_iff.1 described).1
  obtain ⟨source, t, rfl, hlexed, hrest, hend⟩ := exists_source_of_events hspells
  rw [Scanner.rest_of_events_nil hend, List.append_nil] at hrest
  exact ⟨source, ⟨hrest, hlexed⟩, described⟩

/-! ## What a source describes -/

namespace Forest

/-- A leaf before trees; text joins the text that they begin with. -/
def joinLeaf : Leaf → Forest → Forest
  | .text a, .leaf (.text b) rest => .leaf (.text (a ++ b)) rest
  | l, rest => .leaf l rest

/-- Trees whose leaves of text are joined where they stand side by side. -/
def joined : Forest → Forest
  | .nil => .nil
  | .element tag children rest => .element tag children.joined rest.joined
  | .empty tag rest => .empty tag rest.joined
  | .leaf l rest => joinLeaf l rest.joined

theorem joinLeaf_cases (l : Leaf) (f : Forest) :
    (∃ a b rest, l = .text a ∧ f = .leaf (.text b) rest ∧ joinLeaf l f = .leaf (.text (a ++ b)) rest) ∨
      joinLeaf l f = .leaf l f := by
  unfold joinLeaf
  split
  · exact .inl ⟨_, _, _, rfl, rfl, rfl⟩
  · exact .inr rfl

/-- What leaves do not touch, joining them does not touch. -/
theorem eq_joinLeaf {α : Type} (m : Forest → α) (hm : ∀ data f, m (.leaf (.text data) f) = m f) (l : Leaf)
    (f : Forest) : m (joinLeaf l f) = m (.leaf l f) := by
  rcases joinLeaf_cases l f with ⟨a, b, rest, rfl, rfl, h⟩ | h
  · rw [h, hm, hm, hm]
  · rw [h]

@[simp] theorem tags_joined (f : Forest) : f.joined.tags = f.tags := by
  induction f with
  | nil => rfl
  | element tag children rest ihc ihr => simp [joined, tags, ihc, ihr]
  | empty tag rest ihr => simp [joined, tags, ihr]
  | leaf l rest ihr => exact (eq_joinLeaf tags (fun _ _ => rfl) l _).trans ihr

@[simp] theorem rootTags_joined (f : Forest) : f.joined.rootTags = f.rootTags := by
  induction f with
  | nil => rfl
  | element tag children rest _ ihr => simp [joined, rootTags, ihr]
  | empty tag rest ihr => simp [joined, rootTags, ihr]
  | leaf l rest ihr => exact (eq_joinLeaf rootTags (fun _ _ => rfl) l _).trans ihr

@[simp] theorem references_joined (f : Forest) : f.joined.references = f.references := by
  induction f with
  | nil => rfl
  | element tag children rest ihc ihr => simp [joined, references, ihc, ihr]
  | empty tag rest ihr => simp [joined, references, ihr]
  | leaf l rest ihr =>
    refine (eq_joinLeaf references (fun _ _ => rfl) l _).trans ?_
    cases l <;> simp [references, ihr]

theorem isDocument_joined (f : Forest) : f.joined.IsDocument ↔ f.IsDocument := by
  constructor
  · rintro ⟨hroot, hresolved⟩
    exact ⟨by simpa using hroot, by simpa [IsResolved] using hresolved⟩
  · rintro ⟨hroot, hresolved⟩
    exact ⟨by simpa using hroot, by simpa [IsResolved] using hresolved⟩

theorem tokens_joinLeaf (l : Leaf) (f : Forest) {es : List Event} (hes : ∀ data rest, es ≠ .text data :: rest) :
    (joinLeaf l f).tokens ++ es = joinOnto l.event (f.tokens ++ es) := by
  cases l with
  | text a =>
    cases f with
    | nil => exact (joinOnto_of_head hes).symm
    | leaf m rest => cases m <;> rfl
    | element tag children rest => rfl
    | empty tag rest => rfl
  | _ => exact (joinOnto_of_ne fun _ => Event.noConfusion).symm

/-- The events of trees, put together anew before other events. -/
theorem foldr_joinOnto_tokens (f : Forest) {es : List Event} (hes : ∀ data rest, es ≠ .text data :: rest) :
    f.tokens.foldr joinOnto es = f.joined.tokens ++ es := by
  induction f generalizing es with
  | nil => rfl
  | element tag children rest ihc ihr =>
    simp only [tokens, joined, List.foldr_cons, List.foldr_append, List.cons_append, List.append_assoc]
    rw [ihr hes, joinOnto_of_ne fun _ => Event.noConfusion, joinOnto_of_ne fun _ => Event.noConfusion,
      ihc fun _ _ => by simp]
  | empty tag rest ihr =>
    simp only [tokens, joined, List.foldr_cons, List.cons_append]
    rw [ihr hes, joinOnto_of_ne fun _ => Event.noConfusion]
  | leaf l rest ihr =>
    simp only [tokens, joined, List.foldr_cons]
    rw [ihr hes, tokens_joinLeaf l _ hes]

end Forest

/-- **The text of a source is read as its trees**, put together anew before what is read after it. -/
theorem events_source {source : Source} (h : source.IsLexed) (names : List String) (cs : List Char) :
    Scanner.events ⟨source.text ++ cs, names⟩ =
      (Scanner.events ⟨cs, names⟩).map fun es => source.forest.tokens.foldr joinOnto es := by
  induction source generalizing names cs with
  | nil =>
    rw [Source.text, List.nil_append]
    cases Scanner.events ⟨cs, names⟩ <;> rfl
  | element opening tag children closing rest ihc ihr =>
    obtain ⟨hopening, hchildren, hclosing, hrest⟩ := h
    have hopen : (Event.start tag).enclosing? names = some (tag.name :: names) := rfl
    have hclose : (Event.close tag.name).enclosing? (tag.name :: names) = some names := by simp [Event.enclosing?]
    simp only [Source.text, List.append_assoc, events_lexeme hopening hopen, ihc hchildren,
      events_lexeme hclosing hclose, ihr hrest]
    cases Scanner.events ⟨cs, names⟩ <;> simp [Except.map, Source.forest, Forest.tokens]
  | empty written tag rest ihr =>
    obtain ⟨hwritten, hrest⟩ := h
    have hempty : (Event.empty tag).enclosing? names = some names := rfl
    simp only [Source.text, List.append_assoc, events_lexeme hwritten hempty, ihr hrest]
    cases Scanner.events ⟨cs, names⟩ <;> simp [Except.map, Source.forest, Forest.tokens]
  | leaf written l rest ihr =>
    obtain ⟨hwritten, hrest⟩ := h
    have hleaf : l.event.enclosing? names = some names := by cases l <;> rfl
    simp only [Source.text, List.append_assoc, events_lexeme hwritten hleaf, ihr hrest]
    cases Scanner.events ⟨cs, names⟩ <;> simp [Except.map, Source.forest, Forest.tokens]

namespace WrittenAs

variable {text : String} {source : Source}

theorem spells (h : WrittenAs text source) : Spells text source.forest.joined := by
  have hend : Scanner.events ⟨[], []⟩ = .ok [] := Scanner.events_of_end rfl
  have hevents := events_source h.isLexed [] []
  rw [List.append_nil, ← h.rest_eq, hend] at hevents
  rw [Spells, ← List.append_nil source.forest.joined.tokens, ← Forest.foldr_joinOnto_tokens _ fun _ _ => by simp]
  exact hevents

/-- **A part is well-formed exactly if the trees of its source are a document.** -/
theorem isWellFormed_iff (h : WrittenAs text source) : IsWellFormed text ↔ source.forest.IsDocument := by
  rw [isWellFormed_iff_of_spells h.spells, Forest.isDocument_joined]

/-- **A part describes the trees of its source**, with text joined. -/
theorem describes (h : WrittenAs text source) (accepted : IsWellFormed text) : Describes text source.forest.joined :=
  describes_iff.2 ⟨h.spells, (isWellFormed_iff_of_spells h.spells).1 accepted⟩

end WrittenAs

/-- **A reading that takes text piece by piece** does not see where text was joined. -/
theorem Forest.foldl_joined {σ : Type} {f : σ → Event → Nat → σ}
    (join : ∀ s a b depth, f (f s (.text a) depth) (.text b) depth = f s (.text (a ++ b)) depth) (forest : Forest)
    (depth : Nat) (s : σ) :
    (forest.joined.events depth).foldl (fun s p => f s p.1 p.2) s =
      (forest.events depth).foldl (fun s p => f s p.1 p.2) s := by
  induction forest generalizing depth s with
  | nil => rfl
  | element tag children rest ihc ihr => simp [joined, events, ihc, ihr]
  | empty tag rest ihr => simp [joined, events, ihr]
  | leaf l rest ihr =>
    rw [joined, events, List.foldl_cons, ← ihr]
    rcases joinLeaf_cases l rest.joined with ⟨a, b, after, rfl, hrest, h⟩ | h
    · rw [h, hrest]
      simp [events, Leaf.event, join]
    · rw [h]
      rfl

/-- **What is read from a part in this way is a fold over the trees of its source.** -/
theorem WrittenAs.readAll {σ α : Type} {f : σ → Event → Nat → σ} {text : String} {source : Source}
    (h : WrittenAs text source) (accepted : IsWellFormed text)
    (join : ∀ s a b depth, f (f s (.text a) depth) (.text b) depth = f s (.text (a ++ b)) depth) (atEnd : σ → α)
    (init : σ) :
    (Xml.readAll f atEnd init text).2 = .ok (atEnd ((source.forest.events 0).foldl (fun s p => f s p.1 p.2) init)) := by
  rw [(h.describes accepted).readAll, Forest.foldl_joined join]

/-! ## Trees taken out of a source -/

namespace Source

theorem events_append (first rest : Source) (depth : Nat) :
    (first.append rest).forest.events depth = first.forest.events depth ++ rest.forest.events depth := by
  induction first generalizing depth with
  | nil => rfl
  | element opening tag children closing after _ ih => simp [append, forest, Forest.events, ih]
  | empty written tag after ih => simp [append, forest, Forest.events, ih]
  | leaf written l after ih => simp [append, forest, Forest.events, ih]

theorem tags_append (first rest : Source) : (first.append rest).forest.tags = first.forest.tags ++ rest.forest.tags := by
  induction first with
  | nil => rfl
  | element opening tag children closing after _ ih => simp [append, forest, Forest.tags, ih]
  | empty written tag after ih => simp [append, forest, Forest.tags, ih]
  | leaf written l after ih => exact ih

theorem rootTags_append (first rest : Source) :
    (first.append rest).forest.rootTags = first.forest.rootTags ++ rest.forest.rootTags := by
  induction first with
  | nil => rfl
  | element opening tag children closing after _ ih => simp [append, forest, Forest.rootTags, ih]
  | empty written tag after ih => simp [append, forest, Forest.rootTags, ih]
  | leaf written l after ih => exact ih

theorem references_append (first rest : Source) :
    (first.append rest).forest.references = first.forest.references ++ rest.forest.references := by
  induction first with
  | nil => rfl
  | element opening tag children closing after _ ih => simp [append, forest, Forest.references, ih]
  | empty written tag after ih => simp [append, forest, Forest.references, ih]
  | leaf written l after ih => cases l <;> simp [append, forest, Forest.references, ih]

theorem every_append (p : Tag → Forest → Prop) (first rest : Source) :
    (first.append rest).forest.Every p ↔ first.forest.Every p ∧ rest.forest.Every p := by
  induction first with
  | nil => simp [append, forest, Forest.Every]
  | element opening tag children closing after _ ih => simp [append, forest, Forest.Every, ih, and_assoc]
  | empty written tag after ih => exact ih
  | leaf written l after ih => exact ih

/-- Trees `removed` are taken out of a source whose trees lie inside `depth` elements; `before` are the events up to the
place that they are taken from. -/
inductive TakesOut (removed : Source) : Nat → List (Event × Nat) → Source → Source → Prop
  | here (depth : Nat) (rest : Source) : TakesOut removed depth [] (removed.append rest) rest
  | after {depth : Nat} {before : List (Event × Nat)} {rest rest' : Source} (first : Source) :
    TakesOut removed depth before rest rest' →
      TakesOut removed depth (first.forest.events depth ++ before) (first.append rest) (first.append rest')
  | inside {depth : Nat} {before : List (Event × Nat)} {children children' : Source} (opening : List Char) (tag : Tag)
    (closing : List Char) (rest : Source) : TakesOut removed (depth + 1) before children children' →
      TakesOut removed depth ((.start tag, depth + 1) :: before) (.element opening tag children closing rest)
        (.element opening tag children' closing rest)

namespace TakesOut

variable {removed source source' : Source} {depth : Nat} {before : List (Event × Nat)}

theorem mem_tags (h : TakesOut removed depth before source source') {tag : Tag} (ht : tag ∈ removed.forest.tags) :
    tag ∈ source.forest.tags := by
  induction h with
  | here depth rest => simp [tags_append, ht]
  | after first _ ih => simp [tags_append, ih]
  | inside opening outer closing rest _ ih => simp [forest, Forest.tags, ih]

theorem rootTags_cases (h : TakesOut removed depth before source source') :
    source'.forest.rootTags = source.forest.rootTags ∨
      ∀ tag ∈ removed.forest.rootTags, tag ∈ source.forest.rootTags := by
  induction h with
  | here depth rest =>
    right
    intro tag ht
    simp [rootTags_append, ht]
  | after first _ ih =>
    rcases ih with ih | ih
    · exact .inl (by rw [rootTags_append, rootTags_append, ih])
    · refine .inr fun tag ht => ?_
      simp [rootTags_append, ih tag ht]
  | inside opening outer closing rest _ ih => exact .inl rfl

theorem references_subset (h : TakesOut removed depth before source source') :
    source'.forest.references ⊆ source.forest.references := by
  induction h with
  | here depth rest => simp [references_append]
  | after first _ ih =>
    rw [references_append, references_append]
    exact List.append_subset.2 ⟨List.subset_append_left _ _, List.Subset.trans ih (List.subset_append_right _ _)⟩
  | inside opening outer closing rest _ ih =>
    exact List.append_subset.2 ⟨List.Subset.trans ih (List.subset_append_left _ _), List.subset_append_right _ _⟩

/-- **A document from which something inside its root is taken out is a document.** -/
theorem isDocument (h : TakesOut removed depth before source source') (document : source.forest.IsDocument)
    (inside : ∃ tag ∈ removed.forest.rootTags, tag ∉ source.forest.rootTags) : source'.forest.IsDocument := by
  obtain ⟨tag, ht, hroot⟩ := inside
  rcases h.rootTags_cases with hroots | hroots
  · exact ⟨hroots ▸ document.oneRoot, fun name hname => document.isResolved name (h.references_subset hname)⟩
  · exact absurd (hroots tag ht) hroot

end TakesOut

end Source

end OfficePreview.Xml
