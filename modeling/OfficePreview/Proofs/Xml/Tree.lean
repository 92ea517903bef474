import OfficePreview.Xml.Reader
/-!
# Tree — the elements that a sequence of events describes

A part is written as a sequence of events and means a forest of elements: its root, and what stands before and after the
root.  The events of a forest are those of its trees from left to right; an element that is not self-closing lies
between its start tag and its closing tag, and its children lie one level deeper.

A forest is determined by its events (`events_injective`), so that a sequence of events describes at most one forest.
-/
namespace OfficePreview.Xml

/-- What stands in an element beside the elements in it. -/
inductive Leaf
  | text (data : String)
  | cdata (data : String)
  | reference (name : String)
  | aside (kind : Aside)
deriving DecidableEq, Repr

namespace Leaf

def event : Leaf → Event
  | .text data => .text data
  | .cdata data => .cdata data
  | .reference name => .reference name
  | .aside kind => .aside kind

/-- The character data of a leaf, which is empty for markup. -/
def data (l : Leaf) : String := l.event.data?.getD ""

end Leaf

/-- Trees from left to right, by the first tree and those after it. -/
inductive Forest
  | nil
  | element (tag : Tag) (children rest : Forest)
  | empty (tag : Tag) (rest : Forest)
  | leaf (leaf : Leaf) (rest : Forest)
deriving DecidableEq, Repr

namespace Forest

/-- The events of a forest inside `depth` elements, with their depths. -/
def events (depth : Nat) : Forest → List (Event × Nat)
  | .nil => []
  | .element tag children rest =>
    (.start tag, depth + 1) :: (children.events (depth + 1) ++ (.close tag.name, depth + 1) :: rest.events depth)
  | .empty tag rest => (.empty tag, depth + 1) :: rest.events depth
  | .leaf l rest => (l.event, depth) :: rest.events depth

/-- The tags of all elements of a forest, in the order of the document. -/
def tags : Forest → List Tag
  | .nil => []
  | .element tag children rest => tag :: (children.tags ++ rest.tags)
  | .empty tag rest => tag :: rest.tags
  | .leaf _ rest => rest.tags

/-- The tags of the trees of a forest themselves. -/
def rootTags : Forest → List Tag
  | .nil => []
  | .element tag _ rest => tag :: rest.rootTags
  | .empty tag rest => tag :: rest.rootTags
  | .leaf _ rest => rest.rootTags

/-- All character data of a forest, in the order of the document. -/
def data : Forest → String
  | .nil => ""
  | .element _ children rest => children.data ++ rest.data
  | .empty _ rest => rest.data
  | .leaf l rest => l.data ++ rest.data

/-- Whether a property holds of every element with a start tag, given by its tag and its children. -/
def Every (p : Tag → Forest → Prop) : Forest → Prop
  | .nil => True
  | .element tag children rest => p tag children ∧ children.Every p ∧ rest.Every p
  | .empty _ rest => rest.Every p
  | .leaf _ rest => rest.Every p

instance decidableEvery (p : Tag → Forest → Prop) [∀ tag children, Decidable (p tag children)] :
    ∀ forest : Forest, Decidable (forest.Every p)
  | .nil => inferInstanceAs (Decidable True)
  | .element tag children rest =>
    have := decidableEvery p children
    have := decidableEvery p rest
    inferInstanceAs (Decidable (p tag children ∧ children.Every p ∧ rest.Every p))
  | .empty _ rest => decidableEvery p rest
  | .leaf _ rest => decidableEvery p rest

theorem le_depth_of_mem {f : Forest} {depth : Nat} {p : Event × Nat} (h : p ∈ f.events depth) : depth ≤ p.2 := by
  induction f generalizing depth with
  | nil => simp [events] at h
  | element tag children rest ihc ihr =>
    simp only [events, List.mem_cons, List.mem_append] at h
    rcases h with rfl | h | rfl | h
    · exact Nat.le_succ depth
    · exact Nat.le_of_succ_le (ihc h)
    · exact Nat.le_succ depth
    · exact ihr h
  | empty tag rest ihr =>
    simp only [events, List.mem_cons] at h
    rcases h with rfl | h
    · exact Nat.le_succ depth
    · exact ihr h
  | leaf l rest ihr =>
    simp only [events, List.mem_cons] at h
    rcases h with rfl | h
    · exact Nat.le_refl depth
    · exact ihr h

/-- The tags of the events of a forest are those of its elements. -/
theorem filterMap_tag_events (forest : Forest) (depth : Nat) :
    (forest.events depth).filterMap (fun p => p.1.tag?) = forest.tags := by
  induction forest generalizing depth with
  | nil => rfl
  | element tag children rest ihc ihr =>
    simp only [events, List.filterMap_cons, List.filterMap_append, ihc, ihr]
    rfl
  | empty tag rest ihr =>
    simp only [events, List.filterMap_cons, ihr]
    rfl
  | leaf l rest ihr => cases l <;> simpa [events, tags, Event.tag?, Leaf.event] using ihr depth

/-- **A reading that looks at tags alone** is a fold over the tags. -/
theorem foldl_tags {σ : Type} {f : σ → Event → Nat → σ} {g : σ → Tag → σ}
    (hf : ∀ s e depth, f s e depth = e.tag?.elim s (g s)) (forest : Forest) (depth : Nat) (s : σ) :
    (forest.events depth).foldl (fun s p => f s p.1 p.2) s = forest.tags.foldl g s := by
  rw [← filterMap_tag_events forest depth, List.foldl_filterMap]
  congr 1
  funext s p
  rw [hf]
  cases p.1.tag? <;> rfl

theorem mem_tags_of_mem_events {f : Forest} {depth : Nat} {p : Event × Nat} (h : p ∈ f.events depth) {tag : Tag}
    (ht : p.1.tag? = some tag) : tag ∈ f.tags := by
  rw [← filterMap_tag_events f depth]
  exact List.mem_filterMap.2 ⟨p, h, ht⟩

/-! ## A forest is determined by its events -/

/-- Whether a sequence of events leaves the element that is open: it is at its end or goes on with a closing tag. -/
def Leaves (es : List (Event × Nat)) : Prop := ∀ p ∈ es.head?, ∃ name, p.1 = .close name

theorem leaves_nil : Leaves [] := by simp [Leaves]

theorem leaves_close (name : String) (depth : Nat) (es : List (Event × Nat)) : Leaves ((.close name, depth) :: es) := by
  simp [Leaves]

@[simp] theorem event_ne_close (l : Leaf) (name : String) : l.event ≠ .close name := by cases l <;> simp [Leaf.event]

@[simp] theorem start_ne_event (l : Leaf) (tag : Tag) : .start tag ≠ l.event := by cases l <;> simp [Leaf.event]

@[simp] theorem empty_ne_event (l : Leaf) (tag : Tag) : .empty tag ≠ l.event := by cases l <;> simp [Leaf.event]

theorem event_inj {l m : Leaf} (h : l.event = m.event) : l = m := by
  cases l <;> cases m <;> simp_all [Leaf.event]

theorem eq_nil_of_leaves {f : Forest} {depth : Nat} {es : List (Event × Nat)} (h : Leaves (f.events depth ++ es)) :
    f = nil := by
  cases f <;> simp_all [Leaves, events]

/-- **Two forests with the same events up to where their element is left are the same.**  What comes after the children of
an element is its closing tag and then the trees after it, which is why the induction keeps the tails. -/
theorem events_append_inj (f g : Forest) (depth : Nat) {xs ys : List (Event × Nat)} (hx : Leaves xs) (hy : Leaves ys)
    (h : f.events depth ++ xs = g.events depth ++ ys) : f = g ∧ xs = ys := by
  induction f generalizing g depth xs ys with
  | nil =>
    obtain rfl : g = nil := eq_nil_of_leaves (by rw [← h]; exact hx)
    exact ⟨rfl, h⟩
  | element tag children rest ihc ihr =>
    cases g with
    | nil => cases eq_nil_of_leaves (h ▸ hy : Leaves (events depth (.element tag children rest) ++ xs))
    | element tag' children' rest' =>
      simp only [events, List.cons_append, List.append_assoc, List.cons.injEq, Prod.mk.injEq, Event.start.injEq,
        and_true] at h
      obtain ⟨rfl, hc⟩ := h
      obtain ⟨rfl, hr⟩ := ihc children' (depth + 1) (leaves_close _ _ _) (leaves_close _ _ _) hc
      simp only [List.cons.injEq, true_and] at hr
      obtain ⟨rfl, ht⟩ := ihr rest' depth hx hy hr
      exact ⟨rfl, ht⟩
    | _ => simp [events] at h
  | empty tag rest ihr =>
    cases g with
    | nil => cases eq_nil_of_leaves (h ▸ hy : Leaves (events depth (.empty tag rest) ++ xs))
    | empty tag' rest' =>
      simp only [events, List.cons_append, List.cons.injEq, Prod.mk.injEq, Event.empty.injEq, and_true] at h
      obtain ⟨rfl, hr⟩ := h
      obtain ⟨rfl, ht⟩ := ihr rest' depth hx hy hr
      exact ⟨rfl, ht⟩
    | _ => simp [events] at h
  | leaf l rest ihr =>
    cases g with
    | nil => cases eq_nil_of_leaves (h ▸ hy : Leaves (events depth (.leaf l rest) ++ xs))
    | leaf m rest' =>
      simp only [events, List.cons_append, List.cons.injEq, Prod.mk.injEq, and_true] at h
      obtain rfl := event_inj h.1
      obtain ⟨rfl, ht⟩ := ihr rest' depth hx hy h.2
      exact ⟨rfl, ht⟩
    | _ => simp [events, eq_comm] at h

theorem events_injective {f g : Forest} {depth : Nat} (h : f.events depth = g.events depth) : f = g :=
  (events_append_inj f g depth leaves_nil leaves_nil (by rw [h])).1

end Forest

end OfficePreview.Xml
