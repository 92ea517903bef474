import OfficePreview.Proofs.Xml.Escaped
/-!
# Writing — texts that are read as the trees they were written for

A text writes trees if it is read as these trees before whatever stands after it (`Writes`).  Trees are written side by
side (`Writes.append`, `Writes.flatMap`) and into one another (`Writes.element`), and a text that writes trees by itself
spells them (`Writes.spells`).
-/
namespace OfficePreview.Xml

/-- A text writes trees: when it is read before a text that begins with the trees `f`, these come after the trees that
the text stands for, which `before` puts there. -/
def Writes (cs : List Char) (before : Forest → Forest) : Prop :=
  -- `es` must not go on with text, which would be read in one piece with text at the end of `f`
  ∀ (rest : List Char) (names : List String) (f : Forest) (es : List Event), (∀ data after, es ≠ .text data :: after) →
    Scanner.events ⟨rest, names⟩ = .ok (f.tokens ++ es) →
      Scanner.events ⟨cs ++ rest, names⟩ = .ok ((before f).tokens ++ es)

/-- The text of a start tag. -/
def Tag.opening (tag : Tag) : List Char := '<' :: (tag.inside ++ ['>'])

/-- The text of the closing tag for a start tag. -/
def Tag.closing (tag : Tag) : List Char := '<' :: '/' :: (tag.name.toList ++ ['>'])

namespace Writes

variable {cs ds : List Char} {b c : Forest → Forest}

theorem nil : Writes [] fun f => f := fun _ _ _ _ _ h => h

theorem of_eq (h : Writes cs b) (hd : ds = cs) : Writes ds b := hd ▸ h

theorem append (hc : Writes cs b) (hd : Writes ds c) : Writes (cs ++ ds) fun f => b (c f) := by
  intro rest names f es hes h
  rw [List.append_assoc]
  exact hc _ _ _ _ hes (hd _ _ _ _ hes h)

theorem flatMap {α : Type} {xs : List α} {written : α → List Char} {before : α → Forest → Forest}
    (h : ∀ x ∈ xs, Writes (written x) (before x)) : Writes (xs.flatMap written) fun f => xs.foldr before f := by
  induction xs with
  | nil => exact nil
  | cons x xs ih =>
    rw [List.flatMap_cons]
    exact append (h x List.mem_cons_self) (ih fun y hy => h y (List.mem_cons_of_mem x hy))

theorem text (s : String) : Writes (escape s).toList (Forest.withText s) :=
  fun _ _ _ _ hes h => events_escape hes h

/-- **Trees in an element whose start tag says its tag.** -/
theorem enclosed {tag : Tag} {inside : List Char} (said : tag.SaidBy inside) (h : Writes cs b) :
    Writes ('<' :: (inside ++ ['>']) ++ (cs ++ tag.closing)) fun f => .element tag (b .nil) f := by
  intro rest names f es hes hrest
  have hr : '<' :: (inside ++ ['>']) ++ (cs ++ tag.closing) ++ rest =
      '<' :: (inside ++ '>' :: (cs ++ '<' :: '/' :: (tag.name.toList ++ '>' :: rest))) := by
    simp [Tag.closing]
  have hclose : Scanner.events ⟨'<' :: '/' :: (tag.name.toList ++ '>' :: rest), tag.name :: names⟩ =
      .ok (Forest.nil.tokens ++ .close tag.name :: (f.tokens ++ es)) := by
    rw [Scanner.events_close said.name_isBare, hrest]
    rfl
  rw [hr, Scanner.events_start said, h _ _ _ _ (fun _ _ => by simp) hclose]
  simp [Except.map, Forest.tokens]

/-- **Trees in an element.** -/
theorem element {tag : Tag} (plain : tag.IsPlain) (h : Writes cs b) :
    Writes (tag.opening ++ (cs ++ tag.closing)) fun f => .element tag (b .nil) f :=
  enclosed plain.saidBy h

theorem selfClosed {tag : Tag} {inside : List Char} (said : tag.SaidBy inside) :
    Writes ('<' :: (inside ++ ['/', '>'])) (.empty tag) := by
  intro rest names f es _ hrest
  have hr : '<' :: (inside ++ ['/', '>']) ++ rest = '<' :: (inside ++ '/' :: '>' :: rest) := by simp
  rw [hr, Scanner.events_empty said, hrest]
  rfl

/-- Character data that is read by itself, whatever comes after it. -/
theorem leaf {l : Leaf} (h : ∀ rest names, Scanner.events ⟨cs ++ rest, names⟩ =
    (Scanner.events ⟨rest, names⟩).map (l.event :: ·)) : Writes cs (.leaf l) := by
  intro rest names f es _ hrest
  rw [h, hrest]
  rfl

theorem reference {name : List Char} (h : ∀ c ∈ name, Scanner.isReferenceName c = true) :
    Writes ('&' :: (name ++ [';'])) (.leaf (.reference (String.ofList name))) :=
  leaf fun rest names => by
    rw [List.cons_append, List.append_assoc]
    exact Scanner.events_reference h rest

/-- **A text spells the trees that it writes**, if it begins with a tag. -/
theorem spells {text : String} (h : Writes text.toList b) (hlt : text.toList = '<' :: cs) : Spells text (b .nil) := by
  have hstart : Scanner.ofText text = ⟨text.toList ++ [], []⟩ := by
    rw [List.append_nil]
    simp [Scanner.ofText, hlt]
  have hend : Scanner.events ⟨[], []⟩ = .ok (Forest.nil.tokens ++ []) := Scanner.events_of_end rfl
  rw [Spells, hstart, h [] [] .nil [] (fun _ _ => by simp) hend, List.append_nil]

end Writes

end OfficePreview.Xml
