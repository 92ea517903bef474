import OfficePreview.Html.Fragment
import OfficePreview.Proofs.Xml.Writing
/-!
# Pieces — the trees that a fragment writes

Every piece of a fragment is read back: a tag with its class, a text, a line break, a blank.  Pieces that open and close
the same elements write trees, to stand before the trees of what is written after them (`Writes`).  Trees are written
side by side (`Writes.append`, `Writes.flatMap`) and into one another (`Writes.wrap`), as the functions that put a
fragment together do it.
-/
namespace OfficePreview.Html

open Xml (Attribute Tag Event Forest Scanner Spells)

/-! ## Tags -/

/-- The attributes of a tag with a class; an empty class is no attribute. -/
def classAttributes (className : String) : List Attribute :=
  if className = "" then [] else [⟨"class", Xml.escape className⟩]

def Element.tag (e : Element) (className : String) : Tag := ⟨e.name, classAttributes className⟩

def underlineTag : Tag := ⟨"span", [⟨"style", "text-decoration: underline;"⟩]⟩

def breakTag : Tag := ⟨"br", []⟩

/-- The class that is read from a tag. -/
def classValue? (className : String) : Option String := if className = "" then none else some className

theorem Element.name_plain (e : Element) : e.name.toList ≠ [] ∧ ∀ c ∈ e.name.toList, c.isAlpha = true := by
  cases e <;> exact ⟨by decide, List.all_eq_true.1 (by decide)⟩

theorem Element.tag_isPlain (e : Element) (className : String) : (e.tag className).IsPlain where
  name_ne := e.name_plain.1
  name_isAlpha := e.name_plain.2
  attributes_isPlain := by
    intro a ha
    unfold tag classAttributes at ha
    by_cases h : className = ""
    · simp [h] at ha
    · simp only [h, if_false, List.mem_singleton] at ha
      subst ha
      exact ⟨by simp, by simp, Xml.quote_notMem_escape className⟩
  keys_nodup := by
    unfold tag classAttributes
    by_cases h : className = "" <;> simp [h]

theorem underlineTag_isPlain : underlineTag.IsPlain where
  name_ne := by decide
  name_isAlpha := List.all_eq_true.1 (by decide)
  attributes_isPlain := by
    intro a ha
    obtain rfl := List.mem_singleton.1 ha
    exact ⟨by decide, List.all_eq_true.1 (by decide), by decide⟩
  keys_nodup := by decide

theorem breakTag_isPlain : breakTag.IsPlain where
  name_ne := by decide
  name_isAlpha := List.all_eq_true.1 (by decide)
  attributes_isPlain := fun _ ha => nomatch ha
  keys_nodup := by decide

theorem Element.attribute?_tag (e : Element) (className : String) :
    (e.tag className).attribute? "class" = classValue? className := by
  unfold tag classAttributes classValue? Tag.attribute?
  by_cases h : className = ""
  · simp [h]
  · simp [h, Xml.value_escape]

/-! ## What pieces write -/

/-- Pieces write trees: when they are read before a text that begins with the trees `f`, these come after the trees that
the pieces stand for, which `before` puts there. -/
def Writes (pieces : List Piece) (before : Forest → Forest) : Prop :=
  -- `es` must not go on with text, which would be read in one piece with text at the end of `f`
  ∀ (cs : List Char) (names : List String) (f : Forest) (es : List Event), (∀ data rest, es ≠ .text data :: rest) →
    Scanner.events ⟨cs, names⟩ = .ok (f.tokens ++ es) →
      Scanner.events ⟨(render pieces).toList ++ cs, names⟩ = .ok ((before f).tokens ++ es)

theorem toList_render_cons (p : Piece) (ps : List Piece) :
    (render (p :: ps)).toList = p.render.toList ++ (render ps).toList := by
  simp [render]

theorem toList_render_append (ps qs : List Piece) :
    (render (ps ++ qs)).toList = (render ps).toList ++ (render qs).toList := by
  simp [render]

namespace Writes

variable {ps qs : List Piece} {b c : Forest → Forest}

/-- Pieces write what their text writes. -/
theorem of_render {cs : List Char} (h : Xml.Writes cs b) (hr : (render ps).toList = cs) : Writes ps b := h.of_eq hr

theorem nil : Writes [] fun f => f := .of_render Xml.Writes.nil rfl

theorem append (hp : Writes ps b) (hq : Writes qs c) : Writes (ps ++ qs) fun f => b (c f) :=
  .of_render (Xml.Writes.append hp hq) (toList_render_append ps qs)

theorem flatMap {α : Type} {xs : List α} {pieces : α → List Piece} {before : α → Forest → Forest}
    (h : ∀ x ∈ xs, Writes (pieces x) (before x)) : Writes (xs.flatMap pieces) fun f => xs.foldr before f := by
  have hr : (render (xs.flatMap pieces)).toList = xs.flatMap fun x => (render (pieces x)).toList := by
    induction xs with
    | nil => rfl
    | cons x xs ih =>
      rw [List.flatMap_cons, toList_render_append, ih fun y hy => h y (List.mem_cons_of_mem x hy), List.flatMap_cons]
  exact .of_render (Xml.Writes.flatMap h) hr

theorem text (s : String) : Writes [.text s] (Forest.withText s) :=
  .of_render (Xml.Writes.text s) (by simp [render, Piece.render])

theorem lineBreak : Writes [.lineBreak] (.empty breakTag) :=
  .of_render (Xml.Writes.selfClosed breakTag_isPlain.saidBy) rfl

theorem blank : Writes [.blank] (.leaf (.reference "nbsp")) :=
  .of_render (Xml.Writes.reference (List.all_eq_true.1 (by decide))) rfl

/-- **Trees in an element.** -/
theorem enclose {opening closing : Piece} {tag : Tag} (plain : tag.IsPlain)
    (ho : opening.render.toList = tag.opening) (hc : closing.render.toList = tag.closing) (h : Writes ps b) :
    Writes (opening :: (ps ++ [closing])) fun f => .element tag (b .nil) f := by
  refine .of_render (Xml.Writes.element plain h) ?_
  simp [ho, hc, render]

theorem wrap (h : Writes ps b) (e : Element) (className : String) :
    Writes (wrap e className ps) fun f => .element (e.tag className) (b .nil) f := by
  refine enclose (e.tag_isPlain className) ?_ ?_ h
  · by_cases hc : className = ""
    · simp [Piece.render, Element.tag, classAttributes, Tag.opening, Tag.inside, hc]
    · simp [Piece.render, Element.tag, classAttributes, Tag.opening, Tag.inside, Attribute.written, hc]
  · simp [Piece.render, Element.tag, Tag.closing]

theorem underline (h : Writes ps b) :
    Writes (.openUnderline :: (ps ++ [.closeTag .span])) fun f => .element underlineTag (b .nil) f :=
  enclose underlineTag_isPlain rfl rfl h

/-- **A fragment spells the trees that its pieces write**, if it begins with a tag. -/
theorem spells (h : Writes ps b) {cs : List Char} (hlt : (render ps).toList = '<' :: cs) :
    Spells (render ps) (b .nil) :=
  Xml.Writes.spells h hlt

end Writes

theorem toList_render_wrap (e : Element) (className : String) (inside rest : List Piece) :
    ∃ cs, (render (wrap e className inside ++ rest)).toList = '<' :: cs := by
  by_cases h : className = "" <;> exact ⟨_, by simp [wrap, toList_render_cons, Piece.render, h]; rfl⟩

end OfficePreview.Html
