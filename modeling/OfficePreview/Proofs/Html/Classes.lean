import Mathlib.Data.List.TakeWhile
import OfficePreview.Html.Document
import OfficePreview.Html.Sheet
import OfficePreview.Proofs.Html.Pieces
/-!
# Classes — the options of a fragment make its classes and nothing else

A class is found in the text of a fragment by what it begins with, and it goes up to the next quote.  To delete the classes
from left to right (`deleteClasses`) takes them out of the tags that have one and leaves all else as it is
(`deleteClasses_render`): a text has no quote, so that none of the characters in front of a tag begins a class
(`TagFirst`), and neither has the value of a class, so that it ends where the class ends.

The tags of a text go from each `<` to the next `>` (`tagsIn`).  Those that can have a class have the ones that the options
give them, in the order of what is shown (`options_make_classes`).
-/
namespace OfficePreview.Html

open Word (Run Paragraph Cell Row Table Block Document)

/-! ## Deleting classes -/

/-- What a class begins with. -/
def classOpening : List Char := [' ', 'c', 'l', 'a', 's', 's', '=', '"']

/-- What comes after the class that a text begins with: the class goes up to the next quote. -/
def afterClass? (cs : List Char) : Option (List Char) :=
  if classOpening.isPrefixOf cs then ((cs.drop classOpening.length).dropWhile (· ≠ '"')).tail? else none

theorem length_of_afterClass? {cs rest : List Char} (h : afterClass? cs = some rest) : rest.length < cs.length := by
  unfold afterClass? at h
  split at h
  · have hdrop := List.length_dropWhile_le (· ≠ '"') (cs.drop classOpening.length)
    cases hquote : (cs.drop classOpening.length).dropWhile (· ≠ '"') with
    | nil =>
      rw [hquote] at h
      cases h
    | cons c after =>
      rw [hquote] at h hdrop
      cases h
      rw [List.length_cons, List.length_drop] at hdrop
      omega
  · cases h

/-- A text without its classes, deleted from left to right. -/
def deleteClasses : List Char → List Char
  | [] => []
  | c :: cs =>
    match _h : afterClass? (c :: cs) with
    | some rest => deleteClasses rest
    | none => c :: deleteClasses cs
termination_by cs => cs.length
decreasing_by
  · exact length_of_afterClass? ‹_›
  · exact Nat.lt_succ_self _

theorem deleteClasses_nil : deleteClasses [] = [] := by rw [deleteClasses]

theorem deleteClasses_of_class {cs rest : List Char} (h : afterClass? cs = some rest) :
    deleteClasses cs = deleteClasses rest := by
  cases cs with
  | nil => cases h
  | cons c cs =>
    rw [deleteClasses]
    split
    · rename_i heq
      rw [h, Option.some_inj] at heq
      rw [heq]
    · rename_i heq
      rw [h] at heq
      cases heq

theorem deleteClasses_cons {c : Char} {cs : List Char} (h : afterClass? (c :: cs) = none) :
    deleteClasses (c :: cs) = c :: deleteClasses cs := by
  rw [deleteClasses]
  split
  · rename_i heq
    rw [h] at heq
    cases heq
  · rfl

/-- **A class is deleted up to its closing quote.** -/
theorem deleteClasses_class {value : List Char} (hvalue : '"' ∉ value) (cs : List Char) :
    deleteClasses (classOpening ++ (value ++ '"' :: cs)) = deleteClasses cs := by
  have hquote : (value ++ '"' :: cs).dropWhile (· ≠ '"') = '"' :: cs := by
    rw [List.dropWhile_append_of_pos fun c hc => by simpa using ne_of_mem_of_not_mem hc hvalue]
    rfl
  refine deleteClasses_of_class ?_
  rw [afterClass?, if_pos (List.isPrefixOf_iff_prefix.2 (List.prefix_append ..)), List.drop_left, hquote]
  rfl

/-- A class begins with a blank. -/
theorem afterClass?_of_ne {c : Char} (hc : c ≠ ' ') (cs : List Char) : afterClass? (c :: cs) = none := by
  have hne : (' ' == c) = false := by simpa using Ne.symm hc
  simp [afterClass?, classOpening, List.isPrefixOf, hne]

/-- **Characters other than blanks stay.** -/
theorem deleteClasses_append : ∀ {xs : List Char}, ' ' ∉ xs → ∀ cs : List Char,
    deleteClasses (xs ++ cs) = xs ++ deleteClasses cs
  | [], _, _ => rfl
  | x :: xs, h, cs => by
    obtain ⟨hx, hxs⟩ := List.ne_and_not_mem_of_not_mem_cons h
    rw [List.cons_append, deleteClasses_cons (afterClass?_of_ne (Ne.symm hx) _), deleteClasses_append hxs, List.cons_append]

/-! ## Text in front of tags -/

/-- In front of its first tag a text has no quote. -/
def TagFirst (cs : List Char) : Prop := '"' ∉ cs.takeWhile (· ≠ '<')

theorem tagFirst_tag (cs : List Char) : TagFirst ('<' :: cs) := List.not_mem_nil

theorem TagFirst.append {xs cs : List Char} (h : TagFirst cs) (hxs : '"' ∉ xs) : TagFirst (xs ++ cs) := by
  induction xs with
  | nil => exact h
  | cons x xs ih =>
    obtain ⟨hx, hxs⟩ := List.ne_and_not_mem_of_not_mem_cons hxs
    unfold TagFirst
    rw [List.cons_append, List.takeWhile_cons]
    split
    · exact List.not_mem_cons_of_ne_of_not_mem hx (ih hxs)
    · exact List.not_mem_nil

/-- **In front of a tag no class begins**, since a class begins with a quote in it and no tag. -/
theorem TagFirst.afterClass? {cs : List Char} (h : TagFirst cs) : afterClass? cs = none := by
  refine if_neg fun hprefix => h ?_
  obtain ⟨rest, rfl⟩ := List.isPrefixOf_iff_prefix.1 hprefix
  have hopening : ∀ c ∈ classOpening, decide (c ≠ '<') = true := List.all_eq_true.1 (by decide)
  rw [List.takeWhile_append_of_pos hopening]
  exact List.mem_append_left _ (by decide)

/-- **A text without quotes stays** in front of a tag. -/
theorem deleteClasses_text {xs cs : List Char} (hxs : '"' ∉ xs) (h : TagFirst cs) :
    deleteClasses (xs ++ cs) = xs ++ deleteClasses cs := by
  induction xs with
  | nil => rfl
  | cons x xs ih =>
    have hall : TagFirst (x :: (xs ++ cs)) := h.append hxs
    rw [List.cons_append, deleteClasses_cons hall.afterClass?, ih fun h => hxs (List.mem_cons_of_mem x h), List.cons_append]

/-! ## Pieces without classes -/

/-- What is inside the tag of an element: its name and its class, escaped.  An empty class is none. -/
def Element.inside (e : Element) (className : String) : List Char :=
  e.name.toList ++ if className = "" then [] else classOpening ++ ((Xml.escape className).toList ++ ['"'])

theorem render_openTag (e : Element) (className : String) :
    (Piece.openTag e className).render.toList = '<' :: (e.inside className ++ ['>']) := by
  by_cases h : className = "" <;> simp [Piece.render, Element.inside, classOpening, h]

/-- A piece without its class. -/
def Piece.bare : Piece → Piece
  | .openTag e _ => .openTag e ""
  | p => p

theorem tagFirst_piece (p : Piece) {cs : List Char} (h : TagFirst cs) : TagFirst (p.render.toList ++ cs) := by
  cases p with
  | openTag e className =>
    rw [render_openTag]
    exact tagFirst_tag _
  | openUnderline => exact tagFirst_tag _
  | closeTag e =>
    have hrender : (Piece.closeTag e).render.toList ++ cs = '<' :: '/' :: (e.name.toList ++ '>' :: cs) := by
      simp [Piece.render]
    rw [hrender]
    exact tagFirst_tag _
  | text data => exact h.append (Xml.quote_notMem_escape data)
  | lineBreak => exact tagFirst_tag _
  | blank => exact h.append (by decide)

theorem tagFirst_render : ∀ ps : List Piece, TagFirst (render ps).toList
  | [] => List.not_mem_nil
  | p :: ps => by
    rw [toList_render_cons]
    exact tagFirst_piece p (tagFirst_render ps)

theorem Element.notMem_name {d : Char} (hd : d = ' ' ∨ d = '<' ∨ d = '>') (e : Element) : d ∉ e.name.toList := by
  rcases hd with rfl | rfl | rfl <;> cases e <;> decide

/-- **A tag loses its class** and nothing else. -/
theorem deleteClasses_openTag (e : Element) (className : String) (cs : List Char) :
    deleteClasses ((Piece.openTag e className).render.toList ++ cs) =
      (Piece.openTag e "").render.toList ++ deleteClasses cs := by
  have hname : ' ' ∉ '<' :: e.name.toList := by simp [e.notMem_name]
  have hclose (cs : List Char) : deleteClasses ('>' :: cs) = '>' :: deleteClasses cs :=
    deleteClasses_cons (afterClass?_of_ne (by decide) cs)
  have hbare (cs : List Char) : (Piece.openTag e "").render.toList ++ cs = ('<' :: e.name.toList) ++ '>' :: cs := by
    simp [render_openTag, Element.inside]
  by_cases h : className = ""
  · rw [h, hbare, deleteClasses_append hname, hclose, hbare]
  · have hrender : (Piece.openTag e className).render.toList ++ cs =
        ('<' :: e.name.toList) ++ (classOpening ++ ((Xml.escape className).toList ++ '"' :: '>' :: cs)) := by
      simp [render_openTag, Element.inside, h]
    rw [hrender, deleteClasses_append hname, deleteClasses_class (Xml.quote_notMem_escape className), hclose, hbare]

/-- A blank with no class after it stays, and so do the characters up to the next blank. -/
theorem deleteClasses_blank {c : Char} (hc : c ≠ 'c') {xs : List Char} (hxs : ' ' ∉ c :: xs) (cs : List Char) :
    deleteClasses (' ' :: c :: (xs ++ cs)) = ' ' :: c :: (xs ++ deleteClasses cs) := by
  have hne : ('c' == c) = false := by simpa using Ne.symm hc
  have hblank : afterClass? (' ' :: c :: (xs ++ cs)) = none := by
    simp [afterClass?, classOpening, List.isPrefixOf, hne]
  rw [deleteClasses_cons hblank, ← List.cons_append, deleteClasses_append hxs, List.cons_append]

theorem deleteClasses_underline (cs : List Char) :
    deleteClasses (Piece.openUnderline.render.toList ++ cs) = Piece.openUnderline.render.toList ++ deleteClasses cs := by
  have hrender (cs : List Char) : Piece.openUnderline.render.toList ++ cs = "<span".toList ++
      ' ' :: 's' :: ("tyle=\"text-decoration:".toList ++ ' ' :: 'u' :: ("nderline;\">".toList ++ cs)) := rfl
  rw [hrender, deleteClasses_append (by decide), deleteClasses_blank (by decide) (by decide),
    deleteClasses_blank (by decide) (by decide), hrender]

theorem deleteClasses_piece (p : Piece) {cs : List Char} (h : TagFirst cs) :
    deleteClasses (p.render.toList ++ cs) = p.bare.render.toList ++ deleteClasses cs := by
  cases p with
  | openTag e className => exact deleteClasses_openTag e className cs
  | openUnderline => exact deleteClasses_underline cs
  | closeTag e =>
    refine deleteClasses_append ?_ cs
    simp [Piece.render, e.notMem_name]
  | text data => exact deleteClasses_text (Xml.quote_notMem_escape data) h
  | lineBreak => exact deleteClasses_append (by decide) cs
  | blank => exact deleteClasses_append (by decide) cs

/-- **The text of a fragment without its classes is that of its pieces without classes.** -/
theorem deleteClasses_render : ∀ ps : List Piece, deleteClasses (render ps).toList = (render (ps.map Piece.bare)).toList
  | [] => deleteClasses_nil
  | p :: ps => by
    rw [toList_render_cons, deleteClasses_piece p (tagFirst_render ps), deleteClasses_render ps, List.map_cons,
      toList_render_cons]

/-! ## Tags -/

/-- The tags of a text: what stands between each `<` and the next `>`. -/
def tagsIn : List Char → List (List Char)
  | [] => []
  | c :: cs => if c = '<' then cs.takeWhile (· ≠ '>') :: tagsIn cs else tagsIn cs

/-- A tag whose name, up to the first blank, is that of an element that can have a class. -/
def takesClass (inside : List Char) : Bool :=
  ["p".toList, "table".toList, "caption".toList, "td".toList].contains (inside.takeWhile (· ≠ ' '))

def Element.takesClass (e : Element) : Bool := [.p, .table, .caption, .td].contains e

theorem tagsIn_append : ∀ {xs : List Char}, '<' ∉ xs → ∀ cs : List Char, tagsIn (xs ++ cs) = tagsIn cs
  | [], _, _ => rfl
  | x :: xs, h, cs => by
    obtain ⟨hx, hxs⟩ := List.ne_and_not_mem_of_not_mem_cons h
    rw [List.cons_append, tagsIn, if_neg (Ne.symm hx), tagsIn_append hxs]

/-- **A tag ends with the next `>`.** -/
theorem tagsIn_tag (inside : List Char) (hopen : '<' ∉ inside) (hclose : '>' ∉ inside) (cs : List Char) :
    tagsIn ('<' :: (inside ++ '>' :: cs)) = inside :: tagsIn cs := by
  have hinside : (inside ++ '>' :: cs).takeWhile (· ≠ '>') = inside := by
    rw [List.takeWhile_append_of_pos fun c hc => by simpa using ne_of_mem_of_not_mem hc hclose]
    simp
  have hrest : tagsIn (inside ++ '>' :: cs) = tagsIn cs := by
    rw [tagsIn_append hopen, tagsIn, if_neg (by decide)]
  rw [tagsIn, if_pos rfl, hinside, hrest]

/-- What is inside the tag that a piece writes. -/
def Piece.inside? : Piece → Option (List Char)
  | .openTag e className => some (e.inside className)
  | .openUnderline => some "span style=\"text-decoration: underline;\"".toList
  | .closeTag e => some ('/' :: e.name.toList)
  | .text _ => none
  | .lineBreak => some "br/".toList
  | .blank => none

theorem Element.notMem_inside {d : Char} (hd : d = '<' ∨ d = '>') (e : Element) (className : String) :
    d ∉ e.inside className := by
  unfold Element.inside
  have hname := e.notMem_name (.inr hd)
  have hescape := Xml.notMem_escape (d := d) (hd.imp_right .inl) className
  have hmarks : d ∉ classOpening ∧ d ≠ '"' := by rcases hd with rfl | rfl <;> decide
  split <;> simp [hname, hescape, hmarks]

theorem tagsIn_piece (p : Piece) (cs : List Char) : tagsIn (p.render.toList ++ cs) = p.inside?.toList ++ tagsIn cs := by
  cases p with
  | openTag e className =>
    rw [render_openTag, List.cons_append, List.append_assoc]
    exact tagsIn_tag _ (e.notMem_inside (.inl rfl) className) (e.notMem_inside (.inr rfl) className) cs
  | openUnderline => exact tagsIn_tag "span style=\"text-decoration: underline;\"".toList (by decide) (by decide) cs
  | closeTag e =>
    have hrender : (Piece.closeTag e).render.toList ++ cs = '<' :: (('/' :: e.name.toList) ++ '>' :: cs) := by
      simp [Piece.render]
    rw [hrender]
    exact tagsIn_tag _ (by simp [e.notMem_name]) (by simp [e.notMem_name]) cs
  | text data => exact tagsIn_append (Xml.notMem_escape (.inl rfl) data) cs
  | lineBreak => exact tagsIn_tag "br/".toList (by decide) (by decide) cs
  | blank => exact tagsIn_append (by decide) cs

/-- The element of a tag that can have a class, with the class. -/
def Piece.styled? : Piece → Option (Element × String)
  | .openTag e className => if e.takesClass then some (e, className) else none
  | _ => none

theorem takeWhile_inside (e : Element) (className : String) :
    (e.inside className).takeWhile (· ≠ ' ') = e.name.toList := by
  have hname : ∀ c ∈ e.name.toList, decide (c ≠ ' ') = true :=
    fun c hc => by simpa using ne_of_mem_of_not_mem hc (e.notMem_name (.inl rfl))
  rw [Element.inside, List.takeWhile_append_of_pos hname]
  split <;> simp [classOpening]

theorem filter_inside? (p : Piece) :
    p.inside?.toList.filter takesClass = (p.styled?.map fun s => s.1.inside s.2).toList := by
  cases p with
  | openTag e className =>
    have htakes : takesClass (e.inside className) = e.takesClass := by
      rw [takesClass, takeWhile_inside]
      cases e <;> rfl
    simp only [Piece.inside?, Piece.styled?, Option.toList_some, List.filter_cons, htakes, List.filter_nil]
    split <;> rfl
  | closeTag e => cases e <;> rfl
  | _ => rfl

/-- **The tags of a fragment that can have a class** have that of their piece. -/
theorem filter_tagsIn_render : ∀ ps : List Piece,
    (tagsIn (render ps).toList).filter takesClass = (ps.filterMap Piece.styled?).map fun s => s.1.inside s.2
  | [] => rfl
  | p :: ps => by
    rw [toList_render_cons, tagsIn_piece, List.filter_append, filter_inside?, filter_tagsIn_render ps, List.filterMap_cons]
    cases p.styled? <;> rfl

/-! ## Pieces and their classes -/

/-- Pieces that are `bare` without their classes, and the tags among them that can have a class, with their classes. -/
structure Styles (ps bare : List Piece) (styled : List (Element × String)) : Prop where
  map_bare : ps.map Piece.bare = bare
  filterMap_styled? : ps.filterMap Piece.styled? = styled

namespace Styles

variable {ps qs bare bare' : List Piece} {styled styled' : List (Element × String)}

theorem nil : Styles [] [] [] := ⟨rfl, rfl⟩

theorem append (hp : Styles ps bare styled) (hq : Styles qs bare' styled') :
    Styles (ps ++ qs) (bare ++ bare') (styled ++ styled') where
  map_bare := by rw [List.map_append, hp.map_bare, hq.map_bare]
  filterMap_styled? := by rw [List.filterMap_append, hp.filterMap_styled?, hq.filterMap_styled?]

theorem flatMap {α : Type} {xs : List α} {pieces bares : α → List Piece} {styled : α → List (Element × String)}
    (h : ∀ x, Styles (pieces x) (bares x) (styled x)) :
    Styles (xs.flatMap pieces) (xs.flatMap bares) (xs.flatMap styled) := by
  induction xs with
  | nil => exact nil
  | cons x xs ih => exact (h x).append ih

/-- **Pieces in an element**, which comes before them if it can have a class. -/
theorem wrap (h : Styles ps bare styled) (e : Element) (className : String) :
    Styles (wrap e className ps) (wrap e "" bare) ((if e.takesClass then [(e, className)] else []) ++ styled) := by
  have hopen : Styles [.openTag e className] [.openTag e ""] (if e.takesClass then [(e, className)] else []) := by
    refine ⟨rfl, ?_⟩
    rw [List.filterMap_cons, Piece.styled?]
    cases e.takesClass <;> rfl
  have hclose : Styles [.closeTag e] [.closeTag e] [] := ⟨rfl, rfl⟩
  rw [← List.append_nil styled]
  exact hopen.append (h.append hclose)

theorem within (h : Styles ps ps []) (hq : Styles qs qs []) (applies : Bool) :
    Styles (if applies then qs else ps) (if applies then qs else ps) [] := by
  cases applies with
  | true => exact hq
  | false => exact h

/-- **What the text of pieces says**: without its classes it is the text of the bare pieces, and its tags that can have a
class are theirs. -/
theorem text (h : Styles ps bare styled) : deleteClasses (render ps).toList = (render bare).toList ∧
    (tagsIn (render ps).toList).filter takesClass = styled.map fun s => s.1.inside s.2 := by
  rw [deleteClasses_render, filter_tagsIn_render, h.map_bare, h.filterMap_styled?]
  exact ⟨rfl, rfl⟩

end Styles

/-! ## Documents and sheets -/

/-- Options without classes, with the same text for an empty document. -/
def Options.bare (o : Options) : Options := { Options.plain with emptyDocumentText := o.emptyDocumentText }

/-- The runs of a paragraph have no classes, and none of their tags can have one. -/
theorem styles_ofRun (r : Run) : Styles (ofRun r) (ofRun r) [] := by
  have htext : Styles [.text r.text] [.text r.text] [] := ⟨rfl, rfl⟩
  have hspan : Styles (.openUnderline :: ([.text r.text] ++ [.closeTag .span])) _ [] := ⟨rfl, rfl⟩
  have hunderline := htext.within hspan r.underline
  have hitalic := hunderline.within (hunderline.wrap .em "") r.italic
  have hformatted : Styles (formatted r) (formatted r) [] := hitalic.within (hitalic.wrap .strong "") r.bold
  have hline : Styles [.lineBreak] [.lineBreak] [] := ⟨rfl, rfl⟩
  have hbreak := Styles.nil.within hline r.lineBreak
  unfold ofRun
  by_cases h : r.text = ""
  · rw [if_pos h]
    exact Styles.nil.append hbreak
  · rw [if_neg h]
    exact hformatted.append hbreak

theorem styles_ofParagraph (className : String) (p : Paragraph) :
    Styles (ofParagraph className p) (ofParagraph "" p) [(.p, className)] := by
  have hblank : Styles [.blank] [.blank] [] := ⟨rfl, rfl⟩
  have hruns : Styles (p.runs.flatMap ofRun) (p.runs.flatMap ofRun) [] := by
    have hnone : p.runs.flatMap (fun _ => ([] : List (Element × String))) = [] := by simp
    rw [← hnone]
    exact Styles.flatMap styles_ofRun
  exact (hblank.within hruns p.hasContent).wrap .p className

/-! The elements that can have a class, in the order in which they are shown, each with the class that the options give
its kind. -/

variable (o : Options)

def styledCell (c : Cell) : List (Element × String) :=
  (.td, o.tableCellClass) :: c.paragraphs.flatMap fun _ => [(.p, o.compactParagraphClass)]

def styledTable (t : Table) : List (Element × String) :=
  if t.isEmpty then [] else (.table, o.tableClass) :: t.rows.flatMap fun r => r.cells.flatMap (styledCell o)

def styledBlock : Block → List (Element × String)
  | .paragraph _ => [(.p, o.paragraphClass)]
  | .table t => styledTable o t

def styledDocument (d : Document) : List (Element × String) :=
  if d.isEmpty then [(.p, o.placeholderClass)] else d.blocks.flatMap (styledBlock o)

def styledGrid (caption : Option String) (g : Sheet.Grid) : List (Element × String) :=
  (.table, o.sheetTableClass) :: ((caption.toList.map fun _ => (.caption, o.sheetCaptionClass)) ++
    g.rows.toList.flatMap fun row => row.toList.flatMap fun _ => [(.td, o.sheetCellClass)])

theorem styles_ofCell (c : Cell) : Styles (ofCell o c) (ofCell o.bare c) (styledCell o c) := by
  have hinside : Styles
      (if c.paragraphs.isEmpty then [.blank] else c.paragraphs.flatMap (ofParagraph o.compactParagraphClass))
      (if c.paragraphs.isEmpty then [.blank] else c.paragraphs.flatMap (ofParagraph ""))
      (c.paragraphs.flatMap fun _ => [(.p, o.compactParagraphClass)]) := by
    cases c.paragraphs with
    | nil => exact ⟨rfl, rfl⟩
    | cons p ps => exact Styles.flatMap (styles_ofParagraph o.compactParagraphClass)
  exact hinside.wrap .td o.tableCellClass

theorem styles_ofTable (t : Table) : Styles (ofTable o t) (ofTable o.bare t) (styledTable o t) := by
  unfold ofTable styledTable
  cases t.isEmpty with
  | true => exact Styles.nil
  | false =>
    have hrow (r : Row) : Styles (ofRow o r) (ofRow o.bare r) (r.cells.flatMap (styledCell o)) :=
      (Styles.flatMap (styles_ofCell o)).wrap .tr ""
    exact ((Styles.flatMap hrow).wrap .tbody "").wrap .table o.tableClass

theorem styles_ofBlock (b : Block) : Styles (ofBlock o b) (ofBlock o.bare b) (styledBlock o b) := by
  cases b with
  | paragraph p => exact styles_ofParagraph o.paragraphClass p
  | table t => exact styles_ofTable o t

theorem styles_ofDocument (d : Document) : Styles (ofDocument o d) (ofDocument o.bare d) (styledDocument o d) := by
  unfold ofDocument styledDocument
  cases d.isEmpty with
  | true =>
    have htext : Styles [.text o.emptyDocumentText] [.text o.emptyDocumentText] [] := ⟨rfl, rfl⟩
    exact htext.wrap .p o.placeholderClass
  | false => exact Styles.flatMap (styles_ofBlock o)

theorem styles_ofGrid (caption : Option String) (g : Sheet.Grid) :
    Styles (ofGrid o caption g) (ofGrid o.bare caption g) (styledGrid o caption g) := by
  have htext (value : String) : Styles [.text value] [.text value] [] := ⟨rfl, rfl⟩
  have hrow (row : Array String) : Styles (ofValues o row) (ofValues o.bare row)
      (row.toList.flatMap fun _ => [(.td, o.sheetCellClass)]) :=
    (Styles.flatMap fun value => (htext value).wrap .td o.sheetCellClass).wrap .tr ""
  have hrows : Styles (g.rows.toList.flatMap (ofValues o)) _ _ := Styles.flatMap hrow
  have hbody := hrows.wrap .tbody ""
  have hcaption : Styles (ofCaption o caption) (ofCaption o.bare caption)
      (caption.toList.map fun _ => (.caption, o.sheetCaptionClass)) := by
    cases caption with
    | none => exact Styles.nil
    | some caption => exact (htext caption).wrap .caption o.sheetCaptionClass
  exact (hcaption.append hbody).wrap .table o.sheetTableClass

/-- **Options make classes and nothing else.**  The fragment of a document and that of a sheet are, when the classes are
deleted from the left to the right, the ones under options without classes.  Their tags for paragraphs, tables, captions
and cells are in the order in which these are shown, each with the class for its kind, escaped, and without a class where
the option is empty. -/
theorem options_make_classes :
    (∀ d : Document, deleteClasses (d.toHtml o).toList = (d.toHtml o.bare).toList ∧
      (tagsIn (d.toHtml o).toList).filter takesClass = (styledDocument o d).map fun s => s.1.inside s.2) ∧
    ∀ (g : Sheet.Grid) (caption : Option String),
      deleteClasses (g.toHtml o caption).toList = (g.toHtml o.bare caption).toList ∧
        (tagsIn (g.toHtml o caption).toList).filter takesClass = (styledGrid o caption g).map fun s => s.1.inside s.2 :=
  ⟨fun d => (styles_ofDocument o d).text, fun g caption => (styles_ofGrid o caption g).text⟩

end OfficePreview.Html
