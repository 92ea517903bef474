import OfficePreview.Proofs.Html.Reading
import OfficePreview.Word.Document
/-!
# Shown — what a document shows

A paragraph shows the characters of its runs in the formats of the runs, and the line breaks that follow them.  Where one
run ends and the next begins is not shown if the formats are the same, nor is a run without text and without a break.  A
paragraph that has nothing to show is shown as a blank (`shown`), which is as much as showing nothing (`content`): that
it does so can be told from its marks (`marksOf_eq_nil_iff`).
-/
namespace OfficePreview.Html

open Word (Run Paragraph Cell Block)

def Formats.ofRun (r : Run) : Formats := ⟨r.bold, r.italic, r.underline⟩

def marksOfRun (r : Run) : List Mark :=
  r.text.toList.map (.char · (.ofRun r)) ++ if r.lineBreak then [.lineBreak] else []

def marksOf (p : Paragraph) : List Mark := p.runs.flatMap marksOfRun

def shownParagraph (p : Paragraph) : Option (List Mark) := if p.hasContent then some (marksOf p) else none

def shownCell (c : Cell) : Option (List (Option (List Mark))) :=
  if c.paragraphs.isEmpty then none else some (c.paragraphs.map shownParagraph)

/-- A block by what is made of its paragraph or of the cells of its rows. -/
def outline {π κ : Type} (paragraph : Paragraph → π) (cell : Cell → κ) : Block → Outline π κ
  | .paragraph p => .paragraph (paragraph p)
  | .table t => .table (t.rows.map fun row => row.cells.map cell)

/-- A block as it is shown, with its blanks. -/
def shown : Block → Shown := outline shownParagraph shownCell

/-- A block as the marks of its paragraphs. -/
def content : Block → Outline (List Mark) (List (List Mark)) := outline marksOf fun c => c.paragraphs.map marksOf

theorem map_outline {π π' κ κ' : Type} (f : π → π') (g : κ → κ') (paragraph : Paragraph → π) (cell : Cell → κ)
    (b : Block) : (outline paragraph cell b).map f g = outline (f ∘ paragraph) (g ∘ cell) b := by
  cases b <;> simp [outline, Outline.map, Function.comp_def]

theorem marksOfRun_eq_nil_iff (r : Run) : marksOfRun r = [] ↔ r.hasContent = false := by
  unfold marksOfRun Run.hasContent
  cases r.lineBreak <;> simp

theorem marksOf_eq_nil_iff (p : Paragraph) : marksOf p = [] ↔ p.hasContent = false := by
  simp [marksOf, Paragraph.hasContent, marksOfRun_eq_nil_iff]

theorem getD_shownParagraph (p : Paragraph) : (shownParagraph p).getD [] = marksOf p := by
  unfold shownParagraph
  cases h : p.hasContent with
  | true => rfl
  | false => exact ((marksOf_eq_nil_iff p).2 h).symm

theorem getD_shownCell (c : Cell) : ((shownCell c).getD []).map (·.getD []) = c.paragraphs.map marksOf := by
  unfold shownCell
  cases hc : c.paragraphs with
  | nil => rfl
  | cons p ps => simp [getD_shownParagraph]

/-- **Blocks that are shown in the same way have the same contents.** -/
theorem content_eq (b : Block) : content b = (shown b).map (·.getD []) fun cell => (cell.getD []).map (·.getD []) := by
  unfold shown content
  rw [map_outline]
  congr 1
  · exact funext fun p => (getD_shownParagraph p).symm
  · exact funext fun c => (getD_shownCell c).symm

theorem map_content_of_map_shown {bs cs : List Block} (h : bs.map shown = cs.map shown) :
    bs.map content = cs.map content := by
  rw [funext content_eq, ← Function.comp_def, ← List.map_map, h, List.map_map]

end OfficePreview.Html
