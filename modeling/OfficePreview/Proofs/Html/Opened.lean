import OfficePreview.Html.Document
import OfficePreview.Proofs.Word.Documents
import OfficePreview.Proofs.Xml.Opened
/-!
# Opened — documents with self-closing tags opened

A run is read only from a start tag, and so is a row.  Opened, an empty one of them counts, but nothing is written for it:
a run that has nothing to show writes nothing (`ofParagraph_congr`), and a row without cells is no row.  All else is read
from either form of its tag.  A body, though, is looked for by its start tag, and an opened one hides the body after it.
So what is written stays the same (`toHtml_opened`) if there is one body at most.
-/
namespace OfficePreview.Html

open Word (Run Paragraph Cell Row Table Block Document)
open Word (textOf withoutProperties propertiesOf hasBreak runsOf paragraphsOf cellsOf rowsOf blocksOf bodyOf?)
open Xml (Tag Forest Describes)

variable {f f' : Forest}

/-! ## Runs -/

theorem withoutProperties_opened (h : f.Opens f') : (withoutProperties f).Opens (withoutProperties f') := by
  induction h with
  | nil => exact .nil
  | element tag hc _ _ ihr =>
    unfold withoutProperties
    split
    · exact ihr
    · exact .element tag hc ihr
  | empty tag _ ih =>
    unfold withoutProperties
    split
    · exact ih
    · exact .empty tag ih
  | leaf l _ ih => exact .leaf l ih
  | opened tag _ ih =>
    unfold withoutProperties
    split
    · exact ih
    · exact .opened tag ih

theorem textOf_opened (h : f.Opens f') : textOf f' = textOf f := by
  induction h with
  | nil => rfl
  | element tag hc _ ihc ihr => simp only [textOf, hc.data_eq, ihc, ihr]
  | empty tag _ ih => exact ih
  | leaf l _ ih => exact ih
  | opened tag _ ih => simp [textOf, ih, Forest.data]

theorem propertiesOf_opened (h : f.Opens f') : propertiesOf f' = propertiesOf f := by
  induction h with
  | nil => rfl
  | element tag hc _ _ ihr => simp only [propertiesOf, hc.rootTags_eq, ihr]
  | empty tag _ ih => exact ih
  | leaf l _ ih => exact ih
  | opened tag _ ih => simp [propertiesOf, ih, Forest.rootTags]

theorem ofForest_opened (h : f.Opens f') : Run.ofForest f' = Run.ofForest f := by
  have hrest := withoutProperties_opened h
  simp only [Run.ofForest, textOf_opened hrest, hasBreak, hrest.tags_eq, propertiesOf_opened h]

/-- **The runs that have something to show** are the same; an opened run has nothing. -/
theorem filter_runsOf_opened (h : f.Opens f') :
    (runsOf f').filter Run.hasContent = (runsOf f).filter Run.hasContent := by
  induction h with
  | nil => rfl
  | element tag hc _ ihc ihr =>
    simp only [runsOf, List.filter_append, ihr]
    split
    · rw [ofForest_opened hc]
    · rw [ihc]
  | empty tag _ ih => exact ih
  | leaf l _ ih => exact ih
  | opened tag _ ih =>
    have hnil : (if tag.isWord "r" then [Run.ofForest .nil] else runsOf .nil).filter Run.hasContent = [] := by
      split <;> decide
    rw [runsOf, List.filter_append, hnil, List.nil_append, ih, runsOf]

/-! ## What is written -/

theorem ofRun_of_hasContent {r : Run} (h : r.hasContent = false) : ofRun r = [] := by
  simp only [Run.hasContent, Bool.or_eq_false_iff, decide_eq_false_iff_not, not_not] at h
  simp [ofRun, h.1, h.2]

/-- **A paragraph is written by the runs in it that have something to show.** -/
theorem ofParagraph_congr (className : String) {p p' : Paragraph}
    (h : p'.runs.filter Run.hasContent = p.runs.filter Run.hasContent) :
    ofParagraph className p' = ofParagraph className p := by
  have hany (p : Paragraph) : p.hasContent = (p.runs.filter Run.hasContent).any fun _ => true := by
    simp [Paragraph.hasContent, List.any_filter]
  have hflat (p : Paragraph) : p.runs.flatMap ofRun = (p.runs.filter Run.hasContent).flatMap ofRun := by
    induction p.runs with
    | nil => rfl
    | cons r runs ih =>
      cases hr : r.hasContent with
      | true => rw [List.filter_cons_of_pos hr, List.flatMap_cons, List.flatMap_cons, ih]
      | false => simp [hr, ofRun_of_hasContent hr, ih]
  rw [ofParagraph, ofParagraph, hany p', hany p, hflat p', hflat p, h]

theorem isEmpty_of_map_eq {α β : Type} {g : α → β} {xs ys : List α} (h : xs.map g = ys.map g) :
    xs.isEmpty = ys.isEmpty := by
  rw [← List.isEmpty_map, h, List.isEmpty_map]

theorem ofCell_congr (o : Options) {c c' : Cell}
    (h : c'.paragraphs.map (ofParagraph o.compactParagraphClass) = c.paragraphs.map (ofParagraph o.compactParagraphClass)) :
    ofCell o c' = ofCell o c := by
  have hempty : c'.paragraphs.isEmpty = c.paragraphs.isEmpty := isEmpty_of_map_eq h
  rw [ofCell, ofCell, hempty, List.flatMap_def, List.flatMap_def, h]

theorem ofRow_congr (o : Options) {r r' : Row} (h : r'.cells.map (ofCell o) = r.cells.map (ofCell o)) :
    ofRow o r' = ofRow o r := by
  rw [ofRow, ofRow, List.flatMap_def, List.flatMap_def, h]

theorem ofTable_congr (o : Options) {t t' : Table} (h : t'.rows.map (ofRow o) = t.rows.map (ofRow o)) :
    ofTable o t' = ofTable o t := by
  have hempty : t'.isEmpty = t.isEmpty := isEmpty_of_map_eq h
  rw [ofTable, ofTable, hempty, List.flatMap_def, List.flatMap_def, h]

theorem ofDocument_congr (o : Options) {d d' : Document} (h : d'.blocks.map (ofBlock o) = d.blocks.map (ofBlock o)) :
    ofDocument o d' = ofDocument o d := by
  have hempty : d'.isEmpty = d.isEmpty := isEmpty_of_map_eq h
  rw [ofDocument, ofDocument, hempty, List.flatMap_def, List.flatMap_def, h]

/-! ## From paragraphs to documents -/

theorem ofParagraph_runsOf_opened (className : String) (h : f.Opens f') :
    ofParagraph className ⟨runsOf f'⟩ = ofParagraph className ⟨runsOf f⟩ :=
  ofParagraph_congr className (filter_runsOf_opened h)

theorem map_paragraphsOf_opened (className : String) (h : f.Opens f') :
    (paragraphsOf f').map (ofParagraph className) = (paragraphsOf f).map (ofParagraph className) := by
  induction h with
  | nil => rfl
  | element tag hc _ ihc ihr =>
    simp only [paragraphsOf, List.map_append, ihr]
    split
    · simp only [List.map_cons, ofParagraph_runsOf_opened className hc]
    · rw [ihc]
  | empty tag _ ih => simp only [paragraphsOf, List.map_append, ih]
  | leaf l _ ih => exact ih
  | opened tag _ ih => simp only [paragraphsOf, runsOf, List.map_append, ih]

variable (o : Options)

theorem map_cellsOf_opened (h : f.Opens f') : (cellsOf f').map (ofCell o) = (cellsOf f).map (ofCell o) := by
  induction h with
  | nil => rfl
  | @element tag children children' _ _ hc _ _ ihr =>
    have hcell : ofCell o ⟨paragraphsOf children'⟩ = ofCell o ⟨paragraphsOf children⟩ :=
      ofCell_congr o (map_paragraphsOf_opened o.compactParagraphClass hc)
    simp only [cellsOf, List.map_append, ihr]
    split
    · simp only [List.map_cons, hcell]
    · rfl
  | empty tag _ ih => simp only [cellsOf, List.map_append, ih]
  | leaf l _ ih => exact ih
  | opened tag _ ih => simp only [cellsOf, paragraphsOf, List.map_append, ih]

/-- **The rows with cells** are written in the same way; an opened row has none. -/
theorem map_rowsOf_opened (h : f.Opens f') :
    ((rowsOf f').filter (!·.cells.isEmpty)).map (ofRow o) = ((rowsOf f).filter (!·.cells.isEmpty)).map (ofRow o) := by
  induction h with
  | nil => rfl
  | @element tag children children' _ _ hc _ _ ihr =>
    have hcells := map_cellsOf_opened o hc
    have hrow : ofRow o ⟨cellsOf children'⟩ = ofRow o ⟨cellsOf children⟩ := ofRow_congr o hcells
    have hempty : (cellsOf children').isEmpty = (cellsOf children).isEmpty := isEmpty_of_map_eq hcells
    simp only [rowsOf, List.filter_append, List.map_append, ihr]
    congr 1
    split
    · cases hn : (cellsOf children).isEmpty <;> simp [hempty, hn, hrow]
    · rfl
  | empty tag _ ih => exact ih
  | leaf l _ ih => exact ih
  | opened tag _ ih =>
    have hnil : (if tag.isWord "tr" then [⟨cellsOf .nil⟩] else []).filter (fun r : Row => !r.cells.isEmpty) = [] := by
      split <;> rfl
    rw [rowsOf, List.filter_append, hnil, List.nil_append, ih, rowsOf]

theorem map_blocksOf_opened (h : f.Opens f') : (blocksOf f').map (ofBlock o) = (blocksOf f).map (ofBlock o) := by
  induction h with
  | nil => rfl
  | @element tag children children' _ _ hc _ _ ihr =>
    have hrows := map_rowsOf_opened o hc
    have hany : (rowsOf children').any (!·.cells.isEmpty) = (rowsOf children).any (!·.cells.isEmpty) := by
      have hempty : (Table.ofRows (rowsOf children')).isEmpty = (Table.ofRows (rowsOf children)).isEmpty :=
        isEmpty_of_map_eq hrows
      rwa [Table.isEmpty_ofRows, Table.isEmpty_ofRows, Bool.not_inj_iff] at hempty
    have hparagraph : ofBlock o (.paragraph ⟨runsOf children'⟩) = ofBlock o (.paragraph ⟨runsOf children⟩) :=
      ofParagraph_runsOf_opened o.paragraphClass hc
    have htable : ofBlock o (.table ⟨(rowsOf children').filter (!·.cells.isEmpty)⟩) =
        ofBlock o (.table ⟨(rowsOf children).filter (!·.cells.isEmpty)⟩) := ofTable_congr o hrows
    simp only [blocksOf, List.map_append, ihr, hany]
    congr 1
    split
    · simp only [List.map_cons, hparagraph]
    · split
      · simp only [List.map_cons, htable]
      · rfl
  | empty tag _ ih => simp only [blocksOf, List.map_append, ih]
  | leaf l _ ih => exact ih
  | opened tag _ ih =>
    have hnil : (if tag.isWord "tbl" ∧ (rowsOf .nil).any (!·.cells.isEmpty) then
        [Block.table ⟨(rowsOf .nil).filter (!·.cells.isEmpty)⟩] else []) = [] := if_neg fun h => Bool.false_ne_true h.2
    simp only [blocksOf, hnil, runsOf, List.map_append, ih]

/-! ## The body -/

theorem bodyOf?_eq_first? (f : Forest) : bodyOf? f = f.first? (·.isWord "body") := by
  induction f with
  | nil => rfl
  | element tag children rest ihc ihr => rw [bodyOf?, Forest.first?, ihc, ihr]
  | empty tag rest ih => exact ih
  | leaf l rest ih => exact ih

/-- **The blocks of the only body** are written in the same way; an opened body has none. -/
theorem map_blocks_opened (h : f.Opens f') (one : f.tags.countP (·.isWord "body") ≤ 1) :
    (Document.ofForest f').blocks.map (ofBlock o) = (Document.ofForest f).blocks.map (ofBlock o) := by
  have hblocks (f : Forest) : (Document.ofForest f).blocks.map (ofBlock o) =
      ((f.first? (·.isWord "body")).map fun g => (blocksOf g).map (ofBlock o)).getD ((blocksOf .nil).map (ofBlock o)) := by
    rw [Document.ofForest, bodyOf?_eq_first?]
    cases f.first? (·.isWord "body") <;> rfl
  rw [hblocks, hblocks]
  exact h.getD_first? (map_blocksOf_opened o) one

/-- **A document is written the same with self-closing tags opened**, if it has one body at most. -/
theorem toHtml_opened {text text' : String} (described : Describes text f) (described' : Describes text' f')
    (h : f.Opens f') (one : f.tags.countP (·.isWord "body") ≤ 1) :
    (Document.ofText text').map (·.toHtml o) = (Document.ofText text).map (·.toHtml o) := by
  rw [Document.ofText_of_describes described', Document.ofText_of_describes described]
  have hpieces : ofDocument o (.ofForest f') = ofDocument o (.ofForest f) :=
    ofDocument_congr o (map_blocks_opened o h one)
  exact congrArg (fun pieces => Except.ok (render pieces)) hpieces

end OfficePreview.Html
