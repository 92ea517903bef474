import OfficePreview.Proofs.Word.Paragraphs
/-!
# Documents — what is read from a document part is what its tree says

Before the body nothing counts, in the body its own paragraphs and tables do, and after it nothing does again
(`feed_before`, `feed_body`, `feed_after`).  So the blocks read from a well-formed part are those that the outline of its
tree has.
-/
namespace OfficePreview.Word

open Xml (Event Tag Forest Leaf Progress Describes IsWellFormed)

theorem Table.isEmpty_ofRows (rows : List Row) : (Table.ofRows rows).isEmpty = !rows.any (!·.cells.isEmpty) := by
  rw [Bool.eq_iff_iff]
  simp [Table.isEmpty, Table.ofRows]

namespace BodyBuilder

def advance (b : BodyBuilder) (e : Event) (depth : Nat) : Progress BodyBuilder Empty := .more (b.step e depth)

theorem feed_advance (es : List (Event × Nat)) (b : BodyBuilder) :
    feed advance b es = some (es.foldl (fun b p => b.step p.1 p.2) b) := by
  induction es generalizing b with
  | nil => rfl
  | cons p es ih => exact ih (b.step p.1 p.2)

/-! ## After the body -/

theorem feed_after (es : List (Event × Nat)) (blocks : Array Block) :
    feed advance ⟨blocks, .after⟩ es = some ⟨blocks, .after⟩ := by
  induction es with
  | nil => rfl
  | cons p es ih => exact ih

/-! ## In the body -/

theorem advance_inParagraph (blocks : Array Block) (bd : Nat) (b : ParagraphBuilder) (e : Event) (depth : Nat) :
    advance ⟨blocks, .paragraph bd b⟩ e depth = match b.step e depth with
      | .more b => .more ⟨blocks, .paragraph bd b⟩
      | .done p => .more ⟨blocks.push (.paragraph p), .body bd⟩ := by
  unfold advance step
  dsimp only
  cases b.step e depth <;> rfl

theorem advance_inTable (blocks : Array Block) (bd : Nat) (b : OpenTable) (e : Event) (depth : Nat) :
    advance ⟨blocks, .table bd b⟩ e depth = match b.step e depth with
      | .more b => .more ⟨blocks, .table bd b⟩
      | .done t => .more ⟨addTable blocks t, .body bd⟩ := by
  unfold advance step
  dsimp only
  cases b.step e depth <;> rfl

theorem advance_leaf (blocks : Array Block) (bd : Nat) (l : Leaf) (depth : Nat) :
    advance ⟨blocks, .body bd⟩ l.event depth = .more ⟨blocks, .body bd⟩ := by
  cases l <;> rfl

theorem feed_paragraphElement {tag : Tag} (hp : tag.isWord "p" = true) (children rest : Forest) (bd : Nat)
    (blocks : Array Block) :
    feed advance ⟨blocks, .body bd⟩ ((Forest.element tag children rest).events bd) =
      feed advance ⟨blocks.push (.paragraph ⟨runsOf children⟩), .body bd⟩ (rest.events bd) := by
  have hs : advance ⟨blocks, .body bd⟩ (.start tag) (bd + 1) =
      .more ⟨blocks, .paragraph bd { depth := bd + 1 }⟩ := by
    simp [advance, step, hp]
  have hc := feed_map advance (fun b => ⟨blocks, .paragraph bd b⟩)
    (fun p _ b c h => by rw [advance_inParagraph, h])
    (ParagraphBuilder.feed_paragraph children (Nat.le_refl (bd + 1)) #[])
  refine feed_element hs hc ?_
  rw [advance_inParagraph, ParagraphBuilder.step_end]
  simp

theorem addTable_ofRows (blocks : Array Block) (rows : List Row) :
    addTable blocks (.ofRows rows) =
      blocks ++ (if rows.any (!·.cells.isEmpty) then [Block.table ⟨rows.filter (!·.cells.isEmpty)⟩] else []).toArray := by
  rw [addTable, Table.isEmpty_ofRows]
  cases rows.any (!·.cells.isEmpty) <;> simp [Table.ofRows]

theorem feed_tableElement {tag : Tag} (ht : tag.isWord "tbl" = true) (children rest : Forest) (bd : Nat)
    (blocks : Array Block) :
    feed advance ⟨blocks, .body bd⟩ ((Forest.element tag children rest).events bd) =
      feed advance ⟨addTable blocks (.ofRows (rowsOf children)), .body bd⟩ (rest.events bd) := by
  have hs : advance ⟨blocks, .body bd⟩ (.start tag) (bd + 1) = .more ⟨blocks, .table bd { depth := bd + 1 }⟩ := by
    simp [advance, step, ht, isWord_eq_false ht (b := "p") (by decide)]
  have hc := feed_map advance (fun b => ⟨blocks, .table bd b⟩)
    (fun p _ b c h => by rw [advance_inTable, h]) (OpenTable.feed_table children (bd + 1) #[])
  refine feed_element hs hc ?_
  rw [advance_inTable, OpenTable.step_end]
  simp

/-- **Deeper in the body nothing counts.** -/
theorem feed_belowBody (f : Forest) {bd depth : Nat} (hd : bd < depth) (blocks : Array Block) :
    feed advance ⟨blocks, .body bd⟩ (f.events depth) = some ⟨blocks, .body bd⟩ := by
  induction f generalizing depth with
  | nil => rfl
  | element tag children rest ihc ihr =>
    have hs : advance ⟨blocks, .body bd⟩ (.start tag) (depth + 1) = .more ⟨blocks, .body bd⟩ := by
      simp [advance, step, Nat.ne_of_gt hd]
    have he : advance ⟨blocks, .body bd⟩ (.close tag.name) (depth + 1) = .more ⟨blocks, .body bd⟩ := by
      simp [advance, step, Nat.ne_of_gt (Nat.lt_succ_of_lt hd)]
    rw [feed_element hs (ihc (Nat.lt_succ_of_lt hd)) he, ihr hd]
  | empty tag rest ihr =>
    have hs : advance ⟨blocks, .body bd⟩ (.empty tag) (depth + 1) = .more ⟨blocks, .body bd⟩ := by
      simp [advance, step, Nat.ne_of_gt hd]
    rw [Forest.events, feed_cons hs, ihr hd]
  | leaf l rest ihr => rw [Forest.events, feed_cons (advance_leaf ..), ihr hd]

/-- **The trees of a body**: its paragraphs and its tables with rows count, in their order. -/
theorem feed_body (f : Forest) (bd : Nat) (blocks : Array Block) :
    feed advance ⟨blocks, .body bd⟩ (f.events bd) = some ⟨blocks ++ (blocksOf f).toArray, .body bd⟩ := by
  induction f generalizing blocks with
  | nil => simp [Forest.events, feed, blocksOf]
  | element tag children rest _ ihr =>
    cases hp : tag.isWord "p" with
    | true =>
      rw [feed_paragraphElement hp, ihr]
      simp [blocksOf, hp]
    | false =>
      cases ht : tag.isWord "tbl" with
      | true =>
        rw [feed_tableElement ht, addTable_ofRows, ihr]
        simp [blocksOf, hp, ht]
      | false =>
        have hs : advance ⟨blocks, .body bd⟩ (.start tag) (bd + 1) = .more ⟨blocks, .body bd⟩ := by
          simp [advance, step, hp, ht]
        have he : advance ⟨blocks, .body bd⟩ (.close tag.name) (bd + 1) = .more ⟨blocks, .body bd⟩ := by
          simp [advance, step]
        rw [feed_element hs (feed_belowBody children (Nat.lt_succ_self bd) blocks) he, ihr]
        simp [blocksOf, hp, ht]
  | empty tag rest ihr =>
    have hs : advance ⟨blocks, .body bd⟩ (.empty tag) (bd + 1) =
        .more ⟨blocks ++ (if tag.isWord "p" then [Block.paragraph {}] else []).toArray, .body bd⟩ := by
      cases hp : tag.isWord "p" <;> simp [advance, step, hp]
    rw [Forest.events, feed_cons hs, ihr]
    simp [blocksOf]
  | leaf l rest ihr =>
    rw [Forest.events, feed_cons (advance_leaf ..), ihr]
    simp [blocksOf]

/-! ## Before the body -/

theorem advance_leaf_before (blocks : Array Block) (l : Leaf) (depth : Nat) :
    advance ⟨blocks, .before⟩ l.event depth = .more ⟨blocks, .before⟩ := by
  cases l <;> rfl

/-- What comes of the children of the first body, if there is one. -/
def ofBody (blocks : Array Block) : Option Forest → BodyBuilder
  | some children => ⟨blocks ++ (blocksOf children).toArray, .after⟩
  | none => ⟨blocks, .before⟩

/-- **The first body of a forest gives the blocks.** -/
theorem feed_before (f : Forest) (depth : Nat) (blocks : Array Block) :
    feed advance ⟨blocks, .before⟩ (f.events depth) = some (ofBody blocks (bodyOf? f)) := by
  induction f generalizing depth with
  | nil => rfl
  | element tag children rest ihc ihr =>
    cases hb : tag.isWord "body" with
    | true =>
      have hs : advance ⟨blocks, .before⟩ (.start tag) (depth + 1) = .more ⟨blocks, .body (depth + 1)⟩ := by
        simp [advance, step, hb]
      have he : advance ⟨blocks ++ (blocksOf children).toArray, .body (depth + 1)⟩ (.close tag.name) (depth + 1) =
          .more ⟨blocks ++ (blocksOf children).toArray, .after⟩ := by
        simp [advance, step]
      rw [feed_element hs (feed_body children (depth + 1) blocks) he, feed_after]
      simp [bodyOf?, hb, ofBody]
    | false =>
      have hs : advance ⟨blocks, .before⟩ (.start tag) (depth + 1) = .more ⟨blocks, .before⟩ := by
        simp [advance, step, hb]
      have hc := ihc (depth + 1)
      rw [bodyOf?, hb, if_neg Bool.false_ne_true]
      cases hin : bodyOf? children with
      | some found =>
        rw [hin] at hc
        have he : advance (ofBody blocks (some found)) (.close tag.name) (depth + 1) =
            .more (ofBody blocks (some found)) := rfl
        rw [feed_element hs hc he]
        exact feed_after ..
      | none =>
        rw [hin] at hc
        have he : advance (ofBody blocks none) (.close tag.name) (depth + 1) = .more ⟨blocks, .before⟩ := rfl
        rw [feed_element hs hc he, ihr, Option.none_or]
  | empty tag rest ihr => rw [Forest.events, feed_cons (c := ⟨blocks, .before⟩) rfl, ihr, bodyOf?]
  | leaf l rest ihr => rw [Forest.events, feed_cons (advance_leaf_before ..), ihr, bodyOf?]

theorem foldl_step_events (f : Forest) :
    ((f.events 0).foldl (fun (b : BodyBuilder) p => b.step p.1 p.2) {}).blocks.toList =
      ((bodyOf? f).map blocksOf).getD [] := by
  have h := (feed_advance (f.events 0) {}).symm.trans (feed_before f 0 #[])
  rw [Option.some.inj h]
  cases bodyOf? f <;> simp [ofBody]

end BodyBuilder

theorem Document.ofText_of_describes {text : String} {forest : Forest} (described : Describes text forest) :
    Document.ofText text = .ok (.ofForest forest) := by
  rw [Document.ofText_eq, described.parsePart, Document.ofForest, ← BodyBuilder.foldl_step_events]
  rfl

/-- **A well-formed document part is read as its tree says.**  The part describes exactly one forest, and the blocks read
from the part are those that the outline of the forest has. -/
theorem ofText_eq_ofForest (text : String) (accepted : IsWellFormed text) :
    (∃ forest, Describes text forest ∧ ∀ other, Describes text other → other = forest) ∧
      ∀ forest, Describes text forest → Document.ofText text = .ok (.ofForest forest) :=
  ⟨Xml.exists_unique_describes accepted, fun _ => Document.ofText_of_describes⟩

/-- A part with properties, an element inside a text, a run inside a run and a table. -/
def nestedText : String :=
  "<a><body><p><r><rPr><b/></rPr><t>a<x>b</x></t><r><t>c</t></r></r></p><tbl><tr><tc><p/></tc></tr></tbl></body></a>"

theorem ofText_eq_ofForest_nestedText :
    IsWellFormed nestedText ∧ ∃ forest, Describes nestedText forest ∧
      Document.ofText nestedText = .ok (.ofForest forest) := by
  have accepted : IsWellFormed nestedText := by decide +kernel
  obtain ⟨⟨forest, described, -⟩, reads⟩ := ofText_eq_ofForest nestedText accepted
  exact ⟨accepted, forest, described, reads forest described⟩

end OfficePreview.Word
