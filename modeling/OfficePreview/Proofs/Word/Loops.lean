import OfficePreview.Proofs.Xml.Described
import OfficePreview.Word.Body
/-!
# Loops — the loops over a document part are one fold

The loops of the body, of a table and of a paragraph stand one inside the other, and each returns at its own closing tag.
A fold over the events has to remember which of them is open (`Place`, `OpenTable`); then one event after the other takes
it where the loops are (`readParagraph_follows`, `readTable_follows`, `readBody_follows`).  What keeps the two together is
the depth: inside a loop its own element is open, so that the part cannot end there (`follows_loop_inside`), and it is not
when the loop returns.
-/
namespace OfficePreview.Word

open Xml (Event Fault Progress Reader Tag)

/-! ## The body as one state -/

/-- A table being read in which a paragraph may be open. -/
structure OpenTable extends TableBuilder where
  paragraph : Option ParagraphBuilder := none
deriving DecidableEq, Repr

namespace OpenTable

def start (b : OpenTable) (tag : Tag) (depth : Nat) : OpenTable :=
  if depth = b.depth + 1 ∧ tag.isWord "tr" then { b with row := some #[] }
  else if depth = b.depth + 2 ∧ b.row.isSome ∧ tag.isWord "tc" then { b with cell := some #[] }
  else if tag.isWord "p" then { b with paragraph := some { depth } }
  else b

def step (b : OpenTable) (e : Event) (depth : Nat) : Progress OpenTable Table :=
  match b.paragraph with
  | some paragraph =>
    match paragraph.step e depth with
    | .more paragraph => .more { b with paragraph := some paragraph }
    | .done p => .more ⟨b.addParagraph p, none⟩
  | none =>
    match e with
    | .start tag => .more (b.start tag depth)
    | .empty tag => .more ⟨b.empty tag depth, none⟩
    | .close _ =>
      match b.close depth with
      | .more table => .more ⟨table, none⟩
      | .done t => .done t
    | _ => .more b

end OpenTable

/-- The part of a body that is being read. -/
inductive Place
  | before
  | body (depth : Nat)
  | paragraph (body : Nat) (builder : ParagraphBuilder)
  | table (body : Nat) (table : OpenTable)
  | after
deriving DecidableEq, Repr

/-- A body being read: the blocks read and what is open. -/
structure BodyBuilder where
  blocks : Array Block := #[]
  place : Place := .before
deriving DecidableEq, Repr

namespace BodyBuilder

def step (b : BodyBuilder) (e : Event) (depth : Nat) : BodyBuilder :=
  match b.place with
  | .before =>
    match e with
    | .start tag => if tag.isWord "body" then { b with place := .body depth } else b
    | _ => b
  | .body outer =>
    match e with
    | .start tag =>
      if depth = outer + 1 ∧ tag.isWord "p" then { b with place := .paragraph outer { depth } }
      else if depth = outer + 1 ∧ tag.isWord "tbl" then { b with place := .table outer { depth } }
      else b
    | .empty tag =>
      if depth = outer + 1 ∧ tag.isWord "p" then { b with blocks := b.blocks.push (.paragraph {}) } else b
    | .close _ => if depth = outer then { b with place := .after } else b
    | _ => b
  | .paragraph outer builder =>
    match builder.step e depth with
    | .more builder => { b with place := .paragraph outer builder }
    | .done p => { blocks := b.blocks.push (.paragraph p), place := .body outer }
  | .table outer table =>
    match table.step e depth with
    | .more table => { b with place := .table outer table }
    | .done t => { blocks := addTable b.blocks t, place := .body outer }
  | .after => b

end BodyBuilder

/-! ## Depths -/

section

variable {r s : Reader}

theorem opened_of_start {tag : Tag} (h : r.next = .ok (some (.start tag), s)) :
    s.depth = s.opened ∧ s.opened = r.opened + 1 := by
  obtain ⟨scanner, -, ha⟩ := Reader.scanner_next_of_event h
  simp only [Reader.accept] at ha
  split at ha <;> cases ha
  exact ⟨rfl, rfl⟩

/-- **An element stays open** until its own closing tag has been read. -/
theorem le_opened_of_next {d : Nat} {e : Event} (hd : d ≤ r.opened) (h : r.next = .ok (some e, s))
    (hne : ∀ name, e = .close name → s.depth ≠ d) : d ≤ s.opened := by
  obtain ⟨scanner, -, ha⟩ := Reader.scanner_next_of_event h
  cases e with
  | start tag =>
    simp only [Reader.accept] at ha
    split at ha <;> cases ha
    exact Nat.le_succ_of_le hd
  | empty tag =>
    simp only [Reader.accept] at ha
    split at ha <;> cases ha
    exact hd
  | close name =>
    cases ha
    have hn : r.opened ≠ d := hne name rfl
    change d ≤ r.opened - 1
    omega
  | reference name =>
    simp only [Reader.accept] at ha
    split at ha <;> cases ha
    exact hd
  | _ => cases ha; exact hd

theorem opened_of_ownClose {d : Nat} {name : String} (hpos : 0 < d) (h : r.next = .ok (some (.close name), s))
    (hd : s.depth = d) : s.opened + 1 = d := by
  obtain ⟨scanner, -, ha⟩ := Reader.scanner_next_of_event h
  cases ha
  change r.opened - 1 + 1 = d
  change r.opened = d at hd
  omega

/-- **A loop inside an element follows a fold if its turns do.**  The part cannot end while the element at depth `d` is
open, so it is always a turn that ends the loop. -/
theorem follows_loop_inside {α β τ : Type} {f : τ → Event → Nat → τ} {turn : Reader.Turn β α} {atEnd : β → α}
    {P : β → τ → Prop} {Q : α → Reader → τ → Prop} {d : Nat} (hpos : 0 < d)
    (hturn : ∀ b e (s t : Reader) m, P b m → d ≤ s.opened → s.next = .ok (some e, t) →
      Reader.Follows f (f m e t.depth) t (Reader.progressed (fun b u m => P b m ∧ d ≤ u.opened) Q) (turn b e t))
    {b : β} {m : τ} (h : P b m) (hd : d ≤ r.opened) : Reader.Follows f m r Q (Reader.loop turn atEnd b r.here).2 := by
  refine Reader.follows_loop (s := r.here) (P := fun b u m => P b m ∧ d ≤ u.opened) ?_ ?_ ⟨h, hd⟩
  · rintro b s t m ⟨-, hs⟩ hend
    have := Reader.opened_of_end hend
    omega
  · rintro b e s t m ⟨hb, hs⟩ hn
    exact hturn b e s t m hb hs hn

end

/-! ## Paragraphs -/

/-- A paragraph is done at its own closing tag and nowhere else, and until then keeps its depth. -/
theorem ParagraphBuilder.step_cases (b : ParagraphBuilder) (e : Event) (depth : Nat) :
    (∃ b', b.step e depth = .more b' ∧ b'.depth = b.depth ∧ ∀ name, e = .close name → depth ≠ b.depth) ∨
      ∃ p name, b.step e depth = .done p ∧ e = .close name ∧ depth = b.depth := by
  have tag_depth (tag : Tag) (opens : Bool) : (b.tag tag opens depth).depth = b.depth := by
    unfold ParagraphBuilder.tag
    split
    · rfl
    · split <;> rfl
  cases e with
  | start tag => exact .inl ⟨_, rfl, tag_depth tag true, nofun⟩
  | empty tag => exact .inl ⟨_, rfl, tag_depth tag false, nofun⟩
  | close name =>
    by_cases hd : depth = b.depth
    · exact .inr ⟨_, name, by rw [step, if_pos hd], rfl, hd⟩
    · refine .inl ?_
      rw [step, if_neg hd]
      split
      · exact ⟨_, rfl, rfl, fun _ _ => hd⟩
      · split
        · exact ⟨_, rfl, rfl, fun _ _ => hd⟩
        · exact ⟨_, rfl, rfl, fun _ _ => hd⟩
  | _ => exact .inl ⟨_, rfl, rfl, nofun⟩

section

variable {r : Reader} {d : Nat}

/-- **The loop of a paragraph follows the fold**, wherever the fold keeps the paragraph. -/
theorem readParagraph_follows (within : ParagraphBuilder → BodyBuilder) (behind : Paragraph → BodyBuilder)
    (hstep : ∀ b e depth, (within b).step e depth =
      match b.step e depth with
      | .more b => within b
      | .done p => behind p)
    (hpos : 0 < d) (hd : d ≤ r.opened) :
    Reader.Follows BodyBuilder.step (within { depth := d }) r (fun p s m => m = behind p ∧ s.opened + 1 = d)
      (readParagraph d r) := by
  refine follows_loop_inside (P := fun b m => m = within b ∧ b.depth = d) hpos ?_ ⟨rfl, rfl⟩ hd
  rintro b e s t m ⟨rfl, hb⟩ hs hn
  rw [hstep, Reader.single]
  refine .here ?_
  rcases b.step_cases e t.depth with ⟨b', hm, hb', hne⟩ | ⟨p, name, hm, rfl, hown⟩
  · rw [hm]
    exact ⟨⟨rfl, hb'.trans hb⟩, le_opened_of_next hs hn fun name he => hb ▸ hne name he⟩
  · rw [hm]
    exact ⟨rfl, opened_of_ownClose hpos hn (hown.trans hb)⟩

/-! ## Tables -/

/-- A table is done at its own closing tag and at no other, and until then keeps its depth. -/
theorem TableBuilder.close_cases (b : TableBuilder) (depth : Nat) :
    (∃ b', b.close depth = .more b' ∧ b'.depth = b.depth ∧ depth ≠ b.depth) ∨
      ∃ t, b.close depth = .done t ∧ depth = b.depth := by
  unfold close
  split
  · exact .inr ⟨_, rfl, ‹_›⟩
  · refine .inl ?_
    split
    · split <;> exact ⟨_, rfl, rfl, ‹_›⟩
    · split
      · split <;> exact ⟨_, rfl, rfl, ‹_›⟩
      · exact ⟨_, rfl, rfl, ‹_›⟩

theorem TableBuilder.empty_depth (b : TableBuilder) (tag : Tag) (depth : Nat) : (b.empty tag depth).depth = b.depth := by
  unfold empty
  split
  · rfl
  · split <;> rfl

/-- **The loop of a table follows the fold.** -/
theorem readTable_follows (blocks : Array Block) (bd : Nat) (hpos : 0 < d) (hd : d ≤ r.opened) :
    Reader.Follows BodyBuilder.step ⟨blocks, .table bd { depth := d }⟩ r
      (fun t s m => m = ⟨addTable blocks t, .body bd⟩ ∧ s.opened + 1 = d) (readTable d r) := by
  refine follows_loop_inside (P := fun b m => m = ⟨blocks, .table bd ⟨b, none⟩⟩ ∧ b.depth = d) hpos ?_ ⟨rfl, rfl⟩ hd
  rintro b e s t m ⟨rfl, hb⟩ hs hn
  cases e with
  | start tag =>
    obtain ⟨ht, ho⟩ := opened_of_start hn
    simp only [TableBuilder.turn, BodyBuilder.step, OpenTable.step, OpenTable.start]
    split
    · exact .here ⟨⟨rfl, hb⟩, le_opened_of_next hs hn nofun⟩
    · split
      · exact .here ⟨⟨rfl, hb⟩, le_opened_of_next hs hn nofun⟩
      · split
        · -- the loop of the paragraph takes over
          refine (readParagraph_follows (fun p => ⟨blocks, .table bd ⟨b, some p⟩⟩)
            (fun p => ⟨blocks, .table bd ⟨b.addParagraph p, none⟩⟩) (fun p e depth => ?_) (by omega)
            (Nat.le_of_eq ht)).map _ fun p u m' hq => ⟨⟨hq.1, hb⟩, by omega⟩
          simp only [BodyBuilder.step, OpenTable.step]
          cases p.step e depth <;> rfl
        · exact .here ⟨⟨rfl, hb⟩, le_opened_of_next hs hn nofun⟩
  | empty tag => exact .here ⟨⟨rfl, (b.empty_depth tag t.depth).trans hb⟩, le_opened_of_next hs hn nofun⟩
  | close name =>
    refine .here ?_
    simp only [BodyBuilder.step, OpenTable.step]
    rcases b.close_cases t.depth with ⟨b', hm, hb', hne⟩ | ⟨table, hm, hown⟩
    · rw [hm]
      exact ⟨⟨rfl, hb'.trans hb⟩, le_opened_of_next hs hn fun _ _ => hb ▸ hne⟩
    · rw [hm]
      exact ⟨rfl, opened_of_ownClose hpos hn (hown.trans hb)⟩
  | _ => exact .here ⟨⟨rfl, hb⟩, le_opened_of_next hs hn nofun⟩

/-! ## The body -/

/-- **The loop of the body follows the fold.** -/
theorem readBody_follows (hpos : 0 < d) (hd : d ≤ r.opened) :
    Reader.Follows BodyBuilder.step ⟨#[], .body d⟩ r (fun blocks _ m => m = ⟨blocks, .after⟩) (readBody d r) := by
  refine follows_loop_inside (P := fun blocks m => m = ⟨blocks, .body d⟩) hpos ?_ rfl hd
  rintro blocks e s t m rfl hs hn
  cases e with
  | start tag =>
    obtain ⟨ht, ho⟩ := opened_of_start hn
    simp only [bodyTurn, BodyBuilder.step]
    split
    · refine (readParagraph_follows (fun p => ⟨blocks, .paragraph d p⟩)
        (fun p => ⟨blocks.push (.paragraph p), .body d⟩) (fun p e depth => ?_) (by omega)
        (Nat.le_of_eq ht)).map _ fun p u m' hq => ⟨hq.1, by omega⟩
      simp only [BodyBuilder.step]
    · split
      · exact (readTable_follows blocks d (by omega) (Nat.le_of_eq ht)).map _ fun p u m' hq => ⟨hq.1, by omega⟩
      · exact .here ⟨rfl, le_opened_of_next hs hn nofun⟩
  | empty tag =>
    refine .here ⟨?_, le_opened_of_next hs hn nofun⟩
    simp only [BodyBuilder.step]
    split <;> rfl
  | close name =>
    refine .here ?_
    simp only [BodyBuilder.step]
    split
    · exact rfl
    · exact ⟨rfl, le_opened_of_next hs hn fun _ _ => ‹_›⟩
  | _ => exact .here ⟨rfl, le_opened_of_next hs hn nofun⟩

end

/-- The search for a body ends with the fold behind the body, or without a body at the end of the part. -/
theorem seek_follows (r : Reader) :
    Reader.Follows BodyBuilder.step {} r
      (fun found s m => match found with
        | some blocks => m = ⟨blocks, .after⟩
        | none => m = {} ∧ s.next = .ok (none, s))
      (Reader.loop seekTurn (fun _ => none) () r.here).2 := by
  refine Reader.follows_loop (s := r.here) (P := fun _ _ m => m = {}) ?_ ?_ rfl
  · rintro - s t m rfl hend
    exact ⟨rfl, Reader.next_again hend⟩
  · rintro - e s t m rfl hn
    cases e with
    | start tag =>
      obtain ⟨ht, ho⟩ := opened_of_start hn
      simp only [seekTurn, BodyBuilder.step]
      split
      · exact (readBody_follows (by omega) (Nat.le_of_eq ht)).map _ fun blocks u m' hq => hq
      · exact .here rfl
    | _ => exact .here rfl

/-- **What is read from a document part is a fold over its events**: the loops, the search for the body that stops behind
it, and the check of the rest of the part come to the same blocks or the same fault. -/
theorem Document.ofText_eq (text : String) :
    Document.ofText text = (Xml.parsePart BodyBuilder.step {} text).map fun b => ⟨b.blocks.toList⟩ := by
  have h := seek_follows (Reader.ofText text)
  unfold Document.ofText Xml.parsePart Xml.readPart
  unfold Reader.Follows at h
  split at h
  · rename_i fault hl
    rw [hl, Reader.fold_verdict, h]
    rfl
  · rename_i found s hl
    obtain ⟨m, hf, hq⟩ := h
    rw [hl, hf]
    cases found with
    | none =>
      obtain ⟨rfl, hend⟩ := hq
      rw [Reader.fold_of_end hend]
      rfl
    | some blocks =>
      rw [hq, Reader.fold_fixed (a := (⟨blocks, .after⟩ : BodyBuilder)) fun _ _ => rfl]
      dsimp only
      cases s.1.finish <;> rfl

end OfficePreview.Word
