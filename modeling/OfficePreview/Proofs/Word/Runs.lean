import OfficePreview.Proofs.Word.Outline
/-!
# Runs — a builder fed with the events inside a run

A builder is fed with the events inside its element and must go on to the last of them (`feed`).  Inside a run three
things can be open at a place: nothing, a text, or the properties of the run.  Each has its lemma, by induction on the
trees at that place; together they give what the children of the run come to (`feed_run`).
-/
namespace OfficePreview.Word

open Xml (Event Tag Forest Leaf Progress)

/-! ## Feeding a builder -/

section Feed

variable {α β γ δ : Type}

/-- A builder after a sequence of events, if it goes on after each of them. -/
def feed (step : β → Event → Nat → Progress β α) (b : β) : List (Event × Nat) → Option β
  | [] => some b
  | (e, depth) :: es =>
    match step b e depth with
    | .more b => feed step b es
    | .done _ => none

theorem feed_cons {step : β → Event → Nat → Progress β α} {b c : β} {e : Event} {depth : Nat}
    (h : step b e depth = .more c) (es : List (Event × Nat)) : feed step b ((e, depth) :: es) = feed step c es := by
  rw [feed, h]

theorem feed_append {step : β → Event → Nat → Progress β α} {b c : β} {xs : List (Event × Nat)}
    (h : feed step b xs = some c) (ys : List (Event × Nat)) : feed step b (xs ++ ys) = feed step c ys := by
  induction xs generalizing b with
  | nil => cases h; rfl
  | cons p xs ih =>
    obtain ⟨e, depth⟩ := p
    rw [List.cons_append, feed]
    rw [feed] at h
    split at h
    · exact ih h
    · cases h

/-- **An element fed to a builder**: its start tag, its children and its closing tag, and then the trees after it. -/
theorem feed_element {step : β → Event → Nat → Progress β α} {b b₁ b₂ b₃ : β} {tag : Tag} {children rest : Forest}
    {depth : Nat} (hs : step b (.start tag) (depth + 1) = .more b₁)
    (hc : feed step b₁ (children.events (depth + 1)) = some b₂)
    (he : step b₂ (.close tag.name) (depth + 1) = .more b₃) :
    feed step b ((Forest.element tag children rest).events depth) = feed step b₃ (rest.events depth) := by
  rw [Forest.events, feed_cons hs, feed_append hc, feed_cons he]

theorem feed_map {step : β → Event → Nat → Progress β α} (step' : γ → Event → Nat → Progress γ δ) (wrap : β → γ)
    {es : List (Event × Nat)} (hw : ∀ p ∈ es, ∀ b c, step b p.1 p.2 = .more c → step' (wrap b) p.1 p.2 = .more (wrap c))
    {b c : β} (h : feed step b es = some c) : feed step' (wrap b) es = some (wrap c) := by
  induction es generalizing b with
  | nil => cases h; rfl
  | cons p es ih =>
    rw [feed] at h
    split at h
    · rename_i b' hb
      rw [feed, hw p List.mem_cons_self b b' hb]
      exact ih (fun q hq => hw q (List.mem_cons_of_mem _ hq)) h
    · cases h

end Feed

/-! ## Names that exclude each other -/

theorem isWord_eq_false {tag : Tag} {a b : String} (h : tag.isWord a = true)
    (hab : Xml.isWord a b = false ∧ Xml.isWord ("w:" ++ a) b = false) : tag.isWord b = false := by
  simp only [Tag.isWord, Xml.isWord, Xml.isNamed, Bool.or_eq_true, beq_iff_eq] at h
  rcases h with h | h
  · rw [Tag.isWord, h]; exact hab.1
  · rw [Tag.isWord, h]; exact hab.2

theorem isBreak_of_isText {tag : Tag} (h : tag.isWord "t" = true) : isBreak tag = false := by
  rw [isBreak, isWord_eq_false h (by decide), isWord_eq_false h (by decide)]
  rfl

/-! ## What is added to a run -/

namespace Run

def extend (r : Run) (text : String) (lineBreak : Bool) : Run :=
  { r with text := r.text ++ text, lineBreak := r.lineBreak || lineBreak }

@[simp] theorem extend_extend (r : Run) (s t : String) (a b : Bool) :
    (r.extend s a).extend t b = r.extend (s ++ t) (a || b) := by
  simp [extend, String.append_assoc, Bool.or_assoc]

@[simp] theorem extend_empty (r : Run) : r.extend "" false = r := by simp [extend]

theorem format_extend (r : Run) (s : String) (a : Bool) (tag : Tag) :
    (r.extend s a).format tag = (r.format tag).extend s a := by
  unfold format
  split
  · rfl
  · split
    · rfl
    · split <;> rfl

theorem foldl_format_extend (tags : List Tag) (r : Run) (s : String) (a : Bool) :
    tags.foldl format (r.extend s a) = (tags.foldl format r).extend s a := by
  induction tags generalizing r with
  | nil => rfl
  | cons tag tags ih => rw [List.foldl_cons, format_extend, ih, List.foldl_cons]

end Run

/-! ## Events inside a run -/

namespace RunBuilder

def step (b : RunBuilder) (e : Event) (depth : Nat) : Progress RunBuilder Run :=
  match e with
  | .start tag => .more (b.tag tag true depth)
  | .empty tag => .more (b.tag tag false depth)
  | .close _ => b.close depth
  | e => .more (b.data e)

theorem step_leaf (b : RunBuilder) (l : Leaf) (depth : Nat) : b.step l.event depth = .more (b.data l.event) := by
  cases l <;> rfl

theorem step_close_inside {b : RunBuilder} (name : String) {depth : Nat} (hd : b.depth < depth)
    (ht : b.text ≠ some depth) (hp : b.properties ≠ some depth) : b.step (.close name) depth = .more b := by
  rw [step, close, if_neg ht, if_neg hp, if_neg (Nat.ne_of_gt hd)]

/-! ### In a text -/

section

variable {r : Run} {rd k depth : Nat}

theorem tag_inText (hd : rd < depth) (tag : Tag) (opens : Bool) :
    RunBuilder.tag ⟨r, rd, none, some k⟩ tag opens (depth + 1) = ⟨r.extend "" (isBreak tag), rd, none, some k⟩ := by
  have hne : ¬ (depth + 1 = rd + 1 ∧ tag.isWord "rPr" = true) := by omega
  unfold RunBuilder.tag
  dsimp only
  rw [if_neg hne]
  split
  · rename_i h
    simp [isBreak_of_isText h]
  · split
    · rename_i h
      simp [Run.extend, isBreak, h]
    · rename_i h
      simp_all [isBreak]

theorem data_inText (l : Leaf) :
    RunBuilder.data ⟨r, rd, none, some k⟩ l.event = ⟨r.extend l.data false, rd, none, some k⟩ := by
  unfold RunBuilder.data Leaf.data
  cases l.event.data? <;> simp [Run.extend]

end

/-- **Inside a text all character data counts**, at any depth. -/
theorem feed_inText (f : Forest) (r : Run) {rd k depth : Nat} (hk : k ≤ depth) (hd : rd < depth) :
    feed step ⟨r, rd, none, some k⟩ (f.events depth) = some ⟨r.extend f.data (hasBreak f), rd, none, some k⟩ := by
  induction f generalizing r depth with
  | nil => simp [Forest.events, feed, Forest.data, hasBreak, Forest.tags]
  | element tag children rest ihc ihr =>
    have hs : step ⟨r, rd, none, some k⟩ (.start tag) (depth + 1) =
        .more ⟨r.extend "" (isBreak tag), rd, none, some k⟩ := by rw [step, tag_inText hd]
    have hc := ihc (r.extend "" (isBreak tag)) (Nat.le_succ_of_le hk) (Nat.lt_succ_of_lt hd)
    have he := step_close_inside (b := ⟨(r.extend "" (isBreak tag)).extend children.data (hasBreak children), rd, none,
      some k⟩) tag.name (Nat.lt_succ_of_lt hd) (by simp; omega) (by simp)
    rw [feed_element hs hc he, ihr _ hk hd]
    simp [Forest.data, hasBreak, Forest.tags, Bool.or_assoc]
  | empty tag rest ihr =>
    have hs : step ⟨r, rd, none, some k⟩ (.empty tag) (depth + 1) =
        .more ⟨r.extend "" (isBreak tag), rd, none, some k⟩ := by rw [step, tag_inText hd]
    rw [Forest.events, feed_cons hs, ihr _ hk hd]
    simp [Forest.data, hasBreak, Forest.tags]
  | leaf l rest ihr =>
    rw [Forest.events, feed_cons (step_leaf _ l depth), data_inText, ihr _ hk hd]
    simp [Forest.data, hasBreak, Forest.tags]

/-! ### In the run, outside texts and properties -/

theorem data_inRun (r : Run) (rd : Nat) (properties : Option Nat) (l : Leaf) :
    RunBuilder.data ⟨r, rd, properties, none⟩ l.event = ⟨r, rd, properties, none⟩ := by
  unfold RunBuilder.data
  cases l.event.data? <;> rfl

theorem tag_inRun (r : Run) {rd depth : Nat} {tag : Tag} (ht : tag.isWord "t" = false)
    (hp : depth = rd → tag.isWord "rPr" = false) (opens : Bool) :
    RunBuilder.tag ⟨r, rd, none, none⟩ tag opens (depth + 1) = ⟨r.extend "" (isBreak tag), rd, none, none⟩ := by
  have hne : ¬ (depth + 1 = rd + 1 ∧ tag.isWord "rPr" = true) := by
    rintro ⟨hd, h⟩
    rw [hp (Nat.succ.inj hd)] at h
    cases h
  unfold RunBuilder.tag
  dsimp only
  rw [if_neg hne, ht, if_neg Bool.false_ne_true]
  split
  · rename_i h
    simp [Run.extend, isBreak, h]
  · rename_i h
    simp_all [isBreak]

theorem tag_text (r : Run) {rd depth : Nat} {tag : Tag} (ht : tag.isWord "t" = true) :
    RunBuilder.tag ⟨r, rd, none, none⟩ tag true (depth + 1) = ⟨r, rd, none, some (depth + 1)⟩ := by
  unfold RunBuilder.tag
  dsimp only
  rw [isWord_eq_false ht (by decide), ht]
  simp

theorem tag_emptyText (r : Run) {rd depth : Nat} {tag : Tag} (ht : tag.isWord "t" = true) :
    RunBuilder.tag ⟨r, rd, none, none⟩ tag false (depth + 1) = ⟨r, rd, none, none⟩ := by
  unfold RunBuilder.tag
  dsimp only
  rw [isWord_eq_false ht (by decide), ht]
  simp

theorem feed_text {tag : Tag} (ht : tag.isWord "t" = true) (children rest : Forest) (r : Run) {rd depth : Nat}
    (hd : rd ≤ depth) :
    feed step ⟨r, rd, none, none⟩ ((Forest.element tag children rest).events depth) =
      feed step ⟨r.extend children.data (hasBreak children), rd, none, none⟩ (rest.events depth) := by
  have hs : step ⟨r, rd, none, none⟩ (.start tag) (depth + 1) = .more ⟨r, rd, none, some (depth + 1)⟩ := by
    rw [step, tag_text r ht]
  have hc := feed_inText children r (k := depth + 1) (Nat.le_refl _) (Nat.lt_succ_of_le hd)
  refine feed_element hs hc ?_
  rw [step, close, if_pos rfl]

/-- **Deeper inside a run every text counts, and every break.** -/
theorem feed_inRun (f : Forest) (r : Run) {rd depth : Nat} (hd : rd < depth) :
    feed step ⟨r, rd, none, none⟩ (f.events depth) = some ⟨r.extend (textOf f) (hasBreak f), rd, none, none⟩ := by
  induction f generalizing r depth with
  | nil => simp [Forest.events, feed, textOf, hasBreak, Forest.tags]
  | element tag children rest ihc ihr =>
    cases ht : tag.isWord "t" with
    | true =>
      rw [feed_text ht children rest r (Nat.le_of_lt hd), ihr _ hd]
      simp [textOf, ht, hasBreak, Forest.tags, isBreak_of_isText ht]
    | false =>
      have hs : step ⟨r, rd, none, none⟩ (.start tag) (depth + 1) =
          .more ⟨r.extend "" (isBreak tag), rd, none, none⟩ := by rw [step, tag_inRun r ht (by omega)]
      have hc := ihc (r.extend "" (isBreak tag)) (Nat.lt_succ_of_lt hd)
      have he := step_close_inside (b := ⟨(r.extend "" (isBreak tag)).extend (textOf children) (hasBreak children), rd,
        none, none⟩) tag.name (Nat.lt_succ_of_lt hd) (by simp) (by simp)
      rw [feed_element hs hc he, ihr _ hd]
      simp [textOf, ht, hasBreak, Forest.tags, Bool.or_assoc]
  | empty tag rest ihr =>
    have hs : step ⟨r, rd, none, none⟩ (.empty tag) (depth + 1) =
        .more ⟨r.extend "" (isBreak tag), rd, none, none⟩ := by
      cases ht : tag.isWord "t" with
      | true => rw [step, tag_emptyText r ht, isBreak_of_isText ht, Run.extend_empty]
      | false => rw [step, tag_inRun r ht (by omega)]
    rw [Forest.events, feed_cons hs, ihr _ hd]
    simp [textOf, hasBreak, Forest.tags]
  | leaf l rest ihr =>
    rw [Forest.events, feed_cons (step_leaf _ l depth), data_inRun, ihr _ hd]
    simp [textOf, hasBreak, Forest.tags]

/-! ### In the properties of the run -/

theorem feed_belowProperties (f : Forest) (r : Run) {rd k depth : Nat} (hd : rd < depth) (hk : k < depth) :
    feed step ⟨r, rd, some k, none⟩ (f.events depth) = some ⟨r, rd, some k, none⟩ := by
  have htag (tag : Tag) (opens : Bool) {depth : Nat} (hk : k < depth) :
      RunBuilder.tag ⟨r, rd, some k, none⟩ tag opens (depth + 1) = ⟨r, rd, some k, none⟩ := by
    unfold RunBuilder.tag
    dsimp only
    rw [if_neg (by omega)]
  induction f generalizing depth with
  | nil => rfl
  | element tag children rest ihc ihr =>
    have hs : step ⟨r, rd, some k, none⟩ (.start tag) (depth + 1) = .more ⟨r, rd, some k, none⟩ := by
      rw [step, htag tag true hk]
    have he := step_close_inside (b := ⟨r, rd, some k, none⟩) tag.name (Nat.lt_succ_of_lt hd) (by simp)
      (by simp; omega)
    rw [feed_element hs (ihc (Nat.lt_succ_of_lt hd) (Nat.lt_succ_of_lt hk)) he, ihr hd hk]
  | empty tag rest ihr =>
    have hs : step ⟨r, rd, some k, none⟩ (.empty tag) (depth + 1) = .more ⟨r, rd, some k, none⟩ := by
      rw [step, htag tag false hk]
    rw [Forest.events, feed_cons hs, ihr hd hk]
  | leaf l rest ihr => rw [Forest.events, feed_cons (step_leaf _ l depth), data_inRun, ihr hd hk]

/-- **The children of the properties give the formats**, one after the other. -/
theorem feed_properties (f : Forest) (r : Run) {rd depth : Nat} (hd : rd < depth) :
    feed step ⟨r, rd, some depth, none⟩ (f.events depth) =
      some ⟨f.rootTags.foldl Run.format r, rd, some depth, none⟩ := by
  have htag (r : Run) (tag : Tag) (opens : Bool) :
      RunBuilder.tag ⟨r, rd, some depth, none⟩ tag opens (depth + 1) = ⟨r.format tag, rd, some depth, none⟩ := by
    unfold RunBuilder.tag
    dsimp only
    rw [if_pos rfl]
  induction f generalizing r with
  | nil => rfl
  | element tag children rest _ ihr =>
    have hs : step ⟨r, rd, some depth, none⟩ (.start tag) (depth + 1) =
        .more ⟨r.format tag, rd, some depth, none⟩ := by rw [step, htag]
    have hc := feed_belowProperties children (r.format tag) (Nat.lt_succ_of_lt hd) (Nat.lt_succ_self depth)
    have he := step_close_inside (b := ⟨r.format tag, rd, some depth, none⟩) tag.name (Nat.lt_succ_of_lt hd)
      (by simp) (by simp)
    rw [feed_element hs hc he, ihr]
    rfl
  | empty tag rest ihr =>
    have hs : step ⟨r, rd, some depth, none⟩ (.empty tag) (depth + 1) =
        .more ⟨r.format tag, rd, some depth, none⟩ := by rw [step, htag]
    rw [Forest.events, feed_cons hs, ihr]
    rfl
  | leaf l rest ihr =>
    rw [Forest.events, feed_cons (step_leaf _ l depth), data_inRun, ihr]
    rfl

/-! ### The children of a run -/

theorem feed_runProperties {tag : Tag} (hp : tag.isWord "rPr" = true) (children rest : Forest) (r : Run) (rd : Nat) :
    feed step ⟨r, rd, none, none⟩ ((Forest.element tag children rest).events rd) =
      feed step ⟨children.rootTags.foldl Run.format r, rd, none, none⟩ (rest.events rd) := by
  have hs : step ⟨r, rd, none, none⟩ (.start tag) (rd + 1) = .more ⟨r, rd, some (rd + 1), none⟩ := by
    rw [step, RunBuilder.tag]
    simp [hp]
  refine feed_element hs (feed_properties children r (Nat.lt_succ_self rd)) ?_
  rw [step, close]
  simp

/-- **The children of a run**: its properties give the formats, and the others its text and its break. -/
theorem feed_run (f : Forest) (r : Run) (rd : Nat) :
    feed step ⟨r, rd, none, none⟩ (f.events rd) =
      some ⟨((propertiesOf f).foldl Run.format r).extend (textOf (withoutProperties f)) (hasBreak (withoutProperties f)),
        rd, none, none⟩ := by
  induction f generalizing r with
  | nil => simp [Forest.events, feed, propertiesOf, withoutProperties, textOf, hasBreak, Forest.tags]
  | element tag children rest _ ihr =>
    cases hp : tag.isWord "rPr" with
    | true =>
      rw [feed_runProperties hp, ihr]
      simp [propertiesOf, withoutProperties, hp]
    | false =>
      cases ht : tag.isWord "t" with
      | true =>
        rw [feed_text ht children rest r (Nat.le_refl rd), ihr]
        simp [propertiesOf, withoutProperties, hp, textOf, ht, hasBreak, Forest.tags, isBreak_of_isText ht,
          Run.foldl_format_extend]
      | false =>
        have hs : step ⟨r, rd, none, none⟩ (.start tag) (rd + 1) =
            .more ⟨r.extend "" (isBreak tag), rd, none, none⟩ := by rw [step, tag_inRun r ht (fun _ => hp)]
        have hc := feed_inRun children (r.extend "" (isBreak tag)) (Nat.lt_succ_self rd)
        have he := step_close_inside (b := ⟨(r.extend "" (isBreak tag)).extend (textOf children) (hasBreak children),
          rd, none, none⟩) tag.name (Nat.lt_succ_self rd) (by simp) (by simp)
        rw [feed_element hs hc he, ihr]
        simp [propertiesOf, withoutProperties, hp, textOf, ht, hasBreak, Forest.tags, Bool.or_assoc,
          Run.foldl_format_extend]
  | empty tag rest ihr =>
    cases hp : tag.isWord "rPr" with
    | true =>
      have hs : step ⟨r, rd, none, none⟩ (.empty tag) (rd + 1) = .more ⟨r, rd, none, none⟩ := by
        rw [step, RunBuilder.tag]
        simp [hp]
      rw [Forest.events, feed_cons hs, ihr]
      simp [propertiesOf, withoutProperties, hp]
    | false =>
      have hs : step ⟨r, rd, none, none⟩ (.empty tag) (rd + 1) =
          .more ⟨r.extend "" (isBreak tag), rd, none, none⟩ := by
        cases ht : tag.isWord "t" with
        | true => rw [step, tag_emptyText r ht, isBreak_of_isText ht, Run.extend_empty]
        | false => rw [step, tag_inRun r ht (fun _ => hp)]
      rw [Forest.events, feed_cons hs, ihr]
      simp [propertiesOf, withoutProperties, hp, textOf, hasBreak, Forest.tags, Run.foldl_format_extend]
  | leaf l rest ihr =>
    rw [Forest.events, feed_cons (step_leaf _ l rd), data_inRun, ihr]
    simp [propertiesOf, withoutProperties, textOf, hasBreak, Forest.tags]

end RunBuilder

/-! ## The formats of a run -/

namespace Run

/-- **The last of the properties with its name gives a format**, for every format that each of its properties sets. -/
theorem foldl_format {get : Run → Bool} {base : String} {value : Tag → Bool}
    (h : ∀ (r : Run) (tag : Tag), get (r.format tag) = if tag.isWord base then value tag else get r) (tags : List Tag)
    (r : Run) : get (tags.foldl format r) = ((tags.filter (·.isWord base)).getLast?.map value).getD (get r) := by
  induction tags generalizing r with
  | nil => rfl
  | cons tag tags ih =>
    rw [List.foldl_cons, ih, h]
    cases hb : tag.isWord base with
    | false => simp [hb]
    | true =>
      simp only [hb, List.filter_cons_of_pos, List.getLast?_cons, if_true]
      cases (tags.filter (·.isWord base)).getLast? <;> rfl

theorem bold_format (r : Run) (tag : Tag) : (r.format tag).bold = if tag.isWord "b" then isOn tag else r.bold := by
  unfold format
  split
  · rfl
  · split
    · rfl
    · split <;> rfl

theorem italic_format (r : Run) (tag : Tag) :
    (r.format tag).italic = if tag.isWord "i" then isOn tag else r.italic := by
  unfold format
  split
  · rename_i h
    rw [isWord_eq_false h (by decide)]
    rfl
  · split
    · rfl
    · split <;> rfl

theorem underline_format (r : Run) (tag : Tag) :
    (r.format tag).underline = if tag.isWord "u" then isUnderlined tag else r.underline := by
  unfold format
  split
  · rename_i h
    rw [isWord_eq_false h (by decide)]
    rfl
  · split
    · rename_i h
      rw [isWord_eq_false h (by decide)]
      rfl
    · split <;> rfl

theorem text_format (r : Run) (tag : Tag) :
    (r.format tag).text = r.text ∧ (r.format tag).lineBreak = r.lineBreak := by
  unfold format
  split
  · exact ⟨rfl, rfl⟩
  · split
    · exact ⟨rfl, rfl⟩
    · split <;> exact ⟨rfl, rfl⟩

theorem text_foldl_format (tags : List Tag) (r : Run) :
    (tags.foldl format r).text = r.text ∧ (tags.foldl format r).lineBreak = r.lineBreak := by
  induction tags generalizing r with
  | nil => exact ⟨rfl, rfl⟩
  | cons tag tags ih =>
    obtain ⟨ht, hb⟩ := ih (r.format tag)
    exact ⟨ht.trans (text_format r tag).1, hb.trans (text_format r tag).2⟩

theorem ofForest_eq (f : Forest) :
    ((propertiesOf f).foldl format {}).extend (textOf (withoutProperties f)) (hasBreak (withoutProperties f)) =
      ofForest f := by
  obtain ⟨ht, hl⟩ := text_foldl_format (propertiesOf f) {}
  rw [extend, ofForest, ht, hl, Run.mk.injEq]
  refine ⟨String.empty_append, ?_, ?_, ?_, Bool.false_or _⟩
  · exact foldl_format bold_format (propertiesOf f) {}
  · exact foldl_format italic_format (propertiesOf f) {}
  · exact foldl_format underline_format (propertiesOf f) {}

end Run

end OfficePreview.Word
