import OfficePreview.Proofs.Sheet.Area
/-!
# LeftOut — what is left out of a sheet, and what is told of it

A row asks for room in the grid where it starts, a cell where it ends (`Demand`), and the grid has grown by then to what
was granted before (`Extent`).  So every row and every cell has one verdict (`verdictsOf`): it is taken in, or it is left
out for its reference or for want of area, or it is a cell whose number stands for no shared text.

For every cell with a verdict against it there is one warning, in the order of the document, and there are no others
(`warnings_tell_verdicts`).  A row that is left out is not told of (`row_left_out_untold`).
-/
namespace OfficePreview.Sheet

open Xml (Event Tag Forest Leaf Describes IsWellFormed)

/-! ## The value of a cell -/

def opensValue : Event → Bool
  | .start tag => tag.isLocal "v"
  | _ => false

def closesValue : Event → Bool
  | .close name => Xml.localName name = "v"
  | _ => false

/-- The character data of events, one after another. -/
def dataOf (es : List Event) : String := String.join (es.filterMap Event.data?)

/-- The character data from the first start tag of a value up to the next closing tag of one. -/
def valueIn (es : List Event) : String := dataOf ((es.dropWhile fun e => !opensValue e).takeWhile fun e => !closesValue e)

/-! ## Demands and verdicts -/

/-- The rows and columns that a grid has come to have. -/
structure Extent where
  rows : Nat := 0
  columns : Nat := 0
deriving DecidableEq, Repr

namespace Extent

/-- Grown to so many rows and columns, the grid would be larger than the largest area.  A grid without columns counts as one
column wide. -/
def Exceeds (e : Extent) (rows columns : Nat) : Prop := maxArea < max e.rows rows * max (max e.columns columns) 1

instance (e : Extent) (rows columns : Nat) : Decidable (e.Exceeds rows columns) := inferInstanceAs (Decidable (_ < _))

def grow (e : Extent) (rows columns : Nat) : Extent :=
  if e.Exceeds rows columns then e else ⟨max e.rows rows, max e.columns columns⟩

end Extent

/-- What asks for room in a grid: a row where it starts, and a cell where it ends, with its position if it has one. -/
inductive Demand
  | row (index : Nat)
  | cell (tag : Tag) (content : Forest) (position : Option Position)
deriving DecidableEq, Repr

/-- What becomes of a row or a cell. -/
inductive Verdict
  | taken
  | rowBeyond (index : Nat)
  | cellBeyond (position : Position)
  | unreadable (reference : String)
  | unmatched (value : String)
deriving DecidableEq, Repr

/-- The warning that tells of a verdict. -/
def Verdict.warning? (part : String) : Verdict → Option Warning
  | .taken => none
  | .rowBeyond _ => none
  | .cellBeyond position => some (.beyondArea position)
  | .unreadable reference => some (.badReference part reference)
  | .unmatched value => some (.noSharedString value)

namespace Demand

def verdict (shared : SharedStrings) (e : Extent) : Demand → Verdict
  | row index => if e.Exceeds (index + 1) 0 then .rowBeyond index else .taken
  | cell tag _ none => .unreadable ((tag.attribute? "r").getD "")
  | cell tag content (some position) =>
    if e.Exceeds (position.row + 1) (position.column + 1) then .cellBeyond position
    else if Source.ofType (tag.attribute? "t") = .shared ∧
        (sharedIndex? (valueIn content.tokens)).bind shared.get? = none then .unmatched (valueIn content.tokens)
    else .taken

/-- The extent of the grid after a demand. -/
def after (e : Extent) : Demand → Extent
  | row index => e.grow (index + 1) 0
  | cell _ _ none => e
  | cell _ _ (some position) => e.grow (position.row + 1) (position.column + 1)

end Demand

/-- The verdicts on demands that a grid of some extent meets one after another. -/
def verdicts (shared : SharedStrings) : Extent → List Demand → List Verdict
  | _, [] => []
  | e, d :: ds => d.verdict shared e :: verdicts shared (d.after e) ds

/-- What the start tag of an element asks for behind the rows and cells `earlier`, the last one first. -/
def demandsAtStart (earlier : List Landmark) (tag : Tag) : List Demand :=
  if tag.isLocal "row" then [.row (rowIndex tag (lastRow? earlier))] else []

/-- What an element asks for at its end. -/
def demandsAtEnd (earlier : List Landmark) (tag : Tag) (content : Forest) : List Demand :=
  if tag.isLocal "row" then []
  else if tag.isLocal "c" then [.cell tag content (position? tag ((lastRow? earlier).getD 0) (columnAfter earlier))]
  else []

/-- The demands of a forest behind the rows and cells `earlier`, the last one first. -/
def demandsOf : (earlier : List Landmark) → Forest → List Demand
  | _, .nil => []
  | earlier, .element tag children rest =>
    demandsAtStart earlier tag ++ (demandsOf ((landmarkOf tag children).reverse ++ earlier) children ++
      (demandsAtEnd earlier tag children ++
        demandsOf ((landmarks children).reverse ++ ((landmarkOf tag children).reverse ++ earlier)) rest))
  | earlier, .empty tag rest =>
    demandsAtStart earlier tag ++
      (demandsAtEnd earlier tag .nil ++ demandsOf ((landmarkOf tag .nil).reverse ++ earlier) rest)
  | earlier, .leaf _ rest => demandsOf earlier rest

/-- **What becomes of the rows and cells of a sheet**, one verdict for each of them. -/
def verdictsOf (shared : SharedStrings) (forest : Forest) : List Verdict := verdicts shared {} (demandsOf [] forest)

/-- An element that, being a cell, holds no cell. -/
def HoldsNoCell (tag : Tag) (content : Forest) : Prop :=
  tag.isLocal "c" = true → ∀ inner ∈ content.tags, inner.isLocal "c" = false

instance (tag : Tag) (content : Forest) : Decidable (HoldsNoCell tag content) := inferInstanceAs (Decidable (_ → _))

theorem length_verdicts (shared : SharedStrings) : ∀ (ds : List Demand) (e : Extent),
    (verdicts shared e ds).length = ds.length
  | [], _ => rfl
  | d :: ds, e => by rw [verdicts, List.length_cons, length_verdicts shared ds, List.length_cons]

theorem verdicts_append (shared : SharedStrings) : ∀ (ds ds' : List Demand) (e : Extent),
    verdicts shared e (ds ++ ds') = verdicts shared e ds ++ verdicts shared (ds.foldl Demand.after e) ds'
  | [], _, _ => rfl
  | d :: ds, ds', e => by
    rw [List.cons_append, verdicts, verdicts_append shared ds, verdicts, List.foldl_cons, List.cons_append]

/-- The warnings that tell of the verdicts on demands. -/
def told (part : String) (shared : SharedStrings) (e : Extent) (ds : List Demand) : List Warning :=
  (verdicts shared e ds).filterMap (Verdict.warning? part)

theorem told_append (part : String) (shared : SharedStrings) (e : Extent) (ds ds' : List Demand) :
    told part shared e (ds ++ ds') = told part shared e ds ++ told part shared (ds.foldl Demand.after e) ds' := by
  rw [told, verdicts_append, List.filterMap_append]
  rfl

theorem told_demandsAtStart (part : String) (shared : SharedStrings) (e : Extent) (earlier : List Landmark) (tag : Tag) :
    told part shared e (demandsAtStart earlier tag) = [] := by
  unfold demandsAtStart
  split
  · rw [told, verdicts, verdicts, Demand.verdict]
    split <;> rfl
  · rfl

theorem demandsAtEnd_of_not_cell {tag : Tag} (h : tag.isLocal "c" = false) (earlier : List Landmark) (content : Forest) :
    demandsAtEnd earlier tag content = [] := by
  unfold demandsAtEnd
  rw [h]
  split <;> rfl

theorem isLocal_row_of_cell {tag : Tag} (hc : tag.isLocal "c" = true) : tag.isLocal "row" = false := by
  simp only [Tag.isLocal, decide_eq_true_eq] at hc
  simp [Tag.isLocal, hc]

theorem demandsAtStart_of_cell {tag : Tag} (hc : tag.isLocal "c" = true) (earlier : List Landmark) :
    demandsAtStart earlier tag = [] := by
  rw [demandsAtStart, isLocal_row_of_cell hc]
  rfl

theorem demandsAtEnd_of_cell {tag : Tag} (hc : tag.isLocal "c" = true) (earlier : List Landmark) (content : Forest) :
    demandsAtEnd earlier tag content =
      [.cell tag content (position? tag ((lastRow? earlier).getD 0) (columnAfter earlier))] := by
  rw [demandsAtEnd, isLocal_row_of_cell hc, hc]
  rfl

theorem landmarkOf_of_cell {tag : Tag} (hc : tag.isLocal "c" = true) (content : Forest) :
    landmarkOf tag content = [.cell tag content] := by
  rw [landmarkOf, isLocal_row_of_cell hc, hc]
  rfl

/-- **Rows are not told of**, whatever becomes of them. -/
theorem told_of_tags (part : String) (shared : SharedStrings) : ∀ (f : Forest) (earlier : List Landmark) (e : Extent),
    (∀ tag ∈ f.tags, tag.isLocal "c" = false) → told part shared e (demandsOf earlier f) = []
  | .nil, _, _, _ => rfl
  | .element tag children rest, earlier, e, h => by
    simp only [Forest.tags, List.mem_cons, List.mem_append] at h
    rw [demandsOf, demandsAtEnd_of_not_cell (h tag (.inl rfl)), told_append, told_append, told_append,
      told_demandsAtStart, told_of_tags part shared children _ _ fun t ht => h t (.inr (.inl ht)),
      told_of_tags part shared rest _ _ fun t ht => h t (.inr (.inr ht))]
    rfl
  | .empty tag rest, earlier, e, h => by
    simp only [Forest.tags, List.mem_cons] at h
    rw [demandsOf, demandsAtEnd_of_not_cell (h tag (.inl rfl)), told_append, told_append, told_demandsAtStart,
      told_of_tags part shared rest _ _ fun t ht => h t (.inr ht)]
    rfl
  | .leaf _ rest, earlier, e, h => told_of_tags part shared rest earlier e h

theorem length_demandsAt (earlier : List Landmark) (tag : Tag) (content : Forest) :
    (demandsAtStart earlier tag).length + (demandsAtEnd earlier tag content).length =
      if tag.isLocal "row" || tag.isLocal "c" then 1 else 0 := by
  unfold demandsAtStart demandsAtEnd
  cases tag.isLocal "row" <;> cases tag.isLocal "c" <;> rfl

/-- Every row and every cell asks once. -/
theorem length_demandsOf : ∀ (f : Forest) (earlier : List Landmark),
    (demandsOf earlier f).length = f.tags.countP fun tag => tag.isLocal "row" || tag.isLocal "c"
  | .nil, _ => rfl
  | .element tag children rest, earlier => by
    have hat := length_demandsAt earlier tag children
    rw [demandsOf, Forest.tags, List.countP_cons, List.countP_append, List.length_append, List.length_append,
      List.length_append, length_demandsOf children, length_demandsOf rest]
    omega
  | .empty tag rest, earlier => by
    have hat := length_demandsAt earlier tag .nil
    rw [demandsOf, Forest.tags, List.countP_cons, List.length_append, List.length_append, length_demandsOf rest]
    omega
  | .leaf _ rest, earlier => length_demandsOf rest earlier

/-! ## The value that is read -/

/-- The value of a cell and whether it is open, after one more event in the cell. -/
def valueStep (s : Option String × Bool) (e : Event) : Option String × Bool :=
  if opensValue e ∧ s.1 = none then (none, true)
  else if s.2 then
    if closesValue e then (some (s.1.getD ""), false)
    else ((e.data?.map (s.1.getD "" ++ ·)).or s.1, true)
  else s

theorem dataOf_cons (e : Event) (es : List Event) : dataOf (e :: es) = e.data?.getD "" ++ dataOf es := by
  unfold dataOf
  cases h : e.data? with
  | none => rw [List.filterMap_cons_none h, Option.getD_none, String.empty_append]
  | some text => rw [List.filterMap_cons_some h, String.join_cons, Option.getD_some]

/-- A start tag holds no data and closes nothing. -/
theorem of_opensValue {e : Event} (h : opensValue e = true) : closesValue e = false ∧ e.data? = none := by
  cases e with
  | start tag => exact ⟨rfl, rfl⟩
  | _ => cases h

/-- Events that are not about a value leave it as it is. -/
theorem valueStep_of_none {e : Event} (hopens : opensValue e = false) (hcloses : closesValue e = false)
    (hdata : e.data? = none) (v : Option String × Bool) : valueStep v e = v := by
  obtain ⟨value, inValue⟩ := v
  cases inValue <;> simp [valueStep, hopens, hcloses, hdata]

/-- A value that has been closed stays as it is. -/
theorem foldl_valueStep_closed (value : String) : ∀ es : List Event,
    es.foldl valueStep (some value, false) = (some value, false)
  | [] => rfl
  | e :: es => by
    have hstep : valueStep (some value, false) e = (some value, false) := by simp [valueStep]
    rw [List.foldl_cons, hstep, foldl_valueStep_closed value es]

/-- A value that is open takes in character data up to the next closing tag. -/
theorem foldl_valueStep_open : ∀ (es : List Event) (value : Option String),
    (es.foldl valueStep (value, true)).1.getD "" = value.getD "" ++ dataOf (es.takeWhile fun e => !closesValue e)
  | [], value => by simp [dataOf]
  | e :: es, value => by
    rw [List.foldl_cons, List.takeWhile_cons]
    by_cases hopens : opensValue e = true ∧ value = none
    · obtain ⟨hcloses, hdata⟩ := of_opensValue hopens.1
      have hstep : valueStep (value, true) e = (none, true) := by rw [valueStep, if_pos hopens]
      rw [hstep, foldl_valueStep_open es, hcloses, hopens.2]
      simp [dataOf_cons, hdata]
    · cases hcloses : closesValue e with
      | true =>
        have hstep : valueStep (value, true) e = (some (value.getD ""), false) := by simp [valueStep, hopens, hcloses]
        rw [hstep, foldl_valueStep_closed]
        simp [dataOf]
      | false =>
        have hstep : valueStep (value, true) e = ((e.data?.map (value.getD "" ++ ·)).or value, true) := by
          simp [valueStep, hopens, hcloses]
        rw [hstep, foldl_valueStep_open es]
        cases hdata : e.data? <;> simp [dataOf_cons, hdata, String.append_assoc]

/-- **The events of a cell leave the value that is in them.** -/
theorem foldl_valueStep : ∀ es : List Event, (es.foldl valueStep (none, false)).1.getD "" = valueIn es
  | [] => rfl
  | e :: es => by
    rw [List.foldl_cons, valueIn, List.dropWhile_cons]
    cases hopens : opensValue e with
    | true =>
      obtain ⟨hcloses, hdata⟩ := of_opensValue hopens
      have hstep : valueStep (none, false) e = (none, true) := by simp [valueStep, hopens]
      rw [hstep, foldl_valueStep_open]
      simp [hcloses, dataOf_cons, hdata]
    | false =>
      have hstep : valueStep (none, false) e = (none, false) := by simp [valueStep, hopens]
      rw [hstep, foldl_valueStep es]
      simp [valueIn]

namespace GridBuilder

variable {part : String} {shared : SharedStrings} {b s : GridBuilder} {earlier : List Landmark} {extent : Extent}
  {warnings : List Warning}

/-! ## Builders between demands -/

/-- A builder has passed the rows and cells `earlier`, the last one first; its grid has come to `extent`, and it has raised
`warnings`, the last one first. -/
structure Stands (b : GridBuilder) (earlier : List Landmark) (extent : Extent) (warnings : List Warning) : Prop where
  row_eq : b.row = lastRow? earlier
  nextColumn_eq : b.nextColumn = columnAfter earlier
  rowCount_eq : b.grid.rowCount = extent.rows
  columns_eq : b.grid.columns = extent.columns
  warnings_eq : b.warnings = warnings

namespace Stands

theorem empty : Stands {} [] {} [] := ⟨rfl, rfl, rfl, rfl, rfl⟩

theorem fits_iff (h : b.Stands earlier extent warnings) (rows columns : Nat) :
    b.grid.fits rows columns = true ↔ ¬ extent.Exceeds rows columns := by
  rw [Grid.fits_iff, h.rowCount_eq, h.columns_eq, Extent.Exceeds, Nat.not_lt, Nat.max_comm rows, Nat.max_comm columns]

theorem startRow (h : b.Stands earlier extent warnings) (tag : Tag) :
    (b.startRow tag).Stands (.row tag :: earlier) (extent.grow (rowIndex tag (lastRow? earlier) + 1) 0) warnings := by
  rw [startRow_eq, h.row_eq]
  by_cases hfits : extent.Exceeds (rowIndex tag (lastRow? earlier) + 1) 0
  · have hnot := mt (h.fits_iff _ _).1 (not_not_intro hfits)
    rw [Extent.grow, if_pos hfits]
    refine ⟨rfl, rfl, ?_, ?_, h.warnings_eq⟩
    · rw [if_neg hnot, h.rowCount_eq]
    · rw [if_neg hnot, h.columns_eq]
  · have hpos := (h.fits_iff _ _).2 hfits
    rw [Extent.grow, if_neg hfits]
    refine ⟨rfl, rfl, ?_, ?_, h.warnings_eq⟩
    · rw [if_pos hpos, Grid.rowCount_ensureRows, h.rowCount_eq]
    · rw [if_pos hpos, Grid.columns_ensureRows, h.columns_eq, Nat.max_zero]

/-- **A tag that is not that of a cell** asks for what a row asks for, wherever the builder is. -/
theorem tag (h : b.Stands earlier extent warnings) (part : String) (shared : SharedStrings) {tag : Tag}
    (hc : tag.isLocal "c" = false) (content : Forest) (opens : Bool) : (b.tag part shared tag opens).Stands
      ((landmarkOf tag content).reverse ++ earlier) ((demandsAtStart earlier tag).foldl Demand.after extent) warnings := by
  unfold GridBuilder.tag landmarkOf demandsAtStart
  cases hr : tag.isLocal "row" with
  | true => exact h.startRow tag
  | false =>
    simp only [hc, Bool.false_eq_true, if_false]
    cases b.cell with
    | none => exact h
    | some cell =>
      cases opens with
      | false => exact h
      | true =>
        simp only [if_true]
        unfold startInside
        repeat' split
        all_goals exact ⟨h.row_eq, h.nextColumn_eq, h.rowCount_eq, h.columns_eq, h.warnings_eq⟩

theorem close (h : b.Stands earlier extent warnings) {name : String} (hn : Xml.localName name ≠ "c") :
    (b.close shared name).Stands earlier extent warnings := by
  unfold GridBuilder.close
  rw [if_neg hn]
  repeat' split
  all_goals exact ⟨h.row_eq, h.nextColumn_eq, h.rowCount_eq, h.columns_eq, h.warnings_eq⟩

theorem leaf (h : b.Stands earlier extent warnings) (l : Leaf) (depth : Nat) :
    (step part shared b l.event depth).Stands earlier extent warnings := by
  rw [step_leaf]
  split
  · unfold GridBuilder.data
    repeat' split
    all_goals exact ⟨h.row_eq, h.nextColumn_eq, h.rowCount_eq, h.columns_eq, h.warnings_eq⟩
  · exact h

theorem locate_eq (h : b.Stands earlier extent warnings) (part : String) (tag : Tag) :
    (b.locate part tag).1 = position? tag ((lastRow? earlier).getD 0) (columnAfter earlier) := by
  rw [locate_fst, h.row_eq, h.nextColumn_eq]

theorem past (h : b.Stands earlier extent warnings) (part : String) (tag : Tag) (content : Forest) :
    (b.past part tag).Stands (.cell tag content :: earlier) extent ((b.locate part tag).2 ++ warnings) := by
  refine ⟨h.row_eq, ?_, h.rowCount_eq, h.columns_eq, congrArg ((b.locate part tag).2 ++ ·) h.warnings_eq⟩
  rw [columnAfter, ← h.locate_eq part tag, ← h.nextColumn_eq]
  rfl

end Stands

/-! ## Cells that are told of -/

variable {tag : Tag}

theorem locate_snd_none (h : (b.locate part tag).1 = none) :
    (b.locate part tag).2 = [.badReference part ((tag.attribute? "r").getD "")] := by
  unfold locate at h ⊢
  cases hr : tag.attribute? "r" with
  | none => rw [hr] at h; cases h
  | some reference =>
    rw [hr] at h
    cases hp : Position.ofReference? reference with
    | none => simp only [hp, Option.getD_some]
    | some position => simp only [hp] at h; cases h

theorem locate_snd_some {position : Position} (h : (b.locate part tag).1 = some position) :
    (b.locate part tag).2 = [] := by
  unfold locate at h ⊢
  cases hr : tag.attribute? "r" with
  | none => rfl
  | some reference =>
    rw [hr] at h
    cases hp : Position.ofReference? reference with
    | none => simp only [hp] at h; cases h
    | some position => simp only [hp]

/-- **A cell with a position is placed**, or it is told of with its verdict. -/
theorem Stands.place (h : s.Stands earlier extent warnings) (part : String) (content : Forest) {c : OpenCell}
    {position : Position} (hposition : c.position = some position) (hsource : c.source = .ofType (tag.attribute? "t"))
    (hvalue : c.value.getD "" = valueIn content.tokens) :
    (s.place shared c).Stands earlier (extent.grow (position.row + 1) (position.column + 1))
      ((told part shared extent [.cell tag content (some position)]).reverse ++ warnings) := by
  rw [GridBuilder.place, hposition, told, verdicts, verdicts, Demand.verdict, Extent.grow]
  dsimp only
  by_cases hfits : extent.Exceeds (position.row + 1) (position.column + 1)
  · have hnot := mt (h.fits_iff _ _).1 (not_not_intro hfits)
    rw [if_pos hfits, if_pos hfits, if_neg hnot]
    exact ⟨h.row_eq, h.nextColumn_eq, h.rowCount_eq, h.columns_eq, congrArg (_ :: ·) h.warnings_eq⟩
  · rw [if_neg hfits, if_neg hfits, if_pos ((h.fits_iff _ _).2 hfits)]
    refine ⟨h.row_eq, h.nextColumn_eq, ?_, ?_, ?_⟩
    · rw [Grid.rowCount_set, h.rowCount_eq]
    · rw [Grid.columns_set, h.columns_eq]
    · dsimp only
      rw [h.warnings_eq, OpenCell.display, hsource, hvalue]
      cases Source.ofType (tag.attribute? "t") with
      | inPlace => rfl
      | value => rfl
      | shared =>
        cases hget : (sharedIndex? (valueIn content.tokens)).bind shared.get? <;> simp [hget, Verdict.warning?]

/-- **A cell is told of at most once**: where it starts if it has no position, and else where it ends. -/
theorem Stands.settle (part : String) (h : s.Stands earlier extent ((b.locate part tag).2 ++ warnings)) (content : Forest)
    {c : OpenCell} (hposition : c.position = (b.locate part tag).1) (hsource : c.source = .ofType (tag.attribute? "t"))
    (hvalue : c.value.getD "" = valueIn content.tokens) :
    (s.place shared c).Stands earlier ((Demand.cell tag content (b.locate part tag).1).after extent)
      ((told part shared extent [.cell tag content (b.locate part tag).1]).reverse ++ warnings) := by
  cases hlocate : (b.locate part tag).1 with
  | none =>
    rw [locate_snd_none hlocate] at h
    rw [GridBuilder.place, hposition, hlocate]
    exact h
  | some position =>
    rw [locate_snd_some hlocate] at h
    exact h.place part content (hposition.trans hlocate) hsource hvalue

/-! ## Cells that are read -/

/-- A builder reads a cell: the cell that is open has the position and the source of `c`, and `v` tells its value and
whether the value is open. -/
def Fills (s : GridBuilder) (c : OpenCell) (v : Option String × Bool) : Prop :=
  ∃ d, s.cell = some d ∧ d.position = c.position ∧ d.source = c.source ∧ (d.value, s.inValue) = v

namespace Fills

variable {c : OpenCell} {v : Option String × Bool}

theorem start (h : s.Fills c v) (hc : tag.isLocal "c" = false) :
    (s.tag part shared tag true).Fills c (valueStep v (.start tag)) := by
  obtain ⟨d, hcell, hposition, hsource, rfl⟩ := h
  cases hv : tag.isLocal "v" with
  | false =>
    have hstart : s.tag part shared tag true = if tag.isLocal "row" then s.startRow tag else s.startInside d tag := by
      simp [GridBuilder.tag, hc, hcell]
    rw [hstart, valueStep_of_none (e := .start tag) hv rfl rfl, startInside, hv]
    simp only [Bool.false_eq_true, if_false, false_and]
    repeat' split
    all_goals exact ⟨d, hcell, hposition, hsource, rfl⟩
  | true =>
    have hname : Xml.localName tag.name = "v" := by simpa [Tag.isLocal] using hv
    have hstart : s.tag part shared tag true = if d.value = none then { s with inValue := true } else s := by
      simp [GridBuilder.tag, startInside, hcell, Tag.isLocal, hname]
    rw [hstart]
    by_cases hvalue : d.value = none
    · rw [if_pos hvalue]
      exact ⟨d, hcell, hposition, hsource, by simp [valueStep, opensValue, hv, hvalue]⟩
    · rw [if_neg hvalue]
      refine ⟨d, hcell, hposition, hsource, ?_⟩
      cases s.inValue <;> simp [valueStep, opensValue, closesValue, hvalue, Event.data?]

theorem empty (h : s.Fills c v) (hc : tag.isLocal "c" = false) :
    (s.tag part shared tag false).Fills c (valueStep v (.empty tag)) := by
  obtain ⟨d, hcell, hposition, hsource, rfl⟩ := h
  rw [valueStep_of_none (e := .empty tag) rfl rfl rfl]
  unfold GridBuilder.tag
  simp only [hc, hcell, Bool.false_eq_true, if_false]
  split
  all_goals exact ⟨d, hcell, hposition, hsource, rfl⟩

theorem close (h : s.Fills c v) {name : String} (hn : Xml.localName name ≠ "c") :
    (s.close shared name).Fills c (valueStep v (.close name)) := by
  obtain ⟨d, hcell, hposition, hsource, rfl⟩ := h
  unfold GridBuilder.close
  rw [if_neg hn]
  by_cases hv : Xml.localName name = "v" ∧ s.inValue = true
  · rw [if_pos hv, hcell]
    exact ⟨_, rfl, hposition, hsource, by simp [valueStep, opensValue, closesValue, hv]⟩
  · rw [if_neg hv]
    have hstep : valueStep (d.value, s.inValue) (.close name) = (d.value, s.inValue) := by
      cases hin : s.inValue <;> simp_all [valueStep, opensValue, closesValue, Event.data?]
    rw [hstep]
    repeat' split
    all_goals exact ⟨d, hcell, hposition, hsource, rfl⟩

theorem leaf (h : s.Fills c v) (l : Leaf) (depth : Nat) :
    (step part shared s l.event depth).Fills c (valueStep v l.event) := by
  obtain ⟨d, hcell, hposition, hsource, rfl⟩ := h
  rw [step_leaf]
  have hopens : opensValue l.event = false := by cases l <;> rfl
  have hcloses : closesValue l.event = false := by cases l <;> rfl
  cases hdata : l.event.data? with
  | none =>
    rw [valueStep_of_none hopens hcloses hdata]
    exact ⟨d, hcell, hposition, hsource, rfl⟩
  | some text =>
    dsimp only
    rw [GridBuilder.data, hcell]
    dsimp only
    cases hin : s.inValue with
    | true => exact ⟨_, rfl, hposition, hsource, by simp [valueStep, hopens, hcloses, hdata]⟩
    | false =>
      rw [if_neg Bool.false_ne_true]
      split
      · exact ⟨_, rfl, hposition, hsource, by simp [valueStep, hopens]⟩
      · exact ⟨d, hcell, hposition, hsource, by simp [valueStep, hopens, hin]⟩

/-- **What is read in a cell** goes to its value and leaves its position and its source alone. -/
theorem run (part : String) (shared : SharedStrings) : ∀ {f : Forest} {s : GridBuilder} {v : Option String × Bool}
    (depth : Nat), s.Fills c v → (∀ inner ∈ f.tags, inner.isLocal "c" = false) →
    (GridBuilder.run part shared s (f.events depth)).Fills c (f.tokens.foldl valueStep v)
  | .nil, _, _, _, h, _ => h
  | .element tag children rest, s, v, depth, h, hf => by
    simp only [Forest.tags, List.mem_cons, List.mem_append] at hf
    have hc := hf tag (.inl rfl)
    rw [run_element, Forest.tokens, List.foldl_cons, List.foldl_append, List.foldl_cons]
    refine run part shared depth (close ?_ (by simpa [Tag.isLocal] using hc)) fun t ht => hf t (.inr (.inr ht))
    exact run part shared (depth + 1) (h.start hc) fun t ht => hf t (.inr (.inl ht))
  | .empty tag rest, s, v, depth, h, hf => by
    simp only [Forest.tags, List.mem_cons] at hf
    rw [run_empty, Forest.tokens, List.foldl_cons]
    exact run part shared depth (h.empty (hf tag (.inl rfl))) fun t ht => hf t (.inr ht)
  | .leaf l rest, s, v, depth, h, hf => by
    rw [Forest.events, run_cons, Forest.tokens, List.foldl_cons]
    exact run part shared depth (h.leaf l depth) hf

end Fills

/-! ## Rows and cells in order -/

theorem tag_of_cell (b : GridBuilder) (part : String) (shared : SharedStrings) (hc : tag.isLocal "c" = true)
    (opens : Bool) : b.tag part shared tag opens = b.startCell part shared tag opens := by
  rw [GridBuilder.tag, isLocal_row_of_cell hc, hc]
  rfl

/-- Trees without cells ask for what their rows ask for, also where they lie in a cell. -/
theorem Stands.run_of_tags (part : String) (shared : SharedStrings) : ∀ {f : Forest} {b : GridBuilder}
    {earlier : List Landmark} {extent : Extent} {warnings : List Warning} (depth : Nat), b.Stands earlier extent warnings →
    (∀ inner ∈ f.tags, inner.isLocal "c" = false) →
    (GridBuilder.run part shared b (f.events depth)).Stands ((landmarks f).reverse ++ earlier)
      ((demandsOf earlier f).foldl Demand.after extent) warnings
  | .nil, _, _, _, _, _, h, _ => h
  | .element tag children rest, b, earlier, extent, warnings, depth, h, hf => by
    simp only [Forest.tags, List.mem_cons, List.mem_append] at hf
    have hc := hf tag (.inl rfl)
    have hchildren := run_of_tags part shared (depth + 1) (h.tag part shared hc children true)
      fun t ht => hf t (.inr (.inl ht))
    rw [run_element, landmarks, demandsOf, demandsAtEnd_of_not_cell hc]
    simp only [List.reverse_append, List.append_assoc, List.foldl_append, List.nil_append]
    exact run_of_tags part shared depth (hchildren.close (by simpa [Tag.isLocal] using hc)) fun t ht => hf t (.inr (.inr ht))
  | .empty tag rest, b, earlier, extent, warnings, depth, h, hf => by
    simp only [Forest.tags, List.mem_cons] at hf
    have hc := hf tag (.inl rfl)
    rw [run_empty, landmarks, demandsOf, demandsAtEnd_of_not_cell hc]
    simp only [List.reverse_append, List.append_assoc, List.foldl_append, List.nil_append]
    exact run_of_tags part shared depth (h.tag part shared hc .nil false) fun t ht => hf t (.inr ht)
  | .leaf l rest, b, earlier, extent, warnings, depth, h, hf => by
    rw [Forest.events, run_cons]
    exact run_of_tags part shared depth (h.leaf l depth) hf

/-- **A cell is read from its start tag to its closing tag**, and it asks once, where it ends. -/
theorem Stands.run_cell (h : b.Stands earlier extent warnings) (part : String) (shared : SharedStrings) (hb : b.IsResting)
    (hc : tag.isLocal "c" = true) {content : Forest}
    (hnone : ∀ inner ∈ content.tags, inner.isLocal "c" = false) (depth : Nat) :
    ((GridBuilder.run part shared (b.tag part shared tag true) (content.events depth)).close shared tag.name).Stands
      ((landmarks content).reverse ++ (.cell tag content :: earlier))
      ((Demand.cell tag content (b.locate part tag).1).after
        ((demandsOf (.cell tag content :: earlier) content).foldl Demand.after extent))
      ((told part shared ((demandsOf (.cell tag content :: earlier) content).foldl Demand.after extent)
        [.cell tag content (b.locate part tag).1]).reverse ++ warnings) := by
  have hpast := h.past part tag content
  have hopened : (b.tag part shared tag true).Stands (.cell tag content :: earlier) extent
      ((b.locate part tag).2 ++ warnings) := by
    rw [tag_of_cell b part shared hc, hb.startCell_eq]
    exact ⟨hpast.row_eq, hpast.nextColumn_eq, hpast.rowCount_eq, hpast.columns_eq, hpast.warnings_eq⟩
  have hfills : (b.tag part shared tag true).Fills (b.opened part tag) (none, false) := by
    rw [tag_of_cell b part shared hc, hb.startCell_eq]
    exact ⟨_, rfl, rfl, rfl, rfl⟩
  obtain ⟨d, hcell, hposition, hsource, hvalue⟩ := hfills.run part shared depth hnone
  have hread : d.value.getD "" = valueIn content.tokens := by
    rw [← foldl_valueStep, ← hvalue]
  have hinner := hopened.run_of_tags part shared depth hnone
  rw [GridBuilder.close, if_pos (by simpa [Tag.isLocal] using hc), hcell]
  refine Stands.settle part ?_ content hposition hsource hread
  exact ⟨hinner.row_eq, hinner.nextColumn_eq, hinner.rowCount_eq, hinner.columns_eq, hinner.warnings_eq⟩

/-- **Rows and cells ask one after another** where no cell holds a cell. -/
theorem Stands.run (part : String) (shared : SharedStrings) : ∀ {f : Forest} {b : GridBuilder}
    {earlier : List Landmark} {extent : Extent} {warnings : List Warning} (depth : Nat), b.IsResting →
    b.Stands earlier extent warnings → f.Every HoldsNoCell →
    (GridBuilder.run part shared b (f.events depth)).Stands ((landmarks f).reverse ++ earlier)
      ((demandsOf earlier f).foldl Demand.after extent)
      ((told part shared extent (demandsOf earlier f)).reverse ++ warnings)
  | .nil, _, _, _, _, _, _, h, _ => h
  | .element tag children rest, b, earlier, extent, warnings, depth, hb, h, hf => by
    obtain ⟨hnone, hchildren, hrest⟩ := hf
    rw [run_element, landmarks, demandsOf]
    simp only [told_append, told_demandsAtStart, List.reverse_append, List.append_assoc, List.foldl_append, List.nil_append]
    cases hc : tag.isLocal "c" with
    | false =>
      have hname : Xml.localName tag.name ≠ "c" := by simpa [Tag.isLocal] using hc
      have hstart : (b.tag part shared tag true).IsResting := hb.tag hc true
      have hread := run part shared (depth + 1) hstart (h.tag part shared hc children true) hchildren
      have hresting : (GridBuilder.run part shared _ (children.events (depth + 1))).IsResting :=
        hstart.run children (depth + 1)
      rw [hresting.close hname, demandsAtEnd_of_not_cell hc]
      exact run part shared depth hresting hread hrest
    | true =>
      have hresting : ((GridBuilder.run part shared (b.tag part shared tag true) (children.events (depth + 1))).close
          shared tag.name).IsResting := isResting_close _ (by simpa [Tag.isLocal] using hc)
      have hread := h.run_cell part shared hb hc (hnone hc) (depth + 1)
      rw [landmarkOf_of_cell hc, demandsAtStart_of_cell hc, demandsAtEnd_of_cell hc, ← h.locate_eq part tag]
      simp only [List.reverse_cons, List.reverse_nil, List.nil_append, List.singleton_append, List.foldl_nil,
        List.foldl_cons, told_of_tags part shared children _ _ (hnone hc)]
      exact run part shared depth hresting hread hrest
  | .empty tag rest, b, earlier, extent, warnings, depth, hb, h, hf => by
    rw [run_empty, landmarks, demandsOf]
    simp only [told_append, told_demandsAtStart, List.reverse_append, List.append_assoc, List.foldl_append, List.nil_append]
    cases hc : tag.isLocal "c" with
    | false =>
      rw [demandsAtEnd_of_not_cell hc]
      exact run part shared depth (hb.tag hc false) (h.tag part shared hc .nil false) hf
    | true =>
      have hread : ((b.past part tag).place shared (b.opened part tag)).Stands _ _ _ :=
        (h.past part tag .nil).settle part .nil rfl rfl rfl
      rw [tag_of_cell b part shared hc, landmarkOf_of_cell hc, demandsAtStart_of_cell hc, demandsAtEnd_of_cell hc,
        ← h.locate_eq part tag]
      exact run part shared depth (hb.emptyCell tag) hread hf
  | .leaf l rest, b, earlier, extent, warnings, depth, hb, h, hf => by
    rw [Forest.events, run_cons, hb.step_leaf]
    exact run part shared depth hb h hf

end GridBuilder

/-! ## What a sheet warns of -/

theorem isSome_warning? (part : String) {verdict : Verdict} (hrow : ∀ index, verdict ≠ .rowBeyond index) :
    (verdict.warning? part).isSome = decide (verdict ≠ .taken) := by
  cases verdict with
  | rowBeyond index => exact absurd rfl (hrow index)
  | _ => rfl

/-- **The warnings of a sheet are those of its verdicts.**  The part describes exactly one forest, and every row and every
cell in it has one verdict.  Where no cell holds a cell, the warnings are those of the verdicts, in the order of the
document: one for each cell that has no position, that would take the grid beyond the largest area or whose number stands
for no shared text, and no others.  So they are as many as the verdicts against rows and cells if no row would take the
grid beyond the largest area. -/
theorem warnings_tell_verdicts (part : String) (shared : SharedStrings) (text : String) (accepted : IsWellFormed text) :
    (∃ forest, Describes text forest ∧ ∀ other, Describes text other → other = forest) ∧
      ∀ forest, Describes text forest →
        (verdictsOf shared forest).length = forest.tags.countP (fun tag => tag.isLocal "row" || tag.isLocal "c") ∧
        (forest.Every HoldsNoCell →
          (Grid.ofText part shared text).warnings = (verdictsOf shared forest).filterMap (Verdict.warning? part) ∧
            ((∀ index, .rowBeyond index ∉ verdictsOf shared forest) →
              (Grid.ofText part shared text).warnings.length = (verdictsOf shared forest).countP (· ≠ .taken))) := by
  refine ⟨Xml.exists_unique_describes accepted, fun forest described => ⟨?_, fun hnone => ?_⟩⟩
  · rw [verdictsOf, length_verdicts, length_demandsOf]
  · have hread := GridBuilder.Stands.empty.run part shared 0 GridBuilder.isResting_empty hnone
    have hwarnings : (Grid.ofText part shared text).warnings =
        (verdictsOf shared forest).filterMap (Verdict.warning? part) := by
      have hback : (GridBuilder.run part shared {} (forest.events 0)).warnings.reverse =
          told part shared {} (demandsOf [] forest) := by
        rw [hread.warnings_eq, List.append_nil, List.reverse_reverse]
      rw [Grid.ofText, described.readAll]
      exact hback
    refine ⟨hwarnings, fun hrow => ?_⟩
    rw [hwarnings, List.length_filterMap_eq_countP]
    refine List.countP_congr fun verdict hmem => ?_
    rw [isSome_warning? part fun index h => hrow index (h ▸ hmem)]

/-- A row with a cell whose reference is none, a cell without a shared text and a cell in the last row and the last
column. -/
def straysText : String :=
  "<s><row r='1'><c r='1A'/><c r='B1' t='s'><v>9</v></c><c r='XFD1048576'/></row></s>"

def straysForest : Forest :=
  .element ⟨"s", []⟩ (.element ⟨"row", [⟨"r", "1"⟩]⟩
    (.empty ⟨"c", [⟨"r", "1A"⟩]⟩
      (.element ⟨"c", [⟨"r", "B1"⟩, ⟨"t", "s"⟩]⟩ (.element ⟨"v", []⟩ (.leaf (.text "9") .nil) .nil)
        (.empty ⟨"c", [⟨"r", "XFD1048576"⟩]⟩ .nil))) .nil) .nil

theorem describes_straysText : Describes straysText straysForest := ⟨by decide +kernel, by decide +kernel⟩

theorem verdictsOf_straysForest : verdictsOf {} straysForest =
    [.taken, .unreadable "1A", .unmatched "9", .cellBeyond ⟨1048575, 16383⟩] := by decide +kernel

theorem warnings_tell_verdicts_strays : (Grid.ofText "sheet" {} straysText).warnings =
    [.badReference "sheet" "1A", .noSharedString "9", .beyondArea ⟨1048575, 16383⟩] ∧
      (Grid.ofText "sheet" {} straysText).warnings.length = (verdictsOf {} straysForest).countP (· ≠ .taken) := by
  obtain ⟨-, tells⟩ := warnings_tell_verdicts "sheet" {} straysText describes_straysText.isWellFormed
  obtain ⟨-, told⟩ := tells straysForest describes_straysText
  obtain ⟨hwarnings, hcount⟩ := told (by decide +kernel)
  have hrow (index : Nat) : .rowBeyond index ∉ verdictsOf {} straysForest := by simp [verdictsOf_straysForest]
  refine ⟨?_, hcount hrow⟩
  rw [hwarnings, verdictsOf_straysForest]
  rfl

/-- A row that leads beyond the largest area of a grid of two columns. -/
def farRowText : String := "<s><row r='1'><c r='B1'/></row><row r='1048576'/></s>"

def farRowForest : Forest :=
  .element ⟨"s", []⟩ (.element ⟨"row", [⟨"r", "1"⟩]⟩ (.empty ⟨"c", [⟨"r", "B1"⟩]⟩ .nil)
    (.empty ⟨"row", [⟨"r", "1048576"⟩]⟩ .nil)) .nil

/-- **A row that is left out is not told of**: what comes before it is taken, and there is no warning at all. -/
theorem row_left_out_untold : IsWellFormed farRowText ∧ Describes farRowText farRowForest ∧
    farRowForest.Every HoldsNoCell ∧ verdictsOf {} farRowForest = [.taken, .taken, .rowBeyond 1048575] ∧
      (Grid.ofText "sheet" {} farRowText).warnings = [] :=
  ⟨by decide +kernel, ⟨by decide +kernel, by decide +kernel⟩, by decide +kernel, by decide +kernel, by decide +kernel⟩

end OfficePreview.Sheet
