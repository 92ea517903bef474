import OfficePreview.Proofs.Sheet.Grid
/-!
# Operations — what a grid comes to

A grid is made from the empty one by growing and writing in any order, at places and to numbers that are machine words.
Each operation asks for some rows and some columns and keeps the rows equally wide (`Operation.isRectangular_apply`);
writing changes one text and all else changes none (`Operation.textAt_apply`).  So after any operations the grid reaches as
far as the furthest of them asked, and a place in it holds what was written there last (`operations_fill_grid`).

Writing in the row or the column of the largest number asks for one more than a word can say.  The number to grow to is
then zero, the grid stays without the place, and the assignment is out of bounds (`set?_of_top`).
-/
namespace OfficePreview.Sheet.Grid

/-- A change to a grid. -/
inductive Operation
  | set (row column : UInt64) (value : String)
  | ensureRows (count : UInt64)
  | ensureColumns (count : UInt64)
deriving DecidableEq, Repr

variable {g : Grid}

/-! ## One operation -/

namespace Operation

/-- The grid after an operation, if it does not fail. -/
def perform? (g : Grid) : Operation → Option Grid
  | set row column value => g.set? row column value
  | ensureRows count => some (g.ensureRows count.toNat)
  | ensureColumns count => some (g.ensureColumns count.toNat)

/-- The grid that an operation is to give. -/
def apply (g : Grid) : Operation → Grid
  | set row column value => g.set row.toNat column.toNat value
  | ensureRows count => g.ensureRows count.toNat
  | ensureColumns count => g.ensureColumns count.toNat

/-- The rows that an operation asks for. -/
def rows : Operation → Nat
  | set row _ _ => row.toNat + 1
  | ensureRows count => count.toNat
  | ensureColumns _ => 0

/-- The columns that an operation asks for. -/
def columns : Operation → Nat
  | set _ column _ => column.toNat + 1
  | ensureRows _ => 0
  | ensureColumns count => count.toNat

/-- The numbers of rows and columns that an operation asks for are words. -/
def IsInRange (op : Operation) : Prop := op.rows < UInt64.size ∧ op.columns < UInt64.size

instance (op : Operation) : Decidable op.IsInRange := inferInstanceAs (Decidable (_ ∧ _))

theorem rowCount_apply (g : Grid) (op : Operation) : (op.apply g).rowCount = max g.rowCount op.rows := by
  cases op with
  | set row column value => exact rowCount_set g row.toNat column.toNat value
  | ensureRows count => exact rowCount_ensureRows g count.toNat
  | ensureColumns count => rw [rows, Nat.max_zero]; exact rowCount_ensureColumns g count.toNat

theorem columns_apply (g : Grid) (op : Operation) : (op.apply g).columns = max g.columns op.columns := by
  cases op with
  | set row column value => exact columns_set g row.toNat column.toNat value
  | ensureRows count => rw [columns, Nat.max_zero]; exact columns_ensureRows g count.toNat
  | ensureColumns count => exact columns_ensureColumns g count.toNat

theorem isRectangular_apply (hg : g.isRectangular = true) (op : Operation) : (op.apply g).isRectangular = true := by
  cases op with
  | set row column value => exact isRectangular_set hg row.toNat column.toNat value
  | ensureRows count => exact isRectangular_ensureRows hg count.toNat
  | ensureColumns count => exact isRectangular_ensureColumns hg count.toNat

/-- **An operation that does not write at a place** leaves the text there as it is. -/
theorem textAt_apply (hg : g.isRectangular = true) {op : Operation} {i j : UInt64} (h : ∀ value, op ≠ set i j value) :
    (op.apply g).textAt i.toNat j.toNat = g.textAt i.toNat j.toNat := by
  cases op with
  | set row column value =>
    have hplace : ¬ (i.toNat = row.toNat ∧ j.toNat = column.toNat) := by
      rintro ⟨hi, hj⟩
      rw [UInt64.toNat_inj] at hi hj
      exact h value (by rw [hi, hj])
    rw [apply, textAt_set hg, if_neg hplace]
  | ensureRows count => exact textAt_ensureRows g count.toNat i.toNat j.toNat
  | ensureColumns count => exact textAt_ensureColumns g count.toNat i.toNat j.toNat

end Operation

/-! ## Words -/

/-- The numbers of rows and columns of a grid are words. -/
def IsInRange (g : Grid) : Prop := g.rowCount < UInt64.size ∧ g.columns < UInt64.size

theorem toNat_succ (n : UInt64) : (n + 1).toNat = if n.toNat + 1 < UInt64.size then n.toNat + 1 else 0 := by
  have hn := n.toNat_lt
  have hone : (1 : UInt64).toNat = 1 := rfl
  rw [UInt64.toNat_add, hone]
  unfold UInt64.size
  split <;> omega

/-- **Below the largest numbers a text is written as without words.** -/
theorem set?_of_lt (hg : g.isRectangular = true) {row column : UInt64} (hrow : row.toNat + 1 < UInt64.size)
    (hcolumn : column.toNat + 1 < UInt64.size) (value : String) :
    g.set? row column value = some (g.set row.toNat column.toNat value) := by
  have hinside : ((g.grownTo row.toNat column.toNat).get? row.toNat column.toNat).isSome = true := by
    have hrect := isRectangular_grownTo hg row.toNat column.toNat
    rw [get?_of_lt hrect (by rw [rowCount_grownTo]; omega) (by rw [columns_grownTo]; omega)]
    rfl
  unfold set?
  rw [toNat_succ, toNat_succ, if_pos hrow, if_pos hcolumn]
  exact if_pos hinside

/-- **In the row or the column of the largest number nothing can be written.** -/
theorem set?_of_top (hg : g.isRectangular = true) (hwords : g.IsInRange) {row column : UInt64}
    (htop : ¬ (row.toNat + 1 < UInt64.size ∧ column.toNat + 1 < UInt64.size)) (value : String) :
    g.set? row column value = none := by
  obtain ⟨hrows, hcolumns⟩ := hwords
  have hrect : ((g.ensureColumns (column + 1).toNat).ensureRows (row + 1).toNat).isRectangular = true :=
    isRectangular_ensureRows (isRectangular_ensureColumns hg _) _
  have houtside : ((g.ensureColumns (column + 1).toNat).ensureRows (row + 1).toNat).get? row.toNat column.toNat = none := by
    rw [get?_eq_none_iff hrect, rowCount_ensureRows, rowCount_ensureColumns, columns_ensureRows, columns_ensureColumns,
      toNat_succ, toNat_succ]
    split <;> split <;> omega
  unfold set?
  dsimp only
  rw [houtside]
  rfl

theorem Operation.perform?_of_inRange (hg : g.isRectangular = true) {op : Operation} (h : op.IsInRange) :
    op.perform? g = some (op.apply g) := by
  cases op with
  | set row column value => exact set?_of_lt hg h.1 h.2 value
  | ensureRows count => rfl
  | ensureColumns count => rfl

theorem Operation.perform?_of_not_inRange (hg : g.isRectangular = true) (hwords : g.IsInRange) {op : Operation}
    (h : ¬ op.IsInRange) : op.perform? g = none := by
  cases op with
  | set row column value => exact set?_of_top hg hwords h value
  | ensureRows count => exact absurd ⟨count.toNat_lt, Nat.two_pow_pos 64⟩ h
  | ensureColumns count => exact absurd ⟨Nat.two_pow_pos 64, count.toNat_lt⟩ h

/-- Only writing can be out of range, and only in the row or the column of the largest number. -/
theorem Operation.not_isInRange_iff {op : Operation} : ¬ op.IsInRange ↔ ∃ row column value,
    op = set row column value ∧ (row.toNat + 1 = UInt64.size ∨ column.toNat + 1 = UInt64.size) := by
  cases op with
  | set row column value =>
    have hrow := row.toNat_lt_size
    have hcolumn := column.toNat_lt_size
    simp only [IsInRange, rows, columns, set.injEq]
    constructor
    · exact fun h => ⟨row, column, value, ⟨rfl, rfl, rfl⟩, by omega⟩
    · rintro ⟨_, _, _, ⟨rfl, rfl, rfl⟩, h⟩
      omega
  | ensureRows count => exact iff_of_false (fun h => h ⟨count.toNat_lt, Nat.two_pow_pos 64⟩) (by simp)
  | ensureColumns count => exact iff_of_false (fun h => h ⟨Nat.two_pow_pos 64, count.toNat_lt⟩) (by simp)

theorem Operation.isInRange_apply (hwords : g.IsInRange) {op : Operation} (h : op.IsInRange) : (op.apply g).IsInRange :=
  ⟨by rw [rowCount_apply]; exact Nat.max_lt.2 ⟨hwords.1, h.1⟩, by rw [columns_apply]; exact Nat.max_lt.2 ⟨hwords.2, h.2⟩⟩

/-! ## Operations one after another -/

/-- The grid after some operations, if none of them fails. -/
def run? (g : Grid) (ops : List Operation) : Option Grid := ops.foldlM Operation.perform? g

/-- The grid that some operations are to give. -/
def run (g : Grid) (ops : List Operation) : Grid := ops.foldl Operation.apply g

theorem run_append (g : Grid) (ops later : List Operation) : g.run (ops ++ later) = (g.run ops).run later :=
  List.foldl_append

/-- The largest of some numbers, zero if there are none. -/
def most (counts : List Nat) : Nat := counts.foldr max 0

theorem isRectangular_run : ∀ (ops : List Operation) {g : Grid}, g.isRectangular = true → (g.run ops).isRectangular = true
  | [], _, hg => hg
  | op :: ops, _, hg => isRectangular_run ops (op.isRectangular_apply hg)

theorem rowCount_run : ∀ (ops : List Operation) (g : Grid),
    (g.run ops).rowCount = max g.rowCount (most (ops.map Operation.rows))
  | [], g => (Nat.max_zero g.rowCount).symm
  | op :: ops, g => by
    have h := rowCount_run ops (op.apply g)
    rw [Operation.rowCount_apply, Nat.max_assoc] at h
    exact h

theorem columns_run : ∀ (ops : List Operation) (g : Grid),
    (g.run ops).columns = max g.columns (most (ops.map Operation.columns))
  | [], g => (Nat.max_zero g.columns).symm
  | op :: ops, g => by
    have h := columns_run ops (op.apply g)
    rw [Operation.columns_apply, Nat.max_assoc] at h
    exact h

/-- **Operations fail exactly if one of them is out of range**, and otherwise give the grid they are to give. -/
theorem run?_eq : ∀ (ops : List Operation) {g : Grid}, g.isRectangular = true → g.IsInRange →
    g.run? ops = if ∀ op ∈ ops, op.IsInRange then some (g.run ops) else none
  | [], _, _, _ => rfl
  | op :: ops, g, hg, hwords => by
    rw [run?, List.foldlM_cons]
    by_cases hop : op.IsInRange
    · have ih := run?_eq ops (op.isRectangular_apply hg) (op.isInRange_apply hwords hop)
      rw [Operation.perform?_of_inRange hg hop, Option.bind_eq_bind, Option.bind_some]
      simp only [List.forall_mem_cons, hop, true_and]
      exact ih
    · rw [Operation.perform?_of_not_inRange hg hwords hop]
      simp [hop]

/-- **Operations that do not write at a place** leave the text there as it is. -/
theorem textAt_run {i j : UInt64} : ∀ (ops : List Operation) {g : Grid}, g.isRectangular = true →
    (∀ value, .set i j value ∉ ops) → (g.run ops).textAt i.toNat j.toNat = g.textAt i.toNat j.toNat
  | [], _, _, _ => rfl
  | op :: ops, g, hg, h => by
    have hop : ∀ value, op ≠ .set i j value := by
      rintro value rfl
      exact h value List.mem_cons_self
    have hrest := textAt_run ops (op.isRectangular_apply hg) fun value hv => h value (List.mem_cons_of_mem op hv)
    exact hrest.trans (Operation.textAt_apply hg hop)

/-- A place that was written to holds the last text written there. -/
theorem get?_run_of_last (before after : List Operation) {i j : UInt64} {value : String}
    (last : ∀ other, .set i j other ∉ after) :
    (run {} (before ++ .set i j value :: after)).get? i.toNat j.toNat = some value := by
  have hbefore := isRectangular_run before isRectangular_empty
  have hset := isRectangular_set hbefore i.toNat j.toNat value
  have hrun : run {} (before ++ .set i j value :: after) = ((run {} before).set i.toNat j.toNat value).run after :=
    run_append {} before _
  have hrows := rowCount_run after ((run {} before).set i.toNat j.toNat value)
  have hcolumns := columns_run after ((run {} before).set i.toNat j.toNat value)
  rw [rowCount_set] at hrows
  rw [columns_set] at hcolumns
  rw [hrun, get?_of_lt (isRectangular_run after hset) (by omega) (by omega), textAt_run after hset last, textAt_set hbefore,
    if_pos ⟨rfl, rfl⟩]

/-- **Operations fill a grid**, from the empty one and in any order.  They fail exactly if one of them writes in the row or
the column of the largest number, wherever the grid stands by then.  Otherwise the rows are equally wide; the grid has the
rows and the columns that the furthest of the operations asked for; wherever the next one writes below the largest
numbers, the place is there by then, and the writing is an assignment within bounds.  A place holds the text that was
written there last; inside the grid it holds the empty text if there is none, and outside the grid, and only there,
nothing. -/
theorem operations_fill_grid (ops : List Operation) :
    (run? {} ops = none ↔ ∃ row column value, .set row column value ∈ ops ∧
      (row.toNat + 1 = UInt64.size ∨ column.toNat + 1 = UInt64.size)) ∧
    ∀ g, run? {} ops = some g →
      (∀ row ∈ g.rows, row.size = g.columns) ∧
      g.rowCount = most (ops.map Operation.rows) ∧ g.columns = most (ops.map Operation.columns) ∧
      (∀ row column value, row.toNat + 1 < UInt64.size → column.toNat + 1 < UInt64.size →
        let grown := g.grownTo row.toNat column.toNat
        ∃ (hrow : row.toNat < grown.rows.size) (hcolumn : column.toNat < grown.rows[row.toNat].size),
          g.set? row column value =
            some { rows := grown.rows.set row.toNat (grown.rows[row.toNat].set column.toNat value hcolumn) hrow
                   columns := grown.columns }) ∧
      (∀ before after i j value, ops = before ++ .set i j value :: after → (∀ other, .set i j other ∉ after) →
        g.get? i.toNat j.toNat = some value) ∧
      (∀ i j : UInt64, (∀ value, .set i j value ∉ ops) → i.toNat < g.rowCount → j.toNat < g.columns →
        g.get? i.toNat j.toNat = some "") ∧
      ∀ i j : UInt64, g.get? i.toNat j.toNat = none ↔ ¬ (i.toNat < g.rowCount ∧ j.toNat < g.columns) := by
  have hrun := run?_eq ops isRectangular_empty ⟨by decide, by decide⟩
  refine ⟨?_, fun g hg => ?_⟩
  · rw [hrun, ite_eq_right_iff]
    simp only [reduceCtorEq, imp_false, Classical.not_forall, exists_prop, Operation.not_isInRange_iff]
    constructor
    · rintro ⟨op, hop, row, column, value, rfl, htop⟩
      exact ⟨row, column, value, hop, htop⟩
    · rintro ⟨row, column, value, hop, htop⟩
      exact ⟨_, hop, row, column, value, rfl, htop⟩
  · obtain ⟨-, rfl⟩ : (∀ op ∈ ops, op.IsInRange) ∧ run {} ops = g := by
      rw [hrun] at hg
      split at hg
      · exact ⟨‹_›, Option.some.inj hg⟩
      · cases hg
    have hgrid := isRectangular_run ops isRectangular_empty
    have hrows := rowCount_run ops {}
    have hcolumns := columns_run ops {}
    refine ⟨isRectangular_iff.1 hgrid, ?_, ?_, ?_, ?_, ?_, fun i j => get?_eq_none_iff hgrid i.toNat j.toNat⟩
    · rw [hrows]
      exact Nat.zero_max _
    · rw [hcolumns]
      exact Nat.zero_max _
    · intro row column value hrow hcolumn
      obtain ⟨hr, hc, hset⟩ := exists_set_eq hgrid row.toNat column.toNat value
      exact ⟨hr, hc, (set?_of_lt hgrid hrow hcolumn value).trans (congrArg some hset)⟩
    · rintro before after i j value rfl last
      exact get?_run_of_last before after last
    · intro i j none hi hj
      rw [get?_of_lt hgrid hi hj, textAt_run ops isRectangular_empty none]
      rfl

/-- A grid that is widened before it has a row, written to twice at one place, and then widened and lengthened again. -/
def widenedTwice : List Operation :=
  [.ensureColumns 2, .set 1 0 "a", .ensureRows 4, .set 1 0 "b", .set 0 4 "c", .ensureColumns 3]

theorem operations_fill_grid_widenedTwice : ∃ g, run? {} widenedTwice = some g ∧ g.rowCount = 4 ∧ g.columns = 5 ∧
    g.get? 1 0 = some "b" ∧ g.get? 3 4 = some "" ∧ g.get? 4 0 = none := by
  have runs : run? {} widenedTwice ≠ none := by decide +kernel
  obtain ⟨-, fills⟩ := operations_fill_grid widenedTwice
  obtain ⟨g, hg⟩ := Option.ne_none_iff_exists'.1 runs
  obtain ⟨-, rows, columns, -, last, empty, outside⟩ := fills g hg
  have height : g.rowCount = 4 := rows
  have width : g.columns = 5 := columns
  refine ⟨g, hg, height, width, ?_, ?_, ?_⟩
  · exact last [.ensureColumns 2, .set 1 0 "a", .ensureRows 4] [.set 0 4 "c", .ensureColumns 3] 1 0 "b" rfl (by simp)
  · exact empty 3 4 (by simp [widenedTwice]) (by rw [height]; decide) (by rw [width]; decide)
  · exact (outside 4 0).2 fun h => absurd (height ▸ h.1 : (4 : UInt64).toNat < 4) (by decide)

/-- **Writing can fail**: the empty grid cannot take a text in the column, or in the row, of the largest number. -/
theorem largest_column_out_of_bounds :
    run? {} [.set 0 18446744073709551615 "x"] = none ∧ run? {} [.set 18446744073709551615 0 "x"] = none := by
  decide +kernel

end OfficePreview.Sheet.Grid
