import OfficePreview.Sheet.Grid
/-!
# Grid — a grid as a rectangle and the texts in it

A grid is known by its number of rows, its number of columns and its texts, a place outside counting as the empty text
(`textAt`).  Growing changes the numbers and no text; writing changes one text (`textAt_set`).  All operations keep the
rows equally wide, and in a grid with such rows the places inside are those with a row and a column of the grid
(`get?_of_lt`).
-/
namespace OfficePreview.Sheet

namespace Grid

variable {g : Grid}

/-- The text at a place, which is empty outside the grid. -/
def textAt (g : Grid) (i j : Nat) : String := (g.get? i j).getD ""

theorem isRectangular_iff : g.isRectangular = true ↔ ∀ row ∈ g.rows, row.size = g.columns := by
  simp only [isRectangular, Array.all_eq_true', decide_eq_true_eq]

theorem isRectangular_empty : ({} : Grid).isRectangular = true := by
  simp [isRectangular_iff]

/-- **The places inside a grid hold texts.** -/
theorem get?_of_lt (hg : g.isRectangular = true) {i j : Nat} (hi : i < g.rowCount) (hj : j < g.columns) :
    g.get? i j = some (g.textAt i j) := by
  have hi : i < g.rows.size := hi
  have hrow : g.rows[i].size = g.columns := isRectangular_iff.1 hg _ (Array.getElem_mem hi)
  simp [textAt, get?, Array.getElem?_eq_getElem hi, hrow, hj]

/-- Outside a grid there is no text. -/
theorem get?_eq_none_iff (hg : g.isRectangular = true) (i j : Nat) :
    g.get? i j = none ↔ ¬ (i < g.rowCount ∧ j < g.columns) := by
  by_cases hi : i < g.rows.size
  · have hrow : g.rows[i].size = g.columns := isRectangular_iff.1 hg _ (Array.getElem_mem hi)
    simp [get?, rowCount, hi, hrow]
  · simp [get?, rowCount, hi]

/-! ## Rows -/

theorem rowCount_ensureRows (g : Grid) (count : Nat) : (g.ensureRows count).rowCount = max g.rowCount count := by
  unfold ensureRows rowCount
  split
  · simp; omega
  · omega

theorem columns_ensureRows (g : Grid) (count : Nat) : (g.ensureRows count).columns = g.columns := by
  unfold ensureRows
  split <;> rfl

theorem isRectangular_ensureRows (hg : g.isRectangular = true) (count : Nat) :
    (g.ensureRows count).isRectangular = true := by
  rw [isRectangular_iff] at *
  unfold ensureRows
  split
  · intro row h
    rcases Array.mem_append.1 h with h | h
    · exact hg row h
    · rw [Array.eq_of_mem_replicate h, Array.size_replicate]
  · exact hg

theorem textAt_ensureRows (g : Grid) (count i j : Nat) : (g.ensureRows count).textAt i j = g.textAt i j := by
  unfold ensureRows textAt get?
  split
  · by_cases hi : i < g.rows.size
    · simp [Array.getElem?_append, hi]
    · by_cases hc : i - g.rows.size < count - g.rows.size <;> by_cases hj : j < g.columns <;>
        simp [Array.getElem?_append, hi, hc, hj]
  · rfl

/-! ## Columns -/

theorem rowCount_ensureColumns (g : Grid) (count : Nat) : (g.ensureColumns count).rowCount = g.rowCount := by
  unfold ensureColumns rowCount
  split
  · simp
  · rfl

theorem columns_ensureColumns (g : Grid) (count : Nat) : (g.ensureColumns count).columns = max g.columns count := by
  unfold ensureColumns
  split
  · simp; omega
  · omega

theorem isRectangular_ensureColumns (hg : g.isRectangular = true) (count : Nat) :
    (g.ensureColumns count).isRectangular = true := by
  rw [isRectangular_iff] at *
  unfold ensureColumns
  split
  · intro row h
    obtain ⟨old, hold, rfl⟩ := Array.mem_map.1 h
    have := hg old hold
    simp only [widen, Array.size_append, Array.size_replicate]
    omega
  · exact hg

theorem getElem?_widen (count : Nat) (row : Array String) (j : Nat) :
    (widen count row)[j]?.getD "" = row[j]?.getD "" := by
  unfold widen
  by_cases hj : j < row.size
  · simp [Array.getElem?_append, hj]
  · by_cases hc : j - row.size < count - row.size <;> simp [Array.getElem?_append, hj, hc]

theorem textAt_ensureColumns (g : Grid) (count i j : Nat) : (g.ensureColumns count).textAt i j = g.textAt i j := by
  unfold ensureColumns textAt get?
  split
  · cases h : g.rows[i]? with
    | none => simp [h]
    | some row => simp [h, getElem?_widen]
  · rfl

/-! ## Writing -/

/-- A grid grown to have a place, as it is before a text is written there. -/
def grownTo (g : Grid) (row column : Nat) : Grid := (g.ensureColumns (column + 1)).ensureRows (row + 1)

theorem set_eq (g : Grid) (row column : Nat) (value : String) :
    g.set row column value =
      { g.grownTo row column with rows := write (g.grownTo row column).rows row column value } := rfl

theorem rowCount_grownTo (g : Grid) (row column : Nat) : (g.grownTo row column).rowCount = max g.rowCount (row + 1) := by
  rw [grownTo, rowCount_ensureRows, rowCount_ensureColumns]

theorem columns_grownTo (g : Grid) (row column : Nat) : (g.grownTo row column).columns = max g.columns (column + 1) := by
  rw [grownTo, columns_ensureRows, columns_ensureColumns]

theorem isRectangular_grownTo (hg : g.isRectangular = true) (row column : Nat) :
    (g.grownTo row column).isRectangular = true :=
  isRectangular_ensureRows (isRectangular_ensureColumns hg (column + 1)) (row + 1)

/-- **A grid has the place that it was grown to.** -/
theorem inside_grownTo (hg : g.isRectangular = true) (row column : Nat) :
    ∃ hrow : row < (g.grownTo row column).rows.size, column < (g.grownTo row column).rows[row].size := by
  have hcount := rowCount_grownTo g row column
  have hcolumns := columns_grownTo g row column
  have hrow : row < (g.grownTo row column).rows.size := by
    unfold rowCount at hcount
    omega
  have hsize := isRectangular_iff.1 (isRectangular_grownTo hg row column) _ (Array.getElem_mem hrow)
  exact ⟨hrow, by omega⟩

theorem write_eq {rows : Array (Array String)} {row column : Nat} (hrow : row < rows.size)
    (hcolumn : column < rows[row].size) (value : String) :
    write rows row column value = rows.set row (rows[row].set column value hcolumn) hrow := by
  apply Array.ext
  · simp [write]
  · intro i hi _
    rw [Array.getElem_set]
    simp only [write, Array.getElem_modify]
    by_cases h : row = i
    · subst h
      rw [if_pos rfl, if_pos rfl, Array.setIfInBounds_def, dif_pos hcolumn]
    · rw [if_neg h, if_neg h]

/-- **Writing is an assignment within bounds**, to a place of the grown grid. -/
theorem exists_set_eq (hg : g.isRectangular = true) (row column : Nat) (value : String) :
    ∃ (hrow : row < (g.grownTo row column).rows.size) (hcolumn : column < (g.grownTo row column).rows[row].size),
      g.set row column value =
        { rows := (g.grownTo row column).rows.set row ((g.grownTo row column).rows[row].set column value hcolumn) hrow
          columns := (g.grownTo row column).columns } := by
  obtain ⟨hrow, hcolumn⟩ := inside_grownTo hg row column
  refine ⟨hrow, hcolumn, ?_⟩
  rw [set_eq, write_eq hrow hcolumn]

theorem rowCount_set (g : Grid) (row column : Nat) (value : String) :
    (g.set row column value).rowCount = max g.rowCount (row + 1) := by
  rw [← rowCount_grownTo g row column]
  simp [set_eq, rowCount, write]

theorem columns_set (g : Grid) (row column : Nat) (value : String) :
    (g.set row column value).columns = max g.columns (column + 1) :=
  columns_grownTo g row column

theorem isRectangular_set (hg : g.isRectangular = true) (row column : Nat) (value : String) :
    (g.set row column value).isRectangular = true := by
  have h := isRectangular_grownTo hg row column
  rw [isRectangular_iff] at *
  intro r hr
  obtain ⟨i, hi, rfl⟩ := Array.mem_iff_getElem.1 hr
  simp only [set_eq, write] at hi ⊢
  rw [Array.getElem_modify]
  split
  · rw [Array.size_setIfInBounds]
    exact h _ (Array.getElem_mem _)
  · exact h _ (Array.getElem_mem _)

/-- **Writing changes the text at its place and no other.** -/
theorem textAt_set (hg : g.isRectangular = true) (row column : Nat) (value : String) (i j : Nat) :
    (g.set row column value).textAt i j = if i = row ∧ j = column then value else g.textAt i j := by
  obtain ⟨hrow, hcolumn⟩ := inside_grownTo hg row column
  have hkeep : (g.grownTo row column).textAt i j = g.textAt i j := by
    rw [grownTo, textAt_ensureRows, textAt_ensureColumns]
  rw [← hkeep, set_eq]
  unfold textAt get? write
  dsimp only
  rw [Array.getElem?_modify]
  by_cases hi : i = row
  · subst hi
    by_cases hj : j = column
    · subst hj
      simp [Array.getElem?_eq_getElem hrow, hcolumn]
    · simp [Array.getElem?_eq_getElem hrow, hj, Ne.symm hj]
  · rw [if_neg (Ne.symm hi), if_neg (fun h => hi h.1)]

/-! ## Grids by their texts -/

/-- The grid with so many rows and columns and the given texts. -/
def ofTexts (rows columns : Nat) (text : Nat → Nat → String) : Grid where
  rows := Array.ofFn fun i : Fin rows => Array.ofFn fun j : Fin columns => text i j
  columns := columns

/-- **A grid with equally wide rows is known by its numbers and its texts.** -/
theorem eq_ofTexts (hg : g.isRectangular = true) {rows columns : Nat} {text : Nat → Nat → String}
    (hrows : g.rowCount = rows) (hcolumns : g.columns = columns) (htext : ∀ i j, g.textAt i j = text i j) :
    g = ofTexts rows columns text := by
  subst hrows hcolumns
  obtain ⟨gridRows, gridColumns⟩ := g
  rw [ofTexts, Grid.mk.injEq]
  refine ⟨Array.ext (by simp [rowCount]) fun i hi _ => ?_, rfl⟩
  have hwide : gridRows[i].size = gridColumns := isRectangular_iff.1 hg _ (Array.getElem_mem hi)
  refine Array.ext (by simp [hwide]) fun j hj _ => ?_
  simp only [Array.getElem_ofFn, ← htext]
  simp [textAt, get?, hi, hj]

end Grid

end OfficePreview.Sheet
