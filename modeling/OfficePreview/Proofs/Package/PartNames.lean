import OfficePreview.Package.PartName
/-!
# PartNames — the name of a part is where a walk ends

A path is cut at its slashes (`segments_eq_splitOn`), and to read it is to walk: each segment is one step from wherever
the walk has come to.  Of two paths with a slash between them, one is walked after the other (`walk_slash`); a slash at
either end of a path leads nowhere (`walk_dropWhile`, `walk_trimEnd`).  So a reference is walked from where its directory
leads (`path_ofReference`), and it makes no difference how many slashes stand between the two.
-/
namespace OfficePreview.Package

/-! ## Segments -/

/-- The segments that have ended, the last one first, and the open one, after one more character. -/
def cut (s : List (List Char) × List Char) (c : Char) : List (List Char) × List Char :=
  if c = '/' then (s.2.reverse :: s.1, []) else (s.1, c :: s.2)

/-- The cut of the rest of a path goes on from the segments that have ended and from the open one. -/
theorem segments_foldl_cut (path : List Char) (ended : List (List Char)) (current : List Char) :
    ((path.foldl cut (ended, current)).2.reverse :: (path.foldl cut (ended, current)).1).reverse =
      ended.reverse ++ path.splitOnPPrepend (· == '/') current := by
  induction path generalizing ended current with
  | nil => simp
  | cons c path ih =>
    rw [List.foldl_cons, List.splitOnPPrepend_cons_eq_if, cut]
    by_cases hc : c = '/'
    · rw [if_pos hc, if_pos (beq_iff_eq.2 hc), ih]
      simp
    · rw [if_neg hc, if_neg (by simpa using hc)]
      exact ih ended (c :: current)

theorem segments_eq_splitOn (path : List Char) : segments path = path.splitOn '/' :=
  segments_foldl_cut path [] []

theorem segments_slash (path rest : List Char) : segments (path ++ '/' :: rest) = segments path ++ segments rest := by
  simp only [segments_eq_splitOn, List.splitOn_append_cons_self]

/-! ## Walks -/

/-- The steps taken after a walk along a path, from the steps taken before it. -/
def walk (steps : List (List Char)) (path : List Char) : List (List Char) := (segments path).foldl enter steps

/-- **Two paths with a slash between them are walked one after the other.** -/
theorem walk_slash (steps : List (List Char)) (path rest : List Char) :
    walk steps (path ++ '/' :: rest) = walk (walk steps path) rest := by
  rw [walk, segments_slash, List.foldl_append]
  rfl

theorem walk_slash_left (steps : List (List Char)) (path : List Char) : walk steps ('/' :: path) = walk steps path :=
  walk_slash steps [] path

theorem walk_slash_right (steps : List (List Char)) (path : List Char) : walk steps (path ++ ['/']) = walk steps path :=
  walk_slash steps path []

/-- What does not depend on a slash in front of a path does not depend on all of them. -/
theorem eq_of_dropWhile {α : Type} (f : List Char → α) (hf : ∀ path, f ('/' :: path) = f path) (path : List Char) :
    f (path.dropWhile (· = '/')) = f path := by
  induction path with
  | nil => rfl
  | cons c path ih =>
    rw [List.dropWhile_cons]
    by_cases hc : c = '/'
    · rw [if_pos (by simpa using hc), ih, hc, hf]
    · rw [if_neg (by simpa using hc)]

theorem walk_dropWhile (steps : List (List Char)) (path : List Char) :
    walk steps (path.dropWhile (· = '/')) = walk steps path :=
  eq_of_dropWhile (walk steps) (walk_slash_left steps) path

theorem walk_trimEnd (steps : List (List Char)) (path : List Char) :
    walk steps (Text.trimEnd (· = '/') path) = walk steps path := by
  have reversed := eq_of_dropWhile (fun path => walk steps path.reverse)
    (fun path => by rw [List.reverse_cons, walk_slash_right]) path.reverse
  rw [List.reverse_reverse] at reversed
  exact reversed

namespace PartName

/-- **A reference is walked from where its directory leads.** -/
theorem path_ofReference (base reference : String) :
    (ofReference base reference).path = (walk (walk [] base.toList) reference.toList).reverse := by
  change (walk [] (joinPaths base.toList reference.toList)).reverse = _
  rw [joinPaths, walk_slash, walk_trimEnd, walk_dropWhile]

theorem path_within (root reference : String) :
    (within root reference).path = (walk (walk [] root.toList) reference.toList).reverse := by
  rw [within, path_ofReference, String.toList_ofList, walk_slash_left, Text.trim, walk_trimEnd, walk_dropWhile]

end PartName

/-- The name of the entry that a target stands for within the directory of the workbook: of its segments, the empty ones
and single dots are left out, and two dots take back the segment before them, if there is one. -/
def nameWithin (target : String) : String :=
  String.intercalate "/" (((target.toList.splitOn '/').foldl enter [sheetRoot.toList]).reverse.map String.ofList)

theorem entryName_within (target : String) : (PartName.within sheetRoot target).entryName = nameWithin target := by
  rw [PartName.entryName, PartName.path_within, nameWithin, walk, segments_eq_splitOn target.toList]
  rfl

/-- Dots and doubled slashes are resolved; a slash in front makes no difference, and no step leads out of the root. -/
example : nameWithin "//a/./b/../c.xml" = "xl/a/c.xml" ∧ nameWithin "../../d.xml" = "d.xml" := by decide +kernel

end OfficePreview.Package
