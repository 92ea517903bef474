import OfficePreview.Proofs.Package.PartNames
/-!
# Resolution — references that are resolved one after another

A reference moves through the package segment by segment (`Arrives`): an empty segment and a single dot stay, two dots go
up unless they are at the root, and any other segment goes down.  Where it arrives is a path of names (`IsName`), and such a
path is walked as it stands (`walk_uri`).  So a path that was resolved is as good a base as what it was resolved from, and
a reference in two pieces is resolved piece by piece (`references_resolve`).
-/
namespace OfficePreview.Package

/-! ## Names -/

/-- A segment that stands for a step down. -/
structure IsName (segment : List Char) : Prop where
  ne_nil : segment ≠ []
  ne_dot : segment ≠ ['.']
  ne_dots : segment ≠ ['.', '.']
  slash_notMem : '/' ∉ segment

theorem slash_notMem_of_mem_splitOn : ∀ (path : List Char), ∀ segment ∈ path.splitOn '/', '/' ∉ segment
  | [] => by simp
  | c :: path => by
    intro segment h
    have ih := slash_notMem_of_mem_splitOn path
    rw [List.splitOn_cons_eq_if_modifyHead] at h
    by_cases hc : (c == '/') = true
    · rw [if_pos hc] at h
      rcases List.mem_cons.1 h with rfl | h
      · exact List.not_mem_nil
      · exact ih segment h
    · rw [if_neg hc] at h
      obtain ⟨first, rest, hsplit⟩ := List.exists_cons_of_ne_nil (List.splitOn_ne_nil '/' path)
      rw [hsplit] at h ih
      rcases List.mem_cons.1 h with rfl | h
      · intro hslash
        rcases List.mem_cons.1 hslash with rfl | hslash
        · exact hc rfl
        · exact ih first List.mem_cons_self hslash
      · exact ih segment (List.mem_cons_of_mem first h)

theorem enter_of_isName {segment : List Char} (h : IsName segment) (steps : List (List Char)) :
    enter steps segment = segment :: steps := by
  rw [enter, if_neg (not_or.2 ⟨h.ne_nil, h.ne_dot⟩), if_neg h.ne_dots]

/-- One more segment of a path leaves names behind. -/
theorem isName_of_mem_enter {steps : List (List Char)} {segment : List Char} (hslash : '/' ∉ segment)
    (h : ∀ step ∈ steps, IsName step) : ∀ step ∈ enter steps segment, IsName step := by
  intro step hstep
  unfold enter at hstep
  by_cases hstays : segment = [] ∨ segment = ['.']
  · rw [if_pos hstays] at hstep
    exact h step hstep
  · rw [if_neg hstays] at hstep
    by_cases hdots : segment = ['.', '.']
    · rw [if_pos hdots] at hstep
      exact h step (List.mem_of_mem_tail hstep)
    · rw [if_neg hdots] at hstep
      rw [not_or] at hstays
      rcases List.mem_cons.1 hstep with rfl | hstep
      · exact ⟨hstays.1, hstays.2, hdots, hslash⟩
      · exact h step hstep

theorem isName_of_mem_foldl_enter : ∀ (segments steps : List (List Char)), (∀ segment ∈ segments, '/' ∉ segment) →
    (∀ step ∈ steps, IsName step) → ∀ step ∈ segments.foldl enter steps, IsName step
  | [], _, _, h => h
  | segment :: segments, steps, hslash, h => by
    obtain ⟨hfirst, hrest⟩ := List.forall_mem_cons.1 hslash
    exact isName_of_mem_foldl_enter segments (enter steps segment) hrest (isName_of_mem_enter hfirst h)

/-- **A walk that starts at names ends at names.** -/
theorem isName_of_mem_walk {steps : List (List Char)} (h : ∀ step ∈ steps, IsName step) (path : List Char) :
    ∀ step ∈ walk steps path, IsName step := by
  unfold walk
  rw [segments_eq_splitOn]
  exact isName_of_mem_foldl_enter _ _ (slash_notMem_of_mem_splitOn path) h

theorem foldl_enter_of_isName : ∀ (path steps : List (List Char)), (∀ segment ∈ path, IsName segment) →
    path.foldl enter steps = path.reverse ++ steps
  | [], _, _ => rfl
  | segment :: path, steps, h => by
    obtain ⟨hfirst, hrest⟩ := List.forall_mem_cons.1 h
    rw [List.foldl_cons, enter_of_isName hfirst, foldl_enter_of_isName path _ hrest, List.reverse_cons,
      List.append_assoc, List.singleton_append]

/-! ## Where segments arrive -/

/-- From the end of a path, segments arrive at the end of another one.  Empty segments and single dots stay, two dots go
back where there is a way back, and all other segments go on. -/
inductive Arrives : (path segments reached : List (List Char)) → Prop
  | here {path : List (List Char)} : Arrives path [] path
  | stay {path segments reached : List (List Char)} {segment : List Char} (h : segment = [] ∨ segment = ['.'])
      (rest : Arrives path segments reached) : Arrives path (segment :: segments) reached
  | back {path segments reached : List (List Char)} {last : List Char} (rest : Arrives path segments reached) :
      Arrives (path ++ [last]) (['.', '.'] :: segments) reached
  | root {segments reached : List (List Char)} (rest : Arrives [] segments reached) :
      Arrives [] (['.', '.'] :: segments) reached
  | on {path segments reached : List (List Char)} {segment : List Char} (ne_nil : segment ≠ []) (ne_dot : segment ≠ ['.'])
      (ne_dots : segment ≠ ['.', '.']) (rest : Arrives (path ++ [segment]) segments reached) :
      Arrives path (segment :: segments) reached

theorem Arrives.eq_foldl {path segments reached : List (List Char)} (h : Arrives path segments reached) :
    reached = (segments.foldl enter path.reverse).reverse := by
  induction h with
  | here => rw [List.foldl_nil, List.reverse_reverse]
  | stay h rest ih => rw [ih, List.foldl_cons, enter, if_pos h]
  | back rest ih => rw [ih, List.foldl_cons, enter, if_neg (by decide), if_pos rfl, List.reverse_concat, List.tail_cons]
  | root rest ih => rw [ih, List.foldl_cons, enter, if_neg (by decide), if_pos rfl, List.reverse_nil, List.tail_nil]
  | on ne_nil ne_dot ne_dots rest ih =>
    rw [ih, List.foldl_cons, enter, if_neg (not_or.2 ⟨ne_nil, ne_dot⟩), if_neg ne_dots, List.reverse_concat]

theorem arrives_foldl : ∀ (segments path : List (List Char)),
    Arrives path segments (segments.foldl enter path.reverse).reverse
  | [], path => by
    rw [List.foldl_nil, List.reverse_reverse]
    exact .here
  | segment :: segments, path => by
    rw [List.foldl_cons, enter]
    by_cases hstays : segment = [] ∨ segment = ['.']
    · rw [if_pos hstays]
      exact .stay hstays (arrives_foldl segments path)
    · rw [if_neg hstays]
      by_cases hdots : segment = ['.', '.']
      · rw [if_pos hdots, hdots]
        rcases List.eq_nil_or_concat path with rfl | ⟨front, last, rfl⟩
        · exact .root (arrives_foldl segments [])
        · rw [List.concat_eq_append, List.reverse_concat, List.tail_cons]
          exact .back (arrives_foldl segments front)
      · rw [if_neg hdots, ← List.reverse_concat]
        rw [not_or] at hstays
        exact .on hstays.1 hstays.2 hdots (arrives_foldl segments (path ++ [segment]))

/-- **Segments arrive at one place**, which is where a walk along them ends. -/
theorem arrives_iff {path segments reached : List (List Char)} :
    Arrives path segments reached ↔ reached = (segments.foldl enter path.reverse).reverse := by
  constructor
  · exact Arrives.eq_foldl
  · rintro rfl
    exact arrives_foldl segments path

namespace PartName

/-! ## Names of parts as paths -/

variable {p : PartName}

theorem toList_entryName (p : PartName) : p.entryName.toList = ['/'].intercalate p.path := by
  have hmap : (p.path.map String.ofList).map String.toList = p.path := by
    rw [List.map_map]
    exact List.map_id'' (fun segment => String.toList_ofList) p.path
  rw [entryName, String.toList_intercalate, hmap]
  rfl

theorem toList_uri (p : PartName) : p.uri.toList = '/' :: p.entryName.toList := by
  rw [uri, String.toList_append]
  rfl

/-- **A path of names is walked as it stands.** -/
theorem walk_uri (h : ∀ segment ∈ p.path, IsName segment) : walk [] p.uri.toList = p.path.reverse := by
  rw [toList_uri, walk_slash_left, toList_entryName]
  by_cases hnil : p.path = []
  · rw [hnil]
    rfl
  · rw [walk, segments_eq_splitOn, List.splitOn_intercalate '/' (fun segment hs => (h segment hs).slash_notMem) hnil,
      foldl_enter_of_isName p.path [] h, List.append_nil]

theorem head?_entryName (h : ∀ segment ∈ p.path, IsName segment) : p.entryName.toList.head? ≠ some '/' := by
  rw [toList_entryName]
  intro hhead
  match hpath : p.path with
  | [] =>
    rw [hpath] at hhead
    cases hhead
  | first :: rest =>
    have hfirst : IsName first := h first (by rw [hpath]; exact List.mem_cons_self)
    obtain ⟨c, cs, rfl⟩ := List.exists_cons_of_ne_nil hfirst.ne_nil
    have hc : (['/'].intercalate p.path).head? = some c := by
      rw [hpath]
      cases rest <;> rfl
    rw [hc] at hhead
    cases hhead
    exact hfirst.slash_notMem List.mem_cons_self

theorem isName_of_mem_ofReference (base reference : String) :
    ∀ segment ∈ (ofReference base reference).path, IsName segment := by
  intro segment h
  rw [path_ofReference, List.mem_reverse] at h
  have hroot : ∀ step ∈ ([] : List (List Char)), IsName step := fun _ hnil => absurd hnil List.not_mem_nil
  exact isName_of_mem_walk (isName_of_mem_walk hroot _) _ segment h

/-- The path that a reference leads to is walked to the same place as its directory and then the reference. -/
theorem walk_uri_ofReference (base reference : String) :
    walk [] (ofReference base reference).uri.toList = walk (walk [] base.toList) reference.toList := by
  rw [walk_uri (isName_of_mem_ofReference base reference), path_ofReference, List.reverse_reverse]

/-! ## References -/

/-- References that are walked to the same place lead to the same part. -/
theorem ofReference_congr {base reference base' reference' : String}
    (h : walk (walk [] base.toList) reference.toList = walk (walk [] base'.toList) reference'.toList) :
    ofReference base reference = ofReference base' reference' := by
  have hpath : (ofReference base reference).path = (ofReference base' reference').path := by
    rw [path_ofReference, path_ofReference, h]
  calc ofReference base reference = ⟨(ofReference base reference).path⟩ := rfl
    _ = ofReference base' reference' := by rw [hpath]

theorem toList_slash (front rest : String) : (front ++ "/" ++ rest).toList = front.toList ++ '/' :: rest.toList := by
  rw [String.toList_append, String.toList_append, List.append_assoc]
  rfl

theorem ofReference_slash (base reference : String) : ofReference base ("/" ++ reference) = ofReference base reference := by
  apply ofReference_congr
  rw [String.toList_append]
  exact walk_slash_left _ _

theorem ofReference_slashes (base front rest : String) :
    ofReference base (front ++ "//" ++ rest) = ofReference base (front ++ "/" ++ rest) := by
  have htwo : (front ++ "//" ++ rest).toList = front.toList ++ '/' :: '/' :: rest.toList := by
    rw [String.toList_append, String.toList_append, List.append_assoc]
    rfl
  apply ofReference_congr
  rw [htwo, toList_slash, walk_slash, walk_slash, walk_slash_left]

/-- **A reference in two pieces is resolved piece by piece.** -/
theorem ofReference_uri (base reference next : String) :
    ofReference (ofReference base reference).uri next = ofReference base (reference ++ "/" ++ next) := by
  apply ofReference_congr
  rw [walk_uri_ofReference, toList_slash, walk_slash]

/-- What is resolved stays as it is when it is resolved again, as a directory and as a reference. -/
theorem ofReference_uri_again (base reference : String) :
    ofReference (ofReference base reference).uri "" = ofReference base reference ∧
      ofReference "" (ofReference base reference).uri = ofReference base reference := by
  constructor
  · apply ofReference_congr
    rw [walk_uri_ofReference]
    rfl
  · apply ofReference_congr
    rw [← walk_uri_ofReference base reference]
    rfl

theorem within_slash (root target : String) : within root ("/" ++ target) = within root target :=
  ofReference_slash _ target

end PartName

open PartName in
/-- **References are resolved to paths of names.**  A reference arrives where the segments of its base and then its own
arrive, starting at the root; the text of what it names is a slash and the names on the way, set apart by slashes.  So what
is resolved once is resolved, doubled slashes and slashes in front make no difference, and a reference in two pieces is
resolved piece by piece. -/
theorem references_resolve :
    (∀ base reference, (∀ segment ∈ (ofReference base reference).path, IsName segment) ∧
      (ofReference base reference).uri =
        "/" ++ String.intercalate "/" ((ofReference base reference).path.map String.ofList) ∧
      (ofReference base reference).uri.toList = '/' :: (ofReference base reference).entryName.toList ∧
      (ofReference base reference).entryName.toList.head? ≠ some '/' ∧
      ∀ path, Arrives [] (base.toList.splitOn '/' ++ reference.toList.splitOn '/') path ↔
        path = (ofReference base reference).path) ∧
    (∀ base reference, ofReference (ofReference base reference).uri "" = ofReference base reference ∧
      ofReference "" (ofReference base reference).uri = ofReference base reference) ∧
    (∀ base reference, ofReference base ("/" ++ reference) = ofReference base reference) ∧
    (∀ base front rest, ofReference base (front ++ "//" ++ rest) = ofReference base (front ++ "/" ++ rest)) ∧
    (∀ base reference next, ofReference (ofReference base reference).uri next =
      ofReference base (reference ++ "/" ++ next)) ∧
    ∀ root target, within root ("/" ++ target) = within root target := by
  refine ⟨fun base reference => ?_, ofReference_uri_again, ofReference_slash, ofReference_slashes, ofReference_uri,
    within_slash⟩
  have names := isName_of_mem_ofReference base reference
  refine ⟨names, rfl, toList_uri _, head?_entryName names, fun path => ?_⟩
  rw [arrives_iff, path_ofReference, List.reverse_nil, List.foldl_append, walk, walk, segments_eq_splitOn,
    segments_eq_splitOn]

/-- Two dots go up from where the directory leads, and not out of the root. -/
example : (PartName.ofReference "/xl/./sheets" "..//a/b/../c.xml").uri = "/xl/a/c.xml" ∧
    (PartName.ofReference "xl" "../../..").uri = "/" := by decide +kernel

end OfficePreview.Package
