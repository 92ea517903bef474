import Mathlib.Tactic.ByContra
import OfficePreview.Package.Kind
import OfficePreview.Proofs.Text.Blank
/-!
# FileNames — what of a file name decides the kind

A name is read without its query and without the white space around it (`pathOf`), and a directory in front of it stays in
front of what is read (`pathOf_within`).  Its extension is sought from the last dot of all that, so that a directory makes
no difference as long as the last dot stands in the own name of the file, and not at its beginning
(`extensionOf?_within`).  In the other cases, which are told by `Misleads`, the own name has no extension and is given one by
its directory.
-/
namespace OfficePreview.Package.Kind

open Text (isBlank trim dropWhile_append_stop trimEnd_append_stop trim_of_last trim_eq_self)

/-! ## What is read of a name -/

variable {p : Char → Bool} {c : Char} {xs ys : List Char}

theorem takeWhile_append_stop (hc : p c = false) : (xs ++ c :: ys).takeWhile p = xs.takeWhile p := by
  rw [List.takeWhile_append]
  split
  · rename_i hall
    rw [List.takeWhile_cons_of_neg (by simp [hc]), List.append_nil,
      (List.takeWhile_prefix p).eq_of_length hall]
  · rfl

/-- A name with no white space around it. -/
structure IsTrimmed (s : String) : Prop where
  head_visible : ∀ c ∈ s.toList.head?, isBlank c = false
  last_visible : ∀ c ∈ s.toList.getLast?, isBlank c = false

/-- A directory in front of a name: it ends in a slash, and no query begins in it. -/
structure IsDirectory (d : String) : Prop where
  slash_last : d.toList.getLast? = some '/'
  no_query : '?' ∉ d.toList

/-- A directory without the white space at its beginning is one. -/
theorem IsDirectory.exists_eq {d : String} (hd : IsDirectory d) :
    ∃ ds, d.toList.dropWhile isBlank = ds ++ ['/'] ∧ '?' ∉ ds ++ ['/'] := by
  obtain ⟨ds, hds⟩ := List.getLast?_eq_some_iff.1 hd.slash_last
  have hdrop : d.toList.dropWhile isBlank = ds.dropWhile isBlank ++ ['/'] := by
    rw [hds]
    exact dropWhile_append_stop (by decide)
  refine ⟨ds.dropWhile isBlank, hdrop, fun hmem => hd.no_query ?_⟩
  rw [← hdrop] at hmem
  exact (List.dropWhile_suffix isBlank).subset hmem

/-- **A directory stays in front of what is read of the name**, without the white space at its beginning. -/
theorem pathOf_within {d s : String} (hd : IsDirectory d) (hs : IsTrimmed s) :
    pathOf (d ++ s) = d.toList.dropWhile isBlank ++ pathOf s := by
  obtain ⟨ds, hds, hquery⟩ := hd.exists_eq
  have hlast : ∀ c ∈ (d ++ s).toList.getLast?, isBlank c = false := by
    rw [String.toList_append, List.getLast?_append, hd.slash_last]
    cases h : s.toList.getLast? with
    | none => simp [isBlank]
    | some c => simpa using hs.last_visible c (by simp [h])
  have hdrop : (d ++ s).toList.dropWhile isBlank = d.toList.dropWhile isBlank ++ s.toList := by
    rw [String.toList_append, List.dropWhile_append, if_neg (by simp [hds])]
  rw [pathOf, pathOf, trim_of_last hlast, trim_eq_self hs.head_visible hs.last_visible, hdrop, hds,
    List.takeWhile_append_of_pos]
  intro c hc
  have hne : c ≠ '?' := fun h => hquery (h ▸ hc)
  simpa using hne

/-- **A query is not read.** -/
theorem pathOf_query {name : String} (h : ∀ c ∈ name.toList.getLast?, isBlank c = false) (query : String) :
    pathOf (name ++ "?" ++ query) = pathOf name := by
  have hname : (name ++ "?" ++ query).toList = name.toList ++ '?' :: query.toList := by simp
  rw [pathOf, pathOf, trim_of_last h, hname, trim, dropWhile_append_stop (by decide), trimEnd_append_stop (by decide),
    takeWhile_append_stop (by simp)]

/-! ## Extensions -/

theorem exists_lastDot {path : List Char} (h : '.' ∈ path) : ∃ stem e, path = stem ++ '.' :: e ∧ '.' ∉ e := by
  obtain ⟨e, stem, heq, hne⟩ := List.eq_append_cons_of_mem (List.mem_reverse.2 h)
  refine ⟨stem.reverse, e.reverse, ?_, by simpa using hne⟩
  rw [← List.reverse_reverse path, heq]
  simp

theorem extensionOf?_of_notMem {path : List Char} (h : '.' ∉ path) : extensionOf? path = none := by
  have hdrop : path.reverse.dropWhile (· ≠ '.') = [] := by
    rw [List.dropWhile_eq_nil_iff]
    intro c hc
    have hne : c ≠ '.' := fun heq => h (heq ▸ List.mem_reverse.1 hc)
    simpa using hne
  rw [extensionOf?, hdrop]
  cases (path.reverse.takeWhile (· ≠ '.')).reverse <;> rfl

/-- **The last dot of a path decides**: what follows it is the extension, unless the dot stands at either end. -/
theorem extensionOf?_lastDot {stem e : List Char} (h : '.' ∉ e) :
    extensionOf? (stem ++ '.' :: e) = if stem = [] ∨ e = [] then none else some e := by
  have hall : ∀ c ∈ e.reverse, decide (c ≠ '.') = true := by
    intro c hc
    have hne : c ≠ '.' := fun heq => h (heq ▸ List.mem_reverse.1 hc)
    simpa using hne
  have hreverse : (stem ++ '.' :: e).reverse = e.reverse ++ '.' :: stem.reverse := by simp
  rw [extensionOf?, hreverse, takeWhile_append_stop (by simp), dropWhile_append_stop (by simp),
    List.takeWhile_eq_self_iff.2 hall, List.dropWhile_eq_nil_iff.2 hall, List.reverse_reverse, List.nil_append]
  cases e with
  | nil => simp
  | cons c cs =>
    rcases List.eq_nil_or_concat stem with rfl | ⟨stem, x, rfl⟩
    · rfl
    · simp [List.concat_eq_append]

theorem extensionOf?_leading {e : List Char} (h : '.' ∉ e) : extensionOf? ('.' :: e) = none := by
  rw [← List.nil_append ('.' :: e), extensionOf?_lastDot h, if_pos (.inl rfl)]

/-- The own name of a file has no extension, but has one with the directory: it has no dot while the directory has one, or
its one dot is its first character. -/
inductive Misleads (d s : String) : Prop
  | dotted : '.' ∉ pathOf s → '.' ∈ (d.toList.dropWhile isBlank).tail → Misleads d s
  | leading {e : List Char} : pathOf s = '.' :: e → e ≠ [] → '.' ∉ e → Misleads d s

/-- **A directory that does not mislead makes no extension and takes none away.** -/
theorem extensionOf?_within {d s : String} (hd : IsDirectory d) (hs : IsTrimmed s) (h : ¬ Misleads d s) :
    extensionOf? (pathOf (d ++ s)) = extensionOf? (pathOf s) := by
  obtain ⟨ds, hds, -⟩ := hd.exists_eq
  rw [pathOf_within hd hs]
  by_cases hdot : '.' ∈ pathOf s
  · obtain ⟨stem, e, hpath, hne⟩ := exists_lastDot hdot
    have hstem : stem = [] → e = [] := fun hnil => by
      by_contra hextension
      exact h (.leading (by rw [hpath, hnil, List.nil_append]) hextension hne)
    rw [hpath, ← List.append_assoc, extensionOf?_lastDot hne, extensionOf?_lastDot hne, hds]
    by_cases hempty : e = []
    · simp [hempty]
    · simp [hempty, mt hstem hempty]
  · have hdirectory : '.' ∉ (d.toList.dropWhile isBlank).tail := fun hmem => h (.dotted hdot hmem)
    rw [extensionOf?_of_notMem hdot]
    rw [hds] at hdirectory ⊢
    cases ds with
    | nil => exact extensionOf?_of_notMem (by simpa using hdot)
    | cons c cs =>
      rw [List.cons_append, List.tail_cons] at hdirectory
      have hrest : '.' ∉ cs ++ ['/'] ++ pathOf s := fun hmem => (List.mem_append.1 hmem).elim hdirectory hdot
      by_cases hc : c = '.'
      · subst hc
        exact extensionOf?_leading hrest
      · refine extensionOf?_of_notMem ?_
        rw [List.cons_append, List.cons_append]
        exact fun hmem => (List.mem_cons.1 hmem).elim (fun heq => hc heq.symm) hrest

theorem extensionOf?_of_misleads {d s : String} (hd : IsDirectory d) (hs : IsTrimmed s) (h : Misleads d s) :
    extensionOf? (pathOf s) = none ∧ ∃ e, extensionOf? (pathOf (d ++ s)) = some e := by
  obtain ⟨ds, hds, -⟩ := hd.exists_eq
  rw [pathOf_within hd hs]
  cases h with
  | dotted hdot hmem =>
    refine ⟨extensionOf?_of_notMem hdot, ?_⟩
    cases hdirectory : d.toList.dropWhile isBlank with
    | nil => simp [hdirectory] at hds
    | cons c cs =>
      rw [hdirectory, List.tail_cons] at hmem
      obtain ⟨stem, e, rfl, hne⟩ := exists_lastDot hmem
      have hrest : '.' ∉ e ++ pathOf s := fun hmem => (List.mem_append.1 hmem).elim hne hdot
      -- The directory ends in a slash, so that its last dot is not its last character.
      have hnil : e ≠ [] := by
        rintro rfl
        have hends : (c :: stem) ++ ['.'] = ds ++ ['/'] := hdirectory.symm.trans hds
        simpa using List.append_inj_right' hends rfl
      refine ⟨e ++ pathOf s, ?_⟩
      have hsplit : c :: (stem ++ '.' :: e) ++ pathOf s = (c :: stem) ++ '.' :: (e ++ pathOf s) := by simp
      rw [hsplit, extensionOf?_lastDot hrest, if_neg (by simp [hnil])]
  | @leading e hpath hextension hne =>
    rw [hpath, extensionOf?_lastDot hne, if_neg (by simp [hds, hextension])]
    exact ⟨extensionOf?_leading hne, e, rfl⟩

/-! ## Kinds -/

theorem ofFileName?_of_extension {name : String} {e : List Char} (h : extensionOf? (pathOf name) = some e)
    (contentType : Option String) : ofFileName? name contentType = ofExtension? e := by
  rw [ofFileName?, h]

theorem ofFileName?_of_no_extension {name : String} (h : extensionOf? (pathOf name) = none)
    (contentType : Option String) : ofFileName? name contentType = contentType.bind ofContentType? := by
  rw [ofFileName?, h]

/-- Of names with the same extension, or both without one, the kind is the same. -/
theorem ofFileName?_congr {name name' : String} (h : extensionOf? (pathOf name) = extensionOf? (pathOf name'))
    (contentType : Option String) : ofFileName? name contentType = ofFileName? name' contentType := by
  rw [ofFileName?, ofFileName?, h]

/-- Where the directory misleads, a content type makes a difference for the own name and none with the directory. -/
theorem exists_ofFileName?_ne {d s : String} (hd : IsDirectory d) (hs : IsTrimmed s) (h : Misleads d s) :
    ∃ contentType, ofFileName? (d ++ s) contentType ≠ ofFileName? s contentType := by
  obtain ⟨hnone, e, hsome⟩ := extensionOf?_of_misleads hd hs h
  have hwhole := ofFileName?_of_extension hsome
  have hown := ofFileName?_of_no_extension hnone
  cases hkind : ofExtension? e with
  | none =>
    refine ⟨some "wordprocessingml", ?_⟩
    rw [hwhole, hown, hkind]
    decide +kernel
  | some kind =>
    refine ⟨none, ?_⟩
    rw [hwhole, hown, hkind]
    exact Option.some_ne_none kind

/-- **The own name of a file decides its kind exactly where its directory does not mislead, and a query has no part in
it.** -/
theorem own_name_decides_kind (d name query : String) :
    (IsDirectory d → IsTrimmed name →
      ((∀ contentType, ofFileName? (d ++ name) contentType = ofFileName? name contentType) ↔ ¬ Misleads d name)) ∧
    ((∀ c ∈ name.toList.getLast?, isBlank c = false) →
      ∀ contentType, ofFileName? (name ++ "?" ++ query) contentType = ofFileName? name contentType) := by
  refine ⟨fun hd hs => ⟨?_, ?_⟩, ?_⟩
  · intro hsame hmisleads
    obtain ⟨contentType, hne⟩ := exists_ofFileName?_ne hd hs hmisleads
    exact hne (hsame contentType)
  · intro hclear
    exact ofFileName?_congr (extensionOf?_within hd hs hclear)
  · intro hname
    apply ofFileName?_congr
    rw [pathOf_query hname]

/-- A dot in the directory and more of them in a query, around a name with an extension of its own. -/
theorem own_name_decides_kind_dots :
    IsDirectory "v1.0/" ∧ IsTrimmed "q3.xlsx?token=abc.def" ∧ ¬ Misleads "v1.0/" "q3.xlsx?token=abc.def" ∧
      (∀ contentType, ofFileName? ("v1.0/" ++ "q3.xlsx?token=abc.def") contentType =
        ofFileName? "q3.xlsx?token=abc.def" contentType) ∧
      (∀ c ∈ "q3.xlsx".toList.getLast?, isBlank c = false) ∧
      ofFileName? ("q3.xlsx" ++ "?" ++ "token=abc.def") none = ofFileName? "q3.xlsx" none := by
  have hd : IsDirectory "v1.0/" := ⟨by decide, by decide⟩
  have hs : IsTrimmed "q3.xlsx?token=abc.def" := ⟨by simp [isBlank], by simp [isBlank]⟩
  have hclear : ¬ Misleads "v1.0/" "q3.xlsx?token=abc.def" := by
    intro h
    cases h with
    | dotted hdot _ => exact hdot (by decide +kernel)
    | leading hpath _ _ =>
      have hfirst : (pathOf "q3.xlsx?token=abc.def").head? = some 'q' := by decide +kernel
      simp [hpath] at hfirst
  have hname : ∀ c ∈ "q3.xlsx".toList.getLast?, isBlank c = false := by simp [isBlank]
  exact ⟨hd, hs, hclear, ((own_name_decides_kind "v1.0/" "q3.xlsx?token=abc.def" "").1 hd hs).2 hclear, hname,
    (own_name_decides_kind "v1.0/" "q3.xlsx" "token=abc.def").2 hname none⟩

/-- **A dot in the directory hides the content type of a name without one, and a directory makes an extension of a name
that begins with its only dot.** -/
theorem directory_changes_kind :
    (IsDirectory "dir.docx/" ∧ IsTrimmed "file" ∧ '/' ∉ "file".toList ∧
      ofFileName? ("dir.docx/" ++ "file") (some "wordprocessingml") = none ∧
      ofFileName? "file" (some "wordprocessingml") = some .wordProcessing) ∧
    IsDirectory "files/" ∧ IsTrimmed ".docx" ∧ '/' ∉ ".docx".toList ∧
      ofFileName? ("files/" ++ ".docx") none = some .wordProcessing ∧ ofFileName? ".docx" none = none := by
  refine ⟨⟨⟨by decide, by decide⟩, ⟨?_, ?_⟩, by decide, by decide +kernel, by decide +kernel⟩,
    ⟨by decide, by decide⟩, ⟨?_, ?_⟩, by decide, by decide +kernel, by decide +kernel⟩
  all_goals simp [isBlank]

end OfficePreview.Package.Kind
