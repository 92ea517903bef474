import OfficePreview.Proofs.Sheet.Strings
/-!
# Entries — one string for each entry of a table

Cells name shared texts by number, so that no entry may be lost or counted twice, whatever stands in it.  A string is added
where an entry ends and nowhere else, and every entry ends once: a table has as many strings as the part has entries
(`Builder.size_run`), also where entries lie in one another.

Where entries are kept apart, the strings are those of the entries one by one: each is the data of the texts in its entry
that are not in a pronunciation (`strings_of_entries`).
-/
namespace OfficePreview.Sheet

open Xml (Event Tag Forest Leaf Describes IsWellFormed)

/-- What the entries of a forest hold, at any depth and in the order of the document. -/
def entriesOf : Forest → List Forest
  | .nil => []
  | .element tag children rest =>
    (if tag.isLocal "si" then [children] else []) ++ (entriesOf children ++ entriesOf rest)
  | .empty tag rest => (if tag.isLocal "si" then [.nil] else []) ++ entriesOf rest
  | .leaf _ rest => entriesOf rest

/-- What the texts of a forest hold that are not in a pronunciation, at any depth and in the order of the document. -/
def textsOf : Forest → List Forest
  | .nil => []
  | .element tag children rest =>
    (if tag.isLocal "rPh" then [] else (if tag.isLocal "t" then [children] else []) ++ textsOf children) ++ textsOf rest
  | .empty _ rest => textsOf rest
  | .leaf _ rest => textsOf rest

/-- The string of an entry: the data of its texts, one after another. -/
def stringOf (content : Forest) : String := String.join ((textsOf content).map Forest.data)

/-! ## As many strings as entries -/

theorem length_one_if (p : Bool) (content : Forest) : (if p then [content] else []).length = if p then 1 else 0 := by
  cases p <;> rfl

theorem length_entriesOf : ∀ forest : Forest, (entriesOf forest).length = forest.tags.countP (·.isLocal "si")
  | .nil => rfl
  | .element tag children rest => by
    rw [entriesOf, Forest.tags, List.countP_cons, List.countP_append, List.length_append, List.length_append,
      length_one_if, length_entriesOf children, length_entriesOf rest]
    omega
  | .empty tag rest => by
    rw [entriesOf, Forest.tags, List.countP_cons, List.length_append, length_one_if, length_entriesOf rest]
    omega
  | .leaf _ rest => length_entriesOf rest

namespace SharedStrings.Builder

theorem strings_step_start (b : Builder) (tag : Tag) (depth : Nat) : (b.step (.start tag) depth).strings = b.strings := by
  simp only [step]
  split
  · rfl
  · split
    · rfl
    · split <;> rfl

theorem size_step_empty (b : Builder) (tag : Tag) (depth : Nat) :
    (b.step (.empty tag) depth).strings.size = b.strings.size + if tag.isLocal "si" then 1 else 0 := by
  simp only [step]
  split
  · exact Array.size_push ""
  · rfl

theorem size_step_close (b : Builder) (tag : Tag) (depth : Nat) :
    (b.step (.close tag.name) depth).strings.size = b.strings.size + if tag.isLocal "si" then 1 else 0 := by
  simp only [step, Tag.isLocal, decide_eq_true_eq]
  split
  · exact Array.size_push _
  · split
    · rfl
    · split <;> rfl

theorem strings_step_leaf (b : Builder) (l : Leaf) (depth : Nat) : (b.step l.event depth).strings = b.strings := by
  rw [step_leaf]
  split
  · split <;> rfl
  · rfl

/-- **A run adds a string for each entry**, and it does not matter where the builder stands. -/
theorem size_run : ∀ (forest : Forest) (b : Builder) (depth : Nat),
    (run b (forest.events depth)).strings.size = b.strings.size + (entriesOf forest).length
  | .nil, _, _ => rfl
  | .element tag children rest, b, depth => by
    rw [run_element, size_run rest, size_step_close, size_run children, strings_step_start, entriesOf, List.length_append,
      List.length_append, length_one_if]
    omega
  | .empty tag rest, b, depth => by
    rw [Forest.events, run_cons, size_run rest, size_step_empty, entriesOf, List.length_append, length_one_if]
    omega
  | .leaf l rest, b, depth => by
    rw [Forest.events, run_cons, size_run rest, strings_step_leaf]
    rfl

end SharedStrings.Builder

/-! ## The string of each entry -/

theorem textsOf_of_tags : ∀ forest : Forest, forest.tags = [] → textsOf forest = []
  | .nil, _ => rfl
  | .leaf _ rest, h => textsOf_of_tags rest h

theorem stringOf_element (tag : Tag) (children rest : Forest) :
    stringOf (.element tag children rest) =
      (if tag.isLocal "rPh" then "" else (if tag.isLocal "t" then children.data else "") ++ stringOf children) ++
        stringOf rest := by
  rw [stringOf, textsOf, List.map_append, String.join_append]
  by_cases hp : tag.isLocal "rPh" = true
  · rw [if_pos hp, if_pos hp]
    rfl
  · rw [if_neg hp, if_neg hp, List.map_append, String.join_append]
    split <;> simp [stringOf]

theorem inPlaceOf_eq_stringOf : ∀ content : Forest, content.Every KeepsApart → inPlaceOf content = stringOf content
  | .nil, _ => rfl
  | .element tag children rest, ⟨⟨_, leaves⟩, hchildren, hrest⟩ => by
    rw [inPlaceOf, inPlaceOf_eq_stringOf children hchildren, inPlaceOf_eq_stringOf rest hrest, stringOf_element]
    by_cases hp : tag.isLocal "rPh" = true
    · rw [if_pos hp, if_pos hp]
    · rw [if_neg hp, if_neg hp]
      by_cases ht : tag.isLocal "t" = true
      · have hnone : stringOf children = "" := by
          rw [stringOf, textsOf_of_tags children (leaves ht)]
          rfl
        rw [if_pos ht, if_pos ht, hnone, String.append_empty]
      · rw [if_neg ht, if_neg ht, String.empty_append]
  | .empty _ rest, h => inPlaceOf_eq_stringOf rest h
  | .leaf _ rest, h => inPlaceOf_eq_stringOf rest h

theorem entriesOf_of_tags {forest : Forest} (h : ∀ tag ∈ forest.tags, tag.isLocal "si" = false) :
    entriesOf forest = [] := by
  have hlength := length_entriesOf forest
  have hnone : forest.tags.countP (·.isLocal "si") = 0 := by
    rw [List.countP_eq_zero]
    intro tag ht
    simp [h tag ht]
  rw [hnone] at hlength
  exact List.eq_nil_of_length_eq_zero hlength

/-- Entries that are kept apart do not lie in one another, so that looking for them can stop at each. -/
theorem stringsOf_eq_map : ∀ forest : Forest, forest.Every KeepsApart → stringsOf forest = (entriesOf forest).map stringOf
  | .nil, _ => rfl
  | .element tag children rest, ⟨⟨entry, _⟩, hchildren, hrest⟩ => by
    rw [stringsOf, entriesOf, List.map_append, List.map_append, stringsOf_eq_map rest hrest]
    by_cases hs : tag.isLocal "si" = true
    · have hnone : entriesOf children = [] := entriesOf_of_tags (entry (.inl hs))
      rw [if_pos hs, if_pos hs, hnone, inPlaceOf_eq_stringOf children hchildren]
      rfl
    · rw [if_neg hs, if_neg hs, stringsOf_eq_map children hchildren]
      rfl
  | .empty tag rest, h => by
    rw [stringsOf, entriesOf, List.map_append, stringsOf_eq_map rest h]
    split <;> rfl
  | .leaf _ rest, h => stringsOf_eq_map rest h

/-- **A table has one string for each entry of its part**, self-closing or not.  Where no entry lies in another one or in a
pronunciation and no text holds an element, the number of an entry in the order of the document is that of its string:
the data of the texts in the entry that are not in a pronunciation of it, and nothing else. -/
theorem strings_of_entries (text : String) (accepted : IsWellFormed text) :
    ∃ forest, Describes text forest ∧ (∀ other, Describes text other → other = forest) ∧
      ∃ table, SharedStrings.ofText text = .ok table ∧
        table.size = forest.tags.countP (·.isLocal "si") ∧
        (forest.Every KeepsApart → ∀ k, table.get? k = (entriesOf forest)[k]?.map stringOf) := by
  obtain ⟨forest, described, unique⟩ := Xml.exists_unique_describes accepted
  have hread : SharedStrings.ofText text = .ok ⟨(SharedStrings.Builder.run {} (forest.events 0)).strings⟩ := by
    rw [SharedStrings.ofText, described.readAll]
    rfl
  refine ⟨forest, described, unique, _, hread, ?_, fun hplain k => ?_⟩
  · have hsize := SharedStrings.Builder.size_run forest {} 0
    rw [length_entriesOf] at hsize
    exact hsize.trans (Nat.zero_add _)
  · have hstrings := SharedStrings.ofText_of_describes described hplain
    rw [hread] at hstrings
    rw [Except.ok.inj hstrings, SharedStrings.get?, stringsOf_eq_map forest hplain, List.getElem?_toArray, List.getElem?_map]

/-- A table with a formatted entry, an entry without texts and one with a pronunciation; text stands between them. -/
def phoneticTableText : String :=
  "<sst>x<si><r><t>a</t></r>y<r><t>&lt;b</t></r></si><si/><si><t>c</t><rPh><t>d</t><rPh/><t>e</t></rPh></si></sst>"

def phoneticTableForest : Forest :=
  let written (data : Forest) := Forest.element ⟨"t", []⟩ data
  let formatted (data rest : Forest) := Forest.element ⟨"r", []⟩ (written data .nil) rest
  let text (data : String) := Forest.leaf (.text data)
  .element ⟨"sst", []⟩ (text "x"
    (.element ⟨"si", []⟩ (formatted (text "a" .nil) (text "y" (formatted (.leaf (.reference "lt") (text "b" .nil)) .nil)))
      (.empty ⟨"si", []⟩
        (.element ⟨"si", []⟩
          (written (text "c" .nil)
            (.element ⟨"rPh", []⟩
              (written (text "d" .nil) (.empty ⟨"rPh", []⟩ (written (text "e" .nil) .nil))) .nil)) .nil)))) .nil

theorem strings_of_entries_phoneticTable :
    IsWellFormed phoneticTableText ∧ phoneticTableForest.Every KeepsApart ∧
      ∃ table, SharedStrings.ofText phoneticTableText = .ok table ∧ table.size = 3 ∧ table.get? 0 = some "a<b" ∧
        table.get? 1 = some "" ∧ table.get? 2 = some "c" := by
  have described : Describes phoneticTableText phoneticTableForest := ⟨by decide +kernel, by decide +kernel⟩
  have apart : phoneticTableForest.Every KeepsApart := by decide +kernel
  have strings : (entriesOf phoneticTableForest).map stringOf = ["a<b", "", "c"] := by decide +kernel
  obtain ⟨forest, -, unique, table, read, size, get⟩ := strings_of_entries phoneticTableText described.isWellFormed
  obtain rfl := unique _ described
  have get (k : Nat) : table.get? k = ["a<b", "", "c"][k]? := by
    rw [get apart k, ← List.getElem?_map, strings]
  exact ⟨described.isWellFormed, apart, table, read, size, get 0, get 1, get 2⟩

end OfficePreview.Sheet
