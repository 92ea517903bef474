import OfficePreview.Proofs.Sheet.References
import OfficePreview.Proofs.Sheet.Strings
import OfficePreview.Proofs.Xml.Writing
/-!
# Written — sheets and tables of shared texts as they are written

The text of a cell is written as its value, in place, or as its number among the shared texts (`Encoding`).  A sheet is
written row by row, each cell with its reference (`sheetText`), and the shared texts as a table of their own
(`tableText`).  Both are read as the trees that they were written for (`describes_sheetText`, `describes_tableText`), and
the table gives the texts that went into it (`ofText_tableText`).
-/
namespace OfficePreview.Sheet

open Xml (Tag Forest Describes Writes)

/-! ## Cells as they are written -/

/-- A text at a position. -/
structure Placed where
  position : Position
  text : String
deriving DecidableEq, Repr

/-- How the text of a cell is written. The number of a shared text is a machine word, as the length of a table is. -/
inductive Encoding
  | value
  | inPlace
  | shared (index : UInt64)
deriving DecidableEq, Repr

/-- A cell with the encoding of its text. -/
structure Encoded extends Placed where
  encoding : Encoding
deriving DecidableEq, Repr

/-- The text of a cell that is given by a number stands there among the shared texts. -/
def Encoded.IsGiven (strings : List String) (c : Encoded) : Prop :=
  match c.encoding with
  | .shared index => strings[index.toNat]? = some c.text
  | _ => True

instance (strings : List String) (c : Encoded) : Decidable (c.IsGiven strings) := by
  unfold Encoded.IsGiven
  split <;> infer_instance

/-- The markup of a cell. -/
def Encoded.written (c : Encoded) : String :=
  match c.encoding with
  | .value => "<c r=\"" ++ c.position.reference ++ "\"><v>" ++ Xml.escape c.text ++ "</v></c>"
  | .inPlace =>
    "<c r=\"" ++ c.position.reference ++ "\" t=\"inlineStr\"><is><t>" ++ Xml.escape c.text ++ "</t></is></c>"
  | .shared index => "<c r=\"" ++ c.position.reference ++ "\" t=\"s\"><v>" ++ toString index.toNat ++ "</v></c>"

def rowText (cells : List Encoded) : String := "<row>" ++ String.join (cells.map Encoded.written) ++ "</row>"

/-- The markup of a sheet whose rows have no numbers. -/
def sheetText (rows : List (List Encoded)) : String :=
  "<worksheet>" ++ ("<sheetData>" ++ String.join (rows.map rowText) ++ "</sheetData>") ++ "</worksheet>"

def stringText (text : String) : String := "<si><t>" ++ Xml.escape text ++ "</t></si>"

/-- The markup of a table of shared texts. -/
def tableText (strings : List String) : String := "<sst>" ++ String.join (strings.map stringText) ++ "</sst>"

/-! ## The trees that are written -/

def plainTag (name : String) : Tag := ⟨name, []⟩

def Encoded.tag (c : Encoded) : Tag :=
  ⟨"c", ⟨"r", c.position.reference⟩ :: match c.encoding with
    | .value => []
    | .inPlace => [⟨"t", "inlineStr"⟩]
    | .shared _ => [⟨"t", "s"⟩]⟩

/-- An element without attributes that holds a text. -/
def textTree (name text : String) (f : Forest) : Forest := .element (plainTag name) (.withText text .nil) f

def Encoded.content (c : Encoded) : Forest :=
  match c.encoding with
  | .value => textTree "v" c.text .nil
  | .inPlace => .element (plainTag "is") (textTree "t" c.text .nil) .nil
  | .shared index => textTree "v" (toString index.toNat) .nil

def Encoded.tree (c : Encoded) (f : Forest) : Forest := .element c.tag c.content f

def rowTree (cells : List Encoded) (f : Forest) : Forest :=
  .element (plainTag "row") (cells.foldr Encoded.tree .nil) f

def sheetTree (rows : List (List Encoded)) (f : Forest) : Forest :=
  .element (plainTag "worksheet") (.element (plainTag "sheetData") (rows.foldr rowTree .nil) .nil) f

def stringTree (text : String) (f : Forest) : Forest := .element (plainTag "si") (textTree "t" text .nil) f

def tableTree (strings : List String) (f : Forest) : Forest :=
  .element (plainTag "sst") (strings.foldr stringTree .nil) f

/-! ## Writing them -/

theorem isAlphanum_of_mem_toDigits {n : Nat} {c : Char} (h : c ∈ Nat.toDigits 10 n) : c.isAlphanum = true := by
  have hdigit : c.isDigit = true := Nat.isDigit_of_mem_toDigits (by decide) (by decide) h
  simp [Char.isAlphanum, hdigit]

theorem escape_reference (p : Position) : Xml.escape p.reference = p.reference := by
  refine Xml.escape_eq_self fun c hc => Xml.referenceFor?_of_isAlphanum ?_
  rw [p.toList_reference] at hc
  rcases List.mem_append.1 hc with hc | hc
  · have hletter := isLetter_of_mem_columnLetters _ c hc
    rw [isLetter] at hletter
    simp [Char.isAlphanum, hletter]
  · exact isAlphanum_of_mem_toDigits hc

theorem escape_repr (n : Nat) : Xml.escape n.repr = n.repr := by
  refine Xml.escape_eq_self fun c hc => Xml.referenceFor?_of_isAlphanum ?_
  rw [Nat.toList_repr] at hc
  exact isAlphanum_of_mem_toDigits hc

theorem isPlain_plainTag (name : String) (h : name ∈ ["worksheet", "sheetData", "row", "v", "is", "t", "sst", "si"]) :
    (plainTag name).IsPlain where
  name_ne := by revert name; decide
  name_isAlpha := List.all_eq_true.1 (by revert name; decide)
  attributes_isPlain := fun _ h => nomatch h
  keys_nodup := List.nodup_nil

theorem Encoded.tag_isPlain (c : Encoded) : c.tag.IsPlain := by
  have hreference : (Xml.Attribute.mk "r" c.position.reference).IsPlain :=
    ⟨by simp, by simp, escape_reference c.position ▸ Xml.quote_notMem_escape _⟩
  have htype (type : String) (h : '"' ∉ type.toList) : (Xml.Attribute.mk "t" type).IsPlain :=
    ⟨by simp, by simp, h⟩
  refine ⟨by simp [tag], List.all_eq_true.1 (by simp [tag]), ?_, ?_⟩
  · cases he : c.encoding <;> simp [tag, he, hreference, htype]
  · cases he : c.encoding <;> simp [tag, he]

theorem writes_text {name : String} (plain : (plainTag name).IsPlain) (text : String) :
    Writes ((plainTag name).opening ++ ((Xml.escape text).toList ++ (plainTag name).closing)) (textTree name text) :=
  Writes.element plain (Writes.text text)

theorem Encoded.writes_written (c : Encoded) : Writes c.written.toList c.tree := by
  have hv := isPlain_plainTag "v" (by simp)
  have ht := isPlain_plainTag "t" (by simp)
  have his := isPlain_plainTag "is" (by simp)
  have written {cs : List Char} (h : Writes cs fun f => .element c.tag c.content f) (hcs : c.written.toList = cs) :
      Writes c.written.toList c.tree := Writes.of_eq h hcs
  cases he : c.encoding with
  | value =>
    have hcontent : c.content = textTree "v" c.text .nil := by simp [content, he]
    refine written (hcontent ▸ (writes_text hv c.text).element c.tag_isPlain) ?_
    simp [Encoded.written, Encoded.tag, he, Tag.opening, Tag.closing, Tag.inside, Xml.Attribute.written, plainTag]
  | inPlace =>
    have hcontent : c.content = .element (plainTag "is") (textTree "t" c.text .nil) .nil := by simp [content, he]
    refine written (hcontent ▸ ((writes_text ht c.text).element his).element c.tag_isPlain) ?_
    simp [Encoded.written, Encoded.tag, he, Tag.opening, Tag.closing, Tag.inside, Xml.Attribute.written, plainTag]
  | shared index =>
    have hcontent : c.content = textTree "v" (toString index.toNat) .nil := by simp [content, he]
    refine written (hcontent ▸ (writes_text hv (toString index.toNat)).element c.tag_isPlain) ?_
    simp [Encoded.written, Encoded.tag, he, Tag.opening, Tag.closing, Tag.inside, Xml.Attribute.written, plainTag,
      escape_repr]

theorem writes_rowText (cells : List Encoded) : Writes (rowText cells).toList (rowTree cells) := by
  have hcells := Writes.flatMap fun c (_ : c ∈ cells) => c.writes_written
  refine Writes.of_eq (hcells.element (isPlain_plainTag "row" (by simp))) ?_
  simp [rowText, List.flatMap_map, Tag.opening, Tag.closing, Tag.inside, plainTag]

theorem writes_sheetText (rows : List (List Encoded)) : Writes (sheetText rows).toList (sheetTree rows) := by
  have hrows := Writes.flatMap fun row (_ : row ∈ rows) => writes_rowText row
  have hdata := hrows.element (isPlain_plainTag "sheetData" (by simp))
  have hsheet : Writes _ (sheetTree rows) := hdata.element (isPlain_plainTag "worksheet" (by simp))
  refine hsheet.of_eq ?_
  simp [sheetText, List.flatMap_map, Tag.opening, Tag.closing, Tag.inside, plainTag]

theorem writes_stringText (text : String) : Writes (stringText text).toList (stringTree text) := by
  have ht := writes_text (isPlain_plainTag "t" (by simp)) text
  refine Writes.of_eq (ht.element (isPlain_plainTag "si" (by simp))) ?_
  simp [stringText, Tag.opening, Tag.closing, Tag.inside, plainTag]

theorem writes_tableText (strings : List String) : Writes (tableText strings).toList (tableTree strings) := by
  have hstrings := Writes.flatMap fun text (_ : text ∈ strings) => writes_stringText text
  refine Writes.of_eq (hstrings.element (isPlain_plainTag "sst" (by simp))) ?_
  simp [tableText, List.flatMap_map, Tag.opening, Tag.closing, Tag.inside, plainTag]

theorem isResolved_tree (c : Encoded) (f : Forest) (h : f.IsResolved) : (c.tree f).IsResolved := by
  have text (s : String) : (Forest.withText s .nil).IsResolved := Forest.isResolved_nil.withText s
  refine Forest.IsResolved.element ?_ h _
  unfold Encoded.content textTree
  split
  · exact (text _).element Forest.isResolved_nil _
  · exact ((text _).element Forest.isResolved_nil _).element Forest.isResolved_nil _
  · exact (text _).element Forest.isResolved_nil _

theorem describes_sheetText (rows : List (List Encoded)) : Describes (sheetText rows) (sheetTree rows .nil) := by
  have hrow (cells : List Encoded) (f : Forest) (h : f.IsResolved) : (rowTree cells f).IsResolved := by
    have cells : (cells.foldr Encoded.tree .nil).IsResolved :=
      List.foldrRecOn _ _ Forest.isResolved_nil fun f hf c _ => isResolved_tree c f hf
    exact cells.element h _
  have hrows : (rows.foldr rowTree .nil).IsResolved :=
    List.foldrRecOn _ _ Forest.isResolved_nil fun f hf row _ => hrow row f hf
  have hdata : (Forest.element (plainTag "sheetData") (rows.foldr rowTree .nil) .nil).IsResolved :=
    hrows.element Forest.isResolved_nil _
  have hsheet : (sheetTree rows .nil).IsResolved := hdata.element Forest.isResolved_nil _
  have hlt : ∃ cs, (sheetText rows).toList = '<' :: cs := by simp [sheetText]
  obtain ⟨cs, hlt⟩ := hlt
  exact Xml.describes_iff.2 ⟨(writes_sheetText rows).spells hlt, rfl, hsheet⟩

theorem describes_tableText (strings : List String) : Describes (tableText strings) (tableTree strings .nil) := by
  have hstring (text : String) (f : Forest) (h : f.IsResolved) : (stringTree text f).IsResolved :=
    ((Forest.isResolved_nil.withText text).element Forest.isResolved_nil _).element h _
  have hstrings : (strings.foldr stringTree .nil).IsResolved :=
    List.foldrRecOn _ _ Forest.isResolved_nil fun f hf text _ => hstring text f hf
  have htable : (tableTree strings .nil).IsResolved := hstrings.element Forest.isResolved_nil _
  have hlt : ∃ cs, (tableText strings).toList = '<' :: cs := by simp [tableText]
  obtain ⟨cs, hlt⟩ := hlt
  exact Xml.describes_iff.2 ⟨(writes_tableText strings).spells hlt, rfl, htable⟩

/-! ## The shared texts -/

theorem every_withText_nil (p : Tag → Forest → Prop) (text : String) : (Forest.withText text .nil).Every p := by
  rw [Forest.every_withText]
  trivial

theorem tags_textTree (name text : String) (f : Forest) : (textTree name text f).tags = plainTag name :: f.tags := by
  simp [textTree, Forest.tags]

theorem stringsOf_foldr (strings : List String) : stringsOf (strings.foldr stringTree .nil) = strings := by
  have htree (text : String) (f : Forest) : stringsOf (stringTree text f) = text :: stringsOf f := by
    have hsi : (plainTag "si").isLocal "si" = true := by decide
    have ht : (plainTag "t").isLocal "rPh" = false ∧ (plainTag "t").isLocal "t" = true := by decide
    simp [stringTree, textTree, stringsOf, inPlaceOf, hsi, ht, Forest.data_withText, Forest.data]
  induction strings with
  | nil => rfl
  | cons text strings ih => rw [List.foldr_cons, htree, ih]

theorem keepsApart_foldr (strings : List String) : (strings.foldr stringTree .nil).Every KeepsApart := by
  refine List.foldrRecOn _ _ trivial fun f hf text _ => ?_
  have hentry : KeepsApart (plainTag "si") (textTree "t" text .nil) := by
    refine ⟨fun _ inner hinner => ?_, fun h => absurd h (by decide)⟩
    obtain rfl : inner = plainTag "t" := by simpa [tags_textTree, Forest.tags] using hinner
    decide
  have htext : KeepsApart (plainTag "t") (Forest.withText text .nil) :=
    ⟨fun h => absurd h (by decide), fun _ => by simp [Forest.tags]⟩
  exact ⟨hentry, ⟨htext, every_withText_nil _ text, trivial⟩, hf⟩

/-- **A table is read back.** -/
theorem ofText_tableText (strings : List String) : SharedStrings.ofText (tableText strings) = .ok ⟨strings.toArray⟩ := by
  have hplain : (tableTree strings .nil).Every KeepsApart :=
    ⟨⟨fun h => absurd h (by decide), fun h => absurd h (by decide)⟩, keepsApart_foldr strings, trivial⟩
  have htexts : stringsOf (tableTree strings .nil) = strings := by
    have hsst : (plainTag "sst").isLocal "si" = false := by decide
    simp [tableTree, stringsOf, hsst, stringsOf_foldr]
  rw [SharedStrings.ofText_of_describes (describes_tableText strings) hplain, htexts]

end OfficePreview.Sheet
