import OfficePreview.Proofs.Text.Numerals
import OfficePreview.Proofs.Xml.Writing
/-!
# Content — text and attributes that are read as they were written

A text has many written forms: any part of it may be escaped or stand in a section of character data, any character may
stand as a reference to its number, and comments may stand in between (`Piece`).  A piece adds the text that it stands for
to what is read after it (`Piece.writes`, `Piece.data_before`), hence an element holds its text, however that was cut into
pieces.

The attributes of a tag are listed by their keys and the values that they are written for (`Listing`).  The tag gives each
listed value under its key, and nothing else (`tells_listedTag`).
-/
namespace OfficePreview.Xml

/-! ## Pieces of content -/

/-- The name of a reference numbers a character, in base ten or, after an `x` of either case, in base sixteen. -/
inductive Numbers (c : Char) : List Char → Prop
  | decimal {digits : List Char} (h : Text.IsNumeral 10 digits c.toNat) : Numbers c ('#' :: digits)
  | hexadecimal {x : Char} {digits : List Char} (hx : x = 'x' ∨ x = 'X') (h : Text.IsNumeral 16 digits c.toNat) :
    Numbers c ('#' :: x :: digits)

/-- A piece of the content of an element. -/
inductive Piece
  | escaped (data : String)
  | cdata (data : String) (unended : ¬ "]]>".toList <:+: data.toList)
  | numbered (c : Char) (name : List Char) (numbers : Numbers c name)
  | comment (text : String) (dashless : '-' ∉ text.toList)

namespace Piece

def written : Piece → List Char
  | .escaped data => (escape data).toList
  | .cdata data _ => '<' :: '!' :: '[' :: ("CDATA[".toList ++ (data.toList ++ "]]>".toList))
  | .numbered _ name _ => '&' :: (name ++ [';'])
  | .comment text _ => '<' :: '!' :: '-' :: '-' :: (text.toList ++ "-->".toList)

/-- The text that a piece stands for. -/
def meaning : Piece → String
  | .escaped data => data
  | .cdata data _ => data
  | .numbered c _ _ => c.toString
  | .comment _ _ => ""

/-- Trees with what is read from a piece before them. -/
def before : Piece → Forest → Forest
  | .escaped data => Forest.withText data
  | .cdata data _ => .leaf (.cdata data)
  | .numbered _ name _ => .leaf (.reference (String.ofList name))
  | .comment _ _ => .leaf (.aside .comment)

end Piece

/-! ## References by number -/

theorem ofCode?_toNat (c : Char) : ofCode? c.toNat = some c := by
  have hvalid : c.toNat.isValidChar := c.valid
  rw [ofCode?, if_pos hvalid, Char.ofNat_toNat]

theorem dropPlus_of_number? {base n : Nat} {digits : List Char} (h : Text.number? base digits = some n) :
    dropPlus digits = digits := by
  unfold dropPlus
  split
  · rename_i digits
    have hplus : Text.digit? base '+' = none := by simp [Text.digit?]
    exact absurd hplus (Text.digit?_of_number? h '+' List.mem_cons_self)
  · rfl

/-- **A reference to the number of a character is resolved to the character.** -/
theorem Numbers.resolve {c : Char} {name : List Char} (h : Numbers c name) : resolveInText? name = some c := by
  cases h with
  | @decimal digits hn =>
    have hnumber : Text.number? 10 digits = some c.toNat := Text.number?_of_isNumeral (by decide) (by decide) hn
    have hx : Text.digit? 10 'x' = none ∧ Text.digit? 10 'X' = none := by decide
    unfold resolveInText?
    split
    · rename_i digits heq
      cases heq
      exact absurd hx.1 (Text.digit?_of_number? hnumber 'x' List.mem_cons_self)
    · rename_i digits heq
      cases heq
      exact absurd hx.2 (Text.digit?_of_number? hnumber 'X' List.mem_cons_self)
    · rename_i heq
      cases heq
      rw [dropPlus_of_number? hnumber, hnumber]
      exact ofCode?_toNat c
    · rename_i hne
      exact absurd rfl (hne digits)
  | @hexadecimal x digits hx hn =>
    have hnumber : Text.number? 16 digits = some c.toNat := Text.number?_of_isNumeral (by decide) (by decide) hn
    have hresolve : (Text.number? 16 (dropPlus digits) >>= ofCode?) = some c := by
      rw [dropPlus_of_number? hnumber, hnumber]
      exact ofCode?_toNat c
    rcases hx with rfl | rfl <;> exact hresolve

theorem isReferenceName_of_number? {base n : Nat} {digits : List Char} (h : Text.number? base digits = some n) :
    ∀ d ∈ digits, Scanner.isReferenceName d = true := by
  have hnone : ∀ d ∈ [';', '&', '<'], Text.digit? base d = none := by simp [Text.digit?]
  intro d hd
  have hne : d ∉ [';', '&', '<'] := fun hmem => Text.digit?_of_number? h d hd (hnone d hmem)
  simpa [Scanner.isReferenceName, and_assoc] using hne

theorem Numbers.isReferenceName {c : Char} {name : List Char} (h : Numbers c name) :
    ∀ d ∈ name, Scanner.isReferenceName d = true := by
  cases h with
  | decimal hn =>
    have hdigits := isReferenceName_of_number? (Text.number?_of_isNumeral (by decide) (by decide) hn)
    exact List.forall_mem_cons.2 ⟨by decide, hdigits⟩
  | hexadecimal hx hn =>
    have hdigits := isReferenceName_of_number? (Text.number?_of_isNumeral (by decide) (by decide) hn)
    refine List.forall_mem_cons.2 ⟨by decide, List.forall_mem_cons.2 ⟨?_, hdigits⟩⟩
    rcases hx with rfl | rfl <;> decide

/-! ## Sections and comments -/

/-- A construct ends at the first place where its end begins. -/
theorem cutAfter?_append {stop xs cs : List Char} (hne : stop ≠ [])
    (h : ∀ ys zs, xs = ys ++ zs → zs ≠ [] → ¬ stop <+: zs ++ (stop ++ cs)) (before : List Char) :
    cutAfter? stop before (xs ++ (stop ++ cs)) = some (before.reverse ++ xs, cs) := by
  induction xs generalizing before with
  | nil =>
    rw [List.nil_append, List.append_nil]
    cases stop with
    | nil => exact absurd rfl hne
    | cons s stop =>
      rw [List.cons_append, cutAfter?, if_pos (by simp), ← List.cons_append, List.drop_left]
  | cons x xs ih =>
    have hx : ¬ stop.isPrefixOf (x :: (xs ++ (stop ++ cs))) = true := fun hx =>
      h [] (x :: xs) rfl (List.cons_ne_nil x xs) (List.isPrefixOf_iff_prefix.1 hx)
    rw [List.cons_append, cutAfter?, if_neg hx, ih fun ys zs heq => h (x :: ys) zs (by rw [heq, List.cons_append])]
    simp

theorem cutAfter?_cdata {data : List Char} (h : ¬ "]]>".toList <:+: data) (cs : List Char) :
    cutAfter? "]]>".toList [] (data ++ ("]]>".toList ++ cs)) = some (data, cs) := by
  refine cutAfter?_append (by decide) ?_ []
  rintro ys zs rfl hne ⟨after, hafter⟩
  -- the end cannot begin in the last two characters, as it does not overlap itself
  match zs, hne with
  | [a], _ => simp at hafter
  | [a, b], _ => simp at hafter
  | a :: b :: c :: zs, _ =>
    have hend : "]]>".toList = [a, b, c] := by simpa using congrArg (List.take 3) hafter
    exact h ⟨ys, zs, by rw [hend]; simp⟩

theorem cutAfter?_comment {text : List Char} (h : '-' ∉ text) (cs : List Char) :
    cutAfter? "-->".toList [] (text ++ ("-->".toList ++ cs)) = some (text, cs) := by
  refine cutAfter?_append (by decide) ?_ []
  rintro ys zs rfl hne ⟨after, hafter⟩
  match zs, hne with
  | z :: zs, _ =>
    obtain ⟨rfl, -⟩ := List.cons.inj hafter
    exact h (List.mem_append_right ys List.mem_cons_self)

namespace Scanner

variable {names : List String}

theorem events_cdata {data : List Char} (h : ¬ "]]>".toList <:+: data) (cs : List Char) :
    events ⟨'<' :: '!' :: '[' :: ("CDATA[".toList ++ (data ++ ("]]>".toList ++ cs))), names⟩ =
      (events ⟨cs, names⟩).map (.cdata (String.ofList data) :: ·) := by
  refine events_of_markup ?_
  change bang names ('[' :: ("CDATA[".toList ++ (data ++ ("]]>".toList ++ cs)))) = _
  have hleads : "CDATA[".toList.isPrefixOf ("CDATA[".toList ++ (data ++ ("]]>".toList ++ cs))) = true :=
    List.isPrefixOf_iff_prefix.2 (List.prefix_append _ _)
  have hdrop : ("CDATA[".toList ++ (data ++ ("]]>".toList ++ cs))).drop 6 = data ++ ("]]>".toList ++ cs) :=
    List.drop_left' (by decide)
  simp only [bang, hleads, if_true, hdrop, cutAfter?_cdata h cs]

theorem events_comment {text : List Char} (h : '-' ∉ text) (cs : List Char) :
    events ⟨'<' :: '!' :: '-' :: '-' :: (text ++ ("-->".toList ++ cs)), names⟩ =
      (events ⟨cs, names⟩).map (.aside .comment :: ·) := by
  refine events_of_markup ?_
  change bang names ('-' :: '-' :: (text ++ ("-->".toList ++ cs))) = _
  simp only [bang, cutAfter?_comment h cs]

end Scanner

/-! ## What pieces write -/

namespace Piece

/-- **A piece is read as what it stands for**, whatever comes after it. -/
theorem writes (p : Piece) : Writes p.written p.before := by
  cases p with
  | escaped data => exact .text data
  | cdata data unended =>
    refine .leaf fun rest names => ?_
    have hevents : Scanner.events ⟨_, names⟩ = _ := Scanner.events_cdata unended rest
    simpa [written, Leaf.event] using hevents
  | numbered c name numbers => exact .reference numbers.isReferenceName
  | comment text dashless =>
    refine .leaf fun rest names => ?_
    have hevents : Scanner.events ⟨_, names⟩ = _ := Scanner.events_comment dashless rest
    simpa [written, Leaf.event] using hevents

theorem data_before (p : Piece) (f : Forest) : (p.before f).data = p.meaning ++ f.data := by
  cases p with
  | escaped data => exact Forest.data_withText data f
  | cdata data unended => rfl
  | numbered c name numbers =>
    simp [before, meaning, Forest.data, Leaf.data, Leaf.event, Event.data?, numbers.resolve]
  | comment text dashless => simp [before, meaning, Forest.data, Leaf.data, Leaf.event, Event.data?]

theorem tags_before (p : Piece) (f : Forest) : (p.before f).tags = f.tags := by
  cases p with
  | escaped data => exact Forest.tags_withText data f
  | _ => rfl

theorem isResolved_before (p : Piece) {f : Forest} (h : f.IsResolved) : (p.before f).IsResolved := by
  cases p with
  | escaped data => exact h.withText data
  | numbered c name numbers =>
    refine List.forall_mem_cons.2 ⟨?_, h⟩
    rw [String.toList_ofList, numbers.resolve]
    rfl
  | _ => exact h

end Piece

/-- The trees that pieces write. -/
def contentTree (pieces : List Piece) : Forest := pieces.foldr Piece.before .nil

theorem data_contentTree (pieces : List Piece) :
    (contentTree pieces).data = String.join (pieces.map Piece.meaning) := by
  induction pieces with
  | nil => rfl
  | cons p pieces ih =>
    rw [contentTree, List.foldr_cons, p.data_before, List.map_cons, String.join_cons]
    exact congrArg (p.meaning ++ ·) ih

theorem tags_contentTree (pieces : List Piece) : (contentTree pieces).tags = [] := by
  induction pieces with
  | nil => rfl
  | cons p pieces ih => exact (p.tags_before _).trans ih

theorem isResolved_contentTree (pieces : List Piece) : (contentTree pieces).IsResolved := by
  induction pieces with
  | nil => exact Forest.isResolved_nil
  | cons p pieces ih => exact p.isResolved_before ih

/-! ## Attributes that are listed -/

/-- An attribute that is written for a value, with any number of spaces before the one that it needs. -/
structure Listing where
  spaces : Nat
  key : String
  value : String

namespace Listing

def toAttribute (a : Listing) : Attribute := ⟨a.key, escape a.value⟩

def written (a : Listing) : List Char := Attribute.spaced (a.spaces, a.toAttribute)

end Listing

/-- A key ends at its equals sign: it has a character, and no white space, equals sign, `>` or quote. -/
structure IsKey (key : String) : Prop where
  ne : key.toList ≠ []
  isBare : ∀ c ∈ key.toList, IsBare c
  equals_notMem : '=' ∉ key.toList

theorem IsKey.isLegible {key : String} (h : IsKey key) (value : String) : (Attribute.mk key (escape value)).IsLegible :=
  ⟨h.ne, h.isBare, h.equals_notMem, quote_notMem_escape value⟩

/-- A key is `base` after some prefix and a colon. -/
def IsPrefixed (key base : String) : Prop := ∃ lead : String, ':' ∉ lead.toList ∧ key = lead ++ ":" ++ base

/-- **A tag tells what was listed**: every value under its key and under no other, and for a local name the value of the
first key that has this local name and a prefix. -/
structure Tag.Tells (tag : Tag) (as : List Listing) : Prop where
  attribute_eq : ∀ a ∈ as, tag.attribute? a.key = some a.value
  attribute_eq_none : ∀ key, key ∉ as.map Listing.key → tag.attribute? key = none
  prefixed_eq : ∀ first a rest base, as = first ++ a :: rest → IsPrefixed a.key base →
    (∀ b ∈ first, ¬ IsPrefixed b.key base) → tag.prefixed? base = some a.value
  prefixed_eq_none : ∀ base, (∀ a ∈ as, ¬ IsPrefixed a.key base) → tag.prefixed? base = none

theorem splitName_append {lead : String} (h : ':' ∉ lead.toList) (base : String) :
    splitName (lead ++ ":" ++ base) = (some lead, base) := by
  have hlist : (lead ++ ":" ++ base).toList = lead.toList ++ ':' :: base.toList := by simp
  have hlead : ∀ c ∈ lead.toList, decide (c ≠ ':') = true := fun c hc => decide_eq_true fun heq => h (heq ▸ hc)
  rw [splitName, hlist, List.dropWhile_append_of_pos hlead, List.takeWhile_append_of_pos hlead]
  simp

theorem exists_of_hasPrefix {key : String} (h : hasPrefix key) :
    ∃ lead : String, ':' ∉ lead.toList ∧ key = lead ++ ":" ++ localName key := by
  have happend : key.toList.takeWhile (· ≠ ':') ++ key.toList.dropWhile (· ≠ ':') = key.toList :=
    List.takeWhile_append_dropWhile
  have hhead := List.head?_dropWhile_not (· ≠ ':') key.toList
  have hlead : ∀ c ∈ key.toList.takeWhile (· ≠ ':'), decide (c ≠ ':') = true :=
    List.all_eq_true.1 List.all_takeWhile
  unfold hasPrefix splitName at h
  unfold localName splitName
  generalize key.toList.takeWhile (· ≠ ':') = lead at happend hlead
  generalize key.toList.dropWhile (· ≠ ':') = after at happend hhead h
  cases after with
  | nil => cases h
  | cons c rest =>
    obtain rfl : c = ':' := by simpa using hhead
    refine ⟨String.ofList lead, ?_, ?_⟩
    · rw [String.toList_ofList]
      exact fun hmem => of_decide_eq_true (hlead ':' hmem) rfl
    · rw [← String.toList_inj, ← happend]
      simp

theorem isPrefixed_iff {key base : String} : IsPrefixed key base ↔ hasPrefix key ∧ localName key = base := by
  constructor
  · rintro ⟨lead, hlead, rfl⟩
    rw [hasPrefix, localName, splitName_append hlead]
    exact ⟨rfl, rfl⟩
  · rintro ⟨hleads, rfl⟩
    exact exists_of_hasPrefix hleads

/-- The tag that is read for a list of attributes. -/
def listedTag (name : String) (as : List Listing) : Tag := ⟨name, as.map Listing.toAttribute⟩

/-- An attribute is found in the tag as it is in the list. -/
theorem value_find?_listed (p : String → Prop) [DecidablePred p] (as : List Listing) :
    ((as.map Listing.toAttribute).find? fun a => p a.key).map Attribute.value =
      (as.find? fun a => p a.key).map Listing.value := by
  rw [List.find?_map, Option.map_map]
  exact congrArg (Option.map · _) (funext fun a => value_escape a.key a.value)

theorem value_find?_first {p : String → Prop} [DecidablePred p] {first rest : List Listing} {a : Listing} (ha : p a.key)
    (h : ∀ b ∈ first, ¬ p b.key) :
    (((first ++ a :: rest).map Listing.toAttribute).find? fun a => p a.key).map Attribute.value = some a.value := by
  have hfirst : first.find? (fun a => p a.key) = none := List.find?_eq_none.2 fun b hb => by simpa using h b hb
  rw [value_find?_listed, List.find?_append, hfirst, List.find?_cons_of_pos (by simpa using ha)]
  rfl

theorem value_find?_none {p : String → Prop} [DecidablePred p] {as : List Listing} (h : ∀ a ∈ as, ¬ p a.key) :
    ((as.map Listing.toAttribute).find? fun a => p a.key).map Attribute.value = none := by
  have hnone : as.find? (fun a => p a.key) = none := List.find?_eq_none.2 fun a ha => by simpa using h a ha
  rw [value_find?_listed, hnone]
  rfl

/-- **The tag that is read tells what was listed.** -/
theorem tells_listedTag (name : String) {as : List Listing} (nodup : (as.map Listing.key).Nodup) :
    (listedTag name as).Tells as where
  attribute_eq a ha := by
    obtain ⟨first, rest, rfl⟩ := List.append_of_mem ha
    rw [List.map_append, List.map_cons, List.nodup_append] at nodup
    refine value_find?_first (p := (· = a.key)) rfl fun b hb heq => ?_
    exact nodup.2.2 b.key (List.mem_map_of_mem hb) a.key List.mem_cons_self heq
  attribute_eq_none key h := value_find?_none (p := (· = key)) fun a ha heq => h (heq ▸ List.mem_map_of_mem ha)
  prefixed_eq first a rest base h ha hfirst := by
    subst h
    exact value_find?_first (p := fun key => hasPrefix key ∧ localName key = base) (isPrefixed_iff.1 ha)
      fun b hb hp => hfirst b hb (isPrefixed_iff.2 hp)
  prefixed_eq_none base h :=
    value_find?_none (p := fun key => hasPrefix key ∧ localName key = base) fun a ha hp => h a ha (isPrefixed_iff.2 hp)

/-! ## Elements that are read -/

/-- The character data of a part, one event after the other. -/
def dataOf (text : String) : Except Fault String := parsePart (fun read e _ => read ++ e.data?.getD "") "" text

/-- The tags of a part, in the order of their events. -/
def tagsOf (text : String) : Except Fault (List Tag) := parsePart (fun tags e _ => tags ++ e.tag?.toList) [] text

theorem Forest.foldl_data (f : Forest) (depth : Nat) (read : String) :
    (f.events depth).foldl (fun read p => read ++ p.1.data?.getD "") read = read ++ f.data := by
  have hstart (tag : Tag) : (Event.start tag).data? = none := rfl
  have hempty (tag : Tag) : (Event.empty tag).data? = none := rfl
  have hclose (name : String) : (Event.close name).data? = none := rfl
  induction f generalizing depth read with
  | nil => simp [events, data]
  | element tag children rest ihc ihr => simp [events, data, ihc, ihr, hstart, hclose, String.append_assoc]
  | empty tag rest ihr => simp [events, data, ihr, hempty]
  | leaf l rest ihr => simp [events, data, ihr, Leaf.data, String.append_assoc]

theorem dataOf_of_describes {text : String} {f : Forest} (h : Describes text f) : dataOf text = .ok f.data := by
  rw [dataOf, h.parsePart, Forest.foldl_data, String.empty_append]

theorem tagsOf_of_describes {text : String} {f : Forest} (h : Describes text f) : tagsOf text = .ok f.tags := by
  have hstep (tags : List Tag) (e : Event) (_ : Nat) :
      tags ++ e.tag?.toList = e.tag?.elim tags fun tag => tags ++ [tag] := by
    cases e.tag? <;> simp
  have happend (tags : List Tag) : tags.foldl (fun tags tag => tags ++ [tag]) [] = tags := by
    simp [← List.flatMap_def]
  rw [tagsOf, h.parsePart, Forest.foldl_tags hstep, happend]

/-- What stands after the first angle bracket of a tag, up to its last one. -/
def insideOf (name : String) (as : List Listing) : List Char := name.toList ++ as.flatMap Listing.written

/-- An element as it is written: its start tag, the pieces of its content and its closing tag. -/
def elementText (name : String) (as : List Listing) (pieces : List Piece) : String :=
  String.ofList ('<' :: (insideOf name as ++ ['>']) ++
    (pieces.flatMap Piece.written ++ '<' :: '/' :: (name.toList ++ ['>'])))

/-- An element without content as it is written: a self-closing tag. -/
def emptyText (name : String) (as : List Listing) : String := String.ofList ('<' :: (insideOf name as ++ ['/', '>']))

section
variable {name : String} {as : List Listing}

theorem saidBy_insideOf (hname : IsLegible name) (keys : ∀ a ∈ as, IsKey a.key) (nodup : (as.map Listing.key).Nodup) :
    (listedTag name as).SaidBy (insideOf name as) :=
  Scanner.saidBy_map (fun a : Listing => (a.spaces, a.toAttribute)) hname (fun a ha => (keys a ha).isLegible a.value) nodup

theorem describes_elementText (said : (listedTag name as).SaidBy (insideOf name as)) (pieces : List Piece) :
    Describes (elementText name as pieces) (.element (listedTag name as) (contentTree pieces) .nil) := by
  have hlist : (elementText name as pieces).toList = '<' :: (insideOf name as ++ ['>']) ++
      (pieces.flatMap Piece.written ++ (listedTag name as).closing) := String.toList_ofList
  have hwrites := Writes.enclosed said (Writes.flatMap fun p (_ : p ∈ pieces) => p.writes)
  have hspells := (hwrites.of_eq hlist).spells hlist
  exact describes_iff.2 ⟨hspells, rfl, (isResolved_contentTree pieces).element Forest.isResolved_nil _⟩

theorem describes_emptyText (said : (listedTag name as).SaidBy (insideOf name as)) :
    Describes (emptyText name as) (.empty (listedTag name as) .nil) := by
  have hlist : (emptyText name as).toList = '<' :: (insideOf name as ++ ['/', '>']) := String.toList_ofList
  have hspells := ((Writes.selfClosed said).of_eq hlist).spells hlist
  exact describes_iff.2 ⟨hspells, rfl, Forest.isResolved_nil⟩

/-- **Reading undoes writing**: an element is accepted however its text was cut into pieces, and its character data is
the text.  Its tag, with content or without, is the only one of the part, and tells what was listed. -/
theorem reading_undoes_writing (hname : IsLegible name) (keys : ∀ a ∈ as, IsKey a.key)
    (nodup : (as.map Listing.key).Nodup) (pieces : List Piece) :
    dataOf (elementText name as pieces) = .ok (String.join (pieces.map Piece.meaning)) ∧
      ∃ tag : Tag, tag.name = name ∧ tag.Tells as ∧
        tagsOf (elementText name as pieces) = .ok [tag] ∧ tagsOf (emptyText name as) = .ok [tag] := by
  have said := saidBy_insideOf hname keys nodup
  have helement := describes_elementText said pieces
  have hempty := describes_emptyText said
  refine ⟨?_, listedTag name as, rfl, tells_listedTag name nodup, ?_, ?_⟩
  · rw [dataOf_of_describes helement, ← data_contentTree pieces]
    simp [Forest.data]
  · rw [tagsOf_of_describes helement]
    simp [Forest.tags, tags_contentTree]
  · rw [tagsOf_of_describes hempty]
    rfl

end

def noteListings : List Listing := [⟨0, "r:id", "a=\"b\""⟩, ⟨1, "id", "&lt;"⟩]

def notePieces : List Piece :=
  [.escaped "a & b ", .comment " c " (by decide), .numbered 'A' "#065".toList (.decimal ⟨1, by decide⟩),
    .numbered '\u263A' "#X263a".toList (.hexadecimal (.inr rfl) ⟨0, by decide⟩), .cdata "<x>]" (by decide)]

theorem reading_undoes_writing_note :
    elementText "t" noteListings notePieces =
        "<t r:id=\"a=&quot;b&quot;\"  id=\"&amp;lt;\">a &amp; b <!-- c -->&#065;&#X263a;<![CDATA[<x>]]]></t>" ∧
      dataOf (elementText "t" noteListings notePieces) = .ok "a & b A\u263A<x>]" ∧
      ∃ tag : Tag, tag.name = "t" ∧ tag.Tells noteListings ∧
        tagsOf (elementText "t" noteListings notePieces) = .ok [tag] ∧ tagsOf (emptyText "t" noteListings) = .ok [tag] := by
  have hname : IsLegible "t" := ⟨by decide, isBare_of_all (by decide), by decide, by simp⟩
  have keys : ∀ a ∈ noteListings, IsKey a.key := by
    intro a ha
    simp only [noteListings, List.mem_cons, List.not_mem_nil, or_false] at ha
    rcases ha with rfl | rfl <;> exact ⟨by decide, isBare_of_all (by decide), by decide⟩
  have nodup : (noteListings.map Listing.key).Nodup := by decide
  obtain ⟨htext, htags⟩ := reading_undoes_writing hname keys nodup notePieces
  have hmeaning : String.join (notePieces.map Piece.meaning) = "a & b A\u263A<x>]" := by decide
  exact ⟨by decide, hmeaning ▸ htext, htags⟩

end OfficePreview.Xml
