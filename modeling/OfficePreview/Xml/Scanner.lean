import OfficePreview.Xml.Cut
import OfficePreview.Xml.Event
/-!
# Scanner — events one at a time

A scanner holds the text that is left and the names of the elements that are open, the innermost first. Character data
runs to the next `<` or `&` and is kept as it stands. A closing tag must have the name of the innermost open element.

Where text is cut into events, and what is refused, are the rules of the pull parser that previews are made with, taken
over whole. What the parts are read by is that

- a byte order mark at the start is dropped, once, and character data is otherwise as it stands, line ends included;
- a reference is an event of its own, and so is a section of character data, which ends at the first `]]>`;
- a tag ends at the first `>` outside quotes, and its name at the first white space;
- a closing tag is compared as it is written, without the white space at its end.

The rest decides only which fault is told of markup that is cut short, and where a comment, an instruction or a document
type ends; all of these are passed over.
-/
namespace OfficePreview.Xml

/-- The text that is left of a part and the names of its open elements. -/
structure Scanner where
  rest : List Char
  enclosing : List String
deriving DecidableEq, Repr

namespace Scanner

/-- A scanner at the start of a part; a byte order mark there is no part of the text. -/
def ofText (text : String) : Scanner where
  rest := match text.toList with
    | '\uFEFF' :: cs => cs
    | cs => cs
  enclosing := []

/-- The event of a start tag or a self-closing tag, given the text between its angle brackets. -/
def tagEvent (inside : List Char) : Event :=
  let (body, isEmpty) := match inside.reverse with
    | '/' :: body => (body.reverse, true)
    | _ => (inside, false)
  let tag : Tag :=
    ⟨String.ofList (body.takeWhile (!isSpace ·)), Attribute.scan (body.dropWhile (!isSpace ·))⟩
  if isEmpty then .empty tag else .start tag

/-- Reads a start tag or a self-closing tag, given the text after its `<`. -/
def openTag (enclosing : List String) (cs : List Char) : Except Fault (Event × Scanner) :=
  match cutTag none [] cs with
  | .error fault => .error fault
  | .ok (inside, rest) =>
    match tagEvent inside with
    | .start tag => .ok (.start tag, ⟨rest, tag.name :: enclosing⟩)
    | e => .ok (e, ⟨rest, enclosing⟩)

/-- The name in a closing tag. White space after it does not belong to it, unless there is nothing else. -/
def closingName (inside : List Char) : String :=
  match inside.reverse.dropWhile isSpace with
  | [] => String.ofList inside
  | name => String.ofList name.reverse

/-- Reads a closing tag, given the text after its `</`. -/
def closeTag (enclosing : List String) (cs : List Char) : Except Fault (Event × Scanner) :=
  match cutTag none [] cs with
  | .error fault => .error fault
  | .ok (inside, rest) =>
    match enclosing with
    | [] => .error (.unmatchedClose (closingName inside))
    | expected :: outer =>
      if closingName inside = expected then .ok (.close expected, ⟨rest, outer⟩)
      else .error (.mismatchedClose expected (closingName inside))

/-- Whether a text begins a declaration: the target `xml` and then one of the given characters, or nothing more. -/
def isDeclaration (next : Char → Bool) (cs : List Char) : Bool :=
  match cs with
  | 'x' :: 'm' :: 'l' :: c :: _ => next c
  | ['x', 'm', 'l'] => true
  | _ => false

/-- Reads an instruction or a declaration, given the text after its `<?`. -/
def instruction (enclosing : List String) (cs : List Char) : Except Fault (Event × Scanner) :=
  let unclosed : Construct := if isDeclaration (fun c => isSpace c || c = '?') cs then .declaration else .instruction
  match cs, cutAfter? "?>".toList [] cs with
  | '>' :: _, _ => .error (.notClosed unclosed)
  | _, none => .error (.notClosed unclosed)
  | _, some (inside, rest) =>
    .ok (.aside (if isDeclaration isSpace inside then .declaration else .instruction), ⟨rest, enclosing⟩)

/-- Reads a document type, given the text after its `<!`, which begins with a `D` of either case. -/
def doctype (enclosing : List String) (cs : List Char) : Except Fault (Event × Scanner) :=
  if (cs.take 7).map Char.toLower = "doctype".toList then
    match cutDoctype? .outside (cs.drop 7) with
    | none => .error (.notClosed .doctype)
    | some rest =>
      if ((cs.drop 7).dropWhile isSpace).head? = some '>' then .error .doctypeUnnamed
      else .ok (.aside .doctype, ⟨rest, enclosing⟩)
  else .error (.notClosed .doctype)

/-- Reads a comment, a section of character data or a document type, given the text after its `<!`. -/
def bang (enclosing : List String) (cs : List Char) : Except Fault (Event × Scanner) :=
  match cs with
  | '-' :: body =>
    match body with
    | '-' :: body =>
      match cutAfter? "-->".toList [] body with
      | none => .error (.notClosed .comment)
      | some (_, rest) => .ok (.aside .comment, ⟨rest, enclosing⟩)
    | _ => .error (.notClosed .comment)
  | '[' :: body =>
    if "CDATA[".toList.isPrefixOf body then
      match cutAfter? "]]>".toList [] (body.drop 6) with
      | none => .error (.notClosed .cdata)
      | some (inside, rest) => .ok (.cdata (String.ofList inside), ⟨rest, enclosing⟩)
    else .error (.notClosed .cdata)
  | c :: _ => if c = 'D' ∨ c = 'd' then doctype enclosing cs else .error .unknownMarkup
  | [] => .error .unknownMarkup

def markup (enclosing : List String) (cs : List Char) : Except Fault (Event × Scanner) :=
  match cs with
  | '!' :: body => bang enclosing body
  | '?' :: body => instruction enclosing body
  | '/' :: body => closeTag enclosing body
  | body => openTag enclosing body

def isReferenceName (c : Char) : Bool := c ≠ ';' && c ≠ '&' && c ≠ '<'

/-- Reads a reference, given the text after its `&`. -/
def reference (enclosing : List String) (cs : List Char) : Except Fault (Event × Scanner) :=
  match cs.dropWhile isReferenceName with
  | ';' :: rest => .ok (.reference (String.ofList (cs.takeWhile isReferenceName)), ⟨rest, enclosing⟩)
  | _ => .error .referenceNotClosed

/-- The characters of a stretch of character data. -/
def isData (c : Char) : Bool := c ≠ '<' && c ≠ '&'

/-- Reads one event; there is none at the end of the text. -/
def next (s : Scanner) : Except Fault (Option (Event × Scanner)) :=
  match s.rest with
  | [] => .ok none
  | '<' :: cs => (markup s.enclosing cs).map some
  | '&' :: cs => (reference s.enclosing cs).map some
  | cs => .ok (some (.text (String.ofList (cs.takeWhile isData)), ⟨cs.dropWhile isData, s.enclosing⟩))

/-! ## A scan ends

Every event takes at least one character off the text. -/

theorem length_of_openTag {enclosing : List String} {cs : List Char} {e : Event} {s : Scanner}
    (h : openTag enclosing cs = .ok (e, s)) : s.rest.length ≤ cs.length := by
  unfold openTag at h
  split at h
  · cases h
  · rename_i hc
    have := length_of_cutTag hc
    split at h <;> (cases h; exact this)

theorem length_of_closeTag {enclosing : List String} {cs : List Char} {e : Event} {s : Scanner}
    (h : closeTag enclosing cs = .ok (e, s)) : s.rest.length ≤ cs.length := by
  unfold closeTag at h
  split at h
  · cases h
  · rename_i hc
    have := length_of_cutTag hc
    split at h
    · cases h
    · split at h
      · cases h; exact this
      · cases h

theorem length_of_instruction {enclosing : List String} {cs : List Char} {e : Event} {s : Scanner}
    (h : instruction enclosing cs = .ok (e, s)) : s.rest.length ≤ cs.length := by
  unfold instruction at h
  dsimp only at h
  split at h
  · cases h
  · cases h
  · rename_i hc
    cases h
    exact length_of_cutAfter? hc

theorem length_of_doctype {enclosing : List String} {cs : List Char} {e : Event} {s : Scanner}
    (h : doctype enclosing cs = .ok (e, s)) : s.rest.length ≤ cs.length := by
  unfold doctype at h
  split at h
  · split at h
    · cases h
    · rename_i hc
      have := length_of_cutDoctype? hc
      rw [List.length_drop] at this
      split at h
      · cases h
      · cases h; exact Nat.le_trans this (Nat.sub_le ..)
  · cases h

theorem length_of_bang {enclosing : List String} {cs : List Char} {e : Event} {s : Scanner}
    (h : bang enclosing cs = .ok (e, s)) : s.rest.length ≤ cs.length := by
  unfold bang at h
  split at h
  · split at h
    · split at h
      · cases h
      · rename_i hc
        cases h
        have := length_of_cutAfter? hc
        simp only [List.length_cons]
        omega
    · cases h
  · split at h
    · split at h
      · cases h
      · rename_i hc
        cases h
        have := length_of_cutAfter? hc
        rw [List.length_drop] at this
        simp only [List.length_cons]
        omega
    · cases h
  · split at h
    · exact length_of_doctype h
    · cases h
  · cases h

theorem length_of_markup {enclosing : List String} {cs : List Char} {e : Event} {s : Scanner}
    (h : markup enclosing cs = .ok (e, s)) : s.rest.length ≤ cs.length := by
  unfold markup at h
  split at h
  · exact Nat.le_succ_of_le (length_of_bang h)
  · exact Nat.le_succ_of_le (length_of_instruction h)
  · exact Nat.le_succ_of_le (length_of_closeTag h)
  · exact length_of_openTag h

theorem length_of_reference {enclosing : List String} {cs : List Char} {e : Event} {s : Scanner}
    (h : reference enclosing cs = .ok (e, s)) : s.rest.length ≤ cs.length := by
  unfold reference at h
  split at h
  · rename_i rest hr
    cases h
    have hs := (List.dropWhile_suffix isReferenceName (l := cs)).length_le
    rw [hr] at hs
    exact Nat.le_of_succ_le hs
  · cases h

theorem length_of_next {s t : Scanner} {e : Event} (h : s.next = .ok (some (e, t))) :
    t.rest.length < s.rest.length := by
  unfold next at h
  split at h
  · cases h
  · rename_i cs hs
    rw [hs]
    cases hm : markup s.enclosing cs with
    | error f => simp [hm, Except.map] at h
    | ok p =>
      simp only [hm, Except.map, Except.ok.injEq, Option.some.injEq] at h
      subst h
      exact Nat.lt_succ_of_le (length_of_markup hm)
  · rename_i cs hs
    rw [hs]
    cases hm : reference s.enclosing cs with
    | error f => simp [hm, Except.map] at h
    | ok p =>
      simp only [hm, Except.map, Except.ok.injEq, Option.some.injEq] at h
      subst h
      exact Nat.lt_succ_of_le (length_of_reference hm)
  · rename_i hnil hlt hamp
    simp only [Except.ok.injEq, Option.some.injEq, Prod.mk.injEq] at h
    obtain ⟨-, rfl⟩ := h
    cases hs : s.rest with
    | nil => exact absurd hs hnil
    | cons c cs =>
      have hc : isData c = true := by
        unfold isData
        rw [hs] at hlt hamp
        have h1 : c ≠ '<' := fun hc => hlt cs (by rw [hc])
        have h2 : c ≠ '&' := fun hc => hamp cs (by rw [hc])
        simp [h1, h2]
      rw [List.dropWhile_cons, if_pos hc]
      exact Nat.lt_succ_of_le (List.dropWhile_suffix _).length_le

end Scanner

end OfficePreview.Xml
