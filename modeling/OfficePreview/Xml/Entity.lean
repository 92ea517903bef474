import OfficePreview.Text.Digits
/-!
# Entity — references to characters

Five characters have names; every character can be named by its number, in base ten or, after an `x`, in base sixteen.
Writing replaces the five characters by references and leaves all others alone, so that what is written holds no markup
and no quote.

References stand in two places with slightly different rules. In the text of an element the `x` may be a capital and the
number may carry a plus sign; in the value of an attribute neither is allowed, nor is the number zero.
-/
namespace OfficePreview.Xml

/-- How a character stands in text or in a quoted value. -/
def escapeChar (c : Char) : String :=
  if c = '&' then "&amp;"
  else if c = '<' then "&lt;"
  else if c = '>' then "&gt;"
  else if c = '"' then "&quot;"
  else if c = '\'' then "&#39;"
  else c.toString

/-- A text as it stands in an element or in a quoted value. -/
def escape (s : String) : String := String.join (s.toList.map escapeChar)

def named? (name : List Char) : Option Char :=
  if name = "amp".toList then some '&'
  else if name = "lt".toList then some '<'
  else if name = "gt".toList then some '>'
  else if name = "quot".toList then some '"'
  else if name = "apos".toList then some '\''
  else none

def ofCode? (n : Nat) : Option Char := if n.isValidChar then some (Char.ofNat n) else none

/-- Digits without the plus sign that may stand in front of them. -/
def dropPlus : List Char → List Char
  | '+' :: digits => digits
  | digits => digits

/-- The character that `&name;` stands for in the text of an element. -/
def resolveInText? (name : List Char) : Option Char :=
  match name with
  | '#' :: 'x' :: digits => Text.number? 16 (dropPlus digits) >>= ofCode?
  | '#' :: 'X' :: digits => Text.number? 16 (dropPlus digits) >>= ofCode?
  | '#' :: digits => Text.number? 10 (dropPlus digits) >>= ofCode?
  | _ => named? name

def ofPositiveCode? (n : Nat) : Option Char := if n = 0 then none else ofCode? n

/-- The character that `&name;` stands for in the value of an attribute. -/
def resolveInValue? (name : List Char) : Option Char :=
  match name with
  | '#' :: 'x' :: digits => Text.number? 16 digits >>= ofPositiveCode?
  | '#' :: digits => Text.number? 10 digits >>= ofPositiveCode?
  | _ => named? name

/-- The reading of a value so far: the characters it stands for, and the name of a reference that has been opened. Both
are held last character first. -/
abbrev ValueState := List Char × Option (List Char)

def valueStep : ValueState → Char → Option ValueState
  | (read, none), c => some (if c = '&' then (read, some []) else (c :: read, none))
  | (read, some name), c =>
    if c = ';' then (resolveInValue? name.reverse).map fun r => (r :: read, none)
    else if c = '&' then none
    else some (read, some (c :: name))

/-- The text that a value stands for, if all its references can be resolved. -/
def unescape? (raw : List Char) : Option (List Char) :=
  match raw.foldlM valueStep ([], none) with
  | some (read, none) => some read.reverse
  | _ => none

end OfficePreview.Xml
