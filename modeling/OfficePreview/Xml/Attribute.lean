import OfficePreview.Xml.Entity
import OfficePreview.Xml.Name
/-!
# Attribute — the attributes of a tag

The text after the name of a tag is read from left to right, one character at a time, and reading goes on after a
mistake:

- a key without an equals sign is dropped, and what stands in place of the sign starts the next key;
- a key that has occurred before is dropped with everything up to the next white space;
- a value without quotes is dropped up to the next white space;
- a value without a closing quote is dropped.

A key has at least one character: an equals sign in the place of a key is the first character of the key.

A key has occurred once its equals sign has been read, whatever became of its value. The attributes that remain have
distinct keys.

These are the rules of the same pull parser as in `Xml.Scanner`. The parts are read by the first attribute of a key, by
a value that stands between quotes of either kind, and by its references, or the raw text if one of them cannot be
resolved. How reading goes on after a mistake is taken over so that the same attributes are found behind it.
-/
namespace OfficePreview.Xml

/-- An attribute with the text between its quotes. -/
structure Attribute where
  key : String
  raw : String
deriving DecidableEq, Repr

/-- The value of an attribute; where a reference cannot be resolved, the text as it stands. -/
def Attribute.value (a : Attribute) : String :=
  match unescape? a.raw.toList with
  | some cs => String.ofList cs
  | none => a.raw

namespace Attribute

/-- Where in a tag the reader stands. Texts being read are held last character first. -/
inductive Place
  | gap
  | key (read : List Char)
  | keyEnd (read : List Char)
  | valueStart (key : List Char)
  | value (key : List Char) (quote : Char) (read : List Char)
  | skipping
deriving DecidableEq, Repr

/-- The reading of a tag: the place, the keys that have occurred and the attributes found, the last one first. -/
structure State where
  place : Place := .gap
  seen : List (List Char) := []
  found : List Attribute := []
deriving DecidableEq, Repr

def State.keyDone (s : State) (key : List Char) : State :=
  if s.seen.contains key then { s with place := .skipping }
  else { s with place := .valueStart key, seen := key :: s.seen }

def State.step (s : State) (c : Char) : State :=
  match s.place with
  | .gap => if isSpace c then s else { s with place := .key [c] }
  | .key read =>
    if c = '=' then s.keyDone read
    else if isSpace c then { s with place := .keyEnd read }
    else { s with place := .key (c :: read) }
  | .keyEnd read =>
    if isSpace c then s else if c = '=' then s.keyDone read else { s with place := .key [c] }
  | .valueStart key =>
    if isSpace c then s
    else if c = '"' ∨ c = '\'' then { s with place := .value key c [] }
    else { s with place := .skipping }
  | .value key quote read =>
    if c = quote then
      { s with
        place := .gap
        found := ⟨String.ofList key.reverse, String.ofList read.reverse⟩ :: s.found }
    else { s with place := .value key quote (c :: read) }
  | .skipping => if isSpace c then { s with place := .gap } else s

/-- The attributes in the text after the name of a tag. -/
def scan (cs : List Char) : List Attribute := (cs.foldl State.step {}).found.reverse

end Attribute

end OfficePreview.Xml
