import OfficePreview.Xml.Reader
/-!
# SharedStrings — the texts that cells share

An entry is written in one piece or as a list of formatted pieces; its text is that of all its pieces, without the
pronunciation given beside them. Every entry counts, also an empty one, since cells name entries by number.
-/
namespace OfficePreview.Sheet

open Xml (Event)

/-- The entries of a table, in order. -/
structure SharedStrings where
  strings : Array String := #[]
deriving DecidableEq, Repr

namespace SharedStrings

def get? (s : SharedStrings) (index : Nat) : Option String := s.strings[index]?

def size (s : SharedStrings) : Nat := s.strings.size

def isEmpty (s : SharedStrings) : Bool := s.strings.isEmpty

/-- A table being read: the entries read, the entry that is open, whether a text is open in it, and how many
pronunciations are. -/
structure Builder where
  strings : Array String := #[]
  current : Option String := none
  inText : Bool := false
  phonetic : Nat := 0
deriving DecidableEq, Repr

def Builder.step (b : Builder) (e : Event) (_depth : Nat) : Builder :=
  match e with
  | .start tag =>
    if tag.isLocal "si" then { b with current := some "" }
    else if tag.isLocal "rPh" then { b with phonetic := b.phonetic + 1 }
    else if tag.isLocal "t" ∧ b.current.isSome ∧ b.phonetic = 0 then { b with inText := true }
    else b
  | .empty tag => if tag.isLocal "si" then { b with strings := b.strings.push "" } else b
  | .close name =>
    let base := Xml.localName name
    if base = "si" then
      { b with strings := b.strings.push (b.current.getD ""), current := none, phonetic := 0 }
    else if base = "rPh" then { b with phonetic := b.phonetic - 1 }
    else if base = "t" then { b with inText := false }
    else b
  | e =>
    if b.inText then
      match b.current, e.data? with
      | some text, some data => { b with current := some (text ++ data) }
      | _, _ => b
    else b

def ofText (text : String) : Except Xml.Fault SharedStrings :=
  (Xml.readAll Builder.step (fun b => ⟨b.strings⟩) {} text).2

end SharedStrings

end OfficePreview.Sheet
