import OfficePreview.Xml.Attribute
/-!
# Event — what a part consists of

A part is read as a sequence of events: tags, character data, references, and markup that stands aside from the data.
-/
namespace OfficePreview.Xml

/-- The name and the attributes of a start tag or of a self-closing tag. -/
structure Tag where
  name : String
  attributes : List Attribute
deriving DecidableEq, Repr

namespace Tag

/-- The value of the attribute with this qualified name. -/
def attribute? (t : Tag) (key : String) : Option String := (t.attributes.find? (·.key = key)).map (·.value)

/-- The value of the first attribute with this local name and a prefix. -/
def prefixed? (t : Tag) (base : String) : Option String :=
  (t.attributes.find? fun a => hasPrefix a.key ∧ localName a.key = base).map (·.value)

def isLocal (t : Tag) (base : String) : Bool := localName t.name = base

/-- Whether the tag has the name `base` in the word-processing vocabulary. -/
def isWord (t : Tag) (base : String) : Bool := Xml.isWord t.name base

end Tag

/-- Markup without character data. -/
inductive Aside
  | comment
  | declaration
  | instruction
  | doctype
deriving DecidableEq, Repr

/-- One event of a part. -/
inductive Event
  | start (tag : Tag)
  | empty (tag : Tag)
  | close (name : String)
  | text (data : String)
  | cdata (data : String)
  | reference (name : String)
  | aside (kind : Aside)
deriving DecidableEq, Repr

/-- The tag of an event that begins an element, self-closing or not. -/
def Event.tag? : Event → Option Tag
  | .start tag => some tag
  | .empty tag => some tag
  | _ => none

/-- The character data of an event, references resolved. -/
def Event.data? : Event → Option String
  | .text data => some data
  | .cdata data => some data
  | .reference name => (resolveInText? name.toList).map Char.toString
  | _ => none

end OfficePreview.Xml
