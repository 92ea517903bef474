import OfficePreview.Xml.Reader
/-!
# Relationship — what a part refers to

A relationship has an identifier and a target, which is another part or, in external mode, something outside the package.
One without either is left out; of several with one identifier the first counts.
-/
namespace OfficePreview.Package

/-- A relationship of a part. -/
structure Relationship where
  id : String
  type : String
  target : String
  isExternal : Bool
deriving DecidableEq, Repr

def Relationship.ofTag? (tag : Xml.Tag) : Option Relationship := do
  let id ← tag.attribute? "Id"
  let target ← tag.attribute? "Target"
  some {
    id
    type := (tag.attribute? "Type").getD ""
    target
    isExternal := tag.attribute? "TargetMode" = some "External" }

/-- The relationships of a part, the last one first; their identifiers are distinct. -/
structure Relationships where
  entries : List Relationship := []
deriving DecidableEq, Repr

namespace Relationships

def get? (r : Relationships) (id : String) : Option Relationship := r.entries.find? (·.id = id)

def size (r : Relationships) : Nat := r.entries.length

def isEmpty (r : Relationships) : Bool := r.entries.isEmpty

/-- The relationships with one more, unless its identifier is taken. -/
def insertNew (r : Relationships) (entry : Relationship) : Relationships :=
  if (r.get? entry.id).isSome then r else ⟨entry :: r.entries⟩

/-- The relationships after one more event of their part. -/
def step (r : Relationships) (e : Xml.Event) (_depth : Nat) : Relationships :=
  match e.tag? with
  | some tag =>
    if tag.isLocal "Relationship" then
      match Relationship.ofTag? tag with
      | some entry => r.insertNew entry
      | none => r
    else r
  | none => r

def ofText (text : String) : Except Xml.Fault Relationships := (Xml.readAll step id {} text).2

end Relationships

end OfficePreview.Package
