/-!
# Name — qualified names

A name with a colon has a prefix before its first colon and a local name after it; a name without one is its own local
name.
-/
namespace OfficePreview.Xml

def isSpace (c : Char) : Bool := c = ' ' || c = '\t' || c = '\r' || c = '\n'

def splitName (name : String) : Option String × String :=
  match name.toList.dropWhile (· ≠ ':') with
  | _ :: rest => (some (String.ofList (name.toList.takeWhile (· ≠ ':'))), String.ofList rest)
  | [] => (none, name)

def localName (name : String) : String := (splitName name).2

def hasPrefix (name : String) : Bool := (splitName name).1.isSome

/-- Whether `name` is `base`, alone or directly after `lead`. -/
def isNamed {α : Type} [BEq α] [Append α] (lead name base : α) : Bool := name == base || name == lead ++ base

/-- Whether an element of a word-processing part has the name `base`: with the prefix `w` or without one. Other prefixes
belong to other vocabularies, such as formulas and drawings. -/
def isWord (name base : String) : Bool := isNamed "w:" name base

def isWordBytes (name base : ByteArray) : Bool := isNamed "w:".toUTF8 name base

end OfficePreview.Xml
