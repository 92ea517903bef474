/-!
# Fault — why a part is not well-formed
-/
namespace OfficePreview.Xml

/-- A construct that must be closed. -/
inductive Construct
  | instruction
  | declaration
  | comment
  | doctype
  | cdata
  | tag
  | value (quote : Char)
deriving DecidableEq, Repr

def Construct.name : Construct → String
  | .instruction => "processing instruction"
  | .declaration => "XML declaration"
  | .comment => "comment"
  | .doctype => "DOCTYPE"
  | .cdata => "CDATA"
  | .tag => "tag"
  | .value _ => "attribute value"

def Construct.terminator : Construct → String
  | .instruction | .declaration => "?>"
  | .comment => "-->"
  | .doctype | .tag => ">"
  | .cdata => "]]>"
  | .value quote => quote.toString

/-- Why a part is not well-formed. -/
inductive Fault
  | unknownMarkup
  | notClosed (construct : Construct)
  | doctypeUnnamed
  | referenceNotClosed
  | unmatchedClose (name : String)
  | mismatchedClose (expected found : String)
  | unknownReference (name : String)
  | secondRoot
  | noRoot
  | leftOpen (count : Nat)
deriving DecidableEq, Repr

def Fault.message : Fault → String
  | .unknownMarkup => "syntax error: unknown or missed symbol in markup"
  | .notClosed construct =>
    "syntax error: " ++ construct.name ++ " not closed: `" ++ construct.terminator ++ "` not found before end of input"
  | .doctypeUnnamed =>
    "ill-formed document: `<!DOCTYPE>` declaration does not contain a name of a document type"
  | .referenceNotClosed =>
    "ill-formed document: entity or character reference not closed: `;` not found before end of input"
  | .unmatchedClose name => s!"ill-formed document: close tag `</{name}>` does not match any open tag"
  | .mismatchedClose expected found =>
    s!"ill-formed document: expected `</{expected}>`, but `</{found}>` was found"
  | .unknownReference name => s!"unknown entity reference &{name};"
  | .secondRoot => "more than one root element"
  | .noRoot => "no root element"
  | .leftOpen count => s!"{count} element(s) left open at end of input"

end OfficePreview.Xml
