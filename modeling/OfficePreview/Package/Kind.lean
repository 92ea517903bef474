import OfficePreview.Text.Blank
/-!
# Kind — the packages that have a preview

A download is recognised by the extension of its file name or, if the name has none, by its content type. The extension
is what follows the last dot of the name without its query; a dot at either end of the name makes no extension.
-/
namespace OfficePreview.Package

/-- The kinds of packages. -/
inductive Kind
  | wordProcessing
  | spreadsheet
deriving DecidableEq, Repr

namespace Kind

def extension : Kind → String
  | .wordProcessing => "docx"
  | .spreadsheet => "xlsx"

/-- The kind with a file extension, in letters of either case. -/
def ofExtension? (extension : List Char) : Option Kind :=
  let lower := extension.map Char.toLower
  if lower = "docx".toList then some .wordProcessing
  else if lower = "xlsx".toList then some .spreadsheet
  else none

def occursIn (part : List Char) : List Char → Bool
  | [] => part.isEmpty
  | c :: cs => part.isPrefixOf (c :: cs) || occursIn part cs

/-- The kind that a content type names, in letters of either case. -/
def ofContentType? (contentType : String) : Option Kind :=
  let lower := contentType.toList.map Char.toLower
  if occursIn "wordprocessingml".toList lower then some .wordProcessing
  else if occursIn "spreadsheetml".toList lower then some .spreadsheet
  else none

/-- A file name without white space around it and without its query. -/
def pathOf (name : String) : List Char := (Text.trim Text.isBlank name.toList).takeWhile (· ≠ '?')

def extensionOf? (path : List Char) : Option (List Char) :=
  match (path.reverse.takeWhile (· ≠ '.')).reverse, path.reverse.dropWhile (· ≠ '.') with
  | c :: cs, _dot :: _ :: _ => some (c :: cs)
  | _, _ => none

/-- The kind of a download by its file name; the content type counts only for a name without an extension. -/
def ofFileName? (name : String) (contentType : Option String) : Option Kind :=
  match extensionOf? (pathOf name) with
  | some extension => ofExtension? extension
  | none => contentType.bind ofContentType?

end Kind

end OfficePreview.Package
