/-!
# Paragraph — text with formatting

A run is a stretch of text under one set of formats, with a line break after it or not; a paragraph is a list of runs.
-/
namespace OfficePreview.Word

/-- A stretch of text under one set of formats. -/
structure Run where
  text : String := ""
  bold : Bool := false
  italic : Bool := false
  underline : Bool := false
  lineBreak : Bool := false
deriving DecidableEq, Repr, Inhabited

def Run.hasContent (r : Run) : Bool := r.text ≠ "" || r.lineBreak

/-- The text of a run, its break being the end of a line. -/
def Run.plainText (r : Run) : String := if r.lineBreak then r.text ++ "\n" else r.text

/-- A list of runs. -/
structure Paragraph where
  runs : List Run := []
deriving DecidableEq, Repr, Inhabited

def Paragraph.hasContent (p : Paragraph) : Bool := p.runs.any Run.hasContent

def Paragraph.text (p : Paragraph) : String := String.join (p.runs.map Run.plainText)

end OfficePreview.Word
