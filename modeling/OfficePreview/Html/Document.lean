import OfficePreview.Html.Fragment
import OfficePreview.Html.Options
import OfficePreview.Word.Document
/-!
# Document — a document body as a fragment

Bold is outermost, then italic, then underline, and a break follows the text of its run. A paragraph that shows nothing and
a cell without paragraphs are kept visible by a blank. A document without blocks is replaced by a placeholder.
-/
namespace OfficePreview.Html

open Word (Run Paragraph Cell Row Table Block)

def formatted (r : Run) : List Piece :=
  let text := [.text r.text]
  let underlined := if r.underline then .openUnderline :: (text ++ [.closeTag .span]) else text
  let italic := if r.italic then wrap .em "" underlined else underlined
  if r.bold then wrap .strong "" italic else italic

def ofRun (r : Run) : List Piece :=
  (if r.text = "" then [] else formatted r) ++ (if r.lineBreak then [.lineBreak] else [])

def ofParagraph (className : String) (p : Paragraph) : List Piece :=
  wrap .p className (if p.hasContent then p.runs.flatMap ofRun else [.blank])

def ofCell (o : Options) (c : Cell) : List Piece :=
  wrap .td o.tableCellClass
    (if c.paragraphs.isEmpty then [.blank] else c.paragraphs.flatMap (ofParagraph o.compactParagraphClass))

def ofRow (o : Options) (r : Row) : List Piece := wrap .tr "" (r.cells.flatMap (ofCell o))

/-- A document table; it writes nothing without rows. -/
def ofTable (o : Options) (t : Table) : List Piece :=
  if t.isEmpty then [] else wrap .table o.tableClass (wrap .tbody "" (t.rows.flatMap (ofRow o)))

def ofBlock (o : Options) : Block → List Piece
  | .paragraph p => ofParagraph o.paragraphClass p
  | .table t => ofTable o t

def ofDocument (o : Options) (d : Word.Document) : List Piece :=
  if d.isEmpty then wrap .p o.placeholderClass [.text o.emptyDocumentText] else d.blocks.flatMap (ofBlock o)

end OfficePreview.Html

namespace OfficePreview.Word

def Document.toHtml (d : Document) (o : Html.Options := {}) : String := Html.render (Html.ofDocument o d)

end OfficePreview.Word
