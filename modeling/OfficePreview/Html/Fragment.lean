import OfficePreview.Xml.Entity
/-!
# Fragment — markup piece by piece

A fragment is a sequence of pieces: tags, text, and the few marks that stand for something in the text. Text and classes
are escaped when a piece is written, so all markup of a fragment is in its pieces.
-/
namespace OfficePreview.Html

/-- The elements of a fragment. -/
inductive Element
  | p
  | strong
  | em
  | span
  | table
  | caption
  | tbody
  | tr
  | td
deriving DecidableEq, Repr

def Element.name : Element → String
  | .p => "p"
  | .strong => "strong"
  | .em => "em"
  | .span => "span"
  | .table => "table"
  | .caption => "caption"
  | .tbody => "tbody"
  | .tr => "tr"
  | .td => "td"

/-- One piece of a fragment. -/
inductive Piece
  | openTag (element : Element) (className : String)
  | openUnderline
  | closeTag (element : Element)
  | text (data : String)
  | lineBreak
  | blank
deriving DecidableEq, Repr

/-- The text of a piece. An empty class writes no attribute. -/
def Piece.render : Piece → String
  | .openTag element className =>
    if className = "" then "<" ++ element.name ++ ">"
    else "<" ++ element.name ++ " class=\"" ++ Xml.escape className ++ "\">"
  | .openUnderline => "<span style=\"text-decoration: underline;\">"
  | .closeTag element => "</" ++ element.name ++ ">"
  | .text data => Xml.escape data
  | .lineBreak => "<br/>"
  | .blank => "&nbsp;"

def render (pieces : List Piece) : String := String.join (pieces.map Piece.render)

def wrap (element : Element) (className : String) (inside : List Piece) : List Piece :=
  .openTag element className :: (inside ++ [.closeTag element])

end OfficePreview.Html
