import OfficePreview.Html.Fragment
import OfficePreview.Html.Options
import OfficePreview.Sheet.Grid
/-!
# Sheet — a grid as a table with an optional caption
-/
namespace OfficePreview.Html

def ofValue (o : Options) (value : String) : List Piece := wrap .td o.sheetCellClass [.text value]

def ofValues (o : Options) (row : Array String) : List Piece := wrap .tr "" (row.toList.flatMap (ofValue o))

def ofCaption (o : Options) : Option String → List Piece
  | some caption => wrap .caption o.sheetCaptionClass [.text caption]
  | none => []

def ofGrid (o : Options) (caption : Option String) (g : Sheet.Grid) : List Piece :=
  wrap .table o.sheetTableClass (ofCaption o caption ++ wrap .tbody "" (g.rows.toList.flatMap (ofValues o)))

end OfficePreview.Html

namespace OfficePreview.Sheet

def Grid.toHtml (g : Grid) (o : Html.Options := {}) (caption : Option String := none) : String :=
  Html.render (Html.ofGrid o caption g)

end OfficePreview.Sheet
