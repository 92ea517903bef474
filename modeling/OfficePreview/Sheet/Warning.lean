import OfficePreview.Sheet.Grid
import OfficePreview.Sheet.Reference
import OfficePreview.Text.Quoted
/-!
# Warning — what a reading of a sheet leaves out or takes on trust
-/
namespace OfficePreview.Sheet

/-- What is doubtful about a sheet that can be read. -/
inductive Warning
  | relationshipType (part id type : String)
  | badReference (part reference : String)
  | beyondArea (position : Position)
  | noSharedString (index : String)
deriving DecidableEq, Repr

def Warning.message : Warning → String
  | .relationshipType part id type => s!"{part}: {id} has type {type}, reading it as a worksheet"
  | .badReference part reference => s!"{part}: skipping cell with invalid reference {Text.quote reference}"
  | .beyondArea position =>
    "skipping cell at row " ++ toString (position.row + 1) ++ ", column " ++ columnLetters position.column ++
      ": grid would exceed " ++ toString maxArea ++ " cells"
  | .noSharedString index => s!"shared string {Text.quote index} not found, using empty text"

end OfficePreview.Sheet
