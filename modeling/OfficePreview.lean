import OfficePreview.Preview
import OfficePreview.Proofs.Html.Documents
import OfficePreview.Proofs.Html.Sheets
import OfficePreview.Proofs.Package.Opened
import OfficePreview.Proofs.Package.Validation
import OfficePreview.Proofs.Sheet.Area
import OfficePreview.Proofs.Sheet.Encodings
import OfficePreview.Proofs.Sheet.SheetData
import OfficePreview.Proofs.Sheet.Sheets
import OfficePreview.Proofs.Word.Documents
import OfficePreview.Proofs.Xml.Nesting
import OfficePreview.Proofs.Zip.RoundTrip
import OfficePreview.Proofs.Zip.Agreement
import OfficePreview.Proofs.Package.Damage
import OfficePreview.Proofs.Zip.Comment
import OfficePreview.Proofs.Deflate.Inflated
import OfficePreview.Proofs.Zip.Truncated
import OfficePreview.Proofs.Xml.Content
import OfficePreview.Proofs.Sheet.Operations
import OfficePreview.Proofs.Package.PartNames
import OfficePreview.Proofs.Package.Parts
import OfficePreview.Proofs.Sheet.Entries
import OfficePreview.Proofs.Sheet.Located
import OfficePreview.Proofs.Package.Resolution
import OfficePreview.Proofs.Zip.Stored
import OfficePreview.Proofs.Sheet.LeftOut
import OfficePreview.Proofs.Html.Classes
import OfficePreview.Proofs.Xml.References
import OfficePreview.Proofs.Package.FileNames
import OfficePreview.Proofs.Package.Detection
import OfficePreview.Proofs.Word.Loops
