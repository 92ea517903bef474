/-!
# Options — classes and texts of a fragment

Each kind of element can be given a class; an empty class writes no attribute. The standard classes are those of the pane
that shows the fragments.
-/
namespace OfficePreview.Html

/-- The classes of a fragment and the text that stands for an empty document. -/
structure Options where
  paragraphClass : String := "mb-2 text-sm text-slate-800"
  compactParagraphClass : String := "m-0 text-sm text-slate-800"
  tableClass : String := "mb-4 w-full border-collapse border border-slate-300 text-left"
  tableCellClass : String := "border border-slate-300 px-2 py-1 align-top"
  sheetTableClass : String := "w-full border-collapse text-left"
  sheetCaptionClass : String := "caption-top mb-2 text-left text-sm font-semibold text-slate-700"
  sheetCellClass : String := "border border-slate-200 px-2 py-1 text-xs text-slate-700"
  placeholderClass : String := "text-sm text-slate-600"
  emptyDocumentText : String := "(Document contained no visible text)"
deriving DecidableEq, Repr

def Options.plain : Options where
  paragraphClass := ""
  compactParagraphClass := ""
  tableClass := ""
  tableCellClass := ""
  sheetTableClass := ""
  sheetCaptionClass := ""
  sheetCellClass := ""
  placeholderClass := ""

end OfficePreview.Html
