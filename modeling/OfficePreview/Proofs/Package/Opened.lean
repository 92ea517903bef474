import OfficePreview.Proofs.Html.Opened
import OfficePreview.Proofs.Package.Relationships
import OfficePreview.Proofs.Package.Validation
import OfficePreview.Proofs.Sheet.Opened
/-!
# Opened — a part reads the same with self-closing tags opened

The relationships of a part and the list of its sheets are told from its tags, of whatever form.  Documents, sheets and
tables of texts are read from start tags in some places and from both forms in others; what comes of it is the same where
a body, a value, an entry and a text are told from all others by where they stand (`opened_reads_same`).  Elsewhere it is
not: an opened body hides the body after it (`opened_body_hides_body`).
-/
namespace OfficePreview

open Xml (Tag Forest Describes IsWellFormed WrittenAs)

/-- **A well-formed part reads the same with self-closing tags opened.**  Its relationships and the first of its sheets
always do.  The strings of a table do if its entries are kept apart, the grid of a sheet if its cells can be told apart
and hold one value at most, and a document is written the same if it has one body at most. -/
theorem opened_reads_same (part : String) (shared : Sheet.SharedStrings) {text text' : String}
    {source source' : Xml.Source} {forest : Forest} (described : Describes text forest) (written : WrittenAs text source)
    (opens : source.Opens source') (htext : (Xml.Scanner.ofText text').rest = source'.text) :
    IsWellFormed text' ∧
      Package.Relationships.ofText text' = Package.Relationships.ofText text ∧
      Sheet.SheetEntry.firstOfText part text' = Sheet.SheetEntry.firstOfText part text ∧
      (forest.Every Sheet.KeepsApart → Sheet.SharedStrings.ofText text' = Sheet.SharedStrings.ofText text) ∧
      (forest.Every Sheet.IsPlain → forest.Every Sheet.HoldsOneValue →
        Sheet.Grid.ofText part shared text' = Sheet.Grid.ofText part shared text) ∧
      (forest.tags.countP (·.isWord "body") ≤ 1 →
        ∀ o, (Word.Document.ofText text').map (·.toHtml o) = (Word.Document.ofText text).map (·.toHtml o)) := by
  obtain ⟨forest', described', h⟩ := opens.exists_describes written described htext
  refine ⟨described'.isWellFormed, ?_, ?_, ?_, ?_, fun one o => ?_⟩
  · rw [Package.Relationships.ofText_of_describes described', Package.Relationships.ofText_of_describes described,
      h.tags_eq]
  · rw [Sheet.firstOfText_of_describes described', Sheet.firstOfText_of_describes described, h.tags_eq]
  · exact Sheet.SharedStrings.ofText_opened described described' h
  · exact Sheet.Grid.ofText_opened part shared described described' h
  · exact Html.toHtml_opened o described described' h one

/-- An empty element in a self-closing tag. -/
def Xml.Source.closed (body : String) (tag : Tag) (rest : Xml.Source) : Xml.Source :=
  .empty (Xml.selfClosing body.toList) tag rest

/-- An empty element in a start tag and a closing tag. -/
def Xml.Source.opened (body : String) (tag : Tag) (rest : Xml.Source) : Xml.Source :=
  .element (Xml.opening body.toList) tag .nil tag.closing rest

/-- A part with something to find for every reading, all of it in self-closing tags. -/
def emptiesText : String := "<a><body><p/></body><si/><c r=\"B1\"><v/></c><sheet name=\"n\"/></a>"

def openedText : String := "<a><body><p></p></body><si></si><c r=\"B1\"><v></v></c><sheet name=\"n\"></sheet></a>"

def emptiesSource (write : String → Tag → Xml.Source → Xml.Source) : Xml.Source :=
  .wrap ⟨"a", []⟩
    (.wrap ⟨"body", []⟩ (write "p" ⟨"p", []⟩ .nil)
      (write "si" ⟨"si", []⟩
        (.wrap ⟨"c", [⟨"r", "B1"⟩]⟩ (write "v" ⟨"v", []⟩ .nil)
          (write "sheet name=\"n\"" ⟨"sheet", [⟨"name", "n"⟩]⟩ .nil)))) .nil

theorem opened_reads_same_emptiesText :
    Sheet.SharedStrings.ofText openedText = Sheet.SharedStrings.ofText emptiesText ∧
      Sheet.Grid.ofText "p" {} openedText = Sheet.Grid.ofText "p" {} emptiesText ∧
      ∀ o, (Word.Document.ofText openedText).map (·.toHtml o) = (Word.Document.ofText emptiesText).map (·.toHtml o) := by
  have written : WrittenAs emptiesText (emptiesSource .closed) := ⟨by decide +kernel, by decide +kernel⟩
  have described := written.describes (by decide +kernel)
  have opens : (emptiesSource .closed).Opens (emptiesSource .opened) :=
    .element _ _ _
      (.element _ _ _ (.opened (by decide +kernel) .nil)
        (.opened (by decide +kernel)
          (.element _ _ _ (.opened (by decide +kernel) .nil) (.opened (by decide +kernel) .nil)))) .nil
  have htext : (Xml.Scanner.ofText openedText).rest = (emptiesSource .opened).text := by decide +kernel
  obtain ⟨-, -, -, strings, grid, document⟩ := opened_reads_same "p" {} described written opens htext
  exact ⟨strings (by decide +kernel), grid (by decide +kernel) (by decide +kernel), document (by decide +kernel)⟩

/-- A document with a body that holds nothing before a body with a text. -/
def bodiesText : String :=
  "<w:document><w:body/><w:body><w:p><w:r><w:t>x</w:t></w:r></w:p></w:body></w:document>"

def openedBodiesText : String :=
  "<w:document><w:body></w:body><w:body><w:p><w:r><w:t>x</w:t></w:r></w:p></w:body></w:document>"

def bodiesSource (write : String → Tag → Xml.Source → Xml.Source) : Xml.Source :=
  .wrap ⟨"w:document", []⟩
    (write "w:body" ⟨"w:body", []⟩
      (.wrap ⟨"w:body", []⟩
        (.wrap ⟨"w:p", []⟩
          (.wrap ⟨"w:r", []⟩ (.wrap ⟨"w:t", []⟩ (.leaf "x".toList (.text "x") .nil) .nil) .nil) .nil) .nil)) .nil

/-- **An opened body hides the body after it**: a document that shows a text with a self-closing tag shows none without. -/
theorem opened_body_hides_body :
    WrittenAs bodiesText (bodiesSource .closed) ∧ WrittenAs openedBodiesText (bodiesSource .opened) ∧
      (bodiesSource .closed).Opens (bodiesSource .opened) ∧
      (Word.Document.ofText bodiesText).map (·.toHtml .plain) = .ok "<p>x</p>" ∧
      (Word.Document.ofText openedBodiesText).map (·.toHtml .plain) =
        .ok "<p>(Document contained no visible text)</p>" := by
  have opens : (bodiesSource .closed).Opens (bodiesSource .opened) :=
    .element _ _ _ (.opened (by decide +kernel) (.refl _)) .nil
  refine ⟨⟨?_, ?_⟩, ⟨?_, ?_⟩, opens, ?_, ?_⟩ <;> decide +kernel

end OfficePreview
