import OfficePreview.Proofs.Package.PartNames
import OfficePreview.Proofs.Package.Parts
import OfficePreview.Proofs.Package.Relationships
import OfficePreview.Proofs.Zip.RoundTrip
/-!
# Located — where the first sheet of a package lies

Two parts lead to the first sheet: the workbook, of which the first sheet counts (`ListsFirst`), and the relationships of
the workbook, of which the first that declares the identifier of this sheet counts (`DeclaresFirst`).  Its target is a
name within the directory of the workbook, or a name from the root where only that one is in the package (`LeadsTo`).
`Locates` says when these lead to a part, and `Misses` when they do not and why; the reasons are listed in the order in
which they are looked for, each under the condition that none before it applies.

Since a part is withheld or held and a list has a first member or none, one of the two always applies
(`locates_or_misses`), and the search comes to what they say (`locateFirst_finds_first_sheet`).
-/
namespace OfficePreview.Sheet

open Xml (Tag Forest Describes)
open Zip (Archive)
open Package (Relationship Relationships Holds Withholds declares nameWithin readThrough ofReading workbookPart
  workbookRelationshipsPart)

variable {a : Archive}

/-! ## What leads to the first sheet -/

/-- The workbook can be read, and `sheet` is the first tag in it that is named as a sheet. -/
def ListsFirst (a : Archive) (sheet : Tag) : Prop :=
  ∃ forest, Holds a workbookPart forest ∧ forest.tags.find? (·.isLocal "sheet") = some sheet

/-- The relationships of the workbook can be read, and `link` is the first tag in them that declares the identifier. -/
def DeclaresFirst (a : Archive) (id : String) (link : Tag) : Prop :=
  ∃ forest, Holds a workbookRelationshipsPart forest ∧ forest.tags.find? (declares id) = some link

/-- The entry that the target of a sheet names.  It lies within the directory of the workbook, unless there is no such
entry but one that has the target without the slash in front of it as its name, letter by letter. -/
inductive LeadsTo (a : Archive) (target : String) : String → Prop
  | within : (∀ rest, target = "/" ++ rest → a.contains (nameWithin target) = false → a.contains rest = false) →
    LeadsTo a target (nameWithin target)
  | fromRoot {rest : String} : target = "/" ++ rest → a.contains (nameWithin target) = false →
    a.contains rest = true → LeadsTo a target rest

/-- The first sheet has a name and lies in a part. -/
inductive Locates (a : Archive) : String → String → Prop
  | intro {sheet link : Tag} {id target part : String} : ListsFirst a sheet → sheet.prefixed? "id" = some id →
    DeclaresFirst a id link → link.attribute? "TargetMode" ≠ some "External" →
    link.attribute? "Target" = some target → LeadsTo a target part →
    Locates a ((sheet.attribute? "name").getD "Sheet1") part

/-- Why there is no first sheet. -/
inductive Misses (a : Archive) : Error → Prop
  | workbook {e : Error} : Withholds a workbookPart e → Misses a e
  | noSheet {forest : Forest} : Holds a workbookPart forest → (∀ tag ∈ forest.tags, tag.isLocal "sheet" = false) →
    Misses a .noWorksheets
  | noId {sheet : Tag} : ListsFirst a sheet → sheet.prefixed? "id" = none →
    Misses a (.missingRelationship (.noId ((sheet.attribute? "name").getD "Sheet1")))
  | relationships {sheet : Tag} {id : String} {e : Error} : ListsFirst a sheet → sheet.prefixed? "id" = some id →
    Withholds a workbookRelationshipsPart e → Misses a e
  | undeclared {sheet : Tag} {id : String} {forest : Forest} : ListsFirst a sheet → sheet.prefixed? "id" = some id →
    Holds a workbookRelationshipsPart forest → (∀ tag ∈ forest.tags, declares id tag = false) →
    Misses a (.missingRelationship (.undeclared id))
  | outside {sheet link : Tag} {id target : String} : ListsFirst a sheet → sheet.prefixed? "id" = some id →
    DeclaresFirst a id link → link.attribute? "TargetMode" = some "External" →
    link.attribute? "Target" = some target → Misses a (.missingRelationship (.outside id target))

/-! ## The name of the part -/

theorem eq_slash_iff {target : String} {rest : List Char} :
    target.toList = '/' :: rest ↔ target = "/" ++ String.ofList rest := by
  rw [← String.toList_inj, String.toList_append, String.toList_ofList (l := rest)]
  rfl

theorem sheetPart_of_leadsTo {target part : String} (h : LeadsTo a target part) : sheetPart a target = part := by
  rw [sheetPart, Package.entryName_within]
  cases h with
  | within hrest =>
    by_cases hin : a.contains (nameWithin target) = true
    · rw [if_pos hin]
    · rw [if_neg hin]
      split
      · rename_i rest ht
        rw [if_neg (by simp [hrest _ (eq_slash_iff.1 ht) (by simpa using hin)])]
      · rfl
  | fromRoot ht hin hroot =>
    rw [← String.ofList_toList (s := part)] at ht
    rw [eq_slash_iff.2 ht]
    simp [hin, hroot]

theorem exists_leadsTo (a : Archive) (target : String) : ∃ part, LeadsTo a target part := by
  by_cases h : ∃ rest, target = "/" ++ rest ∧ a.contains (nameWithin target) = false ∧ a.contains rest = true
  · obtain ⟨rest, ht, hin, hroot⟩ := h
    exact ⟨rest, .fromRoot ht hin hroot⟩
  · refine ⟨_, .within fun rest ht hin => ?_⟩
    cases hroot : a.contains rest with
    | false => rfl
    | true => exact absurd ⟨rest, ht, hin, hroot⟩ h

/-! ## What the two parts come to -/

/-- The step that reads the first entry of the workbook. -/
def readEntry (a : Archive) : Attempt SheetEntry := readThrough a workbookPart (SheetEntry.firstOfText workbookPart)

/-- The step that reads the relationships of the workbook. -/
def readLinks (a : Archive) : Attempt Relationships :=
  readThrough a workbookRelationshipsPart fun text => ofReading workbookRelationshipsPart (Relationships.ofText text)

theorem outcome_readEntry_of_withholds {e : Error} (h : Withholds a workbookPart e) :
    (readEntry a).outcome = .error e :=
  Package.outcome_readThrough_of_withholds (fun _ _ => firstOfText_of_invalid) h

theorem outcome_readEntry_of_holds {forest : Forest} (h : Holds a workbookPart forest) : (readEntry a).outcome =
    match forest.tags.find? (·.isLocal "sheet") with
    | some tag => .ok (.ofTag tag)
    | none => .error .noWorksheets :=
  Package.outcome_readThrough_of_holds (fun _ => firstOfText_of_describes) h

theorem outcome_readLinks_of_withholds {e : Error} (h : Withholds a workbookRelationshipsPart e) :
    (readLinks a).outcome = .error e :=
  Package.outcome_readThrough_of_withholds
    (fun text e => (Package.failsAs_relationships workbookRelationshipsPart text e).2) h

theorem outcome_readLinks_of_holds {forest : Forest} (h : Holds a workbookRelationshipsPart forest) :
    (readLinks a).outcome = .ok (.ofTags forest.tags) :=
  Package.outcome_readThrough_of_holds
    (fun text described => by rw [Relationships.ofText_of_describes described]; rfl) h

/-! ## The search -/

/-- What the search comes to once the identifier of the sheet has been looked up. -/
def arrive (a : Archive) (name id : String) : Option Relationship → Except Error (String × String)
  | none => .error (.missingRelationship (.undeclared id))
  | some r =>
    if r.isExternal then .error (.missingRelationship (.outside id r.target)) else .ok (name, sheetPart a r.target)

/-- The outcome of the search, from the outcomes of its two reading steps; what is warned of makes no difference. -/
theorem outcome_locateFirst (a : Archive) : (locateFirst a).outcome = (readEntry a).outcome.bind fun entry =>
    match entry.relationshipId with
    | none => .error (.missingRelationship (.noId entry.name))
    | some id => (readLinks a).outcome.bind fun found => arrive a entry.name id (found.get? id) := by
  rw [locateFirst, ← bind_assoc, Report.outcome_bind]
  refine congrArg (Except.bind _) (funext fun entry => ?_)
  cases entry.relationshipId with
  | none => rfl
  | some id =>
    dsimp only
    rw [← bind_assoc, Report.outcome_bind]
    refine congrArg (Except.bind _) (funext fun found => ?_)
    cases found.get? id with
    | none => rfl
    | some r =>
      rw [arrive]
      dsimp only
      split
      · rfl
      · split <;> rfl

theorem outcome_of_withholds {e : Error} (h : Withholds a workbookPart e) : (locateFirst a).outcome = .error e := by
  rw [outcome_locateFirst, outcome_readEntry_of_withholds h]
  rfl

theorem outcome_of_noSheet {forest : Forest} (held : Holds a workbookPart forest)
    (hnone : ∀ tag ∈ forest.tags, tag.isLocal "sheet" = false) : (locateFirst a).outcome = .error .noWorksheets := by
  rw [outcome_locateFirst, outcome_readEntry_of_holds held, List.find?_eq_none.2 fun tag h => by simp [hnone tag h]]
  rfl

variable {sheet link : Tag} {id target : String}

theorem outcome_of_noId (listed : ListsFirst a sheet) (hid : sheet.prefixed? "id" = none) : (locateFirst a).outcome =
    .error (.missingRelationship (.noId ((sheet.attribute? "name").getD "Sheet1"))) := by
  obtain ⟨forest, held, first⟩ := listed
  rw [outcome_locateFirst, outcome_readEntry_of_holds held, first]
  simp only [Except.bind, SheetEntry.ofTag, hid]

/-- With an identifier, the search goes on in the relationships. -/
theorem outcome_of_id (listed : ListsFirst a sheet) (hid : sheet.prefixed? "id" = some id) : (locateFirst a).outcome =
    (readLinks a).outcome.bind fun found =>
      arrive a ((sheet.attribute? "name").getD "Sheet1") id (found.get? id) := by
  obtain ⟨forest, held, first⟩ := listed
  rw [outcome_locateFirst, outcome_readEntry_of_holds held, first]
  simp only [Except.bind, SheetEntry.ofTag, hid]

theorem outcome_of_undeclared {forest : Forest} (listed : ListsFirst a sheet) (hid : sheet.prefixed? "id" = some id)
    (held : Holds a workbookRelationshipsPart forest) (hnone : ∀ tag ∈ forest.tags, declares id tag = false) :
    (locateFirst a).outcome = .error (.missingRelationship (.undeclared id)) := by
  rw [outcome_of_id listed hid, outcome_readLinks_of_holds held, Except.bind, Relationships.get?_ofTags,
    List.find?_eq_none.2 fun tag h => by simp [hnone tag h]]
  rfl

theorem DeclaresFirst.exists_target (declared : DeclaresFirst a id link) :
    ∃ target, link.attribute? "Target" = some target := by
  obtain ⟨forest, -, first⟩ := declared
  exact (Package.declares_iff.1 (List.find?_some first)).2.2

/-- **The first declaration of the identifier decides**, by its mode and its target. -/
theorem outcome_of_declared (listed : ListsFirst a sheet) (hid : sheet.prefixed? "id" = some id)
    (declared : DeclaresFirst a id link) (htarget : link.attribute? "Target" = some target) : (locateFirst a).outcome =
      if link.attribute? "TargetMode" = some "External" then .error (.missingRelationship (.outside id target))
      else .ok ((sheet.attribute? "name").getD "Sheet1", sheetPart a target) := by
  obtain ⟨forest, held, first⟩ := declared
  obtain ⟨-, hdeclared, -⟩ := Package.declares_iff.1 (List.find?_some first)
  rw [outcome_of_id listed hid, outcome_readLinks_of_holds held, Except.bind, Relationships.get?_ofTags, first,
    Option.bind_some, Package.ofTag?_eq hdeclared htarget, arrive]
  simp only [decide_eq_true_eq]

theorem outcome_of_locates {name part : String} (h : Locates a name part) :
    (locateFirst a).outcome = .ok (name, part) := by
  obtain ⟨listed, hid, declared, hmode, htarget, leads⟩ := h
  rw [outcome_of_declared listed hid declared htarget, if_neg hmode, sheetPart_of_leadsTo leads]

theorem outcome_of_misses {e : Error} (h : Misses a e) : (locateFirst a).outcome = .error e := by
  cases h with
  | workbook withheld => exact outcome_of_withholds withheld
  | noSheet held hnone => exact outcome_of_noSheet held hnone
  | noId listed hid => exact outcome_of_noId listed hid
  | relationships listed hid withheld =>
    rw [outcome_of_id listed hid, outcome_readLinks_of_withholds withheld]
    rfl
  | undeclared listed hid held hnone => exact outcome_of_undeclared listed hid held hnone
  | outside listed hid declared hmode htarget =>
    rw [outcome_of_declared listed hid declared htarget, if_pos hmode]

/-- **There is a first sheet or a reason why not.** -/
theorem locates_or_misses (a : Archive) : (∃ name part, Locates a name part) ∨ ∃ e, Misses a e := by
  rcases Package.withholds_or_holds a workbookPart with ⟨e, withheld⟩ | ⟨forest, held⟩
  · exact .inr ⟨e, .workbook withheld⟩
  cases first : forest.tags.find? (·.isLocal "sheet") with
  | none => exact .inr ⟨_, .noSheet held (by simpa using first)⟩
  | some sheet =>
    have listed : ListsFirst a sheet := ⟨forest, held, first⟩
    cases hid : sheet.prefixed? "id" with
    | none => exact .inr ⟨_, .noId listed hid⟩
    | some id =>
      rcases Package.withholds_or_holds a workbookRelationshipsPart with ⟨e, withheld⟩ | ⟨links, held⟩
      · exact .inr ⟨e, .relationships listed hid withheld⟩
      cases first : links.tags.find? (declares id) with
      | none => exact .inr ⟨_, .undeclared listed hid held (by simpa using first)⟩
      | some link =>
        have declared : DeclaresFirst a id link := ⟨links, held, first⟩
        obtain ⟨target, htarget⟩ := declared.exists_target
        by_cases hmode : link.attribute? "TargetMode" = some "External"
        · exact .inr ⟨_, .outside listed hid declared hmode htarget⟩
        · obtain ⟨part, leads⟩ := exists_leadsTo a target
          exact .inl ⟨_, part, .intro listed hid declared hmode htarget leads⟩

/-- **The first sheet that the workbook lists is found, by the first relationship that its identifier declares.**  The
search comes to a name and a part exactly where these are located, and to an error exactly where it is the reason why they
are not.  Nothing else in the two parts counts: in a package with the same entries, of which the workbook begins its list
with the same sheet and the relationships declare its identifier in the same way, it comes to the same. -/
theorem locateFirst_finds_first_sheet (a : Archive) :
    (∀ name part, (locateFirst a).outcome = .ok (name, part) ↔ Locates a name part) ∧
      (∀ e, (locateFirst a).outcome = .error e ↔ Misses a e) ∧
      ∀ a' sheet, ListsFirst a sheet → ListsFirst a' sheet →
        (∀ id, sheet.prefixed? "id" = some id → ∃ link, DeclaresFirst a id link ∧ DeclaresFirst a' id link) →
          (∀ name, a'.contains name = a.contains name) → (locateFirst a').outcome = (locateFirst a).outcome := by
  refine ⟨fun name part => ⟨fun h => ?_, outcome_of_locates⟩, fun e => ⟨fun h => ?_, outcome_of_misses⟩, ?_⟩
  · rcases locates_or_misses a with ⟨name', part', located⟩ | ⟨e, misses⟩
    · rw [outcome_of_locates located, Except.ok.injEq, Prod.mk.injEq] at h
      obtain ⟨rfl, rfl⟩ := h
      exact located
    · rw [outcome_of_misses misses] at h
      cases h
  · rcases locates_or_misses a with ⟨name, part, located⟩ | ⟨e', misses⟩
    · rw [outcome_of_locates located] at h
      cases h
    · rw [outcome_of_misses misses, Except.error.injEq] at h
      subst h
      exact misses
  · intro a' sheet listed listed' same contains
    cases hid : sheet.prefixed? "id" with
    | none => rw [outcome_of_noId listed hid, outcome_of_noId listed' hid]
    | some id =>
      obtain ⟨link, declared, declared'⟩ := same id hid
      obtain ⟨target, htarget⟩ := declared.exists_target
      rw [outcome_of_declared listed hid declared htarget, outcome_of_declared listed' hid declared' htarget]
      simp only [sheetPart, contains]

/-- A package that is written holds what its last item of a name describes. -/
theorem holds_of_getLast? {l : Zip.Layout} {part text : String} {forest : Forest} (described : Describes text forest)
    (hlast : (l.items.filter (·.name = part)).getLast?.map (·.content) = some text.toUTF8) :
    Holds l.archive part forest := by
  refine ⟨text.toUTF8, ?_, ?_⟩
  · rw [Zip.Layout.read_archive, hlast]
    rfl
  · rw [Text.decode_toUTF8]
    exact described

/-- A package of a workbook, its relationships and a sheet. -/
def linkedLayout (workbook links : String) : Zip.Layout where
  items := [Zip.plainItem workbookPart workbook.toUTF8 (by decide),
    Zip.plainItem workbookRelationshipsPart links.toUTF8 (by decide),
    Zip.plainItem "xl/a.xml" "<c><v>1</v></c>".toUTF8 (by decide)]
  gap := []
  disks := .replicate 6 0
  commentLength := ⟨#[1, 0], rfl⟩
  comment := [0x50]
  items_lt := by simp
  comment_lt := by decide

theorem listsFirst_linkedLayout {workbook links : String} (forest : Forest) (described : Describes workbook forest)
    (first : forest.tags.find? (·.isLocal "sheet") = some sheet) :
    ListsFirst (linkedLayout workbook links).archive sheet :=
  ⟨forest, holds_of_getLast? described rfl, first⟩

theorem declaresFirst_linkedLayout {workbook links : String} (forest : Forest) (described : Describes links forest)
    (first : forest.tags.find? (declares id) = some link) :
    DeclaresFirst (linkedLayout workbook links).archive id link :=
  ⟨forest, holds_of_getLast? described rfl, first⟩

theorem contains_linkedLayout (workbook links name : String) : (linkedLayout workbook links).archive.contains name =
    decide (name ∈ [workbookPart, workbookRelationshipsPart, "xl/a.xml"]) := by
  rw [Bool.eq_iff_iff, (linkedLayout workbook links).indexes_archive.contains_iff, Zip.Layout.exists_entry_iff,
    decide_eq_true_eq]
  rfl

/-- A sheet before another one, and declarations of its identifier before and after the one that counts. -/
def laterSheetsLayout : Zip.Layout := linkedLayout
  "<w><sheet name='S' r:id='a'/><sheet r:id='b'/></w>"
  "<l><Relationship Id='a'/><p:Relationship Id='a' Target='/xl/a.xml'/><Relationship Id='a' Target='t.xml'/></l>"

def oneSheetLayout : Zip.Layout :=
  linkedLayout "<sheet name='S' r:id='a'/>" "<p:Relationship Id='a' Target='/xl/a.xml'/>"

theorem locateFirst_finds_first_sheet_laterSheets :
    (locateFirst laterSheetsLayout.archive).outcome = .ok ("S", "xl/a.xml") ∧
      (locateFirst oneSheetLayout.archive).outcome = .ok ("S", "xl/a.xml") := by
  let sheet : Tag := ⟨"sheet", [⟨"name", "S"⟩, ⟨"r:id", "a"⟩]⟩
  let link : Tag := ⟨"p:Relationship", [⟨"Id", "a"⟩, ⟨"Target", "/xl/a.xml"⟩]⟩
  let sheets : Forest := .element ⟨"w", []⟩ (.empty sheet (.empty ⟨"sheet", [⟨"r:id", "b"⟩]⟩ .nil)) .nil
  let links : Forest := .element ⟨"l", []⟩ (.empty ⟨"Relationship", [⟨"Id", "a"⟩]⟩
    (.empty link (.empty ⟨"Relationship", [⟨"Id", "a"⟩, ⟨"Target", "t.xml"⟩]⟩ .nil))) .nil
  have listed : ListsFirst laterSheetsLayout.archive sheet :=
    listsFirst_linkedLayout sheets ⟨by decide +kernel, by decide +kernel⟩ (by decide +kernel)
  have declared : DeclaresFirst laterSheetsLayout.archive "a" link :=
    declaresFirst_linkedLayout links ⟨by decide +kernel, by decide +kernel⟩ (by decide +kernel)
  have listed' : ListsFirst oneSheetLayout.archive sheet :=
    listsFirst_linkedLayout (.empty sheet .nil) ⟨by decide +kernel, by decide +kernel⟩ (by decide +kernel)
  have declared' : DeclaresFirst oneSheetLayout.archive "a" link :=
    declaresFirst_linkedLayout (.empty link .nil) ⟨by decide +kernel, by decide +kernel⟩ (by decide +kernel)
  have leads : LeadsTo laterSheetsLayout.archive "/xl/a.xml" "xl/a.xml" := by
    refine .fromRoot (by decide) ?_ ?_
    · rw [laterSheetsLayout, contains_linkedLayout]
      decide +kernel
    · rw [laterSheetsLayout, contains_linkedLayout]
      decide +kernel
  obtain ⟨located, -, same⟩ := locateFirst_finds_first_sheet laterSheetsLayout.archive
  have hid : sheet.prefixed? "id" = some "a" := by decide +kernel
  have found : (locateFirst laterSheetsLayout.archive).outcome = .ok ("S", "xl/a.xml") :=
    (located "S" "xl/a.xml").2
      (.intro listed hid declared (by decide +kernel) (by decide +kernel) leads)
  refine ⟨found, (same oneSheetLayout.archive sheet listed listed' (fun id h => ?_) fun name => ?_).trans found⟩
  · rw [hid, Option.some.injEq] at h
    subst h
    exact ⟨link, declared, declared'⟩
  · rw [laterSheetsLayout, oneSheetLayout, contains_linkedLayout, contains_linkedLayout]

end OfficePreview.Sheet
