import OfficePreview.Xml.Fault
import OfficePreview.Xml.Name
/-!
# Cut — where a construct of the markup ends

Each function takes the text after the opening of a construct and gives the text inside it with the text after it. What
is left is never longer than what was given, which is why a scan of a part ends.
-/
namespace OfficePreview.Xml

/-- Cuts at the first occurrence of `stop` and drops it; `before`, last character first, is what was passed already. -/
def cutAfter? (stop before : List Char) : List Char → Option (List Char × List Char)
  | [] => none
  | c :: cs =>
    if stop.isPrefixOf (c :: cs) then some (before.reverse, (c :: cs).drop stop.length)
    else cutAfter? stop (c :: before) cs

theorem length_of_cutAfter? {stop before cs inside rest : List Char}
    (h : cutAfter? stop before cs = some (inside, rest)) : rest.length ≤ cs.length := by
  fun_induction cutAfter? stop before cs with
  | case1 => cases h
  | case2 =>
    simp only [Option.some.injEq, Prod.mk.injEq] at h
    rw [← h.2, List.length_drop]
    exact Nat.sub_le ..
  | case3 _ _ _ _ ih => exact Nat.le_succ_of_le (ih h)

/-- Cuts a tag at its first `>` outside quotes and drops it; `quote` is the quote that is open, `before`, last character
first, what was passed already. -/
def cutTag (quote : Option Char) (before : List Char) : List Char → Except Fault (List Char × List Char)
  | [] => .error (.notClosed (match quote with | none => .tag | some q => .value q))
  | c :: cs =>
    match quote with
    | some q => cutTag (if c = q then none else some q) (c :: before) cs
    | none =>
      if c = '>' then .ok (before.reverse, cs)
      else cutTag (if c = '"' ∨ c = '\'' then some c else none) (c :: before) cs

theorem length_of_cutTag {quote : Option Char} {before cs inside rest : List Char}
    (h : cutTag quote before cs = .ok (inside, rest)) : rest.length ≤ cs.length := by
  fun_induction cutTag quote before cs with
  | case1 => cases h
  | case2 _ _ _ _ ih => exact Nat.le_succ_of_le (ih h)
  | case3 => cases h; exact Nat.le_succ _
  | case4 _ _ _ _ ih => exact Nat.le_succ_of_le (ih h)

/-! ## Document types

A document type ends at a `>` outside quotes and outside its internal subset, which stands in brackets. In the subset a
comment and an instruction run to their own end, an entity, a list of attributes and a notation to a `>` outside quotes,
and any other declaration to the next `>`. -/

/-- Where in a document type the reader stands. -/
inductive DoctypePlace
  | outside
  | quoted (quote : Char)
  | subset
  | declaration
  | quotable
  | quotedInside (quote : Char)
  | until (stop : List Char) (skip : Nat)
  | closing
deriving DecidableEq, Repr

/-- The declaration that begins in the subset with the text after a `<`. -/
def DoctypePlace.ofDeclaration (cs : List Char) : DoctypePlace :=
  if "?".toList.isPrefixOf cs then .until "?>".toList 1
  else if "!--".toList.isPrefixOf cs then .until "-->".toList 3
  else if "!ENTITY".toList.isPrefixOf cs ∨ "!ATTLIST".toList.isPrefixOf cs ∨ "!NOTATION".toList.isPrefixOf cs then
    .quotable
  else .declaration

/-- The text after a document type, given the text from a place inside it on. -/
def cutDoctype? : DoctypePlace → List Char → Option (List Char)
  | _, [] => none
  | .outside, c :: cs =>
    if c = '>' then some cs
    else cutDoctype? (if c = '[' then .subset else if c = '"' ∨ c = '\'' then .quoted c else .outside) cs
  | .quoted q, c :: cs => cutDoctype? (if c = q then .outside else .quoted q) cs
  | .subset, c :: cs =>
    cutDoctype? (if c = ']' then .closing else if c = '<' then .ofDeclaration cs else .subset) cs
  | .declaration, c :: cs => cutDoctype? (if c = '>' then .subset else .declaration) cs
  | .quotable, c :: cs =>
    cutDoctype? (if c = '>' then .subset else if c = '"' ∨ c = '\'' then .quotedInside c else .quotable) cs
  | .quotedInside q, c :: cs => cutDoctype? (if c = q then .quotable else .quotedInside q) cs
  | .until stop (k + 1), _ :: cs => cutDoctype? (.until stop k) cs
  | .until stop 0, c :: cs => cutDoctype? (if stop.isPrefixOf (c :: cs) then .declaration else .until stop 0) cs
  | .closing, c :: cs => if c = '>' then some cs else cutDoctype? .closing cs

theorem length_of_cutDoctype? {place : DoctypePlace} {cs rest : List Char} (h : cutDoctype? place cs = some rest) :
    rest.length ≤ cs.length := by
  induction cs generalizing place with
  | nil => simp [cutDoctype?] at h
  | cons c cs ih =>
    have hc : ∀ {place}, cutDoctype? place cs = some rest → rest.length ≤ (c :: cs).length :=
      fun h => Nat.le_succ_of_le (ih h)
    cases place with
    | outside =>
      simp only [cutDoctype?] at h
      split at h
      · cases h; exact Nat.le_succ _
      · exact hc h
    | closing =>
      simp only [cutDoctype?] at h
      split at h
      · cases h; exact Nat.le_succ _
      · exact hc h
    | «until» stop skip => cases skip <;> exact hc h
    | _ => exact hc h

end OfficePreview.Xml
