import Mathlib.Data.List.TakeWhile
import OfficePreview.Proofs.Xml.Content
import OfficePreview.Proofs.Xml.Nesting
/-!
# References — the names that stand for a character

By the grammar a reference has one of five names, or it numbers a character in digits of base ten or sixteen (`Denotes`).
The text of an element is read by a wider rule: before the digits of a number a plus sign may stand (`SignedNumbers`), and
nothing else is added to the grammar (`resolveInText?_eq_some_iff`).

A name that stands for no character is the fault of the part that holds it, and a reader tells no part by this fault for
any other reason (`finish_eq_unknownReference_iff`).
-/
namespace OfficePreview.Xml

/-! ## What a name stands for -/

/-- The characters that have a name of their own. -/
def namedCharacters : List (String × Char) :=
  [("amp", '&'), ("lt", '<'), ("gt", '>'), ("quot", '"'), ("apos", '\'')]

/-- A name stands for a character by the grammar of references. -/
inductive Denotes (c : Char) : List Char → Prop
  | named {name : String} (h : (name, c) ∈ namedCharacters) : Denotes c name.toList
  | numbered {name : List Char} (h : Numbers c name) : Denotes c name

/-- A name numbers a character, but for a plus sign before the digits. -/
inductive SignedNumbers (c : Char) : List Char → Prop
  | decimal {digits : List Char} (h : Text.IsNumeral 10 digits c.toNat) : SignedNumbers c ('#' :: '+' :: digits)
  | hexadecimal {x : Char} {digits : List Char} (hx : x = 'x' ∨ x = 'X') (h : Text.IsNumeral 16 digits c.toNat) :
    SignedNumbers c ('#' :: x :: '+' :: digits)

theorem mem_namedCharacters_of_named? {name : List Char} {c : Char} (h : named? name = some c) :
    (String.ofList name, c) ∈ namedCharacters := by
  unfold named? at h
  repeat' split at h
  all_goals cases h
  all_goals simp_all [namedCharacters]

theorem resolve_of_mem_namedCharacters {name : String} {c : Char} (h : (name, c) ∈ namedCharacters) :
    resolveInText? name.toList = some c := by
  have all : ∀ p ∈ namedCharacters, resolveInText? p.1.toList = some p.2 := by decide
  exact all (name, c) h

theorem toNat_of_ofCode? {n : Nat} {c : Char} (h : ofCode? n = some c) : c.toNat = n := by
  rw [ofCode?, Option.ite_none_right_eq_some] at h
  obtain ⟨hvalid, hc⟩ := h
  cases hc
  have hchar : Char.ofNat n = Char.ofNatAux n hvalid := dif_pos hvalid
  rw [hchar]
  rfl

theorem code_eq_some_iff {base : Nat} {digits : List Char} {c : Char} (hone : 1 < base) (hbase : base ≤ 16) :
    (Text.number? base digits >>= ofCode?) = some c ↔ Text.IsNumeral base digits c.toNat := by
  constructor
  · intro h
    obtain ⟨n, hn, hc⟩ := Option.bind_eq_some_iff.1 h
    rw [toNat_of_ofCode? hc]
    exact Text.isNumeral_of_number? hone hbase hn
  · intro h
    rw [Text.number?_of_isNumeral hone hbase h]
    exact ofCode?_toNat c

/-- **A plus sign before a numeral is passed over**, and nothing but that one sign. -/
theorem isNumeral_dropPlus_iff {base n : Nat} {digits : List Char} (hone : 1 < base) (hbase : base ≤ 16) :
    Text.IsNumeral base (dropPlus digits) n ↔
      Text.IsNumeral base digits n ∨ ∃ rest, digits = '+' :: rest ∧ Text.IsNumeral base rest n := by
  constructor
  · intro h
    unfold dropPlus at h
    split at h
    · exact .inr ⟨_, rfl, h⟩
    · exact .inl h
  · rintro (h | ⟨rest, rfl, h⟩)
    · rw [dropPlus_of_number? (Text.number?_of_isNumeral hone hbase h)]
      exact h
    · exact h

theorem resolve_of_signedNumbers {c : Char} {name : List Char} (h : SignedNumbers c name) :
    resolveInText? name = some c := by
  cases h with
  | decimal h => exact (code_eq_some_iff (by decide) (by decide)).2 h
  | hexadecimal hx h => rcases hx with rfl | rfl <;> exact (code_eq_some_iff (by decide) (by decide)).2 h

/-- **A name is resolved to the character that it stands for by the grammar or, but for a plus sign, would stand for.** -/
theorem resolveInText?_eq_some_iff {name : List Char} {c : Char} :
    resolveInText? name = some c ↔ Denotes c name ∨ SignedNumbers c name := by
  constructor
  · intro h
    unfold resolveInText? at h
    split at h
    · rw [code_eq_some_iff (by decide) (by decide), isNumeral_dropPlus_iff (by decide) (by decide)] at h
      rcases h with h | ⟨rest, rfl, h⟩
      · exact .inl (.numbered (.hexadecimal (.inl rfl) h))
      · exact .inr (.hexadecimal (.inl rfl) h)
    · rw [code_eq_some_iff (by decide) (by decide), isNumeral_dropPlus_iff (by decide) (by decide)] at h
      rcases h with h | ⟨rest, rfl, h⟩
      · exact .inl (.numbered (.hexadecimal (.inr rfl) h))
      · exact .inr (.hexadecimal (.inr rfl) h)
    · rw [code_eq_some_iff (by decide) (by decide), isNumeral_dropPlus_iff (by decide) (by decide)] at h
      rcases h with h | ⟨rest, rfl, h⟩
      · exact .inl (.numbered (.decimal h))
      · exact .inr (.decimal h)
    · have denotes : Denotes c (String.ofList name).toList := .named (mem_namedCharacters_of_named? h)
      rw [String.toList_ofList] at denotes
      exact .inl denotes
  · rintro (h | h)
    · cases h with
      | named h => exact resolve_of_mem_namedCharacters h
      | numbered h => exact h.resolve
    · exact resolve_of_signedNumbers h

theorem plus_mem_of_signedNumbers {c : Char} {name : List Char} (h : SignedNumbers c name) : '+' ∈ name := by
  cases h <;> simp

theorem plus_notMem_of_isNumeral {base n : Nat} {digits : List Char} (hone : 1 < base) (hbase : base ≤ 16)
    (h : Text.IsNumeral base digits n) : '+' ∉ digits := by
  intro hmem
  exact Text.digit?_of_number? (Text.number?_of_isNumeral hone hbase h) '+' hmem (by simp [Text.digit?])

/-- The grammar has no place for a plus sign. -/
theorem plus_notMem_of_denotes {c : Char} {name : List Char} (h : Denotes c name) : '+' ∉ name := by
  cases h with
  | @named name h =>
    have all : ∀ p ∈ namedCharacters, '+' ∉ p.1.toList := by decide
    exact all (name, c) h
  | numbered h =>
    cases h with
    | decimal h => simpa using plus_notMem_of_isNumeral (by decide) (by decide) h
    | hexadecimal hx h =>
      have hdigits := plus_notMem_of_isNumeral (by decide) (by decide) h
      rcases hx with rfl | rfl <;> simpa using hdigits

/-! ## References without a character -/

theorem exists_notClosed_of_cutTag {quote : Option Char} {before cs : List Char} {fault : Fault}
    (h : cutTag quote before cs = .error fault) : ∃ construct, fault = .notClosed construct := by
  fun_induction cutTag quote before cs with
  | case1 =>
    cases h
    exact ⟨_, rfl⟩
  | case2 _ _ _ _ ih => exact ih h
  | case3 => cases h
  | case4 _ _ _ _ ih => exact ih h

namespace Scanner

variable {names : List String} {cs : List Char}

/-- A reading comes to no reference, and it does not ask what one stands for. -/
def IsReferenceFree (r : Except Fault (Event × Scanner)) : Prop :=
  ∀ name, r ≠ .error (.unknownReference name) ∧ ∀ t, r ≠ .ok (.reference name, t)

theorem openTag_isReferenceFree : IsReferenceFree (openTag names cs) := by
  intro name
  unfold openTag
  split
  · rename_i hcut
    obtain ⟨construct, rfl⟩ := exists_notClosed_of_cutTag hcut
    exact ⟨nofun, nofun⟩
  · rename_i inside rest _
    obtain ⟨tag, htag | htag⟩ := tagEvent_eq inside
    · rw [htag]
      exact ⟨nofun, nofun⟩
    · rw [htag]
      exact ⟨nofun, nofun⟩

theorem closeTag_isReferenceFree : IsReferenceFree (closeTag names cs) := by
  intro name
  unfold closeTag
  split
  · rename_i hcut
    obtain ⟨construct, rfl⟩ := exists_notClosed_of_cutTag hcut
    exact ⟨nofun, nofun⟩
  · repeat' split
    all_goals exact ⟨nofun, nofun⟩

theorem instruction_isReferenceFree : IsReferenceFree (instruction names cs) := by
  intro name
  unfold instruction
  dsimp only
  split <;> exact ⟨nofun, nofun⟩

theorem bang_isReferenceFree : IsReferenceFree (bang names cs) := by
  intro name
  unfold bang doctype
  repeat' split
  all_goals exact ⟨nofun, nofun⟩

/-- **Markup is no reference**, and its faults are none of references. -/
theorem markup_isReferenceFree : IsReferenceFree (markup names cs) := by
  unfold markup
  split
  · exact bang_isReferenceFree
  · exact instruction_isReferenceFree
  · exact closeTag_isReferenceFree
  · exact openTag_isReferenceFree

theorem reference_ne_unknown (name : String) : reference names cs ≠ .error (.unknownReference name) := by
  unfold reference
  split <;> nofun

theorem error_of_map_some {α : Type} {r : Except Fault α} {fault : Fault} (h : r.map some = .error fault) :
    r = .error fault := by
  cases r with
  | error _ =>
    cases h
    rfl
  | ok _ => cases h

/-- A scanner does not ask what a reference stands for. -/
theorem next_ne_unknown (s : Scanner) (name : String) : s.next ≠ .error (.unknownReference name) := by
  intro h
  unfold next at h
  split at h
  · cases h
  · exact (markup_isReferenceFree name).1 (error_of_map_some h)
  · exact reference_ne_unknown name (error_of_map_some h)
  · cases h

/-- **A scanner reads a reference where an ampersand, its name and a semicolon stand**, and nowhere else. -/
theorem next_eq_reference_iff {s t : Scanner} {name : String} :
    s.next = .ok (some (.reference name, t)) ↔ (∀ c ∈ name.toList, isReferenceName c = true) ∧
      ∃ rest, s.rest = '&' :: (name.toList ++ ';' :: rest) ∧ t = ⟨rest, s.enclosing⟩ := by
  constructor
  · intro h
    unfold next at h
    split at h
    · cases h
    · exact absurd (ok_of_map_some h) ((markup_isReferenceFree name).2 t)
    · rename_i cs hs
      have href := ok_of_map_some h
      unfold reference at href
      split at href
      · rename_i rest hdrop
        cases href
        rw [String.toList_ofList]
        refine ⟨fun c hc => List.mem_takeWhile_imp hc, rest, ?_, rfl⟩
        rw [hs, ← hdrop, List.takeWhile_append_dropWhile]
      · cases href
    · cases h
  · rintro ⟨hname, rest, hs, rfl⟩
    unfold next
    rw [hs]
    have href : reference s.enclosing (name.toList ++ ';' :: rest) = _ := reference_written hname rest
    rw [String.ofList_toList] at href
    exact congrArg (Except.map some) href

end Scanner

namespace Reader

theorem Reads.first {r s t : Reader} {e : Event} {es : List (Event × Nat)} (h : r.next = .ok (some e, s))
    (run : Reads s es t) : Reads r ((e, s.depth) :: es) t := by
  induction run with
  | none => exact Reads.none.next h
  | next _ hn ih => exact ih.next hn

theorem Reads.finish_eq {r s : Reader} {es : List (Event × Nat)} (run : Reads r es s) : s.finish = r.finish := by
  induction run with
  | none => rfl
  | next _ hn ih => rw [← finish_of_event hn, ih]

theorem accept_eq_unknown_iff (r : Reader) (e : Event) (t : Scanner) (name : String) :
    r.accept e t = .error (.unknownReference name) ↔ e = .reference name ∧ resolveInText? name.toList = none := by
  cases e with
  | reference other =>
    by_cases hsome : (resolveInText? other.toList).isSome = true
    · simp only [accept, if_pos hsome, reduceCtorEq, Event.reference.injEq, false_iff, not_and]
      rintro rfl hnone
      rw [hnone] at hsome
      cases hsome
    · simp only [accept, if_neg hsome, Except.error.injEq, Fault.unknownReference.injEq, Event.reference.injEq,
        iff_self_and]
      rintro rfl
      simpa using hsome
  | start =>
    simp only [accept]
    split <;> simp
  | empty =>
    simp only [accept]
    split <;> simp
  | _ => simp [accept]

theorem acceptEnd_ne_unknown (r : Reader) (name : String) : r.acceptEnd ≠ .error (.unknownReference name) := by
  unfold acceptEnd
  split
  · simp
  · split <;> simp

/-- An unknown name is the fault of a reference to it.  The run up to that reference is put together from its end. -/
theorem exists_reference_of_finish (r : Reader) {name : String} (h : r.finish = .error (.unknownReference name)) :
    resolveInText? name.toList = none ∧
      ∃ es s t, Reads r es s ∧ s.scanner.next = .ok (some (.reference name, t)) := by
  match hs : r.scanner.next with
  | .error fault =>
    rw [finish_of_error (next_of_error hs)] at h
    cases h
    exact absurd hs (Scanner.next_ne_unknown r.scanner name)
  | .ok none =>
    have hn := next_of_end hs
    cases ha : r.acceptEnd with
    | ok s =>
      rw [ha] at hn
      rw [finish_of_end hn] at h
      cases h
    | error fault =>
      rw [ha] at hn
      rw [finish_of_error hn] at h
      cases h
      exact absurd ha (acceptEnd_ne_unknown r name)
  | .ok (some (e, t)) =>
    have hn := next_of_event hs
    cases ha : r.accept e t with
    | ok s =>
      rw [ha] at hn
      have hlt := length_of_next hn
      rw [finish_of_event hn] at h
      obtain ⟨hnone, es, s', t', run, hs'⟩ := exists_reference_of_finish s h
      exact ⟨hnone, _, s', t', run.first hn, hs'⟩
    | error fault =>
      rw [ha] at hn
      rw [finish_of_error hn] at h
      cases h
      obtain ⟨rfl, hnone⟩ := (accept_eq_unknown_iff r e t name).1 ha
      exact ⟨hnone, [], r, t, .none, hs⟩
termination_by r.scanner.rest.length

/-- **A reader finds a name unknown if it comes to a reference whose name stands for nothing**, and only then. -/
theorem finish_eq_unknownReference_iff (r : Reader) (name : String) :
    r.finish = .error (.unknownReference name) ↔ resolveInText? name.toList = none ∧
      ∃ es s t, Reads r es s ∧ s.scanner.next = .ok (some (.reference name, t)) := by
  refine ⟨exists_reference_of_finish r, ?_⟩
  rintro ⟨hnone, es, s, t, run, hs⟩
  have hn := next_of_event hs
  rw [(accept_eq_unknown_iff s _ t name).2 ⟨rfl, hnone⟩] at hn
  rw [← run.finish_eq]
  exact finish_of_error hn

end Reader

/-- A reading of the text comes, without a fault before it, to a reference with the name. -/
def Meets (text name : String) : Prop :=
  ∃ es r rest, Reader.Reads (.ofText text) es r ∧ r.scanner.rest = '&' :: (name.toList ++ ';' :: rest) ∧
    ∀ c ∈ name.toList, Scanner.isReferenceName c = true

theorem finish_eq_unknown_iff_meets (text name : String) :
    (Reader.ofText text).finish = .error (.unknownReference name) ↔
      resolveInText? name.toList = none ∧ Meets text name := by
  rw [Reader.finish_eq_unknownReference_iff]
  refine and_congr_right fun _ => ?_
  constructor
  · rintro ⟨es, r, t, run, h⟩
    obtain ⟨hname, rest, hrest, -⟩ := Scanner.next_eq_reference_iff.1 h
    exact ⟨es, r, rest, run, hrest, hname⟩
  · rintro ⟨es, r, rest, run, hrest, hname⟩
    exact ⟨es, r, _, run, Scanner.next_eq_reference_iff.2 ⟨hname, rest, hrest, rfl⟩⟩

/-- **A reference without a plus sign is resolved by the grammar.**  It comes to the character that its name stands for,
and to none if its name stands for none; then, and only then, a part is refused for this name as soon as a reading comes
to it.  Every name is resolved to the character that it stands for; the others that are resolved number a character but
for a plus sign. -/
theorem unsigned_references_follow_grammar (name : String) :
    ('+' ∉ name.toList →
      (∀ c, resolveInText? name.toList = some c ↔ Denotes c name.toList) ∧
        ∀ text, (Reader.ofText text).finish = .error (.unknownReference name) ↔
          Meets text name ∧ ∀ c, ¬ Denotes c name.toList) ∧
      ∀ c, resolveInText? name.toList = some c ↔ Denotes c name.toList ∨ SignedNumbers c name.toList := by
  refine ⟨fun unsigned => ?_, fun c => resolveInText?_eq_some_iff⟩
  have follows (c : Char) : resolveInText? name.toList = some c ↔ Denotes c name.toList := by
    rw [resolveInText?_eq_some_iff]
    exact or_iff_left fun signed => unsigned (plus_mem_of_signedNumbers signed)
  refine ⟨follows, fun text => ?_⟩
  have hnone : resolveInText? name.toList = none ↔ ∀ c, ¬ Denotes c name.toList := by
    simp only [Option.eq_none_iff_forall_ne_some, ne_eq, follows]
  rw [finish_eq_unknown_iff_meets, hnone, and_comm]

/-- A numeral with zeros in front of it, and the number of a surrogate, which is no character. -/
theorem unsigned_references_follow_grammar_surrogate :
    ('+' ∉ "#X00263a".toList ∧ Denotes '☺' "#X00263a".toList) ∧
      '+' ∉ "#xD800".toList ∧ (Reader.ofText "<a>&#xD800;</a>").finish = .error (.unknownReference "#xD800") ∧
        Meets "<a>&#xD800;</a>" "#xD800" ∧ ∀ c, ¬ Denotes c "#xD800".toList := by
  have smile : '+' ∉ "#X00263a".toList := by decide
  have surrogate : '+' ∉ "#xD800".toList := by decide
  have refused : (Reader.ofText "<a>&#xD800;</a>").finish = .error (.unknownReference "#xD800") := by decide +kernel
  refine ⟨⟨smile, ?_⟩, surrogate, refused, ?_⟩
  · exact (((unsigned_references_follow_grammar "#X00263a").1 smile).1 '☺').1 (by decide)
  · exact (((unsigned_references_follow_grammar "#xD800").1 surrogate).2 _).1 refused

/-- **With a plus sign a reference is resolved that the grammar does not know.** -/
theorem signed_reference_resolved :
    ¬ ∀ (name : String) (c : Char), resolveInText? name.toList = some c ↔ Denotes c name.toList := by
  intro follows
  have denotes : Denotes 'A' "#+65".toList := (follows "#+65" 'A').1 (by decide)
  exact plus_notMem_of_denotes denotes (by decide)

end OfficePreview.Xml
