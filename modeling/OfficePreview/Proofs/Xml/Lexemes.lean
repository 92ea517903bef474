import Mathlib.Data.List.TakeWhile
import OfficePreview.Proofs.Xml.Written
/-!
# Lexemes — the piece of text behind an event

A scanner takes every event off a piece of the text.  The piece does not depend on what stands after it or around it: by
itself it is read as the same event (`IsLexeme`), and markup is read as that event wherever it stands (`TakesOff`).  So a
text comes apart into such pieces (`exists_lexeme`), and pieces can be put together anew (`events_lexeme`).  Only where
text comes to stand beside text the two are read in one (`joinOnto`).
-/
namespace OfficePreview.Xml

/-! ## Where a cut falls -/

theorem isPrefixOf_append {p xs : List Char} (h : p.length ≤ xs.length) (ys : List Char) :
    p.isPrefixOf (xs ++ ys) = p.isPrefixOf xs := by
  rw [Bool.eq_iff_iff, List.isPrefixOf_iff_prefix, List.isPrefixOf_iff_prefix]
  exact ⟨fun hp => List.prefix_of_prefix_length_le hp (List.prefix_append xs ys) h,
    fun hp => hp.trans (List.prefix_append xs ys)⟩

/-- A prefix with a `>` at its end alone is looked for no further than the first `>`. -/
theorem isPrefixOf_append_of_mem {p xs : List Char} (hp : '>' ∉ p.dropLast) (hx : '>' ∈ xs) (ys : List Char) :
    p.isPrefixOf (xs ++ ys) = p.isPrefixOf xs := by
  by_cases h : p.length ≤ xs.length
  · exact isPrefixOf_append h ys
  · have beyond : ¬ p <+: xs ++ ys := by
      intro hpre
      have hlt : xs.length < p.length := Nat.lt_of_not_le h
      have hxp : xs <+: p := List.prefix_of_prefix_length_le (List.prefix_append xs ys) hpre (Nat.le_of_lt hlt)
      have hxd : xs <+: p.dropLast :=
        List.prefix_of_prefix_length_le hxp (List.dropLast_prefix p) (by rw [List.length_dropLast]; omega)
      exact hp (hxd.subset hx)
    rw [Bool.eq_iff_iff, List.isPrefixOf_iff_prefix, List.isPrefixOf_iff_prefix]
    exact ⟨fun hpre => absurd hpre beyond, fun hpre => absurd (hpre.trans (List.prefix_append xs ys)) beyond⟩

theorem exists_of_cutTag {quote : Option Char} {before cs inside rest : List Char}
    (h : cutTag quote before cs = .ok (inside, rest)) :
    ∃ xs, cs = xs ++ '>' :: rest ∧ inside = before.reverse ++ xs ∧
      ∀ rest', cutTag quote before (xs ++ '>' :: rest') = .ok (inside, rest') := by
  fun_induction cutTag quote before cs with
  | case1 => cases h
  | case2 before c cs q ih =>
    obtain ⟨xs, rfl, hin, hcut⟩ := ih h
    exact ⟨c :: xs, rfl, by simpa using hin, fun rest' => by rw [List.cons_append, cutTag]; exact hcut rest'⟩
  | case3 before cs =>
    cases h
    exact ⟨[], rfl, by simp, fun rest' => by simp [cutTag]⟩
  | case4 before c cs hc ih =>
    obtain ⟨xs, rfl, hin, hcut⟩ := ih h
    refine ⟨c :: xs, rfl, by simpa using hin, fun rest' => ?_⟩
    rw [List.cons_append, cutTag, if_neg hc]
    exact hcut rest'

theorem exists_of_cutAfter? {stop before cs inside rest : List Char} (hs : stop ≠ [])
    (h : cutAfter? stop before cs = some (inside, rest)) :
    ∃ xs, cs = xs ++ (stop ++ rest) ∧
      ∀ rest', cutAfter? stop before (xs ++ (stop ++ rest')) = some (inside, rest') := by
  fun_induction cutAfter? stop before cs with
  | case1 => cases h
  | case2 before c cs hp =>
    obtain ⟨ys, hys⟩ := List.isPrefixOf_iff_prefix.1 hp
    rw [← hys, List.drop_left] at h
    cases h
    refine ⟨[], hys.symm, fun rest' => ?_⟩
    cases stop with
    | nil => exact absurd rfl hs
    | cons s stop =>
      have hpre : (s :: stop).isPrefixOf (s :: (stop ++ rest')) = true :=
        List.isPrefixOf_iff_prefix.2 (List.prefix_append (s :: stop) rest')
      rw [List.nil_append, List.cons_append, cutAfter?, if_pos hpre, ← List.cons_append, List.drop_left]
  | case3 before c cs hp ih =>
    obtain ⟨xs, rfl, hcut⟩ := ih h
    refine ⟨c :: xs, rfl, fun rest' => ?_⟩
    have hlen : stop.length ≤ (c :: (xs ++ stop)).length := by
      rw [List.length_cons, List.length_append]
      omega
    have hp' : ¬ stop.isPrefixOf (c :: (xs ++ (stop ++ rest'))) = true := by
      have hr := isPrefixOf_append hlen rest
      have hr' := isPrefixOf_append hlen rest'
      simp only [List.cons_append, List.append_assoc] at hr hr'
      rw [hr', ← hr]
      exact hp
    rw [List.cons_append, cutAfter?, if_neg hp']
    exact hcut rest'

/-- What ends a declaration of a document type holds a `>` at its end alone. -/
def DoctypePlace.IsEnding : DoctypePlace → Prop
  | .until stop _ => '>' ∉ stop.dropLast
  | _ => True

theorem isEnding_ofDeclaration (cs : List Char) : (DoctypePlace.ofDeclaration cs).IsEnding := by
  unfold DoctypePlace.ofDeclaration
  split
  · exact (by decide : '>' ∉ "?>".toList.dropLast)
  · split
    · exact (by decide : '>' ∉ "-->".toList.dropLast)
    · split <;> trivial

theorem ofDeclaration_append {xs : List Char} (hx : '>' ∈ xs) (ys : List Char) :
    DoctypePlace.ofDeclaration (xs ++ ys) = DoctypePlace.ofDeclaration xs := by
  unfold DoctypePlace.ofDeclaration
  rw [isPrefixOf_append_of_mem (by decide) hx, isPrefixOf_append_of_mem (by decide) hx,
    isPrefixOf_append_of_mem (by decide) hx, isPrefixOf_append_of_mem (by decide) hx,
    isPrefixOf_append_of_mem (by decide) hx]

theorem exists_of_cutDoctype? {place : DoctypePlace} {cs rest : List Char} (hp : place.IsEnding)
    (h : cutDoctype? place cs = some rest) :
    ∃ xs, cs = xs ++ rest ∧ '>' ∈ xs ∧ ∀ rest', cutDoctype? place (xs ++ rest') = some rest' := by
  induction cs generalizing place with
  | nil => simp [cutDoctype?] at h
  | cons c cs ih =>
    -- One character is passed and the place after it does not depend on what stands behind the cut.
    have pass (next : DoctypePlace) (hn : next.IsEnding) (h : cutDoctype? next cs = some rest)
        (hstep : ∀ xs rest', cs = xs ++ rest → '>' ∈ xs →
          cutDoctype? place (c :: (xs ++ rest')) = cutDoctype? next (xs ++ rest')) :
        ∃ xs, c :: cs = xs ++ rest ∧ '>' ∈ xs ∧ ∀ rest', cutDoctype? place (xs ++ rest') = some rest' := by
      obtain ⟨xs, rfl, hx, hcut⟩ := ih hn h
      exact ⟨c :: xs, rfl, List.mem_cons_of_mem c hx, fun rest' => (hstep xs rest' rfl hx).trans (hcut rest')⟩
    have finish (hc : c = '>') (hcs : cs = rest) (hend : ∀ rest', cutDoctype? place ('>' :: rest') = some rest') :
        ∃ xs, c :: cs = xs ++ rest ∧ '>' ∈ xs ∧ ∀ rest', cutDoctype? place (xs ++ rest') = some rest' := by
      subst hc hcs
      exact ⟨['>'], rfl, List.mem_singleton_self _, hend⟩
    cases place with
    | outside =>
      simp only [cutDoctype?] at h
      split at h
      · rename_i hc
        exact finish hc (Option.some.inj h) fun rest' => by simp [cutDoctype?]
      · rename_i hc
        refine pass _ ?_ h fun xs rest' _ _ => by simp only [cutDoctype?, if_neg hc]
        split
        · trivial
        · split <;> trivial
    | quoted q =>
      refine pass _ ?_ h fun _ _ _ _ => rfl
      split <;> trivial
    | subset =>
      refine pass _ ?_ h fun xs rest' hcs hx => ?_
      · split
        · trivial
        · split
          · exact isEnding_ofDeclaration cs
          · trivial
      · subst hcs
        simp only [cutDoctype?, ofDeclaration_append hx]
    | declaration =>
      refine pass _ ?_ h fun _ _ _ _ => rfl
      split <;> trivial
    | quotable =>
      refine pass _ ?_ h fun _ _ _ _ => rfl
      split
      · trivial
      · split <;> trivial
    | quotedInside q =>
      refine pass _ ?_ h fun _ _ _ _ => rfl
      split <;> trivial
    | «until» stop skip =>
      cases skip with
      | succ k => exact pass (.until stop k) hp h fun _ _ _ _ => rfl
      | zero =>
        refine pass _ ?_ h fun xs rest' hcs hx => ?_
        · split
          · trivial
          · exact hp
        · subst hcs
          have hx' : '>' ∈ c :: xs := List.mem_cons_of_mem c hx
          have hr := isPrefixOf_append_of_mem hp hx' rest
          have hr' := isPrefixOf_append_of_mem hp hx' rest'
          rw [List.cons_append] at hr hr'
          simp only [cutDoctype?, hr, hr']
    | closing =>
      simp only [cutDoctype?] at h
      split at h
      · rename_i hc
        exact finish hc (Option.some.inj h) fun rest' => by simp [cutDoctype?]
      · rename_i hc
        exact pass .closing trivial h fun xs rest' _ _ => by simp only [cutDoctype?, if_neg hc]

theorem head?_dropWhile_append {p : Char → Bool} {c : Char} {xs : List Char} (hc : c ∈ xs) (hp : p c = false)
    (ys : List Char) : ((xs ++ ys).dropWhile p).head? = (xs.dropWhile p).head? := by
  induction xs with
  | nil => cases hc
  | cons x xs ih =>
    cases hx : p x with
    | false => simp [hx]
    | true =>
      rcases List.mem_cons.1 hc with rfl | hc
      · rw [hp] at hx
        cases hx
      · simpa [hx] using ih hc

/-! ## Markup is read wherever it stands -/

/-- What a reader takes off a text, it takes off wherever that stands and whatever comes after it. -/
def TakesOff (read : List String → List Char → Except Fault (Event × Scanner)) (cs : List Char) (e : Event)
    (rest : List Char) : Prop :=
  ∃ xs, cs = xs ++ rest ∧ ∀ names inner rest', e.enclosing? names = some inner →
    read names (xs ++ rest') = .ok (e, ⟨rest', inner⟩)

/-- The elements that must be open for an event: a closing tag needs its own. -/
def Event.enclosed : Event → List String
  | .close name => [name]
  | _ => []

theorem exists_enclosing (e : Event) : ∃ inner, e.enclosing? e.enclosed = some inner := by
  cases e <;> simp [Event.enclosing?, Event.enclosed]

/-- What a reader that wants a character takes off a text begins with one. -/
theorem TakesOff.exists_cons {read : List String → List Char → Except Fault (Event × Scanner)} {cs rest : List Char}
    {e : Event} (h : TakesOff read cs e rest) (hread : ∀ names p, read names [] ≠ .ok p) :
    ∃ x xs, cs = x :: (xs ++ rest) ∧ ∀ names inner rest', e.enclosing? names = some inner →
      read names (x :: (xs ++ rest')) = .ok (e, ⟨rest', inner⟩) := by
  obtain ⟨xs, hxs, hr⟩ := h
  cases xs with
  | nil =>
    obtain ⟨inner, hn⟩ := exists_enclosing e
    exact absurd (hr _ inner [] hn) (hread _ _)
  | cons x xs => exact ⟨x, xs, hxs, hr⟩

namespace Scanner

variable {names : List String} {cs : List Char} {e : Event} {t : Scanner}

theorem openTag_takesOff (h : openTag names cs = .ok (e, t)) : TakesOff openTag cs e t.rest := by
  unfold openTag at h
  split at h
  · cases h
  · rename_i inside rest hc
    obtain ⟨xs, rfl, -, hcut⟩ := exists_of_cutTag hc
    obtain ⟨tag, ht | ht⟩ := tagEvent_eq inside
    · rw [ht] at h
      cases h
      refine ⟨xs ++ ['>'], by simp, fun names inner rest' hn => ?_⟩
      cases hn
      simp [openTag, hcut, ht]
    · rw [ht] at h
      cases h
      refine ⟨xs ++ ['>'], by simp, fun names inner rest' hn => ?_⟩
      cases hn
      simp [openTag, hcut, ht]

theorem closeTag_takesOff (h : closeTag names cs = .ok (e, t)) : TakesOff closeTag cs e t.rest := by
  unfold closeTag at h
  split at h
  · cases h
  · rename_i inside rest hc
    obtain ⟨xs, rfl, -, hcut⟩ := exists_of_cutTag hc
    split at h
    · cases h
    · rename_i expected outer
      split at h
      · rename_i hname
        cases h
        refine ⟨xs ++ ['>'], by simp, fun names inner rest' hn => ?_⟩
        cases names with
        | nil => simp [Event.enclosing?] at hn
        | cons name names =>
          simp only [Event.enclosing?, List.head?_cons, Option.some.injEq, List.tail_cons,
            Option.ite_none_right_eq_some] at hn
          obtain ⟨rfl, rfl⟩ := hn
          simp [closeTag, hcut, hname]
      · cases h

theorem instruction_takesOff (h : instruction names cs = .ok (e, t)) : TakesOff instruction cs e t.rest := by
  unfold instruction at h
  dsimp only at h
  split at h
  · cases h
  · cases h
  · rename_i inside rest hgt hc
    obtain ⟨xs, rfl, hcut⟩ := exists_of_cutAfter? (by decide) hc
    cases h
    refine ⟨xs ++ "?>".toList, by simp, fun names inner rest' hn => ?_⟩
    cases hn
    have hgt' : ∀ tail, xs ++ ("?>".toList ++ rest') ≠ '>' :: tail := by
      intro tail ht
      cases xs with
      | nil => cases ht
      | cons x xs =>
        obtain rfl : x = '>' := (List.cons.inj ht).1
        exact hgt _ rfl
    rw [List.append_assoc]
    unfold instruction
    dsimp only
    rw [hcut]
    split
    · exact absurd ‹_› (hgt' _)
    · cases ‹some (inside, rest') = none›
    · cases ‹some (inside, rest') = some _›
      rfl

theorem doctype_takesOff (h : doctype names cs = .ok (e, t)) : TakesOff doctype cs e t.rest := by
  unfold doctype at h
  split at h
  · rename_i hname
    split at h
    · cases h
    · rename_i rest hc
      have houtside : DoctypePlace.outside.IsEnding := trivial
      obtain ⟨xs, hxs, hgt, hcut⟩ := exists_of_cutDoctype? houtside hc
      split at h
      · cases h
      · rename_i hspace
        cases h
        have hlen : (cs.take 7).length = 7 := by
          have := congrArg List.length hname
          simpa using this
        refine ⟨cs.take 7 ++ xs, by rw [List.append_assoc, ← hxs, List.take_append_drop], fun names inner rest' hn => ?_⟩
        cases hn
        -- The `>` at the end of the document type is not white space, so the text behind it is not looked at.
        have hhead (ys : List Char) : ((xs ++ ys).dropWhile isSpace).head? = (xs.dropWhile isSpace).head? :=
          head?_dropWhile_append hgt (by decide) ys
        rw [hxs, hhead] at hspace
        rw [List.append_assoc, doctype, List.take_left' hlen, List.drop_left' hlen, if_pos hname, hcut, hhead]
        exact if_neg hspace
  · cases h

theorem bang_takesOff (h : bang names cs = .ok (e, t)) : TakesOff bang cs e t.rest := by
  unfold bang at h
  split at h
  · split at h
    · split at h
      · cases h
      · rename_i inside rest hc
        obtain ⟨xs, rfl, hcut⟩ := exists_of_cutAfter? (by decide) hc
        cases h
        refine ⟨'-' :: '-' :: (xs ++ "-->".toList), by simp, fun names inner rest' hn => ?_⟩
        cases hn
        simp only [List.cons_append, List.append_assoc, bang, hcut]
    · cases h
  · split at h
    · rename_i body hp
      obtain ⟨body, rfl⟩ := List.isPrefixOf_iff_prefix.1 hp
      split at h
      · cases h
      · rename_i inside rest hc
        have hdrop (ys : List Char) : ("CDATA[".toList ++ ys).drop 6 = ys := List.drop_left' rfl
        rw [hdrop] at hc
        obtain ⟨xs, rfl, hcut⟩ := exists_of_cutAfter? (by decide) hc
        cases h
        refine ⟨'[' :: ("CDATA[".toList ++ (xs ++ "]]>".toList)), by simp, fun names inner rest' hn => ?_⟩
        cases hn
        have hp' : "CDATA[".toList.isPrefixOf ("CDATA[".toList ++ (xs ++ ("]]>".toList ++ rest'))) = true :=
          List.isPrefixOf_iff_prefix.2 (List.prefix_append _ _)
        simp only [List.cons_append, List.append_assoc, bang, if_pos hp', hdrop, hcut]
    · cases h
  · rename_i c cs hdash hbracket
    split at h
    · rename_i hc
      obtain ⟨x, xs, hxs, hread⟩ := (doctype_takesOff h).exists_cons fun names p hp => by simp [doctype] at hp
      obtain ⟨rfl, -⟩ := List.cons.inj hxs
      refine ⟨c :: xs, hxs, fun names inner rest' hn => ?_⟩
      have hread := hread names inner rest' hn
      rw [List.cons_append]
      unfold bang
      split
      · rename_i hb
        obtain ⟨rfl, -⟩ := List.cons.inj hb
        exact (hdash rfl).elim
      · rename_i hb
        obtain ⟨rfl, -⟩ := List.cons.inj hb
        exact (hbracket rfl).elim
      · rename_i hb
        obtain ⟨rfl, rfl⟩ := List.cons.inj hb
        rw [if_pos hc]
        exact hread
      · rename_i hb
        cases hb
    · cases h
  · cases h

theorem markup_takesOff (h : markup names cs = .ok (e, t)) : TakesOff markup cs e t.rest := by
  unfold markup at h
  split at h
  · obtain ⟨xs, rfl, hread⟩ := bang_takesOff h
    exact ⟨'!' :: xs, rfl, hread⟩
  · obtain ⟨xs, rfl, hread⟩ := instruction_takesOff h
    exact ⟨'?' :: xs, rfl, hread⟩
  · obtain ⟨xs, rfl, hread⟩ := closeTag_takesOff h
    exact ⟨'/' :: xs, rfl, hread⟩
  · rename_i hbang hquestion hslash
    obtain ⟨x, xs, rfl, hread⟩ := (openTag_takesOff h).exists_cons fun names p hp => by simp [openTag, cutTag] at hp
    refine ⟨x :: xs, rfl, fun names inner rest' hn => ?_⟩
    have hread := hread names inner rest' hn
    rw [List.cons_append]
    unfold markup
    split
    · rename_i hb
      obtain ⟨rfl, -⟩ := List.cons.inj hb
      exact (hbang _ rfl).elim
    · rename_i hb
      obtain ⟨rfl, -⟩ := List.cons.inj hb
      exact (hquestion _ rfl).elim
    · rename_i hb
      obtain ⟨rfl, -⟩ := List.cons.inj hb
      exact (hslash _ rfl).elim
    · exact hread

theorem reference_takesOff (h : reference names cs = .ok (e, t)) : TakesOff reference cs e t.rest := by
  unfold reference at h
  split at h
  · rename_i rest hd
    cases h
    refine ⟨cs.takeWhile isReferenceName ++ [';'], ?_, fun names inner rest' hn => ?_⟩
    · rw [List.append_assoc, List.singleton_append, ← hd, List.takeWhile_append_dropWhile]
    · cases hn
      have hall : ∀ c ∈ cs.takeWhile isReferenceName, isReferenceName c = true := fun c hc => List.mem_takeWhile_imp hc
      rw [List.append_assoc, List.singleton_append, reference_written hall]
  · cases h

/-- **Markup and references are read wherever they stand.** -/
theorem exists_of_next {s : Scanner} (h : s.next = .ok (some (e, t))) (hne : ∀ data, e ≠ .text data) :
    ∃ xs, s.rest = xs ++ t.rest ∧ ∀ names inner rest, e.enclosing? names = some inner →
      next ⟨xs ++ rest, names⟩ = .ok (some (e, ⟨rest, inner⟩)) := by
  unfold next at h
  split at h
  · cases h
  · rename_i cs hcs
    obtain ⟨xs, rfl, hread⟩ := markup_takesOff (ok_of_map_some h)
    refine ⟨'<' :: xs, hcs, fun names inner rest hn => ?_⟩
    change (markup names (xs ++ rest)).map some = _
    rw [hread names inner rest hn]
    rfl
  · rename_i cs hcs
    obtain ⟨xs, rfl, hread⟩ := reference_takesOff (ok_of_map_some h)
    refine ⟨'&' :: xs, hcs, fun names inner rest hn => ?_⟩
    change (reference names (xs ++ rest)).map some = _
    rw [hread names inner rest hn]
    rfl
  · cases h
    exact absurd rfl (hne _)

/-- Text is read up to the next character that does not belong to text. -/
theorem exists_of_next_text {s : Scanner} {data : String} (h : s.next = .ok (some (.text data, t))) :
    (∀ c ∈ data.toList, isData c = true) ∧ s.rest = data.toList ++ t.rest ∧ ∃ c, c ∈ data.toList := by
  unfold next at h
  split at h
  · cases h
  · exact absurd (ok_of_map_some h) markup_ne_text
  · exact absurd (ok_of_map_some h) reference_ne_text
  · rename_i hnil hlt hamp
    cases h
    simp only [String.toList_ofList]
    refine ⟨fun c hc => List.mem_takeWhile_imp hc, List.takeWhile_append_dropWhile.symm, ?_⟩
    cases hs : s.rest with
    | nil => exact absurd hs hnil
    | cons c cs =>
      have hc : isData c = true := by
        rw [hs] at hlt hamp
        have h1 : c ≠ '<' := fun hc => hlt cs (by rw [hc])
        have h2 : c ≠ '&' := fun hc => hamp cs (by rw [hc])
        simp [isData, h1, h2]
      exact ⟨c, by simp [hc]⟩

theorem exists_next_of_events {s : Scanner} {es : List Event} (h : s.events = .ok (e :: es)) :
    ∃ t, s.next = .ok (some (e, t)) ∧ t.events = .ok es := by
  match hn : s.next with
  | .error fault => rw [events_of_error hn] at h; cases h
  | .ok none => rw [events_of_end hn] at h; cases h
  | .ok (some (e', t)) =>
    rw [events_of_event hn] at h
    cases ht : t.events with
    | error fault => rw [ht] at h; cases h
    | ok es' =>
      rw [ht] at h
      cases h
      exact ⟨t, rfl, ht⟩

theorem rest_of_events_nil {s : Scanner} (h : s.events = .ok []) : s.rest = [] := by
  match hn : s.next with
  | .error fault => rw [events_of_error hn] at h; cases h
  | .ok (some (e', t)) =>
    rw [events_of_event hn] at h
    cases ht : t.events <;> simp [ht, Except.map] at h
  | .ok none =>
    unfold next at hn
    split at hn
    · assumption
    · cases hm : markup s.enclosing ‹_› <;> simp [hm, Except.map] at hn
    · cases hm : reference s.enclosing ‹_› <;> simp [hm, Except.map] at hn
    · cases hn

end Scanner

/-! ## Lexemes -/

/-- A piece of text that, read by itself, is one event. -/
def IsLexeme (cs : List Char) (e : Event) : Prop := Scanner.events ⟨cs, e.enclosed⟩ = .ok [e]

instance (cs : List Char) (e : Event) : Decidable (IsLexeme cs e) :=
  decidable_of_iff ((Scanner.events ⟨cs, e.enclosed⟩).toOption = some [e]) (by
    unfold IsLexeme
    cases Scanner.events ⟨cs, e.enclosed⟩ <;> simp [Except.toOption])

namespace IsLexeme

variable {cs : List Char} {e : Event}

theorem next_eq (h : IsLexeme cs e) (hne : ∀ data, e ≠ .text data) {names inner : List String}
    (hn : e.enclosing? names = some inner) (rest : List Char) :
    Scanner.next ⟨cs ++ rest, names⟩ = .ok (some (e, ⟨rest, inner⟩)) := by
  obtain ⟨t, hnext, hend⟩ := Scanner.exists_next_of_events h
  obtain ⟨xs, hxs, hread⟩ := Scanner.exists_of_next hnext hne
  rw [Scanner.rest_of_events_nil hend, List.append_nil] at hxs
  obtain rfl : cs = xs := hxs
  exact hread names inner rest hn

theorem isData_of_text {data : String} (h : IsLexeme cs (.text data)) :
    data.toList = cs ∧ cs ≠ [] ∧ ∀ c ∈ cs, Scanner.isData c = true := by
  obtain ⟨t, hnext, hend⟩ := Scanner.exists_next_of_events h
  obtain ⟨hdata, hrest, c, hc⟩ := Scanner.exists_of_next_text hnext
  rw [Scanner.rest_of_events_nil hend, List.append_nil] at hrest
  obtain rfl : cs = data.toList := hrest
  exact ⟨rfl, List.ne_nil_of_mem hc, hdata⟩

end IsLexeme

theorem isLexeme_text {data : String} (hne : data.toList ≠ []) (h : ∀ c ∈ data.toList, Scanner.isData c = true) :
    IsLexeme data.toList (.text data) := by
  have hnext : Scanner.next ⟨data.toList, []⟩ = .ok (some (.text data, ⟨[], []⟩)) := by
    cases hd : data.toList with
    | nil => exact absurd hd hne
    | cons c cs =>
      rw [hd] at h
      obtain ⟨hc, hcs⟩ := List.forall_mem_cons.1 h
      rw [Scanner.next_data hc, List.takeWhile_eq_self_iff.2 hcs, List.dropWhile_eq_nil_iff.2 hcs, ← hd,
        String.ofList_toList]
  have hend : Scanner.events ⟨[], []⟩ = .ok [] := Scanner.events_of_end rfl
  exact (Scanner.events_of_event hnext).trans (by rw [hend]; rfl)

/-- **Every event is read from a lexeme** at the start of the text. -/
theorem exists_lexeme {s t : Scanner} {e : Event} (h : s.next = .ok (some (e, t))) :
    ∃ cs, s.rest = cs ++ t.rest ∧ IsLexeme cs e := by
  by_cases htext : ∃ data, e = .text data
  · obtain ⟨data, rfl⟩ := htext
    obtain ⟨hdata, hrest, c, hc⟩ := Scanner.exists_of_next_text h
    exact ⟨data.toList, hrest, isLexeme_text (List.ne_nil_of_mem hc) hdata⟩
  · have hne : ∀ data, e ≠ .text data := fun data he => htext ⟨data, he⟩
    obtain ⟨xs, hxs, hread⟩ := Scanner.exists_of_next h hne
    obtain ⟨inner, hn⟩ := exists_enclosing e
    have hnext := hread e.enclosed inner [] hn
    rw [List.append_nil] at hnext
    refine ⟨xs, hxs, ?_⟩
    rw [IsLexeme, Scanner.events_of_event hnext, Scanner.events_of_end rfl]
    rfl

/-- Events after one more event; text joins the text after it. -/
def joinOnto : Event → List Event → List Event
  | .text a, .text b :: es => .text (a ++ b) :: es
  | e, es => e :: es

theorem joinOnto_of_ne {e : Event} {es : List Event} (h : ∀ data, e ≠ .text data) : joinOnto e es = e :: es := by
  unfold joinOnto
  split
  · exact absurd rfl (h _)
  · rfl

theorem joinOnto_of_head {e : Event} {es : List Event} (h : ∀ data rest, es ≠ .text data :: rest) :
    joinOnto e es = e :: es := by
  unfold joinOnto
  split
  · exact absurd rfl (h _ _)
  · rfl

theorem joinOnto_text_text (a b : String) (es : List Event) :
    joinOnto (.text a) (joinOnto (.text b) es) = joinOnto (.text (a ++ b)) es := by
  match es with
  | .text c :: es => simp [joinOnto, String.append_assoc]
  | [] | .start _ :: _ | .empty _ :: _ | .close _ :: _ | .cdata _ :: _ | .reference _ :: _ | .aside _ :: _ =>
    simp [joinOnto]

theorem pushChar_eq_joinOnto (c : Char) (es : List Event) :
    Scanner.pushChar c es = joinOnto (.text c.toString) es := by
  unfold Scanner.pushChar joinOnto
  split <;> simp_all

theorem foldr_pushChar {cs : List Char} (hne : cs ≠ []) (es : List Event) :
    cs.foldr Scanner.pushChar es = joinOnto (.text (String.ofList cs)) es := by
  induction cs with
  | nil => exact absurd rfl hne
  | cons c cs ih =>
    rw [List.foldr_cons, pushChar_eq_joinOnto]
    cases cs with
    | nil => simp
    | cons d ds =>
      rw [ih (List.cons_ne_nil d ds), joinOnto_text_text]
      simp

theorem events_data_append {cs : List Char} (h : ∀ c ∈ cs, Scanner.isData c = true) (rest : List Char)
    (names : List String) :
    Scanner.events ⟨cs ++ rest, names⟩ = (Scanner.events ⟨rest, names⟩).map (cs.foldr Scanner.pushChar) := by
  induction cs with
  | nil =>
    rw [List.nil_append]
    cases Scanner.events ⟨rest, names⟩ <;> rfl
  | cons c cs ih =>
    obtain ⟨hc, hcs⟩ := List.forall_mem_cons.1 h
    rw [List.cons_append, Scanner.events_data hc, ih hcs]
    cases Scanner.events ⟨rest, names⟩ <;> rfl

/-- **Lexemes can be put together anew**: before any text, a lexeme adds its event to those of the text. -/
theorem events_lexeme {cs : List Char} {e : Event} (h : IsLexeme cs e) {names inner : List String}
    (hn : e.enclosing? names = some inner) (rest : List Char) :
    Scanner.events ⟨cs ++ rest, names⟩ = (Scanner.events ⟨rest, inner⟩).map (joinOnto e) := by
  by_cases htext : ∃ data, e = .text data
  · obtain ⟨data, rfl⟩ := htext
    obtain ⟨rfl, hne, hdata⟩ := h.isData_of_text
    cases hn
    rw [events_data_append hdata, funext (foldr_pushChar hne), String.ofList_toList]
  · have hne : ∀ data, e ≠ .text data := fun data he => htext ⟨data, he⟩
    rw [Scanner.events_of_event (h.next_eq hne hn rest)]
    exact congrArg (fun f => (Scanner.events ⟨rest, inner⟩).map f) (funext fun es => (joinOnto_of_ne hne).symm)

end OfficePreview.Xml
