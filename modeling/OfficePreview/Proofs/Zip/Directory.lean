import OfficePreview.Proofs.Zip.Field
import OfficePreview.Zip.Archive
/-!
# Directory — which buffers are archives, and what they list

The directory of a buffer is told by positions: where the end record is (`IsEndRecord`), where each record starts
(`recordStart`), whether a record lies at a position (`HoldsRecord`) and which entry it describes (`entryAt`).  The search
finds the end record if there is one (`locate?_cases`), and the walk gives the entries of the records if all of them
are there and fails otherwise (`walk_of_holds`, `walk_of_not_holds`).

So an archive is opened exactly where its records are all there, a strict reading asking besides that they end where the
end record says (`isOk_iff`).
-/
namespace OfficePreview.Zip

variable {bytes : ByteArray}

/-! ## The end record -/

/-- An end record can start here: its signature stands here, and nothing but a comment follows its fixed bytes. -/
structure MayEnd (bytes : ByteArray) (p : Nat) : Prop where
  fits : p + 22 ≤ bytes.size
  comment : bytes.size ≤ p + 22 + 65535
  signed : StandsAt bytes p [0x50, 0x4B, 0x05, 0x06]

/-- **The end record of a buffer is the last one that can be.** -/
def IsEndRecord (bytes : ByteArray) (p : Nat) : Prop := MayEnd bytes p ∧ ∀ q, MayEnd bytes q → q ≤ p

theorem IsEndRecord.unique {p q : Nat} (hp : IsEndRecord bytes p) (hq : IsEndRecord bytes q) : p = q :=
  Nat.le_antisymm (hq.2 p hp.1) (hp.2 q hq.1)

def recordCount (bytes : ByteArray) (p : Nat) : Nat := field bytes (p + 10) 2

def directoryStart (bytes : ByteArray) (p : Nat) : Nat := field bytes (p + 16) 4

def directoryEnd (bytes : ByteArray) (p : Nat) : Nat := field bytes (p + 16) 4 + field bytes (p + 12) 4

namespace EndRecord

theorem signed_iff {i : Nat} : uint32? bytes i = some signature ↔ StandsAt bytes i [0x50, 0x4B, 0x05, 0x06] :=
  uint32?_eq_some_iff (show ([0x50, 0x4B, 0x05, 0x06] : List UInt8).length = 4 from rfl)

theorem lastSignature?_eq_some {first count p : Nat} (h : lastSignature? bytes first count = some p) :
    first ≤ p ∧ p < first + count ∧ StandsAt bytes p [0x50, 0x4B, 0x05, 0x06] ∧
      ∀ q, p < q → q < first + count → ¬ StandsAt bytes q [0x50, 0x4B, 0x05, 0x06] := by
  induction count with
  | zero => cases h
  | succ n ih =>
    rw [lastSignature?] at h
    split at h
    case isTrue hs =>
      cases h
      exact ⟨by omega, by omega, signed_iff.1 hs, fun q hq hn => by omega⟩
    case isFalse hs =>
      obtain ⟨hfirst, hp, hsigned, hlast⟩ := ih h
      refine ⟨hfirst, by omega, hsigned, fun q hq hn => ?_⟩
      by_cases hqn : q = first + n
      · rw [hqn, ← signed_iff]
        exact hs
      · exact hlast q hq (by omega)

theorem lastSignature?_eq_none {first count : Nat} (h : lastSignature? bytes first count = none) (q : Nat)
    (hq : first ≤ q) (hn : q < first + count) : ¬ StandsAt bytes q [0x50, 0x4B, 0x05, 0x06] := by
  induction count with
  | zero => omega
  | succ n ih =>
    rw [lastSignature?] at h
    split at h
    case isTrue hs => cases h
    case isFalse hs =>
      by_cases hqn : q = first + n
      · rw [hqn, ← signed_iff]
        exact hs
      · exact ih h (by omega)

/-- **The search finds the end record**, or there is none. -/
theorem locate?_cases (bytes : ByteArray) :
    (locate? bytes = none ∧ ∀ p, ¬ MayEnd bytes p) ∨
      ∃ p, IsEndRecord bytes p ∧
        locate? bytes = some (p, ⟨recordCount bytes p, field bytes (p + 12) 4, directoryStart bytes p⟩) := by
  unfold locate? fixedSize maxComment
  split
  case isTrue h => exact .inl ⟨rfl, fun p hp => absurd hp.fits (by omega)⟩
  case isFalse h =>
    -- The search looks at just the positions from which at most a comment is left.
    have inside {q : Nat} (hq : MayEnd bytes q) :
        bytes.size - 22 - 65535 ≤ q ∧
          q < bytes.size - 22 - 65535 + (bytes.size - 22 - (bytes.size - 22 - 65535) + 1) := by
      have := hq.fits
      have := hq.comment
      omega
    dsimp only
    cases hs : lastSignature? bytes (bytes.size - 22 - 65535) (bytes.size - 22 - (bytes.size - 22 - 65535) + 1) with
    | none => exact .inl ⟨rfl, fun q hq => lastSignature?_eq_none hs q (inside hq).1 (inside hq).2 hq.signed⟩
    | some p =>
      obtain ⟨hfirst, hp, hsigned, hlast⟩ := lastSignature?_eq_some hs
      have hfits : p + 22 ≤ bytes.size := by omega
      refine .inr ⟨p, ⟨⟨hfits, by omega, hsigned⟩, fun q hq => Nat.le_of_not_lt fun hlt => ?_⟩, ?_⟩
      · exact hlast q hlt (inside hq).2 hq.signed
      · rw [Option.bind_eq_bind, Option.bind_some, read?_of_le hfits]
        rfl

theorem locate?_of_isEndRecord {p : Nat} (h : IsEndRecord bytes p) :
    locate? bytes = some (p, ⟨recordCount bytes p, field bytes (p + 12) 4, directoryStart bytes p⟩) := by
  rcases locate?_cases bytes with ⟨-, hnone⟩ | ⟨q, hq, hl⟩
  · exact absurd h.1 (hnone p)
  · rw [h.unique hq, hl]

theorem isEndRecord_of_locate? {p : Nat} (r : EndRecord) (h : locate? bytes = some (p, r)) : IsEndRecord bytes p := by
  rcases locate?_cases bytes with ⟨hnone, -⟩ | ⟨q, hq, hsome⟩
  · rw [hnone] at h
    cases h
  · rw [hsome] at h
    cases h
    exact hq

end EndRecord

/-! ## The records of the directory -/

/-- The entry that the directory record at `offset` describes. -/
def entryAt (bytes : ByteArray) (offset : Nat) : Entry where
  name := Text.decode (bytes.extract (offset + 46) (offset + 46 + field bytes (offset + 28) 2))
  method := .ofId (field bytes (offset + 10) 2)
  compressedSize := field bytes (offset + 20) 4
  uncompressedSize := field bytes (offset + 24) 4
  localOffset := field bytes (offset + 42) 4

/-- Where the directory record at `offset` ends: after its name, its extra field and its comment. -/
def recordEnd (bytes : ByteArray) (offset : Nat) : Nat :=
  offset + 46 + field bytes (offset + 28) 2 + field bytes (offset + 30) 2 + field bytes (offset + 32) 2

/-- A directory record lies at `offset`: its fixed bytes and its name are inside the buffer, and its signature stands
there.  Its extra field and its comment may run past the buffer. -/
structure HoldsRecord (bytes : ByteArray) (offset : Nat) : Prop where
  fits : offset + 46 ≤ bytes.size
  signed : StandsAt bytes offset [0x50, 0x4B, 0x01, 0x02]
  name_fits : offset + 46 + field bytes (offset + 28) 2 ≤ bytes.size

/-- Where record number `k` starts if each record starts where the one before it ends. -/
def recordStart (bytes : ByteArray) (first : Nat) : (k : Nat) → Nat
  | 0 => first
  | k + 1 => recordEnd bytes (recordStart bytes first k)

/-- The entries of the `count` records from `first` on. -/
def entriesFrom (bytes : ByteArray) (first count : Nat) : List Entry :=
  (List.range count).map fun k => entryAt bytes (recordStart bytes first k)

theorem recordStart_recordEnd (bytes : ByteArray) (first k : Nat) :
    recordStart bytes (recordEnd bytes first) k = recordStart bytes first (k + 1) := by
  induction k with
  | zero => rfl
  | succ k ih => rw [recordStart, ih]; rfl

theorem entriesFrom_succ (bytes : ByteArray) (first count : Nat) : entriesFrom bytes first (count + 1) =
    entryAt bytes first :: entriesFrom bytes (recordEnd bytes first) count := by
  rw [entriesFrom, List.range_succ_eq_map, List.map_cons, List.map_map, entriesFrom]
  simp [recordStart_recordEnd, recordStart]

theorem holdsRecord_iff {offset : Nat} : HoldsRecord bytes offset ↔ offset + 46 ≤ bytes.size ∧
    field bytes offset 4 = CentralRecord.expected ∧ offset + 46 + field bytes (offset + 28) 2 ≤ bytes.size := by
  have signed (h : offset + 46 ≤ bytes.size) :
      field bytes offset 4 = CentralRecord.expected ↔ StandsAt bytes offset [0x50, 0x4B, 0x01, 0x02] := by
    have hs : uint32? bytes offset = some CentralRecord.expected ↔ StandsAt bytes offset [0x50, 0x4B, 0x01, 0x02] :=
      uint32?_eq_some_iff (show ([0x50, 0x4B, 0x01, 0x02] : List UInt8).length = 4 from rfl)
    rw [uint32?_eq, if_pos (by omega), Option.some.injEq] at hs
    exact hs
  exact ⟨fun h => ⟨h.fits, (signed h.fits).2 h.signed, h.name_fits⟩, fun ⟨hf, hs, hn⟩ => ⟨hf, (signed hf).1 hs, hn⟩⟩

/-- **A record is read where one lies.** -/
theorem readRecord_of_holds {offset : Nat} (h : HoldsRecord bytes offset) (index : Nat) :
    readRecord bytes index offset = .ok (entryAt bytes offset, recordEnd bytes offset) := by
  obtain ⟨hfits, hsigned, hname⟩ := holdsRecord_iff.1 h
  have hslice : slice? bytes (offset + CentralRecord.fixedSize) (field bytes (offset + 28) 2) =
      some (bytes.extract (offset + 46) (offset + 46 + field bytes (offset + 28) 2)) := if_pos hname
  rw [readRecord, CentralRecord.read?_eq, if_pos hfits]
  dsimp only
  rw [if_pos hsigned, hslice]
  simp only [CentralRecord.entry, CentralRecord.size, CentralRecord.fixedSize, entryAt, recordEnd, Nat.add_assoc]

theorem readRecord_of_not_holds {offset : Nat} (h : ¬ HoldsRecord bytes offset) (index : Nat) :
    ∃ fault, readRecord bytes index offset = .error fault := by
  rw [readRecord, CentralRecord.read?_eq]
  by_cases hfits : offset + 46 ≤ bytes.size
  · rw [if_pos hfits]
    dsimp only
    by_cases hsigned : field bytes offset 4 = CentralRecord.expected
    · have hslice : slice? bytes (offset + CentralRecord.fixedSize) (field bytes (offset + 28) 2) = none :=
        if_neg fun hname => h (holdsRecord_iff.2 ⟨hfits, hsigned, hname⟩)
      rw [if_pos hsigned, hslice]
      exact ⟨_, rfl⟩
    · rw [if_neg hsigned]
      exact ⟨_, rfl⟩
  · rw [if_neg hfits]
    exact ⟨_, rfl⟩

/-! ## The walk -/

/-- **Where all records lie in a row, the walk gives their entries** and ends after the last one. -/
theorem walk_of_holds {count : Nat} (index : Nat) {offset : Nat} (known : List Entry)
    (h : ∀ k < count, HoldsRecord bytes (recordStart bytes offset k)) :
    walk bytes count index offset known =
      .ok ((entriesFrom bytes offset count).reverse ++ known, recordStart bytes offset count) := by
  induction count generalizing index offset known with
  | zero => rfl
  | succ n ih =>
    obtain ⟨hfirst, hlater⟩ := Nat.forall_lt_succ_left.1 h
    have hnext : ∀ k < n, HoldsRecord bytes (recordStart bytes (recordEnd bytes offset) k) := by
      intro k hk
      rw [recordStart_recordEnd]
      exact hlater k hk
    simp only [walk, readRecord_of_holds (show HoldsRecord bytes offset from hfirst)]
    rw [ih (index + 1) (entryAt bytes offset :: known) hnext, entriesFrom_succ, recordStart_recordEnd]
    simp

/-- **Where a record is missing, the walk fails.** -/
theorem walk_of_not_holds {count : Nat} (index : Nat) {offset : Nat} (known : List Entry)
    (h : ¬ ∀ k < count, HoldsRecord bytes (recordStart bytes offset k)) :
    ∃ fault, walk bytes count index offset known = .error fault := by
  induction count generalizing index offset known with
  | zero => exact absurd (fun k hk => absurd hk (Nat.not_lt_zero k)) h
  | succ n ih =>
    rw [Nat.forall_lt_succ_left] at h
    by_cases hfirst : HoldsRecord bytes offset
    · simp only [walk, readRecord_of_holds hfirst]
      refine ih (index + 1) _ fun hlater => h ⟨hfirst, fun k hk => ?_⟩
      rw [← recordStart_recordEnd]
      exact hlater k hk
    · obtain ⟨fault, hr⟩ := readRecord_of_not_holds hfirst index
      simp only [walk, hr]
      exact ⟨fault, rfl⟩

/-! ## The directory -/

/-- The directory that the end record at `p` tells of is there: it is within the buffer, and all its records lie in a
row. -/
structure ListsRecords (bytes : ByteArray) (p : Nat) : Prop where
  within : directoryEnd bytes p ≤ bytes.size
  holds : ∀ k < recordCount bytes p, HoldsRecord bytes (recordStart bytes (directoryStart bytes p) k)

def walkEnd (bytes : ByteArray) (p : Nat) : Nat := recordStart bytes (directoryStart bytes p) (recordCount bytes p)

def listed (bytes : ByteArray) (p : Nat) : List Entry := entriesFrom bytes (directoryStart bytes p) (recordCount bytes p)

theorem directory_of_no_end (strict : Bool) (h : ∀ p, ¬ MayEnd bytes p) : directory strict bytes = .fail .notAZip := by
  rcases EndRecord.locate?_cases bytes with ⟨hl, -⟩ | ⟨p, hp, -⟩
  · rw [directory, hl]
  · exact absurd hp.1 (h p)

/-- **A directory that is there is read**, unless it is read strictly and the walk ends elsewhere. -/
theorem directory_of_lists (strict : Bool) {p : Nat} (hp : IsEndRecord bytes p) (h : ListsRecords bytes p) :
    directory strict bytes =
      if walkEnd bytes p = directoryEnd bytes p then ⟨.ok (listed bytes p).reverse, []⟩
      else if strict then
        .fail (.corruptCentralDirectory (.walkEnd (walkEnd bytes p) (directoryEnd bytes p)))
      else ⟨.ok (listed bytes p).reverse, [.walkEnd (walkEnd bytes p) (directoryEnd bytes p)]⟩ := by
  have hwithin : ¬ (⟨recordCount bytes p, field bytes (p + 12) 4, directoryStart bytes p⟩ : EndRecord).directoryEnd >
      bytes.size := Nat.not_lt.2 h.within
  unfold directory
  rw [EndRecord.locate?_of_isEndRecord hp]
  dsimp only
  rw [if_neg hwithin, walk_of_holds 0 [] h.holds, List.append_nil]
  rfl

/-- **A directory that is not there is refused**, however strictly it is read. -/
theorem directory_of_not_lists {p : Nat} (hp : IsEndRecord bytes p) (h : ¬ ListsRecords bytes p) :
    ∃ fault, ∀ strict, directory strict bytes = .fail (.corruptCentralDirectory fault) := by
  unfold directory
  rw [EndRecord.locate?_of_isEndRecord hp]
  dsimp only
  split
  case isTrue hbeyond => exact ⟨_, fun _ => rfl⟩
  case isFalse hwithin =>
    obtain ⟨fault, hw⟩ := walk_of_not_holds 0 [] fun holds => h ⟨Nat.not_lt.1 hwithin, holds⟩
    rw [hw]
    exact ⟨fault, fun _ => rfl⟩

/-! ## Opening an archive -/

theorem nodup_eraseDups (names : List String) : names.eraseDups.Nodup := by
  match names with
  | [] => exact List.nodup_nil
  | name :: names =>
    have := List.length_filter_le (fun other => !other == name) names
    rw [List.eraseDups_cons, List.nodup_cons]
    exact ⟨by simp, nodup_eraseDups _⟩
termination_by names.length

namespace Archive

/-- The index of an archive is that of a list of entries: its names are theirs, each of them once, and a name stands for
the last entry that has it. -/
structure Indexes (a : Archive) (es : List Entry) : Prop where
  lookup_eq : ∀ name, a.entry? name = (es.filter (·.name = name)).getLast?
  contains_iff : ∀ name, a.contains name = true ↔ ∃ e ∈ es, e.name = name
  mem_names_iff : ∀ name, name ∈ a.names ↔ ∃ e ∈ es, e.name = name
  nodup_names : a.names.Nodup

theorem indexes_reverse (bytes : ByteArray) (es : List Entry) : (⟨bytes, es.reverse⟩ : Archive).Indexes es where
  lookup_eq name := by
    unfold entry?
    rw [List.getLast?_filter]
  contains_iff name := by simp [contains, entry?, List.find?_isSome]
  mem_names_iff name := by simp [names, List.mem_eraseDups]
  nodup_names := nodup_eraseDups _

theorem outcome_eq (bytes : ByteArray) (strict : Bool) :
    (ofBytes bytes strict).outcome = (directory strict bytes).outcome.map (⟨bytes, ·⟩) := by
  rw [ofBytes, Report.outcome_bind]
  cases (directory strict bytes).outcome <;> rfl

theorem eq_ok_of_toOption {ε α : Type} {r : Except ε α} {x : α} (h : r.toOption = some x) : r = .ok x := by
  cases r with
  | error e => cases h
  | ok y =>
    cases h
    rfl

theorem outcome_of_directory {es : List Entry} (h : (directory true bytes).outcome.toOption = some es) :
    (ofBytes bytes).outcome = .ok ⟨bytes, es⟩ := by
  rw [outcome_eq, eq_ok_of_toOption h]
  rfl

theorem outcome_of_no_end (strict : Bool) (h : ∀ p, ¬ MayEnd bytes p) :
    (ofBytes bytes strict).outcome = .error .notAZip := by
  rw [outcome_eq, directory_of_no_end strict h]
  rfl

theorem outcome_of_not_lists {p : Nat} (hp : IsEndRecord bytes p) (h : ¬ ListsRecords bytes p) :
    ∃ fault, ∀ strict, (ofBytes bytes strict).outcome = .error (.corruptCentralDirectory fault) := by
  obtain ⟨fault, hd⟩ := directory_of_not_lists hp h
  exact ⟨fault, fun strict => by rw [outcome_eq, hd]; rfl⟩

theorem outcome_of_lists {p : Nat} (hp : IsEndRecord bytes p) (h : ListsRecords bytes p) (strict : Bool)
    (hends : strict = true → walkEnd bytes p = directoryEnd bytes p) :
    (ofBytes bytes strict).outcome = .ok ⟨bytes, (listed bytes p).reverse⟩ := by
  rw [outcome_eq, directory_of_lists strict hp h]
  by_cases he : walkEnd bytes p = directoryEnd bytes p
  · rw [if_pos he]
    rfl
  · rw [if_neg he, if_neg (fun hs => he (hends hs))]
    rfl

theorem outcome_of_elsewhere {p : Nat} (hp : IsEndRecord bytes p) (h : ListsRecords bytes p)
    (helse : walkEnd bytes p ≠ directoryEnd bytes p) : (ofBytes bytes true).outcome =
      .error (.corruptCentralDirectory (.walkEnd (walkEnd bytes p) (directoryEnd bytes p))) := by
  rw [outcome_eq, directory_of_lists true hp h, if_neg helse]
  rfl

theorem end_cases (bytes : ByteArray) :
    (∀ p, ¬ MayEnd bytes p) ∨ (∃ p, IsEndRecord bytes p ∧ ¬ ListsRecords bytes p) ∨
      ∃ p, IsEndRecord bytes p ∧ ListsRecords bytes p := by
  rcases EndRecord.locate?_cases bytes with ⟨-, hnone⟩ | ⟨p, hp, -⟩
  · exact .inl hnone
  · by_cases hlists : ListsRecords bytes p
    · exact .inr (.inr ⟨p, hp, hlists⟩)
    · exact .inr (.inl ⟨p, hp, hlists⟩)

/-- **An archive is opened exactly where its records are all there**; read strictly, they must end where the end record
says. -/
theorem isOk_iff (bytes : ByteArray) (strict : Bool) : (∃ a, (ofBytes bytes strict).outcome = .ok a) ↔
    ∃ p, IsEndRecord bytes p ∧ ListsRecords bytes p ∧ (strict = true → walkEnd bytes p = directoryEnd bytes p) := by
  constructor
  · rintro ⟨a, ha⟩
    rcases end_cases bytes with hnone | ⟨p, hp, hnot⟩ | ⟨p, hp, hlists⟩
    · rw [outcome_of_no_end strict hnone] at ha
      cases ha
    · obtain ⟨fault, ho⟩ := outcome_of_not_lists hp hnot
      rw [ho] at ha
      cases ha
    · refine ⟨p, hp, hlists, fun hs => Classical.byContradiction fun helse => ?_⟩
      rw [hs, outcome_of_elsewhere hp hlists helse] at ha
      cases ha
  · rintro ⟨p, hp, hlists, hends⟩
    exact ⟨_, outcome_of_lists hp hlists strict hends⟩

theorem eq_of_isOk {strict : Bool} {a : Archive} (h : (ofBytes bytes strict).outcome = .ok a) :
    ∃ p, IsEndRecord bytes p ∧ a = ⟨bytes, (listed bytes p).reverse⟩ := by
  obtain ⟨p, hp, hlists, hends⟩ := (isOk_iff bytes strict).1 ⟨a, h⟩
  rw [outcome_of_lists hp hlists strict hends] at h
  exact ⟨p, hp, (Except.ok.inj h).symm⟩

theorem kind_of_error {strict : Bool} {e : Error} (h : (ofBytes bytes strict).outcome = .error e) :
    (e.kind = .notAZip ∧ ∀ p, ¬ MayEnd bytes p) ∨ (e.kind = .corruptCentralDirectory ∧ ∃ p, IsEndRecord bytes p) := by
  rcases end_cases bytes with hnone | ⟨p, hp, hnot⟩ | ⟨p, hp, hlists⟩
  · rw [outcome_of_no_end strict hnone] at h
    cases h
    exact .inl ⟨rfl, hnone⟩
  · obtain ⟨fault, ho⟩ := outcome_of_not_lists hp hnot
    rw [ho] at h
    cases h
    exact .inr ⟨rfl, p, hp⟩
  · by_cases hends : strict = true → walkEnd bytes p = directoryEnd bytes p
    · rw [outcome_of_lists hp hlists strict hends] at h
      cases h
    · rw [Classical.not_imp] at hends
      rw [hends.1, outcome_of_elsewhere hp hlists hends.2] at h
      cases h
      exact .inr ⟨rfl, p, hp⟩

/-- **A strict reading that succeeds gives what a lenient one gives.** -/
theorem lenient_of_strict {a : Archive} (h : (ofBytes bytes true).outcome = .ok a) :
    (ofBytes bytes false).outcome = .ok a := by
  obtain ⟨p, hp, hlists, hends⟩ := (isOk_iff bytes true).1 ⟨a, h⟩
  rw [← h, outcome_of_lists hp hlists true hends, outcome_of_lists hp hlists false (fun hs => by cases hs)]

theorem differ_iff (bytes : ByteArray) : (ofBytes bytes true).outcome ≠ (ofBytes bytes false).outcome ↔
    ∃ p, IsEndRecord bytes p ∧ ListsRecords bytes p ∧ walkEnd bytes p ≠ directoryEnd bytes p := by
  constructor
  · intro hne
    rcases end_cases bytes with hnone | ⟨p, hp, hnot⟩ | ⟨p, hp, hlists⟩
    · exact absurd (by rw [outcome_of_no_end true hnone, outcome_of_no_end false hnone]) hne
    · obtain ⟨fault, ho⟩ := outcome_of_not_lists hp hnot
      exact absurd (by rw [ho, ho]) hne
    · refine ⟨p, hp, hlists, fun hends => hne ?_⟩
      rw [outcome_of_lists hp hlists true fun _ => hends, outcome_of_lists hp hlists false fun _ => hends]
  · rintro ⟨p, hp, hlists, helse⟩
    rw [outcome_of_elsewhere hp hlists helse, outcome_of_lists hp hlists false (fun hs => by cases hs)]
    exact fun h => by cases h

/-- **What opening an archive does, for every buffer and both settings.**  It succeeds exactly where the end record, the
directory and all its records are there and, read strictly, the records end where the end record says; the index is that
of the entries listed; it fails as no archive where there is no end record and on account of the directory elsewhere; and
the settings differ exactly where the records are there and end elsewhere. -/
theorem ofBytes_eq_listed (bytes : ByteArray) :
    (∀ strict, (∃ a, (ofBytes bytes strict).outcome = .ok a) ↔
      ∃ p, IsEndRecord bytes p ∧ ListsRecords bytes p ∧ (strict = true → walkEnd bytes p = directoryEnd bytes p)) ∧
    (∀ strict a, (ofBytes bytes strict).outcome = .ok a →
      ∃ p, IsEndRecord bytes p ∧ a.bytes = bytes ∧ a.Indexes (listed bytes p)) ∧
    (∀ strict e, (ofBytes bytes strict).outcome = .error e →
      (e.kind = .notAZip ∧ ∀ p, ¬ MayEnd bytes p) ∨ (e.kind = .corruptCentralDirectory ∧ ∃ p, IsEndRecord bytes p)) ∧
    (∀ a, (ofBytes bytes true).outcome = .ok a → (ofBytes bytes false).outcome = .ok a) ∧
    ((ofBytes bytes true).outcome ≠ (ofBytes bytes false).outcome ↔
      ∃ p, IsEndRecord bytes p ∧ ListsRecords bytes p ∧ walkEnd bytes p ≠ directoryEnd bytes p) := by
  refine ⟨isOk_iff bytes, fun strict a ha => ?_, fun strict e => kind_of_error, fun a => lenient_of_strict,
    differ_iff bytes⟩
  obtain ⟨p, hp, rfl⟩ := eq_of_isOk ha
  exact ⟨p, hp, rfl, indexes_reverse bytes _⟩

end Archive

end OfficePreview.Zip
