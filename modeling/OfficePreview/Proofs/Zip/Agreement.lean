import OfficePreview.Proofs.Zip.Directory
/-!
# Agreement — the bytes that a reader of an archive looks at

Two buffers agree on a range if they hold the same bytes there (`AgreeOn`), and then a field, a signature or a payload
that lies in the range is the same in both.  What is read of an archive lies in few ranges: the fields of the end
record, those of the directory records with their names (`KeepsDirectory`), and for each entry its local header and its
payload (`KeepsRecord`).  A buffer that keeps them opens with the same entries (`ofBytes_of_keeps`), and the entries are
read the same (`read_of_keeps`).
-/
namespace OfficePreview.Zip

/-! ## Ranges -/

/-- Two buffers hold the same bytes from `start` up to `stop`. -/
def AgreeOn (b b' : ByteArray) (start stop : Nat) : Prop := ∀ i, start ≤ i → i < stop → b[i]? = b'[i]?

theorem getElem?_toList (bytes : ByteArray) (i : Nat) : bytes.data.toList[i]? = bytes[i]? := by
  by_cases h : i < bytes.size
  · rw [getElem?_pos bytes i h]
    have hi : i < bytes.data.toList.length := h
    exact List.getElem?_eq_getElem hi
  · rw [getElem?_neg bytes i h]
    have hi : bytes.data.toList.length ≤ i := Nat.not_lt.1 h
    exact List.getElem?_eq_none hi

namespace AgreeOn

variable {b c : ByteArray} {start stop : Nat}

theorem mono {start' stop' : Nat} (h : AgreeOn b c start stop) (hstart : start ≤ start') (hstop : stop' ≤ stop) :
    AgreeOn b c start' stop' := by
  intro i hi hlt
  exact h i (Nat.le_trans hstart hi) (Nat.lt_of_lt_of_le hlt hstop)

theorem take_drop_eq {n : Nat} (h : AgreeOn b c start (start + n)) :
    (b.data.toList.drop start).take n = (c.data.toList.drop start).take n := by
  apply List.ext_getElem?
  intro k
  by_cases hk : k < n
  · rw [List.getElem?_take_of_lt hk, List.getElem?_take_of_lt hk, List.getElem?_drop, List.getElem?_drop,
      getElem?_toList, getElem?_toList]
    exact h (start + k) (Nat.le_add_right start k) (Nat.add_lt_add_left hk start)
  · rw [List.getElem?_take_eq_none (Nat.not_lt.1 hk), List.getElem?_take_eq_none (Nat.not_lt.1 hk)]

theorem of_take_drop_eq {n : Nat} (h : (b.data.toList.drop start).take n = (c.data.toList.drop start).take n) :
    AgreeOn b c start (start + n) := by
  intro i hi hlt
  have hk : i - start < n := by omega
  have hat := congrArg (·[i - start]?) h
  simp only [List.getElem?_take_of_lt hk, List.getElem?_drop, Nat.add_sub_cancel' hi, getElem?_toList] at hat
  exact hat

instance (b c : ByteArray) (start stop : Nat) : Decidable (AgreeOn b c start stop) :=
  decidable_of_iff ((b.data.toList.drop start).take (stop - start) = (c.data.toList.drop start).take (stop - start))
    ⟨fun h => (of_take_drop_eq h).mono (Nat.le_refl start) (by omega), fun h => by
      by_cases hle : start ≤ stop
      · apply take_drop_eq
        rw [Nat.add_sub_cancel' hle]
        exact h
      · rw [Nat.sub_eq_zero_of_le (Nat.le_of_not_le hle), List.take_zero, List.take_zero]⟩

theorem field_eq {width : Nat} (h : AgreeOn b c start (start + width)) : field c start width = field b start width := by
  rw [field, field, h.take_drop_eq]

theorem extract_eq {n : Nat} (h : AgreeOn b c start (start + n)) :
    c.extract start (start + n) = b.extract start (start + n) := by
  apply ByteArray.ext
  apply Array.toList_inj.1
  simpa [ByteArray.data_extract] using h.take_drop_eq.symm

theorem standsAt_iff {xs : List UInt8} (h : AgreeOn b c start (start + xs.length)) :
    StandsAt c start xs ↔ StandsAt b start xs := by
  unfold StandsAt
  rw [List.prefix_iff_eq_take, List.prefix_iff_eq_take, h.take_drop_eq]

end AgreeOn

/-! ## The directory -/

variable {b c : ByteArray}

/-- The buffer `c` keeps what is read of the directory record at `offset` in `b`: its signature, its method, its sizes
and lengths, and the position of the local header with the name after it. -/
structure KeepsCentral (b c : ByteArray) (offset : Nat) : Prop where
  signature : AgreeOn b c offset (offset + 4)
  method : AgreeOn b c (offset + 10) (offset + 12)
  lengths : AgreeOn b c (offset + 20) (offset + 34)
  name : AgreeOn b c (offset + 42) (offset + 46 + field b (offset + 28) 2)

theorem KeepsCentral.of_agreeOn {offset stop : Nat} (h : AgreeOn b c offset stop) (hstop : recordEnd b offset ≤ stop) :
    KeepsCentral b c offset := by
  unfold recordEnd at hstop
  refine ⟨?_, ?_, ?_, ?_⟩ <;> exact h.mono (by omega) (by omega)

/-- **One record**: a record that is kept lies in the other buffer too, with the same entry. -/
theorem HoldsRecord.of_keeps {offset : Nat} (h : HoldsRecord b offset) (hsize : b.size ≤ c.size)
    (keeps : KeepsCentral b c offset) :
    HoldsRecord c offset ∧ recordEnd c offset = recordEnd b offset ∧ entryAt c offset = entryAt b offset := by
  have lengths {i width : Nat} (hi : offset + 20 ≤ i) (hw : i + width ≤ offset + 34) :
      field c i width = field b i width := (keeps.lengths.mono hi hw).field_eq
  have hname : field c (offset + 28) 2 = field b (offset + 28) 2 := lengths (by omega) (by omega)
  have hmethod : field c (offset + 10) 2 = field b (offset + 10) 2 := keeps.method.field_eq
  have hlocal : field c (offset + 42) 4 = field b (offset + 42) 4 :=
    (keeps.name.mono (Nat.le_refl _) (by omega)).field_eq
  have htext : AgreeOn b c (offset + 46) (offset + 46 + field b (offset + 28) 2) :=
    keeps.name.mono (by omega) (Nat.le_refl _)
  have hfits := h.fits
  have hlt := h.name_fits
  refine ⟨⟨by omega, keeps.signature.standsAt_iff.2 h.signed, by rw [hname]; omega⟩, ?_, ?_⟩
  · rw [recordEnd, recordEnd, hname, lengths (by omega) (by omega), lengths (by omega) (by omega)]
  · rw [entryAt, entryAt, hname, htext.extract_eq, hmethod, hlocal, lengths (by omega) (by omega),
      lengths (by omega) (by omega)]

/-- **All records**: a buffer that keeps each record holds the same records. -/
theorem records_of_keeps {count first : Nat} (hsize : b.size ≤ c.size)
    (h : ∀ k < count, HoldsRecord b (recordStart b first k))
    (keeps : ∀ k < count, KeepsCentral b c (recordStart b first k)) :
    (∀ k < count, HoldsRecord c (recordStart c first k)) ∧ recordStart c first count = recordStart b first count ∧
      entriesFrom c first count = entriesFrom b first count := by
  induction count generalizing first with
  | zero => exact ⟨fun k hk => absurd hk (Nat.not_lt_zero k), rfl, by simp [entriesFrom]⟩
  | succ n ih =>
    obtain ⟨hfirst, hlater⟩ := Nat.forall_lt_succ_left.1 h
    obtain ⟨keepsFirst, keepsLater⟩ := Nat.forall_lt_succ_left.1 keeps
    have hrecord : HoldsRecord b first := hfirst
    obtain ⟨hholds, hend, hentry⟩ := hrecord.of_keeps hsize keepsFirst
    simp only [← recordStart_recordEnd] at hlater keepsLater
    obtain ⟨hholds', hreached, hentries⟩ := ih hlater keepsLater
    refine ⟨Nat.forall_lt_succ_left.2 ⟨hholds, ?_⟩, ?_, ?_⟩
    · intro k hk
      rw [← recordStart_recordEnd, hend]
      exact hholds' k hk
    · rw [← recordStart_recordEnd, hend, hreached, recordStart_recordEnd]
    · rw [entriesFrom_succ, entriesFrom_succ, hend, hentry, hentries]

/-- The buffer `c`, which is no shorter, keeps what the end record of `b` at `p` says of the directory, and what is read
of the records there. -/
structure KeepsDirectory (b c : ByteArray) (p : Nat) : Prop where
  size_le : b.size ≤ c.size
  fields : AgreeOn b c (p + 10) (p + 20)
  records : ∀ k < recordCount b p, KeepsCentral b c (recordStart b (directoryStart b p) k)

theorem recordStart_mono (bytes : ByteArray) (first : Nat) {j k : Nat} (h : j ≤ k) :
    recordStart bytes first j ≤ recordStart bytes first k := by
  induction h with
  | refl => exact Nat.le_refl _
  | step _ ih =>
    refine Nat.le_trans ih ?_
    rw [recordStart, recordEnd]
    omega

/-- Records are kept where the whole range that they fill is kept. -/
theorem keepsCentral_of_agreeOn {first count : Nat} (agree : AgreeOn b c first (recordStart b first count)) {k : Nat}
    (hk : k < count) : KeepsCentral b c (recordStart b first k) :=
  .of_agreeOn (agree.mono (recordStart_mono b first (Nat.zero_le k)) (Nat.le_refl _))
    (recordStart_mono b first (show k + 1 ≤ count from hk))

namespace KeepsDirectory

variable {p : Nat}

theorem directoryStart_eq (h : KeepsDirectory b c p) : directoryStart c p = directoryStart b p :=
  (h.fields.mono (by omega) (by omega)).field_eq

theorem recordCount_eq (h : KeepsDirectory b c p) : recordCount c p = recordCount b p :=
  (h.fields.mono (by omega) (by omega)).field_eq

theorem directoryEnd_eq (h : KeepsDirectory b c p) : directoryEnd c p = directoryEnd b p := by
  have hstart : field c (p + 16) 4 = field b (p + 16) 4 := h.directoryStart_eq
  have hlength : field c (p + 12) 4 = field b (p + 12) 4 := (h.fields.mono (by omega) (by omega)).field_eq
  rw [directoryEnd, directoryEnd, hstart, hlength]

/-- **A directory is kept with all its entries**, and ends where it ended. -/
theorem lists (h : KeepsDirectory b c p) (hlists : ListsRecords b p) :
    ListsRecords c p ∧ walkEnd c p = walkEnd b p ∧ listed c p = listed b p := by
  obtain ⟨hholds, hreached, hentries⟩ := records_of_keeps h.size_le hlists.holds h.records
  refine ⟨⟨?_, ?_⟩, ?_, ?_⟩
  · rw [h.directoryEnd_eq]
    exact Nat.le_trans hlists.within h.size_le
  · rw [h.recordCount_eq, h.directoryStart_eq]
    exact hholds
  · rw [walkEnd, h.recordCount_eq, h.directoryStart_eq]
    exact hreached
  · rw [listed, h.recordCount_eq, h.directoryStart_eq]
    exact hentries

end KeepsDirectory

/-! ## The payloads -/

/-- Where the payload of an entry starts: after its local header, as long as the header says it is. -/
def payloadStart (bytes : ByteArray) (e : Entry) : Nat :=
  e.localOffset + 30 + field bytes (e.localOffset + 26) 2 + field bytes (e.localOffset + 28) 2

/-- The buffer `c` keeps what is read of the local record of an entry as it is laid out in `b`: the signature and the
lengths of its header, and its payload. -/
structure KeepsRecord (b c : ByteArray) (e : Entry) : Prop where
  signature : AgreeOn b c e.localOffset (e.localOffset + 4)
  lengths : AgreeOn b c (e.localOffset + 26) (e.localOffset + 30)
  payload : AgreeOn b c (payloadStart b e) (payloadStart b e + e.compressedSize)

instance (b c : ByteArray) (e : Entry) : Decidable (KeepsRecord b c e) :=
  decidable_of_iff (AgreeOn b c e.localOffset (e.localOffset + 4) ∧
      AgreeOn b c (e.localOffset + 26) (e.localOffset + 30) ∧
      AgreeOn b c (payloadStart b e) (payloadStart b e + e.compressedSize))
    ⟨fun h => ⟨h.1, h.2.1, h.2.2⟩, fun h => ⟨h.signature, h.lengths, h.payload⟩⟩

namespace Archive

/-- A payload is there where the header is signed and the payload lies inside the buffer. -/
theorem payload_eq_ok_iff {a : Archive} {e : Entry} {payload : ByteArray} :
    a.payload e = .ok payload ↔ e.localOffset + 30 ≤ a.bytes.size ∧
      field a.bytes e.localOffset 4 = LocalHeader.expected ∧
      payloadStart a.bytes e + e.compressedSize ≤ a.bytes.size ∧
      a.bytes.extract (payloadStart a.bytes e) (payloadStart a.bytes e + e.compressedSize) = payload := by
  unfold Archive.payload
  rw [LocalHeader.read?_eq]
  by_cases hfits : e.localOffset + 30 ≤ a.bytes.size
  · rw [if_pos hfits]
    dsimp only
    by_cases hsigned : field a.bytes e.localOffset 4 = LocalHeader.expected
    · have hstart : (⟨field a.bytes e.localOffset 4, field a.bytes (e.localOffset + 26) 2,
          field a.bytes (e.localOffset + 28) 2⟩ : LocalHeader).payloadOffset e.localOffset = payloadStart a.bytes e :=
        rfl
      rw [if_pos hsigned, hstart, slice?]
      by_cases hpayload : payloadStart a.bytes e + e.compressedSize ≤ a.bytes.size
      · simp [hfits, hsigned, hpayload]
      · simp [hpayload]
    · rw [if_neg hsigned]
      simp [hsigned]
  · rw [if_neg hfits]
    simp [hfits]

/-- An entry that is read has a payload. -/
theorem exists_payload {a : Archive} {e : Entry} {data : ByteArray} (h : (a.readEntry e).outcome = .ok data) :
    ∃ payload, a.payload e = .ok payload := by
  unfold readEntry at h
  cases hp : a.payload e with
  | error fault =>
    rw [hp] at h
    cases h
  | ok payload => exact ⟨payload, rfl⟩

end Archive

theorem KeepsRecord.payload_eq {a a' : Archive} {e : Entry} {payload : ByteArray}
    (h : KeepsRecord a.bytes a'.bytes e) (hsize : a.bytes.size ≤ a'.bytes.size) (hp : a.payload e = .ok payload) :
    a'.payload e = .ok payload := by
  obtain ⟨hfits, hsigned, hwithin, hextract⟩ := Archive.payload_eq_ok_iff.1 hp
  have hname : field a'.bytes (e.localOffset + 26) 2 = field a.bytes (e.localOffset + 26) 2 :=
    (h.lengths.mono (Nat.le_refl _) (by omega)).field_eq
  have hextra : field a'.bytes (e.localOffset + 28) 2 = field a.bytes (e.localOffset + 28) 2 :=
    (h.lengths.mono (by omega) (by omega)).field_eq
  have hstart : payloadStart a'.bytes e = payloadStart a.bytes e := by
    rw [payloadStart, payloadStart, hname, hextra]
  refine Archive.payload_eq_ok_iff.2 ⟨by omega, ?_, ?_, ?_⟩
  · rw [h.signature.field_eq, hsigned]
  · rw [hstart]
    omega
  · rw [hstart, h.payload.extract_eq, hextract]

namespace Archive

variable {a a' : Archive}

theorem lookup_of_entries (h : a'.entries = a.entries) (name : String) : a'.entry? name = a.entry? name := by
  unfold entry?
  rw [h]

/-- **A name that is read is read the same from every buffer that keeps the record it stands for**, warnings included. -/
theorem read_of_keeps (hentries : a'.entries = a.entries) (hsize : a.bytes.size ≤ a'.bytes.size) {name : String}
    (keeps : ∀ e, a.entry? name = some e → KeepsRecord a.bytes a'.bytes e) {r : Option ByteArray}
    (h : (a.read name).outcome = .ok r) : a'.read name = a.read name := by
  unfold read at h ⊢
  rw [lookup_of_entries hentries]
  cases he : a.entry? name with
  | none => rfl
  | some e =>
    rw [he] at h
    have hread : ∃ data, (a.readEntry e).outcome = .ok data := by
      cases hr : (a.readEntry e).outcome with
      | error failure => simp [Functor.map, Report.bind, hr] at h
      | ok data => exact ⟨data, rfl⟩
    obtain ⟨data, hdata⟩ := hread
    obtain ⟨payload, hp⟩ := exists_payload hdata
    have hentry : a'.readEntry e = a.readEntry e := by
      rw [readEntry, readEntry, hp, (keeps e he).payload_eq hsize hp]
    dsimp only
    rw [hentry]

theorem lists_of_strict {p : Nat} (hp : IsEndRecord b p) (h : (ofBytes b).outcome = .ok a) :
    ListsRecords b p ∧ walkEnd b p = directoryEnd b p ∧ a = ⟨b, (listed b p).reverse⟩ := by
  obtain ⟨q, hq, hlists, hends⟩ := (isOk_iff b true).1 ⟨a, h⟩
  obtain rfl := hp.unique hq
  rw [outcome_of_lists hp hlists true hends] at h
  exact ⟨hlists, hends rfl, (Except.ok.inj h).symm⟩

/-- **An archive that opens strictly opens from every buffer that keeps its end record and its directory**, with the same
entries and without a warning. -/
theorem ofBytes_of_keeps {p : Nat} (hb : IsEndRecord b p) (hc : IsEndRecord c p) (keeps : KeepsDirectory b c p)
    (h : (ofBytes b).outcome = .ok a) : a.bytes = b ∧ ofBytes c = ⟨.ok ⟨c, a.entries⟩, []⟩ := by
  obtain ⟨hlists, hends, rfl⟩ := lists_of_strict hb h
  obtain ⟨hlists', hwalk, hlisted⟩ := keeps.lists hlists
  have hends' : walkEnd c p = directoryEnd c p := by rw [hwalk, hends, keeps.directoryEnd_eq]
  refine ⟨rfl, ?_⟩
  rw [ofBytes, directory_of_lists true hc hlists', if_pos hends', hlisted]
  rfl

end Archive

end OfficePreview.Zip
