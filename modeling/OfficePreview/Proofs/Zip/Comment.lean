import OfficePreview.Proofs.Zip.Agreement
/-!
# Comment — a comment after an archive

An archive takes a comment after its end record, which tells the length of the comment in its last two bytes
(`withComment`).  No reader looks at this length, so the comment changes an archive in two ways only.  The search for
the end record starts at the end of the buffer, so it ends at a signature that starts after the start of the record: one
that the comment brings along, or one that the two bytes of the length begin and the comment completes.  And these two
bytes may belong to what is read of the directory or of an entry, if that reaches into the end record.  Where neither is
the case, the archive opens with the same entries, and they are read the same (`comment_keeps_archive`).
-/
namespace OfficePreview.Zip

/-- The buffer that ends with an end record, with a comment after it and the length of the comment in the record. -/
def withComment (b : ByteArray) (comment : List UInt8) : ByteArray :=
  ⟨(b.data.toList.take (b.size - 2) ++ digits 2 comment.length ++ comment).toArray⟩

/-- The end record at `p` is the end of the buffer. -/
structure EndsBare (b : ByteArray) (p : Nat) : Prop where
  located : IsEndRecord b p
  size_eq : b.size = p + 22

/-- A buffer that opens strictly also does so with the comment, with the same entries, and what was read is read the
same. -/
def CommentKeeps (b : ByteArray) (comment : List UInt8) : Prop :=
  ∀ a, (Archive.ofBytes b).outcome = .ok a → ∃ a', (Archive.ofBytes (withComment b comment)).outcome = .ok a' ∧
    a'.entries = a.entries ∧ ∀ name data, (a.read name).outcome = .ok data → (a'.read name).outcome = .ok data

variable {b : ByteArray} {comment : List UInt8} {p : Nat}

theorem size_withComment (h : 2 ≤ b.size) (comment : List UInt8) :
    (withComment b comment).size = b.size + comment.length := by
  have hsize : (withComment b comment).size =
      (b.data.toList.take (b.size - 2) ++ digits 2 comment.length ++ comment).length := rfl
  rw [hsize, List.length_append, List.length_append, List.length_take, length_toList, length_digits]
  omega

/-- **A comment leaves what stands before its length as it is.** -/
theorem agreeOn_withComment (comment : List UInt8) {start stop : Nat} (h : stop + 2 ≤ b.size) :
    AgreeOn b (withComment b comment) start stop := by
  intro i _ hi
  have htake : i < (b.data.toList.take (b.size - 2)).length := by
    rw [List.length_take, length_toList]
    omega
  have hlist : (withComment b comment).data.toList =
      b.data.toList.take (b.size - 2) ++ (digits 2 comment.length ++ comment) := List.append_assoc ..
  rw [← getElem?_toList, ← getElem?_toList, hlist, List.getElem?_append_left htake,
    List.getElem?_take_of_lt (by omega)]

/-- The end record is found where it was unless a signature starts after its start. -/
theorem EndsBare.isEndRecord (h : EndsBare b p) (hcomment : comment.length ≤ 65535)
    (quiet : ∀ q, p < q → ¬ MayEnd (withComment b comment) q) : IsEndRecord (withComment b comment) p := by
  have hb := h.size_eq
  have hsize := size_withComment (b := b) (by omega) comment
  have hsigned : StandsAt (withComment b comment) p [0x50, 0x4B, 0x05, 0x06] := by
    refine AgreeOn.standsAt_iff ?_ |>.2 h.located.1.signed
    exact agreeOn_withComment comment (by simp only [List.length_cons, List.length_nil]; omega)
  refine ⟨⟨by omega, by omega, hsigned⟩, ?_⟩
  intro q hq
  by_cases hlt : p < q
  · exact absurd hq (quiet q hlt)
  · exact Nat.le_of_not_lt hlt

/-- An end record of `count` directory records that fill `length` bytes from `start` on, without a comment. -/
def endRecord (count length start : Nat) : List UInt8 :=
  [0x50, 0x4B, 0x05, 0x06] ++ List.replicate 6 0 ++ digits 2 count ++ digits 4 length ++ digits 4 start ++ digits 2 0

/-- A directory record of a stored entry of `size` bytes behind the local header at 0. -/
def storedRecord (size nameLength : Nat) : List UInt8 :=
  [0x50, 0x4B, 0x01, 0x02] ++ List.replicate 16 0 ++ digits 4 size ++ digits 4 size ++ digits 2 nameLength ++
    List.replicate 16 0

def storedEntry (name : String) (size : Nat) : Entry where
  name
  method := .stored
  compressedSize := size
  uncompressedSize := size
  localOffset := 0

/-- An archive of one entry `"a"`, which holds `size` of the bytes behind its local header, be they its content or not.
-/
def oneEntry (content : List UInt8) (size : Nat) : ByteArray :=
  ⟨([0x50, 0x4B, 0x03, 0x04] ++ List.replicate 26 0 ++ content ++ storedRecord size 1 ++ [0x61] ++
    endRecord 1 47 (30 + content.length)).toArray⟩

theorem endsBare_oneEntry : EndsBare (oneEntry [1] 1) 78 :=
  ⟨EndRecord.isEndRecord_of_locate? ⟨1, 47, 31⟩ (by decide +kernel), by decide +kernel⟩

theorem opened_oneEntry : (Archive.ofBytes (oneEntry [1] 1)).outcome = .ok ⟨oneEntry [1] 1, [storedEntry "a" 1]⟩ :=
  Archive.outcome_of_directory (by decide +kernel)

/-- **A comment does not change an archive** whose last 22 bytes are its end record and that opens strictly.  No
signature of an end record may start after the start of the record, with room for an end record from there on, and setting
the length of the comment may not change what is read of the directory.  Then the archive opens with the same entries, and
a name is read the same unless setting the length changes what is read of its entry. -/
theorem comment_keeps_archive {a : Archive} (ends : EndsBare b p) (opened : (Archive.ofBytes b).outcome = .ok a)
    (hcomment : comment.length ≤ 65535) (quiet : ∀ q, p < q → ¬ MayEnd (withComment b comment) q)
    (records : ∀ k < recordCount b p, KeepsCentral b (withComment b comment) (recordStart b (directoryStart b p) k)) :
    ∃ a', (Archive.ofBytes (withComment b comment)).outcome = .ok a' ∧ a'.entries = a.entries ∧
      ∀ name data, (∀ e, a.entry? name = some e → KeepsRecord b (withComment b comment) e) →
        (a.read name).outcome = .ok data → a'.read name = a.read name := by
  have hb := ends.size_eq
  have hsize := size_withComment (b := b) (by omega) comment
  have keeps : KeepsDirectory b (withComment b comment) p :=
    ⟨by omega, agreeOn_withComment comment (by omega), records⟩
  obtain ⟨rfl, hopen⟩ := Archive.ofBytes_of_keeps ends.located (ends.isEndRecord hcomment quiet) keeps opened
  refine ⟨⟨withComment a.bytes comment, a.entries⟩, by rw [hopen], rfl, ?_⟩
  intro name data keepsEntry hread
  refine Archive.read_of_keeps ?_ keeps.size_le keepsEntry hread
  rfl

/-- A comment of one byte after an archive of one entry. -/
theorem comment_keeps_archive_oneEntry : EndsBare (oneEntry [1] 1) 78 ∧
    (Archive.ofBytes (oneEntry [1] 1)).outcome = .ok ⟨oneEntry [1] 1, [storedEntry "a" 1]⟩ ∧
    (∀ q, 78 < q → ¬ MayEnd (withComment (oneEntry [1] 1) [0x50]) q) ∧
    ∃ a', (Archive.ofBytes (withComment (oneEntry [1] 1) [0x50])).outcome = .ok a' ∧ a'.entries = [storedEntry "a" 1] ∧
      a'.read "a" = (⟨oneEntry [1] 1, [storedEntry "a" 1]⟩ : Archive).read "a" := by
  have located : IsEndRecord (withComment (oneEntry [1] 1) [0x50]) 78 :=
    EndRecord.isEndRecord_of_locate? ⟨1, 47, 31⟩ (by decide +kernel)
  have quiet : ∀ q, 78 < q → ¬ MayEnd (withComment (oneEntry [1] 1) [0x50]) q :=
    fun q hlt hq => absurd (located.2 q hq) (Nat.not_le_of_lt hlt)
  have records : ∀ k < recordCount (oneEntry [1] 1) 78, KeepsCentral (oneEntry [1] 1)
      (withComment (oneEntry [1] 1) [0x50]) (recordStart (oneEntry [1] 1) (directoryStart (oneEntry [1] 1) 78) k) := by
    intro k hk
    exact keepsCentral_of_agreeOn (agreeOn_withComment [0x50] (by decide +kernel)) hk
  obtain ⟨a', hopen, hentries, hread⟩ :=
    comment_keeps_archive endsBare_oneEntry opened_oneEntry (by decide) quiet records
  refine ⟨endsBare_oneEntry, opened_oneEntry, quiet, a', hopen, hentries, ?_⟩
  refine hread "a" (some ⟨#[1]⟩) ?_ (Archive.eq_ok_of_toOption (by decide +kernel))
  intro e he
  cases he
  decide +kernel

/-! ## Comments that change an archive -/

/-- An archive of one entry whose name is the end record. -/
def namedByEnd : ByteArray := ⟨(storedRecord 0 22 ++ endRecord 1 68 0).toArray⟩

/-- The name that the end record with a comment of `length` bytes is read as. -/
def endName (length : Char) : String :=
  String.ofList (['P', 'K', '\x05', '\x06'] ++ List.replicate 6 '\x00' ++ ['\x01', '\x00', 'D'] ++
    List.replicate 7 '\x00' ++ [length, '\x00'])

theorem not_commentKeeps_of_entries (es es' : List Entry) (h : (directory true b).outcome.toOption = some es)
    (h' : (directory true (withComment b comment)).outcome.toOption = some es') (hne : es' ≠ es) :
    ¬ CommentKeeps b comment := by
  intro keeps
  obtain ⟨a', hopen, hentries, -⟩ := keeps _ (Archive.outcome_of_directory h)
  rw [Archive.outcome_of_directory h'] at hopen
  cases hopen
  exact hne hentries

theorem not_commentKeeps_of_read (es : List Entry) (name : String) (data : Option ByteArray)
    (h : (directory true b).outcome.toOption = some es)
    (hread : ((⟨b, es⟩ : Archive).read name).outcome.toOption = some data)
    (hne : ((⟨withComment b comment, es⟩ : Archive).read name).outcome.toOption ≠ some data) :
    ¬ CommentKeeps b comment := by
  intro keeps
  obtain ⟨a', hopen, hentries, hsame⟩ := keeps _ (Archive.outcome_of_directory h)
  obtain ⟨p, -, rfl⟩ := Archive.eq_of_isOk hopen
  have hes : (listed (withComment b comment) p).reverse = es := hentries
  rw [hes] at hsame
  exact hne (congrArg Except.toOption (hsame name data (Archive.eq_ok_of_toOption hread)))

/-- No signature starts behind the first byte of an end record with nothing but zeros in it and behind it. -/
theorem le_of_mayEnd_zeros {front : List UInt8} {n q : Nat}
    (hlist : b.data.toList = front ++ (endRecord 0 0 0 ++ List.replicate n 0)) (hq : MayEnd b q) : q ≤ front.length := by
  refine Nat.le_of_not_lt fun hlt => ?_
  obtain ⟨k, rfl⟩ := Nat.exists_eq_add_of_lt hlt
  have hsigned := hq.signed
  rw [StandsAt, hlist, Nat.add_assoc, List.drop_length_add_append] at hsigned
  have hmem : (0x50 : UInt8) ∈ (endRecord 0 0 0).tail ++ List.replicate n 0 :=
    List.mem_of_mem_drop (hsigned.subset List.mem_cons_self : (0x50 : UInt8) ∈
      ((endRecord 0 0 0).tail ++ List.replicate n 0).drop k)
  rcases List.mem_append.1 hmem with h | h
  · exact absurd h (by decide)
  · exact absurd (List.eq_of_mem_replicate h) (by decide)

/-- An end record without directory records, with nothing but zeros behind it, is the one that counts. -/
theorem directory_of_zeros (front : List UInt8) {n : Nat} (hn : n ≤ 65535) :
    (directory true ⟨(front ++ (endRecord 0 0 0 ++ List.replicate n 0)).toArray⟩).outcome.toOption = some [] := by
  generalize hbytes : ByteArray.mk (front ++ (endRecord 0 0 0 ++ List.replicate n 0)).toArray = bytes
  have hlist : bytes.data.toList = front ++ (endRecord 0 0 0 ++ List.replicate n 0) := by rw [← hbytes]
  have hsize : bytes.size = front.length + (22 + n) := by
    rw [← length_toList, hlist, List.length_append, List.length_append, List.length_replicate]
    rfl
  have fields : StandsAt bytes front.length (endRecord 0 0 0) := by
    rw [StandsAt, hlist, List.drop_left]
    exact List.prefix_append ..
  simp only [endRecord, standsAt_append, List.length_append, List.length_replicate, length_digits, List.length_cons,
    List.length_nil, Nat.reduceAdd] at fields
  obtain ⟨⟨⟨⟨⟨hsigned, -⟩, hcount⟩, hlength⟩, hstart⟩, -⟩ := fields
  have hcount : recordCount bytes front.length = 0 := hcount.field_eq
  have hstart : directoryStart bytes front.length = 0 := hstart.field_eq
  have hend : directoryEnd bytes front.length = 0 := congrArg₂ (· + ·) hstart hlength.field_eq
  have located : IsEndRecord bytes front.length := ⟨⟨by omega, by omega, hsigned⟩, fun q => le_of_mayEnd_zeros hlist⟩
  have lists : ListsRecords bytes front.length :=
    ⟨by omega, fun k hk => absurd hk (by rw [hcount]; exact Nat.not_lt_zero k)⟩
  have hwalk : walkEnd bytes front.length = directoryEnd bytes front.length := by
    rw [walkEnd, hcount, hstart, hend]
    rfl
  rw [directory_of_lists true located lists, if_pos hwalk, listed, hcount]
  rfl

/-- A comment of 0x4B50 bytes.  Its length is written as the first half of a signature, and it begins with the other. -/
def halfSignature : List UInt8 := 0x05 :: 0x06 :: List.replicate 19278 0

theorem withComment_halfSignature (b : ByteArray) : withComment b halfSignature =
    ⟨(b.data.toList.take (b.size - 2) ++ (endRecord 0 0 0 ++ List.replicate 19260 0)).toArray⟩ := by
  have hlength : digits 2 halfSignature.length = [0x50, 0x4B] := by
    rw [halfSignature, List.length_cons, List.length_cons, List.length_replicate]
    decide
  have hzeros : halfSignature = 0x05 :: 0x06 :: (List.replicate 18 0 ++ List.replicate 19260 0) := by
    rw [List.replicate_append_replicate]
    rfl
  rw [withComment, hlength, hzeros, List.append_assoc]
  rfl

/-- **Comments that change what is in an archive**.  One that is an end record of its own hides the entries, and so does
one that makes a signature together with its length, which starts inside the record; the length of any comment shows in a
name that takes in the end record, and in an entry that takes in the end record. -/
theorem comment_changes_archive :
    EndsBare (oneEntry [1] 1) 78 ∧ ¬ CommentKeeps (oneEntry [1] 1) (endRecord 0 0 0) ∧
    (halfSignature.length = 0x4B50 ∧ ¬ CommentKeeps (oneEntry [1] 1) halfSignature) ∧
    EndsBare namedByEnd 46 ∧ ¬ CommentKeeps namedByEnd [0] ∧
    EndsBare (oneEntry [] 69) 77 ∧ ¬ CommentKeeps (oneEntry [] 69) [0] := by
  refine ⟨endsBare_oneEntry, ?_, ⟨?_, ?_⟩, ?_, ?_, ?_, ?_⟩
  · exact not_commentKeeps_of_entries [storedEntry "a" 1] [] (by decide +kernel) (by decide +kernel)
      (by decide)
  · rw [halfSignature, List.length_cons, List.length_cons, List.length_replicate]
  · refine not_commentKeeps_of_entries [storedEntry "a" 1] [] (by decide +kernel) ?_ (by decide)
    rw [withComment_halfSignature]
    exact directory_of_zeros _ (by decide)
  · exact ⟨EndRecord.isEndRecord_of_locate? ⟨1, 68, 0⟩ (by decide +kernel), by decide +kernel⟩
  · exact not_commentKeeps_of_entries [storedEntry (endName '\x00') 0] [storedEntry (endName '\x01') 0]
      (by decide +kernel) (by decide +kernel) (by decide +kernel)
  · exact ⟨EndRecord.isEndRecord_of_locate? ⟨1, 47, 30⟩ (by decide +kernel), by decide +kernel⟩
  · exact not_commentKeeps_of_read [storedEntry "a" 69] "a" (some ((oneEntry [] 69).extract 30 99))
      (by decide +kernel) (by decide +kernel) (by decide +kernel)

end OfficePreview.Zip
