import OfficePreview.Proofs.Deflate.Reading
/-!
# Inflated — a stream is read as it is written

For each part of a stream two things hold of its reader: it follows the part (`Reads`), and what it gives is what some bits
stand for that stand there.  Together: a buffer is inflated exactly where it starts with a stream, to the content of the
stream (`inflate_eq_ok_iff`), and a buffer that ends inside a stream is incomplete (`inflate_of_cutOff`).
-/
namespace OfficePreview.Deflate

variable {bytes : ByteArray} {pos : Nat}

/-! ## Elements -/

theorem reads_readRange {ranges : Array (Nat × Nat)} {symbol value : Nat} {bs : List Bool}
    (h : Ranged ranges symbol bs value) :
    Reads bytes pos bs (readRange ranges bytes symbol pos) (value, pos + bs.length) := by
  obtain ⟨range, fits⟩ := h
  rw [readRange, range, length_numeral]
  exact (reads_bits fits).map _

theorem exists_ranged_of_readRange {ranges : Array (Nat × Nat)} {symbol value next : Nat}
    (h : readRange ranges bytes symbol pos = .ok (value, next)) :
    ∃ bs, Ranged ranges symbol bs value ∧ BitsAt bytes pos bs ∧ next = pos + bs.length := by
  rw [readRange] at h
  split at h
  case h_1 => cases h
  case h_2 base extra range =>
    obtain ⟨more, hmore, heq⟩ := ok_of_map h
    cases heq
    obtain ⟨fits, hbits⟩ := bitsAt_of_bits hmore
    exact ⟨numeral extra more, .mk range fits, hbits, by rw [length_numeral]⟩

theorem readElement_eq (literals distances : Code) (bytes : ByteArray) (pos : Nat) :
    readElement literals distances bytes pos = (do
      let (symbol, pos) ← literals.decode bytes pos
      if symbol < 256 then .ok (.literal symbol.toUInt8, pos)
      else if symbol = 256 then .ok (.stop, pos)
      else
        let (length, pos) ← readRange lengthRanges bytes (symbol - 257) pos
        let (symbol, pos) ← distances.decode bytes pos
        let (distance, pos) ← readRange distanceRanges bytes symbol pos
        .ok (.copy length distance, pos)) := by
  rw [readElement]
  cases literals.decode bytes pos <;> rfl

/-- **An element is read where its bits stand.** -/
theorem reads_readElement {literals distances : Code} {bs : List Bool} {e : Element}
    (h : Spelled literals distances bs e) :
    Reads bytes pos bs (readElement literals distances bytes pos) (e, pos + bs.length) := by
  rw [readElement_eq]
  cases h with
  | @literal bs symbol word lt =>
    rw [← List.append_nil bs]
    refine (reads_decode word).bind ?_
    dsimp only
    rw [if_pos lt, List.append_nil]
    exact .done ..
  | @stop bs word =>
    rw [← List.append_nil bs]
    refine (reads_decode word).bind ?_
    dsimp only
    rw [if_neg (by decide), if_pos rfl, List.append_nil]
    exact .done ..
  | @copy bs bs' cs cs' symbol symbol' length distance word gt length_ranged word' distance_ranged =>
    refine (reads_decode word).bind ?_
    dsimp only
    rw [if_neg (by omega), if_neg (by omega)]
    refine (reads_readRange length_ranged).bind ((reads_decode word').bind ?_)
    rw [← List.append_nil cs']
    refine (reads_readRange distance_ranged).bind ?_
    have hpos : pos + (bs ++ (cs ++ (bs' ++ cs'))).length =
        pos + bs.length + cs.length + bs'.length + cs'.length := by
      simp only [List.length_append, Nat.add_assoc]
    rw [List.append_nil, hpos]
    exact .done ..

theorem exists_spelled_of_readElement {literals distances : Code} {e : Element} {next : Nat}
    (h : readElement literals distances bytes pos = .ok (e, next)) :
    ∃ bs, Spelled literals distances bs e ∧ BitsAt bytes pos bs ∧ next = pos + bs.length := by
  rw [readElement_eq] at h
  obtain ⟨⟨symbol, p⟩, hdecode, h⟩ := ok_of_bind h
  obtain ⟨bs, word, hbits, rfl⟩ := exists_word_of_decode hdecode
  dsimp only at h
  split at h
  case isTrue lt =>
    cases h
    exact ⟨bs, .literal word lt, hbits, rfl⟩
  case isFalse ge =>
    split at h
    case isTrue heq =>
      cases h
      rw [heq] at word
      exact ⟨bs, .stop word, hbits, rfl⟩
    case isFalse hne =>
      obtain ⟨⟨length, p⟩, hlength, h⟩ := ok_of_bind h
      obtain ⟨cs, length_ranged, hbits₁, rfl⟩ := exists_ranged_of_readRange hlength
      obtain ⟨⟨symbol', p⟩, hdecode', h⟩ := ok_of_bind h
      obtain ⟨bs', word', hbits₂, rfl⟩ := exists_word_of_decode hdecode'
      obtain ⟨⟨distance, p⟩, hdistance, h⟩ := ok_of_bind h
      obtain ⟨cs', distance_ranged, hbits₃, rfl⟩ := exists_ranged_of_readRange hdistance
      cases h
      refine ⟨_, .copy word (by omega) length_ranged word' distance_ranged, ?_, ?_⟩
      · simp only [bitsAt_append]
        exact ⟨hbits, hbits₁, hbits₂, hbits₃⟩
      · simp only [List.length_append, Nat.add_assoc]

theorem readElements_eq (literals distances : Code) (bytes : ByteArray) (pos : Nat) (out : ByteArray) :
    readElements literals distances bytes pos out = (do
      let (e, next) ← readElement literals distances bytes pos
      match e with
      | .stop => .ok (out, next)
      | .literal b => readElements literals distances bytes next (out.push b)
      | .copy length distance =>
        if distance > out.size then .error .corrupt
        else readElements literals distances bytes next (copyBack distance length out)) := by
  rw [readElements]
  split
  case h_1 e h =>
    conv => rhs; rw [h]
    rfl
  case h_2 e next h =>
    conv => rhs; rw [h]
    cases e <;> rfl

/-- **Elements are read up to the end of the block.** -/
theorem reads_readElements {literals distances : Code} {out result : ByteArray} {bs : List Bool}
    (h : Elements literals distances out bs result) :
    Reads bytes pos bs (readElements literals distances bytes pos out) (result, pos + bs.length) := by
  induction h generalizing pos with
  | @stop out bs h =>
    rw [readElements_eq, ← List.append_nil bs]
    refine (reads_readElement h).bind ?_
    rw [List.append_nil]
    exact .done ..
  | @literal out result b bs bs' h rest ih =>
    rw [readElements_eq, List.length_append, ← Nat.add_assoc]
    exact (reads_readElement h).bind ih
  | @copy out result length distance bs bs' h reaches rest ih =>
    rw [readElements_eq, List.length_append, ← Nat.add_assoc]
    refine (reads_readElement h).bind ?_
    dsimp only
    rw [if_neg (Nat.not_lt.2 reaches)]
    exact ih

theorem exists_elements_of_readElements {literals distances : Code} {out result : ByteArray} {next : Nat}
    (h : readElements literals distances bytes pos out = .ok (result, next)) :
    ∃ bs, Elements literals distances out bs result ∧ BitsAt bytes pos bs ∧ next = pos + bs.length := by
  fun_induction readElements literals distances bytes pos out with
  | case1 => cases h
  | case2 pos out p hread =>
    cases h
    obtain ⟨bs, spelled, hbits, hnext⟩ := exists_spelled_of_readElement hread
    exact ⟨bs, .stop spelled, hbits, hnext⟩
  | case3 pos out p b hread _ _ ih =>
    obtain ⟨bs, spelled, hbits, rfl⟩ := exists_spelled_of_readElement hread
    obtain ⟨bs', rest, hbits', rfl⟩ := ih h
    refine ⟨bs ++ bs', .literal spelled rest, bitsAt_append.2 ⟨hbits, hbits'⟩, ?_⟩
    rw [List.length_append, Nat.add_assoc]
  | case4 => cases h
  | case5 pos out p length distance hread hfar _ _ ih =>
    obtain ⟨bs, spelled, hbits, rfl⟩ := exists_spelled_of_readElement hread
    obtain ⟨bs', rest, hbits', rfl⟩ := ih h
    refine ⟨bs ++ bs', .copy spelled (Nat.not_lt.1 hfar) rest, bitsAt_append.2 ⟨hbits, hbits'⟩, ?_⟩
    rw [List.length_append, Nat.add_assoc]

/-! ## Stored blocks -/

/-- The bits between a position and the next byte are in the buffer, whatever they are. -/
theorem exists_padding (hpos : pos ≤ 8 * bytes.size) :
    ∃ padding, BitsAt bytes pos padding ∧ pos + padding.length = 8 * ((pos + 7) / 8) := by
  have hall (n : Nat) : ∀ q, q + n ≤ 8 * bytes.size → ∃ bs, BitsAt bytes q bs ∧ bs.length = n := by
    induction n with
    | zero => exact fun q _ => ⟨[], trivial, rfl⟩
    | succ n ih =>
      intro q hq
      obtain ⟨bs, hbits, hlen⟩ := ih (q + 1) (by omega)
      cases hbit : bit? bytes q with
      | none =>
        have := bit?_eq_none_iff.1 hbit
        omega
      | some b => exact ⟨b :: bs, ⟨hbit, hbits⟩, by rw [List.length_cons, hlen]⟩
  obtain ⟨padding, hbits, hlen⟩ := hall (8 * ((pos + 7) / 8) - pos) pos (by omega)
  exact ⟨padding, hbits, by omega⟩

/-- **A stored block is read where its bits stand.** -/
theorem reads_readStored {out result : ByteArray} {bs : List Bool} (h : Stored pos out bs result) :
    Reads bytes pos bs (readStored bytes pos out) (result, pos + bs.length) := by
  obtain @⟨padding, data, aligns, short⟩ := h
  have hlength : Reads bytes (8 * ((pos + 7) / 8)) (numeral 16 data.size) (bits bytes 16 (8 * ((pos + 7) / 8)))
      data.size := reads_bits short
  have hcomplement : Reads bytes (8 * ((pos + 7) / 8) + 16) (numeral 16 (65535 - data.size))
      (bits bytes 16 (8 * ((pos + 7) / 8) + 16)) (65535 - data.size) := reads_bits (by omega)
  have hstart : 8 * ((pos + 7) / 8) + 16 + 16 = 8 * ((pos + 7) / 8 + 4) := by omega
  have hsum : ¬ data.size + (65535 - data.size) ≠ 65535 := by omega
  constructor
  · intro hbits
    simp only [bitsAt_append, aligns, length_numeral, hstart] at hbits
    obtain ⟨-, hbits₁, hbits₂, hdata⟩ := hbits
    have hfits : (pos + 7) / 8 + 4 + data.size ≤ bytes.size := by
      have := (bitsAt_append.2 ⟨hbits₂, by rw [length_numeral, hstart]; exact hdata⟩).le_size (by simp [numeral])
      rw [List.length_append, length_numeral, length_octets] at this
      omega
    rw [bitsAt_octets_iff hfits] at hdata
    have hend : 8 * ((pos + 7) / 8 + 4 + data.size) = pos + (padding ++ (numeral 16 data.size ++
        (numeral 16 (65535 - data.size) ++ octets data))).length := by
      simp only [List.length_append, length_numeral, length_octets]
      omega
    simp only [readStored, Bind.bind, Except.bind, hlength.whole hbits₁, hcomplement.whole hbits₂, if_neg hsum,
      if_pos hfits, hdata, hend]
  · intro hcut
    simp only [cutOff_append, aligns, length_numeral, hstart] at hcut
    rcases hcut with hcut | ⟨-, hcut | ⟨hbits₁, hcut | ⟨hbits₂, hcut⟩⟩⟩
    · have hsize := hcut.size_lt
      rw [aligns] at hsize
      simp only [readStored, Bind.bind, Except.bind, bits_of_size_le 15 (Nat.le_of_lt hsize)]
    · simp only [readStored, Bind.bind, Except.bind, hlength.cut hcut]
    · simp only [readStored, Bind.bind, Except.bind, hlength.whole hbits₁, hcomplement.cut hcut]
    · have hshort : ¬ (pos + 7) / 8 + 4 + data.size ≤ bytes.size := by
        have := hcut.size_lt
        rw [length_octets] at this
        omega
      simp only [readStored, Bind.bind, Except.bind, hlength.whole hbits₁, hcomplement.whole hbits₂, if_neg hsum,
        if_neg hshort]

theorem exists_stored_of_readStored {out result : ByteArray} {next : Nat} (hpos : pos ≤ 8 * bytes.size)
    (h : readStored bytes pos out = .ok (result, next)) :
    ∃ bs, Stored pos out bs result ∧ BitsAt bytes pos bs ∧ next = pos + bs.length := by
  obtain ⟨length, hlength, h⟩ := ok_of_bind h
  obtain ⟨complement, hcomplement, h⟩ := ok_of_bind h
  obtain ⟨padding, hpadding, aligns⟩ := exists_padding hpos
  obtain ⟨hlt, hbits⟩ := bitsAt_of_bits hlength
  obtain ⟨hlt', hbits'⟩ := bitsAt_of_bits hcomplement
  split at h
  case isTrue => cases h
  case isFalse hsum =>
    split at h
    case isFalse => cases h
    case isTrue hfits =>
      cases h
      have hsize : (bytes.extract ((pos + 7) / 8 + 4) ((pos + 7) / 8 + 4 + length)).size = length := by
        rw [ByteArray.size_extract]
        omega
      obtain rfl : complement = 65535 - length := by omega
      refine ⟨_, .mk aligns (by rw [hsize]; omega), ?_, ?_⟩
      · rw [hsize]
        simp only [bitsAt_append, length_numeral, aligns]
        refine ⟨hpadding, hbits, hbits', ?_⟩
        have hstart : 8 * ((pos + 7) / 8) + 16 + 16 = 8 * ((pos + 7) / 8 + 4) := by omega
        rw [hstart, bitsAt_octets_iff (by rw [hsize]; exact hfits), hsize]
      · simp only [List.length_append, length_numeral, length_octets, hsize]
        omega

/-! ## Described codes -/

theorem length_flatMap_numeral (width : Nat) (values : List Nat) :
    (values.flatMap (numeral width)).length = width * values.length := by
  induction values with
  | nil => rfl
  | cons v values ih => rw [List.flatMap_cons, List.length_append, length_numeral, ih, List.length_cons, Nat.mul_succ,
      Nat.add_comm]

theorem reads_readTriples {triples : List Nat} (h : ∀ t ∈ triples, t < 8) :
    Reads bytes pos (triples.flatMap (numeral 3)) (readTriples bytes triples.length pos) triples := by
  induction triples generalizing pos with
  | nil => exact .done ..
  | cons t triples ih =>
    rw [List.flatMap_cons, List.length_cons, readTriples]
    refine (reads_bits (h t List.mem_cons_self)).bind ?_
    rw [length_numeral, ← List.append_nil (triples.flatMap _)]
    exact (ih fun t ht => h t (List.mem_cons_of_mem _ ht)).bind (.done ..)

theorem bitsAt_of_readTriples {count : Nat} {triples : List Nat} (h : readTriples bytes count pos = .ok triples) :
    triples.length = count ∧ (∀ t ∈ triples, t < 8) ∧ BitsAt bytes pos (triples.flatMap (numeral 3)) := by
  induction count generalizing pos triples with
  | zero =>
    cases h
    exact ⟨rfl, fun t ht => absurd ht List.not_mem_nil, trivial⟩
  | succ n ih =>
    obtain ⟨t, ht, h⟩ := ok_of_bind h
    obtain ⟨rest, hrest, h⟩ := ok_of_bind h
    cases h
    obtain ⟨hlt, hbits⟩ := bitsAt_of_bits ht
    obtain ⟨hlen, hall, hbits'⟩ := ih hrest
    refine ⟨by rw [List.length_cons, hlen], ?_, ?_⟩
    · intro u hu
      rcases List.mem_cons.1 hu with rfl | hu
      · exact hlt
      · exact hall u hu
    · rw [List.flatMap_cons, bitsAt_append, length_numeral]
      exact ⟨hbits, hbits'⟩

theorem readLengths_succ (code : Code) (bytes : ByteArray) (n pos : Nat) (known : List Nat) :
    readLengths code bytes (n + 1) pos known = (do
      let (symbol, pos) ← code.decode bytes pos
      if symbol < 16 then readLengths code bytes n pos (symbol :: known)
      else
        let more ← bits bytes (repetition symbol).2 pos
        match repeated? symbol known with
        | none => .error .corrupt
        | some length =>
          if (repetition symbol).1 + more > n + 1 then .error .corrupt
          else
            readLengths code bytes (n + 1 - ((repetition symbol).1 + more)) (pos + (repetition symbol).2)
              (List.replicate ((repetition symbol).1 + more) length ++ known)) := by
  rw [readLengths]
  cases code.decode bytes pos with
  | error e => rfl
  | ok p =>
    obtain ⟨symbol, pos⟩ := p
    dsimp only [Bind.bind, Except.bind]
    by_cases hlt : symbol < 16
    · rw [if_pos hlt, if_pos hlt]
    · rw [if_neg hlt, if_neg hlt]
      cases bits bytes (repetition symbol).2 pos with
      | error e => rfl
      | ok more =>
        have hrep : (if symbol = 16 then known.head? else some 0) = repeated? symbol known := rfl
        rw [hrep]
        cases repeated? symbol known <;> rfl

/-- **Code lengths are read where their bits stand.** -/
theorem reads_readLengths {code : Code} {remaining : Nat} {known lengths : List Nat} {bs : List Bool}
    (h : Lengths code remaining known bs lengths) :
    Reads bytes pos bs (readLengths code bytes remaining pos known) (lengths, pos + bs.length) := by
  induction h generalizing pos with
  | done =>
    rw [readLengths]
    exact .done ..
  | length word lt rest ih =>
    rw [readLengths_succ, List.length_append, ← Nat.add_assoc]
    refine (reads_decode word).bind ?_
    dsimp only
    rw [if_pos lt]
    exact ih
  | repetition word ge again fits within rest ih =>
    rw [readLengths_succ]
    refine (reads_decode word).bind ?_
    dsimp only
    rw [if_neg (Nat.not_lt.2 ge)]
    simp only [List.length_append, ← Nat.add_assoc]
    refine (reads_bits fits).bind ?_
    rw [again]
    dsimp only
    rw [if_neg (Nat.not_lt.2 within), length_numeral]
    exact ih

theorem exists_lengths_of_readLengths {code : Code} {remaining next : Nat} {known lengths : List Nat}
    (h : readLengths code bytes remaining pos known = .ok (lengths, next)) :
    ∃ bs, Lengths code remaining known bs lengths ∧ BitsAt bytes pos bs ∧ next = pos + bs.length := by
  induction remaining using Nat.strongRecOn generalizing pos known with
  | ind remaining ih =>
    cases remaining with
    | zero =>
      rw [readLengths] at h
      cases h
      exact ⟨[], .done, trivial, rfl⟩
    | succ n =>
      rw [readLengths_succ] at h
      obtain ⟨⟨symbol, p⟩, hdecode, h⟩ := ok_of_bind h
      obtain ⟨bs, word, hbits, rfl⟩ := exists_word_of_decode hdecode
      dsimp only at h
      split at h
      case isTrue lt =>
        obtain ⟨bs', rest, hbits', rfl⟩ := ih n (Nat.lt_succ_self n) h
        refine ⟨bs ++ bs', .length word lt rest, bitsAt_append.2 ⟨hbits, hbits'⟩, ?_⟩
        rw [List.length_append, Nat.add_assoc]
      case isFalse ge =>
        obtain ⟨more, hmore, h⟩ := ok_of_bind h
        obtain ⟨fits, hbits₁⟩ := bitsAt_of_bits hmore
        split at h
        case h_1 => cases h
        case h_2 length again =>
          split at h
          case isTrue => cases h
          case isFalse within =>
            have hpos := repetition_pos symbol
            obtain ⟨bs', rest, hbits', rfl⟩ := ih _ (by omega) h
            refine ⟨_, .repetition word (Nat.not_lt.1 ge) again fits (Nat.not_lt.1 within) rest, ?_, ?_⟩
            · simp only [bitsAt_append, length_numeral]
              exact ⟨hbits, hbits₁, hbits'⟩
            · simp only [List.length_append, length_numeral, Nat.add_assoc]

/-- **The two codes of a block are read where they are described.** -/
theorem reads_readCodes {bs : List Bool} {literals distances : Code} (h : Codes bs literals distances) :
    Reads bytes pos bs (readCodes bytes pos) (literals, distances, pos + bs.length) := by
  obtain @⟨literalCount, distanceCount, tripleCount, triples, lengths, code, _, _, bs, literal_le, distance_le, triple_lt,
    length_triples, triples_lt, code_eq, spelled, has_end, literals_eq, distances_eq⟩ := h
  rw [readCodes]
  refine ((reads_bits (by omega)).map _).bind ?_
  rw [length_numeral]
  refine ((reads_bits (by omega)).map _).bind ?_
  rw [length_numeral]
  refine ((reads_bits (by omega)).map _).bind ?_
  rw [length_numeral, if_neg (by omega), ← length_triples]
  refine (reads_readTriples triples_lt).bind ?_
  have hstart : pos + 14 + 3 * triples.length = pos + 5 + 5 + 4 + 3 * triples.length := by omega
  have hend : pos + (numeral 5 literalCount ++ (numeral 5 distanceCount ++ (numeral 4 tripleCount ++
      (triples.flatMap (numeral 3) ++ bs)))).length = pos + 5 + 5 + 4 + 3 * triples.length + bs.length := by
    simp only [List.length_append, length_numeral, length_flatMap_numeral]
    omega
  rw [code_eq, length_flatMap_numeral, hstart, hend, ← List.append_nil bs]
  refine (reads_readLengths spelled).bind ?_
  dsimp only
  rw [if_neg has_end, literals_eq, distances_eq, List.append_nil]
  exact .done ..

theorem exists_codes_of_readCodes {literals distances : Code} {next : Nat}
    (h : readCodes bytes pos = .ok (literals, distances, next)) :
    ∃ bs, Codes bs literals distances ∧ BitsAt bytes pos bs ∧ next = pos + bs.length := by
  obtain ⟨literalCount, hliteral, h⟩ := ok_of_bind h
  obtain ⟨l, hl, rfl⟩ := ok_of_map hliteral
  obtain ⟨distanceCount, hdistance, h⟩ := ok_of_bind h
  obtain ⟨d, hd, rfl⟩ := ok_of_map hdistance
  obtain ⟨tripleCount, htriple, h⟩ := ok_of_bind h
  obtain ⟨t, ht, rfl⟩ := ok_of_map htriple
  obtain ⟨-, hbits₁⟩ := bitsAt_of_bits hl
  obtain ⟨-, hbits₂⟩ := bitsAt_of_bits hd
  obtain ⟨triple_lt, hbits₃⟩ := bitsAt_of_bits ht
  split at h
  case isTrue => cases h
  case isFalse hcounts =>
    obtain ⟨triples, htriples, h⟩ := ok_of_bind h
    obtain ⟨length_triples, triples_lt, hbits₄⟩ := bitsAt_of_readTriples htriples
    split at h
    case h_2 => cases h
    case h_1 code code_eq =>
      obtain ⟨⟨lengths, p⟩, hlengths, h⟩ := ok_of_bind h
      obtain ⟨bs, spelled, hbits₅, rfl⟩ := exists_lengths_of_readLengths hlengths
      dsimp only at h
      split at h
      case isTrue => cases h
      case isFalse has_end =>
        split at h
        case h_2 => cases h
        case h_1 literals' literals_eq =>
          split at h
          case h_2 => cases h
          case h_1 distances' distances_eq =>
            cases h
            refine ⟨_, .mk (by omega) (by omega) triple_lt length_triples triples_lt code_eq spelled has_end literals_eq
              distances_eq, ?_, ?_⟩
            · have hstart : pos + 5 + 5 + 4 + 3 * triples.length = pos + 14 + 3 * (4 + t) := by omega
              simp only [bitsAt_append, length_numeral, length_flatMap_numeral, hstart]
              exact ⟨hbits₁, hbits₂, hbits₃, hbits₄, hbits₅⟩
            · simp only [List.length_append, length_numeral, length_flatMap_numeral]
              omega

/-! ## Blocks -/

theorem reads_readBody {type : Nat} {out result : ByteArray} {bs : List Bool} (h : Body pos out type bs result) :
    Reads bytes pos bs (readBody type bytes pos out) (result, pos + bs.length) := by
  cases h with
  | stored h => exact reads_readStored h
  | fixed h => exact reads_readElements h
  | described codes h =>
    rw [readBody, List.length_append, ← Nat.add_assoc]
    exact (reads_readCodes codes).bind (reads_readElements h)

theorem exists_body_of_readBody {type next : Nat} {out result : ByteArray} (hpos : pos ≤ 8 * bytes.size)
    (h : readBody type bytes pos out = .ok (result, next)) :
    ∃ bs, Body pos out type bs result ∧ BitsAt bytes pos bs ∧ next = pos + bs.length := by
  unfold readBody at h
  split at h
  case h_1 =>
    obtain ⟨bs, stored, hbits⟩ := exists_stored_of_readStored hpos h
    exact ⟨bs, .stored stored, hbits⟩
  case h_2 =>
    obtain ⟨bs, elements, hbits⟩ := exists_elements_of_readElements h
    exact ⟨bs, .fixed elements, hbits⟩
  case h_3 =>
    obtain ⟨⟨literals, distances, p⟩, hcodes, h⟩ := ok_of_bind h
    obtain ⟨bs, codes, hbits, rfl⟩ := exists_codes_of_readCodes hcodes
    obtain ⟨bs', elements, hbits', rfl⟩ := exists_elements_of_readElements h
    refine ⟨bs ++ bs', .described codes elements, bitsAt_append.2 ⟨hbits, hbits'⟩, ?_⟩
    rw [List.length_append, Nat.add_assoc]
  case h_4 => cases h

theorem readBlocks_eq (bytes : ByteArray) (pos : Nat) (out : ByteArray) : readBlocks bytes pos out = (do
    let final ← bits bytes 1 pos
    let type ← bits bytes 2 (pos + 1)
    let (out, next) ← readBody type bytes (pos + 3) out
    if final = 1 then .ok (out, next) else readBlocks bytes next out) := by
  rw [readBlocks]
  split
  case h_1 e hf => rw [hf]; rfl
  case h_2 hf ht => rw [hf, ht]; rfl
  case h_3 final type hf ht =>
    conv => rhs; rw [hf, ht]
    dsimp only [Bind.bind, Except.bind]
    split
    case h_1 e hb => rw [hb]
    case h_2 out' next hb => rw [hb]

theorem lt_of_body {type : Nat} {out result : ByteArray} {bs : List Bool} (h : Body pos out type bs result) :
    type < 2 ^ 2 := by
  cases h <;> decide

/-- **Blocks are read up to the final one.** -/
theorem reads_readBlocks {out result : ByteArray} {bs : List Bool} (h : Blocks pos out bs result) :
    Reads bytes pos bs (readBlocks bytes pos out) (result, pos + bs.length) := by
  induction h with
  | @final pos type out result bs body =>
    have hfinal : Reads bytes pos (numeral 1 1) (bits bytes 1 pos) 1 := reads_bits (by decide)
    have hend : pos + (true :: (numeral 2 type ++ bs)).length = pos + 3 + bs.length := by
      simp only [List.length_cons, List.length_append, length_numeral]
      omega
    rw [readBlocks_eq, hend, ← List.append_nil bs]
    refine hfinal.bind ((reads_bits (lt_of_body body)).bind ((reads_readBody body).bind ?_))
    dsimp only
    rw [if_pos rfl, List.append_nil]
    exact .done ..
  | @more pos type out out' result bs bs' body rest ih =>
    have hfinal : Reads bytes pos (numeral 1 0) (bits bytes 1 pos) 0 := reads_bits (by decide)
    have hend : pos + (false :: (numeral 2 type ++ (bs ++ bs'))).length = pos + 3 + bs.length + bs'.length := by
      simp only [List.length_cons, List.length_append, length_numeral]
      omega
    rw [readBlocks_eq, hend]
    refine hfinal.bind ((reads_bits (lt_of_body body)).bind ((reads_readBody body).bind ?_))
    dsimp only
    rw [if_neg (by decide)]
    exact ih

/-- The three bits of a block, and the block of which they are the first bits. -/
theorem bitsAt_block {final type next : Nat} {out out' : ByteArray} (hfinal : bits bytes 1 pos = .ok final)
    (htype : bits bytes 2 (pos + 1) = .ok type) (hbody : readBody type bytes (pos + 3) out = .ok (out', next)) :
    ∃ bs, Body (pos + 3) out type bs out' ∧ BitsAt bytes pos (decide (final = 1) :: (numeral 2 type ++ bs)) ∧
      next = pos + 3 + bs.length := by
  obtain ⟨hlt, hbits⟩ := bitsAt_of_bits hfinal
  obtain ⟨-, hbits'⟩ := bitsAt_of_bits htype
  have htwo : final < 2 := hlt
  have hbit : decide (final % 2 = 1) = decide (final = 1) := by rw [Nat.mod_eq_of_lt htwo]
  have hfirst : BitsAt bytes pos [decide (final = 1)] := by
    rw [← hbit]
    exact hbits
  have hsize := hbits'.le_size (by simp [numeral])
  rw [length_numeral] at hsize
  obtain ⟨bs, body, hbits'', rfl⟩ := exists_body_of_readBody hsize hbody
  refine ⟨bs, body, ⟨hfirst.1, bitsAt_append.2 ⟨hbits', ?_⟩⟩, rfl⟩
  rw [length_numeral]
  exact hbits''

theorem exists_blocks_of_readBlocks {out result : ByteArray} {next : Nat}
    (h : readBlocks bytes pos out = .ok (result, next)) :
    ∃ bs, Blocks pos out bs result ∧ BitsAt bytes pos bs ∧ next = pos + bs.length := by
  fun_induction readBlocks bytes pos out with
  | case1 => cases h
  | case2 => cases h
  | case3 => cases h
  | case4 pos out type htype out' p hbody hle hfinal hlt =>
    cases h
    obtain ⟨bs, body, hbits, hnext⟩ := bitsAt_block hfinal htype hbody
    refine ⟨_, .final body, hbits, ?_⟩
    simp only [List.length_cons, List.length_append, length_numeral]
    omega
  | case5 pos out final type hfinal htype out' p hbody hlt hle hmore ih =>
    obtain ⟨bs, body, hbits, rfl⟩ := bitsAt_block hfinal htype hbody
    rw [decide_eq_false hmore] at hbits
    obtain ⟨bs', rest, hbits', rfl⟩ := ih h
    refine ⟨_, .more body rest, ?_, ?_⟩
    · simp only [BitsAt, bitsAt_append, length_numeral] at hbits ⊢
      exact ⟨hbits.1, hbits.2.1, hbits.2.2, hbits'⟩
    · simp only [List.length_cons, List.length_append, length_numeral]
      omega

/-! ## Streams -/

/-- **A buffer is inflated exactly where it starts with a stream**, to the content of the stream. -/
theorem inflate_eq_ok_iff {data : ByteArray} :
    inflate bytes = .ok data ↔ ∃ bs, IsStream bs data ∧ BitsAt bytes 0 bs := by
  constructor
  · intro h
    obtain ⟨⟨result, next⟩, hblocks, rfl⟩ := ok_of_map h
    obtain ⟨bs, blocks, hbits, -⟩ := exists_blocks_of_readBlocks hblocks
    exact ⟨bs, blocks, hbits⟩
  · rintro ⟨bs, blocks, hbits⟩
    exact ((reads_readBlocks blocks).map _).whole hbits

/-- **A buffer that ends inside a stream is incomplete.** -/
theorem inflate_of_cutOff {bs : List Bool} {data : ByteArray} (h : IsStream bs data) (hcut : CutOff bytes 0 bs) :
    inflate bytes = .error .incomplete :=
  ((reads_readBlocks h).map _).cut hcut

/-- The bytes end before a stream that starts with them is complete: none of the bits from the start on is a stream. -/
def EndsEarly (bytes : ByteArray) : Prop := ∀ bs data, IsStream bs data → ¬ BitsAt bytes 0 bs

/-- **Bytes that end early are not inflated**, not even in part. -/
theorem endsEarly_iff : EndsEarly bytes ↔ ∃ failure, inflate bytes = .error failure := by
  constructor
  · intro h
    cases hinflate : inflate bytes with
    | error failure => exact ⟨failure, rfl⟩
    | ok data =>
      obtain ⟨bs, stream, hbits⟩ := inflate_eq_ok_iff.1 hinflate
      exact absurd hbits (h bs data stream)
  · rintro ⟨failure, hfail⟩ bs data stream hbits
    rw [inflate_eq_ok_iff.2 ⟨bs, stream, hbits⟩] at hfail
    cases hfail

theorem endsEarly_empty : EndsEarly .empty := by
  intro bs data stream hbits
  cases stream with
  | final => exact absurd hbits.1 (by decide)
  | more => exact absurd hbits.1 (by decide)

/-- Bits of a buffer are cut off in its first bytes if these are too few. -/
theorem cutOff_extract {n : Nat} {bs : List Bool} (h : BitsAt bytes pos bs)
    (hn : 8 * (bytes.extract 0 n).size < pos + bs.length) (hpos : pos ≤ 8 * (bytes.extract 0 n).size) :
    CutOff (bytes.extract 0 n) pos bs := by
  induction bs generalizing pos with
  | nil => exact absurd hn (Nat.not_lt.2 hpos)
  | cons b bs ih =>
    by_cases hlt : pos < 8 * (bytes.extract 0 n).size
    · have hbyte : pos / 8 < (bytes.extract 0 n).size := by omega
      have hsize : (bytes.extract 0 n).size ≤ bytes.size := by
        rw [ByteArray.size_extract]
        omega
      have hbit : bit? (bytes.extract 0 n) pos = some b := by
        rw [← h.1, bit?, bit?, getElem?_pos (bytes.extract 0 n) _ hbyte,
          getElem?_pos bytes _ (Nat.lt_of_lt_of_le hbyte hsize),
          ByteArray.getElem_extract]
        simp only [Nat.zero_add]
      rw [List.length_cons] at hn
      exact .inr ⟨hbit, ih h.2 (by omega) hlt⟩
    · exact .inl (bit?_eq_none_iff.2 (Nat.le_of_not_lt hlt))

/-- **What is left of a stream that is cut short is incomplete.** -/
theorem inflate_of_cut_short {n : Nat} {bs : List Bool} {data : ByteArray} (stream : IsStream bs data)
    (h : BitsAt bytes 0 bs) (hn : 8 * (bytes.extract 0 n).size < bs.length) :
    inflate (bytes.extract 0 n) = .error .incomplete :=
  inflate_of_cutOff stream (cutOff_extract h (by omega) (Nat.zero_le _))

end OfficePreview.Deflate
