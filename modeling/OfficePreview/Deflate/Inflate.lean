import OfficePreview.Deflate.Element
/-!
# Inflate — blocks of a compressed stream

A stream is a sequence of blocks, the last one marked as final; what follows it is not looked at. A block holds bytes as
they stand, or elements under the fixed codes, or elements under codes of its own, whose lengths are themselves
compressed.

An archive leaves its streams to a decoder of this format, and this is that decoder. What reading an entry relies on is
that decoding stops with the final block, whatever follows and whatever size the archive declares, and that it fails in
two ways: `incomplete`, when the bytes end before the final block does, and `corrupt`. Which code lengths are `corrupt`
is the choice of that decoder where the format leaves it open; no stream that keeps to the format is read otherwise for it.
-/
namespace OfficePreview.Deflate

/-- The code of literals and lengths that needs no description. -/
def fixedLiterals : Code :=
  .ofLengths (List.replicate 144 8 ++ List.replicate 112 9 ++ List.replicate 24 7 ++ List.replicate 8 8)

/-- The code of distances that needs no description. -/
def fixedDistances : Code := .ofLengths (List.replicate 32 5)

/-- Reads a block of bytes as they stand; it starts at the next byte boundary from `pos` on, with its length and the
complement of its length. -/
def readStored (bytes : ByteArray) (pos : Nat) (out : ByteArray) : Except Failure (ByteArray × Nat) := do
  let start := (pos + 7) / 8
  let length ← bits bytes 16 (8 * start)
  let complement ← bits bytes 16 (8 * start + 16)
  if length + complement ≠ 65535 then .error .corrupt
  else if start + 4 + length ≤ bytes.size then
    .ok (out ++ bytes.extract (start + 4) (start + 4 + length), 8 * (start + 4 + length))
  else .error .incomplete

/-- The order in which the lengths of the code of code lengths are written. -/
def lengthOrder : List Nat := [16, 17, 18, 0, 8, 7, 9, 6, 10, 5, 11, 4, 12, 3, 13, 2, 14, 1, 15]

def readTriples (bytes : ByteArray) : (count pos : Nat) → Except Failure (List Nat)
  | 0, _ => .ok []
  | n + 1, pos => do
    let length ← bits bytes 3 pos
    let rest ← readTriples bytes n (pos + 3)
    .ok (length :: rest)

/-- The code of code lengths, from its lengths in the order of writing. Without any length, each bit stands for the code
length zero. -/
def lengthCode? (triples : List Nat) : Option Code :=
  if triples.all (· = 0) then some (.branch (.leaf 0) (.leaf 0))
  else Code.ofLengths? false ((List.range 19).map fun symbol => ((lengthOrder.zip triples).lookup symbol).getD 0)

/-- For a symbol that repeats a length, the fewest repetitions and the number of bits that follow. -/
def repetition (symbol : Nat) : Nat × Nat :=
  if symbol = 16 then (3, 2) else if symbol = 17 then (3, 3) else (11, 7)

theorem repetition_pos (symbol : Nat) : 0 < (repetition symbol).1 := by
  unfold repetition
  split
  · decide
  · split <;> decide

/-- Reads `remaining` code lengths; `known` holds those read so far, the last one first. A symbol repeats the length
before it, or the length zero, and may not repeat it too often. -/
def readLengths (code : Code) (bytes : ByteArray) (remaining pos : Nat) (known : List Nat) :
    Except Failure (List Nat × Nat) :=
  match remaining with
  | 0 => .ok (known.reverse, pos)
  | n + 1 =>
    match code.decode bytes pos with
    | .error e => .error e
    | .ok (symbol, pos) =>
      if symbol < 16 then readLengths code bytes n pos (symbol :: known)
      else
        match bits bytes (repetition symbol).2 pos, (if symbol = 16 then known.head? else some 0) with
        | .error e, _ => .error e
        | .ok _, none => .error .corrupt
        | .ok more, some length =>
          have := repetition_pos symbol
          let count := (repetition symbol).1 + more
          if count > n + 1 then .error .corrupt
          else
            readLengths code bytes (n + 1 - count) (pos + (repetition symbol).2) (List.replicate count length ++ known)
termination_by remaining
decreasing_by
  · exact Nat.lt_succ_self n
  · exact Nat.sub_lt (Nat.succ_pos n) (Nat.lt_of_lt_of_le this (Nat.le_add_right _ more))

theorem le_of_readLengths {code : Code} {bytes : ByteArray} {remaining pos next : Nat} {known lengths : List Nat}
    (h : readLengths code bytes remaining pos known = .ok (lengths, next)) : pos ≤ next := by
  fun_induction readLengths code bytes remaining pos known with
  | case1 => cases h; exact Nat.le_refl _
  | case2 => cases h
  | case3 _ _ _ _ _ hd _ ih => have := (Code.lt_of_decode hd).1; have := ih h; omega
  | case4 => cases h
  | case5 => cases h
  | case6 => cases h
  | case7 _ _ _ _ _ hd _ _ _ _ _ _ _ _ ih => have := (Code.lt_of_decode hd).1; have := ih h; omega

/-- Reads the two codes of a block that describes its own. The end of the block must have a word. -/
def readCodes (bytes : ByteArray) (pos : Nat) : Except Failure (Code × Code × Nat) := do
  let literalCount ← (bits bytes 5 pos).map (257 + ·)
  let distanceCount ← (bits bytes 5 (pos + 5)).map (1 + ·)
  let tripleCount ← (bits bytes 4 (pos + 10)).map (4 + ·)
  if literalCount > 286 ∨ distanceCount > 30 then .error .corrupt
  else
    let triples ← readTriples bytes tripleCount (pos + 14)
    let some code := lengthCode? triples | .error .corrupt
    let (lengths, pos) ← readLengths code bytes (literalCount + distanceCount) (pos + 14 + 3 * tripleCount) []
    if lengths[256]? = some 0 then .error .corrupt
    else
      let some literals := Code.ofLengths? true (lengths.take literalCount) | .error .corrupt
      let some distances := Code.ofLengths? true (lengths.drop literalCount) | .error .corrupt
      .ok (literals, distances, pos)

def readBody (type : Nat) (bytes : ByteArray) (pos : Nat) (out : ByteArray) : Except Failure (ByteArray × Nat) :=
  match type with
  | 0 => readStored bytes pos out
  | 1 => readElements fixedLiterals fixedDistances bytes pos out
  | 2 => do
    let (literals, distances, pos) ← readCodes bytes pos
    readElements literals distances bytes pos out
  | _ => .error .corrupt

theorem le_of_readStored {bytes : ByteArray} {pos next : Nat} {out result : ByteArray}
    (h : readStored bytes pos out = .ok (result, next)) : pos ≤ next := by
  unfold readStored at h
  simp only [bind, Except.bind] at h
  split at h
  · cases h
  · split at h
    · cases h
    · split at h
      · cases h
      · split at h
        · cases h; omega
        · cases h

theorem le_of_readCodes {bytes : ByteArray} {pos next : Nat} {literals distances : Code}
    (h : readCodes bytes pos = .ok (literals, distances, next)) : pos ≤ next := by
  unfold readCodes at h
  simp only [bind, Except.bind] at h
  repeat (split at h; · cases h)
  split at h
  · split at h
    · cases h
    · rename_i hl
      have := le_of_readLengths hl
      split at h
      · cases h
      · split at h
        · split at h
          · cases h; omega
          · cases h
        · cases h
  · cases h

theorem le_of_readBody {type : Nat} {bytes : ByteArray} {pos next : Nat} {out result : ByteArray}
    (h : readBody type bytes pos out = .ok (result, next)) : pos ≤ next := by
  unfold readBody at h
  split at h
  · exact le_of_readStored h
  · exact le_of_readElements h
  · simp only [bind, Except.bind] at h
    split at h
    · cases h
    · rename_i c hc
      exact Nat.le_trans (le_of_readCodes hc) (le_of_readElements h)
  · cases h

/-- Reads blocks up to the final one and appends what they stand for to `out`. -/
def readBlocks (bytes : ByteArray) (pos : Nat) (out : ByteArray) : Except Failure (ByteArray × Nat) :=
  match hf : bits bytes 1 pos, bits bytes 2 (pos + 1) with
  | .error e, _ => .error e
  | .ok _, .error e => .error e
  | .ok final, .ok type =>
    match hb : readBody type bytes (pos + 3) out with
    | .error e => .error e
    | .ok (out, next) =>
      have := lt_of_bits hf
      have := le_of_readBody hb
      if final = 1 then .ok (out, next) else readBlocks bytes next out
termination_by 8 * bytes.size - pos

/-- The bytes that a compressed stream stands for. -/
def inflate (bytes : ByteArray) : Except Failure ByteArray := (readBlocks bytes 0 .empty).map (·.1)

end OfficePreview.Deflate
