import OfficePreview.Deflate.Code
/-!
# Element — what a compressed block is made of

A compressed block is a sequence of elements: a byte as it stands, a stretch of bytes that repeats earlier output, and
the end of the block. Symbols above 256 name a range of lengths and are followed by the bits that say which one; a
second code gives the distance in the same way.
-/
namespace OfficePreview.Deflate

/-- One element of a compressed block. -/
inductive Element
  | literal (byte : UInt8)
  | copy (length distance : Nat)
  | stop
deriving DecidableEq, Repr

/-- For the length symbols from 257 on, the shortest length and the number of bits that follow. -/
def lengthRanges : Array (Nat × Nat) := #[
  (3, 0), (4, 0), (5, 0), (6, 0), (7, 0), (8, 0), (9, 0), (10, 0), (11, 1), (13, 1), (15, 1), (17, 1), (19, 2), (23, 2),
  (27, 2), (31, 2), (35, 3), (43, 3), (51, 3), (59, 3), (67, 4), (83, 4), (99, 4), (115, 4), (131, 5), (163, 5), (195, 5),
  (227, 5), (258, 0)]

/-- For the distance symbols, the shortest distance and the number of bits that follow. -/
def distanceRanges : Array (Nat × Nat) := #[
  (1, 0), (2, 0), (3, 0), (4, 0), (5, 1), (7, 1), (9, 2), (13, 2), (17, 3), (25, 3), (33, 4), (49, 4), (65, 5), (97, 5),
  (129, 6), (193, 6), (257, 7), (385, 7), (513, 8), (769, 8), (1025, 9), (1537, 9), (2049, 10), (3073, 10), (4097, 11),
  (6145, 11), (8193, 12), (12289, 12), (16385, 13), (24577, 13)]

/-- Reads the rest of a value whose symbol has been read; a symbol without a range is not allowed. -/
def readRange (ranges : Array (Nat × Nat)) (bytes : ByteArray) (symbol pos : Nat) : Except Failure (Nat × Nat) :=
  match ranges[symbol]? with
  | none => .error .corrupt
  | some (base, extra) => (bits bytes extra pos).map fun more => (base + more, pos + extra)

/-- Reads one element at `pos`, and gives the position after it. -/
def readElement (literals distances : Code) (bytes : ByteArray) (pos : Nat) : Except Failure (Element × Nat) :=
  match literals.decode bytes pos with
  | .error e => .error e
  | .ok (symbol, pos) =>
    if symbol < 256 then .ok (.literal symbol.toUInt8, pos)
    else if symbol = 256 then .ok (.stop, pos)
    else do
      let (length, pos) ← readRange lengthRanges bytes (symbol - 257) pos
      let (symbol, pos) ← distances.decode bytes pos
      let (distance, pos) ← readRange distanceRanges bytes symbol pos
      .ok (.copy length distance, pos)

theorem le_of_readRange {ranges : Array (Nat × Nat)} {bytes : ByteArray} {symbol pos value next : Nat}
    (h : readRange ranges bytes symbol pos = .ok (value, next)) : pos ≤ next := by
  unfold readRange at h
  split at h
  · cases h
  · rename_i base extra _
    cases hb : bits bytes extra pos with
    | error e => simp [hb, Except.map] at h
    | ok more =>
      simp only [hb, Except.map, Except.ok.injEq, Prod.mk.injEq] at h
      omega

theorem lt_of_readElement {literals distances : Code} {bytes : ByteArray} {pos next : Nat} {e : Element}
    (h : readElement literals distances bytes pos = .ok (e, next)) : pos < next ∧ pos < 8 * bytes.size := by
  unfold readElement at h
  split at h
  · cases h
  · rename_i symbol p hd
    have hp := Code.lt_of_decode hd
    split at h
    · cases h; exact hp
    · split at h
      · cases h; exact hp
      · cases hl : readRange lengthRanges bytes (symbol - 257) p with
        | error e => simp [hl, bind, Except.bind] at h
        | ok l =>
          simp only [hl, bind, Except.bind] at h
          have h1 := le_of_readRange hl
          cases hs : distances.decode bytes l.2 with
          | error e => simp [hs] at h
          | ok s =>
            simp only [hs] at h
            have h2 := Code.lt_of_decode hs
            cases hr : readRange distanceRanges bytes s.1 s.2 with
            | error e => simp [hr] at h
            | ok r =>
              simp only [hr, Except.ok.injEq, Prod.mk.injEq] at h
              have h3 := le_of_readRange hr
              omega

/-- Output followed by a repetition of what was written `distance` bytes ago, `length` bytes long. The repetition may
reach into itself. -/
def copyBack (distance : Nat) : (length : Nat) → ByteArray → ByteArray
  | 0, out => out
  | n + 1, out => copyBack distance n (out.push (out[out.size - distance]?.getD 0))

/-- Reads elements up to the end of the block and appends what they stand for to `out`. -/
def readElements (literals distances : Code) (bytes : ByteArray) (pos : Nat) (out : ByteArray) :
    Except Failure (ByteArray × Nat) :=
  match h : readElement literals distances bytes pos with
  | .error e => .error e
  | .ok (e, next) =>
    have := lt_of_readElement h
    match e with
    | .stop => .ok (out, next)
    | .literal b => readElements literals distances bytes next (out.push b)
    | .copy length distance =>
      if distance > out.size then .error .corrupt
      else readElements literals distances bytes next (copyBack distance length out)
termination_by 8 * bytes.size - pos

theorem le_of_readElements {literals distances : Code} {bytes : ByteArray} {pos next : Nat} {out result : ByteArray}
    (h : readElements literals distances bytes pos out = .ok (result, next)) : pos ≤ next := by
  fun_induction readElements literals distances bytes pos out with
  | case1 => cases h
  | case2 => cases h; omega
  | case3 => rename_i ih; have := ih h; omega
  | case4 => cases h
  | case5 => rename_i ih; have := ih h; omega

end OfficePreview.Deflate
