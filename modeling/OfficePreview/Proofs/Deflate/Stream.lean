import Mathlib.Algebra.Group.Nat.Defs
import OfficePreview.Deflate.Inflate
/-!
# Stream — compressed streams as they are written

What a compressed stream is can be told without reading it: a stream is a list of bits that is put together from the bits
of its parts.  A number takes its bits, the least significant first (`numeral`); a symbol takes the bits on the way to its
leaf (`Code.Word`); an element takes the words of its symbols and the numbers that follow them (`Spelled`); and a block
takes its three bits and what its type asks for (`Body`).  The streams of a content are all lists of bits that are put
together in this way (`IsStream`).
-/
namespace OfficePreview.Deflate

/-! ## Numbers and words -/

/-- The `width` bits of a number, the least significant first. -/
def numeral : (width value : Nat) → List Bool
  | 0, _ => []
  | n + 1, value => decide (value % 2 = 1) :: numeral n (value / 2)

@[simp] theorem length_numeral (width value : Nat) : (numeral width value).length = width := by
  induction width generalizing value with
  | zero => rfl
  | succ n ih => rw [numeral, List.length_cons, ih]

/-- The bits of bytes, one byte after the other. -/
def octets (data : ByteArray) : List Bool := data.data.toList.flatMap fun b => numeral 8 b.toNat

/-- The bits lead from the root of the tree to a leaf with the symbol. -/
inductive Code.Word : Code → List Bool → Nat → Prop
  | leaf (symbol : Nat) : Word (.leaf symbol) [] symbol
  | zero {zero one : Code} {bs : List Bool} {symbol : Nat} (h : Word zero bs symbol) :
      Word (.branch zero one) (false :: bs) symbol
  | one {zero one : Code} {bs : List Bool} {symbol : Nat} (h : Word one bs symbol) :
      Word (.branch zero one) (true :: bs) symbol

/-- A word as it is written: a symbol takes one bit at the least. -/
structure Code.Spells (code : Code) (bs : List Bool) (symbol : Nat) : Prop where
  word : code.Word bs symbol
  ne_nil : bs ≠ []

/-! ## Elements -/

/-- The bits that follow a symbol say which of its values is meant. -/
inductive Ranged (ranges : Array (Nat × Nat)) (symbol : Nat) : List Bool → Nat → Prop
  | mk {base extra more : Nat} (range : ranges[symbol]? = some (base, extra)) (fits : more < 2 ^ extra) :
      Ranged ranges symbol (numeral extra more) (base + more)

/-- The bits of one element under two codes. -/
inductive Spelled (literals distances : Code) : List Bool → Element → Prop
  | literal {bs : List Bool} {symbol : Nat} (word : literals.Spells bs symbol) (lt : symbol < 256) :
      Spelled literals distances bs (.literal symbol.toUInt8)
  | stop {bs : List Bool} (word : literals.Spells bs 256) : Spelled literals distances bs .stop
  | copy {bs bs' cs cs' : List Bool} {symbol symbol' length distance : Nat} (word : literals.Spells bs symbol)
      (gt : 256 < symbol) (length_ranged : Ranged lengthRanges (symbol - 257) cs length)
      (word' : distances.Spells bs' symbol') (distance_ranged : Ranged distanceRanges symbol' cs' distance) :
      Spelled literals distances (bs ++ (cs ++ (bs' ++ cs'))) (.copy length distance)

/-- The bits of elements up to the end of the block.  The first content is what was written before them, the second one
what is written after them. -/
inductive Elements (literals distances : Code) : ByteArray → List Bool → ByteArray → Prop
  | stop {out : ByteArray} {bs : List Bool} (h : Spelled literals distances bs .stop) :
      Elements literals distances out bs out
  | literal {out result : ByteArray} {b : UInt8} {bs bs' : List Bool} (h : Spelled literals distances bs (.literal b))
      (rest : Elements literals distances (out.push b) bs' result) : Elements literals distances out (bs ++ bs') result
  | copy {out result : ByteArray} {length distance : Nat} {bs bs' : List Bool}
      (h : Spelled literals distances bs (.copy length distance)) (reaches : distance ≤ out.size)
      (rest : Elements literals distances (copyBack distance length out) bs' result) :
      Elements literals distances out (bs ++ bs') result

/-! ## Blocks -/

/-- The bits of a block of bytes as they stand, which starts at `pos`: any bits up to the next byte, the number of the bytes,
its complement, and the bytes. -/
inductive Stored (pos : Nat) (out : ByteArray) : List Bool → ByteArray → Prop
  | mk {padding : List Bool} {data : ByteArray} (aligns : pos + padding.length = 8 * ((pos + 7) / 8))
      (short : data.size < 65536) :
      Stored pos out (padding ++ (numeral 16 data.size ++ (numeral 16 (65535 - data.size) ++ octets data))) (out ++ data)

/-- The length that a symbol repeats after the lengths known, the last one first. -/
def repeated? (symbol : Nat) (known : List Nat) : Option Nat := if symbol = 16 then known.head? else some 0

/-- The bits of `remaining` code lengths after the lengths known, the last one first, and all lengths in their order. -/
inductive Lengths (code : Code) : (remaining : Nat) → (known : List Nat) → List Bool → List Nat → Prop
  | done {known : List Nat} : Lengths code 0 known [] known.reverse
  | length {n symbol : Nat} {known lengths : List Nat} {bs bs' : List Bool} (word : code.Spells bs symbol)
      (lt : symbol < 16) (rest : Lengths code n (symbol :: known) bs' lengths) :
      Lengths code (n + 1) known (bs ++ bs') lengths
  | repetition {n symbol more length : Nat} {known lengths : List Nat} {bs bs' : List Bool}
      (word : code.Spells bs symbol) (ge : 16 ≤ symbol) (again : repeated? symbol known = some length)
      (fits : more < 2 ^ (repetition symbol).2) (within : (repetition symbol).1 + more ≤ n + 1)
      (rest : Lengths code (n + 1 - ((repetition symbol).1 + more))
        (List.replicate ((repetition symbol).1 + more) length ++ known) bs' lengths) :
      Lengths code (n + 1) known (bs ++ (numeral (repetition symbol).2 more ++ bs')) lengths

/-- The bits that describe two codes: the numbers of their lengths, the lengths of the code of code lengths, and the code
lengths. -/
inductive Codes : List Bool → Code → Code → Prop
  | mk {literalCount distanceCount tripleCount : Nat} {triples lengths : List Nat} {code literals distances : Code}
      {bs : List Bool} (literal_le : literalCount ≤ 29) (distance_le : distanceCount ≤ 29) (triple_lt : tripleCount < 16)
      (length_triples : triples.length = 4 + tripleCount) (triples_lt : ∀ t ∈ triples, t < 8)
      (code_eq : lengthCode? triples = some code)
      (spelled : Lengths code (257 + literalCount + (1 + distanceCount)) [] bs lengths)
      (has_end : lengths[256]? ≠ some 0)
      (literals_eq : Code.ofLengths? true (lengths.take (257 + literalCount)) = some literals)
      (distances_eq : Code.ofLengths? true (lengths.drop (257 + literalCount)) = some distances) :
      Codes (numeral 5 literalCount ++ (numeral 5 distanceCount ++ (numeral 4 tripleCount ++
        (triples.flatMap (numeral 3) ++ bs)))) literals distances

/-- The bits of a block of some type after its three bits. -/
inductive Body (pos : Nat) (out : ByteArray) : (type : Nat) → List Bool → ByteArray → Prop
  | stored {bs : List Bool} {result : ByteArray} (h : Stored pos out bs result) : Body pos out 0 bs result
  | fixed {bs : List Bool} {result : ByteArray} (h : Elements fixedLiterals fixedDistances out bs result) :
      Body pos out 1 bs result
  | described {bs bs' : List Bool} {literals distances : Code} {result : ByteArray} (codes : Codes bs literals distances)
      (h : Elements literals distances out bs' result) : Body pos out 2 (bs ++ bs') result

/-- The bits of blocks up to the final one, which start at `pos`. -/
inductive Blocks : (pos : Nat) → ByteArray → List Bool → ByteArray → Prop
  | final {pos type : Nat} {out result : ByteArray} {bs : List Bool} (body : Body (pos + 3) out type bs result) :
      Blocks pos out (true :: (numeral 2 type ++ bs)) result
  | more {pos type : Nat} {out out' result : ByteArray} {bs bs' : List Bool} (body : Body (pos + 3) out type bs out')
      (rest : Blocks (pos + 3 + bs.length) out' bs' result) :
      Blocks pos out (false :: (numeral 2 type ++ (bs ++ bs'))) result

/-- **The bits are a compressed stream of the content.** -/
def IsStream (bs : List Bool) (data : ByteArray) : Prop := Blocks 0 .empty bs data

end OfficePreview.Deflate
