import OfficePreview.Text.Utf8
/-!
# Utf8 — decoding gives back what was encoded

The first character of an encoded text is read whole, whatever follows it (`firstChar_encode`): its lead byte announces as
many bytes as the character has, and each of them is in its range.  The ranges of the second byte depend on the lead, and
leave out just the sequences that are longer than need be or that would stand for no character.
-/
namespace OfficePreview.Text

theorem completeChar_follower {low high : UInt8} {x : Nat} (hlow : low.toNat ≤ x % 64 + 128)
    (hhigh : x % 64 + 128 ≤ high.toNat) (value : Nat) (ranges : List (UInt8 × UInt8)) (bytes : List UInt8) :
    completeChar value ((low, high) :: ranges) (UInt8.ofNat (x % 64 + 128) :: bytes) =
      completeChar (value * 64 + x % 64) ranges bytes := by
  have hb : (UInt8.ofNat (x % 64 + 128)).toNat = x % 64 + 128 := by
    rw [UInt8.toNat_ofNat']
    omega
  have hin : low ≤ UInt8.ofNat (x % 64 + 128) ∧ UInt8.ofNat (x % 64 + 128) ≤ high := by
    rw [UInt8.le_iff_toNat_le, UInt8.le_iff_toNat_le, hb]
    exact ⟨hlow, hhigh⟩
  rw [completeChar, if_pos hin, hb]
  congr 1
  omega

theorem followers?_one {n : Nat} (h : n < 128) : followers? (UInt8.ofNat n) = some (n, []) := by
  have hn : (UInt8.ofNat n).toNat = n := by rw [UInt8.toNat_ofNat']; omega
  simp only [followers?, UInt8.lt_iff_toNat_lt, hn, UInt8.reduceToNat]
  rw [if_pos h]

theorem followers?_two {n : Nat} (hl : 2 ≤ n) (h : n < 32) :
    followers? (UInt8.ofNat (n + 192)) = some (n, [(0x80, 0xBF)]) := by
  have hn : (UInt8.ofNat (n + 192)).toNat = n + 192 := by rw [UInt8.toNat_ofNat']; omega
  simp only [followers?, UInt8.lt_iff_toNat_lt, hn, UInt8.reduceToNat]
  rw [if_neg (by omega), if_neg (by omega), if_pos (by omega), Nat.add_sub_cancel]

theorem followers?_three {n : Nat} (h : n < 16) : followers? (UInt8.ofNat (n + 224)) =
    some (n, [(if n = 0 then 0xA0 else 0x80, if n = 13 then 0x9F else 0xBF), (0x80, 0xBF)]) := by
  have hn : (UInt8.ofNat (n + 224)).toNat = n + 224 := by rw [UInt8.toNat_ofNat']; omega
  simp only [followers?, UInt8.lt_iff_toNat_lt, ← UInt8.toNat_inj, hn, UInt8.reduceToNat]
  rw [if_neg (by omega), if_neg (by omega), if_neg (by omega), if_pos (by omega)]
  simp

theorem followers?_four {n : Nat} (h : n < 5) : followers? (UInt8.ofNat (n + 240)) =
    some (n, [(if n = 0 then 0x90 else 0x80, if n = 4 then 0x8F else 0xBF), (0x80, 0xBF), (0x80, 0xBF)]) := by
  have hn : (UInt8.ofNat (n + 240)).toNat = n + 240 := by rw [UInt8.toNat_ofNat']; omega
  simp only [followers?, UInt8.lt_iff_toNat_lt, ← UInt8.toNat_inj, hn, UInt8.reduceToNat]
  rw [if_neg (by omega), if_neg (by omega), if_neg (by omega), if_neg (by omega), if_pos (by omega)]
  simp

/-- **An encoded character is read whole.** -/
theorem firstChar_encode (c : Char) (bytes : List UInt8) :
    ∃ lead more, String.utf8EncodeChar c = lead :: more ∧ firstChar lead (more ++ bytes) = (c, bytes) := by
  have hvalid : c.val.toNat < 0xD800 ∨ 0xDFFF < c.val.toNat ∧ c.val.toNat < 0x110000 := c.valid
  have hc : Char.ofNat c.val.toNat = c := Char.ofNat_toNat c
  unfold String.utf8EncodeChar
  generalize c.val.toNat = v at hvalid hc
  subst hc
  dsimp only
  split
  case isTrue h => exact ⟨_, _, rfl, by rw [firstChar, followers?_one (by omega)]; rfl⟩
  case isFalse h1 =>
    split
    case isTrue h =>
      refine ⟨_, _, rfl, ?_⟩
      rw [firstChar, followers?_two (by omega) (by omega)]
      dsimp only [List.cons_append, List.nil_append]
      rw [completeChar_follower (by simp) (by simp; omega), completeChar]
      congr 2
      omega
    case isFalse h2 =>
      split
      case isTrue h =>
        -- After `0xE0` what fits into two bytes is left out, and after `0xED` what stands for no character.
        have hlow : (if v / 4096 % 16 = 0 then 0xA0 else 0x80 : UInt8).toNat ≤ v / 64 % 64 + 128 := by
          split <;> simp only [UInt8.reduceToNat] <;> omega
        have hhigh : v / 64 % 64 + 128 ≤ (if v / 4096 % 16 = 13 then 0x9F else 0xBF : UInt8).toNat := by
          split <;> simp only [UInt8.reduceToNat] <;> omega
        refine ⟨_, _, rfl, ?_⟩
        rw [firstChar, followers?_three (by omega)]
        dsimp only [List.cons_append, List.nil_append]
        rw [completeChar_follower hlow hhigh, completeChar_follower (by simp) (by simp; omega), completeChar]
        congr 2
        omega
      case isFalse h3 =>
        -- After `0xF0` what fits into three bytes is left out, and after `0xF4` what lies beyond the last character.
        have hlow : (if v / 262144 % 8 = 0 then 0x90 else 0x80 : UInt8).toNat ≤ v / 4096 % 64 + 128 := by
          split <;> simp only [UInt8.reduceToNat] <;> omega
        have hhigh : v / 4096 % 64 + 128 ≤ (if v / 262144 % 8 = 4 then 0x8F else 0xBF : UInt8).toNat := by
          split <;> simp only [UInt8.reduceToNat] <;> omega
        refine ⟨_, _, rfl, ?_⟩
        rw [firstChar, followers?_four (by omega)]
        dsimp only [List.cons_append, List.nil_append]
        rw [completeChar_follower hlow hhigh, completeChar_follower (by simp) (by simp; omega),
          completeChar_follower (by simp) (by simp; omega), completeChar]
        congr 2
        omega

theorem decodeOnto_encode (cs decoded : List Char) :
    decodeOnto decoded (cs.flatMap String.utf8EncodeChar) = decoded.reverse ++ cs := by
  induction cs generalizing decoded with
  | nil => rw [List.flatMap_nil, decodeOnto, List.append_nil]
  | cons c cs ih =>
    obtain ⟨lead, more, hc, hfirst⟩ := firstChar_encode c (cs.flatMap String.utf8EncodeChar)
    rw [List.flatMap_cons, hc, List.cons_append, decodeOnto, hfirst, ih, List.reverse_cons, List.append_assoc]
    rfl

/-- **Decoding gives back the text that was encoded.** -/
theorem decode_toUTF8 (s : String) : decode s.toUTF8 = s := by
  have hs : s.toUTF8.data.toList = s.toList.flatMap String.utf8EncodeChar := by
    rw [String.toUTF8_eq_toByteArray, ← String.utf8Encode_toList, List.utf8Encode, List.toList_data_toByteArray]
  rw [decode, hs, decodeOnto_encode]
  exact String.ofList_toList

end OfficePreview.Text
