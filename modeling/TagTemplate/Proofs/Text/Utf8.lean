import TagTemplate.Text.Utf8

/-! Writing characters as UTF-8. What is written reads back as the same characters, so that only the
ends of lines can differ between a text and the file that holds it. -/
namespace TagTemplate.Text.Utf8

def encode (text : String) : List UInt8 :=
  text.toList.flatMap String.utf8EncodeChar

def plain (text : String) : String :=
  String.ofList (plainLines text.toList)

theorem encode_eq_toByteArray (text : String) : (encode text).toByteArray = text.toByteArray :=
  String.utf8Encode_toList

variable {octet : UInt8} {octets : List UInt8} {value : Nat} {fuel place : Nat}

theorem continuation?_eq (octet : UInt8) :
    continuation? octet =
      if octet.toNat < 0xC2 then none
      else if octet.toNat < 0xE0 then some (0x80, 0xBF, 1)
      else if octet.toNat = 0xE0 then some (0xA0, 0xBF, 2)
      else if octet.toNat = 0xED then some (0x80, 0x9F, 2)
      else if octet.toNat < 0xF0 then some (0x80, 0xBF, 2)
      else if octet.toNat = 0xF0 then some (0x90, 0xBF, 3)
      else if octet.toNat < 0xF4 then some (0x80, 0xBF, 3)
      else if octet.toNat = 0xF4 then some (0x80, 0x8F, 3)
      else none := by
  simp only [continuation?, UInt8.lt_iff_toNat_lt, ← UInt8.toNat_inj]
  rfl

theorem toNat_ofNat_of_lt {n : Nat} (h : n < 256) : (UInt8.ofNat n).toNat = n := by
  rw [UInt8.toNat_ofNat', Nat.mod_eq_of_lt h]

theorem continued_cons {low high : UInt8} {bits : Nat} (hbits : bits < 64)
    (hlow : low.toNat ≤ bits + 128) (hhigh : bits + 128 ≤ high.toNat) (taken value n : Nat)
    (octets : List UInt8) :
    continued low high taken value (n + 1) (UInt8.ofNat (bits + 128) :: octets) =
      continued 0x80 0xBF (taken + 1) (value * 64 + bits) n octets := by
  have hoctet : (UInt8.ofNat (bits + 128)).toNat = bits + 128 := toNat_ofNat_of_lt (by omega)
  have hwithin : (low ≤ UInt8.ofNat (bits + 128) && UInt8.ofNat (bits + 128) ≤ high) = true := by
    simp only [Bool.and_eq_true, decide_eq_true_eq, UInt8.le_iff_toNat_le, hoctet]
    exact ⟨hlow, hhigh⟩
  rw [continued, if_pos hwithin, hoctet, Nat.add_sub_cancel]

theorem continued_tail {bits : Nat} (hbits : bits < 64) (taken value n : Nat)
    (octets : List UInt8) :
    continued 0x80 0xBF taken value (n + 1) (UInt8.ofNat (bits + 128) :: octets) =
      continued 0x80 0xBF (taken + 1) (value * 64 + bits) n octets := by
  have hlow : (0x80 : UInt8).toNat ≤ bits + 128 := Nat.le_add_left 128 bits
  have hhigh : bits + 128 ≤ (0xBF : UInt8).toNat :=
    Nat.add_le_add_right (Nat.le_pred_of_lt hbits) 128
  exact continued_cons hbits hlow hhigh taken value n octets

theorem decodeFrom_one {n : Nat} (h : n < 128) (fuel place : Nat) (octets : List UInt8) :
    decodeFrom (fuel + 1) place (UInt8.ofNat n :: octets) =
      (decodeFrom fuel (place + 1) octets).map (Char.ofNat n :: ·) := by
  have hoctet : (UInt8.ofNat n).toNat = n := toNat_ofNat_of_lt (by omega)
  have hsmall : UInt8.ofNat n < 0x80 := by
    rw [UInt8.lt_iff_toNat_lt, hoctet]
    exact h
  rw [decodeFrom, if_pos hsmall, hoctet]

theorem decodeFrom_continued {low high : UInt8} {first bits more value : Nat}
    {octets rest : List UInt8} (hfirst : 128 ≤ first) (hfirst' : first < 256)
    (hbounds : continuation? (UInt8.ofNat first) = some (low, high, more))
    (hbits : first % twoPow (6 - more) = bits)
    (hcontinued : continued low high 1 bits more octets = .ok (value, rest)) (fuel place : Nat) :
    decodeFrom (fuel + 1) place (UInt8.ofNat first :: octets) =
      (decodeFrom fuel (place + 1 + more) rest).map (Char.ofNat value :: ·) := by
  have hoctet : (UInt8.ofNat first).toNat = first := toNat_ofNat_of_lt hfirst'
  have hlarge : ¬UInt8.ofNat first < 0x80 := by
    rw [UInt8.lt_iff_toNat_lt, hoctet]
    exact Nat.not_lt.mpr hfirst
  simp only [decodeFrom, if_neg hlarge, hbounds, hoctet, hbits, hcontinued]

theorem decodeFrom_two {a b : Nat} (ha : 2 ≤ a) (ha' : a < 32) (hb : b < 64)
    (fuel place : Nat) (octets : List UInt8) :
    decodeFrom (fuel + 1) place (UInt8.ofNat (a + 192) :: UInt8.ofNat (b + 128) :: octets) =
      (decodeFrom fuel (place + 2) octets).map (Char.ofNat (a * 64 + b) :: ·) := by
  have hbounds : continuation? (UInt8.ofNat (a + 192)) = some (0x80, 0xBF, 1) := by
    rw [continuation?_eq, toNat_ofNat_of_lt (by omega), if_neg (by omega), if_pos (by omega)]
  have hbits : (a + 192) % 32 = a := by omega
  have hcontinued := continued_tail hb 1 a 0 octets
  rw [continued] at hcontinued
  exact decodeFrom_continued (by omega) (by omega) hbounds hbits hcontinued fuel place

/-- Three octets. What two could hold is not written so, and no surrogate is written. -/
theorem decodeFrom_three {a b c : Nat} (ha : a < 16) (hb : b < 64) (hc : c < 64)
    (hleast : a = 0 → 32 ≤ b) (hsurrogate : a = 13 → b < 32) (fuel place : Nat)
    (octets : List UInt8) :
    decodeFrom (fuel + 1) place
        (UInt8.ofNat (a + 224) :: UInt8.ofNat (b + 128) :: UInt8.ofNat (c + 128) :: octets) =
      (decodeFrom fuel (place + 3) octets).map (Char.ofNat ((a * 64 + b) * 64 + c) :: ·) := by
  obtain ⟨low, high, hbounds, hlow, hhigh⟩ : ∃ low high : UInt8,
      continuation? (UInt8.ofNat (a + 224)) = some (low, high, 2) ∧ low.toNat ≤ b + 128 ∧
        b + 128 ≤ high.toNat := by
    rw [continuation?_eq, toNat_ofNat_of_lt (by omega), if_neg (by omega), if_neg (by omega)]
    by_cases hzero : a = 0
    · refine ⟨0xA0, 0xBF, if_pos (by omega), ?_, ?_⟩
      · exact Nat.add_le_add_right (hleast hzero) 128
      · exact Nat.add_le_add_right (Nat.le_pred_of_lt hb) 128
    rw [if_neg (by omega)]
    by_cases hthirteen : a = 13
    · refine ⟨0x80, 0x9F, if_pos (by omega), Nat.le_add_left 128 b, ?_⟩
      exact Nat.add_le_add_right (Nat.le_pred_of_lt (hsurrogate hthirteen)) 128
    rw [if_neg (by omega), if_pos (by omega)]
    exact ⟨0x80, 0xBF, rfl, Nat.le_add_left 128 b,
      Nat.add_le_add_right (Nat.le_pred_of_lt hb) 128⟩
  have hbits : (a + 224) % 16 = a := by omega
  have hcontinued := continued_cons hb hlow hhigh 1 a 1 (UInt8.ofNat (c + 128) :: octets)
  rw [continued_tail hc, continued] at hcontinued
  exact decodeFrom_continued (by omega) (by omega) hbounds hbits hcontinued fuel place

/-- Four octets. What three could hold is not written so, nor what is beyond all characters. -/
theorem decodeFrom_four {a b c d : Nat} (ha : a < 5) (hb : b < 64) (hc : c < 64) (hd : d < 64)
    (hleast : a = 0 → 16 ≤ b) (hgreatest : a = 4 → b < 16) (fuel place : Nat)
    (octets : List UInt8) :
    decodeFrom (fuel + 1) place
        (UInt8.ofNat (a + 240) :: UInt8.ofNat (b + 128) :: UInt8.ofNat (c + 128) ::
          UInt8.ofNat (d + 128) :: octets) =
      (decodeFrom fuel (place + 4) octets).map
        (Char.ofNat (((a * 64 + b) * 64 + c) * 64 + d) :: ·) := by
  obtain ⟨low, high, hbounds, hlow, hhigh⟩ : ∃ low high : UInt8,
      continuation? (UInt8.ofNat (a + 240)) = some (low, high, 3) ∧ low.toNat ≤ b + 128 ∧
        b + 128 ≤ high.toNat := by
    rw [continuation?_eq, toNat_ofNat_of_lt (by omega), if_neg (by omega), if_neg (by omega),
      if_neg (by omega), if_neg (by omega), if_neg (by omega)]
    by_cases hzero : a = 0
    · refine ⟨0x90, 0xBF, if_pos (by omega), ?_, ?_⟩
      · exact Nat.add_le_add_right (hleast hzero) 128
      · exact Nat.add_le_add_right (Nat.le_pred_of_lt hb) 128
    rw [if_neg (by omega)]
    by_cases hfour : a = 4
    · rw [if_neg (by omega)]
      refine ⟨0x80, 0x8F, if_pos (by omega), Nat.le_add_left 128 b, ?_⟩
      exact Nat.add_le_add_right (Nat.le_pred_of_lt (hgreatest hfour)) 128
    rw [if_pos (by omega)]
    exact ⟨0x80, 0xBF, rfl, Nat.le_add_left 128 b,
      Nat.add_le_add_right (Nat.le_pred_of_lt hb) 128⟩
  have hbits : (a + 240) % 8 = a := by omega
  have hcontinued := continued_cons hb hlow hhigh 1 a 2
    (UInt8.ofNat (c + 128) :: UInt8.ofNat (d + 128) :: octets)
  rw [continued_tail hc, continued_tail hd, continued] at hcontinued
  exact decodeFrom_continued (by omega) (by omega) hbounds hbits hcontinued fuel place

theorem decodeFrom_encodeChar (c : Char) (fuel place : Nat) (octets : List UInt8) :
    ∃ next, decodeFrom (fuel + 1) place (String.utf8EncodeChar c ++ octets) =
      (decodeFrom fuel next octets).map (c :: ·) := by
  have hvalid : c.val.toNat < 0xD800 ∨ 0xDFFF < c.val.toNat ∧ c.val.toNat < 0x110000 := c.valid
  have hchar : Char.ofNat c.val.toNat = c := Char.ofNat_toNat c
  generalize hv : c.val.toNat = v at hvalid hchar
  simp only [String.utf8EncodeChar, hv]
  split
  · refine ⟨place + 1, ?_⟩
    rw [← hchar]
    exact decodeFrom_one (by omega) fuel place octets
  split
  · have hvalue : v / 64 % 32 * 64 + v % 64 = v := by omega
    have hread := decodeFrom_two (a := v / 64 % 32) (b := v % 64) (by omega) (by omega) (by omega)
      fuel place octets
    rw [hvalue, hchar] at hread
    exact ⟨place + 2, hread⟩
  split
  · have hvalue : (v / 4096 % 16 * 64 + v / 64 % 64) * 64 + v % 64 = v := by omega
    have hread := decodeFrom_three (a := v / 4096 % 16) (b := v / 64 % 64) (c := v % 64) (by omega)
      (by omega) (by omega) (by omega) (by omega) fuel place octets
    rw [hvalue, hchar] at hread
    exact ⟨place + 3, hread⟩
  · have hvalue : ((v / 262144 % 8 * 64 + v / 4096 % 64) * 64 + v / 64 % 64) * 64 + v % 64 = v := by
      omega
    have hread := decodeFrom_four (a := v / 262144 % 8) (b := v / 4096 % 64) (c := v / 64 % 64)
      (d := v % 64) (by omega) (by omega) (by omega) (by omega) (by omega) (by omega) fuel place
      octets
    rw [hvalue, hchar] at hread
    exact ⟨place + 4, hread⟩

theorem decodeFrom_encode (cs : List Char) {fuel : Nat} (place : Nat)
    (hfuel : (cs.flatMap String.utf8EncodeChar).length ≤ fuel) :
    decodeFrom fuel place (cs.flatMap String.utf8EncodeChar) = .ok cs := by
  induction cs generalizing fuel place with
  | nil => cases fuel <;> rfl
  | cons c rest ih =>
    rw [List.flatMap_cons, List.length_append] at hfuel
    have hlength : 0 < (String.utf8EncodeChar c).length :=
      List.length_pos_iff.mpr String.utf8EncodeChar_ne_nil
    obtain ⟨more, rfl⟩ : ∃ more, fuel = more + 1 := ⟨fuel - 1, by omega⟩
    obtain ⟨next, hread⟩ := decodeFrom_encodeChar c more place (rest.flatMap String.utf8EncodeChar)
    rw [List.flatMap_cons, hread, ih next (by omega)]
    rfl

/-- A file that holds a text is read as that text, with the ends of its lines made plain. -/
theorem text_encode (text : String) : Utf8.text (encode text) = .ok (plain text) := by
  have hdecode : decode (encode text) = .ok text.toList :=
    decodeFrom_encode text.toList 0 (Nat.le_refl _)
  rw [Utf8.text, hdecode]
  rfl

theorem plainLines_of_not_mem {cs : List Char} (h : '\r' ∉ cs) : plainLines cs = cs := by
  induction cs with
  | nil => rfl
  | cons c rest ih =>
    rw [List.mem_cons, not_or] at h
    obtain ⟨hc, hrest⟩ := h
    rw [plainLines, if_neg (Ne.symm hc), ih hrest]
    exact fun _ hreturn _ => hc hreturn.symm

theorem not_mem_plainLines (cs : List Char) : '\r' ∉ plainLines cs := by
  fun_induction plainLines cs with
  | case1 => exact List.not_mem_nil
  | case2 rest ih =>
    rw [List.mem_cons, not_or]
    exact ⟨by decide, ih⟩
  | case3 c rest _ ih =>
    rw [List.mem_cons, not_or]
    refine ⟨?_, ih⟩
    split
    · decide
    · next hc => exact Ne.symm hc

theorem plain_eq_self_iff {text : String} : plain text = text ↔ '\r' ∉ text.toList := by
  constructor
  · intro h
    rw [← h, plain, String.toList_ofList]
    exact not_mem_plainLines _
  · intro h
    rw [plain, plainLines_of_not_mem h, String.ofList_toList]

end TagTemplate.Text.Utf8
