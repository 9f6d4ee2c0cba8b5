import QueryTally.Utf8

/-! # Texts in the order of their bytes

The bytes of a character are a first one, which grows with the number of bytes and then with the
character, and the last digits to base 64. So the characters sort as their bytes do, whatever
follows these, and the texts as well (`encode_lt_iff`). -/

namespace QueryTally.Utf8

def trailing (code : Nat) : Nat :=
  if code ≤ 0x7F then 0 else if code ≤ 0x7FF then 1 else if code ≤ 0xFFFF then 2 else 3

/-- What the first byte adds to the leading digits, by the number of bytes that follow. -/
def lengthMark : Nat → Nat
  | 0 => 0
  | 1 => 0xC0
  | 2 => 0xE0
  | _ => 0xF0

def withoutDigits : Nat → Nat → Nat
  | 0, code => code
  | k + 1, code => withoutDigits k code / 64

/-- The last digits to base 64, as the bytes that continue a character. -/
def digits : Nat → Nat → List UInt8
  | 0, _ => []
  | k + 1, code => UInt8.ofNat (withoutDigits k code % 64 + 0x80) :: digits k code

def leading (code : Nat) : Nat :=
  lengthMark (trailing code) + withoutDigits (trailing code) code

variable {s t : String} {c d : Char} {u v : Nat} {xs ys : List UInt8}

theorem code_lt (c : Char) : c.toNat < 0x110000 := by
  have hvalid : c.toNat < 0xD800 ∨ 0xDFFF < c.toNat ∧ c.toNat < 0x110000 := c.valid
  omega

theorem utf8EncodeChar_eq (c : Char) : String.utf8EncodeChar c =
    UInt8.ofNat (leading c.toNat) :: digits (trailing c.toNat) c.toNat := by
  have hlt := code_lt c
  simp only [String.utf8EncodeChar, Char.toNat_val]
  generalize c.toNat = v at hlt
  unfold leading trailing
  split
  · simp [digits, withoutDigits, lengthMark]
  · split
    · have hlead : v / 64 % 32 + 192 = 192 + v / 64 := by omega
      simp [digits, withoutDigits, lengthMark, hlead]
    · split
      · have hlead : v / 4096 % 16 + 224 = 224 + v / 4096 := by omega
        simp [digits, withoutDigits, lengthMark, Nat.div_div_eq_div_mul, hlead]
      · have hlead : v / 262144 % 8 + 240 = 240 + v / 262144 := by omega
        simp [digits, withoutDigits, lengthMark, Nat.div_div_eq_div_mul, hlead]

/-- The first bytes differ, or the characters have as many bytes and the same leading digits. -/
theorem leading_lt_or (h : u < v) : leading u < leading v ∨
    trailing u = trailing v ∧ withoutDigits (trailing u) u = withoutDigits (trailing u) v := by
  unfold leading trailing
  -- By the lengths of both: the mark of a length is above all first bytes of the shorter ones.
  repeat' split
  all_goals simp only [lengthMark, withoutDigits, true_and]; omega

theorem leading_lt (hv : v < 0x110000) : leading v < UInt8.size := by
  unfold leading trailing
  repeat' split
  all_goals simp only [lengthMark, withoutDigits, UInt8.size]; omega

theorem withoutDigits_le (k : Nat) (h : u ≤ v) : withoutDigits k u ≤ withoutDigits k v := by
  induction k with
  | zero => exact h
  | succ k ih => exact Nat.div_le_div_right ih

/-- Where the leading digits are the same, the last ones sort as the numbers do. -/
theorem digits_lt {k : Nat} (h : u < v) (hsame : withoutDigits k u = withoutDigits k v) :
    digits k u ++ xs < digits k v ++ ys := by
  induction k with
  | zero => exact absurd hsame (Nat.ne_of_lt h)
  | succ k ih =>
    rw [digits, digits, List.cons_append, List.cons_append, List.cons_lt_cons_iff]
    rcases Nat.lt_or_eq_of_le (withoutDigits_le k (Nat.le_of_lt h)) with hlt | heq
    · left
      rw [withoutDigits, withoutDigits] at hsame
      rw [UInt8.lt_iff_toNat_lt, UInt8.toNat_ofNat', UInt8.toNat_ofNat']
      omega
    · exact .inr ⟨by rw [heq], ih heq⟩

/-- **Characters** sort as their bytes do, whatever follows these. -/
theorem utf8EncodeChar_lt (h : c < d) :
    String.utf8EncodeChar c ++ xs < String.utf8EncodeChar d ++ ys := by
  have hlt : c.toNat < d.toNat := UInt32.lt_iff_toNat_lt.mp h
  rw [utf8EncodeChar_eq, utf8EncodeChar_eq, List.cons_append, List.cons_append,
    List.cons_lt_cons_iff]
  rcases leading_lt_or hlt with hlead | ⟨htrail, hsame⟩
  · exact .inl ((UInt8.ofNat_lt_iff_lt (leading_lt (code_lt c)) (leading_lt (code_lt d))).mpr
      hlead)
  · have hlead : leading c.toNat = leading d.toNat := by
      rw [leading, leading, ← htrail, hsame]
    rw [hlead, ← htrail]
    exact .inr ⟨rfl, digits_lt hlt hsame⟩

theorem encode_eq_flatMap (s : String) : encode s = s.toList.flatMap String.utf8EncodeChar := by
  have h : encode (String.ofList s.toList) = s.toList.flatMap String.utf8EncodeChar := by
    rw [encode, String.toByteArray_ofList, List.utf8Encode, List.toList_data_toByteArray]
  rwa [String.ofList_toList] at h

theorem flatMap_utf8EncodeChar_lt {cs ds : List Char} (h : cs < ds) :
    cs.flatMap String.utf8EncodeChar < ds.flatMap String.utf8EncodeChar := by
  induction cs generalizing ds with
  | nil =>
    cases ds with
    | nil => exact absurd h (List.lt_irrefl [])
    | cons d ds =>
      rw [List.flatMap_nil, List.flatMap_cons, utf8EncodeChar_eq, List.cons_append]
      exact List.nil_lt_cons _ _
  | cons c cs ih =>
    cases ds with
    | nil => cases h
    | cons d ds =>
      rw [List.flatMap_cons, List.flatMap_cons]
      rcases List.cons_lt_cons_iff.mp h with hlt | ⟨rfl, hrest⟩
      · exact utf8EncodeChar_lt hlt
      · exact List.append_left_lt (ih hrest)

theorem encode_lt (h : s < t) : encode s < encode t := by
  rw [encode_eq_flatMap, encode_eq_flatMap]
  exact flatMap_utf8EncodeChar_lt h

/-- **Texts sort as their bytes do.** -/
theorem encode_lt_iff : encode s < encode t ↔ s < t := by
  refine ⟨fun h => Decidable.byContradiction fun hnot => ?_, encode_lt⟩
  by_cases hback : t < s
  · exact List.lt_asymm h (encode_lt hback)
  · have heq : s = t := String.le_antisymm (String.not_lt.mp hback) (String.not_lt.mp hnot)
    exact List.lt_irrefl _ (heq ▸ h)

end QueryTally.Utf8
