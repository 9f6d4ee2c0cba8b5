import QueryTally.Overflow
import QueryTally.Bytes

/-! # Hours

Statistics are kept per hour, and an hour is named by its number since the epoch, a
signed 64-bit word. Sums and differences of hours are checked. In storage an hour is
its eight bytes as an unsigned word, most significant first (`key`), so the keys of
hours from the epoch on sort as the hours do, and those of earlier hours come last. -/

namespace QueryTally

/-- An hour, as a number of hours since the epoch. -/
abbrev Hour := Int64

namespace Hour

/-- Whether a whole number is an hour number. -/
def Fits (n : Int) : Prop := Int64.minValue.toInt ≤ n ∧ n ≤ Int64.maxValue.toInt

instance (n : Int) : Decidable (Fits n) := inferInstanceAs (Decidable (_ ∧ _))

def plus (a b : Hour) : Checked Hour :=
  if Fits (a.toInt + b.toInt) then .ok (a + b) else .error .add

def minus (a b : Hour) : Checked Hour :=
  if Fits (a.toInt - b.toInt) then .ok (a - b) else .error .subtract

def ofCount (n : Nat) : Hour := Int64.ofNat n

/-- A day closes with the hour whose number is a multiple of 24. -/
def closesDay (h : Hour) : Bool := h.toInt % 24 == 0

def range (first last : Hour) : List Hour :=
  (List.range (last.toInt - first.toInt).toNat).map fun i : Nat => Int64.ofInt (first.toInt + i)

/-- The eight bytes under which an hour is stored. -/
def key (h : Hour) : List UInt8 := Bytes.bigEndian 8 h.toUInt64.toNat

/-- The hour stored under a key; no hour is stored under a key of another length. -/
def ofKey? (bytes : List UInt8) : Option Hour :=
  if bytes.length = 8 then some (UInt64.ofNat (Bytes.ofBigEndian bytes)).toInt64 else none

theorem fits_iff {n : Int} : Fits n ↔ -9223372036854775808 ≤ n ∧ n ≤ 9223372036854775807 :=
  Iff.rfl

theorem fits_toInt (h : Hour) : Fits h.toInt :=
  fits_iff.mpr ⟨h.le_toInt, Int.le_of_lt_add_one h.toInt_lt⟩

theorem plus_eq_ok_iff {a b c : Hour} : a.plus b = .ok c ↔ c.toInt = a.toInt + b.toInt := by
  unfold plus
  split
  · rename_i h
    rw [fits_iff] at h
    rw [Except.ok.injEq, ← Int64.toInt_inj, Int64.toInt_add,
      Int.bmod_eq_of_le (by omega) (by omega)]
    exact eq_comm
  · rename_i h
    simp only [reduceCtorEq, false_iff]
    exact fun hc => h (hc ▸ fits_toInt c)

theorem minus_eq_ok_iff {a b c : Hour} : a.minus b = .ok c ↔ c.toInt = a.toInt - b.toInt := by
  unfold minus
  split
  · rename_i h
    rw [fits_iff] at h
    rw [Except.ok.injEq, ← Int64.toInt_inj, Int64.toInt_sub,
      Int.bmod_eq_of_le (by omega) (by omega)]
    exact eq_comm
  · rename_i h
    simp only [reduceCtorEq, false_iff]
    exact fun hc => h (hc ▸ fits_toInt c)

theorem length_range (first last : Hour) :
    (range first last).length = (last.toInt - first.toInt).toNat := by
  simp [range]

@[simp] theorem length_key (h : Hour) : h.key.length = 8 := by simp [key]

theorem ofKey?_key (h : Hour) : ofKey? h.key = some h := by
  have hlt : h.toUInt64.toNat < Bytes.capacity 8 := h.toUInt64.toNat_lt
  rw [ofKey?, if_pos h.length_key, key, Bytes.ofBigEndian_bigEndian hlt, UInt64.ofNat_toNat,
    Int64.toInt64_toUInt64]

theorem key_eq_of_ofKey? {bytes : List UInt8} {h : Hour} (hk : ofKey? bytes = some h) :
    h.key = bytes := by
  unfold ofKey? at hk
  split at hk
  · rename_i hlen
    obtain rfl := Option.some.inj hk
    have hlt : Bytes.ofBigEndian bytes < 2 ^ 64 := by
      have := Bytes.ofLittleEndian_lt bytes.reverse
      rw [List.length_reverse, hlen] at this
      exact this
    have back := Bytes.bigEndian_ofBigEndian bytes
    rw [hlen] at back
    rw [key, UInt64.toUInt64_toInt64, UInt64.toNat_ofNat', Nat.mod_eq_of_lt hlt, back]
  · cases hk

/-- An hour is stored under exactly one key. -/
theorem ofKey?_eq_some_iff {bytes : List UInt8} {h : Hour} :
    ofKey? bytes = some h ↔ bytes = h.key :=
  ⟨fun hk => (key_eq_of_ofKey? hk).symm, fun hk => hk ▸ ofKey?_key h⟩

end Hour
end QueryTally
