/-! # Checked word arithmetic

Counts and times are 64-bit words. A sum or product that does not fit is an
`Overflow`, never a wrapped value, so each operation is pinned by one statement:
it succeeds with `c` exactly when `c` is the exact result. -/

namespace QueryTally

/-- The operation whose exact result does not fit its word. -/
inductive Overflow where
  | add
  | subtract
  | multiply
  deriving DecidableEq, Repr

def Overflow.message : Overflow → String
  | .add => "attempt to add with overflow"
  | .subtract => "attempt to subtract with overflow"
  | .multiply => "attempt to multiply with overflow"

/-- A value, or the overflow that kept it from being computed. -/
abbrev Checked (α : Type) := Except Overflow α

/-- The exact sum of two counts. -/
def addCount (a b : UInt64) : Checked UInt64 :=
  if a.toNat + b.toNat < UInt64.size then .ok (a + b) else .error .add

def mulCount (a b : UInt64) : Checked UInt64 :=
  if a.toNat * b.toNat < UInt64.size then .ok (a * b) else .error .multiply

def sumCounts (xs : List UInt64) : Checked UInt64 := xs.foldlM addCount 0

theorem addCount_eq_ok_iff {a b c : UInt64} :
    addCount a b = .ok c ↔ c.toNat = a.toNat + b.toNat := by
  unfold addCount
  split
  · rename_i h
    rw [Except.ok.injEq, ← UInt64.toNat_inj, UInt64.toNat_add, Nat.mod_eq_of_lt h]
    exact eq_comm
  · rename_i h
    have := c.toNat_lt_size
    simp only [reduceCtorEq, false_iff]
    omega

theorem addCount_eq_error_iff {a b : UInt64} {o : Overflow} :
    addCount a b = .error o ↔ o = .add ∧ UInt64.size ≤ a.toNat + b.toNat := by
  unfold addCount
  split <;> simp_all [eq_comm]

theorem mulCount_eq_ok_iff {a b c : UInt64} :
    mulCount a b = .ok c ↔ c.toNat = a.toNat * b.toNat := by
  unfold mulCount
  split
  · rename_i h
    rw [Except.ok.injEq, ← UInt64.toNat_inj, UInt64.toNat_mul, Nat.mod_eq_of_lt h]
    exact eq_comm
  · rename_i h
    have := c.toNat_lt_size
    simp only [reduceCtorEq, false_iff]
    omega

end QueryTally
