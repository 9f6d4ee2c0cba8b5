import QueryTally.Overflow

/-! # Tallies and top lists

A tally counts names. It is kept as pairs in ascending order of name (by code
point), each name once, so two tallies with the same counts are equal. A top list
holds the pairs of the highest counts; equal counts are ordered by name, so no two
pairs of a tally tie. Merging lists adds up the counts of each name. -/

namespace QueryTally

structure CountPair where
  name : String
  count : UInt64
  deriving DecidableEq, Repr

/-- The order of a top list: higher counts first, equal counts by name. -/
def CountPair.Before (p q : CountPair) : Prop :=
  q.count < p.count ∨ p.count = q.count ∧ p.name < q.name

instance (p q : CountPair) : Decidable (p.Before q) :=
  inferInstanceAs (Decidable (_ ∨ _ ∧ _))

/-- A count for each of finitely many names. -/
structure Tally where
  pairs : List CountPair
  sorted : pairs.Pairwise fun p q => p.name < q.name
  deriving DecidableEq

namespace Tally

def empty : Tally := ⟨[], .nil⟩

instance : EmptyCollection Tally := ⟨empty⟩
instance : Inhabited Tally := ⟨empty⟩

def get? (t : Tally) (name : String) : Option UInt64 :=
  (t.pairs.find? (·.name == name)).map (·.count)

/-- Sorted pairs with the count of one name replaced, or the name put in its place. -/
def setPair (name : String) (n : UInt64) : List CountPair → List CountPair
  | [] => [⟨name, n⟩]
  | p :: ps =>
    if name < p.name then ⟨name, n⟩ :: p :: ps
    else if p.name = name then ⟨name, n⟩ :: ps
    else p :: setPair name n ps

theorem mem_setPair {name : String} {n : UInt64} {ps : List CountPair} {q : CountPair}
    (h : q ∈ setPair name n ps) : q = ⟨name, n⟩ ∨ q ∈ ps := by
  induction ps with
  | nil => simpa [setPair] using h
  | cons p ps ih =>
    unfold setPair at h
    split at h
    · simpa using h
    · split at h
      · rcases List.mem_cons.mp h with h | h
        · exact .inl h
        · exact .inr (List.mem_cons_of_mem _ h)
      · rcases List.mem_cons.mp h with h | h
        · exact .inr (h ▸ List.mem_cons_self)
        · exact (ih h).imp_right (List.mem_cons_of_mem _)

theorem sorted_setPair {name : String} {n : UInt64} {ps : List CountPair}
    (h : ps.Pairwise fun p q => p.name < q.name) :
    (setPair name n ps).Pairwise fun p q => p.name < q.name := by
  induction ps with
  | nil => simp [setPair]
  | cons p ps ih =>
    obtain ⟨hp, hps⟩ := List.pairwise_cons.mp h
    unfold setPair
    split
    · rename_i hlt
      refine List.pairwise_cons.mpr ⟨fun q hq => ?_, h⟩
      rcases List.mem_cons.mp hq with rfl | hq
      · exact hlt
      · exact String.lt_trans hlt (hp q hq)
    · split
      · rename_i heq
        exact List.pairwise_cons.mpr ⟨fun q hq => heq ▸ hp q hq, hps⟩
      · rename_i hnlt hne
        refine List.pairwise_cons.mpr ⟨fun q hq => ?_, ih hps⟩
        rcases mem_setPair hq with rfl | hq
        · have hle := String.not_lt.mp hnlt
          refine Decidable.byContradiction fun hn => hne ?_
          exact String.le_antisymm hle (String.not_lt.mp hn)
        · exact hp q hq

def set (t : Tally) (name : String) (n : UInt64) : Tally :=
  ⟨setPair name n t.pairs, sorted_setPair t.sorted⟩

/-- The tally with `n` added to the count of a name, which counts zero if it is new. -/
def bump (t : Tally) (name : String) (n : UInt64) : Checked Tally := do
  let total ← addCount ((t.get? name).getD 0) n
  return t.set name total

/-- The tally of pairs in which a name may occur again: its last count stands. -/
def ofPairs (ps : List CountPair) : Tally := ps.foldl (fun t p => t.set p.name p.count) empty

/-- The tally that adds up the counts of each name. -/
def sum (ps : List CountPair) : Checked Tally :=
  ps.foldlM (fun t p => t.bump p.name p.count) empty

/-- The pairs of the `limit` highest counts, in the order of a top list. -/
def top (t : Tally) (limit : Nat) : List CountPair :=
  (t.pairs.mergeSort fun p q => decide ¬ q.Before p).take limit

theorem get?_set (t : Tally) (name m : String) (n : UInt64) :
    (t.set name n).get? m = if m = name then some n else t.get? m := by
  obtain ⟨ps, h⟩ := t
  simp only [get?, set]
  induction ps with
  | nil =>
    by_cases hm : m = name
    · simp [setPair, hm]
    · simp [setPair, hm, Ne.symm hm]
  | cons p ps ih =>
    obtain ⟨hp, hps⟩ := List.pairwise_cons.mp h
    have ih := ih hps
    unfold setPair
    split
    · by_cases hm : m = name
      · simp [hm]
      · simp [hm, Ne.symm hm]
    · split
      · rename_i heq
        by_cases hm : m = name
        · simp [hm]
        · simp [hm, Ne.symm hm, heq]
      · rename_i hne
        by_cases hpm : p.name = m
        · simp [hpm, show m ≠ name from hpm ▸ hne]
        · simpa [hpm] using ih

end Tally

/-- One top list from several: the counts of each name added up over all of them. -/
def mergeTop (lists : List (List CountPair)) (limit : Nat) : Checked (List CountPair) := do
  let t ← Tally.sum lists.flatten
  return t.top limit

end QueryTally
