import QueryTally.Proofs.Codec
import QueryTally.Proofs.TopList

/-! # What the counts of a list add up to

The weight of pairs is the sum of their counts. Raising a name of a tally raises its weight by
as much, so adding up pairs keeps their weight, and a top list weighs at most what its tally
does, and just as much if nothing is left out. -/

namespace QueryTally

/-- What counts add up to, however much that is. -/
def exactSum : List UInt64 → Nat
  | [] => 0
  | x :: xs => x.toNat + exactSum xs

@[simp] theorem exactSum_nil : exactSum [] = 0 := rfl

@[simp] theorem exactSum_cons (x : UInt64) (xs : List UInt64) :
    exactSum (x :: xs) = x.toNat + exactSum xs := rfl

theorem exactSum_append (xs ys : List UInt64) :
    exactSum (xs ++ ys) = exactSum xs + exactSum ys := by
  induction xs with
  | nil => exact (Nat.zero_add _).symm
  | cons x xs ih => rw [List.cons_append, exactSum_cons, exactSum_cons, ih, Nat.add_assoc]

theorem exactSum_perm {xs ys : List UInt64} (h : xs.Perm ys) : exactSum xs = exactSum ys := by
  induction h with
  | nil => rfl
  | cons x h ih => rw [exactSum_cons, exactSum_cons, ih]
  | swap x y xs => exact Nat.add_left_comm _ _ _
  | trans h k ih₁ ih₂ => exact ih₁.trans ih₂

theorem exactSum_le_of_sublist {xs ys : List UInt64} (h : xs.Sublist ys) :
    exactSum xs ≤ exactSum ys := by
  induction h with
  | slnil => exact Nat.le_refl _
  | cons y h ih =>
    rw [exactSum_cons]
    omega
  | cons_cons y h ih =>
    rw [exactSum_cons, exactSum_cons]
    omega

theorem exactSum_eq_zero_iff {xs : List UInt64} : exactSum xs = 0 ↔ ∀ x ∈ xs, x = 0 := by
  induction xs with
  | nil => exact ⟨fun _ => nofun, fun _ => rfl⟩
  | cons x xs ih =>
    rw [exactSum_cons, List.forall_mem_cons, Nat.add_eq_zero_iff, ih, ← UInt64.toNat_inj]
    rfl

theorem toNat_foldlM_addCount {xs : List UInt64} {a n : UInt64}
    (h : xs.foldlM addCount a = .ok n) : n.toNat = a.toNat + exactSum xs := by
  induction xs generalizing a with
  | nil =>
    cases h
    rfl
  | cons x xs ih =>
    rw [List.foldlM_cons] at h
    obtain ⟨b, hb, h⟩ := bind_eq_ok_iff.mp h
    rw [ih h, addCount_eq_ok_iff.mp hb, exactSum_cons, Nat.add_assoc]

/-- A sum of counts is exact. -/
theorem toNat_sumCounts {xs : List UInt64} {n : UInt64} (h : sumCounts xs = .ok n) :
    n.toNat = exactSum xs := by
  have := toNat_foldlM_addCount h
  rwa [UInt64.toNat_zero, Nat.zero_add] at this

/-- What the counts of pairs add up to. -/
def weight (ps : List CountPair) : Nat := exactSum (ps.map (·.count))

@[simp] theorem weight_nil : weight [] = 0 := rfl

@[simp] theorem weight_cons (p : CountPair) (ps : List CountPair) :
    weight (p :: ps) = p.count.toNat + weight ps := rfl

@[simp] theorem weight_append (ps qs : List CountPair) :
    weight (ps ++ qs) = weight ps + weight qs := by
  rw [weight, List.map_append, exactSum_append]
  rfl

theorem weight_perm {ps qs : List CountPair} (h : ps.Perm qs) : weight ps = weight qs :=
  exactSum_perm (h.map _)

theorem weight_le_of_sublist {ps qs : List CountPair} (h : ps.Sublist qs) :
    weight ps ≤ weight qs :=
  exactSum_le_of_sublist (h.map _)

/-- A pair that counts something that has a name. -/
def CountPair.Counted (p : CountPair) : Prop := p.name ≠ "" ∧ 0 < p.count

/-- A list that can stand in a record or report: at most so many pairs, strictly in the order
of a top list, with different names, and each of them counted. -/
structure TopList (ps : List CountPair) : Prop where
  length : ps.length ≤ topLimit
  sorted : ps.Pairwise CountPair.Before
  distinct : (ps.map (·.name)).Nodup
  counted : ∀ p ∈ ps, p.Counted

/-- A list of counted pairs weighs something, unless there is nothing in it. -/
theorem TopList.eq_nil {ps : List CountPair} (h : TopList ps) (hweight : weight ps = 0) :
    ps = [] := by
  cases ps with
  | nil => rfl
  | cons p ps =>
    have hp := UInt64.lt_iff_toNat_lt.mp (h.counted p List.mem_cons_self).2
    have hzero : (0 : UInt64).toNat = 0 := rfl
    rw [weight_cons] at hweight
    omega

namespace Tally

variable {t t' : Tally} {name : String} {n : UInt64}

theorem topList_top (h : ∀ p ∈ t.pairs, p.Counted) : TopList (t.top topLimit) :=
  ⟨t.length_top_le _, t.top_pairwise _, t.nodup_names_top _, fun p hp => h p (mem_of_mem_top hp)⟩

theorem weight_top_le (t : Tally) (limit : Nat) : weight (t.top limit) ≤ weight t.pairs :=
  Nat.le_trans (weight_le_of_sublist (t.top_sublist limit))
    (Nat.le_of_eq (weight_perm (ranked_perm t.pairs)))

theorem weight_top_of_length_le {limit : Nat} (h : t.pairs.length ≤ limit) :
    weight (t.top limit) = weight t.pairs := by
  have hlength : (ranked t.pairs).length ≤ limit := (ranked_perm t.pairs).length_eq ▸ h
  rw [top_eq_take, List.take_of_length_le hlength]
  exact weight_perm (ranked_perm t.pairs)

/-- Replacing the count of a name takes its old weight away and adds the new one. -/
theorem weight_setPair {ps : List CountPair} (h : ps.Pairwise fun p q => p.name < q.name) :
    weight (setPair name n ps) +
        (((ps.find? fun p : CountPair => p.name == name).map CountPair.count).getD 0).toNat =
      weight ps + n.toNat := by
  induction ps with
  | nil => simp [setPair]
  | cons p ps ih =>
    obtain ⟨hp, hps⟩ := List.pairwise_cons.mp h
    unfold setPair
    split
    · rename_i hlt
      have hmissing : ((p :: ps).find? fun q => q.name == name) = none := by
        refine List.find?_eq_none.mpr fun q hq hname => ?_
        rw [beq_iff_eq] at hname
        have hlt' : name < q.name := by
          rcases List.mem_cons.mp hq with rfl | hq
          · exact hlt
          · exact String.lt_trans hlt (hp q hq)
        exact String.lt_irrefl _ (hname ▸ hlt')
      rw [hmissing]
      simp only [weight_cons, Option.map_none, Option.getD_none, UInt64.toNat_zero]
      omega
    · split
      · rename_i heq
        rw [List.find?_cons_of_pos (by rwa [beq_iff_eq])]
        simp only [weight_cons, Option.map_some, Option.getD_some]
        omega
      · rename_i hne
        rw [List.find?_cons_of_neg (by rwa [beq_iff_eq])]
        simp only [weight_cons]
        have := ih hps
        omega

/-- **Raising a name.** -/
theorem weight_bump (h : t.bump name n = .ok t') :
    weight t'.pairs = weight t.pairs + n.toNat := by
  obtain ⟨total, htotal, h⟩ := bind_eq_ok_iff.mp h
  obtain rfl := pure_eq_ok_iff.mp h
  have hset : weight (t.set name total).pairs + ((t.get? name).getD 0).toNat =
      weight t.pairs + total.toNat := weight_setPair t.sorted
  have hsum := addCount_eq_ok_iff.mp htotal
  omega

theorem counted_bump (h : t.bump name n = .ok t') (hname : name ≠ "") (hn : 0 < n)
    (ht : ∀ p ∈ t.pairs, p.Counted) : ∀ p ∈ t'.pairs, p.Counted := by
  obtain ⟨total, htotal, h⟩ := bind_eq_ok_iff.mp h
  obtain rfl := pure_eq_ok_iff.mp h
  intro p hp
  rcases mem_set hp with rfl | hp
  · refine ⟨hname, ?_⟩
    have hsum := addCount_eq_ok_iff.mp htotal
    rw [UInt64.lt_iff_toNat_lt] at hn ⊢
    dsimp only
    omega
  · exact ht p hp

/-- **Adding up pairs.** -/
theorem sum_eq {ps : List CountPair} (h : Tally.sum ps = .ok t) :
    weight t.pairs = weight ps ∧ ((∀ p ∈ ps, p.Counted) → ∀ p ∈ t.pairs, p.Counted) := by
  have hgen : ∀ (ps : List CountPair) (t₀ : Tally),
      ps.foldlM (fun t p => t.bump p.name p.count) t₀ = .ok t →
      weight t.pairs = weight t₀.pairs + weight ps ∧
        ((∀ p ∈ t₀.pairs, p.Counted) → (∀ p ∈ ps, p.Counted) → ∀ p ∈ t.pairs, p.Counted) := by
    intro ps
    induction ps with
    | nil =>
      intro t₀ h
      cases h
      exact ⟨rfl, fun h _ => h⟩
    | cons p ps ih =>
      intro t₀ h
      rw [List.foldlM_cons] at h
      obtain ⟨t₁, h₁, h⟩ := bind_eq_ok_iff.mp h
      obtain ⟨hweight, hcounted⟩ := ih t₁ h
      refine ⟨?_, fun h₀ hps => ?_⟩
      · rw [hweight, weight_bump h₁, weight_cons, Nat.add_assoc]
      · obtain ⟨hp, hps⟩ := List.forall_mem_cons.mp hps
        exact hcounted (counted_bump h₁ hp.1 hp.2 h₀) hps
  obtain ⟨hweight, hcounted⟩ := hgen ps empty h
  exact ⟨by rw [hweight]; exact Nat.zero_add _, hcounted nofun⟩

theorem weight_ofPairs {ps : List CountPair} (h : (ps.map (·.name)).Nodup) :
    weight (ofPairs ps).pairs = weight ps :=
  weight_perm (ofPairs_perm h)

end Tally

/-- **Merging lists.** The merged list weighs at most what the lists weigh together. -/
theorem mergeTop_eq {lists : List (List CountPair)} {ps : List CountPair}
    (h : mergeTop lists topLimit = .ok ps) :
    weight ps ≤ weight lists.flatten ∧
      ((∀ list ∈ lists, ∀ p ∈ list, p.Counted) → TopList ps) := by
  obtain ⟨t, ht, h⟩ := bind_eq_ok_iff.mp h
  obtain rfl := pure_eq_ok_iff.mp h
  obtain ⟨hweight, hcounted⟩ := Tally.sum_eq ht
  refine ⟨hweight ▸ t.weight_top_le topLimit, fun hlists => Tally.topList_top (hcounted ?_)⟩
  intro p hp
  obtain ⟨list, hlist, hp⟩ := List.mem_flatten.mp hp
  exact hlists list hlist p hp

end QueryTally
