import QueryTally.HourRecord

/-! # Top lists

The order of a top list is a strict total order on pairs, so the sorted pairs of a tally
are determined by the pairs alone. A top list is strictly sorted and names no name twice;
the tally that is made of one has it for its own top list. -/

namespace QueryTally

namespace CountPair

theorem Before.irrefl (p : CountPair) : ¬ p.Before p := by
  rintro (h | ⟨-, h⟩)
  · exact UInt64.lt_irrefl _ h
  · exact String.lt_irrefl _ h

theorem Before.trans {p q r : CountPair} (h : p.Before q) (k : q.Before r) : p.Before r := by
  rcases h with h | ⟨hc, hn⟩ <;> rcases k with k | ⟨kc, kn⟩
  · exact .inl (UInt64.lt_trans k h)
  · exact .inl (kc ▸ h)
  · exact .inl (hc ▸ k)
  · exact .inr ⟨hc.trans kc, String.lt_trans hn kn⟩

theorem Before.asymm {p q : CountPair} (h : p.Before q) : ¬ q.Before p :=
  fun k => Before.irrefl p (h.trans k)

theorem before_or_eq_or_before (p q : CountPair) : p.Before q ∨ p = q ∨ q.Before p := by
  by_cases h : q.count < p.count
  · exact .inl (.inl h)
  by_cases k : p.count < q.count
  · exact .inr (.inr (.inl k))
  have hc : p.count = q.count :=
    UInt64.le_antisymm (UInt64.not_lt.mp h) (UInt64.not_lt.mp k)
  by_cases h : p.name < q.name
  · exact .inl (.inr ⟨hc, h⟩)
  by_cases k : q.name < p.name
  · exact .inr (.inr (.inr ⟨hc.symm, k⟩))
  have hn : p.name = q.name := String.le_antisymm (String.not_lt.mp k) (String.not_lt.mp h)
  refine .inr (.inl ?_)
  cases p
  cases q
  simp_all

theorem eq_of_not_before {p q : CountPair} (h : ¬ q.Before p) (k : ¬ p.Before q) : p = q := by
  rcases before_or_eq_or_before p q with h' | h' | h'
  · exact absurd h' k
  · exact h'
  · exact absurd h' h

end CountPair

open CountPair

namespace Tally

/-- Pairs in the order of a top list. -/
def ranked (ps : List CountPair) : List CountPair :=
  ps.mergeSort fun p q => decide ¬ q.Before p

theorem top_eq_take (t : Tally) (limit : Nat) : t.top limit = (ranked t.pairs).take limit := rfl

theorem ranked_perm (ps : List CountPair) : (ranked ps).Perm ps := List.mergeSort_perm _ _

theorem ranked_pairwise (ps : List CountPair) :
    (ranked ps).Pairwise fun p q => ¬ q.Before p := by
  have htrans : ∀ p q r : CountPair, decide (¬ q.Before p) = true →
      decide (¬ r.Before q) = true → decide (¬ r.Before p) = true := by
    intro p q r hpq hqr
    rw [decide_eq_true_eq] at hpq hqr ⊢
    intro hrp
    rcases before_or_eq_or_before q r with h | h | h
    · exact hpq (h.trans hrp)
    · exact hpq (h ▸ hrp)
    · exact hqr h
  have htotal : ∀ p q : CountPair, (decide (¬ q.Before p) || decide (¬ p.Before q)) = true := by
    intro p q
    by_cases h : q.Before p
    · simp [h.asymm]
    · simp [h]
  exact (List.pairwise_mergeSort htrans htotal ps).imp fun h => by simpa using h

/-- Pairs that are the same up to order are ranked alike. -/
theorem ranked_eq_of_perm {ps qs : List CountPair} (h : ps.Perm qs) : ranked ps = ranked qs :=
  List.Perm.eq_of_pairwise (fun _ _ _ _ => eq_of_not_before) (ranked_pairwise ps)
    (ranked_pairwise qs) ((ranked_perm ps).trans (h.trans (ranked_perm qs).symm))

theorem ranked_of_pairwise {ps : List CountPair} (h : ps.Pairwise Before) : ranked ps = ps :=
  List.mergeSort_of_pairwise (h.imp fun h => by simpa using h.asymm)

theorem nodup_names (t : Tally) : (t.pairs.map (·.name)).Nodup := by
  refine List.pairwise_map.mpr (t.sorted.imp ?_)
  intro p q h e
  rw [e] at h
  exact String.lt_irrefl _ h

theorem nodup_names_ranked (t : Tally) : ((ranked t.pairs).map (·.name)).Nodup :=
  ((ranked_perm t.pairs).map _).nodup_iff.mpr t.nodup_names

theorem top_sublist (t : Tally) (limit : Nat) : (t.top limit).Sublist (ranked t.pairs) :=
  List.take_sublist _ _

theorem nodup_names_top (t : Tally) (limit : Nat) : ((t.top limit).map (·.name)).Nodup :=
  t.nodup_names_ranked.sublist ((t.top_sublist limit).map _)

theorem mem_of_mem_top {t : Tally} {limit : Nat} {p : CountPair} (h : p ∈ t.top limit) :
    p ∈ t.pairs :=
  (ranked_perm t.pairs).mem_iff.mp ((t.top_sublist limit).subset h)

theorem length_top_le (t : Tally) (limit : Nat) : (t.top limit).length ≤ limit :=
  List.length_take_le _ _

/-- A top list is strictly sorted. -/
theorem top_pairwise (t : Tally) (limit : Nat) : (t.top limit).Pairwise Before := by
  have hne : (ranked t.pairs).Pairwise fun p q => p.name ≠ q.name :=
    List.pairwise_map.mp t.nodup_names_ranked
  have hlt : (ranked t.pairs).Pairwise Before :=
    (ranked_pairwise t.pairs).imp₂ (fun p q h hn => by
      rcases before_or_eq_or_before p q with h' | h' | h'
      · exact h'
      · exact absurd (congrArg (·.name) h') hn
      · exact absurd h' h) hne
  exact hlt.sublist (t.top_sublist limit)

theorem setPair_perm {name : String} {n : UInt64} {ps : List CountPair}
    (h : ∀ p ∈ ps, p.name ≠ name) : (setPair name n ps).Perm (⟨name, n⟩ :: ps) := by
  induction ps with
  | nil => exact List.Perm.refl _
  | cons p ps ih =>
    obtain ⟨hp, hps⟩ := List.forall_mem_cons.mp h
    unfold setPair
    split
    · exact List.Perm.refl _
    · exact ((ih hps).cons p).trans (List.Perm.swap _ _ _)

/-- Setting names that are new and differ adds their pairs. -/
theorem foldl_set_perm (ps : List CountPair) (t : Tally) (hps : (ps.map (·.name)).Nodup)
    (hnew : ∀ p ∈ ps, ∀ q ∈ t.pairs, q.name ≠ p.name) :
    (ps.foldl (fun t p => t.set p.name p.count) t).pairs.Perm (ps ++ t.pairs) := by
  induction ps generalizing t with
  | nil => exact List.Perm.refl _
  | cons p ps ih =>
    obtain ⟨hp, hps⟩ := List.nodup_cons.mp (List.map_cons ▸ hps)
    obtain ⟨hnewp, hnew⟩ := List.forall_mem_cons.mp hnew
    have hset : (t.set p.name p.count).pairs.Perm (p :: t.pairs) := setPair_perm hnewp
    refine (ih (t.set p.name p.count) hps ?_).trans ?_
    · intro q hq r hr
      rcases List.mem_cons.mp (hset.mem_iff.mp hr) with rfl | hr
      · exact fun e => hp (List.mem_map.mpr ⟨q, hq, e.symm⟩)
      · exact hnew q hq r hr
    · exact (hset.append_left ps).trans List.perm_middle

/-- The tally of pairs with different names has just those pairs. -/
theorem ofPairs_perm {ps : List CountPair} (h : (ps.map (·.name)).Nodup) :
    (ofPairs ps).pairs.Perm ps := by
  have := foldl_set_perm ps empty h (fun _ _ _ hq => by cases hq)
  rwa [show (empty : Tally).pairs = [] from rfl, List.append_nil] at this

/-- A tally of pairs that are in order is cut where they are. -/
theorem top_ofPairs {ps : List CountPair} (h : (ps.map (·.name)).Nodup)
    (hsorted : ps.Pairwise Before) (limit : Nat) : (ofPairs ps).top limit = ps.take limit := by
  rw [top_eq_take, ranked_eq_of_perm (ofPairs_perm h), ranked_of_pairwise hsorted]

/-- **Reducing a tally twice.** The tally of a top list has it for its own top list. -/
theorem top_ofPairs_top (t : Tally) (limit : Nat) :
    (ofPairs (t.top limit)).top limit = t.top limit := by
  rw [top_ofPairs (t.nodup_names_top limit) (t.top_pairwise limit),
    List.take_of_length_le (t.length_top_le limit)]

theorem mem_set {t : Tally} {name : String} {n : UInt64} {p : CountPair}
    (h : p ∈ (t.set name n).pairs) : p = ⟨name, n⟩ ∨ p ∈ t.pairs := mem_setPair h

theorem mem_ofPairs {ps : List CountPair} {p : CountPair} (h : p ∈ (ofPairs ps).pairs) :
    p ∈ ps := by
  have hgen : ∀ (ps : List CountPair) (t : Tally),
      p ∈ (ps.foldl (fun t p => t.set p.name p.count) t).pairs → p ∈ ps ∨ p ∈ t.pairs := by
    intro ps
    induction ps with
    | nil => exact fun t h => .inr h
    | cons q ps ih =>
      intro t h
      rcases ih _ h with h | h
      · exact .inl (List.mem_cons_of_mem _ h)
      · rcases mem_set h with rfl | h
        · exact .inl List.mem_cons_self
        · exact .inr h
  rcases hgen ps empty h with h | h
  · exact h
  · cases h

end Tally
end QueryTally
