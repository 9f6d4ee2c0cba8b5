import Mathlib.Data.List.Dedup
import QueryTally.Proofs.Fitting
import QueryTally.Proofs.Tally

/-! # Merging lists

A merge adds up what its lists count of each name, and keeps the beginning of the ranking of the
names. Pairs have only one such ranking (`Sums.eq_of_pairwise`), so that a merge depends on the
multiset of its pairs alone: neither on how they are spread over lists, nor on the order in which
the names are gone through before they are ranked. -/

namespace QueryTally

variable {ps qs : List CountPair} {t : Tally} {name : String}

/-- The names that occur in some pairs, each once. -/
def distinctNames (ps : List CountPair) : List String := (ps.map (·.name)).dedup

/-- Pairs that have the same names and count the same of each. -/
structure Alike (ps qs : List CountPair) : Prop where
  names : ∀ name, name ∈ ps.map (·.name) ↔ name ∈ qs.map (·.name)
  counts : ∀ name, countIn ps name = countIn qs name

namespace Alike

theorem refl (ps : List CountPair) : Alike ps ps := ⟨fun _ => Iff.rfl, fun _ => rfl⟩

theorem symm (h : Alike ps qs) : Alike qs ps :=
  ⟨fun name => (h.names name).symm, fun name => (h.counts name).symm⟩

/-- Pairs in another order are alike. -/
theorem of_perm (h : ps.Perm qs) : Alike ps qs :=
  ⟨fun _ => (h.map _).mem_iff, countIn_perm h⟩

end Alike

/-- What some pairs add up to, in whatever order: each of their names once, with all that is
counted of it. -/
structure Sums (ps entries : List CountPair) : Prop where
  distinct : (entries.map (·.name)).Nodup
  names : ∀ name, name ∈ entries.map (·.name) ↔ name ∈ ps.map (·.name)
  counts : ∀ q ∈ entries, q.count.toNat = countIn ps q.name

namespace Sums

variable {xs ys : List CountPair}

theorem of_perm (h : Sums ps xs) (hperm : ys.Perm xs) : Sums ps ys where
  distinct := (hperm.map _).nodup_iff.mpr h.distinct
  names name := (hperm.map _).mem_iff.trans (h.names name)
  counts q hq := h.counts q (hperm.mem_iff.mp hq)

/-- Pairs that are alike add up to the same. -/
theorem congr (h : Sums ps xs) (halike : Alike ps qs) : Sums qs xs where
  distinct := h.distinct
  names name := (h.names name).trans (halike.names name)
  counts q hq := (h.counts q hq).trans (halike.counts q.name)

theorem length_eq (h : Sums ps xs) : xs.length = (distinctNames ps).length := by
  have hperm : (xs.map (·.name)).Perm (distinctNames ps) := by
    refine (List.perm_ext_iff_of_nodup h.distinct (List.nodup_dedup _)).mpr fun name => ?_
    rw [h.names, List.mem_dedup]
  rw [← hperm.length_eq, List.length_map]

/-- What a name counts in all is a word. -/
theorem countIn_lt (h : Sums ps xs) (name : String) : countIn ps name < UInt64.size := by
  by_cases hname : name ∈ ps.map (·.name)
  · obtain ⟨q, hq, rfl⟩ := List.mem_map.mp ((h.names name).mpr hname)
    rw [← h.counts q hq]
    exact q.count.toNat_lt_size
  · have hzero : countIn ps name = 0 :=
      countIn_eq_zero fun p hp e => hname (List.mem_map.mpr ⟨p, hp, e⟩)
    rw [hzero]
    decide

theorem mem_of_mem (h : Sums ps xs) (k : Sums ps ys) {q : CountPair} (hq : q ∈ xs) : q ∈ ys := by
  have hname : q.name ∈ ys.map (·.name) :=
    (k.names q.name).mpr ((h.names q.name).mp (List.mem_map_of_mem hq))
  obtain ⟨r, hr, hrq⟩ := List.mem_map.mp hname
  have hcount : r.count = q.count := by
    apply UInt64.toNat_inj.mp
    rw [k.counts r hr, h.counts q hq, hrq]
  cases q
  cases r
  obtain rfl : _ = _ := hrq
  obtain rfl : _ = _ := hcount
  exact hr

/-- Pairs add up to the same entries, but for their order. -/
theorem perm (h : Sums ps xs) (k : Sums ps ys) : xs.Perm ys :=
  (List.perm_ext_iff_of_nodup h.distinct.of_map k.distinct.of_map).mpr fun _ =>
    ⟨h.mem_of_mem k, k.mem_of_mem h⟩

/-- **There is one ranking.** -/
theorem eq_of_pairwise (h : Sums ps xs) (k : Sums ps ys)
    (hx : xs.Pairwise fun p q => ¬ q.Before p) (hy : ys.Pairwise fun p q => ¬ q.Before p) :
    xs = ys :=
  (h.perm k).eq_of_pairwise (fun _ _ _ _ => CountPair.eq_of_not_before) hx hy

end Sums

namespace Tally

/-- Adding up pairs gives the names that there were, and theirs. -/
theorem isSome_foldlM_bump {t₀ : Tally}
    (h : ps.foldlM (fun t p => t.bump p.name p.count) t₀ = .ok t) :
    (t.get? name).isSome ↔ name ∈ ps.map (·.name) ∨ (t₀.get? name).isSome := by
  induction ps generalizing t₀ with
  | nil =>
    cases h
    simp
  | cons p ps ih =>
    rw [List.foldlM_cons] at h
    obtain ⟨t₁, h₁, h⟩ := bind_eq_ok_iff.mp h
    rw [ih h, isSome_bump h₁, List.map_cons, List.mem_cons, or_left_comm, or_assoc]

/-- **Adding up pairs.** -/
theorem sums_of_sum (h : sum ps = .ok t) : Sums ps t.pairs where
  distinct := t.nodup_names
  names name := by
    rw [← isSome_get?_iff, isSome_foldlM_bump h]
    exact or_iff_left nofun
  counts q hq := by
    rw [← countOf_sum h, countOf_eq_countIn, countIn_of_mem t.nodup_names hq]

end Tally

variable {lists others : List (List CountPair)} {limit : Nat}

theorem onlyAdds_mergeTop (lists : List (List CountPair)) (limit : Nat) :
    OnlyAdds (mergeTop lists limit) :=
  (OnlyAdds.foldlM (fun t p => t.onlyAdds_bump p.name p.count) _ _).bind fun _ => onlyAdds_ok _

/-- A merge overflows if what is counted of some name is no word. -/
theorem mergeTop_eq_error_iff : mergeTop lists limit = .error .add ↔
    ∃ name, UInt64.size ≤ countIn lists.flatten name := by
  have hnot : (∃ name, UInt64.size ≤ countIn lists.flatten name) ↔
      ¬ ∃ merged, mergeTop lists limit = .ok merged := by
    rw [exists_mergeTop_iff, not_forall]
    simp only [Nat.not_lt]
  rw [hnot]
  refine ⟨fun h => ?_, (onlyAdds_mergeTop lists limit).eq_error⟩
  rw [h]
  exact nofun

/-- **Merging.** Whatever the order of the entries, the merged list is the beginning of their
ranking. -/
theorem mergeTop_of_sums {entries : List CountPair} (h : Sums lists.flatten entries)
    (hranked : entries.Pairwise fun p q => ¬ q.Before p) :
    mergeTop lists limit = .ok (entries.take limit) := by
  obtain ⟨t, ht⟩ := Tally.exists_sum_iff.mpr h.countIn_lt
  have hsums := (Tally.sums_of_sum ht).of_perm (Tally.ranked_perm t.pairs)
  have hentries := hsums.eq_of_pairwise h (Tally.ranked_pairwise t.pairs) hranked
  unfold mergeTop
  rw [ht, ← hentries]
  rfl

theorem exists_ranking (h : ∀ name, countIn ps name < UInt64.size) :
    ∃ entries, Sums ps entries ∧ entries.Pairwise CountPair.Before := by
  obtain ⟨t, ht⟩ := Tally.exists_sum_iff.mpr h
  exact ⟨Tally.ranked t.pairs, (Tally.sums_of_sum ht).of_perm (Tally.ranked_perm t.pairs),
    t.ranked_pairs_pairwise⟩

theorem not_before_of_pairwise (h : ps.Pairwise CountPair.Before) :
    ps.Pairwise fun p q => ¬ q.Before p :=
  h.imp CountPair.Before.asymm

/-- **A merge depends on names and counts** alone. -/
theorem mergeTop_eq_of_alike (h : Alike others.flatten lists.flatten) (limit : Nat) :
    mergeTop others limit = mergeTop lists limit := by
  by_cases hfits : ∀ name, countIn lists.flatten name < UInt64.size
  · obtain ⟨ranking, hsums, hranked⟩ := exists_ranking hfits
    have hranked := not_before_of_pairwise hranked
    rw [mergeTop_of_sums hsums hranked, mergeTop_of_sums (hsums.congr h.symm) hranked]
  · obtain ⟨name, hname⟩ := not_forall.mp hfits
    have hmany : UInt64.size ≤ countIn lists.flatten name := Nat.not_lt.mp hname
    have hothers : UInt64.size ≤ countIn others.flatten name := h.counts name ▸ hmany
    rw [mergeTop_eq_error_iff.mpr ⟨name, hmany⟩, mergeTop_eq_error_iff.mpr ⟨name, hothers⟩]

/-- So it does not tell apart lists with the same pairs. -/
theorem mergeTop_congr (h : others.flatten.Perm lists.flatten) (limit : Nat) :
    mergeTop others limit = mergeTop lists limit :=
  mergeTop_eq_of_alike (Alike.of_perm h) limit

/-- A merge that keeps fewer pairs keeps a beginning. -/
theorem mergeTop_take {fewer : Nat} (h : fewer ≤ limit) :
    mergeTop lists fewer = (mergeTop lists limit).map (·.take fewer) := by
  unfold mergeTop
  cases Tally.sum lists.flatten with
  | error o => rfl
  | ok t =>
    change Except.ok (t.top fewer) = .ok ((t.top limit).take fewer)
    rw [Tally.top_eq_take, Tally.top_eq_take, List.take_take, Nat.min_eq_left h]

/-- **A merge depends on the multiset of its pairs.** It overflows exactly if the counts of some
name add up to no word. Otherwise it is the beginning of the ranking of all names with their sums,
in whatever order these are gone through and by whatever sort they are ranked. So it is the same
for lists with the same pairs, however they are spread and ordered, and a merge that keeps fewer
pairs is a beginning of one that keeps more. -/
theorem mergeTop_ranks (lists : List (List CountPair)) (limit : Nat) :
    (mergeTop lists limit = .error .add ↔
      ∃ name, UInt64.size ≤ countIn lists.flatten name) ∧
    ((∀ name, countIn lists.flatten name < UInt64.size) →
      ∃ ranking, Sums lists.flatten ranking ∧ ranking.Pairwise CountPair.Before ∧
        mergeTop lists limit = .ok (ranking.take limit) ∧
        (ranking.take limit).length = min limit (distinctNames lists.flatten).length) ∧
    (∀ entries ranking : List CountPair, Sums lists.flatten entries → ranking.Perm entries →
      (ranking.Pairwise fun p q => ¬ q.Before p) →
        mergeTop lists limit = .ok (ranking.take limit)) ∧
    (∀ others : List (List CountPair), others.flatten.Perm lists.flatten →
      mergeTop others limit = mergeTop lists limit) ∧
    ∀ fewer ≤ limit, mergeTop lists fewer = (mergeTop lists limit).map (·.take fewer) := by
  refine ⟨mergeTop_eq_error_iff, fun hfits => ?_, fun entries ranking hsums hperm hranked => ?_,
    fun others h => mergeTop_congr h limit, fun fewer h => mergeTop_take h⟩
  · obtain ⟨ranking, hsums, hranked⟩ := exists_ranking hfits
    refine ⟨ranking, hsums, hranked, ?_, ?_⟩
    · exact mergeTop_of_sums hsums (not_before_of_pairwise hranked)
    · rw [List.length_take, hsums.length_eq]
  · exact mergeTop_of_sums (hsums.of_perm hperm) hranked

def sampleLists : List (List CountPair) :=
  [[⟨"a.example", 5⟩, ⟨"b.example", 4⟩], [⟨"a.example", 2⟩, ⟨"c.example", 4⟩]]

theorem sums_sampleLists :
    Sums sampleLists.flatten [⟨"c.example", 4⟩, ⟨"a.example", 7⟩, ⟨"b.example", 4⟩] where
  distinct := by decide +kernel
  names name := by
    simp only [sampleLists, List.flatten_cons, List.flatten_nil, List.append_nil, List.cons_append,
      List.nil_append, List.map_cons, List.map_nil, List.mem_cons, List.not_mem_nil, or_false]
    tauto
  counts := by decide +kernel

theorem mergeTop_ranks_sample :
    (∀ name, countIn sampleLists.flatten name < UInt64.size) ∧
      mergeTop sampleLists 2 = .ok [⟨"a.example", 7⟩, ⟨"b.example", 4⟩] ∧
      mergeTop [sampleLists.flatten.reverse] 2 = mergeTop sampleLists 2 ∧
      mergeTop sampleLists 1 = .ok [⟨"a.example", 7⟩] := by
  obtain ⟨-, -, hany, hsame, hfewer⟩ := mergeTop_ranks sampleLists 2
  have hmerge := hany _ [⟨"a.example", 7⟩, ⟨"b.example", 4⟩, ⟨"c.example", 4⟩] sums_sampleLists
    (by decide +kernel) (by decide +kernel)
  refine ⟨sums_sampleLists.countIn_lt, hmerge, hsame _ ?_, ?_⟩
  · rw [List.flatten_singleton]
    exact List.reverse_perm _
  · rw [hfewer 1 (by decide), hmerge]
    rfl

end QueryTally
