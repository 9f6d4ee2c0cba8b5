import Mathlib.Data.List.Induction
import Mathlib.Data.List.Perm.Subperm
import QueryTally.Proofs.Merging

/-! # Merging in steps

Lists may be merged all at once, or two at a time in some grouping, each merge keeping the highest
counts only. What a step cuts is lost: a name that comes back starts again from nothing, so that a
count in steps is never too high, but may be too low. Where no step has to cut, every order and
every grouping gives what one merge gives. -/

namespace QueryTally

variable {ps qs xs merged : List CountPair} {lists : List (List CountPair)} {limit : Nat}
  {name : String}

theorem Alike.append {ps' qs' : List CountPair} (h : Alike ps qs) (h' : Alike ps' qs') :
    Alike (ps ++ ps') (qs ++ qs') where
  names name := by
    rw [List.map_append, List.map_append, List.mem_append, List.mem_append, h.names, h'.names]
  counts name := by rw [countIn_append, countIn_append, h.counts, h'.counts]

/-- Pairs with different names add up to themselves. -/
theorem Sums.refl (h : (ps.map (·.name)).Nodup) : Sums ps ps where
  distinct := h
  names _ := Iff.rfl
  counts _ hq := (countIn_of_mem h hq).symm

/-- What pairs add up to is like them. -/
theorem Sums.alike (h : Sums ps xs) : Alike xs ps where
  names := h.names
  counts name := by
    by_cases hname : name ∈ xs.map (·.name)
    · obtain ⟨q, hq, rfl⟩ := List.mem_map.mp hname
      rw [countIn_of_mem h.distinct hq, h.counts q hq]
    · have habsent : name ∉ ps.map (·.name) := fun hps => hname ((h.names name).mpr hps)
      have hnone : ∀ {ys : List CountPair}, name ∉ ys.map (·.name) → countIn ys name = 0 :=
        fun hys => countIn_eq_zero fun p hp e => hys (List.mem_map.mpr ⟨p, hp, e⟩)
      rw [hnone hname, hnone habsent]

/-- Pairs of which one merge can count everything and need cut nothing. -/
structure Roomy (limit : Nat) (ps : List CountPair) : Prop where
  fits : ∀ name, countIn ps name < UInt64.size
  few : (distinctNames ps).length ≤ limit

theorem Roomy.of_subset (h : Roomy limit qs) (hsub : ps ⊆ qs)
    (hle : ∀ name, countIn ps name ≤ countIn qs name) : Roomy limit ps where
  fits name := Nat.lt_of_le_of_lt (hle name) (h.fits name)
  few := by
    have hnames : distinctNames ps ⊆ distinctNames qs := by
      intro name hname
      exact List.mem_dedup.mpr (List.map_subset _ hsub (List.mem_dedup.mp hname))
    exact Nat.le_trans (List.subperm_of_subset (List.nodup_dedup _) hnames).length_le h.few

theorem Roomy.left (h : Roomy limit (ps ++ qs)) : Roomy limit ps :=
  h.of_subset (List.subset_append_left _ _) fun name => by
    rw [countIn_append]
    exact Nat.le_add_right _ _

theorem Roomy.right (h : Roomy limit (ps ++ qs)) : Roomy limit qs :=
  h.of_subset (List.subset_append_right _ _) fun name => by
    rw [countIn_append]
    exact Nat.le_add_left _ _

/-! ## One step -/

/-- What a merge gives is the beginning of the ranking of all that its lists add up to. -/
theorem exists_ranking_of_mergeTop (h : mergeTop lists limit = .ok merged) :
    ∃ ranking, Sums lists.flatten ranking ∧ ranking.Pairwise CountPair.Before ∧
      merged = ranking.take limit := by
  obtain ⟨ranking, hsums, hranked⟩ := exists_ranking (exists_mergeTop_iff.mp ⟨merged, h⟩)
  rw [mergeTop_of_sums hsums (not_before_of_pairwise hranked)] at h
  exact ⟨ranking, hsums, hranked, (Except.ok.inj h).symm⟩

/-- A merge counts a name in full or has cut it. -/
theorem countIn_mergeTop (h : mergeTop lists limit = .ok merged) (name : String) :
    countIn merged name =
      if name ∈ merged.map (·.name) then countIn lists.flatten name else 0 := by
  obtain ⟨ranking, hsums, -, rfl⟩ := exists_ranking_of_mergeTop h
  split
  · rename_i hname
    obtain ⟨p, hp, rfl⟩ := List.mem_map.mp hname
    have hsub := List.take_sublist limit ranking
    rw [countIn_of_mem (hsums.distinct.sublist (hsub.map _)) hp, hsums.counts p (hsub.subset hp)]
  · rename_i hname
    exact countIn_eq_zero fun p hp e => hname (List.mem_map.mpr ⟨p, hp, e⟩)

theorem nodup_mergeTop (h : mergeTop lists limit = .ok merged) :
    (merged.map (·.name)).Nodup := by
  obtain ⟨ranking, hsums, -, rfl⟩ := exists_ranking_of_mergeTop h
  exact hsums.distinct.sublist ((List.take_sublist limit ranking).map _)

/-- A merge of few names cuts none. -/
theorem exists_alike_mergeTop (h : Roomy limit lists.flatten) :
    ∃ merged, mergeTop lists limit = .ok merged ∧ Alike merged lists.flatten := by
  obtain ⟨ranking, hsums, hranked⟩ := exists_ranking h.fits
  have hmerged : mergeTop lists limit = .ok (ranking.take limit) :=
    mergeTop_of_sums hsums (not_before_of_pairwise hranked)
  rw [List.take_of_length_le (hsums.length_eq ▸ h.few)] at hmerged
  exact ⟨ranking, hmerged, hsums.alike⟩

/-! ## Groupings -/

/-- A way of merging lists two at a time. -/
inductive Grouping where
  /-- A list as it is. -/
  | list (ps : List CountPair)
  /-- The merge of what two groups give. -/
  | merge (a b : Grouping)

namespace Grouping

def leaves : Grouping → List (List CountPair)
  | list ps => [ps]
  | merge a b => a.leaves ++ b.leaves

/-- What a grouping gives if each of its merges keeps `limit` pairs. -/
def result (limit : Nat) : Grouping → Checked (List CountPair)
  | list ps => .ok ps
  | merge a b => do
    let as ← a.result limit
    let bs ← b.result limit
    mergeTop [as, bs] limit

variable {a b : Grouping} {as bs : List CountPair}

theorem result_merge (ha : a.result limit = .ok as) (hb : b.result limit = .ok bs) :
    (merge a b).result limit = mergeTop [as, bs] limit := by
  simp only [result, ha, hb, bind, Except.bind]

theorem flatten_pair (as bs : List CountPair) : [as, bs].flatten = as ++ bs := by simp

theorem flatten_leaves_merge (a b : Grouping) :
    (merge a b).leaves.flatten = a.leaves.flatten ++ b.leaves.flatten := by
  rw [leaves, List.flatten_append]

/-- **Steps never count too much**, so that none overflows if one merge of all does not. -/
theorem exists_result (g : Grouping) (limit : Nat)
    (hfits : ∀ name, countIn g.leaves.flatten name < UInt64.size) :
    ∃ ps, g.result limit = .ok ps ∧ ∀ name, countIn ps name ≤ countIn g.leaves.flatten name := by
  induction g with
  | list ps => exact ⟨ps, rfl, fun name => by simp [leaves]⟩
  | merge a b iha ihb =>
    simp only [flatten_leaves_merge, countIn_append] at hfits ⊢
    obtain ⟨as, has, hale⟩ := iha fun name => Nat.lt_of_le_of_lt (Nat.le_add_right _ _) (hfits name)
    obtain ⟨bs, hbs, hble⟩ := ihb fun name => Nat.lt_of_le_of_lt (Nat.le_add_left _ _) (hfits name)
    have hle : ∀ name, countIn [as, bs].flatten name ≤
        countIn a.leaves.flatten name + countIn b.leaves.flatten name := by
      intro name
      rw [flatten_pair, countIn_append]
      exact Nat.add_le_add (hale name) (hble name)
    obtain ⟨ps, hps⟩ : ∃ ps, mergeTop [as, bs] limit = .ok ps :=
      exists_mergeTop_iff.mpr fun name => Nat.lt_of_le_of_lt (hle name) (hfits name)
    refine ⟨ps, (result_merge has hbs).trans hps, fun name => ?_⟩
    rw [countIn_mergeTop hps]
    split
    · exact hle name
    · exact Nat.zero_le _

/-- A merge of groups that have lost nothing is a merge of all their lists. -/
theorem result_eq_mergeTop (ha : a.result limit = .ok as) (hb : b.result limit = .ok bs)
    (hasame : Alike as a.leaves.flatten) (hbsame : Alike bs b.leaves.flatten) :
    (merge a b).result limit = mergeTop (merge a b).leaves limit := by
  rw [result_merge ha hb]
  refine mergeTop_eq_of_alike ?_ limit
  rw [flatten_pair, flatten_leaves_merge]
  exact hasame.append hbsame

/-- **Steps that cut nothing** lose nothing. -/
theorem exists_alike (g : Grouping) (h : Roomy limit g.leaves.flatten) :
    ∃ ps, g.result limit = .ok ps ∧ Alike ps g.leaves.flatten := by
  induction g with
  | list ps =>
    refine ⟨ps, rfl, ?_⟩
    rw [leaves, List.flatten_singleton]
    exact Alike.refl ps
  | merge a b iha ihb =>
    have hparts := flatten_leaves_merge a b ▸ h
    obtain ⟨as, has, hasame⟩ := iha hparts.left
    obtain ⟨bs, hbs, hbsame⟩ := ihb hparts.right
    obtain ⟨ps, hps, hsame⟩ := exists_alike_mergeTop h
    exact ⟨ps, (result_eq_mergeTop has hbs hasame hbsame).trans hps, hsame⟩

/-- **Grouping.** If there are no more names than a merge keeps, merging in groups is merging all
at once. -/
theorem result_eq_of_perm (h : Roomy limit lists.flatten)
    (hperm : (merge a b).leaves.flatten.Perm lists.flatten) :
    (merge a b).result limit = mergeTop lists limit := by
  have hroomy : Roomy limit (merge a b).leaves.flatten :=
    h.of_subset hperm.subset fun name => Nat.le_of_eq (countIn_perm hperm name)
  rw [flatten_leaves_merge] at hroomy
  obtain ⟨as, has, hasame⟩ := exists_alike a hroomy.left
  obtain ⟨bs, hbs, hbsame⟩ := exists_alike b hroomy.right
  rw [result_eq_mergeTop has hbs hasame hbsame, mergeTop_congr hperm]

/-- The grouping that takes lists one after the other, beginning with none. -/
def oneByOne (lists : List (List CountPair)) : Grouping :=
  lists.foldl (fun g ps => merge g (list ps)) (list [])

theorem oneByOne_concat (lists : List (List CountPair)) (ps : List CountPair) :
    oneByOne (lists ++ [ps]) = merge (oneByOne lists) (list ps) := by
  simp [oneByOne]

theorem leaves_oneByOne (lists : List (List CountPair)) :
    (oneByOne lists).leaves = [] :: lists := by
  induction lists using List.reverseRecOn with
  | nil => rfl
  | append_singleton lists ps ih =>
    rw [oneByOne_concat, leaves, ih]
    rfl

end Grouping

/-! ## One list after the other -/

/-- Merges lists one after the other, beginning with none, and keeps `limit` pairs each time. -/
def mergeEach (lists : List (List CountPair)) (limit : Nat) : Checked (List CountPair) :=
  lists.foldlM (fun merged ps => mergeTop [merged, ps] limit) []

theorem mergeEach_concat (lists : List (List CountPair)) (ps : List CountPair) (limit : Nat) :
    mergeEach (lists ++ [ps]) limit =
      (mergeEach lists limit).bind fun merged => mergeTop [merged, ps] limit := by
  simp only [mergeEach, List.foldlM_append, List.foldlM_cons, List.foldlM_nil, bind_pure]
  rfl

theorem mergeEach_eq_result (lists : List (List CountPair)) (limit : Nat) :
    mergeEach lists limit = (Grouping.oneByOne lists).result limit := by
  induction lists using List.reverseRecOn with
  | nil => rfl
  | append_singleton lists ps ih =>
    rw [mergeEach_concat, Grouping.oneByOne_concat, ih]
    rfl

theorem nodup_mergeEach (h : mergeEach lists limit = .ok merged) :
    (merged.map (·.name)).Nodup := by
  rcases lists.eq_nil_or_concat with rfl | ⟨front, ps, rfl⟩
  · cases h
    exact List.nodup_nil
  · rw [List.concat_eq_append, mergeEach_concat] at h
    obtain ⟨part, -, hstep⟩ := bind_eq_ok_iff.mp h
    exact nodup_mergeTop hstep

/-- Where no step has to cut, one list after the other is all at once. -/
theorem mergeEach_eq_of_perm {others : List (List CountPair)} (h : Roomy limit lists.flatten)
    (hperm : others.flatten.Perm lists.flatten) :
    mergeEach others limit = mergeTop lists limit := by
  rcases others.eq_nil_or_concat with rfl | ⟨front, ps, rfl⟩
  · have hmerged : mergeTop [] limit = .ok ([].take limit) :=
      mergeTop_of_sums (Sums.refl List.nodup_nil) .nil
    rw [← mergeTop_congr hperm, hmerged, List.take_nil]
    rfl
  · rw [List.concat_eq_append] at hperm ⊢
    rw [mergeEach_eq_result, Grouping.oneByOne_concat]
    refine Grouping.result_eq_of_perm h ?_
    rwa [← Grouping.oneByOne_concat, Grouping.leaves_oneByOne, List.flatten_cons, List.nil_append]

/-- A name that no step cuts is counted in full. -/
theorem countIn_mergeEach (h : mergeEach lists limit = .ok merged)
    (hstays : ∀ front, front <+: lists → name ∈ front.flatten.map (·.name) →
      ∃ part, mergeEach front limit = .ok part ∧ name ∈ part.map (·.name)) :
    countIn merged name = countIn lists.flatten name := by
  induction lists using List.reverseRecOn generalizing merged with
  | nil =>
    cases h
    rfl
  | append_singleton lists ps ih =>
    have hlast := h
    rw [mergeEach_concat] at h
    obtain ⟨part, hpart, hstep⟩ := bind_eq_ok_iff.mp h
    have hbefore := ih hpart fun front hfront =>
      hstays front (hfront.trans (List.prefix_append _ _))
    rw [countIn_mergeTop hstep]
    split
    · rw [Grouping.flatten_pair, List.flatten_append, List.flatten_singleton, countIn_append,
        countIn_append, hbefore]
    · -- The name is not there in the end, so it was in none of the lists.
      rename_i hcut
      symm
      refine countIn_eq_zero fun p hp hname => hcut ?_
      obtain ⟨last, hmerged, hmem⟩ :=
        hstays _ List.prefix_rfl (List.mem_map.mpr ⟨p, hp, hname⟩)
      rw [hlast] at hmerged
      cases hmerged
      exact hmem

/-- **One list after the other, or all at once.** If the counts of each name add up to a word,
merging lists one after the other does not overflow. If there are no more names than a merge keeps,
it gives what one merge of all lists gives, and so does merging them in any order and grouping. In
any case it counts no name too often, and it counts in full each name that, from the first list
that has it on, is there after every step. -/
theorem mergeEach_counts (lists : List (List CountPair)) (limit : Nat)
    (hfits : ∀ name, countIn lists.flatten name < UInt64.size) :
    ∃ merged, mergeEach lists limit = .ok merged ∧
      ((distinctNames lists.flatten).length ≤ limit →
        mergeTop lists limit = .ok merged ∧
        (∀ others : List (List CountPair), others.Perm lists →
          mergeEach others limit = .ok merged) ∧
        ∀ a b : Grouping, (a.leaves ++ b.leaves).flatten.Perm lists.flatten →
          (Grouping.merge a b).result limit = .ok merged) ∧
      ∀ p ∈ merged, p.count.toNat ≤ countIn lists.flatten p.name ∧
        ((∀ front, front <+: lists → p.name ∈ front.flatten.map (·.name) →
            ∃ part, mergeEach front limit = .ok part ∧ p.name ∈ part.map (·.name)) →
          p.count.toNat = countIn lists.flatten p.name) := by
  obtain ⟨merged, hmerged, hle⟩ := (Grouping.oneByOne lists).exists_result limit (by
    rwa [Grouping.leaves_oneByOne])
  rw [Grouping.leaves_oneByOne] at hle
  rw [← mergeEach_eq_result] at hmerged
  have hcount : ∀ p ∈ merged, p.count.toNat = countIn merged p.name := fun p hp =>
    (countIn_of_mem (nodup_mergeEach hmerged) hp).symm
  refine ⟨merged, hmerged, fun hfew => ?_, fun p hp => ⟨?_, fun hstays => ?_⟩⟩
  · have hroomy : Roomy limit lists.flatten := ⟨hfits, hfew⟩
    have hatOnce : mergeTop lists limit = .ok merged := by
      rw [← mergeEach_eq_of_perm hroomy (List.Perm.refl _), hmerged]
    refine ⟨hatOnce, fun others hperm => ?_, fun a b hperm => ?_⟩
    · rw [mergeEach_eq_of_perm hroomy hperm.flatten, hatOnce]
    · rw [Grouping.result_eq_of_perm hroomy hperm, hatOnce]
  · rw [hcount p hp]
    exact hle p.name
  · rw [hcount p hp]
    exact countIn_mergeEach hmerged hstays

/-- Of two pairs, a merge that keeps one keeps the one that ranks first. -/
theorem mergeTop_two {p q : CountPair} (hne : p.name ≠ q.name) (h : q.Before p) :
    mergeTop [[p], [q]] 1 = .ok [q] := by
  have hsums : Sums [[p], [q]].flatten [q, p] :=
    (Sums.refl (by simpa using hne)).of_perm (List.Perm.swap p q [])
  exact mergeTop_of_sums hsums (by simpa using h.asymm)

/-- Three lists of one name each, of which the first name comes back in the last. -/
def returningLists : List (List CountPair) :=
  [[⟨"a.example", 2⟩], [⟨"b.example", 3⟩], [⟨"a.example", 4⟩]]

theorem sums_returningLists :
    Sums returningLists.flatten [⟨"a.example", 6⟩, ⟨"b.example", 3⟩] where
  distinct := by decide +kernel
  names name := by
    simp only [returningLists, List.flatten_cons, List.flatten_nil, List.append_nil,
      List.cons_append, List.nil_append, List.map_cons, List.map_nil, List.mem_cons,
      List.not_mem_nil, or_false]
    tauto
  counts := by decide +kernel

/-- With room for one name the first list is cut, so that its name counts 4 of 6 in the end. With
room for both, the lists backwards, or with the last two merged first, give what one merge does. -/
theorem mergeEach_counts_sample :
    (∀ name, countIn returningLists.flatten name < UInt64.size) ∧
      mergeEach returningLists 1 = .ok [⟨"a.example", 4⟩] ∧
      4 ≤ countIn returningLists.flatten "a.example" ∧
      mergeTop returningLists 2 = mergeEach returningLists 2 ∧
      mergeEach returningLists.reverse 2 = mergeEach returningLists 2 ∧
      (Grouping.merge (.list [⟨"a.example", 2⟩])
          (.merge (.list [⟨"b.example", 3⟩]) (.list [⟨"a.example", 4⟩]))).result 2 =
        mergeEach returningLists 2 := by
  have hfits := sums_returningLists.countIn_lt
  have hone : mergeEach returningLists 1 = .ok [⟨"a.example", 4⟩] := by
    have hfirst : mergeTop [[], [⟨"a.example", 2⟩]] 1 = .ok [⟨"a.example", 2⟩] :=
      mergeTop_of_sums (Sums.refl (by decide)) (List.pairwise_singleton _ _)
    have hsecond : mergeTop [[⟨"a.example", 2⟩], [⟨"b.example", 3⟩]] 1 =
        .ok [⟨"b.example", 3⟩] := mergeTop_two (by decide) (by decide)
    have hthird : mergeTop [[⟨"b.example", 3⟩], [⟨"a.example", 4⟩]] 1 =
        .ok [⟨"a.example", 4⟩] := mergeTop_two (by decide) (by decide)
    simp only [mergeEach, returningLists, List.foldlM_cons, List.foldlM_nil, hfirst, hsecond,
      hthird, bind, Except.bind, pure, Except.pure]
  obtain ⟨cut, hcut, -, hle⟩ := mergeEach_counts returningLists 1 hfits
  obtain rfl : [⟨"a.example", 4⟩] = cut := Except.ok.inj (hone.symm.trans hcut)
  obtain ⟨merged, hmerged, hroomy, -⟩ := mergeEach_counts returningLists 2 hfits
  obtain ⟨hatOnce, horder, hgroups⟩ := hroomy (by decide +kernel)
  refine ⟨hfits, hone, (hle _ List.mem_cons_self).1, ?_, ?_, ?_⟩
  · rw [hatOnce, hmerged]
  · rw [horder _ (List.reverse_perm _), hmerged]
  · rw [hgroups _ _ (List.Perm.refl _), hmerged]

end QueryTally
