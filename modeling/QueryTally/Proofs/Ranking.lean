import QueryTally.Proofs.LiveHour
import QueryTally.Proofs.Report

/-! # The lists of records and reports

A record keeps the names with the highest counts of each tally of its hour and drops the rest,
and a report keeps the highest of what the records add up to. What a top list leaves out comes
after all that it has, and so counts at most the smallest count in it. -/

namespace QueryTally

/-- What pairs count of a name. -/
def countIn (ps : List CountPair) (name : String) : Nat :=
  weight (ps.filter fun p => p.name == name)

/-- The smallest count of some pairs; zero if there is none. -/
def leastCount (ps : List CountPair) : Nat := (ps.map (·.count.toNat)).min?.getD 0

theorem countIn_cons (p : CountPair) (ps : List CountPair) (name : String) :
    countIn (p :: ps) name = (if p.name = name then p.count.toNat else 0) + countIn ps name := by
  by_cases h : p.name = name
  · simp [countIn, h]
  · simp [countIn, h]

theorem countIn_append (ps qs : List CountPair) (name : String) :
    countIn (ps ++ qs) name = countIn ps name + countIn qs name := by
  simp [countIn]

theorem countIn_eq_zero {ps : List CountPair} {name : String} (h : ∀ p ∈ ps, p.name ≠ name) :
    countIn ps name = 0 := by
  have hnone : ps.filter (fun p => p.name == name) = [] :=
    List.filter_eq_nil_iff.mpr fun p hp => by simpa using h p hp
  rw [countIn, hnone, weight_nil]

/-- A name that occurs once is counted once. -/
theorem countIn_of_mem {ps : List CountPair} (h : (ps.map (·.name)).Nodup) {p : CountPair}
    (hp : p ∈ ps) : countIn ps p.name = p.count.toNat := by
  induction ps with
  | nil => cases hp
  | cons q ps ih =>
    obtain ⟨hq, hps⟩ := List.nodup_cons.mp (List.map_cons ▸ h)
    rw [countIn_cons]
    rcases List.mem_cons.mp hp with rfl | hp
    · have hrest : countIn ps p.name = 0 :=
        countIn_eq_zero fun r hr e => hq (List.mem_map.mpr ⟨r, hr, e⟩)
      rw [if_pos rfl, hrest, Nat.add_zero]
    · have hne : q.name ≠ p.name := fun e => hq (List.mem_map.mpr ⟨p, hp, e.symm⟩)
      rw [if_neg hne, ih hps hp, Nat.zero_add]

theorem leastCount_le {ps : List CountPair} {p : CountPair} (hp : p ∈ ps) :
    leastCount ps ≤ p.count.toNat :=
  List.min?_getD_le_of_mem (List.mem_map_of_mem hp)

theorem le_leastCount {ps : List CountPair} {n : Nat} (hne : ps ≠ [])
    (h : ∀ p ∈ ps, n ≤ p.count.toNat) : n ≤ leastCount ps := by
  unfold leastCount
  cases hmin : (ps.map (·.count.toNat)).min? with
  | none => exact absurd (List.map_eq_nil_iff.mp (List.min?_eq_none_iff.mp hmin)) hne
  | some m =>
    obtain ⟨p, hp, rfl⟩ := List.mem_map.mp (List.min?_eq_some_iff.mp hmin).1
    exact h p hp

namespace Tally

variable {t : Tally} {limit : Nat} {p q : CountPair} {name : String}

/-- The count of a name; zero if the tally does not have it. -/
def countOf (t : Tally) (name : String) : Nat := ((t.get? name).getD 0).toNat

theorem countOf_eq_countIn (t : Tally) (name : String) :
    t.countOf name = countIn t.pairs name := by
  unfold countOf get?
  cases hfind : t.pairs.find? (·.name == name) with
  | none =>
    have hnone := List.find?_eq_none.mp hfind
    rw [countIn_eq_zero fun p hp => by simpa using hnone p hp]
    rfl
  | some p =>
    obtain rfl : p.name = name := by simpa using List.find?_some hfind
    rw [countIn_of_mem t.nodup_names (List.mem_of_find?_eq_some hfind)]
    rfl

theorem countOf_bump {t' : Tally} {n : UInt64} (h : t.bump p.name n = .ok t') :
    t'.countOf name = t.countOf name + if p.name = name then n.toNat else 0 := by
  obtain ⟨total, htotal, h⟩ := bind_eq_ok_iff.mp h
  obtain rfl := pure_eq_ok_iff.mp h
  simp only [countOf, get?_set]
  by_cases hname : p.name = name
  · subst hname
    simpa using addCount_eq_ok_iff.mp htotal
  · simp [hname, Ne.symm hname]

/-- **Adding up pairs**, name by name. -/
theorem countOf_sum {ps : List CountPair} (h : Tally.sum ps = .ok t) :
    t.countOf name = countIn ps name := by
  have hgen : ∀ (ps : List CountPair) (t₀ : Tally),
      ps.foldlM (fun t p => t.bump p.name p.count) t₀ = .ok t →
      t.countOf name = t₀.countOf name + countIn ps name := by
    intro ps
    induction ps with
    | nil =>
      intro t₀ h
      cases h
      rfl
    | cons p ps ih =>
      intro t₀ h
      rw [List.foldlM_cons] at h
      obtain ⟨t₁, h₁, h⟩ := bind_eq_ok_iff.mp h
      rw [ih t₁ h, countOf_bump h₁, countIn_cons, Nat.add_assoc]
  rw [hgen ps empty h]
  exact Nat.zero_add _

/-! ## What a top list leaves out -/

theorem length_top (t : Tally) (limit : Nat) :
    (t.top limit).length = min limit t.pairs.length := by
  rw [top_eq_take, List.length_take, (ranked_perm t.pairs).length_eq]

theorem ranked_pairs_pairwise (t : Tally) : (ranked t.pairs).Pairwise CountPair.Before := by
  have hsorted := t.top_pairwise t.pairs.length
  rwa [top_eq_take, List.take_of_length_le (Nat.le_of_eq (ranked_perm t.pairs).length_eq)]
    at hsorted

/-- **What is left out** comes after everything that is kept. -/
theorem before_of_not_mem_top (hp : p ∈ t.pairs) (hout : p ∉ t.top limit) (hq : q ∈ t.top limit) :
    q.Before p := by
  have hsorted := t.ranked_pairs_pairwise
  rw [← List.take_append_drop limit (ranked t.pairs)] at hsorted
  -- The list is the beginning of the ranking, so that what it leaves out is in the rest.
  have hrest : p ∈ (ranked t.pairs).drop limit := by
    have hmem := (ranked_perm t.pairs).mem_iff.mpr hp
    rw [← List.take_append_drop limit (ranked t.pairs)] at hmem
    exact (List.mem_append.mp hmem).resolve_left hout
  exact (List.pairwise_append.mp hsorted).2.2 q hq p hrest

/-- Something is left out only of a tally that has more names than the list can hold. -/
theorem limit_lt_of_not_mem_top (hp : p ∈ t.pairs) (hout : p ∉ t.top limit) :
    limit < t.pairs.length := by
  refine Nat.lt_of_not_le fun hle => hout ?_
  rw [top_eq_take, List.take_of_length_le ((ranked_perm t.pairs).length_eq ▸ hle)]
  exact (ranked_perm t.pairs).mem_iff.mpr hp

/-- What is left out counts at most the least of what is kept. -/
theorem count_le_leastCount (hlimit : 0 < limit) (hp : p ∈ t.pairs) (hout : p ∉ t.top limit) :
    p.count.toNat ≤ leastCount (t.top limit) := by
  have hmany := limit_lt_of_not_mem_top hp hout
  refine le_leastCount (fun hnil => ?_) fun q hq => ?_
  · have hlength := t.length_top limit
    rw [hnil, List.length_nil] at hlength
    omega
  · rcases before_of_not_mem_top hp hout hq with h | ⟨h, -⟩
    · exact Nat.le_of_lt (UInt64.lt_iff_toNat_lt.mp h)
    · exact Nat.le_of_eq (congrArg UInt64.toNat h.symm)

theorem countIn_top_of_mem (hp : p ∈ t.top limit) :
    countIn (t.top limit) p.name = t.countOf p.name := by
  rw [countOf_eq_countIn, countIn_of_mem (t.nodup_names_top limit) hp,
    countIn_of_mem t.nodup_names (mem_of_mem_top hp)]

/-- A name that is not in the list counts at most the least of it, if anything was left out. -/
theorem countOf_le_of_unlisted (hlimit : 0 < limit) (h : ∀ p ∈ t.top limit, p.name ≠ name) :
    t.countOf name ≤ if limit < t.pairs.length then leastCount (t.top limit) else 0 := by
  by_cases hname : ∃ p ∈ t.pairs, p.name = name
  · obtain ⟨p, hp, rfl⟩ := hname
    have hout : p ∉ t.top limit := fun hmem => h p hmem rfl
    rw [if_pos (limit_lt_of_not_mem_top hp hout), countOf_eq_countIn,
      countIn_of_mem t.nodup_names hp]
    exact count_le_leastCount hlimit hp hout
  · have hzero : t.countOf name = 0 := by
      rw [countOf_eq_countIn]
      exact countIn_eq_zero fun p hp e => hname ⟨p, hp, e⟩
    rw [hzero]
    exact Nat.zero_le _

end Tally

/-! ## The lists of a report -/

/-- The three tallies of an hour, each with its list in records and reports. -/
inductive Ranking where
  | domains
  | blockedDomains
  | clients
  deriving DecidableEq, Repr

namespace Ranking

variable {w : Window} {g : Granularity} {r : Report}

def tally : Ranking → LiveHour → Tally
  | domains => (·.domains)
  | blockedDomains => (·.blockedDomains)
  | clients => (·.clients)

def ofRecord : Ranking → HourRecord → List CountPair
  | domains => (·.domains)
  | blockedDomains => (·.blockedDomains)
  | clients => (·.clients)

def ofReport : Ranking → Report → List CountPair
  | domains => (·.topDomains)
  | blockedDomains => (·.topBlockedDomains)
  | clients => (·.topClients)

theorem ofRecord_toRecord (k : Ranking) (u : LiveHour) :
    k.ofRecord u.toRecord = (k.tally u).top topLimit := by
  cases k <;> rfl

theorem mergeTop_ofReport (k : Ranking) (h : Report.ofWindow w g = .ok r) :
    mergeTop (w.records.map k.ofRecord) topLimit = .ok (k.ofReport r) := by
  have hmade := Report.madeOf_ofWindow h
  cases k with
  | domains => exact hmade.topDomains
  | blockedDomains => exact hmade.topBlockedDomains
  | clients => exact hmade.topClients

end Ranking
end QueryTally
