import QueryTally.Proofs.Grouping

/-! # How far a merged list can be off

What a record drops has at most the smallest count that it keeps (`Ranking.cut`), so the totals of
a list are short of the full ones by at most that for each hour that does not list the name; and
what the report drops has at most the smallest count that it shows. -/

namespace QueryTally

def hasName (ps : List CountPair) (name : String) : Bool := ps.any (·.name == name)

/-- The smallest count that a full list shows; zero if the list is not full. -/
def shownFrom (ps : List CountPair) : Nat := if ps.length = topLimit then leastCount ps else 0

namespace Ranking

variable {k : Ranking} {us : List LiveHour} {w : Window} {g : Granularity} {r : Report}

/-- The smallest count that the record of an hour keeps, if the hour has more names than the
record can list. -/
def cut (k : Ranking) (u : LiveHour) : Nat :=
  if topLimit < (k.tally u).pairs.length then leastCount (k.ofRecord u.toRecord) else 0

def addUp (f : LiveHour → Nat) : List LiveHour → Nat
  | [] => 0
  | u :: us => f u + addUp f us

@[simp] theorem addUp_nil (f : LiveHour → Nat) : addUp f [] = 0 := rfl

@[simp] theorem addUp_cons (f : LiveHour → Nat) (u : LiveHour) (us : List LiveHour) :
    addUp f (u :: us) = f u + addUp f us := rfl

theorem addUp_eq_zero {f : LiveHour → Nat} (h : ∀ u ∈ us, f u = 0) : addUp f us = 0 := by
  induction us with
  | nil => exact addUp_nil f
  | cons u us ih =>
    rw [addUp_cons, h u List.mem_cons_self, ih fun v hv => h v (List.mem_cons_of_mem u hv)]

/-- What was counted of a name over some hours. -/
def total (k : Ranking) (us : List LiveHour) (name : String) : Nat :=
  addUp (fun u => (k.tally u).countOf name) us

/-- What the records that do not list a name can have dropped of it. -/
def missed (k : Ranking) (us : List LiveHour) (name : String) : Nat :=
  addUp k.cut (us.filter fun u => !hasName (k.ofRecord u.toRecord) name)

theorem missed_cons (k : Ranking) (u : LiveHour) (us : List LiveHour) (name : String) :
    k.missed (u :: us) name =
      (if hasName (k.ofRecord u.toRecord) name then 0 else k.cut u) + k.missed us name := by
  unfold missed
  cases hlisted : hasName (k.ofRecord u.toRecord) name with
  | true => simp [hlisted]
  | false => simp [hlisted]

/-- What the record of one hour has of a name. -/
theorem ofRecord_bounds (k : Ranking) (u : LiveHour) (name : String) :
    let list := k.ofRecord u.toRecord
    countIn list name ≤ (k.tally u).countOf name ∧
      (k.tally u).countOf name ≤ countIn list name + if hasName list name then 0 else k.cut u := by
  dsimp only
  rw [cut, ofRecord_toRecord]
  cases hlisted : hasName ((k.tally u).top topLimit) name with
  | true =>
    obtain ⟨p, hp, hname⟩ := List.any_eq_true.mp hlisted
    obtain rfl : p.name = name := by simpa using hname
    rw [Tally.countIn_top_of_mem hp]
    exact ⟨Nat.le_refl _, Nat.le_add_right _ _⟩
  | false =>
    have hout : ∀ p ∈ (k.tally u).top topLimit, p.name ≠ name := by
      intro p hp
      simpa using List.any_eq_false.mp hlisted p hp
    rw [countIn_eq_zero hout]
    refine ⟨Nat.zero_le _, ?_⟩
    rw [Nat.zero_add]
    exact Tally.countOf_le_of_unlisted (by decide) hout

/-- What the records of some hours have of a name. -/
theorem ofRecords_bounds (k : Ranking) (us : List LiveHour) (name : String) :
    let kept := countIn (us.map fun u => k.ofRecord u.toRecord).flatten name
    kept ≤ k.total us name ∧ k.total us name ≤ kept + k.missed us name := by
  induction us with
  | nil => exact ⟨Nat.le_refl _, Nat.le_refl _⟩
  | cons u us ih =>
    obtain ⟨hle, hge⟩ := k.ofRecord_bounds u name
    dsimp only at ih hle hge ⊢
    rw [missed_cons, List.map_cons, List.flatten_cons, countIn_append]
    simp only [total, addUp_cons] at ih ⊢
    omega

/-- What a merged list has of the names in some lists. -/
theorem merged_bounds {lists : List (List CountPair)} {merged : List CountPair}
    (h : mergeTop lists topLimit = .ok merged) :
    (∀ p ∈ merged, p.count.toNat = countIn lists.flatten p.name) ∧
      ∀ name, (∀ p ∈ merged, p.name ≠ name) → countIn lists.flatten name ≤ shownFrom merged := by
  obtain ⟨t, ht, h⟩ := bind_eq_ok_iff.mp h
  obtain rfl := pure_eq_ok_iff.mp h
  refine ⟨fun p hp => ?_, fun name hout => ?_⟩
  · rw [← Tally.countOf_sum ht, Tally.countOf_eq_countIn,
      countIn_of_mem t.nodup_names (Tally.mem_of_mem_top hp)]
  · rw [← Tally.countOf_sum ht]
    refine Nat.le_trans (Tally.countOf_le_of_unlisted (by decide) hout) ?_
    rw [shownFrom, Tally.length_top]
    split
    · exact Nat.le_of_eq (if_pos (Nat.min_eq_left (Nat.le_of_lt ‹_›))).symm
    · exact Nat.zero_le _

/-- Records that drop nothing miss nothing. -/
theorem missed_eq_zero (h : ∀ u ∈ us, (k.tally u).pairs.length ≤ topLimit) (name : String) :
    k.missed us name = 0 :=
  addUp_eq_zero fun u hu => if_neg (Nat.not_lt.mpr (h u (List.mem_filter.mp hu).1))

theorem shownFrom_le {ps : List CountPair} {p : CountPair} (hp : p ∈ ps) :
    shownFrom ps ≤ p.count.toNat := by
  unfold shownFrom
  split
  · exact leastCount_le hp
  · exact Nat.zero_le _

/-- **How far a top list can be off.** In the report of a window of hours, what a list shows of a
name is at most what was counted of it, and short of it by at most the smallest counts that those
records keep which had to drop names and do not list it. What was counted of a name that is not
shown exceeds these by at most the smallest count that is shown, if the list is full. So where no
hour has more names than a record can list, what is shown is exact, and no name that is not shown
was counted more often than one that is. -/
theorem ofReport_bounds (hw : w.records = us.map LiveHour.toRecord)
    (hr : Report.ofWindow w g = .ok r) (k : Ranking) :
    (∀ p ∈ k.ofReport r, p.count.toNat ≤ k.total us p.name ∧
      k.total us p.name ≤ p.count.toNat + k.missed us p.name) ∧
    (∀ name, hasName (k.ofReport r) name = false →
      k.total us name ≤ shownFrom (k.ofReport r) + k.missed us name) ∧
    ((∀ u ∈ us, (k.tally u).pairs.length ≤ topLimit) →
      (∀ p ∈ k.ofReport r, p.count.toNat = k.total us p.name) ∧
      ∀ name, hasName (k.ofReport r) name = false →
        ∀ p ∈ k.ofReport r, k.total us name ≤ k.total us p.name) := by
  have hrecords : w.records.map k.ofRecord = us.map fun u => k.ofRecord u.toRecord := by
    rw [hw, List.map_map]
    rfl
  obtain ⟨hshown, hhidden⟩ := merged_bounds (hrecords ▸ k.mergeTop_ofReport hr)
  have hlisted : ∀ p ∈ k.ofReport r, p.count.toNat ≤ k.total us p.name ∧
      k.total us p.name ≤ p.count.toNat + k.missed us p.name := by
    intro p hp
    rw [hshown p hp]
    exact k.ofRecords_bounds us p.name
  have hunlisted : ∀ name, hasName (k.ofReport r) name = false →
      k.total us name ≤ shownFrom (k.ofReport r) + k.missed us name := by
    intro name hname
    have hkept := hhidden name fun p hp => by simpa using List.any_eq_false.mp hname p hp
    have htotal := (k.ofRecords_bounds us name).2
    omega
  refine ⟨hlisted, hunlisted, fun hfew => ?_⟩
  -- No record had to drop a name, so nothing is missed and the bounds meet.
  have hexact : ∀ p ∈ k.ofReport r, p.count.toNat = k.total us p.name := by
    intro p hp
    have hbounds := hlisted p hp
    rw [missed_eq_zero hfew] at hbounds
    omega
  refine ⟨hexact, fun name hname p hp => ?_⟩
  have hname := hunlisted name hname
  have hleast := shownFrom_le hp
  rw [missed_eq_zero hfew] at hname
  rw [← hexact p hp]
  omega

/-! ## Lists that are short of names -/

def crowdName (i : Nat) : String := (Char.ofNat (0x4e00 + i)).toString

/-- As many names as a record can list, counted from 200 down to 101. -/
def crowd : List CountPair :=
  (List.range topLimit).map fun i => ⟨crowdName i, 200 - UInt64.ofNat i⟩

def stray : CountPair := ⟨"a.example", 1⟩

def lead : CountPair := ⟨"a.example", 300⟩

/-- An hour with one name more than its record can list. -/
def crowdedHour : LiveHour := { hour := 1, domains := Tally.ofPairs (crowd ++ [stray]) }

def leadHour : LiveHour := { hour := 2, domains := Tally.ofPairs [lead] }

theorem tally_crowdedHour :
    domains.tally crowdedHour = Tally.ofPairs (crowd ++ [stray]) := rfl

theorem crowdName_inj {i j : Nat} (hi : i < topLimit) (hj : j < topLimit)
    (h : crowdName i = crowdName j) : i = j := by
  have hcode : ∀ n < topLimit, (Char.ofNat (0x4e00 + n)).toNat = 0x4e00 + n := by decide +kernel
  have hchar := congrArg Char.toNat (String.singleton_inj.mp h)
  rw [hcode i hi, hcode j hj] at hchar
  exact Nat.add_left_cancel hchar

theorem nodup_crowd : ((crowd ++ [stray]).map (·.name)).Nodup := by
  have hnames : (crowd.map (·.name)).Nodup := by
    rw [crowd, List.map_map]
    refine List.nodup_range.map_on fun i hi j hj h => ?_
    exact crowdName_inj (List.mem_range.mp hi) (List.mem_range.mp hj) h
  have hstray : stray.name ∉ crowd.map (·.name) := by decide +kernel
  rw [List.map_append]
  exact hnames.concat hstray

theorem pairwise_crowd : (lead :: (crowd ++ [stray])).Pairwise CountPair.Before := by
  decide +kernel

theorem nodup_lead : ([lead].map (·.name)).Nodup := List.nodup_singleton _

theorem total_crowded (name : String) : domains.total [crowdedHour, leadHour] name =
    countIn (crowd ++ [stray]) name + countIn [lead] name := by
  rw [← Tally.countOf_ofPairs nodup_crowd, ← Tally.countOf_ofPairs nodup_lead]
  rfl

theorem ofRecord_crowdedHour : domains.ofRecord crowdedHour.toRecord = crowd := by
  rw [ofRecord_toRecord]
  exact Tally.top_ofPairs nodup_crowd (List.Pairwise.of_cons pairwise_crowd) topLimit

theorem ofRecord_leadHour : domains.ofRecord leadHour.toRecord = [lead] := by
  rw [ofRecord_toRecord]
  exact Tally.top_ofPairs nodup_lead (List.pairwise_singleton _ _) topLimit

theorem missed_crowded (name : String) : domains.missed [crowdedHour, leadHour] name =
    if hasName crowd name then 0 else 101 := by
  have hcrowded : domains.cut crowdedHour = 101 := by
    have hmany : topLimit < (domains.tally crowdedHour).pairs.length := by
      rw [tally_crowdedHour, (Tally.ofPairs_perm nodup_crowd).length_eq]
      decide +kernel
    rw [cut, if_pos hmany, ofRecord_crowdedHour]
    decide +kernel
  have hlead : domains.cut leadHour = 0 := by decide +kernel
  rw [missed_cons, missed_cons, hcrowded, hlead, ofRecord_crowdedHour, ite_self, Nat.zero_add]
  rfl

theorem sums_crowded : Sums [crowd, [lead]].flatten (lead :: crowd) := by
  have hperm : [crowd, [lead]].flatten.Perm (lead :: crowd) :=
    List.perm_append_singleton lead crowd
  have hnodup : ([crowd, [lead]].flatten.map (·.name)).Nodup := nodup_crowd
  exact (Sums.refl hnodup).of_perm hperm.symm

theorem lists_crowded :
    [crowdedHour.toRecord, leadHour.toRecord].map domains.ofRecord = [crowd, [lead]] := by
  rw [List.map_cons, List.map_singleton, ofRecord_crowdedHour, ofRecord_leadHour]

theorem fit_crowded : Report.Fit [crowdedHour.toRecord, leadHour.toRecord] where
  total := by decide +kernel
  filtered := by decide +kernel
  safeBrowsing := by decide +kernel
  safeSearch := by decide +kernel
  parental := by decide +kernel
  names k name := by
    have hkept := (k.ofRecords_bounds [crowdedHour, leadHour] name).1
    cases k with
    | domains =>
      rw [lists_crowded]
      exact sums_crowded.countIn_lt name
    | blockedDomains => exact Nat.lt_of_le_of_lt hkept (by decide : 0 < UInt64.size)
    | clients => exact Nat.lt_of_le_of_lt hkept (by decide : 0 < UInt64.size)
  times := by decide +kernel

/-- The report of the two hours. Their lists hold one name more than it can show. -/
theorem exists_crowded :
    ∃ r, Report.ofWindow ⟨1, [crowdedHour.toRecord, leadHour.toRecord]⟩ .hours = .ok r ∧
      domains.ofReport r = lead :: crowd.take 99 := by
  have hrange : Window.InRange ⟨1, [crowdedHour.toRecord, leadHour.toRecord]⟩ :=
    ⟨by decide, by decide⟩
  obtain ⟨r, hr⟩ := (Report.exists_ofWindow_iff hrange.hours_eq (by decide)).mpr fit_crowded
  have hranked : (lead :: crowd).Pairwise CountPair.Before :=
    pairwise_crowd.sublist ((List.sublist_append_left crowd [stray]).cons_cons lead)
  have hmerged := domains.mergeTop_ofReport hr
  rw [lists_crowded, mergeTop_of_sums sums_crowded (not_before_of_pairwise hranked)] at hmerged
  exact ⟨r, hr, (Except.ok.inj hmerged).symm⟩

def sampleHours : List LiveHour :=
  [{ hour := 1, domains := Tally.ofPairs [⟨"a.example", 2⟩] },
    { hour := 2, domains := Tally.ofPairs [⟨"a.example", 3⟩] }]

/-- What is shown is exact in the first report. In the second one a name is short of what was
dropped of it, and the name that ranks last is not shown. -/
theorem ofReport_bounds_sample :
    (∃ r, Report.ofWindow ⟨1, sampleHours.map LiveHour.toRecord⟩ .hours = .ok r ∧
      domains.ofReport r = [⟨"a.example", 5⟩] ∧ domains.total sampleHours "a.example" = 5 ∧
      domains.total sampleHours "b.example" ≤ 5) ∧
    ∃ r, Report.ofWindow ⟨1, [crowdedHour, leadHour].map LiveHour.toRecord⟩ .hours = .ok r ∧
      lead ∈ domains.ofReport r ∧ lead.count = 300 ∧
      domains.total [crowdedHour, leadHour] lead.name = 301 ∧
      domains.total [crowdedHour, leadHour] lead.name ≤ 300 + 101 ∧
      hasName (domains.ofReport r) (crowdName 99) = false ∧
      domains.total [crowdedHour, leadHour] (crowdName 99) = 101 ∧
      domains.total [crowdedHour, leadHour] (crowdName 99) ≤ 102 := by
  constructor
  · have hany : (Report.ofWindow ⟨1, sampleHours.map LiveHour.toRecord⟩ .hours).toOption.any
        (fun r => decide (domains.ofReport r = [⟨"a.example", 5⟩])) = true := by
      decide +kernel
    obtain ⟨r, hr, htop⟩ := (Option.any_eq_true _ _).mp hany
    have hr := toOption_eq_some_iff.mp hr
    have htop := of_decide_eq_true htop
    have hfew : ∀ u ∈ sampleHours, (domains.tally u).pairs.length ≤ topLimit := by
      decide +kernel
    obtain ⟨-, -, hexact⟩ := ofReport_bounds rfl hr domains
    obtain ⟨hshown, hhidden⟩ := hexact hfew
    rw [htop] at hshown hhidden
    have htotal := hshown ⟨"a.example", 5⟩ List.mem_cons_self
    have hother := hhidden "b.example" (by decide +kernel) ⟨"a.example", 5⟩ List.mem_cons_self
    rw [← htotal] at hother
    exact ⟨r, hr, htop, htotal.symm, hother⟩
  · obtain ⟨r, hr, htop⟩ := exists_crowded
    have hlead : lead ∈ domains.ofReport r := htop ▸ List.mem_cons_self
    have hlast : hasName (domains.ofReport r) (crowdName 99) = false := by
      rw [htop]
      decide +kernel
    have hfrom : shownFrom (domains.ofReport r) = 102 := by
      rw [htop]
      decide +kernel
    have hrecords : [crowdedHour.toRecord, leadHour.toRecord] =
        [crowdedHour, leadHour].map LiveHour.toRecord := rfl
    obtain ⟨hlisted, hunlisted, -⟩ := ofReport_bounds hrecords hr domains
    have habove := (hlisted lead hlead).2
    have hbelow := hunlisted (crowdName 99) hlast
    rw [missed_crowded] at habove hbelow
    rw [hfrom] at hbelow
    refine ⟨r, hr, hlead, rfl, ?_, habove, hlast, ?_, hbelow⟩
    · rw [total_crowded]
      decide +kernel
    · rw [total_crowded]
      decide +kernel

end Ranking
end QueryTally
