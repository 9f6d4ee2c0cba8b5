import QueryTally.Proofs.Tally

/-! # Taking an hour up again

An hour that is taken up from its own record has its counters and, of each tally, the pairs that
rank first. Of the summed time it has the mean times the total, which is short of it by less than
the total. Doing it once more loses nothing (`ofRecord_again`), so that over the life of an hour
the summed time can lose only as much, less one, each time that the hour is taken up. -/

namespace QueryTally

namespace LiveHour

variable {u v w : LiveHour} {hour : Hour}

/-- An hour as it comes back from the record of another one. -/
structure Rebuilt (u : LiveHour) (hour : Hour) (v : LiveHour) : Prop where
  hour : v.hour = hour
  total : v.total = u.total
  results : v.results = u.results
  /-- Each tally has the pairs before which there are fewer than a list can hold. -/
  kept : ∀ (k : Ranking) (p : CountPair), p ∈ (k.tally v).pairs ↔ p ∈ (k.tally u).pairs ∧
    (k.tally u).pairs.countP (fun q => decide (q.Before p)) < topLimit
  whole : ∀ k : Ranking, (k.tally u).pairs.length ≤ topLimit → k.tally v = k.tally u
  micros : v.micros.toNat ≤ u.micros.toNat ∧
    (0 < u.total → u.micros.toNat < v.micros.toNat + u.total.toNat)
  record : v.toRecord = u.toRecord

theorem tally_ofRecord {r : HourRecord} (h : ofRecord hour r = .ok v) (k : Ranking) :
    k.tally v = Tally.ofPairs (k.ofRecord r) := by
  obtain ⟨_, _, rfl⟩ := ofRecord_eq_ok_iff.mp h
  cases k <;> rfl

/-- The pairs of a tally that comes back from a top list. -/
theorem pairs_ofPairs_top (t : Tally) (limit : Nat) :
    (Tally.ofPairs (t.top limit)).pairs.Perm (t.top limit) :=
  Tally.ofPairs_perm (t.nodup_names_top limit)

theorem mem_ofPairs_top_iff {t : Tally} {limit : Nat} {p : CountPair} :
    p ∈ (Tally.ofPairs (t.top limit)).pairs ↔
      p ∈ t.pairs ∧ t.pairs.countP (fun q => decide (q.Before p)) < limit := by
  have hranked := Tally.ranked_perm t.pairs
  rw [(pairs_ofPairs_top t limit).mem_iff, Tally.top_eq_take,
    mem_take_iff_of_pairwise t.ranked_pairs_pairwise, hranked.mem_iff, hranked.countP_eq]

theorem ofPairs_top_of_length_le {t : Tally} {limit : Nat} (h : t.pairs.length ≤ limit) :
    Tally.ofPairs (t.top limit) = t := by
  have hranked := Tally.ranked_perm t.pairs
  refine Tally.eq_of_perm ((pairs_ofPairs_top t limit).trans ?_)
  rw [Tally.top_eq_take, List.take_of_length_le (hranked.length_eq ▸ h)]
  exact hranked

/-- The summed time that comes back is the mean times the total. -/
theorem toNat_micros_ofRecord {r : HourRecord} (h : ofRecord hour r = .ok v) :
    v.micros.toNat = r.meanMicros.toNat * r.total.toNat := by
  obtain ⟨micros, hmul, rfl⟩ := ofRecord_eq_ok_iff.mp h
  exact mulCount_eq_ok_iff.mp hmul

/-- Less than the total is lost. -/
theorem micros_lt_meanMicros_mul (h : 0 < u.total) :
    u.micros.toNat < u.meanMicros.toNat * u.total.toNat + u.total.toNat := by
  have hpos : 0 < u.total.toNat := UInt64.lt_iff_toNat_lt.mp h
  have hne : u.total ≠ 0 := fun e => UInt64.lt_irrefl _ (e ▸ h)
  rw [meanMicros, if_neg hne, UInt64.toNat_div]
  exact Nat.lt_div_mul_add hpos

/-- **What comes back.** -/
theorem rebuilt_of_ofRecord (h : ofRecord hour u.toRecord = .ok v) : u.Rebuilt hour v where
  hour := hour_ofRecord h
  total := by
    obtain ⟨_, _, rfl⟩ := ofRecord_eq_ok_iff.mp h
    rfl
  results := by
    obtain ⟨_, _, rfl⟩ := ofRecord_eq_ok_iff.mp h
    exact VerdictCounts.ofList_toList u.results
  kept k p := by
    rw [tally_ofRecord h, k.ofRecord_toRecord]
    exact mem_ofPairs_top_iff
  whole k hfew := by
    rw [tally_ofRecord h, k.ofRecord_toRecord]
    exact ofPairs_top_of_length_le hfew
  micros := by
    rw [toNat_micros_ofRecord h]
    exact ⟨u.toNat_meanMicros_mul_le, micros_lt_meanMicros_mul⟩
  record := by
    obtain ⟨v', hv', hrecord⟩ := ofRecord_toRecord hour u
    obtain rfl := Except.ok.inj (hv'.symm.trans h)
    exact hrecord

/-- **Once more.** An hour that came back comes back as it is. -/
theorem ofRecord_again (h : ofRecord hour u.toRecord = .ok v) (later : Hour) :
    ofRecord later v.toRecord = .ok { v with hour := later } := by
  rw [(rebuilt_of_ofRecord h).record]
  obtain ⟨micros, hmul, rfl⟩ := ofRecord_eq_ok_iff.mp h
  exact ofRecord_eq_ok_iff.mpr ⟨micros, hmul, rfl⟩

/-- Takes an hour up from its own record, once under each of some numbers. -/
def resumeAll (u : LiveHour) (hours : List Hour) : Checked LiveHour :=
  hours.foldlM (fun u hour => ofRecord hour u.toRecord) u

theorem resumeAll_eq (h : ofRecord hour u.toRecord = .ok v) (hours : List Hour) :
    v.resumeAll hours = .ok { v with hour := hours.getLastD hour } := by
  induction hours generalizing hour v with
  | nil =>
    rw [List.getLastD_nil, ← hour_ofRecord h]
    rfl
  | cons next hours ih =>
    have hnext : ofRecord next u.toRecord = .ok { v with hour := next } := by
      rw [← (rebuilt_of_ofRecord h).record]
      exact ofRecord_again h next
    rw [List.getLastD_cons]
    exact bind_eq_ok_iff.mpr ⟨_, ofRecord_again h next, ih hnext⟩

/-! ## The life of an hour -/

/-- What can happen to an hour: it counts a lookup, or it is taken up again from its own record,
under some number. -/
inductive Stage where
  | counted (l : Lookup)
  | resumed (hour : Hour)

namespace Stage

/-- The hour after a stage of its life. -/
def run (u : LiveHour) : Stage → Checked LiveHour
  | counted l => u.record l
  | resumed hour => ofRecord hour u.toRecord

def lookups : Stage → Nat
  | counted _ => 1
  | resumed _ => 0

def micros : Stage → Nat
  | counted l => l.micros.toNat
  | resumed _ => 0

/-- What the summed time may lose if so many lookups have been counted. -/
def loss (total : Nat) : Stage → Nat
  | counted _ => 0
  | resumed _ => total - 1

end Stage

def runAll (u : LiveHour) (stages : List Stage) : Checked LiveHour := stages.foldlM Stage.run u

def trueMicros : List Stage → Nat
  | [] => 0
  | s :: stages => s.micros + trueMicros stages

def lookupsIn : List Stage → Nat
  | [] => 0
  | s :: stages => s.lookups + lookupsIn stages

/-- What the summed time may lose over some stages, if so many lookups were counted before. -/
def lossOver : Nat → List Stage → Nat
  | _, [] => 0
  | total, s :: stages => s.loss total + lossOver (total + s.lookups) stages

/-- An hour without a lookup has no time. -/
def Idle (u : LiveHour) : Prop := u.total = 0 → u.micros = 0

/-- The summed time of an hour after a stage, or after several, that took so long and may have
lost so much. -/
structure Keeps (u : LiveHour) (lookups micros loss : Nat) (v : LiveHour) : Prop where
  idle : v.Idle
  total : v.total.toNat = u.total.toNat + lookups
  most : v.micros.toNat ≤ u.micros.toNat + micros
  least : u.micros.toNat + micros ≤ v.micros.toNat + loss

theorem keeps_counted {l : Lookup} (h : u.record l = .ok v) : u.Keeps 1 l.micros.toNat 0 v := by
  have htotal : v.total.toNat = u.total.toNat + 1 := (adds_record h).total
  obtain ⟨results, tally, clients, micros, total, -, -, -, hmicros, -, rfl⟩ :=
    record_eq_ok_iff.mp h
  have hsum := addCount_eq_ok_iff.mp hmicros
  refine ⟨fun hzero => ?_, htotal, Nat.le_of_eq hsum, Nat.le_of_eq hsum.symm⟩
  rw [hzero] at htotal
  exact absurd htotal.symm (Nat.succ_ne_zero _)

theorem keeps_resumed (hidle : u.Idle) (h : ofRecord hour u.toRecord = .ok v) :
    u.Keeps 0 0 (u.total.toNat - 1) v := by
  have hback := rebuilt_of_ofRecord h
  obtain ⟨hmost, hleast⟩ := hback.micros
  have hbound : u.micros.toNat ≤ v.micros.toNat + (u.total.toNat - 1) := by
    by_cases hzero : u.total = 0
    · rw [hidle hzero]
      exact Nat.zero_le _
    · have hpos : 0 < u.total := UInt64.pos_iff_ne_zero.mpr hzero
      have hlt := hleast hpos
      omega
  refine ⟨fun hzero => ?_, congrArg UInt64.toNat hback.total, hmost, hbound⟩
  rw [hback.total] at hzero
  rw [hidle hzero] at hmost
  exact UInt64.toNat_inj.mp (Nat.le_zero.mp hmost)

/-- **A stage** keeps the time but for what the mean loses. -/
theorem keeps_run {s : Stage} (hidle : u.Idle) (h : s.run u = .ok v) :
    u.Keeps s.lookups s.micros (s.loss u.total.toNat) v := by
  cases s with
  | counted l => exact keeps_counted h
  | resumed hour => exact keeps_resumed hidle h

/-- **A life** keeps it but for what its stages lose. -/
theorem keeps_runAll {stages : List Stage} (hidle : u.Idle) (h : u.runAll stages = .ok w) :
    u.Keeps (lookupsIn stages) (trueMicros stages) (lossOver u.total.toNat stages) w := by
  induction stages generalizing u with
  | nil =>
    cases h
    exact ⟨hidle, rfl, Nat.le_refl _, Nat.le_refl _⟩
  | cons s stages ih =>
    rw [runAll, List.foldlM_cons] at h
    obtain ⟨v, hv, h⟩ := bind_eq_ok_iff.mp h
    have hstage := keeps_run hidle hv
    have hrest := ih hstage.idle h
    rw [hstage.total] at hrest
    obtain ⟨-, htotal, hmost, hleast⟩ := hstage
    obtain ⟨hidle', htotal', hmost', hleast'⟩ := hrest
    simp only [lookupsIn, trueMicros, lossOver] at *
    exact ⟨hidle', by omega, by omega, by omega⟩

/-- **Reducing and rebuilding.** An hour can be taken up from its own record whatever it has
counted. It comes back with its counters, with the pairs of its tallies that rank first, so with
all of them where a list holds them, and with a summed time that is short by less than the total;
its record is the same, and however often it is taken up again, only its number changes. So over
any life of an hour the summed time is at most the true one, and short of it by at most one less
than the lookups counted so far for each time that the hour was taken up. -/
theorem resuming_keeps :
    (∀ (u : LiveHour) (hour : Hour), ∃ v, ofRecord hour u.toRecord = .ok v ∧ u.Rebuilt hour v ∧
      ∀ hours, v.resumeAll hours = .ok { v with hour := hours.getLastD hour }) ∧
    ∀ (hour : Hour) (stages : List Stage) (w : LiveHour), (start hour).runAll stages = .ok w →
      w.total.toNat = lookupsIn stages ∧ w.micros.toNat ≤ trueMicros stages ∧
        trueMicros stages ≤ w.micros.toNat + lossOver 0 stages := by
  refine ⟨fun u hour => ?_, fun hour stages w h => ?_⟩
  · obtain ⟨v, hv, -⟩ := ofRecord_toRecord hour u
    exact ⟨v, hv, rebuilt_of_ofRecord hv, resumeAll_eq hv⟩
  · have hkeeps := keeps_runAll (fun _ => rfl) h
    have htotal := hkeeps.total
    have hmost := hkeeps.most
    have hleast := hkeeps.least
    have hzero : (start hour).total.toNat = 0 ∧ (start hour).micros.toNat = 0 := ⟨rfl, rfl⟩
    rw [hzero.1, Nat.zero_add] at htotal
    rw [hzero.2, Nat.zero_add] at hmost
    rw [hzero.1, hzero.2, Nat.zero_add] at hleast
    exact ⟨htotal, hmost, hleast⟩

def sampleStages : List Stage :=
  [.counted ⟨.notFiltered, "a.example", "10.0.0.1", 100⟩,
    .counted ⟨.notFiltered, "b.example", "10.0.0.1", 201⟩]

theorem resuming_keeps_sample :
    ∃ u v w, (start 7).runAll sampleStages = .ok u ∧ ofRecord 8 u.toRecord = .ok v ∧
      v.domains = u.domains ∧ u.micros.toNat < v.micros.toNat + 2 ∧ v.toRecord = u.toRecord ∧
      v.resumeAll [9, 7] = .ok { v with hour := 7 } ∧
      (start 7).runAll (sampleStages ++ [.resumed 8]) = .ok w ∧
      w.micros.toNat ≤ 301 ∧ 301 ≤ w.micros.toNat + 1 := by
  obtain ⟨hback, hlife⟩ := resuming_keeps
  have hany : ((start 7).runAll sampleStages).toOption.any
      (fun u => decide (u.domains.pairs.length ≤ topLimit)) = true := by decide +kernel
  obtain ⟨u, hu, hfew⟩ := (Option.any_eq_true _ _).mp hany
  have hu := toOption_eq_some_iff.mp hu
  obtain ⟨v, hv, hrebuilt, hagain⟩ := hback u 8
  obtain ⟨w, hw⟩ := exists_eq_ok_of_isOk
    (show ((start 7).runAll (sampleStages ++ [.resumed 8])).isOk = true by decide +kernel)
  have htotal : u.total.toNat = 2 := (hlife 7 sampleStages u hu).1
  have hlt := hrebuilt.micros.2 (UInt64.lt_iff_toNat_lt.mpr (htotal ▸ (by decide : 0 < 2)))
  rw [htotal] at hlt
  obtain ⟨-, hmost, hleast⟩ := hlife 7 (sampleStages ++ [.resumed 8]) w hw
  exact ⟨u, v, w, hu, hv, hrebuilt.whole .domains (of_decide_eq_true hfew), hlt, hrebuilt.record,
    hagain [9, 7], hw, hmost, hleast⟩

end LiveHour
end QueryTally
