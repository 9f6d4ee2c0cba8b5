import QueryTally.Proofs.Session.Histories

/-! # No lookup is shown twice

The same hour can be in memory and on the disk at once, and be taken up from there again. But
the live hour takes the place of what is stored of it, so a report has each hour once, and what
it has of an hour was counted in that hour, each lookup once. -/

namespace QueryTally.Session

open QueryTally.Disk QueryTally.Hour

variable {s s₀ : Session} {acts : List Act} {again : Bool} {u : LiveHour}

/-- A backed hour counts no more than was counted in it. -/
theorem Backed.counts_le (h : Backed again acts u) :
    u.toRecord.total.toNat ≤ (countedIn acts u.hour).length ∧
      ∀ v, (u.toRecord.count v).toNat ≤ (countedIn acts u.hour).countP (·.verdict == v) := by
  obtain ⟨resumed, ks, harises, -, hsub⟩ := h
  have hcounts := harises.counts
  rw [hcounts.total]
  refine ⟨hsub.length_le, fun v => ?_⟩
  rw [hcounts.verdict]
  exact hsub.countP_le

/-- Counts of different hours that are covered by what was counted in them add up to no more
than was counted. -/
theorem exactSum_le (l : List (Hour × Lookup)) {hours : List Hour} (h : hours.Nodup)
    {count : Hour → UInt64}
    (hle : ∀ hour ∈ hours, (count hour).toNat ≤ (l.filter (·.1 == hour)).length) :
    exactSum (hours.map count) ≤ l.length := by
  induction hours generalizing l with
  | nil => exact Nat.zero_le _
  | cons hour hours ih =>
    obtain ⟨hnew, hnodup⟩ := List.nodup_cons.mp h
    obtain ⟨hfirst, hrest⟩ := List.forall_mem_cons.mp hle
    have hsplit := (List.filter_append_perm (·.1 == hour) l).length_eq
    rw [List.length_append] at hsplit
    -- Without what was counted in the first hour, as much is left of every other one.
    have hothers : exactSum (hours.map count) ≤ (l.filter fun p => !(p.1 == hour)).length := by
      refine ih _ hnodup fun k hk => ?_
      have hsame : (l.filter fun p => !(p.1 == hour)).filter (·.1 == k) =
          l.filter (·.1 == k) := by
        rw [List.filter_filter]
        refine List.filter_congr fun p _ => ?_
        have hne : k ≠ hour := fun e => hnew (e ▸ hk)
        by_cases hp : p.1 = k
        · simp [hp, hne]
        · simp [hp]
      rw [hsame]
      exact hrest k hk
    rw [List.map_cons, exactSum_cons]
    omega

/-- **Nothing is counted twice.** Take any run from a session without an engine and without a
row in any file: engines are opened, used, closed and dropped, the clock goes on or back, and
the disk fails in any way between the steps, as long as no file gets a row. In every report by
hours the slot of an hour shows at most as many queries as were counted while that hour was
live, and of each kind at most as many as had that verdict; so the total is at most the number
of queries that were counted. -/
theorem query_counts_le (hengine : s₀.engine = none) (hempty : ∀ f r, ¬ s₀.disk.HasRow f r)
    (h : Weathered (fun _ => Operates) s₀ acts again s) {r : Report}
    (hq : (s.step (.query .hours)).answer = .ok (.report r)) :
    ∃ e first, s.engine = some e ∧ s.clock.windowStart e.limit = .ok first ∧
      r.totalQueries.toNat ≤ (counted acts).length ∧
      ∀ hour, first ≤ hour → hour ≤ s.clock →
        let i := (hour.toInt - first.toInt).toNat
        let ks := countedIn acts hour
        (∃ n, r.queries[i]? = some n ∧ n.toNat ≤ ks.length) ∧
        (∃ n, r.filtered[i]? = some n ∧ n.toNat ≤ ks.countP (·.verdict == .filtered)) ∧
        (∃ n, r.safeBrowsing[i]? = some n ∧ n.toNat ≤ ks.countP (·.verdict == .safeBrowsing)) ∧
        ∃ n, r.parental[i]? = some n ∧ n.toNat ≤ ks.countP (·.verdict == .parental) := by
  obtain ⟨e, first, record, he, hfirst, hreport, hrecord⟩ :=
    (accounted_of_weathered hengine hempty h).report hq
  have hle : ∀ hour, (record hour).total.toNat ≤ (countedIn acts hour).length ∧
      ∀ v, ((record hour).count v).toNat ≤ (countedIn acts hour).countP (·.verdict == v) := by
    intro hour
    obtain ⟨u, rfl, hu, hr⟩ := hrecord hour
    rw [hr]
    exact hu.counts_le
  have hwidth := toInt_windowStart hfirst
  refine ⟨e, first, he, hfirst, ?_, fun hour hlow hhigh => ?_⟩
  · rw [toNat_sumCounts (Report.madeOf_ofWindow hreport).totalQueries, List.map_map]
    refine exactSum_le (counted acts) (nodup_span hwidth) fun hour _ => ?_
    rw [← List.length_map (·.2)]
    exact (hle hour).1
  · obtain ⟨hqueries, hfiltered, hsafe, hparental⟩ := Engine.series_of_hours hreport
    have hslot : ∀ count : HourRecord → UInt64,
        (((span first e.limit.toNat).map record).map count)[(hour.toInt - first.toInt).toNat]? =
          some (count (record hour)) := by
      intro count
      rw [List.map_map]
      exact getElem?_map_span hwidth hlow hhigh (count ∘ record)
    intro i ks
    rw [hqueries, hfiltered, hsafe, hparental]
    exact ⟨⟨_, hslot _, (hle hour).1⟩, ⟨_, hslot _, (hle hour).2 _⟩, ⟨_, hslot _, (hle hour).2 _⟩,
      ⟨_, hslot _, (hle hour).2 _⟩⟩

/-- An hour is stored, and taken up again when the clock has gone back and the engine has been
dropped. -/
def weatheredRun : List Step :=
  [.launch "stats.db" 1 none, .ingest sampleEvents, .setClock 1001, .rotate, .setClock 1000, .drop,
    .launch "stats.db" 1 none, .ingest sampleEvents]

def weatheredSample : Session :=
  let s := weatheredRun.foldl (fun s x => (s.step x).session) sampleStart
  { s with disk := { s.disk with content := fun _ => .bytes [] } }

theorem weathered_sample : ∃ acts again,
    Weathered (fun _ => Operates) sampleStart acts again weatheredSample ∧
      (counted acts).length = 6 := by
  have hfollows : sampleStart.follows (fun _ => Operates) weatheredRun = true := by decide +kernel
  have hrun := (Traced.start.follow hfollows).weathered
  exact ⟨_, _, hrun.disturbed fun f r hr => absurd hr (not_hasRow_bytes rfl), by decide +kernel⟩

theorem query_counts_le_sample : ∃ r,
    (weatheredSample.step (.query .hours)).answer = .ok (.report r) ∧
      r.totalQueries.toNat ≤ 6 := by
  obtain ⟨acts, again, hrun, hlength⟩ := weathered_sample
  obtain ⟨e, hengine⟩ := Option.isSome_iff_exists.mp
    (by decide +kernel : weatheredSample.engine.isSome = true)
  obtain ⟨r, hr⟩ := exists_report hengine
    (by decide +kernel : (weatheredSample.step (.query .hours)).answer.isOk = true)
  have hempty : ∀ f r, ¬ sampleStart.disk.HasRow f r := fun _ _ => not_hasRow_bytes rfl
  obtain ⟨-, -, -, -, htotal, -⟩ := query_counts_le rfl hempty hrun hr
  exact ⟨r, hr, hlength ▸ htotal⟩

end QueryTally.Session
