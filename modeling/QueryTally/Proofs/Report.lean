import QueryTally.Report
import QueryTally.Proofs.Weight

/-! # What a report is made of

Each number, list and series of a report is computed from the records of the window alone
(`Report.MadeOf`). Records whose counters and lists agree with each other give a report whose
totals and lists do (`Report.Consistent`). -/

namespace QueryTally

namespace Report

/-- The computations that give the parts of a report. -/
structure MadeOf (w : Window) (g : Granularity) (r : Report) : Prop where
  queries : series w g (·.total) = .ok r.queries
  filtered : series w g (·.count .filtered) = .ok r.filtered
  safeBrowsing : series w g (·.count .safeBrowsing) = .ok r.safeBrowsing
  parental : series w g (·.count .parental) = .ok r.parental
  topDomains : mergeTop (w.records.map (·.domains)) topLimit = .ok r.topDomains
  topBlockedDomains :
    mergeTop (w.records.map (·.blockedDomains)) topLimit = .ok r.topBlockedDomains
  topClients : mergeTop (w.records.map (·.clients)) topLimit = .ok r.topClients
  meanMicros : meanTime w.records = .ok r.meanMicros
  totalQueries : sumCounts (w.records.map (·.total)) = .ok r.totalQueries
  totalFiltered : sumCounts (w.records.map (·.count .filtered)) = .ok r.totalFiltered
  totalSafeBrowsing :
    sumCounts (w.records.map (·.count .safeBrowsing)) = .ok r.totalSafeBrowsing
  totalSafeSearch : sumCounts (w.records.map (·.count .safeSearch)) = .ok r.totalSafeSearch
  totalParental : sumCounts (w.records.map (·.count .parental)) = .ok r.totalParental

variable {w : Window} {g : Granularity} {r : Report}

theorem ofWindow_eq_ok (h : ofWindow w g = .ok r) : r.MadeOf w g ∧ r.granularity = g := by
  obtain ⟨queries, hqueries, h⟩ := bind_eq_ok_iff.mp h
  obtain ⟨filtered, hfiltered, h⟩ := bind_eq_ok_iff.mp h
  obtain ⟨safeBrowsing, hsafe, h⟩ := bind_eq_ok_iff.mp h
  obtain ⟨parental, hparental, h⟩ := bind_eq_ok_iff.mp h
  obtain ⟨topDomains, hdomains, h⟩ := bind_eq_ok_iff.mp h
  obtain ⟨topBlocked, hblocked, h⟩ := bind_eq_ok_iff.mp h
  obtain ⟨topClients, hclients, h⟩ := bind_eq_ok_iff.mp h
  obtain ⟨meanMicros, hmean, h⟩ := bind_eq_ok_iff.mp h
  obtain ⟨t₁, h₁, h⟩ := bind_eq_ok_iff.mp h
  obtain ⟨t₂, h₂, h⟩ := bind_eq_ok_iff.mp h
  obtain ⟨t₃, h₃, h⟩ := bind_eq_ok_iff.mp h
  obtain ⟨t₄, h₄, h⟩ := bind_eq_ok_iff.mp h
  obtain ⟨t₅, h₅, h⟩ := bind_eq_ok_iff.mp h
  cases pure_eq_ok_iff.mp h
  exact ⟨⟨hqueries, hfiltered, hsafe, hparental, hdomains, hblocked, hclients, hmean, h₁, h₂, h₃,
    h₄, h₅⟩, rfl⟩

theorem madeOf_ofWindow (h : ofWindow w g = .ok r) : r.MadeOf w g := (ofWindow_eq_ok h).1

/-- Reports of one window differ in their series alone. -/
theorem MadeOf.eq_of_series {g' : Granularity} {r' : Report} (h : r.MadeOf w g)
    (h' : r'.MadeOf w g') :
    r' = { r with
      queries := r'.queries
      filtered := r'.filtered
      safeBrowsing := r'.safeBrowsing
      parental := r'.parental
      granularity := r'.granularity } := by
  rw [Except.ok.inj (h.topDomains.symm.trans h'.topDomains),
    Except.ok.inj (h.topBlockedDomains.symm.trans h'.topBlockedDomains),
    Except.ok.inj (h.topClients.symm.trans h'.topClients),
    Except.ok.inj (h.meanMicros.symm.trans h'.meanMicros),
    Except.ok.inj (h.totalQueries.symm.trans h'.totalQueries),
    Except.ok.inj (h.totalFiltered.symm.trans h'.totalFiltered),
    Except.ok.inj (h.totalSafeBrowsing.symm.trans h'.totalSafeBrowsing),
    Except.ok.inj (h.totalSafeSearch.symm.trans h'.totalSafeSearch),
    Except.ok.inj (h.totalParental.symm.trans h'.totalParental)]

def everySeries : List (Report → List UInt64) :=
  [(·.queries), (·.filtered), (·.safeBrowsing), (·.parental)]

def everyTotal : List (Report → UInt64) :=
  [(·.totalQueries), (·.totalFiltered), (·.totalSafeBrowsing), (·.totalSafeSearch),
    (·.totalParental)]

theorem forall_everySeries {p : (Report → List UInt64) → Prop} :
    (∀ pick ∈ everySeries, p pick) ↔
      p (·.queries) ∧ p (·.filtered) ∧ p (·.safeBrowsing) ∧ p (·.parental) := by
  simp only [everySeries, List.forall_mem_cons, List.not_mem_nil, false_imp_iff, implies_true,
    and_true]

/-- Each series is that of a counter. -/
theorem exists_series_eq : ∀ pick ∈ everySeries,
    ∃ count, ∀ {w g r}, ofWindow w g = .ok r → series w g count = .ok (pick r) :=
  forall_everySeries.mpr ⟨⟨_, fun hr => (madeOf_ofWindow hr).queries⟩,
    ⟨_, fun hr => (madeOf_ofWindow hr).filtered⟩, ⟨_, fun hr => (madeOf_ofWindow hr).safeBrowsing⟩,
    ⟨_, fun hr => (madeOf_ofWindow hr).parental⟩⟩

/-- Each total is that of a counter. -/
theorem exists_total_eq {pick : Report → UInt64} (h : pick ∈ everyTotal) :
    ∃ count : HourRecord → UInt64, ∀ {w g r}, ofWindow w g = .ok r →
      sumCounts (w.records.map count) = .ok (pick r) := by
  simp only [everyTotal, List.mem_cons, List.not_mem_nil, or_false] at h
  rcases h with rfl | rfl | rfl | rfl | rfl
  · exact ⟨_, fun hr => (madeOf_ofWindow hr).totalQueries⟩
  · exact ⟨_, fun hr => (madeOf_ofWindow hr).totalFiltered⟩
  · exact ⟨_, fun hr => (madeOf_ofWindow hr).totalSafeBrowsing⟩
  · exact ⟨_, fun hr => (madeOf_ofWindow hr).totalSafeSearch⟩
  · exact ⟨_, fun hr => (madeOf_ofWindow hr).totalParental⟩

/-- Hours without a mean time have none together. -/
theorem meanTime_eq_zero {records : List HourRecord} {n : UInt64}
    (h : meanTime records = .ok n) (hnone : ∀ r ∈ records, r.meanMicros = 0) : n = 0 := by
  have htimes : (records.map (·.meanMicros)).filter (· != 0) = [] := by
    refine List.filter_eq_nil_iff.mpr fun m hm => ?_
    obtain ⟨r, hr, rfl⟩ := List.mem_map.mp hm
    simp [hnone r hr]
  obtain ⟨sum, -, h⟩ := bind_eq_ok_iff.mp h
  rw [htimes] at h
  exact (pure_eq_ok_iff.mp h).symm

end Report

namespace HourRecord

def blocked (r : HourRecord) : Nat :=
  (r.count .filtered).toNat + (r.count .safeBrowsing).toNat + (r.count .safeSearch).toNat +
    (r.count .parental).toNat

/-- A record whose counters and lists agree with each other. -/
structure Canonical (r : HourRecord) : Prop where
  results : r.results.length = 5
  total : exactSum r.results = r.total.toNat
  domains : TopList r.domains ∧ weight r.domains ≤ (r.count .notFiltered).toNat
  blockedDomains : TopList r.blockedDomains ∧ weight r.blockedDomains ≤ r.blocked
  clients : TopList r.clients ∧ weight r.clients ≤ r.total.toNat
  idle : r.total = 0 → r.meanMicros = 0

/-- The total is that of the queries that were passed on and of those that were held back. -/
theorem Canonical.total_eq {r : HourRecord} (h : r.Canonical) :
    r.total.toNat = (r.count .notFiltered).toNat + r.blocked := by
  obtain ⟨total, results, domains, blockedDomains, clients, meanMicros⟩ := r
  have hlength : results.length = 5 := h.results
  have htotal : exactSum results = total.toNat := h.total
  match results, hlength, htotal with
  | [a, b, c, d, e], _, htotal =>
    rw [← htotal]
    change a.toNat + (b.toNat + (c.toNat + (d.toNat + (e.toNat + 0)))) =
      a.toNat + (b.toNat + c.toNat + d.toNat + e.toNat)
    omega

end HourRecord

namespace Report

def blocked (r : Report) : Nat :=
  r.totalFiltered.toNat + r.totalSafeBrowsing.toNat + r.totalSafeSearch.toNat +
    r.totalParental.toNat

/-- A report whose totals and lists agree with each other. -/
structure Consistent (r : Report) : Prop where
  blocked : r.blocked ≤ r.totalQueries.toNat
  topBlockedDomains : TopList r.topBlockedDomains ∧ weight r.topBlockedDomains ≤ r.blocked
  topDomains : TopList r.topDomains ∧ weight r.topDomains + r.blocked ≤ r.totalQueries.toNat
  topClients : TopList r.topClients ∧ weight r.topClients ≤ r.totalQueries.toNat
  idle : r.totalQueries = 0 → r.meanMicros = 0

/-- What a counter of records adds up to. -/
def summed (count : HourRecord → UInt64) (records : List HourRecord) : Nat :=
  exactSum (records.map count)

@[simp] theorem summed_cons (count : HourRecord → UInt64) (record : HourRecord)
    (records : List HourRecord) :
    summed count (record :: records) = (count record).toNat + summed count records := rfl

def summedBlocked (records : List HourRecord) : Nat :=
  summed (·.count .filtered) records + summed (·.count .safeBrowsing) records +
    summed (·.count .safeSearch) records + summed (·.count .parental) records

/-- What the counters of canonical records add up to, against the weights of their lists. -/
theorem summed_canonical {records : List HourRecord} (h : ∀ record ∈ records, record.Canonical) :
    summed (·.total) records = summed (·.count .notFiltered) records + summedBlocked records ∧
      weight (records.map (·.domains)).flatten ≤ summed (·.count .notFiltered) records ∧
      weight (records.map (·.blockedDomains)).flatten ≤ summedBlocked records ∧
      weight (records.map (·.clients)).flatten ≤ summed (·.total) records := by
  induction records with
  | nil => exact ⟨rfl, Nat.le_refl _, Nat.le_refl _, Nat.le_refl _⟩
  | cons record records ih =>
    obtain ⟨hrecord, hrecords⟩ := List.forall_mem_cons.mp h
    obtain ⟨htotal, hdomains, hblocked, hclients⟩ := ih hrecords
    have hrecordTotal := hrecord.total_eq
    have hrecordDomains := hrecord.domains.2
    have hrecordBlocked := hrecord.blockedDomains.2
    have hrecordClients := hrecord.clients.2
    rw [HourRecord.blocked] at hrecordTotal hrecordBlocked
    simp only [summedBlocked, summed_cons, List.map_cons, List.flatten_cons, weight_append]
      at htotal hblocked ⊢
    omega

/-- **Consistency.** A report of canonical records is consistent. -/
theorem consistent_ofWindow (h : ofWindow w g = .ok r) (hw : ∀ record ∈ w.records,
    record.Canonical) : r.Consistent := by
  have hmade := madeOf_ofWindow h
  obtain ⟨htotal, hdomains, hblocked, hclients⟩ := summed_canonical hw
  have hheld : r.blocked = summedBlocked w.records := by
    rw [blocked, toNat_sumCounts hmade.totalFiltered, toNat_sumCounts hmade.totalSafeBrowsing,
      toNat_sumCounts hmade.totalSafeSearch, toNat_sumCounts hmade.totalParental]
    rfl
  have hqueries : r.totalQueries.toNat = summed (·.total) w.records :=
    toNat_sumCounts hmade.totalQueries
  obtain ⟨htopDomains, hlistDomains⟩ := mergeTop_eq hmade.topDomains
  obtain ⟨htopBlocked, hlistBlocked⟩ := mergeTop_eq hmade.topBlockedDomains
  obtain ⟨htopClients, hlistClients⟩ := mergeTop_eq hmade.topClients
  have hcounted : ∀ list : HourRecord → List CountPair,
      (∀ record ∈ w.records, TopList (list record)) →
      ∀ l ∈ w.records.map list, ∀ p ∈ l, p.Counted := by
    intro list hlist l hl
    obtain ⟨record, hrecord, rfl⟩ := List.mem_map.mp hl
    exact (hlist record hrecord).counted
  refine ⟨by omega, ⟨?_, by omega⟩, ⟨?_, by omega⟩, ⟨?_, by omega⟩, fun hnone => ?_⟩
  · exact hlistBlocked (hcounted _ fun record hrecord => (hw record hrecord).blockedDomains.1)
  · exact hlistDomains (hcounted _ fun record hrecord => (hw record hrecord).domains.1)
  · exact hlistClients (hcounted _ fun record hrecord => (hw record hrecord).clients.1)
  · refine meanTime_eq_zero hmade.meanMicros fun record hrecord => (hw record hrecord).idle ?_
    rw [hnone, UInt64.toNat_zero] at hqueries
    exact exactSum_eq_zero_iff.mp hqueries.symm _ (List.mem_map_of_mem hrecord)

/-! ## Empty records -/

/-- A report in which nothing was counted. -/
structure Blank (r : Report) : Prop where
  queries : ∀ n ∈ r.queries, n = 0
  filtered : ∀ n ∈ r.filtered, n = 0
  safeBrowsing : ∀ n ∈ r.safeBrowsing, n = 0
  parental : ∀ n ∈ r.parental, n = 0
  topLists : r.topDomains = [] ∧ r.topBlockedDomains = [] ∧ r.topClients = []
  totals : r.totalQueries = 0 ∧ r.totalFiltered = 0 ∧ r.totalSafeBrowsing = 0 ∧
    r.totalSafeSearch = 0 ∧ r.totalParental = 0
  meanMicros : r.meanMicros = 0

theorem daily_of_zero {hours : List (Hour × UInt64)} {points : List UInt64}
    (hzero : ∀ p ∈ hours, p.2 = 0) (h : daily 0 hours = .ok points) : ∀ n ∈ points, n = 0 := by
  induction hours generalizing points with
  | nil =>
    cases h
    exact nofun
  | cons p hours ih =>
    obtain ⟨hour, count⟩ := p
    obtain ⟨rfl, hrest⟩ := List.forall_mem_cons.mp hzero
    obtain ⟨sum, hsum, h⟩ := bind_eq_ok_iff.mp h
    obtain rfl : 0 = sum := Except.ok.inj hsum
    split at h
    · obtain ⟨later, hlater, h⟩ := bind_eq_ok_iff.mp h
      cases h
      exact List.forall_mem_cons.mpr ⟨rfl, ih hrest hlater⟩
    · exact ih hrest h

theorem series_of_zero {count : HourRecord → UInt64} {points : List UInt64}
    (hzero : ∀ n ∈ w.records.map count, n = 0) (h : series w g count = .ok points) :
    ∀ n ∈ points, n = 0 := by
  cases g with
  | hours =>
    cases h
    exact hzero
  | days =>
    obtain ⟨hours, -, h⟩ := bind_eq_ok_iff.mp h
    exact daily_of_zero (fun p hp => hzero p.2 (List.of_mem_zip hp).2) h

theorem sumCounts_of_zero {counts : List UInt64} {n : UInt64} (hzero : ∀ m ∈ counts, m = 0)
    (h : sumCounts counts = .ok n) : n = 0 := by
  exact UInt64.toNat_inj.mp ((toNat_sumCounts h).trans (exactSum_eq_zero_iff.mpr hzero))

theorem canonical_empty : HourRecord.empty.Canonical := by
  have hnil : TopList [] := ⟨Nat.zero_le _, .nil, .nil, nofun⟩
  exact ⟨rfl, rfl, ⟨hnil, Nat.zero_le _⟩, ⟨hnil, Nat.zero_le _⟩, ⟨hnil, Nat.zero_le _⟩,
    fun _ => rfl⟩

/-- **Nothing to report.** -/
theorem blank_ofWindow (h : ofWindow w g = .ok r) (hw : ∀ record ∈ w.records, record = .empty) :
    r.Blank := by
  have hmade := madeOf_ofWindow h
  have hzero : ∀ count : HourRecord → UInt64, count .empty = 0 →
      ∀ n ∈ w.records.map count, n = 0 := by
    intro count hcount n hn
    obtain ⟨record, hrecord, rfl⟩ := List.mem_map.mp hn
    rw [hw record hrecord, hcount]
  have hqueries := sumCounts_of_zero (hzero _ rfl) hmade.totalQueries
  have hconsistent : r.Consistent := by
    refine consistent_ofWindow h fun record hrecord => ?_
    rw [hw record hrecord]
    exact canonical_empty
  have hnone : r.totalQueries.toNat = 0 := by rw [hqueries]; rfl
  obtain ⟨-, ⟨hblocked, hblockedWeight⟩, ⟨hdomains, hdomainsWeight⟩, ⟨hclients, hclientsWeight⟩,
    hidle⟩ := hconsistent
  exact {
    queries := series_of_zero (hzero _ rfl) hmade.queries
    filtered := series_of_zero (hzero _ rfl) hmade.filtered
    safeBrowsing := series_of_zero (hzero _ rfl) hmade.safeBrowsing
    parental := series_of_zero (hzero _ rfl) hmade.parental
    topLists := ⟨hdomains.eq_nil (by omega), hblocked.eq_nil (by omega),
      hclients.eq_nil (by omega)⟩
    totals := ⟨hqueries, sumCounts_of_zero (hzero _ rfl) hmade.totalFiltered,
      sumCounts_of_zero (hzero _ rfl) hmade.totalSafeBrowsing,
      sumCounts_of_zero (hzero _ rfl) hmade.totalSafeSearch,
      sumCounts_of_zero (hzero _ rfl) hmade.totalParental⟩
    meanMicros := hidle hqueries }

end Report
end QueryTally
