import QueryTally.Proofs.Arising
import QueryTally.Proofs.Report

/-! # Balanced hours

Each lookup raises the counter of its verdict, and one name in two of the tallies, by one. So
the tallies of an hour weigh as much as its counters say, until the hour is taken up again from
a record that has only the top of them; from then on they may weigh less. -/

namespace QueryTally

namespace LiveHour

/-- The number of lookups of an hour that were held back. -/
def blocked (u : LiveHour) : Nat :=
  (u.results.get .filtered).toNat + (u.results.get .safeBrowsing).toNat +
    (u.results.get .safeSearch).toNat + (u.results.get .parental).toNat

structure Counted (u : LiveHour) : Prop where
  domains : ∀ p ∈ u.domains.pairs, p.Counted
  blockedDomains : ∀ p ∈ u.blockedDomains.pairs, p.Counted
  clients : ∀ p ∈ u.clients.pairs, p.Counted

/-- An hour whose tallies weigh at most as much as its counters say, and just as much if it was
never taken up again. -/
structure Balanced (again : Bool) (u : LiveHour) : Prop where
  total : u.total.toNat = (u.results.get .notFiltered).toNat + u.blocked
  domains : weight u.domains.pairs ≤ (u.results.get .notFiltered).toNat ∧
    (again = false → weight u.domains.pairs = (u.results.get .notFiltered).toNat)
  blockedDomains : weight u.blockedDomains.pairs ≤ u.blocked ∧
    (again = false → weight u.blockedDomains.pairs = u.blocked)
  clients : weight u.clients.pairs ≤ u.total.toNat ∧
    (again = false → weight u.clients.pairs = u.total.toNat)
  counted : u.Counted

variable {again : Bool} {ks : List Lookup} {u v : LiveHour} {l : Lookup}

/-- A lookup raises either the counter of those that were passed on, or one of the others. -/
theorem blocked_record (hv : u.record l = .ok v) :
    (v.results.get .notFiltered).toNat =
        (u.results.get .notFiltered).toNat + (if l.verdict.isBlocked then 0 else 1) ∧
      v.blocked = u.blocked + (if l.verdict.isBlocked then 1 else 0) := by
  have hget := (adds_record hv).verdict
  simp only [List.countP_singleton] at hget
  simp only [blocked, hget]
  cases l.verdict <;> simp [Verdict.isBlocked] <;> omega

/-- A lookup raises its client, and its domain in one of two tallies. -/
theorem tallies_record (hv : u.record l = .ok v) :
    u.clients.bump l.client 1 = .ok v.clients ∧
      (l.verdict.isBlocked = false ∧ u.domains.bump l.domain 1 = .ok v.domains ∧
          v.blockedDomains = u.blockedDomains ∨
        l.verdict.isBlocked = true ∧ u.blockedDomains.bump l.domain 1 = .ok v.blockedDomains ∧
          v.domains = u.domains) := by
  obtain ⟨results, tally, clients, micros, total, -, htally, hclients, -, -, rfl⟩ :=
    record_eq_ok_iff.mp hv
  refine ⟨hclients, ?_⟩
  cases hverdict : l.verdict.isBlocked with
  | false =>
    rw [hverdict] at htally
    exact .inl ⟨rfl, htally, rfl⟩
  | true =>
    rw [hverdict] at htally
    exact .inr ⟨rfl, htally, rfl⟩

/-- **Counting a lookup.** -/
theorem Balanced.record (h : Balanced again u) (hl : l.Proper) (hv : u.record l = .ok v) :
    Balanced again v := by
  obtain ⟨htotal, ⟨hdomains, hdomains'⟩, ⟨hblocked, hblocked'⟩, ⟨hclients, hclients'⟩,
    hcounted⟩ := h
  obtain ⟨hpassed, hheld⟩ := blocked_record hv
  obtain ⟨hclient, hdomain⟩ := tallies_record hv
  have hraised : v.total.toNat = u.total.toNat + 1 := (adds_record hv).total
  have hone : (1 : UInt64).toNat = 1 := rfl
  have hclientWeight := Tally.weight_bump hclient
  have hclientCounted := Tally.counted_bump hclient hl.client.1 (by decide) hcounted.clients
  rcases hdomain with ⟨hverdict, hbump, hsame⟩ | ⟨hverdict, hbump, hsame⟩
  · have hweight := Tally.weight_bump hbump
    have hnew := Tally.counted_bump hbump hl.domain.1 (by decide) hcounted.domains
    simp only [hverdict, Bool.false_eq_true, if_false] at hpassed hheld
    refine ⟨by omega, ⟨by omega, fun hagain => ?_⟩, ⟨by rw [hsame]; omega, fun hagain => ?_⟩,
      ⟨by omega, fun hagain => ?_⟩, ⟨hnew, hsame ▸ hcounted.blockedDomains, hclientCounted⟩⟩
    · have := hdomains' hagain
      omega
    · have := hblocked' hagain
      rw [hsame]
      omega
    · have := hclients' hagain
      omega
  · have hweight := Tally.weight_bump hbump
    have hnew := Tally.counted_bump hbump hl.domain.1 (by decide) hcounted.blockedDomains
    simp only [hverdict, if_true] at hpassed hheld
    refine ⟨by omega, ⟨by rw [hsame]; omega, fun hagain => ?_⟩, ⟨by omega, fun hagain => ?_⟩,
      ⟨by omega, fun hagain => ?_⟩, ⟨hsame ▸ hcounted.domains, hnew, hclientCounted⟩⟩
    · have := hdomains' hagain
      rw [hsame]
      omega
    · have := hblocked' hagain
      omega
    · have := hclients' hagain
      omega

/-- **Taking an hour up again.** The tallies have what was kept of them. -/
theorem Balanced.resumed (h : Balanced again u) (hv : ofRecord u.hour u.toRecord = .ok v) :
    Balanced true v := by
  obtain ⟨micros, -, rfl⟩ := ofRecord_eq_ok_iff.mp hv
  have hkept : ∀ t : Tally, weight (Tally.ofPairs (t.top topLimit)).pairs ≤ weight t.pairs := by
    intro t
    rw [Tally.weight_ofPairs (t.nodup_names_top topLimit)]
    exact t.weight_top_le topLimit
  have hmem : ∀ t : Tally, (∀ p ∈ t.pairs, p.Counted) →
      ∀ p ∈ (Tally.ofPairs (t.top topLimit)).pairs, p.Counted :=
    fun t ht p hp => ht p (Tally.mem_of_mem_top (Tally.mem_ofPairs hp))
  refine ⟨h.total, ⟨Nat.le_trans (hkept _) h.domains.1, nofun⟩,
    ⟨Nat.le_trans (hkept _) h.blockedDomains.1, nofun⟩,
    ⟨Nat.le_trans (hkept _) h.clients.1, nofun⟩, ?_⟩
  exact ⟨hmem _ h.counted.domains, hmem _ h.counted.blockedDomains, hmem _ h.counted.clients⟩

/-- **Balance.** -/
theorem Arises.balanced (h : Arises again ks u) : Balanced again u := by
  induction h with
  | start hour =>
    exact ⟨rfl, ⟨Nat.le_refl _, fun _ => rfl⟩, ⟨Nat.le_refl _, fun _ => rfl⟩,
      ⟨Nat.le_refl _, fun _ => rfl⟩, ⟨nofun, nofun, nofun⟩⟩
  | counted h hl hv ih => exact ih.record hl hv
  | resumed h hv ih => exact ih.resumed hv

theorem blocked_toRecord (u : LiveHour) : u.toRecord.blocked = u.blocked := by
  simp only [HourRecord.blocked, blocked, count_toRecord]

/-- **Reducing a balanced hour.** -/
theorem Balanced.canonical (h : Balanced again u) : u.toRecord.Canonical where
  results := rfl
  total := by
    have htotal := h.total
    rw [blocked] at htotal
    change (u.results.get .notFiltered).toNat + ((u.results.get .filtered).toNat +
      ((u.results.get .safeBrowsing).toNat + ((u.results.get .safeSearch).toNat +
        ((u.results.get .parental).toNat + 0)))) = u.total.toNat
    omega
  domains := by
    rw [count_toRecord]
    exact ⟨Tally.topList_top h.counted.domains,
      Nat.le_trans (Tally.weight_top_le _ _) h.domains.1⟩
  blockedDomains := by
    rw [blocked_toRecord]
    exact ⟨Tally.topList_top h.counted.blockedDomains,
      Nat.le_trans (Tally.weight_top_le _ _) h.blockedDomains.1⟩
  clients := ⟨Tally.topList_top h.counted.clients,
    Nat.le_trans (Tally.weight_top_le _ _) h.clients.1⟩
  idle := fun hzero => if_pos hzero

/-- The lists of a record that leaves no name out of them, and of an hour that was never taken
up again, weigh as much as the counters say. -/
structure Exact (u : LiveHour) : Prop where
  domains : u.domains.pairs.length ≤ topLimit →
    weight u.toRecord.domains = (u.toRecord.count .notFiltered).toNat
  blockedDomains : u.blockedDomains.pairs.length ≤ topLimit →
    weight u.toRecord.blockedDomains = u.toRecord.blocked
  clients : u.clients.pairs.length ≤ topLimit →
    weight u.toRecord.clients = u.toRecord.total.toNat

theorem Balanced.exact (h : Balanced false u) : u.Exact where
  domains hall := by
    rw [count_toRecord]
    exact (Tally.weight_top_of_length_le hall).trans (h.domains.2 rfl)
  blockedDomains hall := by
    rw [blocked_toRecord]
    exact (Tally.weight_top_of_length_le hall).trans (h.blockedDomains.2 rfl)
  clients hall := (Tally.weight_top_of_length_le hall).trans (h.clients.2 rfl)

end LiveHour
end QueryTally
