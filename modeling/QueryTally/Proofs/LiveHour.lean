import QueryTally.LiveHour
import QueryTally.Proofs.Address
import QueryTally.Proofs.TopList

/-! # Reducing an hour and taking it up again

An hour can always be taken up again from its own record, and its record is then the same:
the mean times the total is at most the summed time, and a top list is its own top list.
Counting a lookup raises the total and one counter, and adds only names that fit. -/

namespace QueryTally

structure HourRecord.Counts (r : HourRecord) (ks : List Lookup) : Prop where
  total : r.total.toNat = ks.length
  verdict : ∀ v, (r.count v).toNat = ks.countP (·.verdict == v)

theorem HourRecord.counts_empty : HourRecord.empty.Counts [] :=
  ⟨rfl, fun v => by cases v <;> rfl⟩

namespace LiveHour

structure NamesFit (u : LiveHour) : Prop where
  domains : ∀ p ∈ u.domains.pairs, TextFits p.name
  blockedDomains : ∀ p ∈ u.blockedDomains.pairs, TextFits p.name
  clients : ∀ p ∈ u.clients.pairs, TextFits p.name

theorem namesFit_start (hour : Hour) : (start hour).NamesFit := ⟨nofun, nofun, nofun⟩

/-- The top list of a tally with names that fit. -/
theorem pairsFit_top {t : Tally} (h : ∀ p ∈ t.pairs, TextFits p.name) :
    PairsFit (t.top topLimit) := by
  refine ⟨Nat.lt_of_le_of_lt (t.length_top_le topLimit) (by decide), ?_⟩
  exact fun p hp => h p (Tally.mem_of_mem_top hp)

theorem toRecord_fits {u : LiveHour} (h : u.NamesFit) : u.toRecord.Fits where
  results := by
    change u.results.toList.length < UInt64.size
    simp only [VerdictCounts.toList, List.length_map]
    decide
  domains := pairsFit_top h.domains
  blockedDomains := pairsFit_top h.blockedDomains
  clients := pairsFit_top h.clients

/-- An hour in which nothing was counted has the empty record. -/
theorem toRecord_start (hour : Hour) : (start hour).toRecord = HourRecord.empty := by
  have htop : Tally.empty.top topLimit = [] := by
    rw [Tally.top_eq_take]
    have := (Tally.ranked_perm Tally.empty.pairs).length_eq
    rw [List.length_eq_zero_iff.mp (this.trans rfl), List.take_nil]
  have hblank : Tally.top (start hour).domains topLimit = [] ∧
      Tally.top (start hour).blockedDomains topLimit = [] ∧
      Tally.top (start hour).clients topLimit = [] := ⟨htop, htop, htop⟩
  obtain ⟨hd, hb, hc⟩ := hblank
  simp only [toRecord, hd, hb, hc]
  rfl

theorem count_toRecord (u : LiveHour) (v : Verdict) :
    u.toRecord.count v = u.results.get v := by
  cases v <;> rfl

/-- What taking an hour up again gives, if the product of mean and total fits. -/
theorem ofRecord_eq_ok_iff {hour : Hour} {r : HourRecord} {u : LiveHour} :
    ofRecord hour r = .ok u ↔ ∃ micros, mulCount r.meanMicros r.total = .ok micros ∧
      u = { hour, total := r.total, results := VerdictCounts.ofList r.results, micros
            domains := Tally.ofPairs r.domains
            blockedDomains := Tally.ofPairs r.blockedDomains
            clients := Tally.ofPairs r.clients } := by
  refine bind_eq_ok_iff.trans (exists_congr fun micros => and_congr_right fun _ => ?_)
  exact pure_eq_ok_iff.trans eq_comm

theorem hour_ofRecord {hour : Hour} {r : HourRecord} {u : LiveHour}
    (h : ofRecord hour r = .ok u) : u.hour = hour := by
  obtain ⟨_, _, rfl⟩ := ofRecord_eq_ok_iff.mp h
  rfl

theorem namesFit_ofRecord {hour : Hour} {r : HourRecord} {u : LiveHour} (hr : r.Fits)
    (h : ofRecord hour r = .ok u) : u.NamesFit := by
  obtain ⟨_, _, rfl⟩ := ofRecord_eq_ok_iff.mp h
  exact ⟨fun p hp => hr.domains.2 p (Tally.mem_ofPairs hp),
    fun p hp => hr.blockedDomains.2 p (Tally.mem_ofPairs hp),
    fun p hp => hr.clients.2 p (Tally.mem_ofPairs hp)⟩

/-- An hour that is taken up again has the counters of its record. -/
theorem counts_ofRecord {hour : Hour} {r : HourRecord} {u : LiveHour} {ks : List Lookup}
    (hr : r.Counts ks) (h : ofRecord hour r = .ok u) : u.toRecord.Counts ks := by
  obtain ⟨_, _, rfl⟩ := ofRecord_eq_ok_iff.mp h
  refine ⟨hr.total, fun v => ?_⟩
  rw [count_toRecord, VerdictCounts.get_ofList]
  exact hr.verdict v

/-- The mean times the total is at most the summed time. -/
theorem toNat_meanMicros_mul_le (u : LiveHour) :
    u.meanMicros.toNat * u.total.toNat ≤ u.micros.toNat := by
  unfold meanMicros
  split
  · rename_i h
    rw [h]
    exact Nat.zero_le _
  · rw [UInt64.toNat_div]
    exact Nat.div_mul_le_self _ _

/-- **Taking up a reduced hour.** It always succeeds, and the record is the same again. -/
theorem ofRecord_toRecord (hour : Hour) (u : LiveHour) :
    ∃ v, ofRecord hour u.toRecord = .ok v ∧ v.toRecord = u.toRecord := by
  have hlt : u.meanMicros.toNat * u.total.toNat < UInt64.size :=
    Nat.lt_of_le_of_lt u.toNat_meanMicros_mul_le u.micros.toNat_lt_size
  obtain ⟨micros, hmul⟩ : ∃ micros, mulCount u.meanMicros u.total = .ok micros :=
    ⟨u.meanMicros * u.total, if_pos hlt⟩
  refine ⟨_, ofRecord_eq_ok_iff.mpr ⟨micros, hmul, rfl⟩, ?_⟩
  have hmean : (if u.total = 0 then 0 else micros / u.total) = u.meanMicros := by
    split
    · rename_i h
      exact (if_pos h).symm
    · rename_i h
      have hpos : 0 < u.total.toNat := Nat.pos_of_ne_zero fun h0 => h (UInt64.toNat_inj.mp h0)
      apply UInt64.toNat_inj.mp
      rw [UInt64.toNat_div, mulCount_eq_ok_iff.mp hmul, Nat.mul_div_cancel _ hpos]
  simp only [toRecord, meanMicros, Tally.top_ofPairs_top, VerdictCounts.ofList_toList]
  exact congrArg (HourRecord.mk _ _ _ _ _) hmean

theorem pairs_bump {t t' : Tally} {name : String} {n : UInt64} (h : t.bump name n = .ok t')
    (hname : TextFits name) (ht : ∀ p ∈ t.pairs, TextFits p.name) :
    ∀ p ∈ t'.pairs, TextFits p.name := by
  obtain ⟨total, -, h⟩ := bind_eq_ok_iff.mp h
  obtain rfl := pure_eq_ok_iff.mp h
  intro p hp
  rcases Tally.mem_set hp with rfl | hp
  · exact hname
  · exact ht p hp

/-- Counting a lookup, with the tally that its domain goes to singled out. -/
theorem record_eq_ok_iff {u v : LiveHour} {l : Lookup} :
    u.record l = .ok v ↔ ∃ results tally clients micros total,
      u.results.bump l.verdict = .ok results ∧
      (if l.verdict.isBlocked then u.blockedDomains else u.domains).bump l.domain 1 = .ok tally ∧
      u.clients.bump l.client 1 = .ok clients ∧ addCount u.micros l.micros = .ok micros ∧
      addCount u.total 1 = .ok total ∧
      v = { u with
        total, results, micros, clients
        domains := if l.verdict.isBlocked then u.domains else tally
        blockedDomains := if l.verdict.isBlocked then tally else u.blockedDomains } := by
  unfold record
  cases l.verdict.isBlocked with
  | false =>
    constructor
    · intro h
      obtain ⟨results, hresults, h⟩ := bind_eq_ok_iff.mp h
      obtain ⟨tally, htally, h⟩ := bind_eq_ok_iff.mp h
      obtain ⟨blocked, hblocked, h⟩ := bind_eq_ok_iff.mp h
      obtain rfl := pure_eq_ok_iff.mp hblocked
      obtain ⟨clients, hclients, h⟩ := bind_eq_ok_iff.mp h
      obtain ⟨micros, hmicros, h⟩ := bind_eq_ok_iff.mp h
      obtain ⟨total, htotal, h⟩ := bind_eq_ok_iff.mp h
      exact ⟨results, tally, clients, micros, total, hresults, htally, hclients, hmicros,
        htotal, (pure_eq_ok_iff.mp h).symm⟩
    · rintro ⟨results, tally, clients, micros, total, h₁, h₂, h₃, h₄, h₅, rfl⟩
      refine bind_eq_ok_iff.mpr ⟨results, h₁, bind_eq_ok_iff.mpr ⟨tally, h₂, ?_⟩⟩
      refine bind_eq_ok_iff.mpr ⟨u.blockedDomains, rfl, bind_eq_ok_iff.mpr ⟨clients, h₃, ?_⟩⟩
      exact bind_eq_ok_iff.mpr ⟨micros, h₄, bind_eq_ok_iff.mpr ⟨total, h₅, rfl⟩⟩
  | true =>
    constructor
    · intro h
      obtain ⟨results, hresults, h⟩ := bind_eq_ok_iff.mp h
      obtain ⟨passed, hpassed, h⟩ := bind_eq_ok_iff.mp h
      obtain rfl := pure_eq_ok_iff.mp hpassed
      obtain ⟨tally, htally, h⟩ := bind_eq_ok_iff.mp h
      obtain ⟨clients, hclients, h⟩ := bind_eq_ok_iff.mp h
      obtain ⟨micros, hmicros, h⟩ := bind_eq_ok_iff.mp h
      obtain ⟨total, htotal, h⟩ := bind_eq_ok_iff.mp h
      exact ⟨results, tally, clients, micros, total, hresults, htally, hclients, hmicros,
        htotal, (pure_eq_ok_iff.mp h).symm⟩
    · rintro ⟨results, tally, clients, micros, total, h₁, h₂, h₃, h₄, h₅, rfl⟩
      refine bind_eq_ok_iff.mpr ⟨results, h₁, bind_eq_ok_iff.mpr ⟨u.domains, rfl, ?_⟩⟩
      refine bind_eq_ok_iff.mpr ⟨tally, h₂, bind_eq_ok_iff.mpr ⟨clients, h₃, ?_⟩⟩
      exact bind_eq_ok_iff.mpr ⟨micros, h₄, bind_eq_ok_iff.mpr ⟨total, h₅, rfl⟩⟩

/-- An hour after some lookups more were counted in it. -/
structure Adds (u : LiveHour) (ks : List Lookup) (v : LiveHour) : Prop where
  hour : v.hour = u.hour
  total : v.total.toNat = u.total.toNat + ks.length
  verdict : ∀ w, (v.results.get w).toNat =
    (u.results.get w).toNat + ks.countP (·.verdict == w)
  namesFit : (∀ l ∈ ks, TextFits l.domain ∧ TextFits l.client) → u.NamesFit → v.NamesFit

theorem Adds.refl (u : LiveHour) : Adds u [] u := ⟨rfl, rfl, fun _ => rfl, fun _ h => h⟩

theorem Adds.trans {u v w : LiveHour} {ks ls : List Lookup} (h : Adds u ks v)
    (k : Adds v ls w) : Adds u (ks ++ ls) w where
  hour := k.hour.trans h.hour
  total := by rw [k.total, h.total, List.length_append, Nat.add_assoc]
  verdict x := by rw [k.verdict, h.verdict, List.countP_append, Nat.add_assoc]
  namesFit hfit hu := by
    have hks := h.namesFit (fun l hl => hfit l (List.mem_append_left _ hl)) hu
    exact k.namesFit (fun l hl => hfit l (List.mem_append_right _ hl)) hks

/-- The record of an hour counts what the hour has counted. -/
theorem Adds.counts {u v : LiveHour} {ks ls : List Lookup} (h : Adds u ks v)
    (hu : u.toRecord.Counts ls) : v.toRecord.Counts (ls ++ ks) where
  total := by
    have hu : u.total.toNat = ls.length := hu.total
    change v.total.toNat = _
    rw [h.total, hu, List.length_append]
  verdict w := by
    have hu := hu.verdict w
    rw [count_toRecord] at hu ⊢
    rw [h.verdict, hu, List.countP_append]

theorem adds_record {u v : LiveHour} {l : Lookup} (h : u.record l = .ok v) : Adds u [l] v := by
  obtain ⟨results, tally, clients, micros, total, hresults, htally, hclients, -, htotal, rfl⟩ :=
    record_eq_ok_iff.mp h
  refine ⟨rfl, addCount_eq_ok_iff.mp htotal, ?_, ?_⟩
  · obtain ⟨n, hn, hset⟩ := bind_eq_ok_iff.mp hresults
    obtain rfl := pure_eq_ok_iff.mp hset
    intro w
    rw [VerdictCounts.get_set, List.countP_singleton]
    by_cases hw : w = l.verdict
    · subst hw
      rw [if_pos rfl, addCount_eq_ok_iff.mp hn]
      simp
    · rw [if_neg hw, if_neg (by simpa using Ne.symm hw), Nat.add_zero]
  · intro hfit hu
    obtain ⟨hdomain, hclient⟩ := hfit l List.mem_cons_self
    have hcs := pairs_bump hclients hclient hu.clients
    cases hb : l.verdict.isBlocked with
    | false =>
      rw [hb] at htally
      exact ⟨pairs_bump htally hdomain hu.domains, hu.blockedDomains, hcs⟩
    | true =>
      rw [hb] at htally
      exact ⟨hu.domains, pairs_bump htally hdomain hu.blockedDomains, hcs⟩

def recordAll (u : LiveHour) (ks : List Lookup) : Checked LiveHour := ks.foldlM record u

theorem recordAll_append {u v w : LiveHour} {ks ls : List Lookup} (h : u.recordAll ks = .ok v)
    (k : v.recordAll ls = .ok w) : u.recordAll (ks ++ ls) = .ok w := by
  rw [recordAll, List.foldlM_append]
  exact bind_eq_ok_iff.mpr ⟨v, h, k⟩

theorem adds_recordAll {u v : LiveHour} {ks : List Lookup} (h : u.recordAll ks = .ok v) :
    Adds u ks v := by
  induction ks generalizing u with
  | nil =>
    cases h
    exact Adds.refl _
  | cons l ks ih =>
    rw [recordAll, List.foldlM_cons] at h
    obtain ⟨w, hw, h⟩ := bind_eq_ok_iff.mp h
    exact (adds_record hw).trans (ih h)

/-- An event is counted as what it counts as, if it counts. -/
theorem recordAll_of_ingest {u v : LiveHour} {e : Event} (h : u.ingest e = .ok v) :
    u.recordAll e.lookup?.toList = .ok v := by
  unfold ingest at h
  split at h
  · rename_i l hl
    rw [hl]
    exact bind_eq_ok_iff.mpr ⟨v, h, rfl⟩
  · rename_i hl
    rw [hl]
    exact h

end LiveHour

/-- A lookup has the domain of its event, and the text of an address for its client. -/
theorem Event.textFits_of_lookup? {e : Event} {l : Lookup} (h : e.lookup? = some l)
    (he : TextFits e.domain) : TextFits l.domain ∧ TextFits l.client := by
  unfold Event.lookup? at h
  split at h
  · rename_i v client _ hclient
    split at h
    · cases h
    · cases h
      exact ⟨he, Address.textFits_of_text? hclient⟩
  · cases h

end QueryTally
