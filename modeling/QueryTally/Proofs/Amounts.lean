import QueryTally.Proofs.Engine.Counting
import QueryTally.Proofs.Fitting
import QueryTally.Proofs.Tally

/-! # What events add to an hour

Everything that an hour counts has an exact amount (`LiveHour.amounts`), and so has everything that
some events contribute (`contribution`), however much that is. Counting events adds the one to the
other, which comes out exactly if all amounts are words then. So it depends on the events, and not
on their order. -/

namespace QueryTally

/-! ## Amounts -/

/-- How much is counted of everything. -/
@[ext] structure Amounts where
  total : Nat
  verdict : Verdict → Nat
  /-- Summed processing time in microseconds. -/
  micros : Nat
  name : Ranking → String → Nat

namespace Amounts

instance : Add Amounts where
  add a b := {
    total := a.total + b.total
    verdict := fun v => a.verdict v + b.verdict v
    micros := a.micros + b.micros
    name := fun k name => a.name k name + b.name k name }

def none : Amounts := ⟨0, fun _ => 0, 0, fun _ _ => 0⟩

variable (a b c : Amounts)

@[simp] theorem total_add : (a + b).total = a.total + b.total := rfl

@[simp] theorem verdict_add (v : Verdict) : (a + b).verdict v = a.verdict v + b.verdict v := rfl

@[simp] theorem micros_add : (a + b).micros = a.micros + b.micros := rfl

@[simp] theorem name_add (k : Ranking) (name : String) :
    (a + b).name k name = a.name k name + b.name k name := rfl

theorem add_assoc : a + b + c = a + (b + c) := by
  ext <;> simp only [total_add, verdict_add, micros_add, name_add, Nat.add_assoc]

theorem none_add : none + a = a := by
  ext <;> exact Nat.zero_add _

structure Fits (a : Amounts) : Prop where
  total : a.total < UInt64.size
  verdict : ∀ v, a.verdict v < UInt64.size
  micros : a.micros < UInt64.size
  name : ∀ k name, a.name k name < UInt64.size

theorem Fits.left {a b : Amounts} (h : (a + b).Fits) : a.Fits where
  total := Nat.lt_of_le_of_lt (Nat.le_add_right _ _) h.total
  verdict v := Nat.lt_of_le_of_lt (Nat.le_add_right _ _) (h.verdict v)
  micros := Nat.lt_of_le_of_lt (Nat.le_add_right _ _) h.micros
  name k name := Nat.lt_of_le_of_lt (Nat.le_add_right _ _) (h.name k name)

end Amounts

def Lookup.name? (l : Lookup) : Ranking → Option String
  | .domains => if l.verdict.isBlocked then none else some l.domain
  | .blockedDomains => if l.verdict.isBlocked then some l.domain else none
  | .clients => some l.client

/-- What a lookup adds. -/
def Lookup.amounts (l : Lookup) : Amounts where
  total := 1
  verdict v := if l.verdict = v then 1 else 0
  micros := l.micros.toNat
  name k name := if l.name? k = some name then 1 else 0

namespace LiveHour

variable {u v : LiveHour} {l : Lookup}

def amounts (u : LiveHour) : Amounts where
  total := u.total.toNat
  verdict v := (u.results.get v).toNat
  micros := u.micros.toNat
  name k name := (k.tally u).countOf name

@[simp] theorem verdict_amounts (u : LiveHour) (v : Verdict) :
    u.amounts.verdict v = (u.results.get v).toNat := rfl

@[simp] theorem name_amounts (u : LiveHour) (k : Ranking) (name : String) :
    u.amounts.name k name = (k.tally u).countOf name := rfl

/-- What an hour has counted are words. -/
theorem fits_amounts (u : LiveHour) : u.amounts.Fits where
  total := u.total.toNat_lt_size
  verdict v := (u.results.get v).toNat_lt_size
  micros := u.micros.toNat_lt_size
  name k name := (((k.tally u).get? name).getD 0).toNat_lt_size

/-- Whether an hour has counted something under a name. -/
def Has (u : LiveHour) (k : Ranking) (name : String) : Prop := ((k.tally u).get? name).isSome

/-- An hour is determined by its number, what it has counted, and the names that it has. -/
theorem ext_amounts (hhour : u.hour = v.hour) (hamounts : u.amounts = v.amounts)
    (hnames : ∀ k name, u.Has k name ↔ v.Has k name) : u = v := by
  have htally : ∀ k : Ranking, k.tally u = k.tally v := fun k =>
    Tally.ext_countOf (fun name => congrArg (fun a => a.name k name) hamounts) (hnames k)
  have hresults : u.results = v.results := by
    have hget : ∀ w, u.results.get w = v.results.get w := fun w =>
      UInt64.toNat_inj.mp (congrArg (fun a => a.verdict w) hamounts)
    rw [← VerdictCounts.ofList_toList u.results, ← VerdictCounts.ofList_toList v.results]
    exact congrArg VerdictCounts.ofList (List.map_congr_left fun w _ => hget w)
  have htotal := UInt64.toNat_inj.mp (congrArg Amounts.total hamounts)
  have hmicros := UInt64.toNat_inj.mp (congrArg Amounts.micros hamounts)
  have hdomains := htally .domains
  have hblocked := htally .blockedDomains
  have hclients := htally .clients
  cases u
  cases v
  simp only [Ranking.tally] at hdomains hblocked hclients
  simp only at hhour htotal hmicros hresults
  simp only [hhour, htotal, hmicros, hresults, hdomains, hblocked, hclients]

/-! ## One lookup -/

/-- Each tally after a lookup: its name was raised, or the tally is as it was. -/
theorem tally_record (h : u.record l = .ok v) (k : Ranking) :
    (∃ name, l.name? k = some name ∧ (k.tally u).bump name 1 = .ok (k.tally v)) ∨
      l.name? k = none ∧ k.tally v = k.tally u := by
  obtain ⟨results, tally, clients, micros, total, -, htally, hclients, -, -, rfl⟩ :=
    record_eq_ok_iff.mp h
  cases k with
  | clients => exact .inl ⟨l.client, rfl, hclients⟩
  | domains =>
    cases hblocked : l.verdict.isBlocked with
    | true => exact .inr ⟨if_pos hblocked, rfl⟩
    | false =>
      rw [hblocked] at htally
      exact .inl ⟨l.domain, by simp [Lookup.name?, hblocked], htally⟩
  | blockedDomains =>
    cases hblocked : l.verdict.isBlocked with
    | false => exact .inr ⟨by simp [Lookup.name?, hblocked], rfl⟩
    | true =>
      rw [hblocked] at htally
      exact .inl ⟨l.domain, by simp [Lookup.name?, hblocked], htally⟩

/-- **Counting a lookup** adds what it contributes. -/
theorem amounts_record (h : u.record l = .ok v) : v.amounts = u.amounts + l.amounts := by
  have hadds := adds_record h
  refine Amounts.ext hadds.total (funext fun w => ?_) ?_ (funext fun k => funext fun name => ?_)
  · refine (hadds.verdict w).trans ?_
    simp only [List.countP_singleton, Lookup.amounts, Amounts.verdict_add, verdict_amounts,
      beq_iff_eq]
  · obtain ⟨results, tally, clients, micros, total, -, -, -, hmicros, -, rfl⟩ :=
      record_eq_ok_iff.mp h
    exact addCount_eq_ok_iff.mp hmicros
  · rw [Amounts.name_add, name_amounts, name_amounts]
    rcases tally_record h k with ⟨raised, hname, hbump⟩ | ⟨hname, hsame⟩
    · rw [Tally.countOf_bump (p := ⟨raised, 1⟩) hbump]
      simp [Lookup.amounts, hname]
    · simp [Lookup.amounts, hname, hsame]

/-- Counting a lookup brings in the names under which it is counted. -/
theorem has_record (h : u.record l = .ok v) (k : Ranking) (name : String) :
    v.Has k name ↔ l.name? k = some name ∨ u.Has k name := by
  unfold Has
  rcases tally_record h k with ⟨raised, hname, hbump⟩ | ⟨hname, hsame⟩
  · rw [Tally.isSome_bump hbump, hname, Option.some.injEq, eq_comm]
  · simp [hname, hsame]

/-- **When a lookup can be counted.** -/
theorem exists_record_iff : (∃ v, u.record l = .ok v) ↔ (u.amounts + l.amounts).Fits := by
  constructor
  · rintro ⟨v, hv⟩
    rw [← amounts_record hv]
    exact v.fits_amounts
  · intro hfits
    have hone : (1 : UInt64).toNat = 1 := rfl
    obtain ⟨results, hresults⟩ : ∃ results, u.results.bump l.verdict = .ok results := by
      refine exists_bind_eq_ok_iff.mpr ?_
      have hverdict := hfits.verdict l.verdict
      simp only [Amounts.verdict_add, verdict_amounts, Lookup.amounts, if_true, ← hone] at hverdict
      obtain ⟨n, hn⟩ := exists_addCount_iff.mpr hverdict
      exact ⟨n, hn, _, rfl⟩
    obtain ⟨tally, htally⟩ : ∃ tally,
        (if l.verdict.isBlocked then u.blockedDomains else u.domains).bump l.domain 1 =
          .ok tally := by
      refine Tally.exists_bump_iff.mpr ?_
      cases hblocked : l.verdict.isBlocked with
      | false =>
        have hname := hfits.name .domains l.domain
        simpa [Lookup.amounts, Lookup.name?, Ranking.tally, hblocked] using hname
      | true =>
        have hname := hfits.name .blockedDomains l.domain
        simpa [Lookup.amounts, Lookup.name?, Ranking.tally, hblocked] using hname
    obtain ⟨clients, hclients⟩ : ∃ clients, u.clients.bump l.client 1 = .ok clients := by
      refine Tally.exists_bump_iff.mpr ?_
      have hname := hfits.name .clients l.client
      simpa [Lookup.amounts, Lookup.name?, Ranking.tally] using hname
    obtain ⟨micros, hmicros⟩ := exists_addCount_iff.mpr hfits.micros
    obtain ⟨total, htotal⟩ : ∃ total, addCount u.total 1 = .ok total :=
      exists_addCount_iff.mpr hfits.total
    exact ⟨_, record_eq_ok_iff.mpr
      ⟨results, tally, clients, micros, total, hresults, htally, hclients, hmicros, htotal, rfl⟩⟩

theorem onlyAdds_record (u : LiveHour) (l : Lookup) : OnlyAdds (u.record l) := by
  have hresults : OnlyAdds (u.results.bump l.verdict) :=
    (onlyAdds_addCount _ _).bind fun _ => onlyAdds_ok _
  have hdomain : ∀ t : Tally, OnlyAdds (t.bump l.domain 1) := fun t => t.onlyAdds_bump _ _
  have hrest : ∀ finish : Tally → UInt64 → UInt64 → LiveHour, OnlyAdds (do
      let clients ← u.clients.bump l.client 1
      let micros ← addCount u.micros l.micros
      let total ← addCount u.total 1
      return finish clients micros total) := by
    intro finish
    refine (u.clients.onlyAdds_bump _ _).bind fun clients => ?_
    refine (onlyAdds_addCount _ _).bind fun micros => ?_
    exact (onlyAdds_addCount _ _).bind fun total => onlyAdds_ok _
  unfold record
  refine hresults.bind fun results => ?_
  cases l.verdict.isBlocked with
  | false => exact (hdomain _).bind fun domains => hrest _
  | true => exact (hdomain _).bind fun blockedDomains => hrest _

end LiveHour

/-! ## Events -/

namespace Event

variable {e : Event} {l : Lookup}

/-- An event that counts: it has a verdict, a domain, and an address for its client. -/
def Valid (e : Event) : Prop :=
  e.verdict ≠ none ∧ e.domain ≠ "" ∧ (e.client.length = 4 ∨ e.client.length = 16)

instance (e : Event) : Decidable e.Valid := inferInstanceAs (Decidable (_ ∧ _))

def name? (e : Event) : Ranking → Option String
  | .domains => if e.verdict = some .notFiltered then some e.domain else none
  | .blockedDomains => if e.verdict = some .notFiltered then none else some e.domain
  | .clients => e.clientText?

theorem lookup?_eq_none_iff : e.lookup? = none ↔ ¬ e.Valid := by
  have hsome : e.lookup? ≠ none ↔ ∃ v, e.lookup?.map (·.verdict) = some v := by
    cases e.lookup? <;> simp
  rw [← not_iff_not, not_not, ← ne_eq, hsome]
  simp only [lookup?_verdict_iff, exists_and_right, Valid, Option.ne_none_iff_exists']

/-- What an event that counts is counted as. -/
theorem eq_of_lookup? (h : e.lookup? = some l) :
    e.Valid ∧ e.verdict = some l.verdict ∧ e.micros = l.micros ∧
      ∀ k, e.name? k = l.name? k := by
  have hvalid : e.Valid := by
    refine Decidable.byContradiction fun hn => ?_
    rw [lookup?_eq_none_iff.mpr hn] at h
    cases h
  unfold lookup? at h
  split at h
  · rename_i verdict client hverdict hclient
    split at h
    · cases h
    · cases h
      refine ⟨hvalid, hverdict, rfl, fun k => ?_⟩
      cases k <;> cases verdict <;> simp [name?, Lookup.name?, hverdict, hclient, Verdict.isBlocked]
  · cases h

/-- What an event adds: nothing if it does not count. -/
def amounts (e : Event) : Amounts := (e.lookup?.map Lookup.amounts).getD .none

end Event

/-- **What events contribute.** Those that count do so in all, by verdict, by their time, and by
name. -/
def contribution (events : List Event) : Amounts where
  total := events.countP fun e => decide e.Valid
  verdict v := events.countP fun e => decide (e.Valid ∧ e.verdict = some v)
  micros := exactSum ((events.filter fun e => decide e.Valid).map (·.micros))
  name k name := events.countP fun e => decide (e.Valid ∧ e.name? k = some name)

theorem contribution_cons (e : Event) (events : List Event) :
    contribution (e :: events) = e.amounts + contribution events := by
  cases hl : e.lookup? with
  | none =>
    have hvalid := Event.lookup?_eq_none_iff.mp hl
    have hnone : e.amounts = .none := by rw [Event.amounts, hl]; rfl
    rw [hnone]
    refine Amounts.ext ?_ (funext fun v => ?_) ?_ (funext fun k => funext fun name => ?_) <;>
      simp [contribution, hvalid, Amounts.none]
  | some l =>
    obtain ⟨hvalid, hverdict, hmicros, hname⟩ := Event.eq_of_lookup? hl
    have hsome : e.amounts = l.amounts := by rw [Event.amounts, hl]; rfl
    rw [hsome]
    refine Amounts.ext ?_ (funext fun v => ?_) ?_ (funext fun k => funext fun name => ?_)
    · simp [contribution, hvalid, Lookup.amounts, Nat.add_comm]
    · simp [contribution, List.countP_cons, hvalid, hverdict, Lookup.amounts, Nat.add_comm]
    · simp [contribution, hvalid, hmicros, Lookup.amounts]
    · simp [contribution, List.countP_cons, hvalid, hname, Lookup.amounts, Nat.add_comm]

/-- The order of events does not matter to what they contribute. -/
theorem contribution_perm {events others : List Event} (h : events.Perm others) :
    contribution events = contribution others :=
  Amounts.ext (h.countP_eq _) (funext fun _ => h.countP_eq _) (exactSum_perm ((h.filter _).map _))
    (funext fun _ => funext fun _ => h.countP_eq _)

/-- Events that do not count contribute nothing. -/
theorem contribution_filter (events : List Event) :
    contribution (events.filter fun e => decide e.Valid) = contribution events := by
  have hcount : ∀ p : Event → Prop, ∀ _ : DecidablePred p,
      (events.filter fun e => decide e.Valid).countP (fun e => decide (e.Valid ∧ p e)) =
        events.countP fun e => decide (e.Valid ∧ p e) := by
    intro p _
    rw [List.countP_filter]
    refine List.countP_congr fun e _ => ?_
    simp only [Bool.and_eq_true, decide_eq_true_eq]
    exact and_iff_left_of_imp And.left
  refine Amounts.ext ?_ (funext fun v => hcount _ _) ?_
    (funext fun k => funext fun name => hcount _ _)
  · simp [contribution, List.countP_filter]
  · simp [contribution, List.filter_filter]

/-- There are no more of a verdict, or of a name, than events that count. -/
theorem contribution_le_total (events : List Event) :
    (∀ v, (contribution events).verdict v ≤ (contribution events).total) ∧
      ∀ k name, (contribution events).name k name ≤ (contribution events).total := by
  have hle : ∀ (p : Event → Prop) [DecidablePred p],
      events.countP (fun e => decide (e.Valid ∧ p e)) ≤ events.countP fun e => decide e.Valid := by
    intro p _
    refine List.countP_mono_left fun e _ h => ?_
    exact decide_eq_true (of_decide_eq_true h).1
  exact ⟨fun v => hle _, fun k name => hle _⟩

namespace LiveHour

variable {u v w : LiveHour} {e : Event} {events others : List Event}

def ingestAll (u : LiveHour) (events : List Event) : Checked LiveHour := events.foldlM ingest u

theorem exists_ingest_iff : (∃ v, u.ingest e = .ok v) ↔ (u.amounts + e.amounts).Fits := by
  unfold ingest Event.amounts
  cases e.lookup? with
  | none => exact iff_of_true ⟨u, rfl⟩ u.fits_amounts
  | some l => exact exists_record_iff

theorem amounts_ingest (h : u.ingest e = .ok v) : v.amounts = u.amounts + e.amounts := by
  unfold ingest at h
  unfold Event.amounts
  cases hl : e.lookup? with
  | none =>
    rw [hl] at h
    cases h
    rfl
  | some l =>
    rw [hl] at h
    exact amounts_record h

theorem has_ingest (h : u.ingest e = .ok v) (k : Ranking) (name : String) :
    v.Has k name ↔ 0 < e.amounts.name k name ∨ u.Has k name := by
  unfold ingest at h
  unfold Event.amounts
  cases hl : e.lookup? with
  | none =>
    rw [hl] at h
    cases h
    exact (or_iff_right (Nat.lt_irrefl 0)).symm
  | some l =>
    rw [hl] at h
    rw [has_record h]
    by_cases hname : l.name? k = some name <;> simp [Lookup.amounts, hname]

theorem hour_ingest (h : u.ingest e = .ok v) : v.hour = u.hour :=
  (adds_recordAll (recordAll_of_ingest h)).hour

theorem onlyAdds_ingestAll (u : LiveHour) (events : List Event) : OnlyAdds (u.ingestAll events) := by
  refine OnlyAdds.foldlM (fun u e => ?_) u events
  unfold ingest
  cases e.lookup? with
  | none => exact onlyAdds_ok u
  | some l => exact u.onlyAdds_record l

/-- **When events can be counted.** -/
theorem exists_ingestAll_iff :
    (∃ v, u.ingestAll events = .ok v) ↔ (u.amounts + contribution events).Fits := by
  induction events generalizing u with
  | nil => exact iff_of_true ⟨u, rfl⟩ u.fits_amounts
  | cons e events ih =>
    rw [ingestAll, List.foldlM_cons, exists_bind_eq_ok_iff, contribution_cons,
      ← Amounts.add_assoc]
    constructor
    · rintro ⟨v, hv, hrest⟩
      rw [← amounts_ingest hv]
      exact ih.mp hrest
    · intro hfits
      obtain ⟨v, hv⟩ := exists_ingest_iff.mpr hfits.left
      rw [← amounts_ingest hv] at hfits
      exact ⟨v, hv, ih.mpr hfits⟩

/-- **What was counted** once events were: what there was, and what they contribute. -/
theorem amounts_ingestAll (h : u.ingestAll events = .ok w) :
    w.hour = u.hour ∧ w.amounts = u.amounts + contribution events ∧
      ∀ k name, w.Has k name ↔ 0 < (contribution events).name k name ∨ u.Has k name := by
  induction events generalizing u with
  | nil =>
    cases h
    exact ⟨rfl, rfl, fun k name => (or_iff_right (Nat.lt_irrefl 0)).symm⟩
  | cons e events ih =>
    rw [ingestAll, List.foldlM_cons] at h
    obtain ⟨v, hv, h⟩ := bind_eq_ok_iff.mp h
    obtain ⟨hhour, hamounts, hnames⟩ := ih h
    rw [contribution_cons, ← Amounts.add_assoc, ← amounts_ingest hv]
    refine ⟨hhour.trans (hour_ingest hv), hamounts, fun k name => ?_⟩
    rw [hnames, has_ingest hv, Amounts.name_add, or_left_comm, ← or_assoc, Nat.add_pos_iff_pos_or_pos]

/-- Events that contribute the same are counted alike. -/
theorem ingestAll_congr (hsame : contribution others = contribution events) :
    u.ingestAll others = u.ingestAll events := by
  by_cases hfits : (u.amounts + contribution events).Fits
  · obtain ⟨v, hv⟩ := exists_ingestAll_iff.mpr hfits
    obtain ⟨w, hw⟩ := exists_ingestAll_iff.mpr (hsame ▸ hfits)
    obtain ⟨hvhour, hvamounts, hvnames⟩ := amounts_ingestAll hv
    obtain ⟨hwhour, hwamounts, hwnames⟩ := amounts_ingestAll hw
    have heq : w = v := by
      refine ext_amounts (hwhour.trans hvhour.symm) ?_ fun k name => ?_
      · rw [hwamounts, hvamounts, hsame]
      · rw [hwnames, hvnames, hsame]
    rw [hv, hw, heq]
  · rw [(u.onlyAdds_ingestAll events).eq_error (mt exists_ingestAll_iff.mp hfits),
      (u.onlyAdds_ingestAll others).eq_error (mt exists_ingestAll_iff.mp (hsame ▸ hfits))]

/-- An hour that begins with nothing overflows in its total or its time, if at all. -/
theorem fits_start_iff (hour : Hour) : ((start hour).amounts + contribution events).Fits ↔
    (contribution events).total < UInt64.size ∧ (contribution events).micros < UInt64.size := by
  have hstart : (start hour).amounts = .none := by
    refine Amounts.ext rfl (funext fun v => ?_) rfl (funext fun k => funext fun name => ?_)
    · cases v <;> rfl
    · cases k <;> rfl
  rw [hstart, Amounts.none_add]
  obtain ⟨hverdict, hname⟩ := contribution_le_total events
  constructor
  · exact fun hfits => ⟨hfits.total, hfits.micros⟩
  · rintro ⟨htotal, hmicros⟩
    exact {
      total := htotal
      verdict := fun v => Nat.lt_of_le_of_lt (hverdict v) htotal
      micros := hmicros
      name := fun k name => Nat.lt_of_le_of_lt (hname k name) htotal }

end LiveHour
end QueryTally
