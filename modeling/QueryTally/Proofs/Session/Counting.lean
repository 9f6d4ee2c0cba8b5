import QueryTally.Proofs.Session.Runs

/-! # Counts over runs

Along a run that starts without a database and never sets its clock back, the books stand for
the ledger of what was counted: whatever the order of the steps, the record of an hour that no
purge can have reached has the counters of the lookups that were counted in it. It is in memory
while the hour is live, in the table when it is not, and goes from one to the other at each
rotation, closing and opening.

Only a clearing depends on the name of the file. It removes what the disk finds under the name,
and opens again what the database finds under it. If the name is a URI these are two files, and
what was counted before comes back. -/

namespace QueryTally.Session

/-- What was counted since the last clearing, each lookup with the hour that was live, and the
floors of all purges. -/
structure Ledger where
  counted : List (Hour × Lookup) := []
  floors : List Int := []

namespace Ledger

variable {l : Ledger} {h hour : Hour}

def add (l : Ledger) : Act → Ledger
  | .counted hour ks => { l with counted := l.counted ++ ks.map (hour, ·) }
  | .rotated _ floor | .opened floor => { l with floors := floor :: l.floors }
  | .cleared => { l with counted := [] }
  | .none | .closed _ => l

/-- The ledger of a run. -/
def ofActs (acts : List Act) : Ledger := acts.foldl add {}

/-- The lookups that were counted in an hour. -/
def inHour (l : Ledger) (hour : Hour) : List Lookup :=
  (l.counted.filter (·.1 == hour)).map (·.2)

/-- No purge can have reached an hour. -/
def Spares (l : Ledger) (hour : Hour) : Prop := ∀ floor ∈ l.floors, floor ≤ hour.toInt

theorem ofActs_concat (acts : List Act) (a : Act) :
    ofActs (acts ++ [a]) = (ofActs acts).add a := by
  rw [ofActs, List.foldl_append]
  rfl

theorem inHour_counted (l : Ledger) (hour h : Hour) (ks : List Lookup) :
    (l.add (.counted hour ks)).inHour h = if h = hour then l.inHour h ++ ks else l.inHour h := by
  have hnew : ((ks.map (hour, ·)).filter (·.1 == h)).map (·.2) = if h = hour then ks else [] := by
    by_cases hh : h = hour
    · subst hh
      rw [if_pos rfl, List.filter_eq_self.mpr (by simp), List.map_map]
      exact List.map_id ks
    · rw [if_neg hh, List.filter_eq_nil_iff.mpr (by simpa using fun _ _ => Ne.symm hh)]
      rfl
  rw [inHour, add, List.filter_append, List.map_append, hnew]
  by_cases hh : h = hour
  · rw [if_pos hh, if_pos hh]
    rfl
  · rw [if_neg hh, if_neg hh, List.append_nil]
    rfl

theorem Spares.of_cons {floor : Int} {floors : List Int}
    (h : ({ l with floors := floor :: floors } : Ledger).Spares hour) :
    floor ≤ hour.toInt ∧ ({ l with floors } : Ledger).Spares hour :=
  List.forall_mem_cons.mp h

end Ledger

/-- The record that the books have for an hour. -/
def Books.recordOf (b : Books) (hour : Hour) : HourRecord :=
  match b.live with
  | some u => if hour = u.hour then u.toRecord else Store.recordIn b.table hour
  | none => Store.recordIn b.table hour

/-- Books that stand for a ledger at a clock. -/
structure Tallied (l : Ledger) (now : Hour) (b : Books) : Prop where
  /-- Nothing was counted in an hour to come. -/
  past : ∀ h, now < h → l.inHour h = []
  /-- Nothing was counted in an hour after the live one. -/
  live : ∀ u, b.live = some u → u.hour ≤ now ∧ ∀ h, u.hour < h → l.inHour h = []
  counts : ∀ h, l.Spares h → (b.recordOf h).Counts (l.inHour h)

variable {l : Ledger} {now later : Hour} {b b' : Books}

/-- A record of an hour that was not purged. -/
theorem recordIn_purge {t : Table} {cutoff h : Hour} (hc : cutoff ≤ h) :
    Store.recordIn (t.purge cutoff) h = Store.recordIn t h := by
  rw [Store.recordIn, Table.record?_purge hc]
  rfl

theorem recordIn_store {u : LiveHour} (hnames : u.NamesFit) (t : Table) (h : Hour) :
    Store.recordIn (t.store u.hour u.toRecord) h =
      if h = u.hour then u.toRecord else Store.recordIn t h := by
  rw [Store.recordIn, Table.record?_store (LiveHour.toRecord_fits hnames)]
  split <;> rfl

section RecordOf

variable {u v : LiveHour} {t : Table} {cutoff h : Hour}

theorem recordOf_live : (⟨some u, t⟩ : Books).recordOf h =
    if h = u.hour then u.toRecord else Store.recordIn t h := rfl

theorem recordOf_counted (hhour : v.hour = u.hour) :
    (⟨some v, t⟩ : Books).recordOf h =
      if h = u.hour then v.toRecord else (⟨some u, t⟩ : Books).recordOf h := by
  simp only [Books.recordOf, hhour]
  split <;> rfl

theorem recordOf_rotated (hnames : u.NamesFit) (hc : cutoff ≤ h) :
    (⟨some (LiveHour.start now), Engine.rotated u cutoff t⟩ : Books).recordOf h =
      if h = now then HourRecord.empty else (⟨some u, t⟩ : Books).recordOf h := by
  have hhour : (LiveHour.start now).hour = now := rfl
  simp only [Books.recordOf, hhour, LiveHour.toRecord_start, Engine.rotated, recordIn_purge hc,
    recordIn_store hnames]

theorem recordOf_cleared :
    (⟨some (LiveHour.start now), Table.empty⟩ : Books).recordOf h = HourRecord.empty := by
  simp only [Books.recordOf, LiveHour.toRecord_start]
  exact ite_self _

theorem recordOf_closed (hnames : u.NamesFit) :
    (⟨none, t.store u.hour u.toRecord⟩ : Books).recordOf h = (⟨some u, t⟩ : Books).recordOf h :=
  recordIn_store hnames t h

theorem recordOf_opened (hhour : u.hour = now) (hc : cutoff ≤ h) :
    (⟨some u, t.purge cutoff⟩ : Books).recordOf h =
      if h = now then u.toRecord else Store.recordIn t h := by
  simp only [Books.recordOf, hhour, recordIn_purge hc]

end RecordOf

/-- The hour that is taken up counts what was stored of it. -/
theorem counts_resume {t : Table} {u : LiveHour} {ks : List Lookup}
    (hresume : Engine.resume now (t.record? now) = .ok u)
    (hcounts : (Store.recordIn t now).Counts ks) : u.toRecord.Counts ks := by
  unfold Store.recordIn at hcounts
  cases hr : t.record? now with
  | none =>
    rw [hr] at hresume hcounts
    cases hresume
    rw [LiveHour.toRecord_start]
    exact hcounts
  | some r =>
    rw [hr] at hresume hcounts
    exact LiveHour.counts_ofRecord hcounts hresume

/-- **One act.** Books that stand for a ledger go on to do so while the clock goes on. -/
theorem Tallied.turns {a : Act} (h : Tallied l now b) (ht : Turns now a b b')
    (hle : now ≤ later) : Tallied (l.add a) later b' := by
  have hpast : ∀ h, later < h → now < h := fun h hlt => Int64.lt_of_le_of_lt hle hlt
  cases ht with
  | none =>
    refine ⟨fun k hk => h.past k (hpast k hk), fun u hu => ?_, h.counts⟩
    exact ⟨Int64.le_trans (h.live u hu).1 hle, (h.live u hu).2⟩
  | @counted u v ks t hadds =>
    obtain ⟨hnow, hafter⟩ := h.live u rfl
    refine ⟨fun k hk => ?_, fun w hw => ?_, fun k hk => ?_⟩
    · rw [Ledger.inHour_counted, if_neg, h.past k (hpast k hk)]
      rintro rfl
      exact Int64.not_le.mpr (hpast _ hk) hnow
    · obtain rfl := Option.some.inj hw
      rw [hadds.hour]
      refine ⟨Int64.le_trans hnow hle, fun k hk => ?_⟩
      rw [Ledger.inHour_counted, if_neg, hafter k hk]
      rintro rfl
      exact Int64.lt_irrefl hk
    · have hcounts := h.counts k hk
      rw [Ledger.inHour_counted, recordOf_counted hadds.hour]
      by_cases hku : k = u.hour
      · rw [recordOf_live, if_pos hku] at hcounts
        rw [if_pos hku, if_pos hku]
        exact hadds.counts hcounts
      · rw [if_neg hku, if_neg hku]
        exact hcounts
  | @rotated u t cutoff hne hnames =>
    obtain ⟨hnow, hafter⟩ := h.live u rfl
    have hlt : u.hour < now := Int64.lt_of_le_of_ne hnow hne
    refine ⟨fun k hk => h.past k (hpast k hk), fun w hw => ?_, fun k hk => ?_⟩
    · obtain rfl := Option.some.inj hw
      exact ⟨hle, h.past⟩
    · obtain ⟨hfloor, hspares⟩ := Ledger.Spares.of_cons hk
      change HourRecord.Counts _ (l.inHour k)
      rw [recordOf_rotated hnames (Int64.le_iff_toInt_le.mpr hfloor)]
      -- The hour that begins comes after the one that was live, so nothing was counted in it yet.
      by_cases hkn : k = now
      · rw [if_pos hkn, hafter k (hkn ▸ hlt)]
        exact HourRecord.counts_empty
      · rw [if_neg hkn]
        exact h.counts k hspares
  | @cleared u t =>
    refine ⟨fun _ _ => rfl, fun w hw => ?_, fun k _ => ?_⟩
    · obtain rfl := Option.some.inj hw
      exact ⟨hle, fun _ _ => rfl⟩
    · rw [recordOf_cleared]
      exact HourRecord.counts_empty
  | @closed u t hnames =>
    refine ⟨fun k hk => h.past k (hpast k hk), fun w hw => ?_, fun k hk => ?_⟩
    · cases hw
    · rw [recordOf_closed hnames]
      exact h.counts k hk
  | @opened u t cutoff hcutoff hresume =>
    have hhour := Engine.hour_resume hresume
    refine ⟨fun k hk => h.past k (hpast k hk), fun w hw => ?_, fun k hk => ?_⟩
    · obtain rfl := Option.some.inj hw
      rw [hhour]
      exact ⟨hle, h.past⟩
    · obtain ⟨hfloor, hspares⟩ := Ledger.Spares.of_cons hk
      have hcounts : (Store.recordIn t k).Counts (l.inHour k) := h.counts k hspares
      change HourRecord.Counts _ (l.inHour k)
      rw [recordOf_opened hhour (Int64.le_iff_toInt_le.mpr hfloor)]
      by_cases hkn : k = now
      · subst hkn
        rw [if_pos rfl]
        exact counts_resume hresume hcounts
      · rw [if_neg hkn]
        exact hcounts
  | @refused t cutoff =>
    refine ⟨fun k hk => h.past k (hpast k hk), fun w hw => ?_, fun k hk => ?_⟩
    · cases hw
    · obtain ⟨hfloor, hspares⟩ := Ledger.Spares.of_cons hk
      have hrecord : Store.recordIn (t.purge cutoff) k = Store.recordIn t k :=
        recordIn_purge (Int64.le_iff_toInt_le.mpr hfloor)
      change (Store.recordIn (t.purge cutoff) k).Counts (l.inHour k)
      rw [hrecord]
      exact h.counts k hspares

/-! ## What a query shows -/

variable {s s₀ : Session} {file : String} {place : Path} {acts : List Act} {e : Engine}

/-- The steps of a run that never sets its clock back. -/
def Forward (file : String) (s : Session) (x : Step) : Prop :=
  s.Admits file x ∧ s.clock ≤ (s.step x).session.clock

instance (file : String) (s : Session) (x : Step) : Decidable (Forward file s x) :=
  inferInstanceAs (Decidable (_ ∧ _))

theorem tallied_start (now : Hour) : Tallied {} now ⟨none, Table.empty⟩ :=
  ⟨fun _ _ => rfl, nofun, fun _ _ => HourRecord.counts_empty⟩

/-- **Runs keep count.** -/
theorem tallied_of_reached (hfresh : s₀.Fresh file place)
    (hpath : .cleared ∈ acts →
      Location.ofName? (s₀.fullName file) = some (.file (s₀.fullName file) .create))
    (h : Reached (Forward file) s₀ acts s) :
    ∃ b, s.Stands (s₀.fullName file) place b ∧ Tallied (.ofActs acts) s.clock b := by
  refine h.books (fun _ _ hx => hx.1) hpath (fun acts now b => Tallied (.ofActs acts) now b)
    (.idle (fun e he => ?_) hfresh.ready) (tallied_start _) ?_
  · cases hfresh.engine.symm.trans he
  · intro acts s x b b' hx hb hturns
    rw [Ledger.ofActs_concat]
    exact hb.turns hturns hx.2

/-- The record that a query finds for an hour counts what was counted in it. -/
theorem Tallied.counts_recordAt {u : LiveHour} {t : Table} (h : Tallied l now ⟨some u, t⟩)
    {hour : Hour} (hspares : l.Spares hour) :
    (Engine.recordAt u t now hour).Counts (l.inHour hour) := by
  have hcounts := h.counts hour hspares
  obtain ⟨hnow, hafter⟩ := h.live u rfl
  simp only [Books.recordOf, Engine.recordAt, Window.slotOf] at hcounts ⊢
  by_cases hu : hour = u.hour
  · rw [if_pos hu] at hcounts ⊢
    exact hcounts
  · rw [if_neg hu] at hcounts ⊢
    by_cases hn : hour = now
    · have hlt : u.hour < hour := Int64.lt_of_le_of_ne (hn ▸ hnow) (Ne.symm hu)
      rw [if_pos hn, hafter hour hlt]
      exact HourRecord.counts_empty
    · rw [if_neg hn]
      exact hcounts

/-- **Exact counting.** At any point of a run that began without a database, and whose clock
never went back, a query by hours of an open engine gives a report unless it overflows. Each
hour of its window that no purge can have reached shows as many queries as were counted in it
since the last clearing, and as many of each kind as had that verdict. If an engine was cleared
in the run, the name of the file must be one that the database takes for that path. -/
theorem query_counts (hfresh : s₀.Fresh file place) (h : Reached (Forward file) s₀ acts s)
    (hpath : .cleared ∈ acts →
      Location.ofName? (s₀.fullName file) = some (.file (s₀.fullName file) .create))
    (hengine : s.engine = some e) (hopen : e.isClosed = false) {a : Answer}
    (hok : (s.step (.query .hours)).answer = .ok a) :
    ∃ r, a = .report r ∧ ∀ first hour, s.clock.windowStart e.limit = .ok first →
      first ≤ hour → hour ≤ s.clock → (Ledger.ofActs acts).Spares hour →
        let i := (hour.toInt - first.toInt).toNat
        let ks := (Ledger.ofActs acts).inHour hour
        r.queries[i]?.map (·.toNat) = some ks.length ∧
        r.filtered[i]?.map (·.toNat) = some (ks.countP (·.verdict == .filtered)) ∧
        r.safeBrowsing[i]?.map (·.toNat) = some (ks.countP (·.verdict == .safeBrowsing)) ∧
        r.parental[i]?.map (·.toNat) = some (ks.countP (·.verdict == .parental)) := by
  obtain ⟨b, hstands, htallied⟩ := tallied_of_reached hfresh hpath h
  cases hstands with
  | idle hnone =>
    rw [Engine.isClosed, (hnone e hengine).1] at hopen
    cases hopen
  | @active e' u t hengine' hlive hname hstore hnames =>
    obtain rfl := Option.some.inj (hengine.symm.trans hengine')
    obtain ⟨link, hs, hholds⟩ := hstore
    simp only [step, withEngine, hengine, query,
      Engine.query_eq hlive hs hholds.serves] at hok
    cases hreport : Engine.reportFor u t e.limit .hours s.clock with
    | error o =>
      rw [hreport] at hok
      cases hok
    | ok r =>
      rw [hreport] at hok
      cases hok
      refine ⟨r, rfl, fun first hour hfirst hle hlast hspares => ?_⟩
      obtain ⟨first', hfirst', -, hr⟩ := Engine.reportFor_eq_ok_iff.mp hreport
      obtain rfl := Except.ok.inj (hfirst.symm.trans hfirst')
      obtain ⟨hqueries, hfiltered, hsafe, hparental⟩ := Engine.series_of_hours hr
      have hwidth := Hour.toInt_windowStart hfirst
      have hcounts := htallied.counts_recordAt hspares
      intro i ks
      rw [hqueries, hfiltered, hsafe, hparental]
      simp only [i, Engine.getElem?_windowOf hwidth hle hlast, Option.map_some]
      exact ⟨congrArg some hcounts.total, congrArg some (hcounts.verdict _),
        congrArg some (hcounts.verdict _), congrArg some (hcounts.verdict _)⟩

/-- An engine counts and is cleared, counts again, rotates late, counts on, and is opened anew. -/
def sampleRun : List Step :=
  [.launch "stats.db" 1 none, .ingest sampleEvents, .clear, .ingest sampleEvents, .setClock 1001,
    .rotate, .ingest sampleEvents, .close, .launch "stats.db" 1 none]

def sampleSession : Session := sampleRun.foldl (fun s x => (s.step x).session) sampleStart

theorem reached_sample : ∃ acts, Reached (Forward "stats.db") sampleStart acts sampleSession ∧
    (Ledger.ofActs acts).floors = [976, 978, 975] ∧
    (Ledger.ofActs acts).inHour 1000 = lookups sampleEvents := by
  have hfollows : sampleStart.follows (Forward "stats.db") sampleRun = true := by decide +kernel
  exact ⟨_, Reached.start.follow hfollows, by decide +kernel, by decide +kernel⟩

theorem open_sample : sampleSession.clock = 1001 ∧
    ∃ e, sampleSession.engine = some e ∧ e.isClosed = false ∧ e.limit = 24 := by
  refine ⟨by decide +kernel, ?_⟩
  have hany : (sampleSession.engine.any fun e => !e.isClosed && e.limit == 24) = true := by
    decide +kernel
  obtain ⟨e, hengine, he⟩ := (Option.any_eq_true _ _).mp hany
  exact ⟨e, hengine, by simpa using he⟩

theorem query_counts_sample : ∃ r, (sampleSession.step (.query .hours)).answer = .ok (.report r) ∧
    r.queries[22]?.map (·.toNat) = some 3 ∧ r.filtered[22]?.map (·.toNat) = some 1 ∧
    r.safeBrowsing[22]?.map (·.toNat) = some 0 ∧ r.parental[22]?.map (·.toNat) = some 0 := by
  obtain ⟨acts, hreached, hfloors, hinHour⟩ := reached_sample
  obtain ⟨hclock, e, hengine, hopen, hlimit⟩ := open_sample
  obtain ⟨a, hok⟩ := exists_eq_ok_of_isOk
    (by decide +kernel : (sampleSession.step (.query .hours)).answer.isOk = true)
  have hpath : Location.ofName? (sampleStart.fullName "stats.db") =
      some (.file (sampleStart.fullName "stats.db") .create) := by decide +kernel
  obtain ⟨r, rfl, hall⟩ := query_counts fresh_sample hreached (fun _ => hpath) hengine hopen hok
  have hspares : (Ledger.ofActs acts).Spares 1000 := by
    rw [Ledger.Spares, hfloors]
    decide
  rw [hclock, hlimit] at hall
  have hcounts := hall 978 1000 rfl (by decide) (by decide) hspares
  rw [hinHour] at hcounts
  exact ⟨r, hok, hcounts⟩

/-- A session whose directory has a name that begins like a URI. -/
def uriStart : Session := start "file:." false 1000

/-- The name of the file leads the disk into the directory, and the database past it. -/
theorem fresh_uri : uriStart.Fresh "stats.db" ["stats.db"] := by
  refine ⟨rfl, Store.ready_of_hosts ?_ (.absent ⟨"./stats.db", by decide +kernel⟩ rfl)⟩
  refine { location := ?_, beside := ?_, parents := ?_, named := by decide +kernel,
           reachable := by decide +kernel, fits := by decide +kernel, root := by decide,
           free := by decide +kernel, fresh := fun _ _ => ⟨rfl, nofun⟩ }
  · refine ⟨"./stats.db", .create, by decide +kernel, by decide, ?_⟩
    exact toOption_eq_some_iff.mp (by decide +kernel)
  · intro hname
    exact absurd hname (by decide +kernel)
  · have hsteps : parentSteps (uriStart.fullName "stats.db") = ["file:."] := by decide +kernel
    rw [hsteps]
    exact ⟨["file:."], toOption_eq_some_iff.mp (by decide +kernel), rfl, trivial⟩

def uriRun : List Step :=
  [.launch "stats.db" 1 none, .ingest sampleEvents, .setClock 1001, .rotate, .clear]

def uriSample : Session := uriRun.foldl (fun s x => (s.step x).session) uriStart

theorem reached_uri : ∃ acts, Reached (Forward "stats.db") uriStart acts uriSample ∧
    (Ledger.ofActs acts).floors = [978, 975] ∧ (Ledger.ofActs acts).inHour 1000 = [] := by
  have hfollows : uriStart.follows (Forward "stats.db") uriRun = true := by decide +kernel
  exact ⟨_, Reached.start.follow hfollows, by decide +kernel, by decide +kernel⟩

/-- Nothing was counted since the clearing, but the file that the database opens again is the one
in which the hour was stored. -/
theorem clear_keeps_counted : uriStart.Fresh "stats.db" ["stats.db"] ∧
    ∃ acts e r, Reached (Forward "stats.db") uriStart acts uriSample ∧
      uriSample.engine = some e ∧ e.isClosed = false ∧
      uriSample.clock.windowStart e.limit = .ok 978 ∧ (Ledger.ofActs acts).Spares 1000 ∧
      (Ledger.ofActs acts).inHour 1000 = [] ∧
      (uriSample.step (.query .hours)).answer = .ok (.report r) ∧
      r.queries[22]?.map (·.toNat) = some 3 := by
  obtain ⟨acts, hreached, hfloors, hnone⟩ := reached_uri
  have hspares : (Ledger.ofActs acts).Spares 1000 := by
    rw [Ledger.Spares, hfloors]
    decide
  have hany : (uriSample.engine.any fun e => !e.isClosed &&
      (uriSample.clock.windowStart e.limit).toOption == some 978) = true := by decide +kernel
  obtain ⟨e, hengine, he⟩ := (Option.any_eq_true _ _).mp hany
  obtain ⟨hopen, hfirst⟩ := Bool.and_eq_true_iff.mp he
  obtain ⟨r, hr, hshown⟩ : ∃ r, (uriSample.step (.query .hours)).answer.toOption =
      some (.report r) ∧ r.queries[22]?.map (·.toNat) = some 3 := by
    have hshown : ((uriSample.step (.query .hours)).answer.toOption.any fun
        | .report r => r.queries[22]?.map (·.toNat) == some 3
        | _ => false) = true := by decide +kernel
    obtain ⟨a, ha, hshown⟩ := (Option.any_eq_true _ _).mp hshown
    cases a with
    | report r => exact ⟨r, ha, eq_of_beq hshown⟩
    | _ => cases hshown
  exact ⟨fresh_uri, acts, e, r, hreached, hengine, (Bool.not_eq_true' _).mp hopen,
    toOption_eq_some_iff.mp (eq_of_beq hfirst), hspares, hnone, toOption_eq_some_iff.mp hr, hshown⟩

end QueryTally.Session
