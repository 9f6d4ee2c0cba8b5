import QueryTally.Proofs.Session.Runs

/-! # What a flush replaces

A rotation or a closing puts the live hour in place of what is stored of it. That loses nothing
if the hour was taken up from the table when the engine was opened. A rotation begins its hour
from nothing, whatever is stored of it: the clock has gone back if anything is, and then the
hour loses what was stored unless as much is counted again. -/

namespace QueryTally.Session

/-- How the live hour was come by, and how much was counted in it since. -/
structure Entry where
  resumed : Bool := false
  since : Nat := 0

namespace Entry

/-- The entry after an act. -/
def add (n : Entry) : Act → Entry
  | .counted _ ks => { n with since := n.since + ks.length }
  | .rotated _ _ | .cleared => {}
  | .opened _ => { resumed := true }
  | .none | .closed _ => n

def ofActs (acts : List Act) : Entry := acts.foldl add {}

theorem ofActs_concat (acts : List Act) (a : Act) :
    ofActs (acts ++ [a]) = (ofActs acts).add a := by
  rw [ofActs, List.foldl_append]
  rfl

end Entry

/-- Books whose live hour was come by like this. -/
structure Entered (n : Entry) (b : Books) : Prop where
  resumed : n.resumed = true → ∀ u, b.live = some u →
    ∀ r, b.table.record? u.hour = some r → r.total.toNat ≤ u.total.toNat
  begun : n.resumed = false → ∀ u, b.live = some u → u.total.toNat = n.since

variable {n : Entry} {now : Hour} {b b' : Books} {u : LiveHour} {r : HourRecord}

/-- An hour that is taken up has the total that is stored of it. -/
theorem total_resume (h : Engine.resume now (some r) = .ok u) : u.total = r.total := by
  obtain ⟨micros, -, rfl⟩ := LiveHour.ofRecord_eq_ok_iff.mp h
  rfl

/-- **One act.** -/
theorem Entered.turns {a : Act} (h : Entered n b) (ht : Turns now a b b') :
    Entered (n.add a) b' := by
  cases ht with
  | none => exact h
  | @counted u v ks t hadds =>
    refine ⟨fun hn w hw r hr => ?_, fun hn w hw => ?_⟩
    · obtain rfl := Option.some.inj hw
      rw [hadds.hour] at hr
      have hle := h.resumed hn u rfl r hr
      rw [hadds.total]
      omega
    · obtain rfl := Option.some.inj hw
      have hsince := h.begun hn u rfl
      rw [hadds.total, hsince]
      rfl
  | rotated hne hnames =>
    refine ⟨nofun, fun _ w hw => ?_⟩
    obtain rfl := Option.some.inj hw
    rfl
  | cleared =>
    refine ⟨nofun, fun _ w hw => ?_⟩
    obtain rfl := Option.some.inj hw
    rfl
  | closed hnames => exact ⟨fun _ => nofun, fun _ => nofun⟩
  | refused => exact ⟨fun _ => nofun, fun _ => nofun⟩
  | @opened u t cutoff hle hresume =>
    refine ⟨fun _ w hw r hr => ?_, nofun⟩
    obtain rfl := Option.some.inj hw
    have hhour := Engine.hour_resume hresume
    change (t.purge cutoff).record? u.hour = some r at hr
    rw [hhour, Table.record?_purge hle] at hr
    rw [hr] at hresume
    exact Nat.le_of_eq (congrArg _ (total_resume hresume).symm)

/-! ## What the table has of an hour -/

variable {s s₀ : Session} {file : String} {place : Path} {acts : List Act}

theorem Stands.recordAt?_eq {name : String} (h : s.Stands name place b) (hour : Hour) :
    s.disk.recordAt? place hour = b.table.record? hour := by
  cases h with
  | active hengine hlive hname hstore =>
    obtain ⟨link, -, hholds⟩ := hstore
    exact hholds.recordAt?_eq hour
  | idle hengine hready => exact hready.recordAt?_eq hour

/-- The hour that an act puts into the table. -/
def Act.flushed? : Act → Option Hour
  | .rotated hour _ | .closed hour => some hour
  | _ => Option.none

def Act.Spares : Act → Hour → Prop
  | .rotated _ floor, hour | .opened floor, hour => floor ≤ hour.toInt
  | _, _ => True

/-- A flush puts the record of the live hour. -/
theorem Turns.flushed {a : Act} {hour : Hour} (h : Turns now a b b')
    (hflush : a.flushed? = some hour) :
    ∃ u, b.live = some u ∧ u.hour = hour ∧
      (a.Spares hour → b'.table.record? hour = some u.toRecord) := by
  cases h with
  | @rotated u t cutoff hne hnames =>
    obtain rfl := Option.some.inj hflush
    refine ⟨u, rfl, rfl, fun hspares => ?_⟩
    have hcutoff : cutoff ≤ u.hour := Int64.le_iff_toInt_le.mpr hspares
    change (Engine.rotated u cutoff t).record? u.hour = _
    rw [Engine.rotated, Table.record?_purge hcutoff,
      Table.record?_store (LiveHour.toRecord_fits hnames), if_pos rfl]
  | @closed u t hnames =>
    obtain rfl := Option.some.inj hflush
    refine ⟨u, rfl, rfl, fun _ => ?_⟩
    change (t.store u.hour u.toRecord).record? u.hour = _
    rw [Table.record?_store (LiveHour.toRecord_fits hnames), if_pos rfl]
  | _ => cases hflush

/-- The steps of a run that clears nothing. -/
def Steady (file : String) (s : Session) (x : Step) : Prop := s.Admits file x ∧ x ≠ .clear

instance (file : String) (s : Session) (x : Step) : Decidable (Steady file s x) :=
  inferInstanceAs (Decidable (_ ∧ _))

theorem entered_of_reached {t₀ : Table} (hengine : s₀.engine = none)
    (hready : Store.Ready s₀.disk (s₀.fullName file) place t₀)
    (h : Reached (Steady file) s₀ acts s) :
    ∃ b, s.Stands (s₀.fullName file) place b ∧ Entered (.ofActs acts) b := by
  refine h.books (fun _ _ hx => hx.1) (fun hmem => ?_) (fun acts _ b => Entered (.ofActs acts) b)
    (.idle (fun e he => ?_) hready) ⟨fun _ => nofun, fun _ => nofun⟩ ?_
  · obtain ⟨_, hx⟩ := h.exists_clear hmem
    exact absurd rfl hx.2
  · cases hengine.symm.trans he
  · intro acts s x b b' _ hb hturns
    rw [Entry.ofActs_concat]
    exact hb.turns hturns

/-- **Replacing an hour.** Whatever the clock does, a flush at any point of a run without
clearing puts the live hour in place of what is stored of it. That counts at least as much as
was stored exactly if the hour was taken up when the engine was opened, or as much was counted
since a rotation began it. -/
theorem flush_total_le_iff {t₀ : Table} (hengine : s₀.engine = none)
    (hready : Store.Ready s₀.disk (s₀.fullName file) place t₀)
    (h : Reached (Steady file) s₀ acts s) {x : Step} (hx : Steady file s x) {a : Answer}
    (hok : (s.step x).answer = .ok a) {hour : Hour} (hflush : (s.act x).flushed? = some hour) :
    ∃ u, s.live? = some u ∧ u.hour = hour ∧
      ((s.act x).Spares hour →
        (s.step x).session.disk.recordAt? place hour = some u.toRecord) ∧
      ∀ old, s.disk.recordAt? place hour = some old →
        (old.total ≤ u.toRecord.total ↔
          (Entry.ofActs acts).resumed = true ∨ old.total.toNat ≤ (Entry.ofActs acts).since) := by
  obtain ⟨b, hstands, hentered⟩ := entered_of_reached hengine hready h
  obtain ⟨b', hstands', hturns⟩ := step_turns hstands (h.fullName_eq fun _ _ hx => hx.1) hx.1
    (fun hact => absurd (eq_clear_of_act hact) hx.2) hok
  obtain ⟨u, hlive, rfl, hput⟩ := hturns.flushed hflush
  refine ⟨u, hstands.live_eq.trans hlive, rfl, fun hspares => ?_, fun old hold => ?_⟩
  · rw [hstands'.recordAt?_eq]
    exact hput hspares
  · rw [hstands.recordAt?_eq] at hold
    have htotal : u.toRecord.total = u.total := rfl
    rw [htotal, UInt64.le_iff_toNat_le]
    cases hresumed : (Entry.ofActs acts).resumed with
    | true => exact ⟨fun _ => .inl rfl, fun _ => hentered.resumed hresumed u hlive old hold⟩
    | false =>
      rw [hentered.begun hresumed u hlive]
      exact ⟨.inr, fun h => h.resolve_left Bool.false_ne_true⟩

/-- Some lookups are counted in the hour 1000. The clock goes on and back, so that the hour is
stored and begun again, with nothing counted in it, and goes on once more. -/
def setbackRun : List Step :=
  [.launch "stats.db" 1 none, .ingest sampleEvents, .setClock 1001, .rotate, .setClock 1000,
    .rotate, .setClock 1001]

def sampleSetback : Session := setbackRun.foldl (fun s x => (s.step x).session) sampleStart

theorem reached_setback : ∃ acts, Reached (Steady "stats.db") sampleStart acts sampleSetback ∧
    (Entry.ofActs acts).resumed = false ∧ (Entry.ofActs acts).since = 0 := by
  have hfollows : sampleStart.follows (Steady "stats.db") setbackRun = true := by decide +kernel
  exact ⟨_, Reached.start.follow hfollows, by decide +kernel, by decide +kernel⟩

theorem flush_total_le_iff_setback : ∃ u old, sampleSetback.live? = some u ∧
    sampleSetback.disk.recordAt? ["w", "stats.db"] 1000 = some old ∧
    (sampleSetback.step .rotate).session.disk.recordAt? ["w", "stats.db"] 1000 =
      some u.toRecord ∧ (old.total ≤ u.toRecord.total ↔ old.total.toNat = 0) := by
  obtain ⟨acts, hreached, hresumed, hsince⟩ := reached_setback
  have hx : Steady "stats.db" sampleSetback .rotate := ⟨trivial, nofun⟩
  have hact : sampleSetback.act .rotate = .rotated 1000 978 := by decide +kernel
  have hflush : (sampleSetback.act .rotate).flushed? = some 1000 := by rw [hact]; rfl
  obtain ⟨a, hok⟩ := exists_eq_ok_of_isOk
    (by decide +kernel : (sampleSetback.step .rotate).answer.isOk = true)
  obtain ⟨old, hold⟩ := Option.isSome_iff_exists.mp
    (by decide +kernel : (sampleSetback.disk.recordAt? ["w", "stats.db"] 1000).isSome = true)
  obtain ⟨u, hlive, -, hput, hle⟩ := flush_total_le_iff fresh_sample.engine fresh_sample.ready
    hreached hx hok hflush
  refine ⟨u, old, hlive, hold, hput ?_, (hle old hold).trans ?_⟩
  · rw [hact]
    exact (by decide : (978 : Int) ≤ (1000 : Hour).toInt)
  · rw [hresumed, hsince]
    simp

/-- An hour can lose what was stored of it: three lookups are stored, and then none. -/
theorem flush_loses : (∃ acts, Reached (Steady "stats.db") sampleStart acts sampleSetback) ∧
    (sampleSetback.disk.recordAt? ["w", "stats.db"] 1000).map (·.total) = some 3 ∧
    ((sampleSetback.step .rotate).session.disk.recordAt? ["w", "stats.db"] 1000).map (·.total) =
      some 0 := by
  obtain ⟨acts, hreached, -⟩ := reached_setback
  exact ⟨⟨acts, hreached⟩, by decide +kernel, by decide +kernel⟩

end QueryTally.Session
