import QueryTally.Proofs.Engine.Retention
import QueryTally.Proofs.Session.Moves

/-! # What runs retain

While the clock goes on from a time after the epoch, nothing is stored of an hour after the
live one, which itself is not after the clock (`Books.Orderly`). A rotation retires the live
hour to the past, so that what it leaves lies between the start of the window and the hour
before the present one, and there are only so many hours in between. -/

namespace QueryTally.Session

open QueryTally.Disk QueryTally.Hour

variable {s s₀ : Session} {file : String} {place : Path} {acts : List Act} {b b' : Books}
variable {now later : Hour} {e : Engine}

/-- The last hour of which books can tell at a clock. -/
def Books.last (now : Hour) (b : Books) : Hour := (b.live.map (·.hour)).getD now

/-- Books whose hours lie between the epoch and a clock, the live one after all that are
stored. -/
structure Books.Orderly (now : Hour) (b : Books) : Prop where
  nonneg : 0 ≤ b.last now
  past : b.last now ≤ now
  stored : b.table.Upto (b.last now)

/-- Books are orderly in an hour if nothing is stored of a later one. -/
theorem orderly_of_last (h0 : 0 ≤ now) (hlast : b.last now = now) (ht : b.table.Upto now) :
    b.Orderly now := by
  refine ⟨?_, ?_, ?_⟩ <;> rw [hlast]
  · exact h0
  · exact Int64.le_refl now
  · exact ht

theorem Books.Orderly.mono (h : b.Orderly now) (hle : now ≤ later) : b.Orderly later := by
  obtain ⟨live, t⟩ := b
  cases live with
  | some u => exact ⟨h.nonneg, Int64.le_trans h.past hle, h.stored⟩
  | none =>
    exact orderly_of_last (Int64.le_trans h.nonneg hle) rfl (h.stored.mono hle)

/-- **One step.** -/
theorem Books.Orderly.moves (h : b.Orderly now) (hm : Moves now b b') : b'.Orderly now := by
  induction hm with
  | trans _ _ ih₁ ih₂ => exact ih₂ (ih₁ h)
  | lost live t =>
    have h0 := Int64.le_trans h.nonneg h.past
    exact orderly_of_last h0 rfl (h.stored.mono h.past)
  | begun u t =>
    have h0 := Int64.le_trans h.nonneg h.past
    exact orderly_of_last h0 rfl (h.stored.mono h.past)
  | turned ht =>
    have h0 := Int64.le_trans h.nonneg h.past
    have hstored := h.stored.mono h.past
    cases ht with
    | none => exact h
    | @counted u v ks t hadds =>
      have hlast : Books.last now ⟨some v, t⟩ = Books.last now ⟨some u, t⟩ := hadds.hour
      exact ⟨hlast ▸ h.nonneg, hlast ▸ h.past, hlast ▸ h.stored⟩
    | @rotated u t cutoff hne hnames =>
      exact orderly_of_last h0 rfl ((hstored.store h.nonneg h.past _).purge cutoff)
    | @cleared u t => exact orderly_of_last h0 rfl (Table.upto_empty now)
    | @closed u t hnames => exact orderly_of_last h0 rfl (hstored.store h.nonneg h.past _)
    | @opened u t cutoff hle hresume =>
      exact orderly_of_last h0 (Engine.hour_resume hresume) (hstored.purge cutoff)
    | @refused t cutoff => exact orderly_of_last h0 rfl (hstored.purge cutoff)

/-- The steps of a run on one file that never sets its clock back, and in which no clearing fails.
One under a name that is a path cannot. -/
def Onward (file : String) (s : Session) (x : Step) : Prop :=
  Uses file x ∧ s.clock ≤ (s.step x).session.clock ∧
    (x = .clear →
      Location.ofName? (s.fullName file) = some (.file (s.fullName file) .create) ∨ s.Resets)

instance (file : String) (s : Session) (x : Step) : Decidable (Onward file s x) :=
  inferInstanceAs (Decidable (_ ∧ _ ∧ (_ → _)))

/-- **Runs.** -/
theorem orderly_of_reached (hfresh : s₀.Fresh file place) (h0 : 0 ≤ s₀.clock)
    (h : Reached (Onward file) s₀ acts s) :
    s.base = s₀.base ∧ ∃ b, s.Stands (s₀.fullName file) place b ∧ b.Orderly s.clock := by
  induction h with
  | start =>
    refine ⟨rfl, ⟨none, Table.empty⟩, .idle (fun e he => ?_) hfresh.ready, ?_⟩
    · cases hfresh.engine.symm.trans he
    · exact orderly_of_last h0 rfl (Table.upto_empty _)
  | @step acts s x a h hx hok ih =>
    obtain ⟨hbase, b, hstands, horderly⟩ := ih
    have hfile : s.fullName file = s₀.fullName file := by rw [fullName, hbase, fullName]
    obtain ⟨huses, hclock, hclear⟩ := hx
    rw [hfile] at hclear
    obtain ⟨b', hstands', hmoves⟩ := step_moves hstands hfile huses hclear hok
    -- The step itself is taken at the old clock, which may go on in it.
    refine ⟨(base_operates huses.1).trans hbase, b', hstands', ?_⟩
    exact (horderly.moves hmoves).mono hclock

/-- A rotation that retires an hour of a run leaves a bounded number of hours, all of them in
the window and before the present one. -/
theorem retained_of_reached (hfresh : s₀.Fresh file place) (h0 : 0 ≤ s₀.clock)
    (h : Reached (Onward file) s₀ acts s) (hengine : s.engine = some e)
    (hrotated : (e.rotate s.clock s.disk).result = .ok true) :
    ∃ t, (e.rotate s.clock s.disk).engine.store.Serves (e.rotate s.clock s.disk).disk t ∧
      t.units.length ≤ e.limit.toNat - 1 ∧
      ∀ unit ∈ t.units, ∃ k : Hour, unit = k.cell ∧
        s.clock.toInt - e.limit.toNat + 1 ≤ k.toInt ∧ k.toInt ≤ s.clock.toInt - 1 := by
  obtain ⟨-, b, hstands, horderly⟩ := orderly_of_reached hfresh h0 h
  cases hstands with
  | idle hnone =>
    rw [Engine.rotate, (hnone e hengine).1] at hrotated
    cases hrotated
  | @active e' u t hengine' hlive hname hstore hnames =>
    obtain rfl := Option.some.inj (hengine.symm.trans hengine')
    obtain ⟨link, hs, hholds⟩ := hstore
    by_cases hne : u.hour = s.clock
    · rw [Engine.rotate_same hlive hne] at hrotated
      cases hrotated
    · cases hcutoff : s.clock.windowStart e.limit with
      | error o =>
        rw [Engine.rotate_overflow hlive hs hholds.serves hne hcutoff] at hrotated
        cases hrotated
      | ok cutoff =>
        obtain ⟨-, hengine'', hserves, -⟩ := Engine.rotate_eq hlive hs hholds.serves hne hcutoff
        have hfloor := toInt_windowStart hcutoff
        -- The live hour is not after the clock, so one that differs from it is over.
        have hlt : u.hour < s.clock := Int64.lt_of_le_of_ne horderly.past hne
        have hunits : ∀ unit ∈ (Engine.rotated u cutoff t).units,
            ∃ k : Hour, unit = k.cell ∧ cutoff ≤ k ∧ k < s.clock :=
          Engine.units_rotated horderly.stored horderly.nonneg hlt
        rw [hengine'']
        refine ⟨Engine.rotated u cutoff t, ⟨link, hs, hserves⟩, ?_, fun unit hunit => ?_⟩
        · have hlength := Table.length_units_le hunits
          omega
        · obtain ⟨k, hcell, hle, hk⟩ := hunits unit hunit
          rw [Int64.le_iff_toInt_le] at hle
          rw [Int64.lt_iff_toInt_lt] at hk
          exact ⟨k, hcell, by omega, by omega⟩

/-- **Retention is exact, and storage bounded.** On a healthy store whose keys are bytes and
whose hours lie after the epoch, a rotation at any clock and with any limit stores the live hour
and leaves, of the hours, exactly those of the window; whatever is no hour it leaves alone. In a
run from an empty database whose clock never goes back, and in which no clearing fails, there are
then fewer hours than the limit, all of them in the window and before the present one. A new limit
changes nothing on the disk. -/
theorem rotation_retains :
    (∀ (e : Engine) (d : Disk) (old : Table) (live : LiveHour) (now : Hour),
      e.store.Serves d old → old.Dated → e.live = some live → 0 ≤ live.hour → 0 ≤ now →
      live.hour ≠ now → Fits (now.toInt - e.limit.toNat + 1) →
        (e.rotate now d).result = .ok true ∧
        (e.rotate now d).engine = { e with live := some (LiveHour.start now) } ∧
        ∃ new, (e.rotate now d).engine.store.Serves (e.rotate now d).disk new ∧
          Table.Retains live (now.toInt - e.limit.toNat + 1) old new) ∧
    (∀ (s₀ s : Session) (file : String) (place : Path) (acts : List Act) (e : Engine),
      s₀.Fresh file place → 0 ≤ s₀.clock → Reached (Onward file) s₀ acts s →
      s.engine = some e → (e.rotate s.clock s.disk).result = .ok true →
        ∃ t, (e.rotate s.clock s.disk).engine.store.Serves (e.rotate s.clock s.disk).disk t ∧
          t.units.length ≤ e.limit.toNat - 1 ∧
          ∀ unit ∈ t.units, ∃ k : Hour, unit = k.cell ∧
            s.clock.toInt - e.limit.toNat + 1 ≤ k.toInt ∧ k.toInt ≤ s.clock.toInt - 1) ∧
    (∀ (s : Session) (days : Int32), (s.step (.configure days)).session.disk = s.disk) := by
  refine ⟨fun e d old live now hserves hdated hlive h0 hnow hne hfits => ?_,
    fun s₀ s file place acts e hfresh h0 hreached hengine hrotated => ?_, fun s days => ?_⟩
  · exact Engine.rotate_retains hserves hdated hlive h0 hnow hne hfits
  · exact retained_of_reached hfresh h0 hreached hengine hrotated
  · simp only [step, withEngine]
    cases s.engine <;> rfl

/-- An engine counts for an hour and is dropped; another one counts on into the next hour. -/
def sampleSteps : List Step :=
  [.launch "stats.db" 1 none, .ingest sampleEvents, .setClock 1001, .rotate, .drop,
    .launch "stats.db" 1 none, .ingest sampleEvents, .setClock 1003]

def sampleOnward : Session := sampleSteps.foldl (fun s x => (s.step x).session) sampleStart

theorem reached_sampleOnward :
    ∃ acts, Reached (Onward "stats.db") sampleStart acts sampleOnward := by
  have hfollows : sampleStart.follows (Onward "stats.db") sampleSteps = true := by decide +kernel
  exact ⟨_, Reached.start.follow hfollows⟩

theorem rotates_sampleOnward : ∃ e, sampleOnward.engine = some e ∧ e.limit = 24 ∧
    (e.rotate sampleOnward.clock sampleOnward.disk).result = .ok true := by
  have hany : (sampleOnward.engine.any fun e => e.limit == 24 &&
      (e.rotate sampleOnward.clock sampleOnward.disk).result.toOption == some true) = true := by
    decide +kernel
  obtain ⟨e, hengine, he⟩ := (Option.any_eq_true _ _).mp hany
  simp only [Bool.and_eq_true, beq_iff_eq] at he
  exact ⟨e, hengine, he.1, toOption_eq_some_iff.mp he.2⟩

theorem dated_sampleTable : Engine.sampleTable.Dated :=
  ((Table.upto_empty 999).store (by decide) (Int64.le_refl 999) _).dated

/-- With a limit of three hours, at the hour 1002, of the stored hour 999 and the retired hour
1000 only the latter is retained. -/
theorem rotation_retains_sample :
    ((Engine.sample.rotate 1002 Engine.sampleDisk).result = .ok true ∧
      ∃ new, Table.Retains Engine.sampleHour 1000 Engine.sampleTable new) ∧
    (∃ (e : Engine) (t : Table), sampleOnward.engine = some e ∧ t.units.length ≤ 23 ∧
      ∀ unit ∈ t.units, ∃ k : Hour, unit = k.cell ∧ 980 ≤ k.toInt ∧ k.toInt ≤ 1002) ∧
    (sampleOnward.step (.configure 0)).session.disk = sampleOnward.disk := by
  obtain ⟨hexact, hbounded, hconfigure⟩ := rotation_retains
  refine ⟨?_, ?_, hconfigure sampleOnward 0⟩
  · obtain ⟨hresult, -, new, -, hretains⟩ := hexact Engine.sample Engine.sampleDisk
      Engine.sampleTable Engine.sampleHour 1002 Engine.serves_sample dated_sampleTable rfl
      (by decide) (by decide) (by decide) (by decide)
    exact ⟨hresult, new, hretains⟩
  · obtain ⟨acts, hreached⟩ := reached_sampleOnward
    obtain ⟨e, hengine, hlimit, hrotated⟩ := rotates_sampleOnward
    obtain ⟨t, -, hlength, hunits⟩ := hbounded sampleStart sampleOnward "stats.db"
      ["w", "stats.db"] acts e fresh_sample (by decide) hreached hengine hrotated
    rw [hlimit] at hlength hunits
    exact ⟨e, t, hengine, hlength, hunits⟩

end QueryTally.Session
