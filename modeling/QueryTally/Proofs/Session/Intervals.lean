import QueryTally.Proofs.Session.Engines

/-! # A point for each retained day

The limit of an engine is the interval that it was told last, in every session. So its reports
by days have a point for each day of this interval, whatever the hour and the state of the disk. -/

namespace QueryTally.Session

variable {s s₀ : Session} {e e' : Engine} {now : Hour} {d : Disk} {told : Option UInt32}

/-- The sessions that steps lead to, whatever they answer and whatever happens to the disk between
them, with the interval that was last told. -/
inductive Told (s₀ : Session) : Option UInt32 → Session → Prop
  | start : Told s₀ none s₀
  | step {told : Option UInt32} {s : Session} (h : Told s₀ told s) (x : Step) :
      Told s₀ (x.interval?.or told) (s.step x).session
  | disturbed {told : Option UInt32} {s : Session} (h : Told s₀ told s) (d : Disk) :
      Told s₀ told { s with disk := d }

/-- A session whose engine, if there is one, has the limit that it was told. -/
def Heeds (told : Option UInt32) (s : Session) : Prop :=
  ∀ e, s.engine = some e → ∃ days, told = some days ∧ e.limit = Config.limitHours days

/-- An engine goes by a new interval, and else by the one it had. -/
theorem limit_of_becomes (h : Becomes now d told e e') :
    told = none ∧ e'.limit = e.limit ∨
      ∃ days, told = some days ∧ e'.limit = Config.limitHours days := by
  cases h with
  | same => exact .inl ⟨rfl, rfl⟩
  | counted hall =>
    obtain ⟨live, rfl⟩ := Engine.eq_of_ingestAll hall
    exact .inl ⟨rfl, rfl⟩
  | rotated =>
    refine .inl ⟨rfl, ?_⟩
    unfold Engine.rotate
    split
    · rfl
    · split
      · rfl
      · split <;> rfl
  | cleared =>
    refine .inl ⟨rfl, ?_⟩
    unfold Engine.clear
    split <;> rfl
  | closed => exact .inl ⟨rfl, rfl⟩
  | configured e days =>
    by_cases hdays : Engine.Accepts days
    · exact .inr ⟨_, if_pos hdays, Engine.limit_configure hdays e⟩
    · exact .inl ⟨if_neg hdays, by rw [Engine.configure_of_not_accepts hdays]⟩

theorem Heeds.step (h : s.Heeds told) (x : Step) :
    (s.step x).session.Heeds (x.interval?.or told) := by
  intro e' hengine
  rcases engine_of_step hengine with
    ⟨file, days, poll, config, disk, rfl, rfl, hlaunch⟩ | ⟨e, he, hbecomes⟩
  · obtain ⟨store, live, rfl⟩ := Engine.eq_of_launch hlaunch
    exact ⟨_, rfl, rfl⟩
  · rcases limit_of_becomes hbecomes with ⟨hnone, hlimit⟩ | ⟨days, hdays, hlimit⟩
    · rw [hnone, hlimit, Option.none_or]
      exact h e he
    · rw [hdays]
      exact ⟨days, rfl, hlimit⟩

/-- **Every run.** -/
theorem Told.heeds (h₀ : s₀.engine = none) (h : Told s₀ told s) : s.Heeds told := by
  induction h with
  | start =>
    intro e hengine
    cases h₀.symm.trans hengine
  | step h x ih => exact ih.step x
  | disturbed h d ih => exact ih

/-- **A point for each retained day.** A series by days over a window of whole days has a point
for each of them, at whatever hour the window begins, if its hours are hours. And in every session
that began without an engine, whatever its steps and whatever happens to the disk between them, an
engine has the interval that it was last told, if its hours are a word. At every hour and on every
disk, each series of its reports by days has a point for each day of this interval, and each by
hours has 24. -/
theorem points_retained :
    (∀ (w : Window) (n : Nat), w.InRange → w.size = 24 * n → ∀ count points,
      Report.series w .days count = .ok points → points.length = n) ∧
    ∀ (s₀ s : Session) (told : Option UInt32), s₀.engine = none → Told s₀ told s →
      ∀ e, s.engine = some e → ∃ days, told = some days ∧
        (days.toNat * 24 < UInt32.size → e.days = days ∧ ∀ now d,
          (∀ r, (e.query .days now d).result = .ok r →
            ∀ pick ∈ Report.everySeries, (pick r).length = e.days.toNat) ∧
          ∀ r, (e.query .hours now d).result = .ok r →
            ∀ pick ∈ Report.everySeries, (pick r).length = 24 * e.days.toNat) := by
  refine ⟨fun w n hrange hsize count points h => Report.length_series_of_whole hrange hsize h, ?_⟩
  intro s₀ s told h₀ htold e hengine
  obtain ⟨days, hdays, hlimit⟩ := htold.heeds h₀ e hengine
  refine ⟨days, hdays, fun hfits => ?_⟩
  have hsame := Engine.days_of_limit hfits hlimit
  have hwhole : e.limit.toNat = 24 * e.days.toNat := by
    rw [hsame, hlimit, Engine.toNat_limitHours hfits]
  exact ⟨hsame, fun now d => ⟨fun r hr => Engine.length_of_query hwhole hr,
    fun r hr => Engine.length_of_query hwhole hr⟩⟩

/-- A day that begins at seven in the evening, five hours before the epoch. -/
def eveningOn : Window where
  first := -5
  records := List.replicate 24 { HourRecord.empty with total := 1 }

def intervalSample : Session :=
  let steps := [.launch "stats.db" 7 none, .configure 2, .configure (-1)]
  steps.foldl (fun s x => (s.step x).session) (start "w" false 1000)

/-- The day that begins in the evening has one midnight. The engine goes by the last interval that
it accepted, at an hour before the epoch too. -/
theorem points_retained_sample :
    (Report.series eveningOn .days (·.total) = .ok [6] ∧ [(6 : UInt64)].length = 1) ∧
    ∃ e, intervalSample.engine = some e ∧ e.days = 2 ∧
      ∃ r, (e.query .days (-30) intervalSample.disk).result = .ok r ∧ r.parental.length = 2 := by
  obtain ⟨hwindow, hengine⟩ := points_retained
  constructor
  · have hrange : eveningOn.InRange := ⟨by decide, by decide⟩
    exact ⟨rfl, hwindow eveningOn 1 hrange rfl (·.total) _ rfl⟩
  · have htold : Told (start "w" false 1000) (some 2) intervalSample :=
      .step (.step (.step .start (.launch "stats.db" 7 none)) (.configure 2)) (.configure (-1))
    have hanswered : (intervalSample.engine.any fun e =>
        (e.query .days (-30) intervalSample.disk).result.isOk) = true := by decide +kernel
    obtain ⟨e, he, hok⟩ := (Option.any_eq_true _ _).mp hanswered
    obtain ⟨days, hdays, hpoints⟩ := hengine _ _ _ rfl htold e he
    obtain rfl := Option.some.inj hdays
    obtain ⟨hsame, hquery⟩ := hpoints (by decide)
    obtain ⟨r, hr⟩ := exists_eq_ok_of_isOk hok
    obtain ⟨-, -, -, hparental⟩ :=
      Report.forall_everySeries.mp ((hquery (-30) intervalSample.disk).1 r hr)
    refine ⟨e, he, hsame, r, hr, ?_⟩
    rw [hparental, hsame]
    rfl

end QueryTally.Session
