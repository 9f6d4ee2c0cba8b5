import QueryTally.Proofs.Amounts

/-! # Ingesting

An engine counts a list of events as its live hour does, and leaves everything else alone. What
is counted then is what the live hour had counted and what the events contribute; neither their
order nor the events that do not count are seen in it. -/

namespace QueryTally.Engine

variable {e : Engine} {u : LiveHour}

/-- Events are counted in the live hour. -/
theorem foldlM_ingest (hlive : e.live = some u) (events : List Event) :
    events.foldlM ingest e = (u.ingestAll events).map fun v => { e with live := some v } := by
  induction events generalizing e u with
  | nil =>
    have hsame : e = { e with live := some u } := by rw [← hlive]
    exact congrArg Except.ok hsame
  | cons event events ih =>
    rw [LiveHour.ingestAll, List.foldlM_cons, List.foldlM_cons]
    simp only [ingest, hlive]
    cases u.ingest event with
    | error o => rfl
    | ok v => exact ih rfl

/-- **Ingesting** counts every event that has a verdict, a domain and an address, once for each
time that it occurs. It overflows exactly if something then would be counted more often than a
word can hold; otherwise everything is what it was and what the events contribute, and the names
in the tallies are those that were there and those that the events bring. So the order of the
events does not matter, nor do the events that do not count; and where nothing was counted
before, it is the total or the summed time that overflows. -/
theorem ingest_counts (hlive : e.live = some u) (events : List Event) :
    (events.foldlM ingest e = .error .add ↔ ¬ (u.amounts + contribution events).Fits) ∧
      ((u.amounts + contribution events).Fits →
        ∃ v, events.foldlM ingest e = .ok { e with live := some v } ∧ v.hour = u.hour ∧
          v.amounts = u.amounts + contribution events ∧
          ∀ k name, v.Has k name ↔ 0 < (contribution events).name k name ∨ u.Has k name) ∧
      (∀ others : List Event, others.Perm events →
        others.foldlM ingest e = events.foldlM ingest e) ∧
      (events.filter fun e => decide e.Valid).foldlM ingest e = events.foldlM ingest e ∧
      ∀ hour, u = LiveHour.start hour → ((u.amounts + contribution events).Fits ↔
        (contribution events).total < UInt64.size ∧
          (contribution events).micros < UInt64.size) := by
  have hcounts := fun others => foldlM_ingest hlive others
  have hok : (u.amounts + contribution events).Fits → ∃ v, u.ingestAll events = .ok v :=
    LiveHour.exists_ingestAll_iff.mpr
  refine ⟨⟨?_, ?_⟩, ?_, ?_, ?_, ?_⟩
  · intro herror hfits
    obtain ⟨v, hv⟩ := hok hfits
    rw [hcounts, hv] at herror
    cases herror
  · intro hfits
    rw [hcounts, (u.onlyAdds_ingestAll events).eq_error (mt LiveHour.exists_ingestAll_iff.mp hfits)]
    rfl
  · intro hfits
    obtain ⟨v, hv⟩ := hok hfits
    exact ⟨v, by rw [hcounts, hv]; rfl, LiveHour.amounts_ingestAll hv⟩
  · intro others hperm
    rw [hcounts, hcounts, LiveHour.ingestAll_congr (contribution_perm hperm)]
  · rw [hcounts, hcounts, LiveHour.ingestAll_congr (contribution_filter events)]
  · rintro hour rfl
    exact LiveHour.fits_start_iff hour

def sampleBegun : Engine where
  limit := 24
  store := { name := "stats.db", link := none }
  live := some (LiveHour.start 7)

/-- A passed query, a blocked one, the same without an address, and the passed one again. -/
def sampleEvents : List Event :=
  let passed : Event := {
    verdict := some .notFiltered, domain := "a.example", client := [10, 0, 0, 1], micros := 40 }
  let blocked : Event := { passed with verdict := some .parental, domain := "b.example" }
  [passed, blocked, { blocked with client := [10, 0, 0] }, passed]

theorem ingest_counts_sample :
    ((LiveHour.start 7).amounts + contribution sampleEvents).Fits ∧
      sampleEvents.reverse.foldlM ingest sampleBegun = sampleEvents.foldlM ingest sampleBegun ∧
      ∃ v, sampleEvents.foldlM ingest sampleBegun = .ok { sampleBegun with live := some v } ∧
        v.amounts.total = 3 ∧ v.amounts.micros = 120 ∧
        v.amounts.name .domains "a.example" = 2 ∧ ¬ v.Has .domains "b.example" := by
  obtain ⟨-, hok, hperm, -, hstart⟩ :=
    ingest_counts (show sampleBegun.live = some (LiveHour.start 7) from rfl) sampleEvents
  have hfits := (hstart 7 rfl).mpr ⟨by decide +kernel, by decide +kernel⟩
  obtain ⟨v, hv, -, hamounts, hnames⟩ := hok hfits
  refine ⟨hfits, hperm _ (List.reverse_perm _), v, hv, ?_, ?_, ?_, ?_⟩
  · rw [hamounts]
    decide +kernel
  · rw [hamounts]
    decide +kernel
  · rw [hamounts]
    decide +kernel
  · rw [hnames]
    exact not_or.mpr ⟨by decide +kernel, Bool.false_ne_true⟩

end QueryTally.Engine
