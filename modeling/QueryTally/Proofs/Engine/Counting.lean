import QueryTally.Engine.Query
import QueryTally.Proofs.LiveHour

/-! # Counting in an engine

An open engine counts events in its live hour and changes nothing else; a closed one stays as
it is. Counting a list of events adds the lookups that they count as, in order. -/

namespace QueryTally

/-- An event counts, as a lookup with its own verdict, if it has one, a domain, and an address. -/
theorem Event.lookup?_verdict_iff {e : Event} {v : Verdict} :
    e.lookup?.map (·.verdict) = some v ↔
      e.verdict = some v ∧ e.domain ≠ "" ∧ (e.client.length = 4 ∨ e.client.length = 16) := by
  rw [← Address.text?_isSome_iff]
  unfold lookup? clientText?
  cases e.verdict <;> cases Address.text? e.client
  · simp
  · simp
  · simp
  · simp [and_comm]

/-- The lookups that events count as, each event as often as it is given. -/
def lookups (events : List (Event × Nat)) : List Lookup :=
  events.flatMap fun p => (List.replicate p.2 p.1).filterMap (·.lookup?)

theorem textFits_of_mem_lookups {events : List (Event × Nat)}
    (h : ∀ p ∈ events, TextFits p.1.domain) :
    ∀ l ∈ lookups events, TextFits l.domain ∧ TextFits l.client := by
  intro l hl
  obtain ⟨p, hp, hl⟩ := List.mem_flatMap.mp hl
  obtain ⟨e, he, hl⟩ := List.mem_filterMap.mp hl
  rw [List.eq_of_mem_replicate he] at hl
  exact Event.textFits_of_lookup? hl (h p hp)

namespace Engine

def ingestAll (e : Engine) (events : List (Event × Nat)) : Checked Engine :=
  events.foldlM (fun e p => e.ingestTimes p.1 p.2) e

theorem ingest_eq {e e' : Engine} {u : LiveHour} {event : Event} (hlive : e.live = some u)
    (h : e.ingest event = .ok e') :
    ∃ v, e' = { e with live := some v } ∧ u.recordAll event.lookup?.toList = .ok v := by
  simp only [ingest, hlive] at h
  obtain ⟨v, hv, h⟩ := bind_eq_ok_iff.mp h
  exact ⟨v, (pure_eq_ok_iff.mp h).symm, LiveHour.recordAll_of_ingest hv⟩

theorem ingestTimes_eq {e e' : Engine} {u : LiveHour} {event : Event} {n : Nat}
    (hlive : e.live = some u) (h : e.ingestTimes event n = .ok e') :
    ∃ v, e' = { e with live := some v } ∧
      u.recordAll ((List.replicate n event).filterMap (·.lookup?)) = .ok v := by
  induction n generalizing e u with
  | zero =>
    cases h
    exact ⟨u, by rw [← hlive], rfl⟩
  | succ n ih =>
    obtain ⟨e₁, h₁, h⟩ := bind_eq_ok_iff.mp h
    obtain ⟨v, rfl, hv⟩ := ingest_eq hlive h₁
    obtain ⟨w, rfl, hw⟩ := ih rfl h
    refine ⟨w, rfl, ?_⟩
    have hcons : (List.replicate (n + 1) event).filterMap (·.lookup?) =
        event.lookup?.toList ++ (List.replicate n event).filterMap (·.lookup?) := by
      rw [List.replicate_succ, List.filterMap_cons]
      cases event.lookup? <;> rfl
    rw [hcons]
    exact LiveHour.recordAll_append hv hw

/-- **Counting.** What events count as is counted in the live hour. -/
theorem ingestAll_eq {e e' : Engine} {u : LiveHour} {events : List (Event × Nat)}
    (hlive : e.live = some u) (h : e.ingestAll events = .ok e') :
    ∃ v, e' = { e with live := some v } ∧ u.recordAll (lookups events) = .ok v := by
  induction events generalizing e u with
  | nil =>
    cases h
    exact ⟨u, by rw [← hlive], rfl⟩
  | cons p events ih =>
    rw [ingestAll, List.foldlM_cons] at h
    obtain ⟨e₁, h₁, h⟩ := bind_eq_ok_iff.mp h
    obtain ⟨v, rfl, hv⟩ := ingestTimes_eq hlive h₁
    obtain ⟨w, rfl, hw⟩ := ih rfl h
    exact ⟨w, rfl, LiveHour.recordAll_append hv hw⟩

theorem ingestAll_closed {e : Engine} (hlive : e.live = none) (events : List (Event × Nat)) :
    e.ingestAll events = .ok e := by
  have htimes : ∀ event n, e.ingestTimes event n = .ok e := by
    intro event n
    induction n with
    | zero => rfl
    | succ n ih =>
      rw [ingestTimes, ingest, hlive]
      exact ih
  induction events with
  | nil => rfl
  | cons p events ih =>
    rw [ingestAll, List.foldlM_cons, htimes]
    exact ih

end Engine
end QueryTally
