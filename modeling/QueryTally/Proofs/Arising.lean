import QueryTally.Proofs.Engine.Counting
import QueryTally.Proofs.Table

/-! # How a live hour arises

An hour is begun with nothing in it, counts one lookup after the other, and may be taken up
again from its own record, more than once. Whichever way it came about (`LiveHour.Arises`), its
record counts no other lookups, and can be read back from the row in which the hour is stored. -/

namespace QueryTally

/-- A lookup whose names are there, and fit. -/
structure Lookup.Proper (l : Lookup) : Prop where
  domain : l.domain ≠ "" ∧ TextFits l.domain
  client : l.client ≠ "" ∧ TextFits l.client

theorem Event.proper_of_lookup? {e : Event} {l : Lookup} (h : e.lookup? = some l)
    (he : TextFits e.domain) : l.Proper := by
  obtain ⟨hdomain, hclient⟩ := Event.textFits_of_lookup? h he
  unfold Event.lookup? at h
  split at h
  · rename_i v client _ htext
    split at h
    · cases h
    · rename_i hne
      cases h
      exact ⟨⟨hne, hdomain⟩, ⟨Address.ne_empty_of_text? htext, hclient⟩⟩
  · cases h

theorem proper_of_mem_lookups {events : List (Event × Nat)}
    (h : ∀ p ∈ events, TextFits p.1.domain) : ∀ l ∈ lookups events, l.Proper := by
  intro l hl
  obtain ⟨p, hp, hl⟩ := List.mem_flatMap.mp hl
  obtain ⟨e, he, hl⟩ := List.mem_filterMap.mp hl
  rw [List.eq_of_mem_replicate he] at hl
  exact Event.proper_of_lookup? hl (h p hp)

namespace LiveHour

/-- An hour in which these lookups were counted, and whether it was ever taken up again. -/
inductive Arises : Bool → List Lookup → LiveHour → Prop
  | start (hour : Hour) : Arises false [] (start hour)
  | counted {again : Bool} {ks : List Lookup} {u v : LiveHour} {l : Lookup}
      (h : Arises again ks u) (hl : l.Proper) (hv : u.record l = .ok v) :
      Arises again (ks ++ [l]) v
  | resumed {again : Bool} {ks : List Lookup} {u v : LiveHour}
      (h : Arises again ks u) (hv : ofRecord u.hour u.toRecord = .ok v) : Arises true ks v

variable {again : Bool} {ks ls : List Lookup} {u v : LiveHour}

theorem Arises.recordAll (h : Arises again ks u) (hls : ∀ l ∈ ls, l.Proper)
    (hv : u.recordAll ls = .ok v) : Arises again (ks ++ ls) v := by
  induction ls generalizing ks u with
  | nil =>
    cases hv
    rw [List.append_nil]
    exact h
  | cons l ls ih =>
    obtain ⟨hl, hls⟩ := List.forall_mem_cons.mp hls
    rw [LiveHour.recordAll, List.foldlM_cons] at hv
    obtain ⟨w, hw, hv⟩ := bind_eq_ok_iff.mp hv
    rw [List.append_cons]
    exact ih (h.counted hl hw) hls hv

/-- The record of an hour counts the lookups that were counted in it. -/
theorem Arises.counts (h : Arises again ks u) : u.toRecord.Counts ks := by
  induction h with
  | start hour =>
    rw [toRecord_start]
    exact HourRecord.counts_empty
  | counted h hl hv ih => exact (adds_record hv).counts ih
  | resumed h hv ih => exact counts_ofRecord ih hv

theorem Arises.namesFit (h : Arises again ks u) : u.NamesFit := by
  induction h with
  | start hour => exact namesFit_start hour
  | @counted again ks u v l h hl hv ih =>
    refine (adds_record hv).namesFit (fun k hk => ?_) ih
    obtain rfl := List.mem_singleton.mp hk
    exact ⟨hl.domain.2, hl.client.2⟩
  | resumed h hv ih => exact namesFit_ofRecord (toRecord_fits ih) hv

/-- An hour that was never taken up again is the one that was begun, with what was counted. -/
theorem Arises.eq_recordAll (h : Arises again ks u) (hagain : again = false) :
    (LiveHour.start u.hour).recordAll ks = .ok u := by
  induction h with
  | start hour => rfl
  | counted h hl hv ih =>
    have hhour := (adds_record hv).hour
    refine recordAll_append (hhour ▸ ih hagain) ?_
    exact bind_eq_ok_iff.mpr ⟨_, hv, rfl⟩
  | resumed h hv ih => cases hagain

def row (u : LiveHour) : Row := ⟨u.hour.cell, recordSlot, .blob (Codec.encode u.toRecord)⟩

/-- **Reading an hour back.** A record that is read from the row of an hour is its record. -/
theorem eq_of_row {hour : Hour} {bytes : List UInt8} {r : HourRecord} (hu : u.NamesFit)
    (hrow : ⟨hour.cell, recordSlot, .blob bytes⟩ = u.row) (hr : Codec.decode bytes = .ok r) :
    u.hour = hour ∧ r = u.toRecord := by
  obtain ⟨hcell, -, hvalue⟩ := Row.mk.inj hrow
  rw [Cell.blob.inj hvalue, Codec.decode_encode (toRecord_fits hu)] at hr
  exact ⟨(Hour.cell_inj.mp hcell).symm, (Except.ok.inj hr).symm⟩

end LiveHour
end QueryTally
