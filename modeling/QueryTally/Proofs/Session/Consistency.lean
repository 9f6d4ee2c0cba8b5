import QueryTally.Proofs.Canonical
import QueryTally.Proofs.Session.Histories

/-! # Consistent statistics

Every hour that a run counts has a canonical record, and so has every hour that it stores,
however often the hour was stored in part, lost and taken up again. A report is made of such
records alone, so its totals and lists agree with each other. -/

namespace QueryTally

open QueryTally.Disk

/-- An hour whose record is canonical and can be read back. If the hour was never taken up from
a record, the lists in which no name is left out are exact. -/
structure LiveHour.Regular (again : Bool) (u : LiveHour) : Prop where
  canonical : u.toRecord.Canonical
  decoded : Codec.decode (Codec.encode u.toRecord) = .ok u.toRecord
  exact : again = false → u.Exact

namespace Session

variable {s s₀ : Session} {history : List Point} {acts : List Act} {again : Bool} {u : LiveHour}

theorem Backed.regular (h : Backed again acts u) : u.Regular again := by
  obtain ⟨resumed, ks, harises, hagain, -⟩ := h
  have hbalanced := harises.balanced
  refine ⟨hbalanced.canonical, ?_, fun hnever => ?_⟩
  · exact Codec.decode_encode (LiveHour.toRecord_fits harises.namesFit)
  · cases resumed with
    | false => exact hbalanced.exact
    | true => exact absurd (hagain rfl) (hnever ▸ Bool.false_ne_true)

/-- **Consistency.** At the end of any history from a session without an engine and without a row
in any file, however the disk may fail between the steps, the live hour is regular, and its lists
are exact unless it has been taken up in the history. Every row of every file was put there by a
step of the history, as the row of the hour that was live then. That hour was regular too, and its
lists exact unless it had been taken up in the history before. Every report is consistent. -/
theorem consistent_of_traced (hengine : s₀.engine = none)
    (hempty : ∀ f r, ¬ s₀.disk.HasRow f r) (h : Traced (fun _ => Operates) s₀ history s) :
    (∀ u, s.live? = some u → u.Regular (takenUp history)) ∧
      (∀ f r, s.disk.HasRow f r → ∃ before p after u, history = before ++ p :: after ∧
        p.Puts after f r u ∧ u.Regular (takenUp before)) ∧
      ∀ g report, (s.step (.query g)).answer = .ok (.report report) → report.Consistent := by
  have hregular : ∀ {history : List Point} {s : Session}, Traced (fun _ => Operates) s₀ history s →
      ∀ u, s.live? = some u → u.Regular (takenUp history) := fun h u hu =>
    ((accounted_of_weathered hengine hempty h.weathered).live u hu).regular
  refine ⟨hregular h, fun f r hr => ?_, fun g report hq => ?_⟩
  · obtain ⟨before, p, after, u, hhistory, hputs⟩ := h.put hempty hr
    exact ⟨before, p, after, u, hhistory, hputs, hregular (h.reaches hhistory) u hputs.live⟩
  · have haccounted := accounted_of_weathered hengine hempty h.weathered
    obtain ⟨e, first, record, -, -, hreport, hrecord⟩ := haccounted.report hq
    refine Report.consistent_ofWindow hreport fun r hr => ?_
    obtain ⟨hour, -, rfl⟩ := List.mem_map.mp hr
    obtain ⟨u, -, hu, hr⟩ := hrecord hour
    rw [hr]
    exact hu.regular.canonical

def rotatedRun : List Step :=
  [.launch "stats.db" 1 none, .ingest sampleEvents, .setClock 1001, .rotate, .ingest sampleEvents]

def rotatedSample : Session := rotatedRun.foldl (fun s x => (s.step x).session) sampleStart

theorem traced_rotated :
    Traced (fun _ => Operates) sampleStart (sampleStart.points rotatedRun) rotatedSample := by
  have hfollows : sampleStart.follows (fun _ => Operates) rotatedRun = true := by decide +kernel
  exact Traced.start.follow hfollows

/-- No hour is taken up in the run. -/
theorem takenUp_rotated {before after : List Point}
    (h : sampleStart.points rotatedRun = before ++ after) : takenUp before = false := by
  have hall : ∀ n < 6, takenUp ((sampleStart.points rotatedRun).take n) = false := by
    decide +kernel
  have hlength : before.length < 6 := by
    have hsum : 5 = before.length + after.length := List.length_append ▸ congrArg List.length h
    omega
  rw [← hall before.length hlength, h, List.take_left]

theorem clients_rotated {p : Point} (hp : p ∈ sampleStart.points rotatedRun)
    (hu : p.session.live? = some u) : u.clients.pairs.length ≤ 100 := by
  have hall : ((sampleStart.points rotatedRun).all fun p => p.session.live?.all fun u =>
      decide (u.clients.pairs.length ≤ 100)) = true := by decide +kernel
  have hlive := List.all_eq_true.mp hall p hp
  rw [hu] at hlive
  exact of_decide_eq_true hlive

/-- The hour that counts and the one that was stored were never taken up, so that their clients
weigh as much as there were lookups. -/
theorem consistent_rotated :
    (∃ u, rotatedSample.live? = some u ∧ u.total = 3 ∧ u.toRecord.Canonical ∧
      weight u.toRecord.clients = 3) ∧
    (∃ (f : FileNumber) (u : LiveHour), rotatedSample.disk.HasRow f u.row ∧ u.total = 3 ∧
      u.toRecord.Canonical ∧ weight u.toRecord.clients = 3) ∧
    ∃ r, (rotatedSample.step (.query .days)).answer = .ok (.report r) ∧ r.Consistent := by
  have hempty : ∀ f r, ¬ sampleStart.disk.HasRow f r := fun _ _ => not_hasRow_bytes rfl
  obtain ⟨hlive, hrows, hreports⟩ := consistent_of_traced rfl hempty traced_rotated
  refine ⟨?_, ?_, ?_⟩
  · obtain ⟨u, hu, hsmall⟩ := (Option.any_eq_true _ _).mp (by decide +kernel :
      (rotatedSample.live?.any fun u => u.total == 3 && u.clients.pairs.length ≤ 100) = true)
    obtain ⟨htotal, hclients⟩ := Bool.and_eq_true_iff.mp hsmall
    have htotal : u.total = 3 := eq_of_beq htotal
    have hregular := hlive u hu
    have hnever := takenUp_rotated (List.append_nil _).symm
    have hexact := (hregular.exact hnever).clients (of_decide_eq_true hclients)
    refine ⟨u, hu, htotal, hregular.canonical, hexact.trans ?_⟩
    exact congrArg UInt64.toNat htotal
  · obtain ⟨t, ht, hstored⟩ := (Option.any_eq_true _ _).mp (by decide +kernel :
      ((rotatedSample.disk.database 0).table.any fun t => t.rows.any fun r =>
        r.value.record?.any (·.total == 3)) = true)
    obtain ⟨r, hr, htotal⟩ := List.any_eq_true.mp hstored
    obtain ⟨before, p, after, u, hhistory, hputs, hregular⟩ := hrows 0 r ⟨t, ht, hr⟩
    have htotal : u.total = 3 := by
      rw [hputs.row] at htotal
      change (Codec.decode (Codec.encode u.toRecord)).toOption.any (·.total == 3) = true at htotal
      rw [hregular.decoded] at htotal
      exact eq_of_beq htotal
    have hclients : u.clients.pairs.length ≤ 100 := by
      have hp : p ∈ sampleStart.points rotatedRun := by
        rw [hhistory]
        exact List.mem_append_right _ List.mem_cons_self
      exact clients_rotated hp hputs.live
    have hexact := (hregular.exact (takenUp_rotated hhistory)).clients hclients
    refine ⟨0, u, hputs.row ▸ ⟨t, ht, hr⟩, htotal, hregular.canonical, hexact.trans ?_⟩
    exact congrArg UInt64.toNat htotal
  · obtain ⟨e, hengine⟩ := Option.isSome_iff_exists.mp
      (by decide +kernel : rotatedSample.engine.isSome = true)
    obtain ⟨r, hr⟩ := exists_report hengine
      (by decide +kernel : (rotatedSample.step (.query .days)).answer.isOk = true)
    exact ⟨r, hr, hreports .days r hr⟩

end Session
end QueryTally
