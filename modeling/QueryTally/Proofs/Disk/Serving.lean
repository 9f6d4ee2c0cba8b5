import QueryTally.Proofs.Disk.Changes
import QueryTally.Proofs.Transaction

/-! # Connections that serve a table

A connection serves a table if the database that it sees is healthy and has this table. That
comes down to its file being healthy, to its not mistrusting it, and to a log or companions
that do not stand in its way (`Disk.Sound`). Looking into the file, keeping a journal and
replacing the table leave it so. -/

namespace QueryTally

namespace Disk

variable {d : Disk} {link : Link} {place : Path} {t : Table}

/-- Companions that leave a connection to a laid out file its way, if it writes to no log. -/
structure Passable (d : Disk) (place : Path) : Prop where
  journal : (d.node place.journal).isDirectory = false
  log : (d.node place.log).isDirectory = false
  index : d.holds place.log = true → (d.node place.logIndex).isDirectory = false
  gone : (d.node place).isAbsent = true →
    d.holds place.journal = false ∧ d.holds place.log = false

/-- A connection that nothing keeps from a healthy database: it writes to a log, or its
companions let it pass and it has a log to turn to or its file in its place. -/
structure Sound (d : Disk) (link : Link) (t : Table) : Prop where
  writable : link.readOnly = false
  database : (d.database link.file).Healthy t
  trusted : ∀ place, link.place = some place → d.mistrusts link = false
  clear : ∀ place, link.place = some place → d.isLogging link = true ∨
    d.Passable place ∧ (d.holds place.log = true ∨ d.node place = .file link.file)

theorem passable_iff (hf : (d.database link.file).formatted = true) (worst : Refusal) :
    d.Passable place ↔
      d.journalStuck link place = false ∧ d.logFailure link place worst = none := by
  have hfields : d.Passable place ↔
      (d.node place.journal).isDirectory = false ∧ (d.node place.log).isDirectory = false ∧
        (d.holds place.log = true → (d.node place.logIndex).isDirectory = false) ∧
        ((d.node place).isAbsent = true →
          d.holds place.journal = false ∧ d.holds place.log = false) :=
    ⟨fun h => ⟨h.1, h.2, h.3, h.4⟩, fun ⟨h₁, h₂, h₃, h₄⟩ => ⟨h₁, h₂, h₃, h₄⟩⟩
  rw [hfields]
  simp only [journalStuck, logFailure, findsLog, hf, Bool.true_and, Bool.not_true,
    Bool.false_eq_true, if_false]
  cases (d.node place.journal).isDirectory <;> cases (d.node place.log).isDirectory <;>
    cases (d.node place).isAbsent <;> cases d.holds place.log <;>
    cases d.holds place.journal <;> cases (d.node place.logIndex).isDirectory <;> simp

theorem readFailure_eq_none_iff (hf : (d.database link.file).formatted = true)
    (hp : link.place = some place) :
    d.readFailure link = none ↔
      d.mistrusts link = false ∧ (d.isLogging link = true ∨ d.Passable place) := by
  simp only [readFailure, hp]
  generalize (if (d.memory link.number).tableMissing then Refusal.statement
    else Refusal.transaction) = worst
  have hmistrust : (if d.mistrusts link then some Refusal.statement else none) = none ↔
      d.mistrusts link = false := by
    cases d.mistrusts link <;> simp
  cases d.isLogging link with
  | true => simp [hmistrust]
  | false =>
    rw [passable_iff hf worst]
    cases d.journalStuck link place with
    | true => simp
    | false =>
      simp only [Bool.false_eq_true, if_false, Option.or_eq_none_iff, hmistrust, false_or,
        true_and]
      exact and_comm

theorem Sound.seen_eq (h : d.Sound link t) : d.seen link = d.database link.file := by
  have hf := h.database.formatted
  cases hp : link.place with
  | none => simp only [seen, readFailure, hp, h.writable, Bool.false_eq_true, if_false]
  | some place =>
    have hread : d.readFailure link = none := by
      refine (readFailure_eq_none_iff hf hp).mpr ⟨h.trusted place hp, ?_⟩
      exact (h.clear place hp).imp_right And.left
    simp only [seen, hread, hp, h.writable, Bool.false_eq_true, if_false, findsLog, hf, if_true,
      Bool.true_and]
    rcases h.clear place hp with hlog | ⟨-, hlog | hfile⟩
    · rw [hlog, Bool.true_or, if_pos rfl]
    · rw [hlog, Bool.or_true, if_pos rfl]
    · rw [if_pos hfile, ite_self]

theorem not_healthy_readOnly {db : Database} : ¬ db.readOnly.Healthy t := by
  intro h
  cases congrFun (congrFun (congrArg Faults.put h.faults) 0) recordSlot

theorem not_healthy_freeze {db : Database} : ¬ db.freeze.Healthy t := by
  intro h
  cases congrArg Faults.frozen h.faults

theorem not_healthy_sealed {db : Database} : ¬ db.sealed.Healthy t := by
  intro h
  cases congrFun (congrArg Faults.begin h.faults) true

theorem not_healthy_unreadable {refusal : Refusal} :
    ¬ (Database.unreadable refusal).Healthy t := by
  intro h
  cases h.table

/-- **Seeing a healthy database.** A connection does exactly if its file holds one and nothing
keeps the connection from it. -/
theorem seen_healthy_iff : (d.seen link).Healthy t ↔ d.Sound link t := by
  refine ⟨fun h => ?_, fun h => h.seen_eq ▸ h.database⟩
  have hbase : (if link.readOnly then (d.database link.file).readOnly
      else d.database link.file).Healthy t →
      link.readOnly = false ∧ (d.database link.file).Healthy t := by
    intro h
    cases hw : link.readOnly with
    | false => exact ⟨rfl, by rwa [hw] at h⟩
    | true =>
      rw [hw] at h
      exact absurd h not_healthy_readOnly
  cases hr : d.readFailure link with
  | some refusal =>
    simp only [seen, hr] at h
    exact absurd h not_healthy_unreadable
  | none =>
    cases hp : link.place with
    | none =>
      simp only [seen, hr, hp] at h
      obtain ⟨hw, hdb⟩ := hbase h
      refine ⟨hw, hdb, fun _ e => ?_, fun _ e => ?_⟩
      · cases hp.symm.trans e
      · cases hp.symm.trans e
    | some place =>
      -- Only these ways show the database as it is; the others end in one that refuses a write.
      have hway : link.readOnly = false ∧ (d.database link.file).Healthy t ∧
          (d.isLogging link = true ∨ d.holds place.log = true ∨
            d.node place = .file link.file) := by
        simp only [seen, hr, hp] at h
        generalize (if link.readOnly then (d.database link.file).readOnly
          else d.database link.file) = base at h hbase
        split at h
        · rename_i hlog
          obtain ⟨hw, hdb⟩ := hbase h
          refine ⟨hw, hdb, ?_⟩
          rw [Bool.or_eq_true, findsLog, Bool.and_eq_true] at hlog
          exact hlog.imp_right fun h => .inl h.2
        · split at h
          · split at h
            · rename_i hfile
              obtain ⟨hw, hdb⟩ := hbase h
              exact ⟨hw, hdb, .inr (.inr hfile)⟩
            · exact absurd h not_healthy_freeze
          · split at h
            · exact absurd h not_healthy_sealed
            · rename_i hnf _
              exact absurd h.formatted hnf
      obtain ⟨hw, hdb, hway⟩ := hway
      obtain ⟨htrust, hpass⟩ := (readFailure_eq_none_iff hdb.formatted hp).mp hr
      refine ⟨hw, hdb, fun _ _ => htrust, fun place' hp' => ?_⟩
      cases hp.symm.trans hp'
      rcases hway with hlog | hway
      · exact .inl hlog
      · exact hpass.imp_right fun h => ⟨h, hway⟩

/-- A connection that sees a healthy database. -/
structure Serves (d : Disk) (link : Link) (t : Table) : Prop where
  healthy : (d.seen link).Healthy t
  /-- The file is none at the root. -/
  root : link.place ≠ some []
  file : link.file < d.next

theorem Serves.sound (h : d.Serves link t) : d.Sound link t := seen_healthy_iff.mp h.healthy

theorem Passable.unlink_journal (h : d.Passable place) (hp : place ≠ []) :
    (d.unlink place.journal).Passable place where
  journal := by rw [isDirectory_unlink, h.journal]
  log := by rw [isDirectory_unlink, h.log]
  index := by
    rw [holds_unlink_of_ne (Path.log_ne_journal hp), isDirectory_unlink]
    exact h.index
  gone := by
    rw [node_unlink_of_ne (Path.ne_journal hp), holds_unlink_of_ne (Path.log_ne_journal hp),
      holds_unlink_self]
    exact fun hgone => ⟨rfl, (h.gone hgone).2⟩

theorem Passable.congr {d' : Disk} (h : d.Passable place) (hn : d'.node = d.node)
    (hh : ∀ p, d'.holds p = d.holds p) : d'.Passable place where
  journal := by rw [hn, h.journal]
  log := by rw [hn, h.log]
  index := by
    rw [hh, hn]
    exact h.index
  gone := by
    rw [hh, hh, hn]
    exact h.gone

theorem mistrusts_congr {d' : Disk} (hc : d'.content link.file = d.content link.file)
    (hm : d'.memory link.number = d.memory link.number) :
    d'.mistrusts link = d.mistrusts link := by
  simp only [mistrusts, database, stamp, hc, hm]

/-- A change that leaves the file, what is remembered of it, and the way to it. -/
theorem Sound.congr {d' : Disk} (h : d.Sound link t)
    (hc : d'.content link.file = d.content link.file)
    (hm : d'.memory link.number = d.memory link.number)
    (hclear : ∀ place, link.place = some place → d'.isLogging link = true ∨
      d'.Passable place ∧ (d'.holds place.log = true ∨ d'.node place = .file link.file)) :
    d'.Sound link t where
  writable := h.writable
  database := by
    rw [Disk.database, hc]
    exact h.database
  trusted place hp := (mistrusts_congr hc hm).trans (h.trusted place hp)
  clear := hclear

theorem Sound.unlink_journal (h : d.Sound link t) (hp : link.place = some place)
    (hne : place ≠ []) : (d.unlink place.journal).Sound link t := by
  refine h.congr (by rw [unlink_content]) (by rw [unlink_memory]) fun place' hp' => ?_
  obtain rfl := Option.some.inj (hp.symm.trans hp')
  rcases h.clear place hp with hlog | ⟨hpass, hfile⟩
  · left
    rwa [isLogging, unlink_logging]
  · refine .inr ⟨hpass.unlink_journal hne, ?_⟩
    rwa [holds_unlink_of_ne (Path.log_ne_journal hne), node_unlink_of_ne (Path.ne_journal hne)]

theorem Sound.clearJournal (h : d.Sound link t) (hp : link.place = some place)
    (hne : place ≠ []) : (d.clearJournal link place).Sound link t := by
  rcases d.clearJournal_eq link place with e | e
  · rw [e]
    exact h
  · rw [e]
    exact h.unlink_journal hp hne

theorem content_of_healthy {f : FileNumber} (h : (d.database f).Healthy t) :
    d.content f = .database (d.database f) := by
  cases hc : d.content f with
  | database db => rw [Disk.database, hc]; rfl
  | bytes b =>
    have htable := h.table
    rw [Disk.database, hc, Content.toDatabase] at htable
    split at htable
    · cases htable
    · cases htable

theorem learned_of_healthy (h : (d.database link.file).Healthy t)
    (htrust : d.mistrusts link = false) :
    d.learned link = { tableMissing := false, stamp := some (d.stamp link) } := by
  have hjunk : (d.content link.file).isJunk = false := by rw [content_of_healthy h]; rfl
  simp only [learned, hjunk, htrust, h.formatted, h.table, Bool.not_true, Bool.false_eq_true,
    if_false, Option.isNone_some]

theorem Sound.remember (h : d.Sound link t) : (d.remember link).Sound link t := by
  rw [remember_eq]
  refine ⟨h.writable, h.database, fun place hp => ?_, fun place hp => ?_⟩
  · have hjunk : (d.content link.file).isJunk = false := by
      rw [content_of_healthy h.database]
      rfl
    simp only [mistrusts, if_true, learned_of_healthy h.database (h.trusted place hp), hjunk,
      Bool.and_false, Bool.false_and, Bool.or_false]
  · exact (h.clear place hp).imp_right fun ⟨hpass, hfile⟩ =>
      ⟨hpass.congr rfl fun _ => rfl, hfile⟩

theorem Sound.openLog (h : d.Sound link t) (hfile : link.file < d.next) :
    (d.openLog link place).Sound link t := by
  have hfinds : d.findsLog link place = d.holds place.log := by
    rw [findsLog, h.database.formatted, Bool.true_and]
  simp only [Disk.openLog, hfinds]
  cases hl : d.holds place.log with
  | false => exact h
  | true =>
    have hlogging : ∀ d' : Disk, d'.logging = (link.number, link.file) :: d.logging →
        d'.isLogging link = true := by
      intro d' e
      rw [isLogging, e, List.contains_cons, beq_self_eq_true, Bool.true_or]
    simp only [if_true]
    split
    · refine h.congr ?_ rfl fun _ _ => .inl (hlogging _ rfl)
      exact if_neg (Nat.ne_of_lt hfile)
    · exact h.congr rfl rfl fun _ _ => .inl (hlogging _ rfl)

theorem Sound.look (h : d.Sound link t) (hroot : link.place ≠ some [])
    (hfile : link.file < d.next) : (d.look link).Sound link t := by
  unfold Disk.look
  cases hp : link.place with
  | none => exact h
  | some place =>
    have hne : place ≠ [] := fun e => hroot (e ▸ hp)
    cases hlog : d.isLogging link with
    | true => simpa only [if_true] using h.remember
    | false =>
      have hclear := h.clearJournal hp hne
      have hnext : link.file < (d.clearJournal link place).next :=
        Nat.lt_of_lt_of_le hfile (ChangedBy.clearJournal hp).next
      have hpass : d.Passable place := by
        rcases h.clear place hp with h | h
        · rw [hlog] at h
          cases h
        · exact h.1
      have hpass' : (d.clearJournal link place).Passable place := by
        rcases d.clearJournal_eq link place with e | e
        · rw [e]
          exact hpass
        · rw [e]
          exact hpass.unlink_journal hne
      have hstuck := ((passable_iff h.database.formatted .statement).mp hpass).1
      have hfree := ((passable_iff hclear.database.formatted .statement).mp hpass').2
      simp only [hstuck, hfree, Bool.false_eq_true, if_false, Option.isSome_none]
      exact (hclear.openLog hnext).remember

theorem Sound.dropJournal (h : d.Sound link t) (hroot : link.place ≠ some []) :
    (d.dropJournal link).Sound link t := by
  unfold Disk.dropJournal
  cases hp : link.place with
  | none => exact h
  | some place =>
    dsimp only
    split
    · exact h
    · exact h.unlink_journal hp fun e => hroot (e ▸ hp)

theorem content_putTable (d : Disk) (link : Link) (new : Table) :
    (d.putTable link (some new)).content link.file = .database
      { d.database link.file with
        table := some new, formatted := true
        changes := if (d.database link.file).formatted && (d.database link.file).table == some new
          then (d.database link.file).changes else (d.database link.file).changes + 1 } :=
  if_pos rfl

theorem healthy_putTable (hfaults : (d.database link.file).faults = {}) (new : Table) :
    ((d.putTable link (some new)).database link.file).Healthy new := by
  rw [Disk.database, content_putTable]
  exact ⟨rfl, hfaults, rfl⟩

theorem trusts_putTable (d : Disk) (link : Link) (new : Table) :
    (d.putTable link (some new)).mistrusts link = false := by
  have hmemory : (d.putTable link (some new)).memory link.number =
      { tableMissing := false, stamp := some ((d.putTable link (some new)).stamp link) } :=
    if_pos rfl
  simp only [mistrusts, hmemory, content_putTable, Content.isJunk, Bool.and_false,
    Bool.false_and, Bool.or_false]

theorem Sound.putTable (h : d.Sound link t) (new : Table) :
    (d.putTable link (some new)).Sound link new := by
  have hholds : ∀ p, (d.putTable link (some new)).holds p = d.holds p := by
    intro p
    simp only [holds, Disk.putTable, fill_node, fill_content]
    split
    · rename_i f _
      by_cases hf : f = link.file
      · rw [if_pos hf, hf, content_of_healthy h.database]
        rfl
      · rw [if_neg hf]
    · rfl
  refine ⟨h.writable, healthy_putTable h.database.faults new,
    fun _ _ => trusts_putTable d link new, fun place hp => ?_⟩
  rcases h.clear place hp with hlog | ⟨hpass, hfile⟩
  · exact .inl hlog
  · refine .inr ⟨hpass.congr rfl hholds, ?_⟩
    rwa [hholds]

theorem Serves.of_changedBy {d' : Disk} {t' : Table} (h : d.Serves link t)
    (hd : ChangedBy link d d') (hs : d'.Sound link t') : d'.Serves link t' :=
  ⟨seen_healthy_iff.mpr hs, h.root, Nat.lt_of_lt_of_le h.file hd.next⟩

/-- **Looking.** A connection that looks into a healthy file serves it as before. -/
theorem Serves.look (h : d.Serves link t) : (d.look link).Serves link t :=
  h.of_changedBy (ChangedBy.look link d) (h.sound.look h.root h.file)

theorem Serves.dropJournal (h : d.Serves link t) : (d.dropJournal link).Serves link t :=
  h.of_changedBy (ChangedBy.dropJournal link d) (h.sound.dropJournal h.root)

/-- **Replacing the table.** The connection then serves the new one. -/
theorem Serves.putTable (h : d.Serves link t) (new : Table) :
    (d.putTable link (some new)).Serves link new :=
  h.of_changedBy (ChangedBy.putTable link d _) (h.sound.putTable new)

end Disk
end QueryTally
