import QueryTally.Proofs.Engine.Reopening
import QueryTally.Proofs.Store.Settling
import QueryTally.Viewer

/-! # Visiting a database again

An engine that is opened on a database and closed again may change it: it purges what is old and
puts the record of the present hour in the form in which it has taken it up. Both are done then
(`Settled`), so that nobody who comes after it in the same hour changes a row, and everybody is
given the same reports. -/

namespace QueryTally.Engine

open QueryTally.Disk QueryTally.Hour

variable {c : Config} {e : Engine} {d : Disk} {t table : Table} {now cutoff : Hour}
variable {name : String} {days : UInt32} {place : Path} {record : HourRecord} {live : LiveHour}
variable {runtime : Bool} {command : Viewer.Command}

/-! ## Queries -/

def askAll (e : Engine) (now : Hour) (asked : List Granularity) (d : Disk) : Disk :=
  asked.foldl (fun d g => (e.query g now d).disk) d

/-- An engine whose answers are these, whatever it was asked before. -/
def Answers (e : Engine) (now : Hour) (d : Disk) (answer : Granularity → Except Halt Report) :
    Prop :=
  ∀ asked g, (e.query g now (e.askAll now asked d)).result = answer g

def answerFor (live : LiveHour) (table : Table) (limit : UInt32) (now : Hour) (g : Granularity) :
    Except Halt Report :=
  (reportFor live table limit g now).mapError .overflow

/-- An engine on the database under a name, which has taken up an hour with this record. -/
structure Opened (e : Engine) (d : Disk) (name : String) (days : UInt32) (place : Path) (t : Table)
    (now : Hour) (record : HourRecord) : Prop where
  limit : e.limit = Config.limitHours days
  named : e.store.name = name
  held : ∃ link, e.store.link = some link ∧ d.Holds name place link t
  live : ∃ u, e.live = some u ∧ u.hour = now ∧ u.toRecord = record

namespace Opened

theorem askAll (h : Opened e d name days place t now record) (asked : List Granularity) :
    Opened e (e.askAll now asked d) name days place t now record := by
  induction asked generalizing d with
  | nil => exact h
  | cons g asked ih =>
    obtain ⟨link, hs, hholds⟩ := h.held
    obtain ⟨hserves, hchanged⟩ := query_serves hs hholds.serves g now
    exact ih { h with held := ⟨link, hs, hholds.of_changedBy hchanged hserves⟩ }

/-- The answers depend on the record of the live hour, and on what is stored of the others. -/
theorem answers (h : Opened e d name days place t now record) (hlive : live.hour = now)
    (hrecord : live.toRecord = record)
    (hstored : ∀ hour, hour ≠ now → table.record? hour = t.record? hour) :
    e.Answers now d (answerFor live table (Config.limitHours days) now) := by
  intro asked g
  obtain ⟨link, hs, hholds⟩ := (h.askAll asked).held
  obtain ⟨u, hu, hhour, hsame⟩ := h.live
  rw [query_eq hu hs hholds.serves, h.limit, answerFor]
  have hat : recordAt u t now = recordAt live table now := by
    funext hour
    simp only [recordAt, Window.slotOf, Store.recordIn, hhour, hlive, hsame, hrecord]
    by_cases hnow : hour = now
    · rw [if_pos hnow, if_pos hnow]
    · rw [hstored hour hnow]
  simp only [reportFor, windowOf, hat, hhour, hlive]

/-- A database that an engine has been opened on can be opened by the next one. -/
theorem ready (h : Opened e d name days place t now record) : Store.Ready d name place t := by
  obtain ⟨link, -, hholds⟩ := h.held
  exact Store.ready_of_hosts hholds.hosts
    (.healthy hholds.file hholds.serves.file hholds.serves.sound.database)

/-- So it can once the engine is closed. -/
theorem close (h : Opened e d name days place t now record) :
    Store.Ready (e.close d).disk name place (t.store now record) := by
  obtain ⟨link, hs, hholds⟩ := h.held
  obtain ⟨u, hu, rfl, rfl⟩ := h.live
  obtain rfl := h.named
  exact (close_eq hu hs hholds).2.2

end Opened

/-! ## Settled tables -/

/-- A table with nothing to purge, and with the record of an hour in the form that it is given
when the hour is taken up. -/
structure Settled (t : Table) (now cutoff : Hour) (record : HourRecord) : Prop where
  purged : t.stale cutoff = []
  stored : t.record? now = some record
  again : t.store now record = t
  reduced : ∃ u : LiveHour, u.toRecord = record

/-- **Settling.** A table is settled by a purge and by storing an hour that is not purged. -/
theorem settled_store (hnames : live.NamesFit) (hcutoff : cutoff ≤ now) (table : Table) :
    Settled ((table.purge cutoff).store now live.toRecord) now cutoff live.toRecord where
  purged := Table.stale_store (table.stale_purge cutoff) hcutoff _
  stored := by rw [Table.record?_store (LiveHour.toRecord_fits hnames), if_pos rfl]
  again := Table.store_store _ now live.toRecord
  reduced := ⟨live, rfl⟩

theorem Settled.ne_empty (h : Settled t now cutoff record) : t ≠ Table.empty := by
  rintro rfl
  cases h.stored

/-- **Opening** an engine: it has purged the table and taken up the hour. -/
theorem opened_of_launch (h : Store.Ready d c.path place table)
    (hopen : (launch c runtime now d).result = .ok e) :
    ∃ (cutoff : Hour) (live : LiveHour),
      openingCutoff now (Config.limitHours c.days) = .ok cutoff ∧ live.hour = now ∧ live.NamesFit ∧
        Opened e (launch c runtime now d).disk c.path c.days place (table.purge cutoff) now
          live.toRecord := by
  obtain ⟨cutoff, live, hcutoff, hresume⟩ := launch_cases h (by rw [hopen]; nofun)
  have hhour := hour_resume hresume
  obtain ⟨link, d', hholds, hdisk, hresult⟩ := launch_eq runtime h hcutoff hresume
  refine ⟨cutoff, live, hcutoff, hhour, namesFit_resume hresume, ?_⟩
  cases hstarted : started c runtime with
  | error err =>
    rw [hstarted, hopen] at hresult
    cases hresult
  | ok u =>
    rw [hstarted] at hdisk hresult
    rw [hdisk]
    obtain rfl := Except.ok.inj (hopen.symm.trans hresult)
    exact ⟨rfl, rfl, ⟨link, rfl, hholds⟩, live, rfl, hhour, rfl⟩

/-- **Opening an engine on a settled table.** There is nothing to purge, and the hour is taken up
with the record that it has. -/
theorem Settled.launch (ht : Settled t now cutoff record) (runtime : Bool)
    (hcutoff : openingCutoff now (Config.limitHours c.days) = .ok cutoff)
    (h : Store.Ready d c.path place t) :
    match started c runtime with
    | .ok () => ∃ e, (launch c runtime now d).result = .ok e ∧
        Opened e (launch c runtime now d).disk c.path c.days place t now record
    | .error err => (launch c runtime now d).result = .error (.failure err) ∧
        Store.Ready (launch c runtime now d).disk c.path place t := by
  obtain ⟨u, rfl⟩ := ht.reduced
  obtain ⟨live, hresume, hrecord⟩ := LiveHour.ofRecord_toRecord now u
  have hfound : resume now (t.record? now) = .ok live := by
    rw [ht.stored]
    exact hresume
  obtain ⟨link, d', hholds, hdisk, hresult⟩ := launch_eq runtime h hcutoff hfound
  rw [Table.purge_of_stale_eq_nil ht.purged] at hholds
  rw [hdisk, hresult]
  cases started c runtime with
  | ok _ => exact ⟨_, rfl, rfl, rfl, ⟨link, rfl, hholds⟩, live, rfl,
      LiveHour.hour_ofRecord hresume, hrecord⟩
  | error err => exact ⟨rfl, Store.release_ready (s := ⟨c.path, some link⟩) rfl hholds⟩

/-! ## Visits -/

inductive Visit where
  /-- An engine is opened, asked and closed. -/
  | engine (rotation : RotationPolicy) (runtime : Bool) (asked : List Granularity)
  /-- The viewer is run. -/
  | viewer (command : Viewer.Command)
  deriving DecidableEq

def Visit.run (c : Config) (now : Hour) (d : Disk) : Visit → Disk
  | .engine rotation runtime asked =>
    let opening := launch { c with rotation } runtime now d
    match opening.result with
    | .ok e => (e.close (e.askAll now asked opening.disk)).disk
    | .error _ => opening.disk
  | .viewer command => (Viewer.runWith ⟨c.path, c.days, command⟩ now d).disk

/-- What the viewer is asked to show, it shows without a change to a settled table. -/
theorem Opened.ready_perform (h : Opened e d name days place t now record)
    (ht : Settled t now cutoff record) (hcommand : command ≠ .reset) :
    Store.Ready (Viewer.perform e now d command).disk name place t := by
  cases command with
  | reset => exact absurd rfl hcommand
  | info => exact ht.again ▸ h.close
  | report g format =>
    have hasked : Opened e (e.query g now d).disk name days place t now record := h.askAll [g]
    have hclosed := ht.again ▸ hasked.close
    simp only [Viewer.perform]
    cases (e.query g now d).result with
    | ok r => exact hclosed
    | error halt =>
      cases halt with
      | failure err => exact hclosed
      | overflow o => exact hasked.ready

/-- What the viewer shows depends on the answers that it is given. -/
theorem Opened.lines_perform {e' : Engine} {d' : Disk} {t' : Table}
    (h : Opened e d name days place t now record) (h' : Opened e' d' name days place t' now record)
    {answer : Granularity → Except Halt Report} (ha : e.Answers now d answer)
    (ha' : e'.Answers now d' answer) (command : Viewer.Command) :
    (Viewer.perform e' now d' command).lines = (Viewer.perform e now d command).lines := by
  cases command with
  | reset => rfl
  | info =>
    obtain ⟨u, hu, hhour, -⟩ := h.live
    obtain ⟨u', hu', hhour', -⟩ := h'.live
    simp only [Viewer.perform, Viewer.infoLines, Engine.days, Engine.hour?, hu, hu', hhour, hhour',
      h.limit, h'.limit, Option.map_some]
  | report g format =>
    have hresult : (e.query g now d).result = answer g := ha [] g
    have hresult' : (e'.query g now d').result = answer g := ha' [] g
    simp only [Viewer.perform, hresult, hresult']
    cases answer g with
    | ok r => rfl
    | error halt => cases halt <;> rfl

/-- A run of the viewer on a settled table. -/
theorem Settled.runWith (ht : Settled t now cutoff record)
    (hcutoff : openingCutoff now (Config.limitHours days) = .ok cutoff)
    (h : Store.Ready d name place t) (hdays : Config.isSupported days = true)
    (command : Viewer.Command) :
    ∃ e d', Opened e d' name days place t now record ∧
      Viewer.runWith ⟨name, days, command⟩ now d = Viewer.perform e now d' command := by
  obtain ⟨e, hlaunch, hopened⟩ :=
    ht.launch (c := ⟨name, days, { enabled := false }⟩) false hcutoff h
  refine ⟨e, _, hopened, ?_⟩
  have hvalid : Config.validate ⟨name, days, { enabled := false }⟩ = .ok () := by
    simp [Config.validate, hdays]
  simp only [Viewer.runWith, hvalid, hlaunch]

/-- **A visit to a settled table** leaves it as it is. -/
theorem Settled.run (ht : Settled t now cutoff record)
    (hcutoff : openingCutoff now (Config.limitHours c.days) = .ok cutoff)
    (h : Store.Ready d c.path place t) {v : Visit} (hv : v ≠ .viewer .reset) :
    Store.Ready (v.run c now d) c.path place t := by
  cases v with
  | engine rotation runtime asked =>
    have hlaunch := ht.launch (c := { c with rotation }) runtime hcutoff h
    cases hstarted : started { c with rotation } runtime with
    | error err =>
      rw [hstarted] at hlaunch
      simp only [Visit.run, hlaunch.1]
      exact hlaunch.2
    | ok _ =>
      rw [hstarted] at hlaunch
      obtain ⟨e, hresult, hopened⟩ := hlaunch
      simp only [Visit.run, hresult]
      exact ht.again ▸ (hopened.askAll asked).close
  | viewer command =>
    have hcommand : command ≠ .reset := fun e => hv (congrArg Visit.viewer e)
    cases hdays : Config.isSupported c.days with
    | true =>
      obtain ⟨e, d', hopened, hrun⟩ := ht.runWith hcutoff h hdays command
      simp only [Visit.run, hrun]
      exact hopened.ready_perform ht hcommand
    | false =>
      have hinvalid : Config.validate ⟨c.path, c.days, { enabled := false }⟩ =
          .error (.invalidInterval c.days) := by simp [Config.validate, hdays]
      simp only [Visit.run, Viewer.runWith, hinvalid]
      exact h

/-- So do any number of visits. -/
theorem Settled.foldl_run (ht : Settled t now cutoff record)
    (hcutoff : openingCutoff now (Config.limitHours c.days) = .ok cutoff)
    (h : Store.Ready d c.path place t) {visits : List Visit}
    (hvisits : ∀ v ∈ visits, v ≠ .viewer .reset) :
    Store.Ready (visits.foldl (Visit.run c now) d) c.path place t := by
  induction visits generalizing d with
  | nil => exact h
  | cons v visits ih =>
    obtain ⟨hv, hvisits⟩ := List.forall_mem_cons.mp hvisits
    exact ih (ht.run hcutoff h hv) hvisits

/-- **Opening and closing settles a database**, whatever is in its table, at any hour and for any
number of days. Once an engine has been opened, asked and closed, no later visit in the same hour
changes a row, be it by an engine or by the viewer. An engine that is opened then gives the answers
that the first one gave, and the viewer shows what it would have shown on the first one. -/
theorem reopening_settles (h : Store.Ready d c.path place table)
    (hopen : (launch c runtime now d).result = .ok e) :
    ∃ answer t, e.Answers now (launch c runtime now d).disk answer ∧
      ∀ (asked : List Granularity) (visits : List Visit), (∀ v ∈ visits, v ≠ .viewer .reset) →
        let closed := (e.close (e.askAll now asked (launch c runtime now d).disk)).disk
        let later := visits.foldl (Visit.run c now) closed
        closed.tableAt? place = some t ∧ later.tableAt? place = some t ∧
          (∀ rotation runtime', started { c with rotation } runtime' = .ok () →
            ∃ e', (launch { c with rotation } runtime' now later).result = .ok e' ∧
              e'.Answers now (launch { c with rotation } runtime' now later).disk answer) ∧
          (Config.isSupported c.days = true → ∀ command,
            (Viewer.runWith ⟨c.path, c.days, command⟩ now later).lines =
              (Viewer.perform e now (launch c runtime now d).disk command).lines) := by
  obtain ⟨cutoff, live, hcutoff, hhour, hnames, hopened⟩ := opened_of_launch h hopen
  have hsettled := settled_store hnames (openingCutoff_le hcutoff) table
  have hanswers := hopened.answers hhour rfl fun _ _ => rfl
  -- What is stored of the other hours is what the first engine found there.
  have hstored : ∀ hour, hour ≠ now → (table.purge cutoff).record? hour =
      ((table.purge cutoff).store now live.toRecord).record? hour := by
    intro hour hne
    rw [Table.record?_store (LiveHour.toRecord_fits hnames), if_neg hne]
  refine ⟨answerFor live (table.purge cutoff) (Config.limitHours c.days) now,
    (table.purge cutoff).store now live.toRecord, hanswers, fun asked visits hvisits => ?_⟩
  have hclosed := (hopened.askAll asked).close
  have hlater := hsettled.foldl_run hcutoff hclosed hvisits
  refine ⟨hclosed.tableAt?_eq hsettled.ne_empty, hlater.tableAt?_eq hsettled.ne_empty, ?_, ?_⟩
  · intro rotation runtime' hstarted
    have hlaunch := hsettled.launch (c := { c with rotation }) runtime' hcutoff hlater
    rw [hstarted] at hlaunch
    obtain ⟨e', hresult, hopened'⟩ := hlaunch
    exact ⟨e', hresult, hopened'.answers hhour rfl hstored⟩
  · intro hdays command
    obtain ⟨e', d', hopened', hrun⟩ := hsettled.runWith hcutoff hlater hdays command
    rw [hrun]
    exact hopened.lines_perform hopened' hanswers (hopened'.answers hhour rfl hstored) command

/-- A table in which others have written: an hour that is over, one before the epoch, a key that is
no hour's, a second slot of the present hour, and a record of it with a name that is there twice. -/
def sampleForeign : Table :=
  let noted (h : Hour) (slot : Cell) : Row := ⟨h.cell, slot, .blob [7]⟩
  (((((Table.empty.put (noted 5 recordSlot)).put (noted (-3) recordSlot)).put
    ⟨.blob [1, 2], recordSlot, .text "x"⟩).put (noted 1000 (.blob [1]))).store 1000
      { total := 5, results := [5], domains := [⟨"example.org", 2⟩, ⟨"example.org", 3⟩] })

def sampleForeignDisk : Disk :=
  { sampleDisk with content := fun _ => .database { table := some sampleForeign } }

def sampleConfig : Config where
  path := "stats.db"
  rotation := { enabled := false }

theorem ready_sampleForeign :
    Store.Ready sampleForeignDisk sampleConfig.path ["stats.db"] sampleForeign :=
  Store.ready_of_hosts (hosts_sample.congr ⟨rfl, fun _ => rfl⟩ fun _ _ => ⟨rfl, nofun⟩)
    (.healthy rfl Nat.zero_lt_two ⟨rfl, rfl, rfl⟩)

theorem reopening_settles_sample :
    ∃ e t, (launch sampleConfig false 1000 sampleForeignDisk).result = .ok e ∧
      let closed := (e.close (launch sampleConfig false 1000 sampleForeignDisk).disk).disk
      let later := [Visit.engine {} true [.days], .viewer (.report .hours "json")].foldl
        (Visit.run sampleConfig 1000) closed
      closed.tableAt? ["stats.db"] = some t ∧ later.tableAt? ["stats.db"] = some t ∧
        t.rows.length + 1 = sampleForeign.rows.length ∧
        ∃ e', (launch sampleConfig false 1000 later).result = .ok e' ∧
          (e'.query .hours 1000 (launch sampleConfig false 1000 later).disk).result =
            (e.query .hours 1000 (launch sampleConfig false 1000 sampleForeignDisk).disk).result := by
  have hsome : (launch sampleConfig false 1000 sampleForeignDisk).result.isOk = true := by
    decide +kernel
  obtain ⟨e, hopen⟩ := exists_eq_ok_of_isOk hsome
  obtain ⟨answer, t, hanswers, hsettles⟩ := reopening_settles ready_sampleForeign hopen
  obtain ⟨hclosed, hlater, hagain, -⟩ :=
    hsettles [] [.engine {} true [.days], .viewer (.report .hours "json")] (by decide)
  obtain ⟨e', hopen', hanswers'⟩ := hagain sampleConfig.rotation false rfl
  refine ⟨e, t, hopen, hclosed, hlater, ?_, e', hopen', ?_⟩
  · have hrows : ((launch sampleConfig false 1000 sampleForeignDisk).result.toOption.bind fun e =>
        (e.close (launch sampleConfig false 1000 sampleForeignDisk).disk).disk.tableAt?
          ["stats.db"]).map (·.rows.length + 1) = some sampleForeign.rows.length := by
      decide +kernel
    rw [hopen] at hrows
    obtain ⟨t', ht', hlength⟩ := Option.map_eq_some_iff.mp hrows
    obtain rfl := Option.some.inj (hclosed.symm.trans ht')
    exact hlength
  · exact (hanswers' [] .hours).trans (hanswers [] .hours).symm

end QueryTally.Engine
