import QueryTally.Proofs.Disk.Serving

/-! # Disks that host a database

A disk hosts a database under a name if the name leads to a place that is free for it and for
its companions (`Disk.Hosts`). That depends on nothing but the directories, so no connection
takes it away. What is kept at the place while nobody is connected (`Disk.Keeps`) is served
by the next connection, and is kept again once that is released. -/

namespace QueryTally.Disk

variable {d d' : Disk} {name : String} {place : Path} {link : Link} {t : Table}

/-- Two disks with the same directories. -/
structure SameDirectories (d d' : Disk) : Prop where
  here : d'.here = d.here
  directories : ∀ p, (d'.node p).isDirectory = (d.node p).isDirectory

theorem ChangedBy.same (h : ChangedBy link d d') : SameDirectories d d' :=
  ⟨h.here, h.directories⟩

theorem SameDirectories.refl (d : Disk) : SameDirectories d d := ⟨rfl, fun _ => rfl⟩

theorem SameDirectories.trans {d'' : Disk} (h : SameDirectories d d')
    (k : SameDirectories d' d'') : SameDirectories d d'' :=
  ⟨k.here.trans h.here, fun p => (k.directories p).trans (h.directories p)⟩

theorem sameDirectories_set {p : Path} {n : Node} (hp : (d.node p).isDirectory = false)
    (hn : n.isDirectory = false) : SameDirectories d (d.set p n) := by
  refine ⟨rfl, fun q => ?_⟩
  rw [set_node]
  split
  · rename_i hq
    rw [hq, hp, hn]
  · rfl

/-! ## Names -/

def Leads (d : Disk) (here : Path) : List String → Prop
  | [] => True
  | s :: rest => ∃ p, d.step here s = .ok p ∧ d.node p = .directory ∧ d.Leads p rest

theorem directory_of_isDirectory {n : Node} (h : n.isDirectory = true) : n = .directory := by
  cases n with
  | directory => rfl
  | absent => cases h
  | file f => cases h

theorem directory_congr (hd : SameDirectories d d') {p : Path}
    (h : d.node p = .directory) : d'.node p = .directory := by
  refine directory_of_isDirectory ?_
  rw [hd.directories, h]
  rfl

theorem directory_of_step {here p : Path} {s : String} (h : d.step here s = .ok p) :
    d.node here = .directory := by
  unfold step at h
  split at h
  · cases h
  · cases h
  · assumption

theorem step_congr (hd : SameDirectories d d') {here p : Path} {s : String}
    (h : d.step here s = .ok p) : d'.step here s = .ok p := by
  have hhere := directory_of_step h
  rw [← h]
  simp only [step, hhere, directory_congr hd hhere]

theorem leads_congr (hd : SameDirectories d d') {steps : List String} {here : Path}
    (h : d.Leads here steps) : d'.Leads here steps := by
  induction steps generalizing here with
  | nil => trivial
  | cons s rest ih =>
    obtain ⟨p, hstep, hp, hrest⟩ := h
    exact ⟨p, step_congr hd hstep, directory_congr hd hp, ih hrest⟩

theorem makeWay_of_leads {steps : List String} {here : Path} (h : d.Leads here steps) :
    d.makeWay here steps = (.ok (), d) := by
  induction steps generalizing here with
  | nil => rfl
  | cons s rest ih =>
    obtain ⟨p, hstep, hp, hrest⟩ := h
    simp only [makeWay, hstep, hp]
    exact ih hrest

theorem foldlM_step_congr (hd : SameDirectories d d') {steps : List String} {here p : Path}
    (h : steps.foldlM d.step here = .ok p) :
    steps.foldlM d'.step here = .ok p := by
  induction steps generalizing here with
  | nil => exact h
  | cons s rest ih =>
    rw [List.foldlM_cons] at h ⊢
    obtain ⟨q, hq, hrest⟩ := bind_eq_ok_iff.mp h
    exact bind_eq_ok_iff.mpr ⟨q, step_congr hd hq, ih hrest⟩

theorem find_congr (hd : SameDirectories d d') {p : Path}
    (h : d.find name = .ok p) : d'.find name = .ok p := by
  unfold find at h ⊢
  split
  · rename_i hnul
    rw [if_pos hnul] at h
    cases h
  · rename_i hnul
    rw [if_neg hnul] at h
    rw [start, hd.here]
    exact foldlM_step_congr hd h

/-- One step of a name as the database takes it. -/
def locateStep (d : Disk) (here : Path) (s : String) : Option Path :=
  if s = "" ∨ s = "." then some here
  else if s = ".." then some here.dropLast
  else if Path.nameFits s ∧ !(d.node here).isFile then some (here ++ [s])
  else none

theorem locate_eq (d : Disk) (name : String) :
    d.locate name = (nameSteps name).foldlM d.locateStep (d.start name) := rfl

/-- The database takes each step that the disk takes. -/
theorem locateStep_of_step {here p : Path} {s : String} (h : d.step here s = .ok p) :
    d.locateStep here s = some p := by
  have hhere := directory_of_step h
  simp only [step, hhere] at h
  unfold locateStep
  split at h
  · rename_i hs
    rw [if_pos hs]
    cases h
    rfl
  · rename_i hs
    rw [if_neg hs]
    split at h
    · rename_i hs
      rw [if_pos hs]
      cases h
      rfl
    · rename_i hs
      rw [if_neg hs]
      split at h
      · rename_i hs
        cases h
        rw [if_pos ⟨hs, by rw [hhere]; rfl⟩]
      · cases h

theorem locate_of_find {p : Path} (h : d.find name = .ok p) : d.locate name = some p := by
  unfold find at h
  split at h
  · cases h
  · rw [locate_eq]
    generalize d.start name = here at h ⊢
    generalize nameSteps name = steps at h ⊢
    induction steps generalizing here with
    | nil =>
      cases h
      rfl
    | cons s rest ih =>
      rw [List.foldlM_cons] at h ⊢
      obtain ⟨q, hq, hrest⟩ := bind_eq_ok_iff.mp h
      exact Option.bind_eq_some_iff.mpr ⟨q, locateStep_of_step hq, ih q hrest⟩

/-! ## Places -/

/-- No number is in use from the next one on. -/
def Fresh (d : Disk) : Prop :=
  ∀ n, d.next ≤ n → d.memory n = {} ∧ ∀ f, (n, f) ∉ d.logging

/-- A disk on which a name means a file to write to, at a place that is free for a database. -/
structure Hosts (d : Disk) (name : String) (place : Path) : Prop where
  location : ∃ file access, Location.ofName? name = some (.file file access) ∧
    access ≠ .read ∧ d.find file = .ok place
  /-- A name that is a path leads to the companions too. -/
  beside : Location.ofName? name = some (.file name .create) →
    ∀ suffix ∈ companions, d.find (name ++ suffix) = .ok (place.withSuffix suffix)
  named : (parentSteps name).any hasNul = false
  parents : d.Leads (d.start name) (parentSteps name)
  reachable : d.reachable place = true
  fits : place.journal.fits = true
  root : place ≠ []
  free : ∀ suffix ∈ companions, (d.node (place.withSuffix suffix)).isDirectory = false
  fresh : d.Fresh

/-- Hosting depends on directories, and on which numbers are in use. -/
theorem Hosts.congr (h : d.Hosts name place) (hd : SameDirectories d d') (hfresh : d'.Fresh) :
    d'.Hosts name place where
  location := by
    obtain ⟨file, access, hname, haccess, hfound⟩ := h.location
    exact ⟨file, access, hname, haccess, find_congr hd hfound⟩
  beside hname suffix hs := find_congr hd (h.beside hname suffix hs)
  named := h.named
  parents := by
    rw [start, hd.here]
    exact leads_congr hd h.parents
  reachable := by
    rw [← h.reachable]
    simp only [Disk.reachable, hd.directories]
  fits := h.fits
  root := h.root
  free suffix hs := (hd.directories _).trans (h.free suffix hs)
  fresh := hfresh

theorem Hosts.makeParents_eq (h : d.Hosts name place) : d.makeParents name = (.ok (), d) := by
  rw [makeParents, h.named]
  exact makeWay_of_leads h.parents

/-- A connection takes no place from a database. -/
theorem Hosts.of_changedBy (h : d.Hosts name place) (hd : ChangedBy link d d')
    (hn : link.number < d.next) : d'.Hosts name place := by
  refine h.congr hd.same fun n hle => ?_
  have hne : n ≠ link.number := by
    have := hd.next
    omega
  obtain ⟨hmemory, hlogging⟩ := h.fresh n (Nat.le_trans hd.next hle)
  exact ⟨(hd.memory n hne).trans hmemory, fun f hf => hlogging f (hd.logging n f hne hf)⟩

theorem Hosts.passable (h : d.Hosts name place) {f : FileNumber} (hf : d.node place = .file f) :
    d.Passable place where
  journal := h.free _ (by decide)
  log := h.free _ (by decide)
  index _ := h.free _ (by decide)
  gone hgone := by
    rw [hf] at hgone
    cases hgone

/-- A connection by a name, to the file that stands at its place, which serves a table. -/
structure Holds (d : Disk) (name : String) (place : Path) (link : Link) (t : Table) : Prop where
  hosts : d.Hosts name place
  serves : d.Serves link t
  placed : link.place = some place
  file : d.node place = .file link.file
  number : link.number < d.next

theorem Holds.of_changedBy {t' : Table} (h : d.Holds name place link t)
    (hd : ChangedBy link d d') (hs : d'.Serves link t') : d'.Holds name place link t' where
  hosts := h.hosts.of_changedBy hd h.number
  serves := hs
  placed := h.placed
  file := (hd.place place h.placed h.hosts.root).trans h.file
  number := Nat.lt_of_lt_of_le h.number hd.next

/-- Whether a missing file is made for a name. -/
def Creates (name : String) : Prop := ∃ file, Location.ofName? name = some (.file file .create)

/-- What stands at the place of a name by which nobody is connected: nothing, if a file can be
made, or a file without a table, or a healthy database. -/
inductive Keeps (d : Disk) (name : String) (place : Path) : Table → Prop
  | absent (hc : Creates name) (hn : d.node place = .absent) : Keeps d name place Table.empty
  | bare {f : FileNumber} (hn : d.node place = .file f) (hf : f < d.next)
      (ht : (d.database f).table = none) (hfaults : (d.database f).faults = {}) :
      Keeps d name place Table.empty
  | healthy {f : FileNumber} {t : Table} (hn : d.node place = .file f) (hf : f < d.next)
      (hdb : (d.database f).Healthy t) : Keeps d name place t

/-- The record of an hour in the file at a place. -/
def recordAt? (d : Disk) (place : Path) (h : Hour) : Option HourRecord :=
  match d.node place with
  | .file f => (d.database f).table.bind (·.record? h)
  | _ => none

/-- The table in the file at a place, if there is one. -/
def tableAt? (d : Disk) (place : Path) : Option Table :=
  match d.node place with
  | .file f => (d.database f).table
  | _ => none

theorem recordAt?_eq (d : Disk) (place : Path) (h : Hour) :
    d.recordAt? place h = (d.tableAt? place).bind (·.record? h) := by
  unfold recordAt? tableAt?
  cases d.node place <;> rfl

theorem recordAt?_file {f : FileNumber} (hn : d.node place = .file f) (h : Hour) :
    d.recordAt? place h = (d.database f).table.bind (·.record? h) := by
  rw [recordAt?, hn]

theorem Keeps.recordAt?_eq (hk : d.Keeps name place t) (h : Hour) :
    d.recordAt? place h = t.record? h := by
  cases hk with
  | absent hc hn => rw [recordAt?, hn, Table.record?_empty]
  | bare hn hf ht => rw [recordAt?_file hn, ht, Option.bind_none, Table.record?_empty]
  | healthy hn hf hdb => rw [recordAt?_file hn, hdb.table, Option.bind_some]

theorem Keeps.tableAt?_eq (hk : d.Keeps name place t) (ht : t ≠ Table.empty) :
    d.tableAt? place = some t := by
  cases hk with
  | absent => exact absurd rfl ht
  | bare => exact absurd rfl ht
  | healthy hn hf hdb =>
    simp only [tableAt?, hn]
    exact hdb.table

theorem Holds.recordAt?_eq (hh : d.Holds name place link t) (h : Hour) :
    d.recordAt? place h = t.record? h := by
  rw [recordAt?_file hh.file, hh.serves.sound.database.table, Option.bind_some]

/-- What a new directory in an empty place keeps, all of them keep. -/
theorem makeWay_keeps {P : Disk → Prop}
    (hset : ∀ d p, d.node p = .absent → P d → P (d.set p .directory)) (hd : P d) (here : Path)
    (steps : List String) : P (d.makeWay here steps).2 := by
  induction steps generalizing d here with
  | nil => exact hd
  | cons s rest ih =>
    simp only [makeWay]
    cases d.step here s with
    | error e => exact hd
    | ok p =>
      dsimp only
      cases hn : d.node p with
      | file f => exact hd
      | directory => exact ih hd p
      | absent => exact ih (hset d p hn hd) p

/-- New directories take the place of no file. -/
theorem tableAt?_makeWay (d : Disk) (here : Path) (steps : List String) (place : Path) :
    (d.makeWay here steps).2.tableAt? place = d.tableAt? place := by
  refine makeWay_keeps (P := fun e => e.tableAt? place = d.tableAt? place) ?_ rfl here steps
  intro e p hn he
  rw [← he]
  simp only [tableAt?, set_node]
  by_cases hp : place = p
  · rw [if_pos hp, hp, hn]
  · rw [if_neg hp]
    rfl

theorem tableAt?_makeParents {u : Except StoreError Unit} (h : d.makeParents name = (u, d')) :
    d'.tableAt? place = d.tableAt? place := by
  unfold makeParents at h
  split at h
  · cases h
    rfl
  · rw [← tableAt?_makeWay d (d.start name) (parentSteps name) place, h]

/-! ## Connecting -/

theorem content_look (link : Link) {f : FileNumber} (hf : f < d.next) :
    (d.look link).content f = d.content f := by
  unfold look
  cases hp : link.place with
  | none => rfl
  | some place =>
    have hclear : (d.clearJournal link place).content = d.content := by
      rcases d.clearJournal_eq link place with e | e <;> simp [e]
    have hnext : f < (d.clearJournal link place).next :=
      Nat.lt_of_lt_of_le hf (ChangedBy.clearJournal hp).next
    have hopen : ((d.clearJournal link place).openLog link place).content f = d.content f := by
      simp only [openLog]
      split
      · split
        · rw [← hclear]
          exact if_neg (Nat.ne_of_lt hnext)
        · rw [hclear]
      · split
        · rw [unlink_content, hclear]
        · rw [hclear]
    dsimp only
    split
    · rw [remember_eq]
    · split
      · rfl
      · split
        · rw [hclear]
        · rw [remember_eq]
          exact hopen

theorem database_look (link : Link) {f : FileNumber} (hf : f < d.next) :
    (d.look link).database f = d.database f :=
  congrArg Content.toDatabase (content_look link hf)

theorem content_dropJournal (link : Link) (d : Disk) :
    (d.dropJournal link).content = d.content := by
  unfold dropJournal
  cases link.place with
  | none => rfl
  | some place =>
    dsimp only
    split
    · rfl
    · rw [unlink_content]

/-- A connection that has just been made by a name, to the file at its place. -/
structure Attached (d : Disk) (name : String) (place : Path) (link : Link) : Prop where
  hosts : d.Hosts name place
  placed : link.place = some place
  file : d.node place = .file link.file
  number : link.number < d.next
  used : link.file < d.next
  writable : link.readOnly = false
  memory : d.memory link.number = {}
  logging : d.isLogging link = false

theorem attached_newLink (h : d.Hosts name place) {f : FileNumber}
    (hf : d.node place = .file f) (hn : f < d.next) :
    (d.newLink f (some place) false).2.Attached name place
      (d.newLink f (some place) false).1 where
  hosts := by
    refine h.congr ⟨rfl, fun _ => rfl⟩ fun n hle => ?_
    exact h.fresh n (Nat.le_of_succ_le hle)
  placed := rfl
  file := hf
  number := Nat.lt_succ_self _
  used := Nat.lt_succ_of_lt hn
  writable := rfl
  memory := (h.fresh d.next (Nat.le_refl _)).1
  logging := by
    have := (h.fresh d.next (Nat.le_refl _)).2 f
    simpa [isLogging, newLink] using this

/-- A name leads to a connection, with an empty file for it if there was none. -/
theorem attach_eq (h : d.Hosts name place) (hk : d.Keeps name place t) :
    ∃ link d', d.attach name = (some link, d') ∧ d'.Attached name place link ∧
      ((d'.database link.file).Healthy t ∨ t = Table.empty ∧
        (d'.database link.file).table = none ∧ (d'.database link.file).faults = {}) := by
  obtain ⟨file, access, hname, haccess, hfound⟩ := h.location
  have hread : decide (access = .read) = false := decide_eq_false haccess
  simp only [attach, hname, locate_of_find hfound, h.reachable, hread, Bool.not_true,
    Bool.false_eq_true, if_false]
  cases hk with
  | absent hc hn =>
    obtain ⟨file', hc⟩ := hc
    obtain ⟨-, rfl⟩ := Location.file.inj (Option.some.inj (hname.symm.trans hc))
    have hset : SameDirectories d (d.set place (.file d.next)) :=
      sameDirectories_set (by rw [hn]; rfl) rfl
    have hmade : (d.make place (.bytes [])).Hosts name place :=
      h.congr ⟨rfl, hset.directories⟩ fun n hle => h.fresh n (Nat.le_of_succ_le hle)
    have hfile : (d.make place (.bytes [])).node place = .file d.next := if_pos rfl
    have hblank : (d.make place (.bytes [])).content d.next = .bytes [] := if_pos rfl
    simp only [hn, if_true]
    refine ⟨_, _, rfl, attached_newLink hmade hfile (Nat.lt_succ_self _), .inr ⟨trivial, ?_, ?_⟩⟩
    · exact congrArg (fun c => c.toDatabase.table) hblank
    · exact congrArg (fun c => c.toDatabase.faults) hblank
  | bare hn hf ht hfaults =>
    simp only [hn]
    exact ⟨_, _, rfl, attached_newLink h hn hf, .inr ⟨trivial, ht, hfaults⟩⟩
  | healthy hn hf hdb =>
    simp only [hn]
    exact ⟨_, _, rfl, attached_newLink h hn hf, .inl hdb⟩

theorem Attached.of_changedBy (h : d.Attached name place link) (hd : ChangedBy link d d')
    (hs : d'.Serves link t) : d'.Holds name place link t where
  hosts := h.hosts.of_changedBy hd h.number
  serves := hs
  placed := h.placed
  file := (hd.place place h.placed h.hosts.root).trans h.file
  number := Nat.lt_of_lt_of_le h.number hd.next

theorem Attached.trusts (h : d.Attached name place link)
    (hjunk : (d.content link.file).isJunk = false) : d.mistrusts link = false := by
  simp only [mistrusts, hjunk, h.memory, Bool.and_false, Bool.false_and, Bool.or_false]

/-- A connection to a file at a place that the disk hosts has its way. -/
theorem Hosts.serves (h : d.Hosts name place) (hp : link.place = some place)
    (hfile : d.node place = .file link.file) (hused : link.file < d.next)
    (hw : link.readOnly = false) (hdb : (d.database link.file).Healthy t)
    (htrust : d.mistrusts link = false) : d.Serves link t := by
  refine ⟨seen_healthy_iff.mpr ⟨hw, hdb, fun _ _ => htrust, fun p hp' => ?_⟩, ?_, hused⟩
  · obtain rfl := Option.some.inj (hp.symm.trans hp')
    exact .inr ⟨h.passable hfile, .inr hfile⟩
  · rw [hp]
    exact fun e => h.root (Option.some.inj e)

theorem Attached.serves (h : d.Attached name place link)
    (hdb : (d.database link.file).Healthy t) : d.Serves link t := by
  have hjunk : (d.content link.file).isJunk = false := by
    rw [content_of_healthy hdb]
    rfl
  exact h.hosts.serves h.placed h.file h.used h.writable hdb (h.trusts hjunk)

/-- A file without a table is seen as it is, so that a table can be made in it. -/
theorem Attached.seen_eq (h : d.Attached name place link)
    (hfaults : (d.database link.file).faults = {}) :
    d.seen link = d.database link.file := by
  have hjunk : (d.content link.file).isJunk = false := by
    cases hc : d.content link.file with
    | database db => rfl
    | bytes b =>
      rw [Disk.database, hc, Content.toDatabase] at hfaults
      split at hfaults
      · rename_i hlen
        exact decide_eq_false (Nat.not_lt.mpr hlen)
      · cases congrFun (congrArg Faults.begin hfaults) true
  have htrust := h.trusts hjunk
  have hread : d.readFailure link = none := by
    cases hf : (d.database link.file).formatted with
    | true =>
      exact (readFailure_eq_none_iff hf h.placed).mpr ⟨htrust, .inr (h.hosts.passable h.file)⟩
    | false =>
      have hlog : (d.node place.log).isDirectory = false := h.hosts.free _ (by decide)
      simp only [readFailure, h.placed, h.logging, journalStuck, logFailure, hf, htrust, hlog,
        Bool.false_and, Bool.not_false, Bool.false_eq_true, if_false, if_true, Option.or_none]
  have hjournal : (d.node place.journal).isDirectory = false := h.hosts.free _ (by decide)
  simp only [seen, hread, h.placed, h.writable, h.logging, findsLog, h.file, hjournal,
    h.hosts.fits, Node.isAbsent, Bool.false_or, Bool.not_true, Bool.false_eq_true, if_false,
    if_true]
  cases (d.database link.file).formatted <;> simp

/-- **Connecting.** A connection by a name serves what is kept at its place. -/
theorem connect_holds (h : d.Hosts name place) (hk : d.Keeps name place t) :
    ∃ link d', d.connect name = (.ok link, d') ∧ d'.Holds name place link t := by
  obtain ⟨link, d₁, hattach, hatt, hdb | ⟨rfl, htable, hfaults⟩⟩ := attach_eq h hk
  · have hserves := hatt.serves hdb
    refine ⟨link, d₁.look link, ?_, hatt.of_changedBy (ChangedBy.look link d₁) hserves.look⟩
    simp only [connect, hattach, hserves.healthy.table, Option.isSome_some, if_true]
  · have hseen := hatt.seen_eq hfaults
    have hfaults' : (((d₁.look link).dropJournal link).database link.file).faults = {} := by
      rw [Disk.database, content_dropJournal, content_look link hatt.used]
      exact hfaults
    have hchanged : ChangedBy link d₁ (((d₁.look link).dropJournal link).putTable link
        (some Table.empty)) :=
      ((ChangedBy.look link d₁).trans (ChangedBy.dropJournal link _)).trans
        (ChangedBy.putTable link _ _)
    have hfile := (hchanged.place place hatt.placed hatt.hosts.root).trans hatt.file
    refine ⟨link, _, ?_, hatt.of_changedBy hchanged ?_⟩
    · simp only [connect, hattach, hseen, htable, hfaults, hatt.writable, Option.isSome_none,
        Bool.or_false, Bool.false_eq_true, if_false]
    · exact (hatt.hosts.of_changedBy hchanged hatt.number).serves hatt.placed hfile
        (Nat.lt_of_lt_of_le hatt.used hchanged.next) hatt.writable
        (healthy_putTable hfaults' Table.empty) (trusts_putTable _ link Table.empty)

/-- Where no file stands, none is connected to unless it can be made. -/
theorem creates_of_connect (h : d.Hosts name place) (hn : d.node place = .absent)
    (hconnect : d.connect name = (.ok link, d')) : Creates name := by
  obtain ⟨file, access, hname, -, hfound⟩ := h.location
  by_cases hc : access = .create
  · exact ⟨file, hc ▸ hname⟩
  · simp only [connect, attach, hname, locate_of_find hfound, h.reachable, hn, hc, Bool.not_true,
      Bool.false_eq_true, if_false] at hconnect
    cases hconnect

/-! ## Letting go -/

theorem content_release (link : Link) (d : Disk) : (d.release link).content = d.content := by
  unfold release
  split
  · cases link.place with
    | none => rfl
    | some place =>
      dsimp only
      split
      · rfl
      · rw [unlink_content, unlink_content]
  · rfl

/-- **Letting go.** What was served is kept. -/
theorem Holds.release (h : d.Holds name place link t) :
    (d.release link).Hosts name place ∧ (d.release link).Keeps name place t := by
  have hchanged := ChangedBy.release link d
  have hfile := (hchanged.place place h.placed h.hosts.root).trans h.file
  refine ⟨h.hosts.of_changedBy hchanged h.number, .healthy hfile ?_ ?_⟩
  · exact Nat.lt_of_lt_of_le h.serves.file hchanged.next
  · rw [Disk.database, content_release]
    exact h.serves.sound.database

/-! ## Removing -/

/-- What removing one regular file keeps, removing several keeps. -/
theorem removeFiles_keeps {P : Disk → Prop}
    (hset : ∀ d p f, d.node p = .file f → P d → P (d.set p .absent)) (hd : P d)
    (names : List String) : P (d.removeFiles names).2 := by
  induction names generalizing d with
  | nil => exact hd
  | cons name rest ih =>
    simp only [removeFiles]
    cases d.find name with
    | error o =>
      cases o with
      | missing => exact ih hd
      | barred => exact hd
    | ok p =>
      dsimp only
      cases hn : d.node p with
      | absent => exact ih hd
      | directory => exact hd
      | file f => exact ih (hset d p f hn hd)

theorem Keeps.set {p : Path} {n : Node} (h : d.Keeps name place t) (hp : place ≠ p) :
    (d.set p n).Keeps name place t := by
  have hnode : (d.set p n).node place = d.node place := if_neg hp
  cases h with
  | absent hc hn => exact .absent hc (hnode.trans hn)
  | bare hn hf ht hfaults => exact .bare (hnode.trans hn) hf ht hfaults
  | healthy hn hf hdb => exact .healthy (hnode.trans hn) hf hdb

/-- Whatever files are removed, the name is as good as before, and what was kept under it is kept
unless the file itself has gone. -/
theorem removeFiles_hosts (h : d.Hosts name place) (hk : d.Keeps name place t)
    (names : List String) :
    (d.removeFiles names).2.Hosts name place ∧
      ((d.removeFiles names).2.Keeps name place t ∨
        (d.removeFiles names).2.node place = .absent) := by
  refine removeFiles_keeps
    (P := fun e => e.Hosts name place ∧ (e.Keeps name place t ∨ e.node place = .absent))
    ?_ ⟨h, .inl hk⟩ names
  rintro e p f hp ⟨hosts, hkept⟩
  refine ⟨hosts.congr (sameDirectories_set (by rw [hp]; rfl) rfl) hosts.fresh, ?_⟩
  by_cases hplace : place = p
  · exact .inr (if_pos hplace)
  · rcases hkept with hkept | hgone
    · exact .inl (hkept.set hplace)
    · rw [set_node, hgone, ite_self]
      exact .inr rfl

theorem removeFiles_companions (h : d.Hosts name place)
    (hname : Location.ofName? name = some (.file name .create)) {suffixes : List String}
    (hs : ∀ suffix ∈ suffixes, suffix ∈ companions) :
    ∃ d', d.removeFiles (suffixes.map (name ++ ·)) = (.ok (), d') ∧ d'.Hosts name place ∧
      (∀ suffix ∈ suffixes, d'.node (place.withSuffix suffix) = .absent) ∧
      ∀ p, d.node p = .absent → d'.node p = .absent := by
  induction suffixes generalizing d with
  | nil => exact ⟨d, rfl, h, nofun, fun _ hp => hp⟩
  | cons suffix rest ih =>
    obtain ⟨hsuffix, hrest⟩ := List.forall_mem_cons.mp hs
    have hfree := h.free suffix hsuffix
    simp only [List.map_cons, removeFiles, h.beside hname suffix hsuffix]
    cases hn : d.node (place.withSuffix suffix) with
    | directory =>
      rw [hn] at hfree
      cases hfree
    | absent =>
      obtain ⟨d', hd', hosts, hgone, hkept⟩ := ih h hrest
      exact ⟨d', hd', hosts, List.forall_mem_cons.mpr ⟨hkept _ hn, hgone⟩, hkept⟩
    | file f =>
      have hsame : SameDirectories d (d.set (place.withSuffix suffix) .absent) :=
        sameDirectories_set hfree rfl
      obtain ⟨d', hd', hosts, hgone, hkept⟩ := ih (h.congr hsame h.fresh) hrest
      refine ⟨d', hd', hosts, List.forall_mem_cons.mpr ⟨hkept _ (if_pos rfl), hgone⟩, ?_⟩
      intro p hp
      refine hkept p ?_
      rw [set_node, hp, ite_self]

end QueryTally.Disk
