import QueryTally.Proofs.Disk.Hosting
import QueryTally.Store

/-! # Looking changes nothing that is seen

A look into a file takes a journal back, turns to a log and remembers, in whatever state the file
and its companions are. A connection that looks again sees the same database (`Disk.seen_look`),
and a store reads from it what it read before. -/

namespace QueryTally

structure Link.Placed (link : Link) (d : Disk) : Prop where
  root : link.place ≠ some []
  file : link.file < d.next

namespace Disk

variable {d d' : Disk} {link : Link} {place : Path} {worst : Refusal}

/-- Whether a connection finds its companions in a state in which it turns to its file. -/
def Approachable (d : Disk) (link : Link) (place : Path) : Prop :=
  d.isLogging link = true ∨
    d.journalStuck link place = false ∧ d.logFailure link place .statement = none

/-- How bad a failure would be does not matter to whether there is one. -/
theorem logFailure_eq_none_iff :
    d.logFailure link place worst = none ↔ d.logFailure link place .statement = none := by
  simp only [logFailure]
  split
  · split <;> simp
  · split
    · simp
    · exact Iff.rfl

theorem readFailure_of_approachable (hp : link.place = some place)
    (h : d.Approachable link place) :
    d.readFailure link = if d.mistrusts link then some .statement else none := by
  simp only [readFailure, hp]
  rcases h with hlog | ⟨hstuck, hfree⟩
  · rw [if_pos hlog]
  · split
    · rfl
    · rw [hstuck, logFailure_eq_none_iff.mpr hfree]
      rfl

/-- Where two disks do not differ for a connection, it sees the same. -/
theorem seen_congr (hcontent : d'.content link.file = d.content link.file)
    (hfailure : d'.readFailure link = d.readFailure link)
    (hplace : ∀ place, link.place = some place → d'.node place = d.node place)
    (hjournal : ∀ place, link.place = some place →
      (d'.node place.journal).isDirectory = (d.node place.journal).isDirectory)
    (hlog : ∀ place, link.place = some place →
      (d'.isLogging link || d'.findsLog link place) = (d.isLogging link || d.findsLog link place)) :
    d'.seen link = d.seen link := by
  have hdatabase : d'.database link.file = d.database link.file :=
    congrArg Content.toDatabase hcontent
  simp only [seen, hfailure, hdatabase]
  cases d.readFailure link with
  | some refusal => rfl
  | none =>
    cases hp : link.place with
    | none => rfl
    | some place => simp only [hplace place hp, hjournal place hp, hlog place hp]

/-! ## The parts of a look -/

/-- Remembering a file does not change whether it is trusted. -/
theorem mistrusts_remember (d : Disk) (link : Link) :
    (d.remember link).mistrusts link = d.mistrusts link := by
  have hlearned : (d.remember link).mistrusts link =
      ((d.content link.file).isJunk || (d.database link.file).formatted &&
        (d.learned link).emptied && (d.learned link).stamp == some (d.stamp link)) := by
    rw [remember_eq]
    simp only [mistrusts, if_true]
    rfl
  rw [hlearned]
  cases hjunk : (d.content link.file).isJunk with
  | true => simp only [mistrusts, hjunk, Bool.true_or]
  | false =>
    cases hformatted : (d.database link.file).formatted with
    | false => simp only [mistrusts, hjunk, hformatted, Bool.false_and]
    | true =>
      cases hmistrust : d.mistrusts link with
      | false => simp [learned, hjunk, hformatted, hmistrust]
      | true =>
        rw [mistrusts, hjunk, hformatted] at hmistrust
        have hkept : d.learned link = d.memory link.number := by
          simp [learned, mistrusts, hjunk, hformatted] at hmistrust ⊢
          simp [hmistrust]
        rw [hkept]
        exact hmistrust

section Journal

variable (hne : place ≠ []) (hstuck : d.journalStuck link place = false)

include hstuck in
/-- Where a journal is not stuck, taking it back leaves it so. -/
theorem journalStuck_clearJournal : (d.clearJournal link place).journalStuck link place = false := by
  rcases d.clearJournal_eq link place with e | e
  · rw [e, hstuck]
  · rw [e]
    simp only [journalStuck, database, unlink_content, isDirectory_unlink, holds_unlink_self,
      Bool.and_false, Bool.or_false] at hstuck ⊢
    rw [Bool.and_or_distrib_left, Bool.or_eq_false_iff] at hstuck
    exact hstuck.1

include hne in
theorem findsLog_clearJournal :
    (d.clearJournal link place).findsLog link place = d.findsLog link place := by
  rcases d.clearJournal_eq link place with e | e
  · rw [e]
  · rw [e, findsLog, findsLog, database, database, unlink_content,
      holds_unlink_of_ne (Path.log_ne_journal hne)]

include hne in
theorem logFailure_clearJournal :
    (d.clearJournal link place).logFailure link place worst = d.logFailure link place worst := by
  have hfinds : (d.clearJournal link place).findsLog link place = d.findsLog link place :=
    findsLog_clearJournal hne
  rcases d.clearJournal_eq link place with e | e
  · rw [e]
  · have hlog : place.log ≠ place.journal := Path.log_ne_journal hne
    have hindex : place.logIndex ≠ place.journal := fun e =>
      absurd ((Path.withSuffix_inj hne).mp e) (by decide)
    rw [e] at hfinds ⊢
    simp only [logFailure, hfinds, database, unlink_content, node_unlink_of_ne hlog,
      node_unlink_of_ne (Path.ne_journal hne), node_unlink_of_ne hindex, holds_unlink_of_ne hlog]
    rfl

theorem clearJournal_frame (d : Disk) (link : Link) (place : Path) :
    (d.clearJournal link place).content = d.content ∧
      (d.clearJournal link place).memory = d.memory ∧
      (d.clearJournal link place).logging = d.logging := by
  rcases d.clearJournal_eq link place with e | e
  · rw [e]
    exact ⟨rfl, rfl, rfl⟩
  · rw [e]
    exact ⟨unlink_content _ _, unlink_memory _ _, unlink_logging _ _⟩

theorem isLogging_clearJournal (d : Disk) (link : Link) (place : Path) :
    (d.clearJournal link place).isLogging link = d.isLogging link := by
  rw [isLogging, isLogging, (d.clearJournal_frame link place).2.2]

include hne hstuck in
theorem readFailure_clearJournal (hp : link.place = some place) :
    (d.clearJournal link place).readFailure link = d.readFailure link := by
  obtain ⟨hcontent, hmemory, -⟩ := d.clearJournal_frame link place
  have htrust : (d.clearJournal link place).mistrusts link = d.mistrusts link :=
    mistrusts_congr (congrFun hcontent _) (congrFun hmemory _)
  simp only [readFailure, hp, isLogging_clearJournal, htrust, hmemory, hstuck,
    journalStuck_clearJournal hstuck, logFailure_clearJournal hne]

end Journal

/-- Turning to a log that is there, or removing that of an empty file, leaves the way to the file
free. -/
theorem approachable_openLog (h : d.Approachable link place) :
    (d.openLog link place).Approachable link place ∧
      ((d.openLog link place).isLogging link || (d.openLog link place).findsLog link place) =
        (d.isLogging link || d.findsLog link place) := by
  cases hfinds : d.findsLog link place with
  | true =>
    have hlogging : (d.openLog link place).isLogging link = true := by
      have hturned : (d.openLog link place).logging = (link.number, link.file) :: d.logging := by
        rw [openLog, if_pos hfinds]
        dsimp only
        split <;> rfl
      rw [isLogging, hturned, List.contains_cons, beq_self_eq_true, Bool.true_or]
    rw [hlogging, Bool.true_or, Bool.or_true]
    exact ⟨.inl hlogging, rfl⟩
  | false =>
    rw [openLog, hfinds, if_neg Bool.false_ne_true]
    split
    · -- Only an empty file has a log to which nobody turns.
      rename_i hholds
      have hblank : (d.database link.file).formatted = false := by
        rwa [findsLog, hholds, Bool.and_true] at hfinds
      have hblank' : ((d.unlink place.log).database link.file).formatted = false := by
        rwa [database, unlink_content]
      have hlogging : (d.unlink place.log).isLogging link = d.isLogging link := by
        rw [isLogging, isLogging, unlink_logging]
      constructor
      · refine h.imp hlogging.trans fun hway => ⟨?_, ?_⟩
        · rw [journalStuck, hblank', Bool.false_and]
        · have hfree := hway.2
          simp only [logFailure, hblank, hblank', Bool.not_false, if_true, isDirectory_unlink]
            at hfree ⊢
          exact hfree
      · rw [hlogging, findsLog, hblank', Bool.false_and]
    · exact ⟨h, by rw [hfinds]⟩

theorem memory_openLog (d : Disk) (link : Link) (place : Path) :
    (d.openLog link place).memory = d.memory := by
  unfold openLog
  split
  · dsimp only
    split <;> rfl
  · split
    · exact unlink_memory _ _
    · rfl

/-! ## Looking -/

/-- How a look ends: at once, if the connection writes to a log or finds a journal that is stuck,
or after the journal, or with everything done. -/
theorem look_cases (hp : link.place = some place) :
    (d.isLogging link = true ∧ d.look link = d.remember link) ∨ d.look link = d ∨
    d.isLogging link = false ∧ d.journalStuck link place = false ∧
      (d.look link = d.clearJournal link place ∨
        (d.clearJournal link place).logFailure link place .statement = none ∧
        d.look link = ((d.clearJournal link place).openLog link place).remember link) := by
  simp only [look, hp]
  cases hlog : d.isLogging link with
  | true => exact .inl ⟨rfl, rfl⟩
  | false =>
    refine .inr ?_
    cases hstuck : d.journalStuck link place with
    | true => exact .inl rfl
    | false =>
      refine .inr ⟨rfl, rfl, ?_⟩
      cases hfree : (d.clearJournal link place).logFailure link place .statement with
      | some refusal => exact .inl rfl
      | none => exact .inr ⟨rfl, rfl⟩

/-- A connection that has looked finds its file as before. -/
theorem readFailure_look (h : link.Placed d) (hp : link.place = some place) :
    (d.look link).readFailure link = d.readFailure link ∧
      ((d.look link).isLogging link || (d.look link).findsLog link place) =
        (d.isLogging link || d.findsLog link place) := by
  have hne : place ≠ [] := fun e => h.root (e ▸ hp)
  -- Remembering matters only to what is made of a companion in the way.
  have hremembered : ∀ {d' : Disk}, d'.Approachable link place → d.Approachable link place →
      d'.mistrusts link = d.mistrusts link →
      (d'.remember link).readFailure link = d.readFailure link ∧
        ((d'.remember link).isLogging link || (d'.remember link).findsLog link place) =
          (d'.isLogging link || d'.findsLog link place) := by
    intro d' hd' hd htrust
    have hsame : (d'.remember link).Approachable link place := by
      rw [remember_eq]
      exact hd'
    rw [readFailure_of_approachable hp hsame, readFailure_of_approachable hp hd,
      mistrusts_remember, htrust, remember_eq]
    exact ⟨rfl, rfl⟩
  rcases look_cases hp with ⟨hlog, hlook⟩ | hlook | ⟨hlog, hstuck, hlook | ⟨hfree, hlook⟩⟩
  · rw [hlook]
    exact hremembered (.inl hlog) (.inl hlog) rfl
  · rw [hlook]
    exact ⟨rfl, rfl⟩
  · rw [hlook, readFailure_clearJournal hne hstuck hp, isLogging_clearJournal,
      findsLog_clearJournal hne]
    exact ⟨rfl, rfl⟩
  · obtain ⟨-, hmemory, -⟩ := d.clearJournal_frame link place
    obtain ⟨hopened, hflag⟩ := approachable_openLog
      (.inr ⟨journalStuck_clearJournal hstuck, hfree⟩ :
        (d.clearJournal link place).Approachable link place)
    rw [logFailure_clearJournal hne] at hfree
    have hcontent := content_look link h.file
    rw [hlook, remember_eq] at hcontent
    have htrust : ((d.clearJournal link place).openLog link place).mistrusts link =
        d.mistrusts link := mistrusts_congr hcontent (by rw [memory_openLog, hmemory])
    rw [hlook]
    obtain ⟨hfailure, hsame⟩ := hremembered hopened (.inr ⟨hstuck, hfree⟩) htrust
    rw [hsame, hflag, isLogging_clearJournal, findsLog_clearJournal hne]
    exact ⟨hfailure, rfl⟩

/-- **Looking twice.** What a connection sees does not change when it looks, in whatever state its
file is. -/
theorem seen_look (h : link.Placed d) : (d.look link).seen link = d.seen link := by
  have hchanged := ChangedBy.look link d
  cases hp : link.place with
  | none => rw [look, hp]
  | some place =>
    have hne : place ≠ [] := fun e => h.root (e ▸ hp)
    obtain ⟨hfailure, hlog⟩ := readFailure_look h hp
    refine seen_congr (content_look link h.file) hfailure ?_ ?_ ?_ <;> intro place' hp' <;>
      obtain rfl := Option.some.inj (hp.symm.trans hp')
    · exact hchanged.place place hp hne
    · exact hchanged.directories _
    · exact hlog

end Disk

theorem Link.Placed.look {link : Link} {d : Disk} (h : link.Placed d) : link.Placed (d.look link) :=
  ⟨h.root, Nat.lt_of_lt_of_le h.file (Disk.ChangedBy.look link d).next⟩

end QueryTally
