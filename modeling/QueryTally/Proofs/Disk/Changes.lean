import QueryTally.Store

/-! # What a connection changes

The companions of a place are files beside it, so what a connection does to them does not
touch the place, nor any directory. Everything that a connection does on its way is a change
of its own (`Disk.ChangedBy`): it looks, keeps a journal, replaces a table and lets go. -/

namespace QueryTally

namespace Path

theorem withSuffix_concat (dir : Path) (name suffix : String) :
    withSuffix (dir ++ [name]) suffix = dir ++ [name ++ suffix] := by
  induction dir with
  | nil => rfl
  | cons d dir ih =>
    cases dir with
    | nil => rfl
    | cons e dir => exact congrArg (d :: ·) ih

theorem exists_concat {place : Path} (h : place ≠ []) :
    ∃ dir name, place = dir ++ [name] :=
  ⟨place.dropLast, place.getLast h, (List.dropLast_concat_getLast h).symm⟩

theorem withSuffix_inj {place : Path} (h : place ≠ []) {s t : String} :
    place.withSuffix s = place.withSuffix t ↔ s = t := by
  refine ⟨fun e => ?_, congrArg _⟩
  obtain ⟨dir, name, rfl⟩ := exists_concat h
  rw [withSuffix_concat, withSuffix_concat] at e
  have := List.append_cancel_left e
  exact (String.append_right_inj name).mp (List.cons.inj this).1

theorem withSuffix_empty {place : Path} (h : place ≠ []) : place.withSuffix "" = place := by
  obtain ⟨dir, name, rfl⟩ := exists_concat h
  rw [withSuffix_concat, String.append_empty]

theorem withSuffix_ne {place : Path} (h : place ≠ []) {s : String} (hs : s ≠ "") :
    place ≠ place.withSuffix s := by
  intro e
  exact hs ((withSuffix_inj h).mp (e.symm.trans (withSuffix_empty h).symm))

theorem log_ne_journal {place : Path} (h : place ≠ []) : place.log ≠ place.journal :=
  fun e => absurd ((withSuffix_inj h).mp e) (by decide)

theorem ne_journal {place : Path} (h : place ≠ []) : place ≠ place.journal :=
  withSuffix_ne h (by decide)

end Path

namespace Disk

variable {d : Disk} {link : Link} {place : Path}

theorem unlink_eq (d : Disk) (p : Path) :
    d.unlink p =
      { d with node := fun q => if q = p ∧ (d.node p).isFile then .absent else d.node q } := by
  unfold unlink
  cases h : (d.node p).isFile with
  | false => simp
  | true => simp [set]

theorem node_unlink_of_ne {p q : Path} (h : q ≠ p) : (d.unlink p).node q = d.node q := by
  rw [unlink_eq]
  exact if_neg fun e => h e.1

theorem isDirectory_unlink (d : Disk) (p q : Path) :
    ((d.unlink p).node q).isDirectory = (d.node q).isDirectory := by
  rw [unlink_eq]
  dsimp only
  split
  · rename_i h
    rw [h.1]
    cases hn : d.node p with
    | file f => rfl
    | absent => rfl
    | directory =>
      rw [hn] at h
      cases h.2
  · rfl

@[simp] theorem unlink_content (d : Disk) (p : Path) : (d.unlink p).content = d.content := by
  rw [unlink_eq]

@[simp] theorem unlink_logging (d : Disk) (p : Path) : (d.unlink p).logging = d.logging := by
  rw [unlink_eq]

@[simp] theorem unlink_memory (d : Disk) (p : Path) : (d.unlink p).memory = d.memory := by
  rw [unlink_eq]

@[simp] theorem unlink_next (d : Disk) (p : Path) : (d.unlink p).next = d.next := by
  rw [unlink_eq]

@[simp] theorem unlink_here (d : Disk) (p : Path) : (d.unlink p).here = d.here := by
  rw [unlink_eq]

theorem holds_unlink_of_ne {p q : Path} (h : q ≠ p) : (d.unlink p).holds q = d.holds q := by
  rw [holds, holds, node_unlink_of_ne h, unlink_content]

theorem holds_unlink_self (d : Disk) (p : Path) : (d.unlink p).holds p = false := by
  cases hn : d.node p with
  | file f => simp [holds, unlink_eq, hn, Node.isFile]
  | absent => simp [holds, unlink_eq, hn]
  | directory => simp [holds, unlink_eq, hn, Node.isFile]

theorem clearJournal_eq (d : Disk) (link : Link) (place : Path) :
    d.clearJournal link place = d ∨ d.clearJournal link place = d.unlink place.journal := by
  simp only [clearJournal]
  split
  · split
    · exact .inl rfl
    · exact .inr rfl
  · exact .inl rfl

theorem remember_eq (d : Disk) (link : Link) :
    d.remember link =
      { d with memory := fun n => if n = link.number then d.learned link else d.memory n } := by
  simp only [remember]
  split
  · rename_i h
    have : (fun n => if n = link.number then d.learned link else d.memory n) = d.memory := by
      funext n
      split
      · rename_i hn
        rw [hn, h]
      · rfl
    rw [this]
  · rfl

/-- A disk after changes by a connection: no directory has come or gone, the place of the
connection holds what it held, and no other connection has noticed. -/
structure ChangedBy (link : Link) (d d' : Disk) : Prop where
  here : d'.here = d.here
  directories : ∀ p, (d'.node p).isDirectory = (d.node p).isDirectory
  place : ∀ place, link.place = some place → place ≠ [] → d'.node place = d.node place
  next : d.next ≤ d'.next
  memory : ∀ n, n ≠ link.number → d'.memory n = d.memory n
  logging : ∀ n f, n ≠ link.number → (n, f) ∈ d'.logging → (n, f) ∈ d.logging

namespace ChangedBy

variable {d₁ d₂ : Disk}

theorem refl (link : Link) (d : Disk) : ChangedBy link d d :=
  ⟨rfl, fun _ => rfl, fun _ _ _ => rfl, Nat.le_refl _, fun _ _ => rfl, fun _ _ _ h => h⟩

theorem trans (h : ChangedBy link d d₁) (k : ChangedBy link d₁ d₂) : ChangedBy link d d₂ where
  here := k.here.trans h.here
  directories p := (k.directories p).trans (h.directories p)
  place p hp hne := (k.place p hp hne).trans (h.place p hp hne)
  next := Nat.le_trans h.next k.next
  memory n hn := (k.memory n hn).trans (h.memory n hn)
  logging n f hn hmem := h.logging n f hn (k.logging n f hn hmem)

/-- Removing a companion. -/
theorem unlink (hp : link.place = some place) {suffix : String} (hs : suffix ≠ "") :
    ChangedBy link d (d.unlink (place.withSuffix suffix)) where
  here := unlink_here _ _
  directories := isDirectory_unlink _ _
  place p hp' hne := by
    obtain rfl := Option.some.inj (hp.symm.trans hp')
    exact node_unlink_of_ne (Path.withSuffix_ne hne hs)
  next := Nat.le_of_eq (unlink_next _ _).symm
  memory n _ := by rw [unlink_memory]
  logging n f _ := by rw [unlink_logging]; exact id

theorem clearJournal (hp : link.place = some place) :
    ChangedBy link d (d.clearJournal link place) := by
  rcases d.clearJournal_eq link place with e | e
  · rw [e]
    exact refl link d
  · rw [e]
    exact unlink hp (by decide)

theorem remember (link : Link) (d : Disk) : ChangedBy link d (d.remember link) := by
  rw [remember_eq]
  exact ⟨rfl, fun _ => rfl, fun _ _ _ => rfl, Nat.le_refl _, fun n hn => if_neg hn,
    fun _ _ _ h => h⟩

/-- Making a companion that is missing. -/
theorem make (hp : link.place = some place) {suffix : String} (hs : suffix ≠ "")
    (habsent : d.node (place.withSuffix suffix) = .absent) (c : Content) :
    ChangedBy link d (d.make (place.withSuffix suffix) c) where
  here := rfl
  directories p := by
    simp only [Disk.make, fill_node, set_node]
    split
    · rename_i h
      rw [h, habsent]
      rfl
    · rfl
  place p hp' hne := by
    obtain rfl := Option.some.inj (hp.symm.trans hp')
    exact if_neg (Path.withSuffix_ne hne hs)
  next := Nat.le_succ _
  memory _ _ := rfl
  logging _ _ _ h := h

theorem openLog (hp : link.place = some place) : ChangedBy link d (d.openLog link place) := by
  have hturn : ChangedBy link d { d with logging := (link.number, link.file) :: d.logging } := by
    refine ⟨rfl, fun _ => rfl, fun _ _ _ => rfl, Nat.le_refl _, fun _ _ => rfl, ?_⟩
    intro n f hn hmem
    rcases List.mem_cons.mp hmem with h | h
    · exact absurd (congrArg Prod.fst h) hn
    · exact h
  simp only [Disk.openLog]
  split
  · split
    · rename_i habsent
      refine hturn.trans ?_
      exact make (d := { d with logging := (link.number, link.file) :: d.logging }) hp
        (by decide) habsent _
    · exact hturn
  · split
    · exact unlink hp (by decide)
    · exact refl link d

theorem look (link : Link) (d : Disk) : ChangedBy link d (d.look link) := by
  unfold Disk.look
  cases hp : link.place with
  | none => exact refl link d
  | some place =>
    dsimp only
    split
    · exact remember link d
    · split
      · exact refl link d
      · split
        · exact clearJournal hp
        · exact ((clearJournal hp).trans (openLog hp)).trans (remember link _)

theorem dropJournal (link : Link) (d : Disk) : ChangedBy link d (d.dropJournal link) := by
  unfold Disk.dropJournal
  cases hp : link.place with
  | none => exact refl link d
  | some place =>
    dsimp only
    split
    · exact refl link d
    · exact unlink hp (by decide)

theorem putTable (link : Link) (d : Disk) (table : Option Table) :
    ChangedBy link d (d.putTable link table) :=
  ⟨rfl, fun _ => rfl, fun _ _ _ => rfl, Nat.le_refl _, fun _ hn => if_neg hn, fun _ _ _ h => h⟩

theorem release (link : Link) (d : Disk) : ChangedBy link d (d.release link) := by
  have hgone : ChangedBy link d { d with logging := d.logging.erase (link.number, link.file) } :=
    ⟨rfl, fun _ => rfl, fun _ _ _ => rfl, Nat.le_refl _, fun _ _ => rfl,
      fun _ _ _ h => List.mem_of_mem_erase h⟩
  unfold Disk.release
  split
  · cases hp : link.place with
    | none => exact hgone
    | some place =>
      dsimp only
      split
      · exact hgone
      · exact (hgone.trans (unlink hp (by decide))).trans (unlink hp (by decide))
  · exact refl link d

end ChangedBy

end Disk
end QueryTally
