import QueryTally.Proofs.Store.Rows

/-! # Starting over

A reset removes the files of a database by its name, and then connects by that name again. The
disk and the database follow a name in the same way if it is a path that leads up nowhere
(`Location.Plain`). So nothing is left where the database makes its file, and a reset leaves no
store open that has a row, whatever it finds on the disk. -/

namespace QueryTally

open QueryTally.Disk

/-- A name that the database takes for that path, if it takes it for a file at all, and that
leads up nowhere. -/
def Location.Plain (name : String) : Prop :=
  ∀ file access, ofName? name = some (.file file access) → file = name ∧ ".." ∉ nameSteps name

namespace Disk

variable {d d' : Disk} {name : String} {place : Path} {link : Link}

/-! ## Missing places -/

theorem prefix_of_locateStep {here p : Path} {s : String} (hs : s ≠ "..")
    (h : d.locateStep here s = some p) : here <+: p := by
  rw [locateStep, if_neg hs] at h
  split at h
  · cases h
    exact List.prefix_rfl
  · split at h
    · cases h
      exact List.prefix_append _ _
    · cases h

theorem prefix_of_locate {steps : List String} {here : Path} (hup : ".." ∉ steps)
    (h : steps.foldlM d.locateStep here = some place) : here <+: place := by
  induction steps generalizing here with
  | nil =>
    cases h
    exact List.prefix_rfl
  | cons s rest ih =>
    rw [List.foldlM_cons] at h
    obtain ⟨p, hp, hrest⟩ := Option.bind_eq_some_iff.mp h
    have hs : s ≠ ".." := fun e => hup (e ▸ List.mem_cons_self)
    have hrestUp : ".." ∉ rest := fun e => hup (List.mem_cons_of_mem _ e)
    exact (prefix_of_locateStep hs hp).trans (ih hrestUp hrest)

theorem absent_of_step {here : Path} {s : String} (h : d.step here s = .error .missing) :
    d.node here = .absent := by
  unfold step at h
  split at h
  · assumption
  · cases h
  · split at h
    · cases h
    · split at h
      · cases h
      · split at h <;> cases h

/-- If the disk misses something on the way, it stands on the way of the database. -/
theorem absent_of_missing (hd : SameDirectories d d') {steps : List String} {here : Path}
    (hup : ".." ∉ steps) (h : steps.foldlM d.step here = .error .missing)
    (hlocate : steps.foldlM d'.locateStep here = some place) :
    ∃ q, q <+: place ∧ d.node q = .absent := by
  induction steps generalizing here with
  | nil => cases h
  | cons s rest ih =>
    cases hstep : d.step here s with
    | error o =>
      rw [List.foldlM_cons, hstep] at h
      obtain rfl := Except.error.inj h
      exact ⟨here, prefix_of_locate hup hlocate, absent_of_step hstep⟩
    | ok p =>
      rw [List.foldlM_cons, hstep] at h
      rw [List.foldlM_cons, locateStep_of_step (step_congr hd hstep)] at hlocate
      exact ih (fun e => hup (List.mem_cons_of_mem _ e)) h hlocate

theorem mem_ancestors {p q : Path} (h : q <+: p) (hne : q ≠ p) : q ∈ p.ancestors := by
  have hlength : q.length < p.length := by
    refine Nat.lt_of_le_of_ne h.length_le fun e => hne ?_
    exact h.eq_of_length e
  refine List.mem_map.mpr ⟨q.length, List.mem_range.mpr hlength, ?_⟩
  exact (List.prefix_iff_eq_take.mp h).symm

/-- What is within reach has nothing missing above it. -/
theorem absent_of_prefix {q : Path} (hreach : d.reachable place = true) (h : q <+: place)
    (hq : d.node q = .absent) : d.node place = .absent := by
  by_cases hne : q = place
  · exact hne ▸ hq
  · have hdirectory := List.all_eq_true.mp hreach q (mem_ancestors h hne)
    rw [hq] at hdirectory
    cases hdirectory

/-! ## Removing -/

structure FilesGone (d d' : Disk) : Prop where
  same : SameDirectories d d'
  absent : ∀ p, d.node p = .absent → d'.node p = .absent

theorem filesGone_set {p : Path} {f : FileNumber} (hp : d.node p = .file f) :
    FilesGone d (d.set p .absent) := by
  refine ⟨sameDirectories_set (by rw [hp]; rfl) rfl, fun q hq => ?_⟩
  rw [set_node, hq, ite_self]

theorem FilesGone.trans {d'' : Disk} (h : FilesGone d d') (k : FilesGone d' d'') :
    FilesGone d d'' :=
  ⟨h.same.trans k.same, fun p hp => k.absent p (h.absent p hp)⟩

theorem filesGone_removeFiles (d : Disk) (names : List String) :
    FilesGone d (d.removeFiles names).2 :=
  removeFiles_keeps (P := FilesGone d) (fun _ _ _ hp h => h.trans (filesGone_set hp))
    ⟨.refl d, fun _ h => h⟩ names

/-- A removal that succeeds leaves nothing where a name leads. -/
theorem absent_of_removeFiles {rest : List String}
    (h : d.removeFiles (name :: rest) = (.ok (), d')) :
    d.find name = .error .missing ∨ ∃ p, d.find name = .ok p ∧ d'.node p = .absent := by
  simp only [removeFiles] at h
  cases hfind : d.find name with
  | error o =>
    cases o with
    | missing => exact .inl rfl
    | barred =>
      rw [hfind] at h
      cases h
  | ok p =>
    rw [hfind] at h
    dsimp only at h
    refine .inr ⟨p, rfl, ?_⟩
    cases hn : d.node p with
    | directory =>
      rw [hn] at h
      cases h
    | absent =>
      rw [hn] at h
      have hgone := filesGone_removeFiles d rest
      have h : d.removeFiles rest = (.ok (), d') := h
      rw [h] at hgone
      exact hgone.absent p hn
    | file f =>
      rw [hn] at h
      have hgone := filesGone_removeFiles (d.set p .absent) rest
      have h : (d.set p .absent).removeFiles rest = (.ok (), d') := h
      rw [h] at hgone
      exact hgone.absent p (if_pos rfl)

/-- **Removing a file.** Nothing is left at the place to which the database takes its name. -/
theorem absent_of_locate {rest : List String} (hup : ".." ∉ nameSteps name)
    (h : d.removeFiles (name :: rest) = (.ok (), d')) (hlocate : d'.locate name = some place)
    (hreach : d'.reachable place = true) : d'.node place = .absent := by
  have hgone := filesGone_removeFiles d (name :: rest)
  rw [h] at hgone
  rcases absent_of_removeFiles h with hfind | ⟨p, hfind, hn⟩
  -- Where the removal found nothing, something above the place is missing, or the place is.
  · unfold find at hfind
    split at hfind
    · cases hfind
    · rw [locate_eq, start, hgone.same.here] at hlocate
      obtain ⟨q, hq, habsent⟩ := absent_of_missing hgone.same hup hfind hlocate
      exact absent_of_prefix hreach hq (hgone.absent q habsent)
  · have hplace := locate_of_find (find_congr hgone.same hfind)
    obtain rfl := Option.some.inj (hplace.symm.trans hlocate)
    exact hn

/-- **Connecting where nothing is left.** -/
theorem not_hasRow_connect {d₁ : Disk} {rest : List String} (hname : Location.Plain name)
    (hremove : d.removeFiles (name :: rest) = (.ok (), d₁))
    (hconnect : d₁.connect name = (.ok link, d')) (r : Row) : ¬ d'.HasRow link.file r := by
  intro hr
  obtain ⟨d₂, hattach, hd⟩ := attach_of_connect hconnect
  have hr := hd link.file r hr
  unfold attach at hattach
  cases hlocation : Location.ofName? name with
  | none =>
    rw [hlocation] at hattach
    cases hattach
  | some location =>
    rw [hlocation] at hattach
    cases location with
    | memory =>
      cases hattach
      exact not_hasRow_bytes (if_pos rfl) hr
    | file file access =>
      obtain ⟨rfl, hup⟩ := hname file access hlocation
      dsimp only at hattach
      cases hlocate : d₁.locate file with
      | none =>
        rw [hlocate] at hattach
        cases hattach
      | some place =>
        rw [hlocate] at hattach
        dsimp only at hattach
        cases hreach : d₁.reachable place with
        | false =>
          rw [hreach] at hattach
          cases hattach
        | true =>
          -- The name leads up nowhere, so the place is the one from which the file was removed.
          have hn := absent_of_locate hup hremove hlocate hreach
          rw [hreach, hn] at hattach
          simp only [Bool.not_true, Bool.false_eq_true, if_false] at hattach
          split at hattach
          · cases hattach
            exact not_hasRow_bytes (if_pos rfl) hr
          · cases hattach

end Disk

namespace Store

variable {s s' : Store} {d d' : Disk} {notices : List Notice} {result : Except StoreError Unit}

/-- A reset leaves the store open exactly if it succeeds. -/
theorem isOpen_reset (h : s.reset d = (result, s', d', notices)) : s'.isOpen = result.isOk := by
  unfold reset at h
  dsimp only at h
  split at h
  · cases h
    rfl
  · split at h
    · cases h
      rfl
    · cases h
      rfl

/-- **A reset.** A store that it leaves open has no row. -/
theorem not_hasRow_reset (hname : Location.Plain s.name)
    (h : s.reset d = (result, s', d', notices)) {link : Link} (hs : s'.link = some link)
    (r : Row) : ¬ d'.HasRow link.file r := by
  unfold reset at h
  cases hremove : (s.release d).removeFiles (companions.map (s.name ++ ·)) with
  | mk removed d₁ =>
    rw [hremove] at h
    cases removed with
    | error e =>
      cases h
      cases hs
    | ok _ =>
      dsimp only at h
      cases hconnect : d₁.connect s.name with
      | mk opened d₂ =>
        rw [hconnect] at h
        cases opened with
        | error e =>
          cases h
          cases hs
        | ok link' =>
          cases h
          cases hs
          rw [companions, List.map_cons, String.append_empty] at hremove
          exact not_hasRow_connect hname hremove hconnect r

end Store
end QueryTally
