import QueryTally.Proofs.Session.Failing

/-! # Histories

A history of a run is the list of its points: the sessions in which its steps were taken, one
after the other, with the steps. Every run in which the store may fail has a history, and what
the run knows of itself, the acts of its steps and whether its live hour has been taken up from
a record, is told by the history. So is where a row is from: some step put it there, and it is
the row of the hour that was live at that point (`Traced.put`). -/

namespace QueryTally.Session

open QueryTally.Disk

variable {s s₀ : Session} {rule : Session → Step → Prop} {before after : List Point}
variable {history : List Point} {p : Point} {f : FileNumber} {r : Row} {u : LiveHour}

/-- Whether the hour that is live after a history has been taken up from a record in it, at some
time since an hour was begun. -/
def takenUp (history : List Point) : Bool :=
  history.foldl (fun again p => p.session.resumedAfter again p.step) false

theorem takenUp_concat (history : List Point) (p : Point) :
    takenUp (history ++ [p]) = p.session.resumedAfter (takenUp history) p.step := by
  rw [takenUp, List.foldl_append]
  rfl

/-- The sessions to which steps under a rule lead, with the history of the steps, if between them
the disk may change in such a way that no file gets a row. -/
inductive Traced (rule : Session → Step → Prop) (s₀ : Session) : List Point → Session → Prop
  | start : Traced rule s₀ [] s₀
  | step {history : List Point} {s : Session} {x : Step} {a : Answer} (h : Traced rule s₀ history s)
      (hx : rule s x) (hok : (s.step x).answer = .ok a) :
      Traced rule s₀ (history ++ [⟨s, x⟩]) (s.step x).session
  | disturbed {history : List Point} {s : Session} {d : Disk} (h : Traced rule s₀ history s)
      (hd : s.disk.Unwritten d) : Traced rule s₀ history { s with disk := d }

/-- What a history tells of its run. -/
theorem Traced.weathered (h : Traced rule s₀ history s) :
    Weathered rule s₀ (history.map Point.act) (takenUp history) s := by
  induction h with
  | start => exact .start
  | step h hx hok ih =>
    rw [List.map_append, takenUp_concat]
    exact .step ih hx hok
  | disturbed h hd ih => exact .disturbed ih hd

/-- Every run has a history. -/
theorem Weathered.traced {acts : List Act} {again : Bool} (h : Weathered rule s₀ acts again s) :
    ∃ history, Traced rule s₀ history s ∧ history.map Point.act = acts ∧
      takenUp history = again := by
  induction h with
  | start => exact ⟨[], .start, rfl, rfl⟩
  | @step acts again s x a h hx hok ih =>
    obtain ⟨history, htraced, rfl, rfl⟩ := ih
    exact ⟨_, .step htraced hx hok, List.map_append, takenUp_concat history ⟨s, x⟩⟩
  | disturbed h hd ih =>
    obtain ⟨history, htraced, hacts, hagain⟩ := ih
    exact ⟨history, .disturbed htraced hd, hacts, hagain⟩

/-- The run had come to each point of its history by what is before it. -/
theorem Traced.reaches (h : Traced rule s₀ history s) (hp : history = before ++ p :: after) :
    Traced rule s₀ before p.session := by
  induction h generalizing after with
  | start =>
    have hlength := congrArg List.length hp
    rw [List.length_append, List.length_cons, List.length_nil] at hlength
    omega
  | @step history s x a h hx hok ih =>
    rcases List.eq_nil_or_concat after with rfl | ⟨after, q, rfl⟩
    · obtain ⟨rfl, hlast⟩ := List.append_inj' hp rfl
      obtain rfl := List.singleton_inj.mp hlast
      exact h
    · rw [List.concat_eq_append, ← List.cons_append, ← List.append_assoc] at hp
      exact ih (List.append_inj' hp rfl).1
  | disturbed h hd ih => exact ih hp

/-- Steps that are seen to keep to the rule. -/
theorem Traced.follow [∀ s x, Decidable (rule s x)] {steps : List Step}
    (h : Traced rule s₀ history s) (hs : s.follows rule steps = true) :
    Traced rule s₀ (history ++ s.points steps)
      (steps.foldl (fun s x => (s.step x).session) s) := by
  induction steps generalizing history s with
  | nil =>
    rw [points, List.append_nil]
    exact h
  | cons x steps ih =>
    obtain ⟨⟨hx, a, hok⟩, hrest⟩ := follows_cons hs
    rw [points, List.append_cons]
    exact ih (.step h hx hok) hrest

/-- At a point of a history a row is not in a file. The step that is taken there puts it there, as
the row of the live hour, and at all points after it the row is there. -/
structure Point.Puts (p : Point) (after : List Point) (f : FileNumber) (r : Row) (u : LiveHour) :
    Prop where
  live : p.session.live? = some u
  row : r = u.row
  new : ¬ p.session.disk.HasRow f r
  put : (p.session.step p.step).session.disk.HasRow f r
  kept : ∀ q ∈ after, q.session.disk.HasRow f r

/-- **Where a row is from.** -/
theorem Traced.put (hempty : ∀ f r, ¬ s₀.disk.HasRow f r)
    (h : Traced (fun _ => Operates) s₀ history s) (hr : s.disk.HasRow f r) :
    ∃ before p after u, history = before ++ p :: after ∧ p.Puts after f r u := by
  induction h with
  | start => exact absurd hr (hempty f r)
  | @step history s x a h hx hok ih =>
    by_cases hbefore : s.disk.HasRow f r
    · obtain ⟨before, p, after, u, rfl, hputs⟩ := ih hbefore
      refine ⟨before, p, after ++ [⟨s, x⟩], u, by rw [List.append_assoc, List.cons_append],
        { hputs with kept := fun q hq => ?_ }⟩
      rcases List.mem_append.mp hq with hq | hq
      · exact hputs.kept q hq
      · obtain rfl := List.mem_singleton.mp hq
        exact hbefore
    · obtain ⟨u, hlive, hrow⟩ := (row_of_step hx hok hr).resolve_left hbefore
      have hkept : ∀ q ∈ ([] : List Point), q.session.disk.HasRow f r :=
        fun q hq => absurd hq List.not_mem_nil
      exact ⟨history, ⟨s, x⟩, [], u, rfl, ⟨hlive, hrow, hbefore, hr, hkept⟩⟩
  | disturbed h hd ih => exact ih (hd f r hr)

end QueryTally.Session
