import QueryTally.Proofs.Session.Books

/-! # Runs

A run of a session is a sequence of steps, none of which overflows; it leaves a list of acts.
What the acts do to the books is enough to prove what holds of every run: `Reached.books`
carries an invariant of acts, clock and books along it. -/

namespace QueryTally.Session

open QueryTally.Disk

variable {s s₀ : Session} {name file : String} {place : Path} {b b₀ : Books}
variable {rule : Session → Step → Prop} {acts : List Act}

/-- The sessions that steps under a rule lead to, with the acts of the steps. -/
inductive Reached (rule : Session → Step → Prop) (s₀ : Session) : List Act → Session → Prop
  | start : Reached rule s₀ [] s₀
  | step {acts : List Act} {s : Session} {x : Step} {a : Answer} (h : Reached rule s₀ acts s)
      (hx : rule s x) (hok : (s.step x).answer = .ok a) :
      Reached rule s₀ (acts ++ [s.act x]) (s.step x).session

/-- A point of a run: a session, and the step that is taken in it. -/
structure Point where
  session : Session
  step : Step

def Point.act (p : Point) : Act := p.session.act p.step

def points (s : Session) : List Step → List Point
  | [] => []
  | x :: steps => ⟨s, x⟩ :: (s.step x).session.points steps

/-- Whether steps keep to a rule, and none of them overflows. -/
def follows (rule : Session → Step → Prop) [∀ s x, Decidable (rule s x)] (s : Session)
    (steps : List Step) : Bool :=
  (s.points steps).all fun p =>
    decide (rule p.session p.step) && (p.session.step p.step).answer.isOk

theorem follows_cons [∀ s x, Decidable (rule s x)] {x : Step} {steps : List Step}
    (h : s.follows rule (x :: steps) = true) :
    (rule s x ∧ ∃ a, (s.step x).answer = .ok a) ∧ (s.step x).session.follows rule steps = true := by
  rw [follows, points, List.all_cons, Bool.and_eq_true, Bool.and_eq_true] at h
  obtain ⟨⟨hx, hok⟩, hrest⟩ := h
  exact ⟨⟨of_decide_eq_true hx, exists_eq_ok_of_isOk hok⟩, hrest⟩

/-- Steps that are seen to keep to the rule. -/
theorem Reached.follow [∀ s x, Decidable (rule s x)] {steps : List Step}
    (h : Reached rule s₀ acts s) (hs : s.follows rule steps = true) :
    Reached rule s₀ (acts ++ (s.points steps).map Point.act)
      (steps.foldl (fun s x => (s.step x).session) s) := by
  induction steps generalizing acts s with
  | nil =>
    rw [points, List.map_nil, List.append_nil]
    exact h
  | cons x steps ih =>
    obtain ⟨⟨hx, a, hok⟩, hrest⟩ := follows_cons hs
    rw [points, List.map_cons, List.append_cons]
    exact ih (.step h hx hok) hrest

theorem base_withEngine {f : Engine → Outcome} (h : ∀ e, (f e).session.base = s.base) :
    (s.withEngine f).session.base = s.base := by
  unfold withEngine
  split
  · rfl
  · exact h _

/-- The directory of a session stays its directory. -/
theorem base_step {x : Step} (hx : s.Admits file x) : (s.step x).session.base = s.base := by
  cases x with
  | setClock hour => rfl
  | addClock hours => rfl
  | query g => exact base_withEngine fun e => rfl
  | configure days => exact base_withEngine fun e => rfl
  | info => exact base_withEngine fun e => rfl
  | rotate => exact base_withEngine fun e => rfl
  | clear => exact base_withEngine fun e => rfl
  | close => exact base_withEngine fun e => rfl
  | ingest events =>
    refine base_withEngine fun e => ?_
    simp only [ingest]
    split <;> rfl
  | launch name days pollMillis =>
    simp only [step, launch]
    split <;> rfl
  | _ => exact hx.elim

theorem Reached.fullName_eq (h : Reached rule s₀ acts s)
    (hrule : ∀ s x, rule s x → s.Admits file x) : s.fullName file = s₀.fullName file := by
  induction h with
  | start => rfl
  | @step acts s x a h hx hok ih =>
    rw [fullName, base_step (hrule s x hx)]
    exact ih

/-- What a run has cleared, a step of it has. -/
theorem Reached.exists_clear (h : Reached rule s₀ acts s) (hmem : .cleared ∈ acts) :
    ∃ s, rule s .clear := by
  induction h with
  | start => cases hmem
  | @step acts s x a h hx hok ih =>
    rcases List.mem_append.mp hmem with hbefore | hlast
    · exact ih hbefore
    · obtain rfl := eq_clear_of_act (List.mem_singleton.mp hlast).symm
      exact ⟨s, hx⟩

/-- **Runs.** What holds of the books at the start and is kept by every act holds of the books
of every session that is reached. A run that clears needs a name that is a path. -/
theorem Reached.books (h : Reached rule s₀ acts s) (hrule : ∀ s x, rule s x → s.Admits file x)
    (hpath : .cleared ∈ acts →
      Location.ofName? (s₀.fullName file) = some (.file (s₀.fullName file) .create))
    (P : List Act → Hour → Books → Prop) (hstart : s₀.Stands (s₀.fullName file) place b₀)
    (hP : P [] s₀.clock b₀)
    (hstep : ∀ acts s x b b', rule s x → P acts s.clock b → Turns s.clock (s.act x) b b' →
      P (acts ++ [s.act x]) (s.step x).session.clock b') :
    ∃ b, s.Stands (s₀.fullName file) place b ∧ P acts s.clock b := by
  induction h with
  | start => exact ⟨b₀, hstart, hP⟩
  | @step acts s x a h hx hok ih =>
    obtain ⟨b, hstands, hb⟩ := ih fun hmem => hpath (List.mem_append_left _ hmem)
    obtain ⟨b', hstands', hturns⟩ := step_turns hstands (h.fullName_eq hrule) (hrule s x hx)
      (fun hact => hpath (List.mem_append_right acts (by rw [hact]; exact List.mem_cons_self))) hok
    exact ⟨b', hstands', hstep acts s x b b' hx hb hturns⟩

/-- A session without an engine, in which a file can be, or is, an empty database. Its name may
be a URI. -/
structure Fresh (s : Session) (file : String) (place : Path) : Prop where
  engine : s.engine = none
  ready : Store.Ready s.disk (s.fullName file) place Table.empty

def sampleStart : Session := start "w" false 1000

theorem fresh_sample : sampleStart.Fresh "stats.db" ["w", "stats.db"] := by
  refine ⟨rfl, Store.ready_of_hosts ?_ ?_⟩
  · refine { location := ?_, beside := ?_, parents := ?_, named := by decide +kernel,
             reachable := by decide +kernel, fits := by decide +kernel, root := by decide,
             free := by decide +kernel, fresh := fun _ _ => ⟨rfl, nofun⟩ }
    · refine ⟨"w/stats.db", .create, by decide +kernel, by decide, ?_⟩
      exact toOption_eq_some_iff.mp (by decide +kernel)
    · intro _ suffix hs
      have hall : companions.all fun suffix =>
          decide ((sampleStart.disk.find ("w/stats.db" ++ suffix)).toOption =
            some (Path.withSuffix ["w", "stats.db"] suffix)) := by decide +kernel
      exact toOption_eq_some_iff.mp (of_decide_eq_true (List.all_eq_true.mp hall suffix hs))
    · have hsteps : parentSteps (sampleStart.fullName "stats.db") = ["w"] := by decide +kernel
      rw [hsteps]
      exact ⟨["w"], toOption_eq_some_iff.mp (by decide +kernel), rfl, trivial⟩
  · exact .absent ⟨"w/stats.db", by decide +kernel⟩ rfl

/-- Two queries that were answered, one that was blocked, and one that does not count. -/
def sampleEvents : List (Event × Nat) :=
  [(⟨some .notFiltered, "example.org", [10, 0, 0, 1], 5⟩, 2),
    (⟨some .filtered, "ads.example", [10, 0, 0, 1], 5⟩, 1),
    (⟨none, "example.org", [10, 0, 0, 1], 5⟩, 1)]

end QueryTally.Session
