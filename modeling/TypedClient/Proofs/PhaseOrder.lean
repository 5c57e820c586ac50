import TypedClient.Pipeline.Run
import TypedClient.Proofs.Sequences

/-! The order in which a run takes its steps. Phases with hooks around them come to one flat list of
steps: each phase in its turn, between its hooks, and the hooks in the order of the plugins. A run
takes these steps one after the other and stops at the first that fails. So the API and the counts are
there at every phase behind the built-in ones, unless a step on the way took them out. -/

namespace TypedClient

/-! ### Lists of steps -/

/-- Each step succeeds, the first from the one state and each other from where the step before it
ended; the last ends in the other state. -/
inductive Passes {ε σ : Type} : List (EStateM ε σ Unit) → σ → σ → Prop
  | done {s} : Passes [] s s
  | step {x rest s t u} (hx : x s = .ok () t) (hrest : Passes rest t u) : Passes (x :: rest) s u

section Steps

variable {ε σ : Type} {x : EStateM ε σ Unit} {steps before after : List (EStateM ε σ Unit)} {s u : σ}

theorem passes_cons : Passes (x :: steps) s u ↔ ∃ t, x s = .ok () t ∧ Passes steps t u := by
  constructor
  · rintro ⟨⟩
    exact ⟨_, ‹_›, ‹_›⟩
  · rintro ⟨t, hx, hrest⟩
    exact .step hx hrest

theorem passes_append : Passes (before ++ after) s u ↔ ∃ t, Passes before s t ∧ Passes after t u := by
  induction before generalizing s with
  | nil =>
    constructor
    · exact fun h => ⟨s, .done, h⟩
    · rintro ⟨_, ⟨⟩, h⟩
      exact h
  | cons x rest ih =>
    simp only [List.cons_append, passes_cons, ih]
    constructor
    · rintro ⟨m, hx, t, hrest, hafter⟩
      exact ⟨t, ⟨m, hx, hrest⟩, hafter⟩
    · rintro ⟨t, ⟨m, hx, hrest⟩, hafter⟩
      exact ⟨m, hx, t, hrest, hafter⟩

theorem forM_id_cons (x : EStateM ε σ Unit) (steps : List (EStateM ε σ Unit)) :
    (x :: steps).forM id = x >>= fun _ => steps.forM id := rfl

/-- A list of steps succeeds when all of them do, and ends where the last one ends. -/
theorem forM_eq_ok_iff : steps.forM id s = .ok () u ↔ Passes steps s u := by
  induction steps generalizing s with
  | nil =>
    constructor
    · intro h
      obtain rfl : s = u := by injection h
      exact .done
    · rintro ⟨⟩
      rfl
  | cons x rest ih =>
    rw [forM_id_cons, run_bind_eq_ok, passes_cons]
    constructor
    · rintro ⟨_, t, hx, hrest⟩
      exact ⟨t, hx, ih.mp hrest⟩
    · rintro ⟨t, hx, hrest⟩
      exact ⟨(), t, hx, ih.mpr hrest⟩

/-- A list of steps fails as the first of them that fails, behind steps that succeed, and ends where
that one ends. -/
theorem forM_eq_error_iff {failure : ε} : steps.forM id s = .error failure u ↔
    ∃ before x after t, steps = before ++ x :: after ∧ Passes before s t ∧
      x t = .error failure u := by
  induction steps generalizing s with
  | nil =>
    constructor
    · exact fun h => nomatch h
    · rintro ⟨before, x, after, t, h, -⟩
      simp at h
  | cons first rest ih =>
    rw [forM_id_cons, run_bind_eq_error]
    constructor
    · rintro (hfirst | ⟨_, m, hfirst, hrest⟩)
      · exact ⟨[], first, rest, s, rfl, .done, hfirst⟩
      · obtain ⟨before, x, after, t, rfl, hbefore, hx⟩ := ih.mp hrest
        exact ⟨first :: before, x, after, t, rfl, .step hfirst hbefore, hx⟩
    · rintro ⟨before, x, after, t, h, hbefore, hx⟩
      cases before with
      | nil =>
        obtain ⟨rfl, rfl⟩ := List.cons.inj h
        cases hbefore
        exact .inl hx
      | cons y before =>
        obtain ⟨rfl, rfl⟩ := List.cons.inj h
        obtain ⟨m, hfirst, hbefore⟩ := passes_cons.mp hbefore
        exact .inr ⟨(), m, hfirst, ih.mpr ⟨before, x, after, t, rfl, hbefore, hx⟩⟩

/-- One of the steps, reached from `s`, finds something there and takes it away. -/
def Removes (there : σ → Prop) (steps : List (EStateM ε σ Unit)) (s : σ) : Prop :=
  ∃ before x after t u, steps = before ++ x :: after ∧ Passes before s t ∧ there t ∧
    x t = .ok () u ∧ ¬ there u

theorem Removes.behind {there : σ → Prop} {t : σ} (hbefore : Passes before s t)
    (h : Removes there after t) : Removes there (before ++ after) s := by
  obtain ⟨front, x, back, m, u, rfl, hfront, hm, hx, hu⟩ := h
  exact ⟨before ++ front, x, back, m, u, by simp, passes_append.mpr ⟨t, hbefore, hfront⟩, hm, hx, hu⟩

/-- What is there stays there unless a step takes it away. -/
theorem Passes.keeps {there : σ → Prop} (h : Passes steps s u) (hs : there s) :
    there u ∨ Removes there steps s := by
  induction h with
  | done => exact .inl hs
  | @step x rest s t u hx hrest ih =>
    by_cases ht : there t
    · exact (ih ht).imp_right (Removes.behind (.step hx .done))
    · exact .inr ⟨[], x, rest, s, t, rfl, .done, hs, hx, ht⟩

/-- What a step puts there is there at the end of the list, unless a later step takes it away. -/
theorem Passes.present {there : σ → Prop} (h : Passes (before ++ x :: after) s u)
    (hx : ∀ {t t'}, x t = .ok () t' → there t') :
    there u ∨ Removes there (before ++ x :: after) s := by
  obtain ⟨t, hbefore, h⟩ := passes_append.mp h
  obtain ⟨t', hstep, hafter⟩ := passes_cons.mp h
  refine (hafter.keeps (hx hstep)).imp_right fun hremoves => Removes.behind hbefore ?_
  have hx : Passes [x] t t' := .step hstep .done
  exact hremoves.behind hx

end Steps

/-! ### Runs -/

namespace Pipeline

variable {ω : Type}

/-- The steps around a phase: the hooks before it, the phase, and the hooks behind it. -/
def stepsAround (plugins : List (Plugin ω)) (phase : Phase ω) : List (Step ω Unit) :=
  plugins.map (fun plugin => plugin.before phase.name) ++
    phase.run :: plugins.map (fun plugin => plugin.after phase.name)

/-- The phases of every run. -/
def builtIn (lints : List Lint) : List (Phase ω) := [.validate lints, .lower, .analyze]

/-- All steps of a run, in their order. -/
def allSteps (p : Pipeline ω) : List (Step ω Unit) :=
  (builtIn p.lints ++ p.extra).flatMap (stepsAround p.plugins)

/-- The steps of a run before an extra phase that has the given ones in front of it. -/
def stepsBefore (p : Pipeline ω) (front : List (Phase ω)) (phase : Phase ω) : List (Step ω Unit) :=
  (builtIn p.lints ++ front).flatMap (stepsAround p.plugins) ++
    p.plugins.map fun plugin => plugin.before phase.name

theorem allSteps_eq {p : Pipeline ω} {front back : List (Phase ω)} {phase : Phase ω}
    (h : p.extra = front ++ phase :: back) : p.allSteps = p.stepsBefore front phase ++ phase.run ::
      (p.plugins.map (fun plugin => plugin.after phase.name) ++
        back.flatMap (stepsAround p.plugins)) := by
  simp [allSteps, stepsBefore, h, stepsAround, List.append_assoc]

theorem runPhase_eq (plugins : List (Plugin ω)) (phase : Phase ω) :
    runPhase plugins phase = (stepsAround plugins phase).forM id := by
  simp [runPhase, stepsAround]

theorem steps_eq (p : Pipeline ω) : p.steps = p.allSteps.forM id := by
  have hflat : ∀ phases : List (Phase ω), phases.forM (runPhase p.plugins) =
      (phases.flatMap (stepsAround p.plugins)).forM id := by
    intro phases
    induction phases with
    | nil => rfl
    | cons phase rest ih =>
      rw [List.flatMap_cons]
      simp only [List.forM_eq_forM, List.forM_cons, List.forM_append] at ih ⊢
      rw [ih, runPhase_eq, List.forM_eq_forM]
  exact hflat _

/-- What a built-in phase puts into the context is there at an extra phase, unless a step between
them takes it out. -/
theorem present_or_removes (there : Context → Prop) {p : Pipeline ω} {front : List (Phase ω)}
    {phase built : Phase ω} (hbuilt : built ∈ builtIn p.lints)
    (hputs : ∀ {s t : Session ω}, built.run s = .ok () t → there t.context) {s u : Session ω}
    (h : Passes (p.stepsBefore front phase) s u) :
    there u.context ∨ Removes (fun s => there s.context) (p.stepsBefore front phase) s := by
  obtain ⟨before, after, hsplit⟩ := List.append_of_mem hbuilt
  have hsteps : p.stepsBefore front phase =
      (before.flatMap (stepsAround p.plugins) ++
        p.plugins.map fun plugin => plugin.before built.name) ++
      built.run :: (p.plugins.map (fun plugin => plugin.after built.name) ++
        ((after ++ front).flatMap (stepsAround p.plugins) ++
          p.plugins.map fun plugin => plugin.before phase.name)) := by
    simp [stepsBefore, hsplit, stepsAround]
  rw [hsteps] at h ⊢
  exact h.present hputs

theorem api_of_lower {s t : Session ω} (h : Phase.lower.run s = .ok () t) :
    t.context.api.isSome = true := by
  obtain rfl : { s with context := lower s.context } = t := by injection h
  rfl

theorem counts_of_analyze {s t : Session ω} (h : Phase.analyze.run s = .ok () t) :
    t.context.counts.isSome = true := by
  unfold Phase.analyze Step.ofContext analyze at h
  cases hapi : s.context.api with
  | none => simp [hapi] at h
  | some api =>
    simp only [hapi, EStateM.Result.ok.injEq, true_and] at h
    rw [← h]
    rfl

/-- A run takes all steps in their order, each from the session that the one before it left. It
succeeds exactly when all of them do, and then ends where the last one ends. It fails exactly when one
fails behind steps that succeed, with the failure of that step and where that step ends, so that no
step behind it has run. Whenever an extra phase is reached, the API and the counts are there, unless a
step before it found them and took them out. -/
theorem run_allSteps (p : Pipeline ω) (d : Document) (config : Config) (world : ω) :
    (∀ t, p.run d config world = .ok () t ↔ Passes p.allSteps ⟨.new d config, world⟩ t) ∧
      (∀ failure t, p.run d config world = .error failure t ↔
        ∃ before x after s, p.allSteps = before ++ x :: after ∧
          Passes before ⟨.new d config, world⟩ s ∧ x s = .error failure t) ∧
      ∀ front phase back, p.extra = front ++ phase :: back →
        (∃ after, p.allSteps = p.stepsBefore front phase ++ phase.run :: after) ∧
        ∀ s, Passes (p.stepsBefore front phase) ⟨.new d config, world⟩ s →
          (s.context.api.isSome = true ∨ Removes (fun s => s.context.api.isSome = true)
            (p.stepsBefore front phase) ⟨.new d config, world⟩) ∧
          (s.context.counts.isSome = true ∨ Removes (fun s => s.context.counts.isSome = true)
            (p.stepsBefore front phase) ⟨.new d config, world⟩) := by
  rw [run, steps_eq]
  refine ⟨fun t => forM_eq_ok_iff, fun failure t => forM_eq_error_iff,
    fun front phase back hextra => ⟨⟨_, allSteps_eq hextra⟩, fun s hs => ⟨?_, ?_⟩⟩⟩
  · have hlower : (Phase.lower : Phase ω) ∈ builtIn p.lints := by simp [builtIn]
    exact present_or_removes (fun c => c.api.isSome = true) hlower api_of_lower hs
  · have hanalyze : (Phase.analyze : Phase ω) ∈ builtIn p.lints := by simp [builtIn]
    exact present_or_removes (fun c => c.counts.isSome = true) hanalyze counts_of_analyze hs

/-- Hooks that note their calls, and refuse to go on behind one phase. -/
def recorder (name refusing : String) : Plugin (List String) where
  before phase := modify fun s => { s with world := s.world ++ [name ++ " before " ++ phase] }
  after phase := do
    modify fun s => { s with world := s.world ++ [name ++ " after " ++ phase] }
    if phase == refusing then throw (.refused name)

/-- A phase that takes the API out of the context. -/
def taking : Phase (List String) := ⟨"taking", .ofContext fun c => c.takeApi.map Prod.snd⟩

def last : Phase (List String) := ⟨"last", pure ()⟩

/-- Two plugins, of which the second refuses to go on behind one phase, and two extra phases. -/
def recorded (refusing : String) : Pipeline (List String) :=
  ⟨Lint.all, [recorder "a" "", recorder "b" refusing], [taking, last]⟩

/-- Where nothing is refused the run takes all steps, and the last phase is reached without the API,
so one of the steps before it took the API out; the counts are still there. Where the second plugin
refuses to go on behind the first extra phase, the run ends there with its failure, and the hooks of
the last phase are not called. -/
theorem run_recorded :
    let start : Session (List String) := ⟨.new .empty .default, []⟩
    (∃ t, (recorded "").run .empty .default [] = .ok () t ∧ Passes (recorded "").allSteps start t) ∧
      (∃ s, Passes ((recorded "").stepsBefore [taking] last) start s ∧
        Removes (fun s => s.context.api.isSome = true) ((recorded "").stepsBefore [taking] last) start ∧
        s.context.counts.isSome = true) ∧
      ∃ before x after s t, (recorded "taking").allSteps = before ++ x :: after ∧
        Passes before start s ∧ x s = .error (.refused "b") t ∧
        t.world.drop 12 =
          ["a before taking", "b before taking", "a after taking", "b after taking"] := by
  intro start
  refine ⟨?_, ?_, ?_⟩
  · have hrun : (match (recorded "").run .empty .default [] with
      | .ok _ _ => true
      | _ => false) = true := rfl
    split at hrun
    · next t h => exact ⟨t, h, ((run_allSteps (recorded "") .empty .default []).1 t).mp h⟩
    · nomatch hrun
  · have hreached : (match ((recorded "").stepsBefore [taking] last).forM id start with
      | .ok _ s => (s.context.api.isSome, s.context.counts.isSome)
      | _ => (true, false)) = (false, true) := rfl
    split at hreached
    · next s h =>
      obtain ⟨hapi, hcounts⟩ := Prod.mk.inj hreached
      have hpasses := forM_eq_ok_iff.mp h
      obtain ⟨-, hpresent⟩ :=
        (run_allSteps (recorded "") .empty .default []).2.2 [taking] last [] rfl
      have hremoved := (hpresent s hpasses).1.resolve_left (by simp [hapi])
      exact ⟨s, hpasses, hremoved, hcounts⟩
    · nomatch hreached
  · have hrun : (match (recorded "taking").run .empty .default [] with
      | .error (.refused name) t => some (name, t.world.drop 12)
      | _ => none) = some ("b",
        ["a before taking", "b before taking", "a after taking", "b after taking"]) := rfl
    split at hrun
    · next name t h =>
      obtain ⟨rfl, hworld⟩ := Prod.mk.inj (Option.some.inj hrun)
      obtain ⟨before, x, after, s, hsteps, hbefore, hx⟩ :=
        ((run_allSteps (recorded "taking") .empty .default []).2.1 _ _).mp h
      exact ⟨before, x, after, s, t, hsteps, hbefore, hx, hworld⟩
    · nomatch hrun

end Pipeline

end TypedClient
