import Mathlib.Data.List.Infix

/-! Finite runs of a partial step function, and the rules by which facts about
single steps become facts about every state of every run. -/
namespace AgentTestHarness.Runs

variable {σ ε : Type*}

/-- The run performs the events of a list in order, each enabled where it happens. -/
inductive Run (step : σ → ε → Option σ) (start : σ) : List ε → σ → Prop
  | nil : Run step start [] start
  | snoc {es : List ε} {s t : σ} {e : ε} (prior : Run step start es s)
      (next : step s e = some t) : Run step start (es ++ [e]) t

/-- Every state reached while the events are performed has the property. -/
def Throughout (step : σ → ε → Option σ) (start : σ) (P : σ → Prop) (es : List ε) : Prop :=
  ∀ ⦃before s⦄, before <+: es → Run step start before s → P s

/-- Every step taken while the events are performed meets the condition. -/
def StepsMeet (step : σ → ε → Option σ) (start : σ) (C : σ → ε → Prop) (es : List ε) : Prop :=
  ∀ ⦃before e s t⦄, before ++ [e] <+: es → Run step start before s → step s e = some t → C s e

/-- Perform the events one after the other, if each is enabled. -/
def exec (step : σ → ε → Option σ) : σ → List ε → Option σ
  | s, [] => some s
  | s, e :: es => (step s e).bind fun t => exec step t es

variable {step : σ → ε → Option σ} {start : σ}

theorem Run.cons {s t : σ} {e : ε} {es : List ε} (next : step start e = some s)
    (rest : Run step s es t) : Run step start (e :: es) t := by
  induction rest with
  | nil => exact .snoc .nil next
  | snoc _ last ih => exact Run.snoc ih last

theorem run_of_exec {es : List ε} {s : σ} (h : exec step start es = some s) :
    Run step start es s := by
  induction es generalizing start with
  | nil => exact Option.some.inj h ▸ .nil
  | cons e es ih =>
    obtain ⟨t, next, rest⟩ := Option.bind_eq_some_iff.mp h
    exact .cons next (ih rest)

theorem exec_append (es fs : List ε) (s : σ) :
    exec step s (es ++ fs) = (exec step s es).bind fun t => exec step t fs := by
  induction es generalizing s with
  | nil => rfl
  | cons e es ih =>
    rw [List.cons_append, exec, exec]
    cases step s e with
    | none => rfl
    | some t => exact ih t

theorem exec_of_run {es : List ε} {s : σ} (run : Run step start es s) :
    exec step start es = some s := by
  induction run with
  | nil => rfl
  | snoc _ next ih =>
    rw [exec_append, ih, Option.bind_some, exec, next]
    rfl

theorem Run.append {es fs : List ε} {s t : σ} (first : Run step start es s)
    (rest : Run step s fs t) : Run step start (es ++ fs) t := by
  refine run_of_exec ?_
  rw [exec_append, exec_of_run first, Option.bind_some, exec_of_run rest]

/-- A property of all states of a run, checked by performing its beginnings. -/
theorem throughout_of_inits {P : σ → Prop} [DecidablePred P] {es : List ε}
    (h : es.inits.all (fun before => (exec step start before).all fun s => decide (P s)) = true) :
    Throughout step start P es := by
  intro before s hp run
  have hbefore := List.all_eq_true.mp h before ((List.mem_inits before es).mpr hp)
  rw [exec_of_run run] at hbefore
  exact of_decide_eq_true hbefore

/-- Whether every step meets the condition, found by performing the events. -/
def meets (step : σ → ε → Option σ) (C : σ → ε → Prop) [∀ s e, Decidable (C s e)] :
    σ → List ε → Bool
  | _, [] => true
  | s, e :: es => match step s e with
    | none => true
    | some t => decide (C s e) && meets step C t es

theorem stepsMeet_of_meets {C : σ → ε → Prop} [∀ s e, Decidable (C s e)] {es : List ε}
    (h : meets step C start es = true) : StepsMeet step start C es := by
  induction es generalizing start with
  | nil =>
    intro before e s t hp
    exact absurd (List.prefix_nil.mp hp) (by simp)
  | cons f es ih =>
    intro before e s t hp run next
    cases before with
    | nil =>
      obtain rfl : start = s := Option.some.inj (exec_of_run run)
      obtain rfl := (List.cons_prefix_cons.mp hp).1
      rw [meets, next, Bool.and_eq_true] at h
      exact of_decide_eq_true h.1
    | cons g before =>
      obtain ⟨rfl, hrest⟩ := List.cons_prefix_cons.mp hp
      obtain ⟨u, first, rest⟩ := Option.bind_eq_some_iff.mp (exec_of_run run)
      rw [meets, first, Bool.and_eq_true] at h
      exact ih h.2 hrest (run_of_exec rest) next

/-- Induction over runs for an invariant that may mention the events so far. -/
theorem Run.history {I : List ε → σ → Prop} (initially : I [] start)
    (preserved : ∀ {es s e t}, I es s → step s e = some t → I (es ++ [e]) t)
    {es : List ε} {s : σ} (run : Run step start es s) : I es s := by
  induction run with
  | nil => exact initially
  | snoc _ next ih => exact preserved ih next

theorem Run.invariant {I : σ → Prop} (initially : I start)
    (preserved : ∀ {s e t}, I s → step s e = some t → I t)
    {es : List ε} {s : σ} (run : Run step start es s) : I s :=
  run.history (I := fun _ => I) initially (fun h next => preserved h next)

/-- If, while an assumption holds, a step keeps the property exactly when it meets the condition,
then the property holds throughout a run exactly when all its steps meet the condition. -/
theorem throughout_iff_of_throughout {I P : σ → Prop} {C : σ → ε → Prop} {es : List ε}
    (assumed : Throughout step start I es) (initially : P start)
    (exact_step : ∀ {s e t}, I s → I t → P s → step s e = some t → (P t ↔ C s e)) :
    Throughout step start P es ↔ StepsMeet step start C es := by
  constructor
  · intro holds before e s t hp run next
    have hb : before <+: es := (List.prefix_append _ _).trans hp
    have last := run.snoc next
    exact (exact_step (assumed hb run) (assumed hp last) (holds hb run) next).mp (holds hp last)
  · intro meet before s hp run
    induction run with
    | nil => exact initially
    | snoc prior next ih =>
      have hb := (List.prefix_append _ _).trans hp
      exact (exact_step (assumed hb prior) (assumed hp (prior.snoc next)) (ih hb) next).mpr
        (meet hp prior next)

/-- The same under an invariant. -/
theorem throughout_iff_stepsMeet {I P : σ → Prop} {C : σ → ε → Prop}
    (invariant : I start) (kept : ∀ {s e t}, I s → step s e = some t → I t)
    (initially : P start)
    (exact_step : ∀ {s e t}, I s → P s → step s e = some t → (P t ↔ C s e))
    (es : List ε) : Throughout step start P es ↔ StepsMeet step start C es :=
  throughout_iff_of_throughout (fun _ _ _ run => run.invariant invariant kept) initially
    fun hs _ hp next => exact_step hs hp next

/-- An invariant that steps under a condition preserve. -/
theorem throughout_of_stepsMeet {I : σ → Prop} {C : σ → ε → Prop} (initially : I start)
    (preserved : ∀ {s e t}, I s → C s e → step s e = some t → I t)
    {es : List ε} (meet : StepsMeet step start C es) : Throughout step start I es := by
  intro before s hp run
  induction run with
  | nil => exact initially
  | snoc prior next ih =>
    exact preserved (ih ((List.prefix_append _ _).trans hp)) (meet hp prior next) next

/-- What the condition and such an invariant entail of a step. -/
theorem StepsMeet.imp {I : σ → Prop} {C D : σ → ε → Prop} {es : List ε}
    (meet : StepsMeet step start C es) (assumed : Throughout step start I es)
    (entails : ∀ {s e t}, I s → C s e → step s e = some t → D s e) :
    StepsMeet step start D es := by
  intro before e s t hp run next
  exact entails (assumed ((List.prefix_append _ _).trans hp) run) (meet hp run next) next

/-- An invariant that only events of a kind need to preserve. -/
theorem Run.invariant_on {I : σ → Prop} {Q : ε → Prop} (initially : I start)
    (preserved : ∀ {s e t}, I s → Q e → step s e = some t → I t)
    {es : List ε} {s : σ} (run : Run step start es s) (events : ∀ e ∈ es, Q e) : I s := by
  have meet : StepsMeet step start (fun _ e => Q e) es := by
    intro before e s t hp _ _
    exact events e (hp.subset (List.mem_append_right _ (List.mem_singleton_self e)))
  exact throughout_of_stepsMeet initially preserved meet List.prefix_rfl run

/-- Conditions that agree on the steps from states of an invariant are met by the same runs. -/
theorem stepsMeet_congr {I : σ → Prop} {Q : ε → Prop} {C D : σ → ε → Prop}
    (initially : I start) (kept : ∀ {s e t}, I s → Q e → step s e = some t → I t)
    (agree : ∀ {s e t}, I s → Q e → step s e = some t → (C s e ↔ D s e))
    {es : List ε} (events : ∀ e ∈ es, Q e) :
    StepsMeet step start C es ↔ StepsMeet step start D es := by
  have each : ∀ {before e s t}, before ++ [e] <+: es → Run step start before s →
      step s e = some t → (C s e ↔ D s e) := by
    intro before e s t hp run next
    have hall : ∀ e' ∈ before ++ [e], Q e' := fun e' he' => events e' (hp.subset he')
    rw [List.forall_mem_append] at hall
    exact agree (run.invariant_on initially kept hall.1) (hall.2 e (List.mem_singleton_self e)) next
  constructor
  · exact fun meet before e s t hp run next => (each hp run next).mp (meet hp run next)
  · exact fun meet before e s t hp run next => (each hp run next).mpr (meet hp run next)

/-! Steps that break a condition. -/

/-- How many steps do not meet the condition, found by performing the events. -/
def breaks (step : σ → ε → Option σ) (C : σ → ε → Prop) [∀ s e, Decidable (C s e)] :
    σ → List ε → ℕ
  | _, [] => 0
  | s, e :: es => match step s e with
    | none => 0
    | some t => (if C s e then 0 else 1) + breaks step C t es

/-- Induction over runs for an invariant that may mention how many steps broke the condition. -/
theorem Run.counting {C : σ → ε → Prop} [∀ s e, Decidable (C s e)] {I : ℕ → σ → Prop}
    (initially : I 0 start)
    (preserved : ∀ {n s e t}, I n s → step s e = some t → I (n + if C s e then 0 else 1) t)
    {es : List ε} {s : σ} (run : Run step start es s) : I (breaks step C start es) s := by
  have from_any : ∀ es u n, I n u → exec step u es = some s → I (n + breaks step C u es) s := by
    intro es
    induction es with
    | nil =>
      intro u n hu hs
      obtain rfl : u = s := Option.some.inj hs
      exact hu
    | cons e es ih =>
      intro u n hu hs
      obtain ⟨v, first, rest⟩ := Option.bind_eq_some_iff.mp hs
      rw [breaks, first, ← Nat.add_assoc]
      exact ih v _ (preserved hu first) rest
  have h := from_any es start 0 initially (exec_of_run run)
  rwa [Nat.zero_add] at h

/-! The first of a kind. -/

/-- Either one of the first numbers is the first of a kind, or none of them is. -/
theorem first_or_none (P : ℕ → Prop) (n : ℕ) :
    (∃ i < n, P i ∧ ∀ j < i, ¬ P j) ∨ ∀ i < n, ¬ P i := by
  induction n with
  | zero => exact .inr fun i hi => absurd hi (Nat.not_lt_zero i)
  | succ n ih =>
    rcases ih with ⟨i, hi, hfirst⟩ | hnone
    · exact .inl ⟨i, Nat.lt_succ_of_lt hi, hfirst⟩
    · by_cases hn : P n
      · exact .inl ⟨n, Nat.lt_succ_self n, hn, hnone⟩
      · refine .inr fun i hi => ?_
        rcases Nat.lt_succ_iff_lt_or_eq.mp hi with hlt | rfl
        · exact hnone i hlt
        · exact hn

end AgentTestHarness.Runs
