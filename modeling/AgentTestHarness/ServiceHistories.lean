import AgentTestHarness.ServiceCalls

/-! Programs that call a service, with what they may call after a history of calls and answers. -/
namespace AgentTestHarness.ServiceHistories
open ServiceCalls ServiceCalls.Program

variable {κ : Type} {ρ : κ → Type} {ε α β σ : Type}

/-- From a history on, every call is allowed after what came before it, and a result satisfies the
postcondition. -/
def Meets (allowed : List (Event ρ) → κ → Prop) :
    List (Event ρ) → Program ρ ε α → (List (Event ρ) → α → Prop) → Prop
  | past, .returns a, post => post past a
  | _, .throws _, _ => True
  | past, .asks call next, post =>
    allowed past call ∧ ∀ answer, Meets allowed (past ++ [⟨call, answer⟩]) (next answer) post

section

variable {allowed : List (Event ρ) → κ → Prop} {past : List (Event ρ)}
  {post : List (Event ρ) → α → Prop}

theorem meets_pure {a : α} (h : post past a) :
    Meets allowed past (pure a : Program ρ ε α) post := h

theorem meets_throws (e : ε) : Meets allowed past (throws e : Program ρ ε α) post := trivial

theorem meets_computes {x : Except ε α} (h : ∀ a, x = .ok a → post past a) :
    Meets allowed past (computes x : Program ρ ε α) post := by
  cases x with
  | ok a => exact h a rfl
  | error e => trivial

theorem meets_ask {call : κ} {post : List (Event ρ) → ρ call → Prop} (hcall : allowed past call)
    (h : ∀ answer, post (past ++ [⟨call, answer⟩]) answer) :
    Meets allowed past (ask call : Program ρ ε _) post := ⟨hcall, h⟩

theorem meets_ite {c : Prop} [Decidable c] {p q : Program ρ ε α}
    (hp : c → Meets allowed past p post) (hq : ¬ c → Meets allowed past q post) :
    Meets allowed past (if c then p else q) post := by
  split
  · exact hp ‹_›
  · exact hq ‹_›

/-- The postcondition is weakened; a history only grows. -/
theorem Meets.mono {p : Program ρ ε α} {post' : List (Event ρ) → α → Prop}
    (h : Meets allowed past p post)
    (hpost : ∀ past' a, past <+: past' → post past' a → post' past' a) :
    Meets allowed past p post' := by
  induction p generalizing past with
  | returns a => exact hpost past a List.prefix_rfl h
  | throws e => trivial
  | asks call next ih =>
    refine ⟨h.1, fun answer => ih answer (h.2 answer) fun past' a hpast => ?_⟩
    exact hpost past' a ((List.prefix_append past _).trans hpast)

/-- More is allowed. -/
theorem Meets.imp {p : Program ρ ε α} {allowed' : List (Event ρ) → κ → Prop}
    (h : Meets allowed past p post)
    (hallowed : ∀ past call, allowed past call → allowed' past call) :
    Meets allowed' past p post := by
  induction p generalizing past with
  | returns a => exact h
  | throws e => trivial
  | asks call next ih => exact ⟨hallowed past call h.1, fun answer => ih answer (h.2 answer)⟩

theorem Meets.only {p : Program ρ ε α} {P : κ → Prop} (h : Meets allowed past p post)
    (hP : ∀ past call, allowed past call → P call) : p.Only P := by
  induction p generalizing past with
  | returns a => trivial
  | throws e => trivial
  | asks call next ih => exact ⟨hP past call h.1, fun answer => ih answer (h.2 answer)⟩

/-- A history grows by calls of a kind. -/
def Grows (P : κ → Prop) (past past' : List (Event ρ)) : Prop :=
  ∃ events, past' = past ++ events ∧ ∀ e ∈ events, P e.1

theorem Grows.isPrefix {P : κ → Prop} {past' : List (Event ρ)} (h : Grows P past past') :
    past <+: past' := by
  obtain ⟨events, rfl, -⟩ := h
  exact List.prefix_append past events

/-- A summary of the history that the calls of a kind leave. -/
theorem foldl_of_grows {P : κ → Prop} {step : α → Event ρ → α} {past' : List (Event ρ)}
    (hstep : ∀ e, P e.1 → ∀ a, step a e = a) (h : Grows P past past') (a : α) :
    past'.foldl step a = past.foldl step a := by
  obtain ⟨events, rfl, hevents⟩ := h
  rw [List.foldl_append]
  generalize past.foldl step a = b
  induction events with
  | nil => rfl
  | cons e events ih =>
    rw [List.foldl_cons, hstep e (hevents e List.mem_cons_self)]
    exact ih fun e he => hevents e (List.mem_cons_of_mem _ he)

/-- A program that makes only calls of a kind lets the history grow by them. -/
theorem Meets.grows {p : Program ρ ε α} {P : κ → Prop} (h : Meets allowed past p post)
    (hp : p.Only P) :
    Meets allowed past p fun past' a => Grows P past past' ∧ post past' a := by
  induction p generalizing past with
  | returns a =>
    exact ⟨⟨[], (List.append_nil past).symm, fun _ he => absurd he List.not_mem_nil⟩, h⟩
  | throws e => trivial
  | asks call next ih =>
    refine ⟨h.1, fun answer => ?_⟩
    refine (ih answer (h.2 answer) (hp.2 answer)).mono fun past' a _ hpost => ?_
    obtain ⟨⟨events, rfl, hevents⟩, hresult⟩ := hpost
    refine ⟨⟨⟨call, answer⟩ :: events, List.append_assoc _ _ _, ?_⟩, hresult⟩
    exact List.forall_mem_cons.mpr ⟨hp.1, hevents⟩

theorem Meets.bind {p : Program ρ ε α} {f : α → Program ρ ε β} {goal : List (Event ρ) → β → Prop}
    (h : Meets allowed past p fun past a => Meets allowed past (f a) goal) :
    Meets allowed past (p >>= f) goal := by
  induction p generalizing past with
  | returns a => exact h
  | throws e => trivial
  | asks call next ih => exact ⟨h.1, fun answer => ih answer (h.2 answer)⟩

/-- A program, and what goes on from a condition that it meets. -/
theorem Meets.andThen {p : Program ρ ε α} {f : α → Program ρ ε β}
    {goal : List (Event ρ) → β → Prop} (h : Meets allowed past p post)
    (hf : ∀ past' a, past <+: past' → post past' a → Meets allowed past' (f a) goal) :
    Meets allowed past (p >>= f) goal :=
  Meets.bind (h.mono hf)

/-- Every call of a behaviour was allowed, and its result satisfies the postcondition. -/
theorem Meets.of_behaves {p : Program ρ ε α} (h : Meets allowed past p post)
    {events : List (Event ρ)} {r : Except ε α} (hb : Behaves p events r) :
    (∀ before call answer after, events = before ++ (⟨call, answer⟩ : Event ρ) :: after →
      allowed (past ++ before) call) ∧ ∀ a, r = .ok a → post (past ++ events) a := by
  induction hb generalizing past with
  | returns a =>
    refine ⟨fun before call answer after hsplit => ?_, fun b hb => ?_⟩
    · exact absurd hsplit.symm (List.append_ne_nil_of_right_ne_nil _ (List.cons_ne_nil _ _))
    · obtain rfl := Except.ok.inj hb
      rw [List.append_nil]
      exact h
  | throws e =>
    refine ⟨fun before call answer after hsplit => ?_, fun b hb => by cases hb⟩
    exact absurd hsplit.symm (List.append_ne_nil_of_right_ne_nil _ (List.cons_ne_nil _ _))
  | @asks call next answer events result hb ih =>
    obtain ⟨hrest, hresult⟩ := ih (h.2 answer)
    have hpast : past ++ [⟨call, answer⟩] ++ events = past ++ ⟨call, answer⟩ :: events :=
      List.append_assoc _ _ _
    refine ⟨fun before call' answer' after hsplit => ?_, fun a ha => hpast ▸ hresult a ha⟩
    cases before with
    | nil =>
      obtain ⟨hcall, -⟩ := List.cons.inj hsplit
      obtain ⟨rfl, -⟩ := Sigma.mk.inj hcall
      rw [List.append_nil]
      exact h.1
    | cons e before =>
      obtain ⟨rfl, htail⟩ := List.cons.inj hsplit
      have hallowed := hrest before call' answer' after htail
      rwa [List.append_assoc] at hallowed

/-- What every step keeps, every sequence of steps keeps. -/
theorem meets_foldlM {step : α → σ → Program ρ ε α} {inv : List (Event ρ) → α → Prop}
    (hstep : ∀ s past a, inv past a → Meets allowed past (step a s) inv) (steps : List σ) :
    ∀ {past : List (Event ρ)} {a : α}, inv past a →
      Meets allowed past (steps.foldlM step a) inv := by
  induction steps with
  | nil => exact fun h => h
  | cons s steps ih =>
    intro past a h
    exact Meets.bind ((hstep s past a h).mono fun past' a' _ h' => ih h')

/-- The last step starts from what the steps before it keep. -/
theorem meets_foldlM_concat {step : α → σ → Program ρ ε α}
    {inv goal : List (Event ρ) → α → Prop}
    (hstep : ∀ s past a, inv past a → Meets allowed past (step a s) inv) {last : σ}
    (hlast : ∀ past a, inv past a → Meets allowed past (step a last) goal) (steps : List σ) :
    ∀ {past : List (Event ρ)} {a : α}, inv past a →
      Meets allowed past ((steps ++ [last]).foldlM step a) goal := by
  induction steps with
  | nil => exact fun h => (hlast _ _ h).andThen fun past' a' _ h' => meets_pure h'
  | cons s steps ih =>
    intro past a h
    exact (hstep s past a h).andThen fun past' a' _ h' => ih h'

end

end AgentTestHarness.ServiceHistories
