import Mathlib.Data.List.Infix

/-! Programs that call a service. The service may answer in any way and may change between two
calls, so a program has one behaviour for each sequence of answers. -/
namespace AgentTestHarness.ServiceCalls

variable {κ : Type} {ρ : κ → Type} {ε α β : Type}

inductive Program (ρ : κ → Type) (ε α : Type)
  | returns (a : α)
  | throws (e : ε)
  | asks (call : κ) (next : ρ call → Program ρ ε α)

/-- A call and its answer. -/
abbrev Event (ρ : κ → Type) := (call : κ) × ρ call

namespace Program

def bind : Program ρ ε α → (α → Program ρ ε β) → Program ρ ε β
  | returns a, f => f a
  | throws e, _ => throws e
  | asks call next, f => asks call fun answer => (next answer).bind f

instance : Monad (Program ρ ε) where
  pure := returns
  bind := bind

/-- A computation that calls nothing. -/
def computes : Except ε α → Program ρ ε α
  | .ok a => returns a
  | .error e => throws e

def ask (call : κ) : Program ρ ε (ρ call) := asks call returns

/-- The events of a program, as the service answers, and its result. -/
inductive Behaves : Program ρ ε α → List (Event ρ) → Except ε α → Prop
  | returns (a : α) : Behaves (returns a) [] (.ok a)
  | throws (e : ε) : Behaves (throws e) [] (.error e)
  | asks {call : κ} {next : ρ call → Program ρ ε α} (answer : ρ call) {events : List (Event ρ)}
      {result : Except ε α} (rest : Behaves (next answer) events result) :
      Behaves (asks call next) (⟨call, answer⟩ :: events) result

/-- The behaviour at a service whose answers depend on the call only. -/
def run (service : (call : κ) → ρ call) : Program ρ ε α → List (Event ρ) × Except ε α
  | returns a => ([], .ok a)
  | throws e => ([], .error e)
  | asks call next =>
    let (events, result) := run service (next (service call))
    (⟨call, service call⟩ :: events, result)

theorem behaves_run (service : (call : κ) → ρ call) (p : Program ρ ε α) :
    Behaves p (p.run service).1 (p.run service).2 := by
  induction p with
  | returns a => exact .returns a
  | throws e => exact .throws e
  | asks call next ih => exact .asks (service call) (ih (service call))

section

variable {p : Program ρ ε α} {f : α → Program ρ ε β} {events : List (Event ρ)}

@[simp] theorem behaves_pure {a : α} {r : Except ε α} :
    Behaves (pure a : Program ρ ε α) events r ↔ events = [] ∧ r = .ok a := by
  constructor
  · rintro ⟨⟩
    exact ⟨rfl, rfl⟩
  · rintro ⟨rfl, rfl⟩
    exact .returns a

@[simp] theorem behaves_throws {e : ε} {r : Except ε α} :
    Behaves (throws e : Program ρ ε α) events r ↔ events = [] ∧ r = .error e := by
  constructor
  · rintro ⟨⟩
    exact ⟨rfl, rfl⟩
  · rintro ⟨rfl, rfl⟩
    exact .throws e

@[simp] theorem behaves_computes {x r : Except ε α} :
    Behaves (computes x : Program ρ ε α) events r ↔ events = [] ∧ r = x := by
  cases x with
  | ok a => exact behaves_pure
  | error e => exact behaves_throws

theorem behaves_ask {call : κ} {r : Except ε (ρ call)} :
    Behaves (ask call) events r ↔ ∃ answer, events = [⟨call, answer⟩] ∧ r = .ok answer := by
  constructor
  · rintro (_ | _ | ⟨answer, rest⟩)
    obtain ⟨rfl, rfl⟩ := behaves_pure.mp rest
    exact ⟨answer, rfl, rfl⟩
  · rintro ⟨answer, rfl, rfl⟩
    exact .asks answer (.returns answer)

theorem Behaves.bind {first rest : List (Event ρ)} {a : α} {r : Except ε β}
    (hp : Behaves p first (.ok a)) (hf : Behaves (f a) rest r) :
    Behaves (p >>= f) (first ++ rest) r := by
  generalize hx : (Except.ok a : Except ε α) = x at hp
  induction hp with
  | returns b =>
    obtain rfl := Except.ok.inj hx
    exact hf
  | throws e => cases hx
  | asks answer _ ih => exact .asks answer (ih hx)

theorem Behaves.bind_error {e : ε} (hp : Behaves p events (.error e)) :
    Behaves (p >>= f) events (.error e) := by
  generalize hx : (Except.error e : Except ε α) = x at hp
  induction hp with
  | returns b => cases hx
  | throws e' =>
    obtain rfl := Except.error.inj hx
    exact .throws e
  | asks answer _ ih => exact .asks answer (ih hx)

/-- A sequence throws in its first part, or its second part goes on from a result of the first. -/
theorem behaves_bind {r : Except ε β} : Behaves (p >>= f) events r ↔
    (∃ e, r = .error e ∧ Behaves p events (.error e)) ∨
      ∃ a first rest, events = first ++ rest ∧ Behaves p first (.ok a) ∧ Behaves (f a) rest r := by
  constructor
  · intro h
    induction p generalizing events with
    | returns a => exact .inr ⟨a, [], events, rfl, .returns a, h⟩
    | throws e =>
      obtain ⟨rfl, rfl⟩ := behaves_throws.mp h
      exact .inl ⟨e, rfl, .throws e⟩
    | asks call next ih =>
      rcases h with _ | _ | ⟨answer, h⟩
      rcases ih answer h with ⟨e, rfl, hp⟩ | ⟨a, first, rest, rfl, hp, hf⟩
      · exact .inl ⟨e, rfl, .asks answer hp⟩
      · exact .inr ⟨a, _ :: first, rest, rfl, .asks answer hp, hf⟩
  · rintro (⟨e, rfl, hp⟩ | ⟨a, first, rest, rfl, hp, hf⟩)
    · exact hp.bind_error
    · exact hp.bind hf

theorem behaves_bind_ok {b : β} : Behaves (p >>= f) events (.ok b) ↔
    ∃ a first rest, events = first ++ rest ∧ Behaves p first (.ok a) ∧
      Behaves (f a) rest (.ok b) := by
  simp [behaves_bind]

/-- A computation before a program adds no events. -/
theorem behaves_computes_bind {x : Except ε α} {r : Except ε β} :
    Behaves ((computes x : Program ρ ε α) >>= f) events r ↔
      (∃ e, x = .error e ∧ events = [] ∧ r = .error e) ∨
        ∃ a, x = .ok a ∧ Behaves (f a) events r := by
  cases x with
  | ok a => exact ⟨fun h => .inr ⟨a, rfl, h⟩, by rintro (⟨e, ⟨⟩, -⟩ | ⟨_, ⟨⟩, h⟩); exact h⟩
  | error e =>
    refine behaves_throws.trans ⟨fun h => .inl ⟨e, rfl, h⟩, ?_⟩
    rintro (⟨_, ⟨⟩, h⟩ | ⟨a, ⟨⟩, -⟩)
    exact h

theorem behaves_computes_bind_ok {x : Except ε α} {b : β} :
    Behaves ((computes x : Program ρ ε α) >>= f) events (.ok b) ↔
      ∃ a, x = .ok a ∧ Behaves (f a) events (.ok b) := by
  simp [behaves_computes_bind]

theorem behaves_ask_bind {call : κ} {g : ρ call → Program ρ ε β} {r : Except ε β} :
    Behaves (ask call >>= g) events r ↔ ∃ answer rest, events = ⟨call, answer⟩ :: rest ∧
      Behaves (g answer) rest r := by
  constructor
  · rintro (_ | _ | ⟨answer, rest⟩)
    exact ⟨answer, _, rfl, rest⟩
  · rintro ⟨answer, rest, rfl, h⟩
    exact .asks answer h

end

/-- The answers determine how many of them a program takes, and its result. -/
theorem Behaves.unique {p : Program ρ ε α} {first first' events : List (Event ρ)}
    {r r' : Except ε α} (h : Behaves p first r) (h' : Behaves p first' r') (hp : first <+: events)
    (hp' : first' <+: events) : first = first' ∧ r = r' := by
  induction h generalizing first' events with
  | returns a =>
    obtain ⟨rfl, rfl⟩ := behaves_pure.mp h'
    exact ⟨rfl, rfl⟩
  | throws e =>
    obtain ⟨rfl, rfl⟩ := behaves_throws.mp h'
    exact ⟨rfl, rfl⟩
  | asks answer _ ih =>
    rcases h' with _ | _ | ⟨answer', rest'⟩
    obtain ⟨after, rfl⟩ := hp
    rw [List.cons_append, List.cons_prefix_cons] at hp'
    obtain ⟨heq, hp'⟩ := hp'
    obtain rfl : answer' = answer := eq_of_heq (Sigma.mk.inj heq).2
    obtain ⟨rfl, rfl⟩ := ih rest' (List.prefix_append _ after) hp'
    exact ⟨rfl, rfl⟩

/-! Programs that make only calls of a kind. -/

def Only (P : κ → Prop) : Program ρ ε α → Prop
  | returns _ => True
  | throws _ => True
  | asks call next => P call ∧ ∀ answer, (next answer).Only P

section

variable {P Q : κ → Prop} {p : Program ρ ε α}

theorem only_pure (a : α) : (pure a : Program ρ ε α).Only P := trivial

theorem only_throws (e : ε) : (throws e : Program ρ ε α).Only P := trivial

theorem only_computes (x : Except ε α) : (computes x : Program ρ ε α).Only P := by
  cases x <;> trivial

theorem only_ask {call : κ} (h : P call) : (ask call : Program ρ ε _).Only P :=
  ⟨h, fun _ => trivial⟩

theorem only_ite {c : Prop} [Decidable c] {q : Program ρ ε α} (hp : c → p.Only P)
    (hq : ¬ c → q.Only P) : (if c then p else q).Only P := by
  split
  · exact hp ‹_›
  · exact hq ‹_›

theorem Only.bind {f : α → Program ρ ε β} (hp : p.Only P) (hf : ∀ a, (f a).Only P) :
    (p >>= f).Only P := by
  induction p with
  | returns a => exact hf a
  | throws e => trivial
  | asks call next ih => exact ⟨hp.1, fun answer => ih answer (hp.2 answer)⟩

theorem Only.mono (hp : p.Only P) (h : ∀ call, P call → Q call) : p.Only Q := by
  induction p with
  | returns a => trivial
  | throws e => trivial
  | asks call next ih => exact ⟨h call hp.1, fun answer => ih answer (hp.2 answer)⟩

theorem Only.of_behaves (hp : p.Only P) {events : List (Event ρ)} {r : Except ε α}
    (h : Behaves p events r) : ∀ e ∈ events, P e.1 := by
  induction h with
  | returns a => exact fun _ he => absurd he List.not_mem_nil
  | throws e => exact fun _ he => absurd he List.not_mem_nil
  | asks answer _ ih => exact List.forall_mem_cons.mpr ⟨hp.1, ih (hp.2 answer)⟩

end

/-! The calls of a kind that a program makes, in their order. -/

def calls (kind : κ → Bool) (events : List (Event ρ)) : List κ :=
  (events.map Sigma.fst).filter kind

/-- The calls of the kind are these, as far as the program comes. -/
def Makes (kind : κ → Bool) (p : Program ρ ε α) (made : List κ) : Prop :=
  ∀ ⦃events r⦄, Behaves p events r →
    calls kind events <+: made ∧ (∀ a, r = .ok a → calls kind events = made)

section

variable {kind : κ → Bool} {p : Program ρ ε α}

theorem calls_append (first rest : List (Event ρ)) :
    calls kind (first ++ rest) = calls kind first ++ calls kind rest := by
  simp [calls]

theorem event_of_mem_calls {call : κ} {events : List (Event ρ)} (h : call ∈ calls kind events) :
    ∃ before answer after, events = before ++ (⟨call, answer⟩ : Event ρ) :: after := by
  obtain ⟨⟨c, answer⟩, he, rfl⟩ := List.mem_map.mp (List.mem_filter.mp h).1
  obtain ⟨before, after, rfl⟩ := List.append_of_mem he
  exact ⟨before, answer, after, rfl⟩

theorem Only.calls_eq_nil (hp : p.Only fun call => kind call = false) {events : List (Event ρ)}
    {r : Except ε α} (h : Behaves p events r) : calls kind events = [] := by
  refine List.filter_eq_nil_iff.mpr fun call hcall => ?_
  obtain ⟨e, he, rfl⟩ := List.mem_map.mp hcall
  exact Bool.eq_false_iff.mp (hp.of_behaves h e he)

theorem mem_calls {e : Event ρ} {events : List (Event ρ)} (he : e ∈ events)
    (hkind : kind e.1 = true) : e.1 ∈ calls kind events :=
  List.mem_filter.mpr ⟨List.mem_map_of_mem he, hkind⟩

/-- At a service whose answers depend on the call only, the calls tell the events. -/
theorem events_run (service : (call : κ) → ρ call) (p : Program ρ ε α) :
    (p.run service).1 =
      (calls (fun _ => true) (p.run service).1).map fun call => ⟨call, service call⟩ := by
  induction p with
  | returns a => rfl
  | throws e => rfl
  | asks call next ih => exact congrArg (⟨call, service call⟩ :: ·) (ih (service call))

/-- The only event of a kind splits the events in one way. -/
theorem split_unique {before before' after after' : List (Event ρ)} {x y : Event ρ}
    (h : before ++ x :: after = before' ++ y :: after') (hbefore : calls kind before = [])
    (hafter : calls kind after = []) (hy : kind y.1 = true) :
    before = before' ∧ x = y ∧ after = after' := by
  have other : ∀ {es : List (Event ρ)}, calls kind es = [] → y ∉ es := by
    intro es hes hmem
    exact List.ne_nil_of_mem (mem_calls hmem hy) hes
  rcases List.append_eq_append_iff.mp h with ⟨c, rfl, hc⟩ | ⟨c, rfl, hc⟩
  · cases c with
    | nil =>
      obtain ⟨rfl, rfl⟩ := List.cons.inj hc
      exact ⟨(List.append_nil _).symm, rfl, rfl⟩
    | cons z c =>
      obtain ⟨-, rfl⟩ := List.cons.inj hc
      exact absurd (List.mem_append_right _ List.mem_cons_self) (other hafter)
  · cases c with
    | nil =>
      obtain ⟨rfl, rfl⟩ := List.cons.inj hc
      exact ⟨List.append_nil _, rfl, rfl⟩
    | cons z c =>
      obtain ⟨rfl, -⟩ := List.cons.inj hc
      exact absurd (List.mem_append_right _ List.mem_cons_self) (other hbefore)

theorem Only.makes (hp : p.Only fun call => kind call = false) : p.Makes kind [] := by
  intro events r h
  rw [hp.calls_eq_nil h]
  exact ⟨List.prefix_rfl, fun _ _ => rfl⟩

theorem makes_ask {call : κ} (hkind : kind call = true) :
    (ask call : Program ρ ε _).Makes kind [call] := by
  intro events r h
  obtain ⟨answer, rfl, rfl⟩ := behaves_ask.mp h
  have hcalls : calls kind [(⟨call, answer⟩ : Event ρ)] = [call] := by simp [calls, hkind]
  rw [hcalls]
  exact ⟨List.prefix_rfl, fun _ _ => rfl⟩

theorem Makes.bind {made rest : List κ} {f : α → Program ρ ε β} (hp : p.Makes kind made)
    (hf : ∀ a, (f a).Makes kind rest) : (p >>= f).Makes kind (made ++ rest) := by
  intro events r h
  rcases behaves_bind.mp h with ⟨e, rfl, hfirst⟩ | ⟨a, first, last, rfl, hfirst, hlast⟩
  · exact ⟨(hp hfirst).1.trans (List.prefix_append _ _), fun _ hr => by cases hr⟩
  · have hmade := (hp hfirst).2 a rfl
    obtain ⟨hmost, hall⟩ := hf a hlast
    rw [calls_append, hmade]
    exact ⟨(List.prefix_append_right_inj made).mpr hmost, fun b hr => by rw [hall b hr]⟩

theorem Makes.bind_only {made : List κ} {f : α → Program ρ ε β} (hp : p.Makes kind made)
    (hf : ∀ a, (f a).Only fun call => kind call = false) : (p >>= f).Makes kind made := by
  have h := hp.bind fun a => (hf a).makes
  rwa [List.append_nil] at h

end

end Program

end AgentTestHarness.ServiceCalls
