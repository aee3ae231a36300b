import AgentTestHarness.Runs
import Mathlib.Data.Finset.Option
import Mathlib.Order.Interval.Finset.Nat

/-! The agent processes that a backchannel starts and stops, acapy_backchannel.py lines 1931 to
2107 with routes/agent_routes.py, and afgo_backchannel.py lines 602 to 648 and 2705 to 2839. The
requests to start the agent are tasks of one event loop; `_terminate` and `_process` run in threads
of its executor, and read `self.proc` anew for each thing that they do with it. -/
namespace AgentTestHarness.AgentProcesses

open Runs

inductive Status
  | running
  | exited
  | reaped
  deriving DecidableEq

/-- A `Popen`, and how often it was sent a SIGTERM. -/
structure Popen where
  status : Status
  signals : ℕ
  deriving DecidableEq

/-- What `_terminate` does with `self.proc`. -/
inductive Action
  | poll
  | killpg
  | terminate
  | wait
  deriving DecidableEq

/-- Only `killpg` reaches a process whose exit `Popen` does not know yet. -/
def Popen.perform (proc : Popen) : Action → Popen
  | .killpg => if proc.status = .reaped then proc else { proc with signals := proc.signals + 1 }
  | .terminate => match proc.status with
    | .running => { proc with signals := proc.signals + 1 }
    | .exited | .reaped => { proc with status := .reaped }
  | .poll | .wait => if proc.status = .running then proc else { proc with status := .reaped }

/-- Where a task is. What it `reads` from `self.proc` it then `performs` the action on. -/
inductive Phase
  | killAgent
  | reads (action : Action)
  | performs (action : Action) (p : ℕ)
  | killed
  | starting
  | spawned (p : ℕ)
  | detecting
  | finished (ok : Bool)
  deriving DecidableEq

/-- The first start of `main`, a request to start the agent, and the `terminate` of `main`. -/
inductive Kind
  | main
  | request
  | quit
  deriving DecidableEq

structure Task where
  kind : Kind
  phase : Phase
  deriving DecidableEq

structure Backchannel where
  processes : List Popen
  proc : Option ℕ
  tasks : List Task
  deriving DecidableEq

/-- `main` listens before it starts the agent. -/
def start : Backchannel where
  processes := []
  proc := none
  tasks := [⟨.main, .starting⟩]

inductive Event
  | request
  | quit
  | advance (task : ℕ) (ok : Bool)
  | exit (p : ℕ)
  deriving DecidableEq

/-- From `kill_agent` to the assignment of `self.proc`. -/
def Phase.isUnderWay : Phase → Bool
  | .detecting => false
  | .finished _ => false
  | _ => true

def Phase.isFinished : Phase → Bool
  | .finished _ => true
  | _ => false

/-- What follows `kill_agent`. -/
def Kind.resume : Kind → Phase
  | .quit => .finished true
  | .main | .request => .starting

section

-- acapy_backchannel.py signals the group of the process first.
variable (byGroup : Bool)

/-- `killpg` raises when the process was waited for, and `wait` when it lives on. -/
def Action.next (status : Status) : Action → Phase
  | .poll => if status = .running then .reads (if byGroup then .killpg else .terminate) else .killed
  | .killpg => if status = .reaped then .finished false else .reads .terminate
  | .terminate => .reads .wait
  | .wait => if status = .running then .finished false else .killed

namespace Backchannel

variable (s : Backchannel)

def goto (i : ℕ) (kind : Kind) (phase : Phase) : Backchannel :=
  { s with tasks := s.tasks.set i ⟨kind, phase⟩ }

def arrive (kind : Kind) : Backchannel := { s with tasks := s.tasks ++ [⟨kind, .killAgent⟩] }

/-- The state that a task leaves, and where the task goes. Before the first start has assigned it
there is no attribute `self.proc`, which `kill_agent` raises at. -/
def moves (task : Task) (ok : Bool) : Option (Backchannel × Phase) :=
  match task.phase with
  | .killAgent => some (s, if s.proc.isSome then .reads .poll else .finished false)
  | .reads action => some (s, match s.proc with
    | some p => .performs action p
    | none => if action = .poll then .killed else .finished false)
  | .performs action p => (s.processes[p]?).map fun proc =>
    ({ s with processes := s.processes.set p (proc.perform action) },
      action.next byGroup proc.status)
  | .killed => some (s, task.kind.resume)
  | .starting => some (if ok then
      ({ s with processes := s.processes ++ [⟨.running, 0⟩] }, .spawned s.processes.length)
    else (s, .finished false))
  | .spawned p => some ({ s with proc := some p }, .detecting)
  | .detecting => some (s, .finished ok)
  | .finished _ => none

end Backchannel

/-- `main` comes to `terminate` once, after its start. -/
def step (s : Backchannel) : Event → Option Backchannel
  | .request => some (s.arrive .request)
  | .quit =>
    if s.tasks.head?.any (·.phase.isFinished) ∧ s.tasks.all (·.kind ≠ .quit) then
      some (s.arrive .quit)
    else none
  | .advance i ok => do
    let task ← s.tasks[i]?
    let (t, phase) ← s.moves byGroup task ok
    return t.goto i task.kind phase
  | .exit p => do
    let proc ← s.processes[p]?
    if proc.status = .running then
      some { s with processes := s.processes.set p { proc with status := .exited } }
    else none

end

/-- No request to start the agent comes while another start or stop is under way. -/
def Apart (s : Backchannel) (e : Event) : Prop :=
  e = .request → ∀ task ∈ s.tasks, task.phase.isUnderWay = false

instance (s : Backchannel) (e : Event) : Decidable (Apart s e) :=
  inferInstanceAs (Decidable (_ → _))

namespace Backchannel

def Lives (s : Backchannel) (p : ℕ) : Prop :=
  (s.processes[p]?).map Popen.status = some .running

instance (s : Backchannel) (p : ℕ) : Decidable (s.Lives p) := inferInstanceAs (Decidable (_ = _))

/-- The agents that live. -/
def living (s : Backchannel) : Finset ℕ := (Finset.range s.processes.length).filter s.Lives

end Backchannel

/-- The task has not yet come to start its process. -/
def Phase.isToCome : Phase → Bool
  | .killAgent | .reads _ | .performs _ _ | .killed | .starting => true
  | .spawned _ | .detecting | .finished _ => false

/-- The task of `terminate` starts none. -/
def Task.isToCome (task : Task) : Bool := task.kind ≠ .quit && task.phase.isToCome

/-- The process that the task goes on to use. -/
def Phase.held : Phase → Option ℕ
  | .performs _ p => some p
  | .spawned p => some p
  | _ => none

/-- The process is not `self.proc` any more, or that one was seen to be dead. -/
def Phase.isCleared : Phase → Bool
  | .killed | .starting => true
  | _ => false

section

variable {byGroup ok : Bool} {s t : Backchannel} {task : Task} {phase : Phase} {e : Event} {p : ℕ}

theorem Backchannel.Lives.lt (h : s.Lives p) : p < s.processes.length := by
  by_contra hge
  rw [Backchannel.Lives, List.getElem?_eq_none (Nat.le_of_not_lt hge)] at h
  cases h

theorem Backchannel.mem_living : p ∈ s.living ↔ s.Lives p := by
  rw [Backchannel.living, Finset.mem_filter, Finset.mem_range]
  exact ⟨fun h => h.2, fun h => ⟨h.lt, h⟩⟩

theorem perform_running {proc : Popen} {action : Action}
    (h : (proc.perform action).status = .running) : proc.status = .running := by
  obtain ⟨status, signals⟩ := proc
  cases action <;> cases status <;> simp_all [Popen.perform]

/-- A move that neither starts a process nor hands one over. -/
structure Plain (s : Backchannel) (task : Task) (t : Backchannel) (phase : Phase) : Prop where
  tasks : t.tasks = s.tasks
  proc : t.proc = s.proc
  length : t.processes.length = s.processes.length
  lives : ∀ p, t.Lives p → s.Lives p
  others : ∀ p, task.phase.held ≠ some p → t.processes[p]? = s.processes[p]?
  toCome : phase.isToCome = true → task.phase.isToCome = true
  starts : phase = .starting → task.kind ≠ .quit
  noHandOver : ∀ p, task.phase ≠ .spawned p
  notSpawned : ∀ p, phase ≠ .spawned p
  performs : ∀ action p, phase = .performs action p → s.proc = some p
  cleared : phase.isCleared = true → task.phase.isCleared = true ∨ s.proc = none ∨
    ∃ action p, task.phase = .performs action p ∧ ¬ t.Lives p

theorem lives_set {proc proc' : Popen} {q : ℕ} (hq : s.processes[q]? = some proc)
    (hproc : proc'.status = .running → proc.status = .running)
    (h : Backchannel.Lives { s with processes := s.processes.set q proc' } p) : s.Lives p := by
  rw [Backchannel.Lives, List.getElem?_set] at h
  split at h
  · next heq =>
    subst heq
    have hlt : q < s.processes.length := (List.getElem?_eq_some_iff.mp hq).1
    rw [if_pos hlt] at h
    rw [Backchannel.Lives, hq, Option.map_some, hproc (Option.some.inj h)]
  · exact h

theorem plain_same (toCome : phase.isToCome = true → task.phase.isToCome = true)
    (starts : phase = .starting → task.kind ≠ .quit)
    (noHandOver : ∀ p, task.phase ≠ .spawned p) (notSpawned : ∀ p, phase ≠ .spawned p)
    (performs : ∀ action p, phase = .performs action p → s.proc = some p)
    (cleared : phase.isCleared = true → task.phase.isCleared = true ∨ s.proc = none) :
    Plain s task s phase where
  tasks := rfl
  proc := rfl
  length := rfl
  lives _ h := h
  others _ _ := rfl
  toCome := toCome
  starts := starts
  noHandOver := noHandOver
  notSpawned := notSpawned
  performs := performs
  cleared h := (cleared h).imp_right .inl

theorem held_next {action : Action} {status : Status} :
    (action.next byGroup status).held = none := by
  cases action <;> cases status <;> cases byGroup <;> rfl

theorem next_ne_starting {action : Action} {status : Status} :
    action.next byGroup status ≠ .starting := by
  cases action <;> cases status <;> cases byGroup <;> exact nofun

theorem held_resume {kind : Kind} : kind.resume.held = none := by cases kind <;> rfl

theorem plain_performs {action : Action} {proc : Popen} (hproc : s.processes[p]? = some proc)
    (htask : task.phase = .performs action p) :
    Plain s task { s with processes := s.processes.set p (proc.perform action) }
      (action.next byGroup proc.status) where
  tasks := rfl
  proc := rfl
  length := List.length_set
  lives _ h := lives_set hproc perform_running h
  others q hq := by
    have hne : p ≠ q := fun h => hq (by rw [htask, h]; rfl)
    exact List.getElem?_set_ne hne
  toCome _ := by rw [htask]; rfl
  starts h := absurd h next_ne_starting
  noHandOver _ h := by rw [htask] at h; cases h
  notSpawned q h := by
    have hheld := @held_next byGroup action proc.status
    rw [h] at hheld
    cases hheld
  performs a q h := by
    have hheld := @held_next byGroup action proc.status
    rw [h] at hheld
    cases hheld
  cleared h := by
    refine .inr (.inr ⟨action, p, htask, fun hlives => ?_⟩)
    have hstatus : proc.status = .running := by
      have := lives_set hproc perform_running hlives
      rw [Backchannel.Lives, hproc] at this
      exact Option.some.inj this
    -- a process that runs is not taken for dead
    rw [hstatus] at h
    cases action <;> cases h

theorem plain_resume (htask : task.phase = .killed) : Plain s task s task.kind.resume := by
  refine plain_same (fun _ => by rw [htask]; rfl) (fun h hquit => ?_) (by simp [htask])
    (fun _ h => ?_) (fun _ _ h => ?_) fun _ => .inl (by rw [htask]; rfl)
  · rw [hquit] at h
    cases h
  · exact absurd (congrArg Phase.held h) (held_resume ▸ nofun)
  · exact absurd (congrArg Phase.held h) (held_resume ▸ nofun)

/-- A move starts a process, hands it over or does neither. -/
theorem moves_cases (h : s.moves byGroup task ok = some (t, phase)) :
    Plain s task t phase ∨
    (task.phase = .starting ∧ t = { s with processes := s.processes ++ [⟨.running, 0⟩] } ∧
      phase = .spawned s.processes.length) ∨
    ∃ p, task.phase = .spawned p ∧ t = { s with proc := some p } ∧ phase = .detecting := by
  unfold Backchannel.moves at h
  split at h
  · next htask =>
    obtain ⟨rfl, rfl⟩ := Prod.mk.inj (Option.some.inj h)
    left
    split
    · exact plain_same (fun _ => by rw [htask]; rfl) (fun h => by cases h) (by simp [htask])
        (fun _ h => by cases h) (fun _ _ h => by cases h) fun h => by cases h
    · exact plain_same (fun h => by cases h) (fun h => by cases h) (by simp [htask])
        (fun _ h => by cases h) (fun _ _ h => by cases h) fun h => by cases h
  · next action htask =>
    obtain ⟨rfl, rfl⟩ := Prod.mk.inj (Option.some.inj h)
    left
    split
    · next p hproc =>
      refine plain_same (fun _ => by rw [htask]; rfl) (fun h => by cases h) (by simp [htask])
        (fun _ h => by cases h) ?_ fun h => by cases h
      intro a q h
      cases h
      exact hproc
    · next hproc =>
      refine plain_same (fun _ => by rw [htask]; rfl) (fun h => ?_) (by simp [htask])
        (fun _ h => ?_) (fun _ _ h => ?_) fun _ => .inr hproc
      · split at h <;> cases h
      · split at h <;> cases h
      · split at h <;> cases h
  · next action p htask =>
    obtain ⟨proc, hproc, heq⟩ := Option.map_eq_some_iff.mp h
    obtain ⟨rfl, rfl⟩ := Prod.mk.inj heq
    exact .inl (plain_performs hproc htask)
  · next htask =>
    obtain ⟨rfl, rfl⟩ := Prod.mk.inj (Option.some.inj h)
    exact .inl (plain_resume htask)
  · next htask =>
    split at h
    · obtain ⟨rfl, rfl⟩ := Prod.mk.inj (Option.some.inj h)
      exact .inr (.inl ⟨htask, rfl, rfl⟩)
    · obtain ⟨rfl, rfl⟩ := Prod.mk.inj (Option.some.inj h)
      exact .inl (plain_same (fun h => by cases h) (fun h => by cases h) (by simp [htask])
        (fun _ h => by cases h) (fun _ _ h => by cases h) fun h => by cases h)
  · next p htask =>
    obtain ⟨rfl, rfl⟩ := Prod.mk.inj (Option.some.inj h)
    exact .inr (.inr ⟨p, htask, rfl, rfl⟩)
  · next htask =>
    obtain ⟨rfl, rfl⟩ := Prod.mk.inj (Option.some.inj h)
    exact .inl (plain_same (fun h => by cases h) (fun h => by cases h) (by simp [htask])
      (fun _ h => by cases h) (fun _ _ h => by cases h) fun h => by cases h)
  · cases h

/-- What each step does. -/
theorem step_cases (h : step byGroup s e = some t) :
    (e = .request ∧ t = s.arrive .request) ∨ (e = .quit ∧ t = s.arrive .quit) ∨
    (∃ p proc, e = .exit p ∧ s.processes[p]? = some proc ∧ proc.status = .running ∧
      t = { s with processes := s.processes.set p { proc with status := .exited } }) ∨
    ∃ i ok task u phase, e = .advance i ok ∧ s.tasks[i]? = some task ∧
      s.moves byGroup task ok = some (u, phase) ∧ t = u.goto i task.kind phase := by
  cases e with
  | request => exact .inl ⟨rfl, (Option.some.inj h).symm⟩
  | quit =>
    rw [step] at h
    split at h
    · exact .inr (.inl ⟨rfl, (Option.some.inj h).symm⟩)
    · cases h
  | advance i ok =>
    obtain ⟨task, htask, h⟩ := Option.bind_eq_some_iff.mp h
    obtain ⟨⟨u, phase⟩, hmoves, h⟩ := Option.bind_eq_some_iff.mp h
    exact .inr (.inr (.inr ⟨i, ok, task, u, phase, rfl, htask, hmoves, (Option.some.inj h).symm⟩))
  | exit p =>
    obtain ⟨proc, hproc, h⟩ := Option.bind_eq_some_iff.mp h
    split at h
    · next hrunning =>
      exact .inr (.inr (.inl ⟨p, proc, rfl, hproc, hrunning, (Option.some.inj h).symm⟩))
    · cases h

end

/-! Processes that no task can reach any more. -/

/-- The process was started, but nothing refers to it. -/
def Backchannel.Orphan (s : Backchannel) (p : ℕ) : Prop :=
  p < s.processes.length ∧ s.proc ≠ some p ∧ ∀ task ∈ s.tasks, task.phase.held ≠ some p

instance (s : Backchannel) (p : ℕ) : Decidable (s.Orphan p) :=
  inferInstanceAs (Decidable (_ ∧ _))

def Backchannel.orphans (s : Backchannel) : Finset ℕ := s.living.filter s.Orphan

section

variable {byGroup : Bool} {s t : Backchannel} {e : Event} {p : ℕ}

theorem orphan_step (h : step byGroup s e = some t) (hp : s.Orphan p) :
    t.Orphan p ∧ (e ≠ .exit p → t.processes[p]? = s.processes[p]?) := by
  obtain ⟨hstarted, hproc, hheld⟩ := hp
  have arrives : ∀ kind, (s.arrive kind).Orphan p := by
    refine fun kind => ⟨hstarted, hproc, fun task htask => ?_⟩
    rcases List.mem_append.mp htask with hmem | hmem
    · exact hheld task hmem
    · rw [List.mem_singleton.mp hmem]
      exact nofun
  rcases step_cases h with ⟨rfl, rfl⟩ | ⟨rfl, rfl⟩ | ⟨q, proc, rfl, hq, -, rfl⟩ |
    ⟨i, ok, task, u, phase, rfl, htask, hmoves, rfl⟩
  · exact ⟨arrives .request, fun _ => rfl⟩
  · exact ⟨arrives .quit, fun _ => rfl⟩
  · refine ⟨⟨hstarted.trans_eq List.length_set.symm, hproc, hheld⟩, fun hne => ?_⟩
    exact List.getElem?_set_ne fun h => hne (congrArg Event.exit h)
  · have hmem : task ∈ s.tasks := List.mem_of_getElem? htask
    have held : ∀ {tasks : List Task}, tasks = s.tasks → phase.held ≠ some p →
        ∀ task' ∈ tasks.set i ⟨task.kind, phase⟩, task'.phase.held ≠ some p := by
      rintro _ rfl hphase task' hmem'
      rcases List.mem_or_eq_of_mem_set hmem' with hmem' | rfl
      · exact hheld task' hmem'
      · exact hphase
    rcases moves_cases hmoves with hplain | ⟨-, rfl, rfl⟩ | ⟨q, hq, rfl, rfl⟩
    · refine ⟨⟨?_, ?_, held hplain.tasks ?_⟩, fun _ => hplain.others p (hheld task hmem)⟩
      · exact hplain.length ▸ hstarted
      · exact hplain.proc ▸ hproc
      · intro hphase
        cases phase with
        | spawned q => exact hplain.notSpawned q rfl
        | performs action q =>
          obtain rfl : q = p := Option.some.inj hphase
          exact hproc (hplain.performs action q rfl)
        | _ => cases hphase
    · refine ⟨⟨?_, hproc, held rfl ?_⟩, fun _ => ?_⟩
      · exact Nat.lt_of_lt_of_le hstarted (by simp [Backchannel.goto])
      · exact fun h => hstarted.ne' (Option.some.inj h)
      · exact List.getElem?_append_left hstarted
    · refine ⟨⟨hstarted, fun h => ?_, held rfl nofun⟩, fun _ => rfl⟩
      exact hheld task hmem ((congrArg Phase.held hq).trans h)

theorem signals_step (h : step byGroup s e = some t) (hp : s.Orphan p) :
    (t.processes[p]?).map Popen.signals = (s.processes[p]?).map Popen.signals := by
  by_cases he : e = .exit p
  · subst he
    obtain ⟨proc, hproc, h⟩ := Option.bind_eq_some_iff.mp h
    split at h
    · obtain rfl := Option.some.inj h
      rw [List.getElem?_set_self hp.1, hproc]
      rfl
    · cases h
  · rw [(orphan_step h hp).2 he]

/-- Whatever the backchannel does then, also when it terminates, it sends an orphan no signal, and
the orphan lives until it exits by itself. -/
theorem orphan_left {es : List Event} (hp : s.Orphan p) (run : Run (step byGroup) s es t) :
    t.Orphan p ∧ (t.processes[p]?).map Popen.signals = (s.processes[p]?).map Popen.signals ∧
      (.exit p ∉ es → t.processes[p]? = s.processes[p]?) := by
  induction run with
  | nil => exact ⟨hp, rfl, fun _ => rfl⟩
  | snoc _ next ih =>
    obtain ⟨horphan, hsignals, hsame⟩ := ih
    obtain ⟨hnext, hkept⟩ := orphan_step next horphan
    refine ⟨hnext, (signals_step next horphan).trans hsignals, fun hes => ?_⟩
    rw [List.mem_append, List.mem_singleton, not_or] at hes
    exact (hkept (Ne.symm hes.2)).trans (hsame hes.1)

end

section

variable {s t : Backchannel} {task : Task} {phase : Phase} {i p n₀ k₀ k : ℕ} {kind : Kind}

namespace Backchannel

/-- The tasks that may still start a process. -/
def toCome (s : Backchannel) : ℕ := s.tasks.countP Task.isToCome

/-- The agents of earlier times that live on apart from `self.proc`. -/
def left (s : Backchannel) (n₀ : ℕ) : Finset ℕ :=
  (Finset.range n₀).filter fun p => s.Lives p ∧ s.proc ≠ some p

end Backchannel

/-- Since a time when no task was under way: `n₀` processes had been started then, and `k₀` requests
had come while another task was under way; by now it is `k`. -/
structure Period (k : ℕ) (s : Backchannel) (n₀ k₀ : ℕ) : Prop where
  started : n₀ ≤ s.processes.length
  overlaps : k₀ ≤ k
  proc : ∀ p, s.proc = some p → p < s.processes.length
  left : (s.left n₀).card ≤ k₀
  toCome : s.toCome + s.processes.length + k₀ ≤ n₀ + k + 1
  starts : ∀ task ∈ s.tasks, task.phase = .starting → task.kind ≠ .quit
  spawned : ∀ task ∈ s.tasks, ∀ p, task.phase = .spawned p → n₀ ≤ p ∧ p < s.processes.length
  replaced : n₀ < s.processes.length →
    (∃ task ∈ s.tasks, ∃ p, task.phase = .spawned p) ∨ ∃ p, s.proc = some p ∧ n₀ ≤ p
  /-- As long as `self.proc` is the old one. -/
  performs : (∀ p, s.proc = some p → p < n₀) → ∀ task ∈ s.tasks, ∀ action p,
    task.phase = .performs action p → s.proc = some p
  cleared : (∀ p, s.proc = some p → p < n₀) → ∀ task ∈ s.tasks, task.phase.isCleared = true →
    ∀ p, s.proc = some p → ¬ s.Lives p
  dead : n₀ < s.processes.length → ∀ p, s.proc = some p → p < n₀ → ¬ s.Lives p

theorem Period.card_living (h : Period k s n₀ k₀) : s.living.card ≤ k + 1 := by
  have hcome := h.toCome
  rcases h.started.eq_or_lt with heq | hlt
  · have hsub : s.living ⊆ s.left n₀ ∪ s.proc.toFinset := by
      intro p hp
      have hlives := Backchannel.mem_living.mp hp
      rw [Finset.mem_union, Backchannel.left, Finset.mem_filter, Finset.mem_range,
        Option.mem_toFinset, Option.mem_def]
      by_cases hproc : s.proc = some p
      · exact .inr hproc
      · exact .inl ⟨heq ▸ hlives.lt, hlives, hproc⟩
    have hone : s.proc.toFinset.card ≤ 1 := by
      cases s.proc <;> simp
    have hcard := (Finset.card_le_card hsub).trans (Finset.card_union_le _ _)
    have hleft := h.left
    have hk := h.overlaps
    omega
  · have hsub : s.living ⊆ s.left n₀ ∪ Finset.Ico n₀ s.processes.length := by
      intro p hp
      have hlives := Backchannel.mem_living.mp hp
      rw [Finset.mem_union, Backchannel.left, Finset.mem_filter, Finset.mem_range, Finset.mem_Ico]
      rcases Nat.lt_or_ge p n₀ with hold | hnew
      · exact .inl ⟨hold, hlives, fun hproc => h.dead hlt p hproc hold hlives⟩
      · exact .inr ⟨hnew, hlives.lt⟩
    have hcard := (Finset.card_le_card hsub).trans (Finset.card_union_le _ _)
    rw [Nat.card_Ico] at hcard
    have hleft := h.left
    omega

/-- Of the processes of the period, one is `self.proc` or about to be. -/
theorem Period.card_orphans (h : Period k s n₀ k₀) : s.orphans.card ≤ k := by
  have hcome := h.toCome
  have hleft := h.left
  rcases h.started.eq_or_lt with heq | hlt
  · have hsub : s.orphans ⊆ s.left n₀ := by
      intro p hp
      obtain ⟨hlives, hstarted, hproc, -⟩ := Finset.mem_filter.mp hp
      exact Finset.mem_filter.mpr ⟨Finset.mem_range.mpr (heq ▸ hstarted),
        Backchannel.mem_living.mp hlives, hproc⟩
    exact ((Finset.card_le_card hsub).trans hleft).trans h.overlaps
  · obtain ⟨q, hq, hlen, hne⟩ :
        ∃ q, n₀ ≤ q ∧ q < s.processes.length ∧ ∀ p, s.Orphan p → p ≠ q := by
      rcases h.replaced hlt with ⟨task, htask, q, hq⟩ | ⟨q, hproc, hq⟩
      · obtain ⟨hge, hlen⟩ := h.spawned task htask q hq
        exact ⟨q, hge, hlen, fun p hp heq => hp.2.2 task htask (by rw [hq, heq]; rfl)⟩
      · exact ⟨q, hq, h.proc q hproc, fun p hp heq => hp.2.1 (heq ▸ hproc)⟩
    have hsub : s.orphans ⊆ s.left n₀ ∪ (Finset.Ico n₀ s.processes.length).erase q := by
      intro p hp
      obtain ⟨hlives, hp⟩ := Finset.mem_filter.mp hp
      rcases Nat.lt_or_ge p n₀ with hold | hge
      · exact Finset.mem_union_left _ (Finset.mem_filter.mpr
          ⟨Finset.mem_range.mpr hold, Backchannel.mem_living.mp hlives, hp.2.1⟩)
      · exact Finset.mem_union_right _
          (Finset.mem_erase.mpr ⟨hne p hp, Finset.mem_Ico.mpr ⟨hge, hp.1⟩⟩)
    have hcard := (Finset.card_le_card hsub).trans (Finset.card_union_le _ _)
    rw [Finset.card_erase_of_mem (Finset.mem_Ico.mpr ⟨hq, hlen⟩), Nat.card_Ico] at hcard
    omega

theorem period_start : Period 0 start 0 0 where
  started := Nat.le_refl _
  overlaps := Nat.le_refl _
  proc _ h := by cases h
  left := Nat.le_refl _
  toCome := Nat.le_refl _
  starts task htask _ := by
    rw [List.mem_singleton.mp htask]
    decide
  spawned task htask p h := by
    rw [List.mem_singleton.mp htask] at h
    cases h
  replaced h := absurd h (Nat.lt_irrefl _)
  performs _ task htask action p h := by
    rw [List.mem_singleton.mp htask] at h
    cases h
  cleared _ _ _ _ _ h := by cases h
  dead h := absurd h (Nat.lt_irrefl _)

/-- Processes exit, and nothing else changes. -/
theorem Period.shrink (h : Period k s n₀ k₀) (tasks : t.tasks = s.tasks) (proc : t.proc = s.proc)
    (length : t.processes.length = s.processes.length) (lives : ∀ p, t.Lives p → s.Lives p) :
    Period k t n₀ k₀ where
  started := length ▸ h.started
  overlaps := h.overlaps
  proc := length ▸ proc ▸ h.proc
  left := by
    refine (Finset.card_le_card fun p hp => ?_).trans h.left
    rw [Backchannel.left, Finset.mem_filter, proc] at hp
    exact Finset.mem_filter.mpr ⟨hp.1, lives p hp.2.1, hp.2.2⟩
  toCome := by
    rw [Backchannel.toCome, tasks, length]
    exact h.toCome
  starts := tasks ▸ h.starts
  spawned := length ▸ tasks ▸ h.spawned
  replaced := length ▸ tasks ▸ proc ▸ h.replaced
  performs := tasks ▸ proc ▸ h.performs
  cleared hproc task htask hcleared p hp hlives :=
    h.cleared (proc ▸ hproc) task (tasks ▸ htask) hcleared p (proc ▸ hp) (lives p hlives)
  dead hlt p hp hold hlives := h.dead (length ▸ hlt) p (proc ▸ hp) hold (lives p hlives)

theorem toCome_goto (kind : Kind) (phase : Phase) (htask : s.tasks[i]? = some task) :
    (s.goto i kind phase).toCome + (if task.isToCome = true then 1 else 0) =
      s.toCome + if Task.isToCome ⟨kind, phase⟩ = true then 1 else 0 := by
  obtain ⟨hlt, hget⟩ := List.getElem?_eq_some_iff.mp htask
  have hset : (s.goto i kind phase).toCome = s.toCome - (if task.isToCome = true then 1 else 0) +
      if Task.isToCome ⟨kind, phase⟩ = true then 1 else 0 := by
    rw [← hget]
    exact List.countP_set hlt
  have hpos : task.isToCome = true → 0 < s.toCome := fun h =>
    List.countP_pos_iff.mpr ⟨task, List.mem_of_getElem? htask, h⟩
  rw [hset]
  by_cases htocome : task.isToCome = true
  · have hone := hpos htocome
    rw [if_pos htocome]
    omega
  · rw [if_neg htocome]
    omega

theorem mem_goto {task' : Task} (htask : s.tasks[i]? = some task) (hmem : task' ∈ s.tasks)
    (hne : task' ≠ task) : task' ∈ (s.goto i kind phase).tasks := by
  obtain ⟨j, hj⟩ := List.mem_iff_getElem?.mp hmem
  have hij : i ≠ j := by
    rintro rfl
    exact hne (Option.some.inj (hj.symm.trans htask))
  exact List.mem_of_getElem? ((List.getElem?_set_ne hij).trans hj)

/-- A task goes on, and starts or hands over nothing. -/
theorem Period.goto (h : Period k s n₀ k₀) (htask : s.tasks[i]? = some task)
    (toCome : phase.isToCome = true → task.phase.isToCome = true)
    (starts : phase = .starting → task.kind ≠ .quit)
    (noHandOver : ∀ p, task.phase ≠ .spawned p) (notSpawned : ∀ p, phase ≠ .spawned p)
    (performs : ∀ action p, phase = .performs action p → s.proc = some p)
    (cleared : phase.isCleared = true → task.phase.isCleared = true ∨ s.proc = none ∨
      ∃ action p, task.phase = .performs action p ∧ ¬ s.Lives p) :
    Period k (s.goto i task.kind phase) n₀ k₀ where
  started := h.started
  overlaps := h.overlaps
  proc := h.proc
  left := h.left
  toCome := by
    have hgoto := toCome_goto task.kind phase htask
    have hs := h.toCome
    have hle : (if Task.isToCome ⟨task.kind, phase⟩ = true then 1 else 0) ≤
        if task.isToCome = true then 1 else 0 := by
      split
      · next hphase =>
        obtain ⟨hkind, hphase⟩ := Bool.and_eq_true_iff.mp hphase
        have htocome : task.isToCome = true := Bool.and_eq_true_iff.mpr ⟨hkind, toCome hphase⟩
        rw [if_pos htocome]
      · exact Nat.zero_le _
    have hlen : (s.goto i task.kind phase).processes.length = s.processes.length := rfl
    omega
  starts task' htask' hphase := by
    rcases List.mem_or_eq_of_mem_set htask' with hmem | rfl
    · exact h.starts task' hmem hphase
    · exact starts hphase
  spawned task' htask' p hp := by
    rcases List.mem_or_eq_of_mem_set htask' with hmem | rfl
    · exact h.spawned task' hmem p hp
    · exact absurd hp (notSpawned p)
  replaced hlt := by
    refine (h.replaced hlt).imp_left ?_
    rintro ⟨task', hmem, p, hp⟩
    exact ⟨task', mem_goto htask hmem fun heq => noHandOver p (heq ▸ hp), p, hp⟩
  performs hproc task' htask' action p hp := by
    rcases List.mem_or_eq_of_mem_set htask' with hmem | rfl
    · exact h.performs hproc task' hmem action p hp
    · exact performs action p hp
  cleared hproc task' htask' hcleared p hp hlives := by
    have hold : task ∈ s.tasks := List.mem_of_getElem? htask
    rcases List.mem_or_eq_of_mem_set htask' with hmem | rfl
    · exact h.cleared hproc task' hmem hcleared p hp hlives
    · rcases cleared hcleared with hcleared | hnone | ⟨action, q, hq, hdead⟩
      · exact h.cleared hproc task hold hcleared p hp hlives
      · exact absurd (hnone.symm.trans hp) (by simp)
      · -- what the task saw dead was `self.proc`
        have hprocq : s.proc = some q := h.performs hproc task hold action q hq
        exact hdead (Option.some.inj (hprocq.symm.trans hp) ▸ hlives)
  dead := h.dead

/-- A task starts its process. -/
theorem Period.spawn (h : Period k s n₀ k₀) (htask : s.tasks[i]? = some task)
    (hphase : task.phase = .starting) :
    Period k (Backchannel.goto { s with processes := s.processes ++ [⟨.running, 0⟩] } i kind
      (.spawned s.processes.length)) n₀ k₀ := by
  let u : Backchannel := { s with processes := s.processes ++ [⟨.running, 0⟩] }
  have hlen : u.processes.length = s.processes.length + 1 := List.length_append
  have hlives : ∀ p < s.processes.length, u.Lives p → s.Lives p := by
    intro p hp hlives
    rw [Backchannel.Lives, List.getElem?_append_left hp] at hlives
    exact hlives
  have hold : task ∈ s.tasks := List.mem_of_getElem? htask
  have hstarted := h.started
  exact {
    started := Nat.le_trans h.started (hlen ▸ Nat.le_succ _)
    overlaps := h.overlaps
    proc p hp := Nat.lt_of_lt_of_le (h.proc p hp) (hlen ▸ Nat.le_succ _)
    left := by
      refine (Finset.card_le_card fun p hp => ?_).trans h.left
      obtain ⟨hmem, hl, hne⟩ := Finset.mem_filter.mp hp
      have hlt : p < s.processes.length := Nat.lt_of_lt_of_le (Finset.mem_range.mp hmem) hstarted
      exact Finset.mem_filter.mpr ⟨hmem, hlives p hlt hl, hne⟩
    toCome := by
      have hgoto := toCome_goto (s := u) kind (.spawned s.processes.length) htask
      have htocome : (if task.isToCome = true then 1 else 0) = 1 := by
        refine if_pos (Bool.and_eq_true_iff.mpr ⟨?_, hphase ▸ rfl⟩)
        exact decide_eq_true (h.starts task hold hphase)
      have hspawned : (if Task.isToCome ⟨kind, .spawned s.processes.length⟩ = true then 1 else 0) =
          0 := if_neg (by simp [Task.isToCome, Phase.isToCome])
      have hs := h.toCome
      have hu : u.toCome = s.toCome := rfl
      change (u.goto i kind _).toCome + u.processes.length + k₀ ≤ n₀ + k + 1
      omega
    starts task' htask' hp := by
      rcases List.mem_or_eq_of_mem_set htask' with hmem | rfl
      · exact h.starts task' hmem hp
      · cases hp
    spawned task' htask' p hp := by
      rcases List.mem_or_eq_of_mem_set htask' with hmem | rfl
      · have := h.spawned task' hmem p hp
        exact ⟨this.1, Nat.lt_of_lt_of_le this.2 (hlen ▸ Nat.le_succ _)⟩
      · cases hp
        exact ⟨hstarted, hlen ▸ Nat.lt_succ_self _⟩
    replaced _ := by
      have hi : i < s.tasks.length := (List.getElem?_eq_some_iff.mp htask).1
      exact .inl ⟨_, List.mem_set hi _, _, rfl⟩
    performs hproc task' htask' action p hp := by
      rcases List.mem_or_eq_of_mem_set htask' with hmem | rfl
      · exact h.performs hproc task' hmem action p hp
      · cases hp
    cleared hproc task' htask' hcleared p hp hl := by
      rcases List.mem_or_eq_of_mem_set htask' with hmem | rfl
      · exact h.cleared hproc task' hmem hcleared p hp (hlives p (h.proc p hp) hl)
      · cases hcleared
    dead _ p hp hpold hl := by
      have hproc : ∀ q, s.proc = some q → q < n₀ := fun q hq =>
        Option.some.inj (hp.symm.trans hq) ▸ hpold
      exact h.cleared hproc task hold (by rw [hphase]; rfl) p hp (hlives p (h.proc p hp) hl) }

/-- A task hands its process over. -/
theorem Period.assign (h : Period k s n₀ k₀) (htask : s.tasks[i]? = some task)
    (hphase : task.phase = .spawned p) :
    Period k (Backchannel.goto { s with proc := some p } i kind .detecting) n₀ k₀ := by
  let u : Backchannel := { s with proc := some p }
  have hnew := h.spawned task (List.mem_of_getElem? htask) p hphase
  have hnotOld : ¬ ∀ q, u.proc = some q → q < n₀ := fun hold =>
    absurd (hold p rfl) (Nat.not_lt.mpr hnew.1)
  exact {
    started := h.started
    overlaps := h.overlaps
    proc q hq := Option.some.inj hq ▸ hnew.2
    left := by
      -- the `self.proc` of before is dead, if it is an old one
      refine (Finset.card_le_card fun q hq => ?_).trans h.left
      obtain ⟨hmem, hl, -⟩ := Finset.mem_filter.mp hq
      refine Finset.mem_filter.mpr ⟨hmem, hl, fun hproc => ?_⟩
      exact h.dead (Nat.lt_of_le_of_lt hnew.1 hnew.2) q hproc (Finset.mem_range.mp hmem) hl
    toCome := by
      have hgoto := toCome_goto (s := u) kind .detecting htask
      have hdetecting : (if Task.isToCome ⟨kind, .detecting⟩ = true then 1 else 0) = 0 :=
        if_neg (by simp [Task.isToCome, Phase.isToCome])
      have hs := h.toCome
      have hu : u.toCome = s.toCome := rfl
      change (u.goto i kind _).toCome + s.processes.length + k₀ ≤ n₀ + k + 1
      omega
    starts task' htask' hq := by
      rcases List.mem_or_eq_of_mem_set htask' with hmem | rfl
      · exact h.starts task' hmem hq
      · cases hq
    spawned task' htask' q hq := by
      rcases List.mem_or_eq_of_mem_set htask' with hmem | rfl
      · exact h.spawned task' hmem q hq
      · cases hq
    replaced _ := .inr ⟨p, rfl, hnew.1⟩
    performs hold := absurd hold hnotOld
    cleared hold := absurd hold hnotOld
    dead _ q hq hold := absurd (Option.some.inj hq ▸ hold) (Nat.not_lt.mpr hnew.1) }

theorem toCome_arrive (s : Backchannel) (kind : Kind) :
    (s.arrive kind).toCome = s.toCome + if kind = .quit then 0 else 1 := by
  refine List.countP_append.trans (congrArg (s.toCome + ·) ?_)
  cases kind <;> rfl

/-- A task begins that may start a process only if it counts. -/
theorem Period.arrive (h : Period k s n₀ k₀) (kind : Kind) :
    Period (k + if kind = .quit then 0 else 1) (s.arrive kind) n₀ k₀ where
  started := h.started
  overlaps := h.overlaps.trans (Nat.le_add_right _ _)
  proc := h.proc
  left := h.left
  toCome := by
    have hs := h.toCome
    have hlen : (s.arrive kind).processes.length = s.processes.length := rfl
    rw [toCome_arrive]
    omega
  starts task htask hp := by
    rcases List.mem_append.mp htask with hmem | hmem
    · exact h.starts task hmem hp
    · rw [List.mem_singleton.mp hmem] at hp
      cases hp
  spawned task htask p hp := by
    rcases List.mem_append.mp htask with hmem | hmem
    · exact h.spawned task hmem p hp
    · rw [List.mem_singleton.mp hmem] at hp
      cases hp
  replaced hlt := by
    refine (h.replaced hlt).imp_left ?_
    rintro ⟨task, hmem, p, hp⟩
    exact ⟨task, List.mem_append_left _ hmem, p, hp⟩
  performs hproc task htask action p hp := by
    rcases List.mem_append.mp htask with hmem | hmem
    · exact h.performs hproc task hmem action p hp
    · rw [List.mem_singleton.mp hmem] at hp
      cases hp
  cleared hproc task htask hcleared p hp := by
    rcases List.mem_append.mp htask with hmem | hmem
    · exact h.cleared hproc task hmem hcleared p hp
    · rw [List.mem_singleton.mp hmem] at hcleared
      cases hcleared
  dead := h.dead

/-- A request that comes while no task is under way opens a period. -/
theorem Period.open (h : Period k s n₀ k₀)
    (hidle : ∀ task ∈ s.tasks, task.phase.isUnderWay = false) :
    Period k (s.arrive .request) s.processes.length k := by
  have hnone : s.toCome = 0 := by
    refine List.countP_eq_zero.mpr fun task htask htocome => ?_
    have hphase := (Bool.and_eq_true_iff.mp htocome).2
    have := hidle task htask
    cases hp : task.phase <;> rw [hp] at hphase this <;> cases hphase <;> cases this
  have hnew : ∀ task ∈ (s.arrive .request).tasks, task.phase.isUnderWay = true →
      task.phase = .killAgent := by
    intro task htask hway
    rcases List.mem_append.mp htask with hmem | hmem
    · rw [hidle task hmem] at hway
      cases hway
    · rw [List.mem_singleton.mp hmem]
  exact {
    started := Nat.le_refl _
    overlaps := Nat.le_refl _
    proc := h.proc
    left := by
      refine (Finset.card_le_card fun p hp => ?_).trans h.card_orphans
      obtain ⟨hmem, hlives, hproc⟩ := Finset.mem_filter.mp hp
      refine Finset.mem_filter.mpr ⟨Backchannel.mem_living.mpr hlives, Finset.mem_range.mp hmem,
        hproc, fun task htask hheld => ?_⟩
      have := hidle task htask
      cases hphase : task.phase <;> rw [hphase] at hheld this <;> cases hheld <;> cases this
    toCome := by
      have hcount := toCome_arrive s .request
      have hlen : (s.arrive .request).processes.length = s.processes.length := rfl
      rw [if_neg (by decide)] at hcount
      omega
    starts task htask hp := by
      have := hnew task htask (by rw [hp]; rfl)
      rw [this] at hp
      cases hp
    spawned task htask p hp := by
      have := hnew task htask (by rw [hp]; rfl)
      rw [this] at hp
      cases hp
    replaced hlt := absurd hlt (Nat.lt_irrefl _)
    performs _ task htask action p hp := by
      have := hnew task htask (by rw [hp]; rfl)
      rw [this] at hp
      cases hp
    cleared _ task htask hcleared := by
      have hway : task.phase.isUnderWay = true := by
        cases hphase : task.phase <;> rw [hphase] at hcleared <;> first | rfl | cases hcleared
      rw [hnew task htask hway] at hcleared
      cases hcleared
    dead hlt := absurd hlt (Nat.lt_irrefl _) }

/-- A step counts when it is a request that comes while another task is under way. -/
theorem period_step {byGroup : Bool} {e : Event} (h : Period k s n₀ k₀)
    (next : step byGroup s e = some t) :
    ∃ n k', Period (k + if Apart s e then 0 else 1) t n k' := by
  rcases step_cases next with ⟨rfl, rfl⟩ | ⟨rfl, rfl⟩ | ⟨q, proc, rfl, hq, -, rfl⟩ |
    ⟨i, ok, task, u, phase, rfl, htask, hmoves, rfl⟩
  · by_cases hapart : Apart s .request
    · rw [if_pos hapart]
      exact ⟨_, _, h.open (hapart rfl)⟩
    · rw [if_neg hapart]
      exact ⟨_, _, h.arrive .request⟩
  · rw [if_pos (by rintro ⟨⟩)]
    exact ⟨_, _, h.arrive .quit⟩
  · rw [if_pos (by rintro ⟨⟩)]
    refine ⟨n₀, k₀, h.shrink rfl rfl List.length_set fun p hl => ?_⟩
    exact lives_set hq (fun h => by cases h) hl
  · rw [if_pos (by rintro ⟨⟩)]
    refine ⟨n₀, k₀, ?_⟩
    rcases moves_cases hmoves with hplain | ⟨hphase, rfl, rfl⟩ | ⟨q, hphase, rfl, rfl⟩
    · have hshrunk := h.shrink hplain.tasks hplain.proc hplain.length hplain.lives
      refine hshrunk.goto (hplain.tasks ▸ htask) hplain.toCome hplain.starts hplain.noHandOver
        hplain.notSpawned ?_ ?_
      · exact hplain.proc ▸ hplain.performs
      · exact hplain.proc ▸ hplain.cleared
    · exact h.spawn htask hphase
    · exact h.assign htask hphase

/-- Only requests that come while another task is under way bring a second agent to life, and leave
one behind that no task can reach. -/
theorem card_living_le {byGroup : Bool} {es : List Event} (run : Run (step byGroup) start es s) :
    s.living.card ≤ breaks (step byGroup) Apart start es + 1 ∧
      s.orphans.card ≤ breaks (step byGroup) Apart start es := by
  obtain ⟨n₀, k₀, h⟩ := run.counting (C := Apart) (I := fun k s => ∃ n₀ k₀, Period k s n₀ k₀)
    ⟨0, 0, period_start⟩ fun ⟨_, _, h⟩ next => period_step h next
  exact ⟨h.card_living, h.card_orphans⟩

end

/-! Two requests that come right after one another. The first stops the agent, the second finds it
dead, and both start one. -/

def overlapping : List Event :=
  [.advance 0 true, .advance 0 true, .request, .request] ++ List.replicate 7 (.advance 1 true) ++
    .exit 0 :: List.replicate 3 (.advance 1 true) ++ List.replicate 4 (.advance 2 true) ++
    [.advance 1 true, .advance 2 true, .advance 1 true, .advance 2 true]

/-- The agent of the first request is an orphan. -/
def overlapped : Backchannel where
  processes := [⟨.reaped, 2⟩, ⟨.running, 0⟩, ⟨.running, 0⟩]
  proc := some 2
  tasks := [⟨.main, .detecting⟩, ⟨.request, .detecting⟩, ⟨.request, .detecting⟩]

theorem overlapped_two_living :
    overlapped.living.card = 2 ∧ overlapped.orphans.card = 1 ∧
      breaks (step true) Apart start overlapping = 1 ∧
      overlapped.living.card ≤ breaks (step true) Apart start overlapping + 1 ∧
      overlapped.orphans.card ≤ breaks (step true) Apart start overlapping :=
  ⟨by decide, by decide, by decide, card_living_le (run_of_exec rfl)⟩

/-- `main` finds its agent up, and comes to its end. -/
def terminating : List Event :=
  .advance 0 true :: .quit :: List.replicate 7 (.advance 3 true) ++
    .exit 2 :: List.replicate 3 (.advance 3 true)

def terminated : Backchannel where
  processes := [⟨.reaped, 2⟩, ⟨.running, 0⟩, ⟨.reaped, 2⟩]
  proc := some 2
  tasks := [⟨.main, .finished true⟩, ⟨.request, .detecting⟩, ⟨.request, .detecting⟩,
    ⟨.quit, .finished true⟩]

theorem overlapped_left : terminated.Orphan 1 ∧
    (terminated.processes[1]?).map Popen.signals = (overlapped.processes[1]?).map Popen.signals ∧
      (.exit 1 ∉ terminating → terminated.processes[1]? = overlapped.processes[1]?) :=
  by
  have run : Run (step true) overlapped terminating terminated := run_of_exec rfl
  exact orphan_left (by decide) run

end AgentTestHarness.AgentProcesses
