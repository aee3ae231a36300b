import AgentTestHarness.Runs
import Mathlib.Data.List.Perm.Basic
import Mathlib.Data.Rat.Defs
import Mathlib.Logic.Function.Basic

/-! A family of unbounded `asyncio` queues whose items are awaited through
`wait_for(shield(queue.get()), timeout)`. The timer cancels only the outer future:
the inner `get()` is a task of its own, and takes an item whenever it is served. -/
namespace AgentTestHarness.AsyncQueue
open Runs

/-- The two queue classes, by the end they are served from. -/
inductive Discipline
  | fifo
  | lifo
  deriving DecidableEq, Repr

/-- `get_nowait`, with what is left in the queue; none when the queue is empty. -/
def Discipline.take {α : Type*} : Discipline → List α → Option (α × List α)
  | _, [] => none
  | .fifo, x :: xs => some (x, xs)
  | .lifo, x :: xs => some ((x :: xs).getLast (by simp), (x :: xs).dropLast)

/-- The inner `get()` task of one pop: scheduled to run, waiting on its getter future,
or finished with the item it took. -/
inductive Getter (α : Type*)
  | ready
  | waiting
  | took (item : α)
  deriving DecidableEq, Repr

/-- The coroutine that awaits the shielded task. -/
inductive Caller (α : Type*)
  | pending
  | returned (item : α)
  | timedOut
  deriving DecidableEq, Repr

structure PopCall (κ α : Type*) where
  queue : κ
  deadline : Option ℚ
  getter : Getter α
  caller : Caller α
  deriving DecidableEq, Repr

/-- One queue: the items put and not yet taken, and its deque of waiting getters. -/
structure Channel (α : Type*) where
  items : List α
  getters : List ℕ
  deriving DecidableEq, Repr

/-- A queue nobody has used yet is the empty one its first user creates. `put` records
every item ever put, for the accounting only. -/
structure Loop (κ α : Type*) where
  channels : κ → Channel α
  pops : List (PopCall κ α)
  put : κ → List α

/-- What the event loop can do next. `resume`, `deliver` and `expire` name a pop by the
order in which the pops were called. -/
inductive Event (κ α : Type*)
  | put (queue : κ) (item : α)
  | pop (queue : κ) (deadline : Option ℚ)
  | resume (pop : ℕ)
  | deliver (pop : ℕ)
  | expire (pop : ℕ)
  deriving DecidableEq, Repr

def start (κ α : Type*) : Loop κ α := ⟨fun _ => ⟨[], []⟩, [], fun _ => []⟩

def PopCall.wake {κ α : Type*} (p : PopCall κ α) : PopCall κ α := { p with getter := .ready }

variable {κ α : Type*}

def Loop.setPop (s : Loop κ α) (i : ℕ) (p : PopCall κ α) : Loop κ α :=
  { s with pops := s.pops.set i p }

/-- The item the getter of a pop of this queue has taken, if any. -/
def PopCall.taken [DecidableEq κ] (k : κ) (p : PopCall κ α) : Option α :=
  if p.queue = k then
    match p.getter with
    | .took v => some v
    | _ => none
  else none

/-- The taken item, when it has reached the caller or is on its way to a caller that
still waits. -/
def PopCall.handed [DecidableEq κ] (k : κ) (p : PopCall κ α) : Option α :=
  match p.caller with
  | .timedOut => none
  | _ => p.taken k

/-- A pop that ended in the timeout error although its getter has an item. -/
def PopCall.Lossy (p : PopCall κ α) : Prop :=
  p.caller = .timedOut ∧ ∃ v, p.getter = .took v

/-- No abandoned getter takes an item, and no timer fires on a pop whose getter has one. -/
def Kept (s : Loop κ α) : Event κ α → Prop
  | .resume i => ∀ p, s.pops[i]? = some p → p.caller = .timedOut → (s.channels p.queue).items = []
  | .expire i => ∀ p, s.pops[i]? = some p → ∀ v, p.getter ≠ .took v
  | _ => True

/-- A waiting getter belongs to one pop of the queue it waits on. -/
structure Linked (s : Loop κ α) : Prop where
  waiting : ∀ k, ∀ g ∈ (s.channels k).getters,
    ∃ p, s.pops[g]? = some p ∧ p.queue = k ∧ p.getter = .waiting
  nodup : ∀ k, (s.channels k).getters.Nodup

@[simp] theorem setPop_channels (s : Loop κ α) (i : ℕ) (p : PopCall κ α) :
    (s.setPop i p).channels = s.channels := rfl

@[simp] theorem setPop_put (s : Loop κ α) (i : ℕ) (p : PopCall κ α) :
    (s.setPop i p).put = s.put := rfl

@[simp] theorem setPop_pops (s : Loop κ α) (i : ℕ) (p : PopCall κ α) :
    (s.setPop i p).pops = s.pops.set i p := rfl

theorem Linked.setPop {s : Loop κ α} (h : Linked s) (i : ℕ) (q : PopCall κ α)
    (hq : ∀ k, i ∈ (s.channels k).getters → q.queue = k ∧ q.getter = .waiting) :
    Linked (s.setPop i q) := by
  refine ⟨?_, h.nodup⟩
  intro k g hg
  obtain ⟨r, hr, hk, hw⟩ := h.waiting k g hg
  by_cases hgi : g = i
  · subst hgi
    have hlt := (List.getElem?_eq_some_iff.mp hr).1
    exact ⟨q, by simp [hlt], hq k hg⟩
  · exact ⟨r, by simpa [List.getElem?_set, Ne.symm hgi] using hr, hk, hw⟩

theorem Linked.ready_not_mem {s : Loop κ α} {i : ℕ} {p : PopCall κ α} (h : Linked s)
    (hp : s.pops[i]? = some p) (hready : p.getter = .ready) (k : κ) :
    i ∉ (s.channels k).getters := by
  intro hi
  obtain ⟨r, hr, _, hwait⟩ := h.waiting k i hi
  obtain rfl : p = r := Option.some.inj (hp.symm.trans hr)
  simp [hready] at hwait

/-- A pop whose getter does not change stays as linked as it was. -/
theorem Linked.setPop_caller {s : Loop κ α} {i : ℕ} {p : PopCall κ α} (h : Linked s)
    (hp : s.pops[i]? = some p) (c : Caller α) : Linked (s.setPop i { p with caller := c }) := by
  apply h.setPop
  intro k hk
  obtain ⟨r, hr, hrk, hrw⟩ := h.waiting k i hk
  obtain rfl : p = r := Option.some.inj (hp.symm.trans hr)
  exact ⟨hrk, hrw⟩

variable [DecidableEq κ]

def Loop.setChannel (s : Loop κ α) (k : κ) (c : Channel α) : Loop κ α :=
  { s with channels := Function.update s.channels k c }

def Loop.record (s : Loop κ α) (k : κ) (v : α) : Loop κ α :=
  { s with put := Function.update s.put k (s.put k ++ [v]) }

/-- `put_nowait` appends the item and wakes the getter that has waited longest. -/
def Loop.putNowait (s : Loop κ α) (k : κ) (v : α) : Loop κ α :=
  match (s.channels k).getters with
  | [] => (s.record k v).setChannel k ⟨(s.channels k).items ++ [v], []⟩
  | g :: gs =>
      let t := (s.record k v).setChannel k ⟨(s.channels k).items ++ [v], gs⟩
      { t with pops := t.pops.modify g PopCall.wake }

/-- The inner `get()` runs: it takes an item, or waits again if there is none. -/
def Loop.resume (disc : κ → Discipline) (s : Loop κ α) (i : ℕ) (p : PopCall κ α) : Loop κ α :=
  match (disc p.queue).take (s.channels p.queue).items with
  | none =>
      (s.setChannel p.queue ⟨(s.channels p.queue).items, (s.channels p.queue).getters ++ [i]⟩).setPop
        i { p with getter := .waiting }
  | some (v, rest) =>
      (s.setChannel p.queue ⟨rest, (s.channels p.queue).getters⟩).setPop
        i { p with getter := .took v }

def step (disc : κ → Discipline) (s : Loop κ α) : Event κ α → Option (Loop κ α)
  | .put k v => some (s.putNowait k v)
  | .pop k deadline => some { s with pops := s.pops ++ [⟨k, deadline, .ready, .pending⟩] }
  | .resume i =>
      match s.pops[i]? with
      | some p => match p.getter with
        | .ready => some (s.resume disc i p)
        | _ => none
      | none => none
  | .deliver i =>
      match s.pops[i]? with
      | some ⟨k, d, .took v, .pending⟩ => some (s.setPop i ⟨k, d, .took v, .returned v⟩)
      | _ => none
  | .expire i =>
      match s.pops[i]? with
      | some ⟨k, some d, g, .pending⟩ => some (s.setPop i ⟨k, some d, g, .timedOut⟩)
      | _ => none

/-- Every item put is still held or has gone to exactly one pop of its queue, and no pop
that timed out has consumed an item. -/
def Accounted (s : Loop κ α) : Prop :=
  (∀ k, (s.put k).Perm ((s.channels k).items ++ s.pops.filterMap (PopCall.handed k))) ∧
    ∀ p ∈ s.pops, ¬ p.Lossy

/-- What was put is what is held and what the getters have taken, delivered or not. -/
def Conserved (s : Loop κ α) : Prop :=
  ∀ k, (s.put k).Perm ((s.channels k).items ++ s.pops.filterMap (PopCall.taken k))

theorem take_perm {d : Discipline} {xs rest : List α} {v : α}
    (h : d.take xs = some (v, rest)) : xs.Perm (v :: rest) := by
  cases xs with
  | nil => cases d <;> simp [Discipline.take] at h
  | cons x xs =>
    cases d with
    | fifo =>
      simp only [Discipline.take, Option.some.injEq, Prod.mk.injEq] at h
      obtain ⟨rfl, rfl⟩ := h
      exact List.Perm.refl _
    | lifo =>
      simp only [Discipline.take, Option.some.injEq, Prod.mk.injEq] at h
      obtain ⟨rfl, rfl⟩ := h
      conv_lhs => rw [← List.dropLast_append_getLast (l := x :: xs) (by simp)]
      exact List.perm_append_singleton _ _

theorem take_none {d : Discipline} {xs : List α} : d.take xs = none ↔ xs = [] := by
  cases xs <;> cases d <;> simp [Discipline.take]

/-- Replacing one entry changes a `filterMap` by what that entry contributes. -/
theorem filterMap_set_perm {β γ : Type*} (f : β → Option γ) {l : List β} {i : ℕ} {x : β}
    (h : l[i]? = some x) (y : β) :
    ∃ others, (l.filterMap f).Perm ((f x).toList ++ others) ∧
      ((l.set i y).filterMap f).Perm ((f y).toList ++ others) := by
  obtain ⟨hi, rfl⟩ := List.getElem?_eq_some_iff.mp h
  have before : l.Perm (l[i] :: l.eraseIdx i) := (List.getElem_cons_eraseIdx_perm hi).symm
  have after : (l.set i y).Perm (y :: l.eraseIdx i) := List.set_perm_cons_eraseIdx hi y
  refine ⟨(l.eraseIdx i).filterMap f, ?_, ?_⟩
  · refine (before.filterMap f).trans (List.Perm.of_eq ?_)
    cases hf : f l[i] <;> simp [hf]
  · refine (after.filterMap f).trans (List.Perm.of_eq ?_)
    cases hf : f y <;> simp [hf]

/-- What one step can do, with the guard under which it happens. -/
inductive Steps (disc : κ → Discipline) (s : Loop κ α) : Event κ α → Loop κ α → Prop
  | put (k v) : Steps disc s (.put k v) (s.putNowait k v)
  | pop (k d) : Steps disc s (.pop k d) { s with pops := s.pops ++ [⟨k, d, .ready, .pending⟩] }
  | resume {i p} (called : s.pops[i]? = some p) (ready : p.getter = .ready) :
      Steps disc s (.resume i) (s.resume disc i p)
  | deliver {i p v} (called : s.pops[i]? = some p) (took : p.getter = .took v)
      (pending : p.caller = .pending) :
      Steps disc s (.deliver i) (s.setPop i { p with caller := .returned v })
  | expire {i p} (called : s.pops[i]? = some p) (timed : p.deadline.isSome)
      (pending : p.caller = .pending) :
      Steps disc s (.expire i) (s.setPop i { p with caller := .timedOut })

theorem steps_of_step {disc : κ → Discipline} {s t : Loop κ α} {e : Event κ α}
    (h : step disc s e = some t) : Steps disc s e t := by
  cases e with
  | put k v =>
    simp only [step, Option.some.injEq] at h
    exact h ▸ .put k v
  | pop k d =>
    simp only [step, Option.some.injEq] at h
    exact h ▸ .pop k d
  | resume i =>
    simp only [step] at h
    split at h
    · next p hp =>
      split at h
      · next hg => exact Option.some.inj h ▸ .resume hp hg
      · simp at h
    · simp at h
  | deliver i =>
    simp only [step] at h
    split at h
    · next k d v hp => exact Option.some.inj h ▸ .deliver hp rfl rfl
    · simp at h
  | expire i =>
    simp only [step] at h
    split at h
    · next k d g hp => exact Option.some.inj h ▸ .expire hp rfl rfl
    · simp at h

@[simp] theorem setChannel_channels (s : Loop κ α) (k k' : κ) (c : Channel α) :
    (s.setChannel k c).channels k' = if k' = k then c else s.channels k' := by
  simp [Loop.setChannel, Function.update_apply]

@[simp] theorem setChannel_pops (s : Loop κ α) (k : κ) (c : Channel α) :
    (s.setChannel k c).pops = s.pops := rfl

@[simp] theorem setChannel_put (s : Loop κ α) (k : κ) (c : Channel α) :
    (s.setChannel k c).put = s.put := rfl

@[simp] theorem record_put (s : Loop κ α) (k k' : κ) (v : α) :
    (s.record k v).put k' = if k' = k then s.put k ++ [v] else s.put k' := by
  simp [Loop.record, Function.update_apply]

@[simp] theorem record_channels (s : Loop κ α) (k : κ) (v : α) :
    (s.record k v).channels = s.channels := rfl

@[simp] theorem record_pops (s : Loop κ α) (k : κ) (v : α) : (s.record k v).pops = s.pops := rfl

theorem putNowait_idle {s : Loop κ α} {k : κ} (h : (s.channels k).getters = []) (v : α) :
    s.putNowait k v = (s.record k v).setChannel k ⟨(s.channels k).items ++ [v], []⟩ := by
  simp [Loop.putNowait, h]

/-- With a getter waiting, a put is the same and makes that getter ready. -/
theorem putNowait_wake {s : Loop κ α} {k : κ} {g : ℕ} {gs : List ℕ} {p : PopCall κ α}
    (h : (s.channels k).getters = g :: gs) (hp : s.pops[g]? = some p) (v : α) :
    s.putNowait k v =
      ((s.record k v).setChannel k ⟨(s.channels k).items ++ [v], gs⟩).setPop g p.wake := by
  have hm : s.pops.modify g PopCall.wake = s.pops.set g p.wake := by
    rw [List.modify_eq_set_getElem?, hp]
    rfl
  simp [Loop.putNowait, h, Loop.setPop, hm]

/-- An inner `get()` that finds nothing joins the end of the deque of getters. -/
theorem resume_wait {disc : κ → Discipline} {s : Loop κ α} {p : PopCall κ α}
    (h : (s.channels p.queue).items = []) (i : ℕ) :
    s.resume disc i p =
      (s.setChannel p.queue ⟨[], (s.channels p.queue).getters ++ [i]⟩).setPop i
        { p with getter := .waiting } := by
  simp [Loop.resume, h, take_none.mpr]

theorem resume_take {disc : κ → Discipline} {s : Loop κ α} {p : PopCall κ α} {v : α}
    {rest : List α} (h : (disc p.queue).take (s.channels p.queue).items = some (v, rest)) (i : ℕ) :
    s.resume disc i p =
      (s.setChannel p.queue ⟨rest, (s.channels p.queue).getters⟩).setPop i
        { p with getter := .took v } := by
  simp [Loop.resume, h]

theorem Linked.record {s : Loop κ α} (h : Linked s) (k : κ) (v : α) : Linked (s.record k v) :=
  ⟨h.waiting, h.nodup⟩

theorem Linked.setChannel {s : Loop κ α} (h : Linked s) (k : κ) (c : Channel α)
    (sub : c.getters.Sublist (s.channels k).getters) : Linked (s.setChannel k c) := by
  constructor
  · intro k' g hg
    by_cases hk : k' = k
    · subst hk
      exact h.waiting k' g (sub.subset (by simpa using hg))
    · exact h.waiting k' g (by simpa [hk] using hg)
  · intro k'
    by_cases hk : k' = k
    · subst hk
      simpa using (h.nodup k').sublist sub
    · simpa [hk] using h.nodup k'

theorem Linked.putNowait {s : Loop κ α} (h : Linked s) (k : κ) (v : α) :
    Linked (s.putNowait k v) := by
  cases hg : (s.channels k).getters with
  | nil =>
    rw [putNowait_idle hg]
    exact (h.record k v).setChannel k _ (by simp)
  | cons g gs =>
    obtain ⟨p, hp, hpk, hw⟩ := h.waiting k g (by simp [hg])
    have hnd : (g :: gs).Nodup := hg ▸ h.nodup k
    rw [putNowait_wake hg hp]
    refine ((h.record k v).setChannel k _ (by simp [hg])).setPop g _ ?_
    -- the woken getter has left the only deque it was in
    intro k' hmem
    by_cases hk : k' = k
    · subst hk
      exact absurd (by simpa using hmem) (List.nodup_cons.mp hnd).1
    · obtain ⟨r, hr, hrk, _⟩ := h.waiting k' g (by simpa [hk] using hmem)
      obtain rfl : p = r := Option.some.inj (hp.symm.trans hr)
      exact absurd (hrk.symm.trans hpk) hk

theorem Linked.resume {disc : κ → Discipline} {s : Loop κ α} {i : ℕ} {p : PopCall κ α}
    (h : Linked s) (hp : s.pops[i]? = some p) (hready : p.getter = .ready) :
    Linked (s.resume disc i p) := by
  have hnot := h.ready_not_mem hp hready
  have hi := (List.getElem?_eq_some_iff.mp hp).1
  cases htake : (disc p.queue).take (s.channels p.queue).items with
  | some taken =>
    rw [resume_take htake]
    refine (h.setChannel _ ⟨taken.2, _⟩ (List.Sublist.refl _)).setPop i _ ?_
    intro k hk
    by_cases hkp : k = p.queue
    · exact absurd (by simpa [hkp] using hk) (hnot p.queue)
    · exact absurd (by simpa [hkp] using hk) (hnot k)
  | none =>
    rw [resume_wait (take_none.mp htake)]
    constructor
    · intro k g hg
      by_cases hgi : g = i
      · subst hgi
        have hk : k = p.queue := by
          by_contra hne
          exact hnot k (by simpa [hne] using hg)
        exact ⟨{ p with getter := .waiting }, by simp [hi], hk.symm, rfl⟩
      · have old : g ∈ (s.channels k).getters := by
          by_cases hk : k = p.queue
          · subst hk; simpa [hgi] using hg
          · simpa [hk] using hg
        obtain ⟨r, hr, hrk, hrw⟩ := h.waiting k g old
        exact ⟨r, by simpa [List.getElem?_set, Ne.symm hgi] using hr, hrk, hrw⟩
    · intro k
      by_cases hk : k = p.queue
      · subst hk
        have hd : ((s.channels p.queue).getters ++ [i]).Nodup :=
          List.nodup_append.mpr ⟨h.nodup _, by simp,
            fun a ha b hb he => hnot _ (List.mem_singleton.mp hb ▸ he ▸ ha)⟩
        simpa using hd
      · simpa [hk] using h.nodup k

theorem Linked.step {disc : κ → Discipline} {s t : Loop κ α} {e : Event κ α}
    (h : Linked s) (next : step disc s e = some t) : Linked t := by
  cases steps_of_step next with
  | put k v => exact h.putNowait k v
  | pop k d =>
    refine ⟨?_, h.nodup⟩
    intro k' g hg
    obtain ⟨r, hr, hrk, hrw⟩ := h.waiting k' g hg
    have hlt := (List.getElem?_eq_some_iff.mp hr).1
    exact ⟨r, by simpa [List.getElem?_append, hlt] using hr, hrk, hrw⟩
  | resume called ready => exact h.resume called ready
  | deliver called _ _ => exact h.setPop_caller called _
  | expire called _ _ => exact h.setPop_caller called _

/-! Accounting for the items put. -/

theorem taken_eq_none {k : κ} {p : PopCall κ α} (h : ∀ v, p.getter ≠ .took v) :
    p.taken k = none := by
  unfold PopCall.taken
  cases hg : p.getter with
  | ready => simp
  | waiting => simp
  | took v => exact absurd hg (h v)

/-- A pop that has taken nothing adds nothing to what its queue gave out. -/
theorem filterMap_set_of_none {β γ : Type*} {f : β → Option γ} {l : List β} {i : ℕ} {x y : β}
    (h : l[i]? = some x) (hx : f x = none) (hy : f y = none) :
    ((l.set i y).filterMap f).Perm (l.filterMap f) := by
  obtain ⟨others, before, after⟩ := filterMap_set_perm f h y
  rw [hx] at before
  rw [hy] at after
  exact after.trans before.symm

theorem Conserved.putNowait {s : Loop κ α} (h : Conserved s) (hl : Linked s) (k : κ) (v : α) :
    Conserved (s.putNowait k v) := by
  have items : ∀ k', ((s.record k v).put k').Perm
      ((if k' = k then (s.channels k).items ++ [v] else (s.channels k').items) ++
        s.pops.filterMap (PopCall.taken k')) := by
    intro k'
    by_cases hk : k' = k
    · subst hk
      have hp : (s.put k' ++ [v]).Perm ((s.channels k').items ++
          s.pops.filterMap (PopCall.taken k') ++ [v]) := (h k').append_right [v]
      simp only [record_put, if_true, List.append_assoc] at hp ⊢
      exact hp.trans (List.Perm.append_left _ List.perm_append_comm)
    · simpa [hk] using h k'
  intro k'
  cases hg : (s.channels k).getters with
  | nil =>
    rw [putNowait_idle hg]
    simpa [apply_ite Channel.items] using items k'
  | cons g gs =>
    obtain ⟨p, hp, _, hw⟩ := hl.waiting k g (by simp [hg])
    rw [putNowait_wake hg hp]
    have same := filterMap_set_of_none (f := PopCall.taken k') (y := p.wake) hp
      (taken_eq_none (by simp [hw])) (taken_eq_none (by simp [PopCall.wake]))
    refine (List.Perm.trans ?_ (List.Perm.append_left _ same.symm))
    simpa [apply_ite Channel.items] using items k'

theorem Conserved.resume {disc : κ → Discipline} {s : Loop κ α} {i : ℕ} {p : PopCall κ α}
    (h : Conserved s) (hp : s.pops[i]? = some p) (hready : p.getter = .ready) :
    Conserved (s.resume disc i p) := by
  intro k
  have hnone : p.taken k = none := taken_eq_none (by simp [hready])
  cases htake : (disc p.queue).take (s.channels p.queue).items with
  | none =>
    have hempty := take_none.mp htake
    rw [resume_wait hempty]
    have same := filterMap_set_of_none (f := PopCall.taken k) (y := { p with getter := .waiting })
      hp hnone (taken_eq_none (by simp))
    refine ((h k).trans ?_).trans (List.Perm.append_left _ same.symm)
    by_cases hk : k = p.queue
    · subst hk; simp [hempty]
    · simp [hk]
  | some taken =>
    obtain ⟨v, rest⟩ := taken
    rw [resume_take htake]
    obtain ⟨others, before, after⟩ :=
      filterMap_set_perm (PopCall.taken k) hp { p with getter := .took v }
    rw [hnone] at before
    by_cases hk : k = p.queue
    · -- the item moves from the queue to the getter
      subst hk
      have hv : PopCall.taken p.queue { p with getter := .took v } = some v := by
        simp [PopCall.taken]
      rw [hv] at after
      have moved := ((take_perm htake).append_right others).trans
        (@List.perm_middle _ _ rest _).symm
      simpa using ((h p.queue).trans (List.Perm.append_left _ before)).trans
        (moved.trans (List.Perm.append_left _ after.symm))
    · have hv : PopCall.taken k { p with getter := .took v } = none := by
        simp [PopCall.taken, Ne.symm hk]
      rw [hv] at after
      simpa [hk] using (h k).trans (List.Perm.append_left _ (before.trans after.symm))

theorem Conserved.setPop_caller {s : Loop κ α} {i : ℕ} {p : PopCall κ α} (h : Conserved s)
    (hp : s.pops[i]? = some p) (c : Caller α) : Conserved (s.setPop i { p with caller := c }) := by
  intro k
  obtain ⟨others, before, after⟩ := filterMap_set_perm (PopCall.taken k) hp { p with caller := c }
  exact (h k).trans (List.Perm.append_left _ (before.trans after.symm))

theorem Conserved.step {disc : κ → Discipline} {s t : Loop κ α} {e : Event κ α}
    (h : Conserved s) (hl : Linked s) (next : step disc s e = some t) : Conserved t := by
  cases steps_of_step next with
  | put k v => exact h.putNowait hl k v
  | pop k d =>
    intro k'
    simpa [PopCall.taken] using h k'
  | resume called ready => exact h.resume called ready
  | deliver called _ _ => exact h.setPop_caller called _
  | expire called _ _ => exact h.setPop_caller called _

theorem handed_eq_taken {k : κ} {p : PopCall κ α} (h : ¬ p.Lossy) : p.handed k = p.taken k := by
  unfold PopCall.handed
  cases hc : p.caller with
  | pending => rfl
  | returned v => rfl
  | timedOut =>
    refine (taken_eq_none ?_).symm
    intro v hv
    exact h ⟨hc, v, hv⟩

/-- With everything put conserved, the accounting is right when no pop is lossy. -/
theorem accounted_iff {s : Loop κ α} (h : Conserved s) :
    Accounted s ↔ ∀ p ∈ s.pops, ¬ p.Lossy := by
  refine ⟨fun ha => ha.2, fun hn => ⟨?_, hn⟩⟩
  intro k
  have same : s.pops.filterMap (PopCall.handed k) = s.pops.filterMap (PopCall.taken k) :=
    List.filterMap_congr fun p hp => handed_eq_taken (hn p hp)
  rw [same]
  exact h k

omit [DecidableEq κ] in
theorem lossless_setPop {s : Loop κ α} {i : ℕ} {p q : PopCall κ α} (hp : s.pops[i]? = some p)
    (hn : ∀ r ∈ s.pops, ¬ r.Lossy) : (∀ r ∈ (s.setPop i q).pops, ¬ r.Lossy) ↔ ¬ q.Lossy := by
  have hi := (List.getElem?_eq_some_iff.mp hp).1
  constructor
  · intro h
    exact h q (List.mem_set hi q)
  · intro hq r hr
    rcases List.mem_or_eq_of_mem_set hr with hr | rfl
    · exact hn r hr
    · exact hq

/-- One step loses an item exactly when it does not meet the condition. -/
theorem lossless_step {disc : κ → Discipline} {s t : Loop κ α} {e : Event κ α}
    (hl : Linked s) (hn : ∀ p ∈ s.pops, ¬ p.Lossy) (next : step disc s e = some t) :
    (∀ p ∈ t.pops, ¬ p.Lossy) ↔ Kept s e := by
  cases steps_of_step next with
  | put k v =>
    refine iff_of_true ?_ trivial
    cases hg : (s.channels k).getters with
    | nil => rw [putNowait_idle hg]; exact hn
    | cons g gs =>
      obtain ⟨p, hp, _, _⟩ := hl.waiting k g (by simp [hg])
      rw [putNowait_wake hg hp]
      exact (lossless_setPop (s := (s.record k v).setChannel k _) hp hn).mpr
        (by simp [PopCall.Lossy, PopCall.wake])
  | pop k d =>
    refine iff_of_true ?_ trivial
    intro p hp
    rcases List.mem_append.mp hp with hp | hp
    · exact hn p hp
    · rw [List.mem_singleton.mp hp]
      simp [PopCall.Lossy]
  | @resume i p called ready =>
    have kept_iff : Kept s (.resume i) ↔ (p.caller = .timedOut → (s.channels p.queue).items = []) := by
      simp [Kept, called]
    rw [kept_iff]
    cases htake : (disc p.queue).take (s.channels p.queue).items with
    | none =>
      have hempty := take_none.mp htake
      rw [resume_wait hempty, lossless_setPop (s := s.setChannel _ _) called hn]
      simp [PopCall.Lossy, hempty]
    | some taken =>
      have hsome : (s.channels p.queue).items ≠ [] := fun he => by
        simp [take_none.mpr he] at htake
      rw [resume_take htake, lossless_setPop (s := s.setChannel _ _) called hn]
      simp [PopCall.Lossy, hsome]
  | @deliver i p v called took pending =>
    refine iff_of_true ?_ trivial
    exact (lossless_setPop called hn).mpr (by simp [PopCall.Lossy])
  | @expire i p called timed pending =>
    rw [lossless_setPop called hn]
    simp [Kept, called, PopCall.Lossy]

omit [DecidableEq κ] in
theorem start_linked : Linked (start κ α) := ⟨by simp [start], by simp [start]⟩

theorem start_conserved : Conserved (start κ α) := by simp [Conserved, start]

/-- The accounting holds throughout a run exactly when no step of it loses an item.
The events may come under other labels, such as the calls of an interface. -/
theorem accounted_throughout_iff {γ : Type*} (disc : κ → Discipline) (label : γ → Event κ α)
    (cs : List γ) :
    Throughout (fun s c => step disc s (label c)) (start κ α) Accounted cs ↔
      StepsMeet (fun s c => step disc s (label c)) (start κ α) (fun s c => Kept s (label c)) cs := by
  refine throughout_iff_stepsMeet (I := fun s => Linked s ∧ Conserved s)
    ⟨start_linked, start_conserved⟩ ?_ ?_ ?_ cs
  · intro s c t h next
    exact ⟨h.1.step next, h.2.step h.1 next⟩
  · exact (accounted_iff start_conserved).mpr (by simp [start])
  · intro s c t h ha next
    rw [accounted_iff (h.2.step h.1 next)]
    exact lossless_step h.1 ((accounted_iff h.2).mp ha) next

/-! What is put under a key stays with the pops of the key. -/

/-- The items of a queue, and those its pops have, satisfy the property of the queue. -/
structure ItemsSatisfy (P : κ → α → Prop) (s : Loop κ α) : Prop where
  items : ∀ k, ∀ v ∈ (s.channels k).items, P k v
  taken : ∀ p ∈ s.pops, ∀ v, p.getter = .took v → P p.queue v
  returned : ∀ p ∈ s.pops, ∀ v, p.caller = .returned v → P p.queue v

omit [DecidableEq κ] in
theorem itemsSatisfy_start (P : κ → α → Prop) : ItemsSatisfy P (start κ α) :=
  ⟨fun _ v hv => absurd hv (by simp [start]), fun p hp => absurd hp (by simp [start]),
    fun p hp => absurd hp (by simp [start])⟩

section ItemsSatisfy

variable {P : κ → α → Prop} {s : Loop κ α} (h : ItemsSatisfy P s)
include h

theorem ItemsSatisfy.setChannel {k : κ} {c : Channel α} (hc : ∀ v ∈ c.items, P k v) :
    ItemsSatisfy P (s.setChannel k c) := by
  refine ⟨fun k' v hv => ?_, h.taken, h.returned⟩
  rw [setChannel_channels] at hv
  split at hv
  · next hk =>
    subst hk
    exact hc v hv
  · exact h.items k' v hv

omit [DecidableEq κ] in
theorem ItemsSatisfy.setPop {q : PopCall κ α} (i : ℕ)
    (taken : ∀ v, q.getter = .took v → P q.queue v)
    (returned : ∀ v, q.caller = .returned v → P q.queue v) : ItemsSatisfy P (s.setPop i q) := by
  refine ⟨h.items, fun p hp => ?_, fun p hp => ?_⟩
  · rcases List.mem_or_eq_of_mem_set hp with hp | rfl
    · exact h.taken p hp
    · exact taken
  · rcases List.mem_or_eq_of_mem_set hp with hp | rfl
    · exact h.returned p hp
    · exact returned

theorem ItemsSatisfy.putNowait {k : κ} {v : α} (hv : P k v) : ItemsSatisfy P (s.putNowait k v) := by
  have hitems : ∀ w ∈ (s.channels k).items ++ [v], P k w := by
    intro w hw
    rcases List.mem_append.mp hw with hw | hw
    · exact h.items k w hw
    · obtain rfl := List.mem_singleton.mp hw
      exact hv
  have hrecord : ItemsSatisfy P (s.record k v) := ⟨h.items, h.taken, h.returned⟩
  unfold Loop.putNowait
  cases (s.channels k).getters with
  | nil => exact hrecord.setChannel hitems
  | cons g gs =>
    have hset := hrecord.setChannel (c := ⟨(s.channels k).items ++ [v], gs⟩) hitems
    refine ⟨hset.items, fun p hp => ?_, fun p hp => ?_⟩
    · obtain ⟨i, hi⟩ := List.mem_iff_getElem?.mp hp
      rw [List.getElem?_modify] at hi
      obtain ⟨q, hq, rfl⟩ := Option.map_eq_some_iff.mp hi
      split
      · exact fun w hw => absurd hw (by simp [PopCall.wake])
      · exact hset.taken q (List.mem_of_getElem? hq)
    · obtain ⟨i, hi⟩ := List.mem_iff_getElem?.mp hp
      rw [List.getElem?_modify] at hi
      obtain ⟨q, hq, rfl⟩ := Option.map_eq_some_iff.mp hi
      split
      · exact hset.returned q (List.mem_of_getElem? hq)
      · exact hset.returned q (List.mem_of_getElem? hq)

theorem ItemsSatisfy.resume {disc : κ → Discipline} {i : ℕ} {p : PopCall κ α}
    (hp : p ∈ s.pops) : ItemsSatisfy P (s.resume disc i p) := by
  have hreturned := h.returned p hp
  cases htake : (disc p.queue).take (s.channels p.queue).items with
  | none =>
    have hempty := take_none.mp htake
    rw [resume_wait hempty]
    have hset := h.setChannel (k := p.queue) (c := ⟨[], (s.channels p.queue).getters ++ [i]⟩)
      (fun v hv => absurd hv List.not_mem_nil)
    exact hset.setPop i (fun v hv => absurd hv (by simp)) hreturned
  | some taken =>
    obtain ⟨v, rest⟩ := taken
    have hperm := take_perm htake
    rw [resume_take htake]
    have hset := h.setChannel (k := p.queue) (c := ⟨rest, (s.channels p.queue).getters⟩)
      (fun w hw => h.items _ w (hperm.mem_iff.mpr (List.mem_cons_of_mem _ hw)))
    refine hset.setPop i (fun w hw => ?_) hreturned
    obtain rfl : v = w := Getter.took.inj hw
    exact h.items _ v (hperm.mem_iff.mpr List.mem_cons_self)

theorem ItemsSatisfy.step {disc : κ → Discipline} {t : Loop κ α} {e : Event κ α}
    (put : ∀ k v, e = .put k v → P k v) (next : step disc s e = some t) : ItemsSatisfy P t := by
  cases steps_of_step next with
  | put k v => exact h.putNowait (put k v rfl)
  | pop k d =>
    refine ⟨h.items, fun p hp => ?_, fun p hp => ?_⟩
    · rcases List.mem_append.mp hp with hp | hp
      · exact h.taken p hp
      · obtain rfl := List.mem_singleton.mp hp
        exact fun v hv => absurd hv (by simp)
    · rcases List.mem_append.mp hp with hp | hp
      · exact h.returned p hp
      · obtain rfl := List.mem_singleton.mp hp
        exact fun v hv => absurd hv (by simp)
  | resume called ready => exact h.resume (List.mem_of_getElem? called)
  | @deliver i p v called took pending =>
    have hp := List.mem_of_getElem? called
    refine h.setPop i (h.taken p hp) fun w hw => ?_
    obtain rfl : v = w := Caller.returned.inj hw
    exact h.taken p hp v took
  | @expire i p called timed pending =>
    have hp := List.mem_of_getElem? called
    exact h.setPop i (h.taken p hp) fun w hw => absurd hw (by simp)

end ItemsSatisfy

/-- A getter takes from its own queue only. -/
theorem resume_items_ne {disc : κ → Discipline} {s : Loop κ α} {i : ℕ} {p : PopCall κ α} {k : κ}
    (hk : k ≠ p.queue) : ((s.resume disc i p).channels k).items = (s.channels k).items := by
  unfold Loop.resume
  split
  · rw [setPop_channels, setChannel_channels, if_neg hk]
  · rw [setPop_channels, setChannel_channels, if_neg hk]

end AgentTestHarness.AsyncQueue
