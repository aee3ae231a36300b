import AgentTestHarness.AsyncQueue
import Mathlib.Algebra.Order.Ring.Rat

/-! The message queues and message stacks of the backchannels. Both are one family of
`asyncio` queues keyed by message type; a stack is served from its last item. -/
namespace AgentTestHarness.MessageQueue
open Runs AsyncQueue

/-- `message_queues` and `message_stacks`, each keyed by message type. -/
inductive Box (τ : Type*)
  | queue (messageType : τ)
  | stack (messageType : τ)
  deriving DecidableEq, Repr

def discipline {τ : Type*} : Box τ → Discipline
  | .queue _ => .fifo
  | .stack _ => .lifo

/-- A timeout of zero or less means none. -/
def deadlineOf (timeout : ℚ) : Option ℚ := if timeout ≤ 0 then none else some timeout

/-- The four calls, and what the event loop does with the pops already called: run the
inner `get()`, hand its item to the caller, or let the timer of `wait_for` fire.
A push is one step, as `put` never waits on an unbounded queue; its own timer cannot
undo it, since the `put` is shielded too. -/
inductive Call (τ α : Type*)
  | pushMessageQueue (messageType : τ) (value : α) (timeout : ℚ)
  | popMessageQueue (messageType : τ) (timeout : ℚ)
  | pushMessageStack (messageType : τ) (value : α) (timeout : ℚ)
  | popMessageStack (messageType : τ) (timeout : ℚ)
  | resume (pop : ℕ)
  | deliver (pop : ℕ)
  | expire (pop : ℕ)
  deriving DecidableEq, Repr

def Call.event {τ α : Type*} : Call τ α → Event (Box τ) α
  | .pushMessageQueue t v _ => .put (.queue t) v
  | .popMessageQueue t timeout => .pop (.queue t) (deadlineOf timeout)
  | .pushMessageStack t v _ => .put (.stack t) v
  | .popMessageStack t timeout => .pop (.stack t) (deadlineOf timeout)
  | .resume i => .resume i
  | .deliver i => .deliver i
  | .expire i => .expire i

variable {τ α : Type*} [DecidableEq τ]

def step (s : Loop (Box τ) α) (c : Call τ α) : Option (Loop (Box τ) α) :=
  AsyncQueue.step discipline s c.event

def empty : Loop (Box τ) α := start (Box τ) α

/-- A call is served when it does not let the getter of a timed-out pop take a value, nor
time out a pop whose getter has already taken one. -/
def Served (s : Loop (Box τ) α) (c : Call τ α) : Prop := Kept s c.event

/-- Every value pushed so far is held by its queue or stack or has gone to exactly one pop
of its type, and no timed-out pop has consumed one: throughout a run this is so exactly
when every call of the run is served. -/
theorem values_accounted_iff_served (cs : List (Call τ α)) :
    Throughout step (empty (τ := τ) (α := α)) Accounted cs ↔ StepsMeet step empty Served cs :=
  accounted_throughout_iff discipline Call.event cs

/-- A pop that timed out on an empty queue takes the value pushed after it. -/
theorem timed_out_pop_takes_later_push :
    ¬ ∀ cs : List (Call String ℕ), Throughout step empty Accounted cs := by
  intro h
  let cs : List (Call String ℕ) :=
    [.popMessageQueue "m" 5, .resume 0, .expire 0, .pushMessageQueue "m" 7 0, .resume 0]
  have final : (exec step empty cs).map Loop.pops =
      some [⟨.queue "m", some 5, .took 7, .timedOut⟩] := by decide
  obtain ⟨s, hs, hp⟩ := Option.map_eq_some_iff.mp final
  have accounted : Accounted s := h cs List.prefix_rfl (run_of_exec hs)
  exact accounted.2 ⟨.queue "m", some 5, .took 7, .timedOut⟩ (by simp [hp]) ⟨rfl, 7, rfl⟩

end AgentTestHarness.MessageQueue
