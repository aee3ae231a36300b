import AgentTestHarness.BinaryFloats
import AgentTestHarness.JsonReading
import AgentTestHarness.Runs

/-! The polls of `expected_agent_state`, in the harness and in the ACA-Py backchannel. The number of
rounds is the quotient of two floating point numbers. Without a round in the wait time the report
after the loop has no status to name, and an answer without a state is an error. -/
namespace AgentTestHarness.ExpectedStates
open PyText PyJson OrderedDict JsonReading BinaryFloats

structure Times where
  waitTime : ℚ
  sleepTime : ℚ
  wait_pos : 0 < waitTime
  sleep_pos : 0 < sleepTime

/-- How often a sleep goes into the wait. -/
def Times.bound (t : Times) : ℕ := ⌊t.waitTime / t.sleepTime⌋₊

def zeroDivisionError : PyError := .exception "float division by zero"

/-- `int` of a quotient that is not negative. -/
def truncated : WithTop ℚ → Except PyError ℕ
  | none => .error (.exception "cannot convert float infinity to integer")
  | some q => .ok ⌊q⌋₊

/-- `int(wait_time / sleep_time)` of floating point numbers. -/
def intQuotient : (waitTime sleepTime : WithTop ℚ) → Except PyError ℕ
  | none, none => .error (.exception "cannot convert float NaN to integer")
  | some _, none => .ok 0
  | none, some _ => truncated ⊤
  | some waitTime, some sleepTime =>
    if sleepTime = 0 then .error zeroDivisionError
    else truncated (double.round (waitTime / sleepTime))

/-- The rounds of the loop. The times are the floating point numbers nearest to the given ones, and
so is their quotient. -/
def Times.rounds (t : Times) : Except PyError ℕ :=
  intQuotient (double.round t.waitTime) (double.round t.sleepTime)

structure Answer where
  status : ℕ
  text : Text
  object : status = 200 → ∃ ms, loads text = .ok (.obj ms)

def Answer.state (a : Answer) : Except PyError Json := do
  let respJson ← loads a.text
  respJson.item "state"

inductive StatusTxt
  | state (s : Str)
  | states (ss : List Str)

def StatusTxt.toList : StatusTxt → List Str
  | .state s => [s]
  | .states ss => ss

/-- What is printed when no answer was good. -/
structure Report where
  statusTxt : List Str
  state : Json
  respStatus : ℕ
  deriving DecidableEq

structure Call where
  result : Except PyError Bool
  asked : ℕ
  printed : Option Report
  deriving DecidableEq

def isIn (state : Json) (statusTxt : List Str) : Bool := statusTxt.any fun s => state = .str s

/-- The loop from the `i`th answer on and the report after it, with the variables that the report
reads; the status is not set before the first answer. -/
def poll (statusTxt : List Str) (answers : ℕ → Answer) :
    (rounds i : ℕ) → (state : Json) → (respStatus : Option ℕ) → Call
  | 0, i, _, none => ⟨.error .unboundLocalError, i, none⟩
  | 0, i, state, some respStatus => ⟨.ok false, i, some ⟨statusTxt, state, respStatus⟩⟩
  | rounds + 1, i, state, _ =>
    if (answers i).status = 200 then
      match (answers i).state with
      | .error e => ⟨.error e, i + 1, none⟩
      | .ok state =>
        if isIn state statusTxt then ⟨.ok true, i + 1, none⟩
        else poll statusTxt answers rounds (i + 1) state (some (answers i).status)
    else poll statusTxt answers rounds (i + 1) state (some (answers i).status)

/-- The call with the list of accepted states. -/
def pollFor (statusTxt : List Str) (t : Times) (answers : ℕ → Answer) : Call :=
  match t.rounds with
  | .error e => ⟨.error e, 0, none⟩
  | .ok rounds => poll statusTxt answers rounds 0 (.str "None") none

namespace Harness

def accepted (statusTxt : StatusTxt) : List Str := statusTxt.toList ++ [("N/A" : Str)]

def expectedAgentState (statusTxt : StatusTxt) (t : Times) (answers : ℕ → Answer) : Call :=
  pollFor (accepted statusTxt) t answers

end Harness

namespace Acapy

def accepted (statusTxt : StatusTxt) : List Str := statusTxt.toList

def expectedAgentState (statusTxt : StatusTxt) (t : Times) (answers : ℕ → Answer) : Call :=
  pollFor (accepted statusTxt) t answers

end Acapy

/-! What is promised. -/

def Good (statusTxt : List Str) (a : Answer) : Prop :=
  a.status = 200 ∧ ∃ s ∈ statusTxt, a.state = .ok (.str s)

/-- The call ends with the first good answer within the bound, and is false without one. -/
structure Promised (statusTxt : List Str) (t : Times) (answers : ℕ → Answer) (c : Call) :
    Prop where
  found : ∀ i < t.bound, Good statusTxt (answers i) →
    (∀ j < i, ¬ Good statusTxt (answers j)) → c.result = .ok true ∧ c.asked = i + 1
  exhausted : (∀ i < t.bound, ¬ Good statusTxt (answers i)) →
    c.result = .ok false ∧ c.asked = t.bound

/-- The quotient of the floating point numbers is not rounded over an integer, and there is a round;
or a good answer comes before the one and the other. -/
def Enough (statusTxt : List Str) (t : Times) (answers : ℕ → Answer) : Prop :=
  ∃ rounds, t.rounds = .ok rounds ∧
    (rounds = t.bound ∧ 0 < rounds ∨ ∃ i, i < rounds ∧ i < t.bound ∧ Good statusTxt (answers i))

def HasState (a : Answer) : Prop := ∃ ms state, loads a.text = .ok (.obj ms) ∧
  lookup ("state" : Str) ms = some state

/-- An answer of status 200 has a state, as far as the polls come to it. -/
def Informed (statusTxt : List Str) (t : Times) (answers : ℕ → Answer) : Prop :=
  ∀ i < t.bound, (∀ j < i, ¬ Good statusTxt (answers j)) → (answers i).status = 200 →
    HasState (answers i)

/-- Both versions keep their promises, and they agree unless some state is "N/A". -/
structure Kept (statusTxt : StatusTxt) (t : Times) (answers : ℕ → Answer) : Prop where
  harness : Promised (Harness.accepted statusTxt) t answers
    (Harness.expectedAgentState statusTxt t answers)
  acapy : Promised (Acapy.accepted statusTxt) t answers
    (Acapy.expectedAgentState statusTxt t answers)
  agree : (∀ i, (answers i).status = 200 → (answers i).state ≠ .ok (.str "N/A")) →
    (Harness.expectedAgentState statusTxt t answers).result =
      (Acapy.expectedAgentState statusTxt t answers).result ∧
    (Harness.expectedAgentState statusTxt t answers).asked =
      (Acapy.expectedAgentState statusTxt t answers).asked

theorem isIn_iff {state : Json} {statusTxt : List Str} :
    isIn state statusTxt = true ↔ ∃ s ∈ statusTxt, state = .str s := by
  simp [isIn]

theorem state_eq_ok_iff {a : Answer} (h : a.status = 200) :
    (∃ state, a.state = .ok state) ↔ HasState a := by
  obtain ⟨ms, hms⟩ := a.object h
  have hstate : a.state = (Json.obj ms).item "state" := by rw [Answer.state, hms]; rfl
  rw [hstate, HasState]
  constructor
  · rintro ⟨state, hitem⟩
    exact ⟨ms, state, hms, Json.item_obj.mp hitem⟩
  · rintro ⟨ms', state, hms', hlookup⟩
    obtain rfl := Json.obj.inj (Except.ok.inj (hms.symm.trans hms'))
    exact ⟨state, Json.item_obj.mpr hlookup⟩

section

variable {statusTxt : List Str} {answers : ℕ → Answer} {i : ℕ}

/-! One round. -/

theorem poll_of_good (h : Good statusTxt (answers i)) (rounds : ℕ) (state : Json)
    (respStatus : Option ℕ) : poll statusTxt answers (rounds + 1) i state respStatus =
      ⟨.ok true, i + 1, none⟩ := by
  obtain ⟨hstatus, s, hs, hstate⟩ := h
  simp only [poll, if_pos hstatus, hstate, isIn_iff.mpr ⟨s, hs, rfl⟩, if_true]

theorem poll_of_stateless (hstatus : (answers i).status = 200) (h : ¬ HasState (answers i))
    (rounds : ℕ) (state : Json) (respStatus : Option ℕ) :
    ∃ e, poll statusTxt answers (rounds + 1) i state respStatus = ⟨.error e, i + 1, none⟩ := by
  cases hstate : (answers i).state with
  | error e => exact ⟨e, by simp only [poll, if_pos hstatus, hstate]⟩
  | ok state => exact absurd ((state_eq_ok_iff hstatus).mp ⟨state, hstate⟩) h

theorem poll_of_other (hother : ¬ Good statusTxt (answers i))
    (h : (answers i).status = 200 → HasState (answers i)) (rounds : ℕ) (state : Json)
    (respStatus : Option ℕ) : ∃ state',
      poll statusTxt answers (rounds + 1) i state respStatus =
        poll statusTxt answers rounds (i + 1) state' (some (answers i).status) := by
  by_cases hstatus : (answers i).status = 200
  · obtain ⟨state', hstate⟩ := (state_eq_ok_iff hstatus).mpr (h hstatus)
    have hin : ¬ isIn state' statusTxt = true := by
      rw [isIn_iff]
      rintro ⟨s, hs, rfl⟩
      exact hother ⟨hstatus, s, hs, hstate⟩
    exact ⟨state', by simp only [poll, if_pos hstatus, hstate, if_neg hin]⟩
  · exact ⟨state, by simp only [poll, if_neg hstatus]⟩

/-! The whole loop. -/

/-- The polls come to the `i + d`th answer if no earlier one is good or without its state. -/
theorem poll_skip (rounds d i : ℕ)
    (h : ∀ j, i ≤ j → j < i + d → ¬ Good statusTxt (answers j) ∧
      ((answers j).status = 200 → HasState (answers j))) (state : Json)
    (respStatus : Option ℕ) : ∃ state' respStatus',
      poll statusTxt answers (rounds + d) i state respStatus =
        poll statusTxt answers rounds (i + d) state' respStatus' ∧
      (respStatus ≠ none ∨ 0 < d → respStatus' ≠ none) := by
  induction d generalizing i state respStatus with
  | zero => exact ⟨state, respStatus, rfl, by simp⟩
  | succ d ih =>
    obtain ⟨hother, hstate⟩ := h i le_rfl (by omega)
    obtain ⟨state', hnext⟩ := poll_of_other hother hstate (rounds + d) state respStatus
    obtain ⟨state'', respStatus'', hrest, hset⟩ :=
      ih (i + 1) (fun j hij hj => h j (by omega) (by omega)) state' (some (answers i).status)
    have hsum : i + 1 + d = i + (d + 1) := by omega
    rw [hsum] at hrest
    exact ⟨state'', respStatus'', hnext.trans hrest, fun _ => hset (.inl (by simp))⟩

variable {t : Times} {c : Call}

theorem Promised.returns (h : Promised statusTxt t answers c) : ∃ b, c.result = .ok b := by
  rcases Runs.first_or_none (fun i => Good statusTxt (answers i)) t.bound with
    ⟨i, hi, hgood, hfirst⟩ | hnone
  · exact ⟨true, (h.found i hi hgood hfirst).1⟩
  · exact ⟨false, (h.exhausted hnone).1⟩

/-- A call that gives a result is neither without a round nor comes to an answer that misses its
state. -/
theorem informed_of_ok {rounds : ℕ} {state : Json} {b : Bool}
    (h : (poll statusTxt answers rounds 0 state none).result = .ok b) :
    0 < rounds ∧ ∀ i < rounds, (∀ j < i, ¬ Good statusTxt (answers j)) →
      (answers i).status = 200 → HasState (answers i) := by
  constructor
  · rcases Nat.eq_zero_or_pos rounds with rfl | hpos
    · cases h
    · exact hpos
  · by_contra huninformed
    let Fails : ℕ → Prop := fun i => (∀ j < i, ¬ Good statusTxt (answers j)) ∧
      (answers i).status = 200 ∧ ¬ HasState (answers i)
    rcases Runs.first_or_none Fails rounds with ⟨i, hi, ⟨hnone, hstatus, hstateless⟩, hfirst⟩ | hall
    · obtain ⟨rest, hrest⟩ := Nat.exists_eq_add_of_lt hi
      have hrounds : rounds = rest + 1 + i := by omega
      obtain ⟨state', respStatus', hskip, -⟩ := poll_skip (rest + 1) i 0 (fun j _ hj => by
        refine ⟨hnone j (by omega), fun hj200 => ?_⟩
        by_contra hjstate
        exact hfirst j (by omega) ⟨fun k hk => hnone k (by omega), hj200, hjstate⟩) state none
      rw [Nat.zero_add] at hskip
      obtain ⟨e, herror⟩ := poll_of_stateless hstatus hstateless rest state' respStatus'
      rw [hrounds, hskip, herror] at h
      cases h
    · refine huninformed fun i hi hnone hstatus => ?_
      by_contra hstateless
      exact hall i hi ⟨hnone, hstatus, hstateless⟩

/-- The call ends with the first good answer if the ones before it have their states. -/
theorem poll_first {rounds : ℕ} (hi : i < rounds) (hgood : Good statusTxt (answers i))
    (hbefore : ∀ j < i, ¬ Good statusTxt (answers j) ∧
      ((answers j).status = 200 → HasState (answers j))) (state : Json) :
    poll statusTxt answers rounds 0 state none = ⟨.ok true, i + 1, none⟩ := by
  obtain ⟨rest, hrest⟩ := Nat.exists_eq_add_of_lt hi
  have hrounds : rounds = rest + 1 + i := by omega
  obtain ⟨state', respStatus', hskip, -⟩ :=
    poll_skip (rest + 1) i 0 (fun j _ hj => hbefore j (by omega)) state none
  rw [Nat.zero_add] at hskip
  rw [hrounds, hskip, poll_of_good hgood]

/-- Without a good answer all rounds are used up. -/
theorem poll_exhausted {rounds : ℕ} (hpos : 0 < rounds)
    (hbefore : ∀ j < rounds, ¬ Good statusTxt (answers j) ∧
      ((answers j).status = 200 → HasState (answers j))) (state : Json) :
    (poll statusTxt answers rounds 0 state none).result = .ok false ∧
      (poll statusTxt answers rounds 0 state none).asked = rounds := by
  obtain ⟨state', respStatus', hskip, hset⟩ :=
    poll_skip 0 rounds 0 (fun j _ hj => hbefore j (by omega)) state none
  simp only [Nat.zero_add] at hskip
  rw [hskip]
  cases respStatus' with
  | none => exact absurd rfl (hset (.inr hpos))
  | some respStatus' => exact ⟨rfl, rfl⟩

/-- No more answers than rounds are asked for, and no fewer if the result is false. -/
theorem asked_le (rounds i : ℕ) (state : Json) (respStatus : Option ℕ) :
    (poll statusTxt answers rounds i state respStatus).asked ≤ i + rounds ∧
      ((poll statusTxt answers rounds i state respStatus).result = .ok false →
        (poll statusTxt answers rounds i state respStatus).asked = i + rounds) := by
  induction rounds generalizing i state respStatus with
  | zero => cases respStatus <;> exact ⟨le_rfl, fun _ => rfl⟩
  | succ rounds ih =>
    have hsum : i + (rounds + 1) = i + 1 + rounds := by omega
    have hlast : i + 1 ≤ i + (rounds + 1) := by omega
    by_cases hstatus : (answers i).status = 200
    · cases hstate : (answers i).state with
      | error e =>
        simp only [poll, if_pos hstatus, hstate]
        exact ⟨hlast, fun h => by cases h⟩
      | ok state' =>
        simp only [poll, if_pos hstatus, hstate]
        split
        · exact ⟨hlast, fun h => by cases h⟩
        · rw [hsum]
          exact ih (i + 1) state' _
    · simp only [poll, if_neg hstatus]
      rw [hsum]
      exact ih (i + 1) state _

/-- The promises are kept just if the rounds are enough and the answers that the polls come to have
their states. -/
theorem promised_iff : Promised statusTxt t answers (pollFor statusTxt t answers) ↔
    Enough statusTxt t answers ∧ Informed statusTxt t answers := by
  constructor
  · intro promised
    obtain ⟨b, hresult⟩ := promised.returns
    cases hrounds : t.rounds with
    | error e => rw [pollFor, hrounds] at hresult; cases hresult
    | ok rounds =>
      simp only [pollFor, hrounds] at promised hresult
      obtain ⟨hpos, hinformed⟩ := informed_of_ok hresult
      rcases Runs.first_or_none (fun i => Good statusTxt (answers i)) t.bound with
        ⟨i, hi, hgood, hfirst⟩ | hnone
      · have hlt : i < rounds := by
          have hle : (poll statusTxt answers rounds 0 (.str "None") none).asked ≤ 0 + rounds :=
            (asked_le rounds 0 _ none).1
          rw [(promised.found i hi hgood hfirst).2] at hle
          omega
        refine ⟨⟨rounds, hrounds, .inr ⟨i, hlt, hi, hgood⟩⟩, fun i' hi' hnone =>
          hinformed i' (?_) hnone⟩
        exact lt_of_not_ge fun hge => hnone i (by omega) hgood
      · obtain ⟨hfalse, hasked⟩ := promised.exhausted hnone
        have heq : rounds = t.bound := by
          have hall := (asked_le rounds 0 (.str "None") none).2 hfalse
          omega
        refine ⟨⟨rounds, hrounds, .inl ⟨heq, hpos⟩⟩, fun i hi => hinformed i (by omega)⟩
  · rintro ⟨⟨rounds, hrounds, henough⟩, informed⟩
    simp only [pollFor, hrounds]
    have hfound : ∀ i < t.bound, i < rounds → Good statusTxt (answers i) →
        (∀ j < i, ¬ Good statusTxt (answers j)) →
        poll statusTxt answers rounds 0 (.str "None") none = ⟨.ok true, i + 1, none⟩ :=
      fun i hi hlt hgood hfirst => poll_first hlt hgood (fun j hj =>
        ⟨hfirst j hj, informed j (by omega) fun k hk => hfirst k (by omega)⟩) _
    rcases henough with ⟨rfl, hpos⟩ | ⟨i, hlt, hbound, hgood⟩
    · refine ⟨fun i hi hgood hfirst => ?_, fun hnone => ?_⟩
      · rw [hfound i hi hi hgood hfirst]
        exact ⟨rfl, rfl⟩
      · exact poll_exhausted hpos (fun j hj =>
          ⟨hnone j hj, informed j hj fun k hk => hnone k (by omega)⟩) _
    · refine ⟨fun i' hi' hgood' hfirst => ?_, fun hnone => absurd hgood (hnone i hbound)⟩
      have hle : i' ≤ i := not_lt.mp fun hlt' => hfirst i hlt' hgood
      rw [hfound i' hi' (by omega) hgood' hfirst]
      exact ⟨rfl, rfl⟩

/-- Lists that the states of the answers cannot tell apart give the same result. -/
theorem poll_congr {statusTxt' : List Str}
    (h : ∀ i state, (answers i).status = 200 → (answers i).state = .ok state →
      isIn state statusTxt = isIn state statusTxt')
    (rounds i : ℕ) (state : Json) (respStatus : Option ℕ) :
    (poll statusTxt answers rounds i state respStatus).result =
      (poll statusTxt' answers rounds i state respStatus).result ∧
    (poll statusTxt answers rounds i state respStatus).asked =
      (poll statusTxt' answers rounds i state respStatus).asked := by
  induction rounds generalizing i state respStatus with
  | zero => cases respStatus <;> exact ⟨rfl, rfl⟩
  | succ rounds ih =>
    by_cases hstatus : (answers i).status = 200
    · cases hstate : (answers i).state with
      | error e => simp only [poll, if_pos hstatus, hstate, and_self]
      | ok state' =>
        simp only [poll, if_pos hstatus, hstate, h i state' hstatus hstate]
        split
        · exact ⟨rfl, rfl⟩
        · exact ih (i + 1) state' _
    · simp only [poll, if_neg hstatus]
      exact ih (i + 1) state _

end

/-- Where the times are floating point numbers and the one is a multiple of the other, as many rounds
are made. -/
theorem Times.rounds_of_multiple (t : Times) {n : ℕ} (hn : n < 2 ^ double.precision)
    (hmultiple : t.waitTime = n * t.sleepTime)
    (hwait : double.round t.waitTime = (t.waitTime : WithTop ℚ))
    (hsleep : double.round t.sleepTime = (t.sleepTime : WithTop ℚ)) :
    t.rounds = .ok n ∧ t.bound = n := by
  have hne : t.sleepTime ≠ 0 := t.sleep_pos.ne'
  have hquotient : t.waitTime / t.sleepTime = n := by
    rw [hmultiple, mul_div_cancel_right₀ _ hne]
  constructor
  · rw [Times.rounds, hwait, hsleep]
    show (if t.sleepTime = 0 then _ else _) = _
    rw [if_neg hne, hquotient, Format.round_natCast hn]
    exact congrArg Except.ok (Nat.floor_natCast n)
  · rw [Times.bound, hquotient, Nat.floor_natCast]

/-- What is good for the backchannel is good for the harness. -/
theorem Good.harness {statusTxt : StatusTxt} {a : Answer}
    (h : Good (Acapy.accepted statusTxt) a) : Good (Harness.accepted statusTxt) a := by
  obtain ⟨hstatus, s, hs, hstate⟩ := h
  exact ⟨hstatus, s, List.mem_append_left _ hs, hstate⟩

theorem Enough.harness {statusTxt : StatusTxt} {t : Times} {answers : ℕ → Answer}
    (h : Enough (Acapy.accepted statusTxt) t answers) :
    Enough (Harness.accepted statusTxt) t answers := by
  obtain ⟨rounds, hrounds, henough⟩ := h
  refine ⟨rounds, hrounds, henough.imp id ?_⟩
  rintro ⟨i, hlt, hbound, hgood⟩
  exact ⟨i, hlt, hbound, hgood.harness⟩

/-- Both versions keep their promises just if the rounds that are made are enough, and each answer of
status 200 that comes before a state expected by the backchannel has a state. -/
theorem expected_states_iff (statusTxt : StatusTxt) (t : Times) (answers : ℕ → Answer) :
    Kept statusTxt t answers ↔
      Enough (Acapy.accepted statusTxt) t answers ∧
        Informed (Acapy.accepted statusTxt) t answers := by
  constructor
  · intro kept
    exact promised_iff.mp kept.acapy
  · rintro ⟨enough, informed⟩
    have hharness : Informed (Harness.accepted statusTxt) t answers :=
      fun i hi hnone => informed i hi fun j hj hgood => hnone j hj hgood.harness
    refine ⟨promised_iff.mpr ⟨enough.harness, hharness⟩, promised_iff.mpr ⟨enough, informed⟩, ?_⟩
    intro hna
    obtain ⟨rounds, hrounds, -⟩ := enough
    simp only [Harness.expectedAgentState, Acapy.expectedAgentState, pollFor, hrounds]
    refine poll_congr (fun i state hstatus hstate => ?_) rounds 0 _ none
    rw [Bool.eq_iff_iff, isIn_iff, isIn_iff]
    constructor
    · rintro ⟨s, hs, rfl⟩
      rcases List.mem_append.mp hs with hs | hs
      · exact ⟨s, hs, rfl⟩
      · obtain rfl := List.mem_singleton.mp hs
        exact absurd hstate (hna i hstatus)
    · rintro ⟨s, hs, rfl⟩
      exact ⟨s, List.mem_append_left _ hs, rfl⟩

/-- With a wait of half a second and a sleep of a whole one there is no round. -/
theorem short_wait_raises : ¬ ∀ statusTxt t answers, Kept statusTxt t answers := by
  intro h
  have hwait : (0 : ℚ) < 1 / 2 := by norm_num
  have kept := h (.state "done") ⟨1 / 2, 1, hwait, one_pos⟩ fun _ => ⟨404, [], by simp⟩
  obtain ⟨rounds, -, ⟨hrounds, hpos⟩ | ⟨i, -, -, hgood⟩⟩ := (promised_iff.mp kept.acapy).1
  · rw [hrounds, Times.bound, Nat.floor_pos] at hpos
    exact absurd hpos (by norm_num)
  · exact absurd hgood.1 (show (404 : ℕ) ≠ 200 by decide)

end AgentTestHarness.ExpectedStates
