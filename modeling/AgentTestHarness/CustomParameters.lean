import AgentTestHarness.JsonReading

/-! Agents restarted with custom parameters by the steps of a feature, and the hook after the
feature that is to put them back. Only the rows of an agents table record which they restart. -/
namespace AgentTestHarness.CustomParameters
open PyText PyJson JsonReading

/-- What comes of a start command: whether the agent was restarted, and the status of the answer,
if there was one. -/
structure Reply where
  restarted : Bool
  status : Option ℕ
  deriving DecidableEq

/-- A start command posted to the backchannel of an agent. -/
structure Start where
  agent : Text
  parameters : Json
  viaTable : Bool
  reply : Reply
  deriving DecidableEq

/-- The configured backchannels, and what comes of the `n`th start command. -/
structure World where
  userdata : Text → Option Text
  reply : ℕ → Reply

structure Row where
  name : Text
  role : Text
  startParameters : Option Text

inductive Step
  | agents (table : List Row)
  | isRunningWithParameters (agent parameters : Text)
  | other (passes : Bool)

structure Feature where
  tags : List Text
  scenarios : List (List Step)

/-- The start commands so far, and the attribute of the feature if it exists. -/
structure Progress where
  starts : List Start
  agentsToReset : Option (List Text)

def beginning : Progress := ⟨[], none⟩

/-- The step `"…" is running with parameters "…"`, with whether it passes. -/
def isRunningWithParameters (w : World) (viaTable : Bool) (agent parameters : Text)
    (s : Progress) : Bool × Progress :=
  match w.userdata agent, loads parameters with
  | some _, .ok paramsJson =>
    let reply := w.reply s.starts.length
    (reply.status = some 200,
      { s with starts := s.starts ++ [⟨agent, paramsJson, viaTable, reply⟩] })
  | _, _ => (false, s)

def roles : List Text :=
  ["inviter".toList, "invitee".toList, "inviteinterceptor".toList, "issuer".toList,
    "holder".toList, "verifier".toList, "prover".toList, "requester".toList, "responder".toList,
    "mediator".toList]

/-- An agent in a role needs a backchannel; other roles are only printed. -/
def hasUrl (w : World) (row : Row) : Bool :=
  !roles.contains row.role || (w.userdata row.name).any (· ≠ [])

/-- The parameters of a row that restarts its agent. -/
def customStart (row : Row) : Option Text :=
  row.startParameters.filter fun p => p ≠ [] ∧ p ≠ "use_running_agent".toList

def addName (names : List Text) (name : Text) : List Text :=
  if names.contains name then names else names ++ [name]

/-- The second loop over the table. A row whose restart fails is not recorded. -/
def startRows (w : World) : List Row → Progress → Bool × Progress
  | [], s => (true, s)
  | row :: rows, s => match customStart row with
    | none => startRows w rows s
    | some parameters => match isRunningWithParameters w true row.name parameters s with
      | (false, t) => (false, t)
      | (true, t) => startRows w rows
          { t with agentsToReset := some (addName (t.agentsToReset.getD []) row.name) }

def runStep (w : World) (s : Progress) : Step → Bool × Progress
  | .agents table => if table.all (hasUrl w) then startRows w table s else (false, s)
  | .isRunningWithParameters agent parameters =>
      isRunningWithParameters w false agent parameters s
  | .other passes => (passes, s)

/-- The steps after one that fails are skipped. -/
def runScenario (w : World) : Progress → List Step → Progress
  | s, [] => s
  | s, step :: steps => match runStep w s step with
    | (false, t) => t
    | (true, t) => runScenario w t steps

def runScenarios (w : World) (f : Feature) : Progress :=
  f.scenarios.foldl (runScenario w) beginning

def allAgents : List Text := ["Acme".toList, "Bob".toList, "Faber".toList, "Mallory".toList]

/-- The loop of the hook; a step that fails ends it. -/
def resetAgents (w : World) : List Text → Progress → Progress
  | [], s => s
  | agent :: agents, s =>
    match isRunningWithParameters w false agent "\x7b\x7d".toList s with
    | (false, t) => t
    | (true, t) => resetAgents w agents t

def afterFeature (w : World) (f : Feature) (s : Progress) : Progress :=
  if f.tags.contains "UsesCustomParameters".toList then
    resetAgents w (s.agentsToReset.getD allAgents) s
  else s

def runFeature (w : World) (f : Feature) : Progress := afterFeature w f (runScenarios w f)

/-! What is asked of a feature, and when it is given. -/

/-- The restarts of an agent, in their order. -/
def restarts (agent : Text) (starts : List Start) : List Start :=
  starts.filter fun x => x.agent = agent ∧ x.reply.restarted

def Customised (agent : Text) (starts : List Start) : Prop :=
  ∃ x ∈ restarts agent starts, x.parameters ≠ .obj []

def PutBack (agent : Text) (starts : List Start) : Prop :=
  ∃ x ∈ (restarts agent starts).getLast?, x.parameters = .obj []

/-- The agents of the table rows that were restarted and answered for, each once. -/
def recorded (starts : List Start) : List Text :=
  ((starts.filter fun x => x.viaTable ∧ x.reply.status = some 200).map Start.agent).foldl
    addName []

/-- The agents whose reset is attempted: the recorded ones or, if there are none, all. -/
def toReset (starts : List Start) : List Text :=
  if recorded starts = [] then allAgents else recorded starts

/-- The reset of an agent happens if all before it in the list pass, the first of which is the
`n`th start command. -/
def Reached (w : World) (n : ℕ) (names : List Text) (agent : Text) : Prop :=
  ∃ i, names[i]? = some agent ∧ (w.userdata agent).isSome ∧ (w.reply (n + i)).restarted ∧
    ∀ j < i, ∀ other, names[j]? = some other →
      (w.userdata other).isSome ∧ (w.reply (n + j)).status = some 200

variable {w : World}

theorem loads_braces : loads "\x7b\x7d".toList = .ok (.obj []) := by decide +kernel

/-- A start step posts one command, or fails without any. -/
theorem isRunningWithParameters_cases (w : World) (viaTable : Bool) (agent parameters : Text)
    (s : Progress) :
    (∃ json, (w.userdata agent).isSome ∧ loads parameters = .ok json ∧
      isRunningWithParameters w viaTable agent parameters s =
        (decide ((w.reply s.starts.length).status = some 200), { s with
          starts := s.starts ++ [⟨agent, json, viaTable, w.reply s.starts.length⟩] })) ∨
    (¬ ((w.userdata agent).isSome ∧ ∃ json, loads parameters = .ok json) ∧
      isRunningWithParameters w viaTable agent parameters s = (false, s)) := by
  unfold isRunningWithParameters
  cases hurl : w.userdata agent with
  | none => exact .inr ⟨by simp, rfl⟩
  | some url =>
    cases hjson : loads parameters with
    | error e => exact .inr ⟨by simp, rfl⟩
    | ok json => exact .inl ⟨json, rfl, rfl, rfl⟩

/-! The record that the table rows keep. -/

/-- The attribute of the feature lists the agents of the rows that passed. -/
def Recorded (s : Progress) : Prop :=
  s.agentsToReset = if recorded s.starts = [] then none else some (recorded s.starts)

theorem addName_ne_nil (names : List Text) (name : Text) : addName names name ≠ [] := by
  unfold addName
  split
  · next h => exact List.ne_nil_of_mem (List.contains_iff_mem.mp h)
  · simp

theorem recorded_append (starts : List Start) (x : Start) :
    recorded (starts ++ [x]) =
      if x.viaTable ∧ x.reply.status = some 200 then addName (recorded starts) x.agent
      else recorded starts := by
  unfold recorded
  rw [List.filter_append, List.map_append, List.foldl_append]
  by_cases h : x.viaTable ∧ x.reply.status = some 200
  · simp [h]
  · simp [h]

theorem Recorded.direct {s : Progress} (h : Recorded s) (agent parameters : Text) :
    Recorded (isRunningWithParameters w false agent parameters s).2 := by
  rcases isRunningWithParameters_cases w false agent parameters s with ⟨json, -, -, he⟩ | ⟨-, he⟩
  · rw [he]
    simpa [Recorded, recorded_append] using h
  · rw [he]
    exact h

theorem getD_ite_nil (names : List Text) :
    (if names = [] then none else some names).getD [] = names := by
  split
  · next h => exact h.symm
  · rfl

/-- A row that passes is recorded, one that fails is not. -/
theorem Recorded.rows {s : Progress} (h : Recorded s) (table : List Row) :
    Recorded (startRows w table s).2 := by
  induction table generalizing s with
  | nil => exact h
  | cons row rows ih =>
    rw [startRows]
    cases customStart row with
    | none => exact ih h
    | some parameters =>
      dsimp only
      rcases isRunningWithParameters_cases w true row.name parameters s with
        ⟨json, -, -, he⟩ | ⟨-, he⟩
      · rw [he]
        by_cases hstatus : (w.reply s.starts.length).status = some 200
        · rw [decide_eq_true hstatus]
          refine ih ?_
          have hnames : s.agentsToReset.getD [] = recorded s.starts := by
            rw [h]
            exact getD_ite_nil _
          simp [Recorded, recorded_append, hstatus, hnames, addName_ne_nil]
        · rw [decide_eq_false hstatus]
          simpa [Recorded, recorded_append, hstatus] using h
      · rw [he]
        exact h

theorem Recorded.step {s : Progress} (h : Recorded s) (step : Step) :
    Recorded (runStep w s step).2 := by
  cases step with
  | agents table =>
    rw [runStep]
    split
    · exact h.rows table
    · exact h
  | isRunningWithParameters agent parameters => exact h.direct agent parameters
  | other passes => exact h

theorem Recorded.scenario {s : Progress} (h : Recorded s) (steps : List Step) :
    Recorded (runScenario w s steps) := by
  induction steps generalizing s with
  | nil => exact h
  | cons step steps ih =>
    have hstep := h.step (w := w) step
    rw [runScenario]
    generalize runStep w s step = result at hstep ⊢
    obtain ⟨passes, t⟩ := result
    cases passes with
    | false => exact hstep
    | true => exact ih hstep

theorem recorded_scenarios (w : World) (f : Feature) : Recorded (runScenarios w f) := by
  have hfold : ∀ (scenarios : List (List Step)) (s : Progress), Recorded s →
      Recorded (scenarios.foldl (runScenario w) s) := by
    intro scenarios
    induction scenarios with
    | nil => exact fun s h => h
    | cons steps scenarios ih => exact fun s h => ih _ (h.scenario steps)
  exact hfold f.scenarios beginning rfl

theorem agentsToReset_eq {s : Progress} (h : Recorded s) :
    s.agentsToReset.getD allAgents = toReset s.starts := by
  rw [h, toReset]
  split <;> rfl

/-! The resets. -/

theorem reached_cons (n : ℕ) (name : Text) (names : List Text) (agent : Text) :
    Reached w n (name :: names) agent ↔
      (w.userdata name).isSome ∧
        ((name = agent ∧ (w.reply n).restarted) ∨
          ((w.reply n).status = some 200 ∧ Reached w (n + 1) names agent)) := by
  constructor
  · rintro ⟨i, hi, hurl, hrestarted, hbefore⟩
    cases i with
    | zero =>
      obtain rfl : name = agent := by simpa using hi
      exact ⟨hurl, .inl ⟨rfl, hrestarted⟩⟩
    | succ i =>
      obtain ⟨hname, hstatus⟩ := hbefore 0 (Nat.succ_pos i) name rfl
      refine ⟨hname, .inr ⟨hstatus, i, hi, hurl, ?_, ?_⟩⟩
      · rwa [Nat.add_right_comm, Nat.add_assoc]
      · intro j hj other hother
        have := hbefore (j + 1) (by omega) other hother
        rwa [Nat.add_right_comm, Nat.add_assoc]
  · rintro ⟨hname, ⟨rfl, hrestarted⟩ | ⟨hstatus, i, hi, hurl, hrestarted, hbefore⟩⟩
    · exact ⟨0, rfl, hname, hrestarted, fun j hj => absurd hj (Nat.not_lt_zero j)⟩
    · refine ⟨i + 1, hi, hurl, ?_, ?_⟩
      · rwa [Nat.add_right_comm, Nat.add_assoc] at hrestarted
      · intro j hj other hother
        cases j with
        | zero =>
          obtain rfl : name = other := by simpa using hother
          exact ⟨hname, hstatus⟩
        | succ j =>
          have := hbefore j (by omega) other hother
          rwa [Nat.add_right_comm, Nat.add_assoc] at this

/-- The resets only add restarts with the empty parameters, and restart who is reached. -/
theorem resetAgents_starts (w : World) (names : List Text) (s : Progress) :
    ∃ resets, (resetAgents w names s).starts = s.starts ++ resets ∧
      (∀ x ∈ resets, x.parameters = .obj []) ∧
      ∀ agent, restarts agent resets ≠ [] ↔ Reached w s.starts.length names agent := by
  induction names generalizing s with
  | nil => exact ⟨[], by simp [resetAgents], by simp, by simp [Reached, restarts]⟩
  | cons name names ih =>
    have hreached := reached_cons (w := w) s.starts.length name names
    rw [resetAgents]
    rcases isRunningWithParameters_cases w false name "\x7b\x7d".toList s with
      ⟨json, hurl, hjson, he⟩ | ⟨hfails, he⟩
    · obtain rfl : .obj [] = json := Except.ok.inj (loads_braces.symm.trans hjson)
      rw [he]
      by_cases hstatus : (w.reply s.starts.length).status = some 200
      · obtain ⟨resets, hstarts, hempty, hiff⟩ := ih { s with
          starts := s.starts ++ [⟨name, .obj [], false, w.reply s.starts.length⟩] }
        rw [decide_eq_true hstatus]
        refine ⟨⟨name, .obj [], false, w.reply s.starts.length⟩ :: resets, ?_, ?_, ?_⟩
        · simpa using hstarts
        · simpa using hempty
        · intro agent
          have hrest := hiff agent
          rw [List.length_append, List.length_singleton] at hrest
          rw [hreached agent, ← hrest]
          by_cases hfirst : name = agent ∧ (w.reply s.starts.length).restarted
          · obtain ⟨rfl, hrestarted⟩ := hfirst
            simp [restarts, hurl, hrestarted]
          · simp [restarts, hurl, hstatus, hfirst]
      · rw [decide_eq_false hstatus]
        refine ⟨[⟨name, .obj [], false, w.reply s.starts.length⟩], rfl, by simp, ?_⟩
        intro agent
        simp [hreached agent, hurl, hstatus, restarts, List.filter_cons]
    · rw [he]
      have hurl : ¬ (w.userdata name).isSome := fun h => hfails ⟨h, _, loads_braces⟩
      exact ⟨[], by simp, by simp, by simp [hreached, hurl, restarts]⟩

theorem restarts_append (agent : Text) (xs ys : List Start) :
    restarts agent (xs ++ ys) = restarts agent xs ++ restarts agent ys := List.filter_append ..

/-- Restarts with the empty parameters customise nobody. -/
theorem customised_append {xs ys : List Start} (hempty : ∀ y ∈ ys, y.parameters = .obj [])
    (agent : Text) : Customised agent (xs ++ ys) ↔ Customised agent xs := by
  have hnone : ∀ y ∈ restarts agent ys, y.parameters = .obj [] :=
    fun y hy => hempty y (List.mem_of_mem_filter hy)
  unfold Customised
  rw [restarts_append]
  constructor
  · rintro ⟨x, hx, hcustom⟩
    rcases List.mem_append.mp hx with hx | hx
    · exact ⟨x, hx, hcustom⟩
    · exact absurd (hnone x hx) hcustom
  · rintro ⟨x, hx, hcustom⟩
    exact ⟨x, List.mem_append_left _ hx, hcustom⟩

/-- They put back who they restart. -/
theorem putBack_append {xs ys : List Start} (hempty : ∀ y ∈ ys, y.parameters = .obj [])
    (agent : Text) : PutBack agent (xs ++ ys) ↔ restarts agent ys ≠ [] ∨ PutBack agent xs := by
  unfold PutBack
  rw [restarts_append]
  rcases List.eq_nil_or_concat (restarts agent ys) with hnil | ⟨init, last, hlast⟩
  · simp [hnil]
  · have hmem : last ∈ restarts agent ys := by simp [hlast]
    rw [hlast]
    refine iff_of_true ⟨last, by simp, hempty last (List.mem_of_mem_filter hmem)⟩ (.inl ?_)
    simp

/-- Every agent that a feature customises is put back just if the scenarios leave it with the
empty parameters, or the feature has the tag and the hook gets to the agent. -/
theorem feature_puts_back_iff (w : World) (f : Feature) :
    (∀ agent, Customised agent (runFeature w f).starts →
      PutBack agent (runFeature w f).starts) ↔
    ∀ agent, Customised agent (runScenarios w f).starts →
      PutBack agent (runScenarios w f).starts ∨
        ("UsesCustomParameters".toList ∈ f.tags ∧
          Reached w (runScenarios w f).starts.length (toReset (runScenarios w f).starts)
            agent) := by
  refine forall_congr' fun agent => ?_
  unfold runFeature afterFeature
  rw [agentsToReset_eq (recorded_scenarios w f)]
  split
  · next htag =>
    obtain ⟨resets, hstarts, hempty, hiff⟩ :=
      resetAgents_starts w (toReset (runScenarios w f).starts) (runScenarios w f)
    rw [hstarts, customised_append hempty, putBack_append hempty, hiff agent]
    exact imp_congr_right fun _ => by rw [or_comm, and_iff_right (List.contains_iff_mem.mp htag)]
  · next htag =>
    exact imp_congr_right fun _ => by rw [or_iff_left fun h => htag (List.contains_iff_mem.mpr h.1)]

/-- Agents that are all configured and always restart as they are told. -/
def obedient : World := ⟨fun agent => some ("http://".toList ++ agent), fun _ => ⟨true, some 200⟩⟩

/-- Two agents restarted by direct steps of a feature without the tag. -/
def waciIssuance : Feature where
  tags := ["DIDComm-V2".toList, "WACI".toList, "IssueCredentialV3".toList]
  scenarios := [[
    .agents [⟨"Acme".toList, "issuer".toList, none⟩, ⟨"Bob".toList, "holder".toList, none⟩],
    .isRunningWithParameters "Acme".toList "\x7b\"mime-type\":[\"didcomm/v2\"]\x7d".toList,
    .isRunningWithParameters "Bob".toList "\x7b\"mime-type\":[\"didcomm/v2\"]\x7d".toList]]

theorem waci_issuance_leaves_agents_customised :
    ¬ ∀ (w : World) (f : Feature) (agent : Text), Customised agent (runFeature w f).starts →
      PutBack agent (runFeature w f).starts := by
  intro h
  have hlast : (restarts "Acme".toList (runFeature obedient waciIssuance).starts).map
      Start.parameters = [.obj [("mime-type", .arr [.str "didcomm/v2"])]] := by decide +kernel
  generalize hagent : "Acme".toList = agent at hlast
  obtain ⟨x, hx, hparameters⟩ := List.map_eq_singleton_iff.mp hlast
  obtain ⟨y, hy, hempty⟩ := h obedient waciIssuance agent
    ⟨x, by rw [hx]; exact List.mem_singleton_self x, by rw [hparameters]; simp⟩
  rw [hx] at hy
  obtain rfl : x = y := by simpa using hy
  simp [hempty] at hparameters

end AgentTestHarness.CustomParameters
