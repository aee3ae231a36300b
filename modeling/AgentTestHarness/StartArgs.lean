import AgentTestHarness.CommandLine
import AgentTestHarness.PyText
import Mathlib.Data.List.Count

/-! The command line with which the start route restarts the ACA-Py agent. The arguments that
the route is given take the place of default arguments of the same name. -/
namespace AgentTestHarness.StartArgs
open PyText CommandLine

inductive Transport
  | http
  | ws
  deriving DecidableEq

def Transport.name : Transport → Str
  | .http => "http"
  | .ws => "ws"

structure Host where
  agentPort : Transport → Str
  agentEndpoint : Transport → Str

def getHostArgs (host : Host) (inboundTransports outboundTransports : List Transport) : List Str :=
  (inboundTransports.flatMap fun transport => [("--endpoint" : Str),
    host.agentEndpoint transport, ("--inbound-transport" : Str), transport.name,
    ("0.0.0.0" : Str), host.agentPort transport]) ++
  outboundTransports.flatMap fun transport => [("--outbound-transport" : Str), transport.name]

/-- The parameters of the route; of every other parameter the text of its value is used. -/
structure StartParameters where
  inboundTransports : Option (List Transport)
  outboundTransports : Option (List Transport)
  others : List (Str × Str)
  flags : Option (List Str)

def dashes (name : Str) : Str := ("--" : Str) ++ name

/-- The arguments that the start route passes on. -/
def startArgs (host : Host) (parameters : StartParameters) : List Str :=
  getHostArgs host (parameters.inboundTransports.getD [.http])
    (parameters.outboundTransports.getD [.http]) ++
  ((parameters.others.filter fun e => decide (e.1 ≠ ("data" : Str) ∧ e.1 ≠ ("flags" : Str))).flatMap
    fun e => [dashes e.1, e.2]) ++
  (parameters.flags.getD []).map dashes

def isOption (arg : Str) : Bool := decide (("--" : Str) <+: arg)

/-- The first occurrence of the option is deleted with all items up to the next option. -/
def removeOption (agentArgs : List Str) (arg : Str) : List Str :=
  if agentArgs.contains arg then
    let index := agentArgs.idxOf arg
    agentArgs.take index ++ (agentArgs.drop (index + 1)).dropWhile fun item => !isOption item
  else agentArgs

/-- The command line of `start_process_with_extra_args`; `processArgs` are the defaults. -/
def extendedArgs (processArgs args : List Str) : List Str :=
  (args.filter isOption).foldl removeOption processArgs ++ args

/-- The options given have just the values given, and all other options are the defaults. -/
structure Overrides (processArgs args line : List Str) : Prop where
  given : ∀ name ∈ args, isOption name = true →
    (options isOption line).filter (fun o => decide (o.1 = name)) =
      (options isOption args).filter fun o => decide (o.1 = name)
  kept : (options isOption line).filter (fun o => !args.contains o.1) =
    (options isOption processArgs).filter fun o => !args.contains o.1

/-! One removal. -/

theorem removeOption_cons (x : Str) (agentArgs : List Str) (arg : Str) :
    removeOption (x :: agentArgs) arg = if x = arg then
      agentArgs.dropWhile fun item => !isOption item else x :: removeOption agentArgs arg := by
  unfold removeOption
  rcases eq_or_ne x arg with rfl | hne
  · simp
  · rw [if_neg hne, List.idxOf_cons_ne _ hne]
    by_cases hmem : arg ∈ agentArgs
    · rw [if_pos (by simp [hmem]), if_pos (by simpa using hmem)]
      rfl
    · rw [if_neg (by simp [hmem, hne.symm]), if_neg (by simpa using hmem)]

theorem begins_dropWhile (agentArgs : List Str) :
    BeginsWithName isOption (agentArgs.dropWhile fun item => !isOption item) := by
  intro x hx
  have := List.head?_dropWhile_not (fun item => !isOption item) agentArgs
  rw [Option.mem_def.mp hx] at this
  simpa using this

theorem options_dropWhile (agentArgs : List Str) :
    options isOption (agentArgs.dropWhile fun item => !isOption item) =
      options isOption agentArgs := by
  conv_rhs => rw [← List.takeWhile_append_dropWhile (p := fun item => !isOption item)
    (l := agentArgs)]
  exact (options_skip (fun x hx => by simpa using List.mem_takeWhile_imp hx) _).symm

theorem leading_removeOption (agentArgs : List Str) {arg : Str} (h : isOption arg = true) :
    leading isOption (removeOption agentArgs arg) = leading isOption agentArgs := by
  induction agentArgs with
  | nil => rfl
  | cons x agentArgs ih =>
    rw [removeOption_cons]
    split
    · next hx =>
      rw [leading_eq_nil (begins_dropWhile agentArgs), leading_cons, if_pos (hx ▸ h)]
    · rw [leading_cons, leading_cons, ih]

/-- The first option of that name is taken out, and no value goes to another option. -/
theorem options_removeOption (agentArgs : List Str) {arg : Str} (h : isOption arg = true) :
    options isOption (removeOption agentArgs arg) =
      (options isOption agentArgs).eraseP fun o => decide (o.1 = arg) := by
  induction agentArgs with
  | nil => rfl
  | cons x agentArgs ih =>
    rw [removeOption_cons]
    split
    · next hx => simp [options, hx, h, options_dropWhile]
    · next hx =>
      rw [options, options, ih, leading_removeOption _ h]
      split
      · rw [List.eraseP_cons_of_neg (by simpa using hx)]
      · rfl

/-! All removals. -/

theorem filter_eraseP_self {os : List (Str × List Str)} (name : Str) :
    (os.eraseP fun o => decide (o.1 = name)).filter (fun o => decide (o.1 = name)) =
      (os.filter fun o => decide (o.1 = name)).drop 1 := by
  induction os with
  | nil => rfl
  | cons o os ih =>
    by_cases ho : o.1 = name
    · simp [ho]
    · simpa [ho] using ih

theorem filter_eraseP_of_not {os : List (Str × List Str)} {name : Str}
    {p : Str × List Str → Bool} (h : ∀ o : Str × List Str, o.1 = name → p o = false) :
    (os.eraseP fun o => decide (o.1 = name)).filter p = os.filter p := by
  induction os with
  | nil => rfl
  | cons o os ih =>
    by_cases ho : o.1 = name
    · simp [ho, h o ho]
    · simp [ho, List.filter_cons, ih]

/-- As many options of a name are taken out as the name is given. -/
theorem filter_removed {names : List Str} (hnames : ∀ name ∈ names, isOption name = true)
    (processArgs : List Str) (name : Str) :
    (options isOption (names.foldl removeOption processArgs)).filter
        (fun o => decide (o.1 = name)) =
      ((options isOption processArgs).filter fun o => decide (o.1 = name)).drop
        (names.count name) := by
  induction names generalizing processArgs with
  | nil => rfl
  | cons n names ih =>
    rw [List.forall_mem_cons] at hnames
    rw [List.foldl_cons, ih hnames.2, options_removeOption _ hnames.1]
    rcases eq_or_ne n name with rfl | hne
    · rw [filter_eraseP_self, List.drop_drop, List.count_cons_self, Nat.add_comm]
    · rw [filter_eraseP_of_not fun o ho => by simp [ho, hne], List.count_cons_of_ne hne]

theorem filter_others {names : List Str} (hnames : ∀ name ∈ names, isOption name = true)
    (processArgs : List Str) {p : Str × List Str → Bool}
    (h : ∀ o : Str × List Str, o.1 ∈ names → p o = false) :
    (options isOption (names.foldl removeOption processArgs)).filter p =
      (options isOption processArgs).filter p := by
  induction names generalizing processArgs with
  | nil => rfl
  | cons n names ih =>
    rw [List.forall_mem_cons] at hnames
    rw [List.foldl_cons, ih hnames.2 _ fun o ho => h o (List.mem_cons_of_mem _ ho),
      options_removeOption _ hnames.1,
      filter_eraseP_of_not fun o ho => h o (ho ▸ List.mem_cons_self)]

theorem length_filter_options (processArgs : List Str) {name : Str} (h : isOption name = true) :
    ((options isOption processArgs).filter fun o => decide (o.1 = name)).length =
      processArgs.count name := by
  have hcount : ((options isOption processArgs).map Prod.fst).count name =
      processArgs.count name := by
    rw [names_options, List.count_filter h]
  rw [← hcount, List.count, List.countP_map, List.countP_eq_length_filter]
  congr 1
  exact List.filter_congr fun o _ => by simp [Bool.beq_eq_decide_eq]

theorem overrides_iff (processArgs : List Str) {args : List Str}
    (hbegins : BeginsWithName isOption args) :
    Overrides processArgs args (extendedArgs processArgs args) ↔
      ∀ name ∈ args, isOption name = true → processArgs.count name ≤ args.count name := by
  have hnames : ∀ name ∈ args.filter isOption, isOption name = true := fun name h =>
    (List.mem_filter.mp h).2
  have hoptions : options isOption (extendedArgs processArgs args) =
      options isOption ((args.filter isOption).foldl removeOption processArgs) ++
        options isOption args := options_append hbegins
  have hgiven : ∀ name, isOption name = true →
      ((options isOption (extendedArgs processArgs args)).filter
          (fun o => decide (o.1 = name)) =
        (options isOption args).filter (fun o => decide (o.1 = name)) ↔
          processArgs.count name ≤ args.count name) := by
    intro name hname
    rw [hoptions, List.filter_append, filter_removed hnames, List.count_filter hname,
      ← length_filter_options processArgs hname, ← List.drop_eq_nil_iff]
    exact List.append_left_eq_self
  have hkept : (options isOption (extendedArgs processArgs args)).filter
        (fun o => !args.contains o.1) =
      (options isOption processArgs).filter fun o => !args.contains o.1 := by
    have hnone : (options isOption args).filter (fun o => !args.contains o.1) = [] := by
      refine List.filter_eq_nil_iff.mpr fun o ho => ?_
      have hmem : o.1 ∈ args.filter isOption := names_options args ▸ List.mem_map_of_mem ho
      simpa using (List.mem_filter.mp hmem).1
    rw [hoptions, List.filter_append, hnone, List.append_nil]
    exact filter_others hnames processArgs fun o ho => by simpa using (List.mem_filter.mp ho).1
  constructor
  · exact fun h name hmem hname => (hgiven name hname).mp (h.given name hmem hname)
  · exact fun h => ⟨fun name hmem hname => (hgiven name hname).mpr (h name hmem hname), hkept⟩

/-! The arguments of the route. -/

theorem isOption_dashes (name : Str) : isOption (dashes name) = true :=
  decide_eq_true (List.prefix_append _ _)

theorem begins_append {args more : List Str} (h : BeginsWithName isOption args)
    (hmore : BeginsWithName isOption more) : BeginsWithName isOption (args ++ more) := by
  cases args with
  | nil => exact hmore
  | cons x args => exact h

/-- Lists that begin with an option, put together, begin with an option. -/
theorem begins_flatMap {α : Type*} {f : α → List Str} {l : List α}
    (h : ∀ a ∈ l, BeginsWithName isOption (f a)) : BeginsWithName isOption (l.flatMap f) := by
  induction l with
  | nil => exact fun x hx => absurd hx (by simp)
  | cons a l ih =>
    rw [List.forall_mem_cons] at h
    exact begins_append h.1 (ih h.2)

theorem begins_cons {name : Str} (h : isOption name = true) (args : List Str) :
    BeginsWithName isOption (name :: args) := by
  intro x hx
  obtain rfl := Option.some.inj hx
  exact h

theorem begins_startArgs (host : Host) (parameters : StartParameters) :
    BeginsWithName isOption (startArgs host parameters) := by
  refine begins_append (begins_append (begins_append ?_ ?_) ?_) ?_
  · exact begins_flatMap fun _ _ => begins_cons (by decide) _
  · exact begins_flatMap fun _ _ => begins_cons (by decide) _
  · exact begins_flatMap fun e _ => begins_cons (isOption_dashes e.1) _
  · rw [List.map_eq_flatMap]
    exact begins_flatMap fun flag _ => begins_cons (isOption_dashes flag) _

/-- The arguments given override the defaults just when each option is given at least as often
as it is among the defaults. -/
theorem start_args_override_iff (processArgs : List Str) (host : Host)
    (parameters : StartParameters) :
    Overrides processArgs (startArgs host parameters)
        (extendedArgs processArgs (startArgs host parameters)) ↔
      ∀ name ∈ startArgs host parameters, isOption name = true →
        processArgs.count name ≤ (startArgs host parameters).count name :=
  overrides_iff processArgs (begins_startArgs host parameters)

def localHost : Host where
  agentPort
    | .http => "9021"
    | .ws => "9022"
  agentEndpoint
    | .http => "http://localhost:9021"
    | .ws => "ws://localhost:9022"

/-- The route is given one plugin and leaves two of the three default ones. -/
theorem plugins_left_over :
    let processArgs : List Str := ["aca-py", "start", "--label", "acme", "--plugin",
      "connections", "--plugin", "issue_credential", "--plugin", "present_proof"]
    let parameters : StartParameters := ⟨some [], some [], [("plugin", "redis_queue")], none⟩
    extendedArgs processArgs (startArgs localHost parameters) = ["aca-py", "start", "--label",
      "acme", "--plugin", "issue_credential", "--plugin", "present_proof", "--plugin",
      "redis_queue"] ∧
    ¬ Overrides processArgs (startArgs localHost parameters)
      (extendedArgs processArgs (startArgs localHost parameters)) := by
  refine ⟨by decide, fun overrides => ?_⟩
  have hgiven := overrides.given "--plugin" (by decide) (by decide)
  revert hgiven
  decide

end AgentTestHarness.StartArgs
