import Mathlib.Data.List.Infix
import AgentTestHarness.PyText

/-! The loop with which the manage script parses the options of `run`, `start`, `test` and
`dry-run`. A `shift 2` before the last argument shifts nothing, so an option whose value is missing
is parsed over and over again. -/
namespace AgentTestHarness.ManageOptions
open PyText

inductive Var
  | acme | bob | faber | mallory
  | report | reportErrorType | shutdownAgents | tags | aipConfig | behaveIni | useNgrok
  | acmeEndpoint | bobEndpoint | faberEndpoint | malloryEndpoint
  deriving DecidableEq

/-- The variables of the shell; one that is not set is empty. -/
abbrev Env := Var → Text

def Env.export (env : Env) (x : Var) (value : Text) : Env := Function.update env x value

/-- What is set before the loop. -/
def initial (env : Env) : Env :=
  ((((((env.export .acme "none".toList).export .bob "none".toList).export .faber
    "none".toList).export .mallory "none".toList).export .tags []).export .behaveIni
      "aries-test-harness/behave.ini".toList).export .shutdownAgents "true".toList

/-- `shift n`, which fails and does nothing when there are fewer arguments. -/
def shift (n : ℕ) (args : List Text) : List Text := if n ≤ args.length then args.drop n else args

/-- What is done at an argument: an option takes a value or not, the end of the options is behind
the argument or before it. -/
inductive Branch
  | usage
  | value (set : Env → Text → Env)
  | flag (set : Env → Env)
  | endOfOptions
  | invalid
  | other

def branch (arg : Text) : Branch :=
  if arg = "-h".toList then .usage
  else if arg = "-a".toList then .value fun env v => env.export .acme v
  else if arg = "-b".toList then .value fun env v => env.export .bob v
  else if arg = "-f".toList then .value fun env v => env.export .faber v
  else if arg = "-m".toList then .value fun env v => env.export .mallory v
  else if arg = "-r".toList then .value fun env v => env.export .report v
  else if arg = "-e".toList then .value fun env v => env.export .reportErrorType v
  else if arg = "-d".toList then .value fun env v =>
    (((env.export .acme v).export .bob v).export .faber v).export .mallory v
  else if arg = "-nohup".toList then .flag fun env => env.export .shutdownAgents "false".toList
  else if arg = "-t".toList then .value fun env v =>
    env.export .tags (env .tags ++ " --tags=".toList ++ v)
  else if arg = "-v".toList then .value fun env v => env.export .aipConfig v
  else if arg = "-i".toList then .value fun env v => env.export .behaveIni v
  else if arg = "-n".toList then .flag fun env => env.export .useNgrok "true".toList
  else if arg = "--aep".toList then .value fun env v => env.export .acmeEndpoint v
  else if arg = "--bep".toList then .value fun env v => env.export .bobEndpoint v
  else if arg = "--fep".toList then .value fun env v => env.export .faberEndpoint v
  else if arg = "--mep".toList then .value fun env v => env.export .malloryEndpoint v
  else if arg = "--".toList then .endOfOptions
  else if arg.head? = some '-' then .invalid
  else .other

/-- The script exits with the usage text, after the invalid option if that was the reason, or goes
on with the arguments that are left. -/
inductive Outcome
  | usage (invalid : Option Text)
  | left (env : Env) (args : List Text)

/-- The loop, as far as the fuel goes. -/
def parseOptions : (fuel : ℕ) → Env → List Text → Option Outcome
  | 0, _, _ => none
  | _ + 1, env, [] => some (.left env [])
  | fuel + 1, env, arg :: args => match branch arg with
    | .usage => some (.usage none)
    | .value set => parseOptions fuel (set env (args.headD [])) (shift 2 (arg :: args))
    | .flag set => parseOptions fuel (set env) (shift 1 (arg :: args))
    | .endOfOptions => some (.left env (shift 1 (arg :: args)))
    | .invalid => some (.usage (some arg))
    | .other => some (.left env (arg :: args))

/-- The loop ends with the usage text or with a rest of the arguments. -/
def Ends (env : Env) (args : List Text) : Prop :=
  ∃ fuel outcome, parseOptions fuel env args = some outcome ∧
    ∀ env' rest, outcome = .left env' rest → rest <:+ args

def TakesValue (arg : Text) : Prop := ∃ set, branch arg = .value set

def IsFlag (arg : Text) : Prop := ∃ set, branch arg = .flag set

/-- Flags, and options with their values. -/
inductive Options : List Text → Prop
  | nil : Options []
  | flag {arg : Text} {args : List Text} (h : IsFlag arg) (rest : Options args) :
      Options (arg :: args)
  | value {arg v : Text} {args : List Text} (h : TakesValue arg) (rest : Options args) :
      Options (arg :: v :: args)

/-- The value of the last option is missing. -/
def Truncated (args : List Text) : Prop :=
  ∃ before name, args = before ++ [name] ∧ Options before ∧ TakesValue name

theorem shift_cons (arg : Text) (args : List Text) : shift 1 (arg :: args) = args := by
  simp [shift]

theorem shift_cons_cons (arg v : Text) (args : List Text) : shift 2 (arg :: v :: args) = args := by
  simp [shift]

theorem shift_two_singleton (arg : Text) : shift 2 [arg] = [arg] := by
  simp [shift]

/-- An option that takes a value is parsed for ever where it is the last argument. -/
theorem parseOptions_singleton {name : Text} (h : TakesValue name) (fuel : ℕ) (env : Env) :
    parseOptions fuel env [name] = none := by
  obtain ⟨set, hset⟩ := h
  induction fuel generalizing env with
  | zero => rfl
  | succ fuel ih =>
    simp only [parseOptions, hset, shift_two_singleton]
    exact ih _

theorem parseOptions_of_truncated {args : List Text} (h : Truncated args) (fuel : ℕ) (env : Env) :
    parseOptions fuel env args = none := by
  obtain ⟨before, name, rfl, hbefore, hname⟩ := h
  induction hbefore generalizing fuel env with
  | nil => exact parseOptions_singleton hname fuel env
  | flag h rest ih =>
    obtain ⟨set, hset⟩ := h
    cases fuel with
    | zero => rfl
    | succ fuel =>
      simp only [List.cons_append, parseOptions, hset, shift_cons]
      exact ih fuel _
  | value h rest ih =>
    obtain ⟨set, hset⟩ := h
    cases fuel with
    | zero => rfl
    | succ fuel =>
      simp only [List.cons_append, parseOptions, hset, shift_cons_cons]
      exact ih fuel _

theorem truncated_of_flag {arg : Text} {args : List Text} (h : IsFlag arg)
    (htruncated : Truncated args) : Truncated (arg :: args) := by
  obtain ⟨before, name, rfl, hbefore, hname⟩ := htruncated
  exact ⟨arg :: before, name, rfl, .flag h hbefore, hname⟩

theorem truncated_of_value {arg v : Text} {args : List Text} (h : TakesValue arg)
    (htruncated : Truncated args) : Truncated (arg :: v :: args) := by
  obtain ⟨before, name, rfl, hbefore, hname⟩ := htruncated
  exact ⟨arg :: v :: before, name, rfl, .value h hbefore, hname⟩

/-- Each round takes at least one of the arguments, unless the last value is missing. -/
theorem parseOptions_of_length_lt {args : List Text} (h : ¬ Truncated args) {fuel : ℕ}
    (hfuel : args.length < fuel) (env : Env) :
    ∃ outcome, parseOptions fuel env args = some outcome ∧
      ∀ env' rest, outcome = .left env' rest → rest <:+ args := by
  induction fuel generalizing args env with
  | zero => omega
  | succ fuel ih =>
    cases args with
    | nil =>
      refine ⟨_, rfl, fun env' rest heq => ?_⟩
      obtain ⟨-, rfl⟩ := Outcome.left.inj heq
      exact List.suffix_rfl
    | cons arg args =>
      rw [List.length_cons] at hfuel
      cases hbranch : branch arg with
      | usage => exact ⟨_, by simp only [parseOptions, hbranch]; rfl, by simp⟩
      | value set =>
        cases args with
        | nil => exact absurd ⟨[], arg, rfl, .nil, set, hbranch⟩ h
        | cons v args =>
          rw [List.length_cons] at hfuel
          have hrest : ¬ Truncated args := fun hr => h (truncated_of_value ⟨set, hbranch⟩ hr)
          obtain ⟨outcome, hrun, hsuffix⟩ := ih hrest (by omega) (set env v)
          refine ⟨outcome, ?_, fun env' rest heq => ?_⟩
          · simp only [parseOptions, hbranch, shift_cons_cons]
            exact hrun
          · exact (hsuffix env' rest heq).trans (List.suffix_append [arg, v] args)
      | flag set =>
        have hrest : ¬ Truncated args := fun hr => h (truncated_of_flag ⟨set, hbranch⟩ hr)
        obtain ⟨outcome, hrun, hsuffix⟩ := ih hrest (by omega) (set env)
        refine ⟨outcome, ?_, fun env' rest heq => ?_⟩
        · simp only [parseOptions, hbranch, shift_cons]
          exact hrun
        · exact (hsuffix env' rest heq).trans (List.suffix_cons arg args)
      | endOfOptions =>
        refine ⟨_, by simp only [parseOptions, hbranch]; rfl, fun env' rest heq => ?_⟩
        obtain ⟨-, rfl⟩ := Outcome.left.inj heq
        rw [shift_cons]
        exact List.suffix_cons arg args
      | invalid => exact ⟨_, by simp only [parseOptions, hbranch]; rfl, by simp⟩
      | other =>
        refine ⟨_, by simp only [parseOptions, hbranch]; rfl, fun env' rest heq => ?_⟩
        obtain ⟨-, rfl⟩ := Outcome.left.inj heq
        exact List.suffix_rfl

/-- The loop ends just if the value of the last option is not missing. -/
theorem options_end_iff (env : Env) (args : List Text) :
    Ends (initial env) args ↔ ¬ Truncated args := by
  constructor
  · rintro ⟨fuel, outcome, hrun, -⟩ htruncated
    rw [parseOptions_of_truncated htruncated] at hrun
    cases hrun
  · intro h
    obtain ⟨outcome, hend⟩ := parseOptions_of_length_lt h (Nat.lt_succ_self _) (initial env)
    exact ⟨_, outcome, hend⟩

/-- The script called as `manage run -a`. -/
theorem missing_value_never_ends : ¬ ∀ (env : Env) (args : List Text), Ends (initial env) args := by
  intro h
  obtain ⟨fuel, outcome, hrun, -⟩ := h (fun _ => []) ["-a".toList]
  have hname : TakesValue "-a".toList := ⟨_, rfl⟩
  rw [parseOptions_singleton hname] at hrun
  cases hrun

end AgentTestHarness.ManageOptions
