import AgentTestHarness.AgentArgs
import AgentTestHarness.NestedLists

/-! The command line of the ACA-Py process: the words of the command and the arguments of the agent,
flattened from the lists and tuples in which they are put together. -/
namespace AgentTestHarness.ProcessArgs
open PyText PyJson NestedLists CommandLine
open AgentArgs (Item Setting ConfigFile Group pair getAgentArgs defaultArgs groups isOption)

section Flatten

variable {α : Type*}

mutual
def flattenArg : Nested α → List (Nested α)
  | .leaf a => [.leaf a]
  | .list xs => flatten xs
  | .tuple xs => flatten xs
/-- What `flatten` yields. -/
def flatten : List (Nested α) → List (Nested α)
  | [] => []
  | arg :: args => flattenArg arg ++ flatten args
end

mutual
theorem flattenArg_eq : (arg : Nested α) → flattenArg arg = (leavesIn arg).map fun l => .leaf l.2
  | .leaf _ => rfl
  | .list xs => flatten_eq xs
  | .tuple xs => flatten_eq xs
/-- The leaves are yielded from left to right, and nothing else. -/
theorem flatten_eq : (args : List (Nested α)) →
    flatten args = (leaves args).map fun l => .leaf l.2
  | [] => rfl
  | arg :: args => by
    rw [flatten, leaves, flattenArg_eq arg, flatten_eq args, List.map_append, List.map_map,
      List.map_map]
    rfl
end

theorem flatten_append (xs ys : List (Nested α)) : flatten (xs ++ ys) = flatten xs ++ flatten ys := by
  induction xs with
  | nil => rfl
  | cons x xs ih => rw [List.cons_append, flatten, flatten, ih, List.append_assoc]

theorem flatten_leaves (as : List α) : flatten (as.map Nested.leaf) = as.map .leaf := by
  induction as with
  | nil => rfl
  | cons a as ih => rw [List.map_cons, flatten, ih]; rfl

theorem flatten_flatten (args : List (Nested α)) : flatten (flatten args) = flatten args := by
  have hleaves : flatten args = ((leaves args).map Prod.snd).map Nested.leaf := by
    rw [flatten_eq, List.map_map]
    rfl
  rw [hleaves, flatten_leaves]

end Flatten

/-! The process. -/

mutual
def ofValue : Json → Nested Json
  | .arr xs => .list (ofValues xs)
  | x => .leaf x
def ofValues : List Json → List (Nested Json)
  | [] => []
  | x :: xs => ofValue x :: ofValues xs
end

def ofItem : Item → Nested Json
  | .text s => .leaf (.str s)
  | .tuple xs => .tuple (ofValues xs)

def defaultBinPath (runMode : Option Str) : Str :=
  if runMode = some "docker" ∨ runMode = some "pwd" then "./bin" else "../venv/bin"

/-- `os.path.join` of a path and the name of a file. -/
def join (path name : Str) : Str :=
  if path.getLast? = some (.ch '/') then path ++ name else path ++ ("/" : Str) ++ name

def cmdPath (runMode binPath : Option Str) : Str :=
  let binPath := binPath.getD (defaultBinPath runMode)
  if binPath = [] then "aca-py" else join binPath "aca-py"

/-- Up to version 0.5.6 the script is run by the interpreter. -/
def commandWords (provisions : Bool) (cmdPath : Str) : List Json :=
  if provisions then [.str cmdPath, .str "start"]
  else [.str "python3", .str cmdPath, .str "start"]

def getProcessArgs (runMode : Option Str) (s : Setting) (config : Option ConfigFile)
    (binPath : Option Str) : Except PyError (List (Nested Json)) := do
  let words := commandWords s.provisions (cmdPath runMode binPath)
  let agentArgs ← getAgentArgs s config
  pure (flatten [.list (words.map .leaf), .list (agentArgs.map ofItem)])

/-- What is put behind the default arguments. -/
def fileArgs : Option ConfigFile → List Item
  | none => []
  | some file => [pair "--arg-file" (.str file.path)]

mutual
theorem leavesIn_ofValue : (x : Json) →
    (leavesIn (ofValue x)).map Prod.snd = AgentArgs.flattenValue x
  | .arr xs => leaves_ofValues xs
  | .null | .bool _ | .int _ | .float _ | .str _ | .obj _ => rfl
theorem leaves_ofValues : (xs : List Json) →
    (leaves (ofValues xs)).map Prod.snd = AgentArgs.flattenValues xs
  | [] => rfl
  | x :: xs => by
    rw [AgentArgs.flattenValues, ← leavesIn_ofValue x, ← leaves_ofValues xs, ofValues, leaves,
      List.map_append, List.map_map, List.map_map]
    rfl
end

theorem leavesIn_ofItem (e : Item) : (leavesIn (ofItem e)).map Prod.snd = e.flatten := by
  cases e with
  | text s => rfl
  | tuple xs => exact leaves_ofValues xs

/-- The words of the command are followed by those of each argument in turn. -/
theorem flatten_process (words : List Json) (agentArgs : List Item) :
    flatten [.list (words.map .leaf), .list (agentArgs.map ofItem)] =
      (words ++ AgentArgs.flatten agentArgs).map .leaf := by
  have hwords : flattenArg (.list (words.map .leaf)) = words.map Nested.leaf :=
    flatten_leaves words
  have hargs : flatten (agentArgs.map ofItem) = (AgentArgs.flatten agentArgs).map .leaf := by
    induction agentArgs with
    | nil => rfl
    | cons e es ih =>
      have hcons : AgentArgs.flatten (e :: es) = e.flatten ++ AgentArgs.flatten es := rfl
      rw [List.map_cons, flatten, ih, flattenArg_eq, hcons, List.map_append, ← leavesIn_ofItem,
        List.map_map]
      rfl
  have hlist : flattenArg (.list (agentArgs.map ofItem)) = flatten (agentArgs.map ofItem) := rfl
  rw [flatten, flatten, flatten, hwords, hlist, hargs, List.append_nil, List.map_append]

/-- Some of the default arguments are kept, in their order, and with them every value that is an
element of its own. -/
theorem getAgentArgs_eq {s : Setting} {config : Option ConfigFile} {agentArgs : List Item}
    (h : getAgentArgs s config = .ok agentArgs) : ∃ kept : Item → Bool,
      agentArgs = (defaultArgs s).filter kept ++ fileArgs config ∧
        ∀ g ∈ groups s, ∀ v ∈ g.values, kept (.text v) = true := by
  have hall : (defaultArgs s).filter (fun _ => true) = defaultArgs s := List.filter_true _
  cases config with
  | none =>
    obtain rfl := Except.ok.inj h
    exact ⟨fun _ => true, by rw [hall, fileArgs, List.append_nil], fun _ _ _ _ => rfl⟩
  | some file =>
    obtain ⟨result, hread, h⟩ := bind_eq_ok h
    obtain rfl := Except.ok.inj h
    rcases hdata : file.data with keys | _ | _
    · rw [hdata, AgentArgs.readConfig] at hread
      obtain ⟨ks, -, rfl⟩ := AgentArgs.foldlM_removeKey hread
      obtain ⟨kept, heq, hkept⟩ := AgentArgs.foldl_removeItem ks (defaultArgs s)
      refine ⟨kept, by rw [heq]; rfl, fun g hg v hv => ?_⟩
      exact (hkept _ (AgentArgs.value_mem hg hv)).mpr
        (AgentArgs.not_removed_value ((AgentArgs.groups_wellFormed hg).values v hv))
    · rw [hdata] at hread
      cases hread
    · rw [hdata] at hread
      obtain rfl := Except.ok.inj hread
      exact ⟨fun _ => true, by rw [hall]; rfl, fun _ _ _ _ => rfl⟩

/-- Flattening yields the leaves in their order, one list after the other, and changes nothing
more. So the line of the process is that of the command with the leaves of each agent argument
in turn: the name of each option that is kept is directly before its own values, whether these
are with it in a tuple or are elements of their own. -/
theorem process_args_flattened {α : Type*} :
    (∀ args : List (Nested α), flatten args = (leaves args).map (fun l => .leaf l.2) ∧
      (leaves args).Pairwise (fun l m => l.1 < m.1) ∧
        ∀ place a, (place, a) ∈ leaves args ↔ leafAt args place = some a) ∧
    (∀ xs ys : List (Nested α), flatten (xs ++ ys) = flatten xs ++ flatten ys) ∧
    (∀ args : List (Nested α), flatten (flatten args) = flatten args) ∧
    ∀ runMode s config binPath agentArgs, getAgentArgs s config = .ok agentArgs →
      getProcessArgs runMode s config binPath =
        .ok ((commandWords s.provisions (cmdPath runMode binPath) ++
          agentArgs.flatMap Item.flatten).map .leaf) ∧
      ∃ kept : Item → Bool, agentArgs = (defaultArgs s).filter kept ++ fileArgs config ∧
        agentArgs.flatMap Item.flatten =
          ((groups s).flatMap fun g => (if kept g.head then g.head.flatten else []) ++
            g.values.map .str) ++ (fileArgs config).flatMap Item.flatten ∧
        ∀ g ∈ groups s, g.WellFormed := by
  refine ⟨fun args => ⟨flatten_eq args, pairwise_leaves args, fun _ _ => mem_leaves args⟩,
    flatten_append, flatten_flatten, ?_⟩
  intro runMode s config binPath agentArgs h
  refine ⟨?_, ?_⟩
  · rw [getProcessArgs, h]
    exact congrArg Except.ok (flatten_process _ _)
  · obtain ⟨kept, rfl, hvalues⟩ := getAgentArgs_eq h
    refine ⟨kept, rfl, ?_, fun g hg => AgentArgs.groups_wellFormed hg⟩
    have hgroups := AgentArgs.left_groups hvalues
    rw [AgentArgs.flatten, ← AgentArgs.defaultArgs_eq] at hgroups
    rw [List.flatMap_append, hgroups]
    rfl

theorem process_args_flattened_plain :
    getProcessArgs none AgentArgs.plainSetting none none =
      .ok (([Json.str "../venv/bin/aca-py", Json.str "start"] ++
        (defaultArgs AgentArgs.plainSetting).flatMap Item.flatten).map .leaf) :=
  ((@process_args_flattened Str).2.2.2 none AgentArgs.plainSetting none none
    (defaultArgs AgentArgs.plainSetting) rfl).1

end AgentTestHarness.ProcessArgs
