import AgentTestHarness.JsonWriting
import Mathlib.Data.List.Sort

/-! The daily comparison of Allure results with the known good results (KGR). -/
namespace AgentTestHarness.SameAsYesterday
open PyText OrderedDict PyJson JsonWriting

structure Parameter where
  name : Str
  value : Str
  deriving DecidableEq

/-- What the script reads of one result; only parameterised tests carry parameters. -/
structure Result where
  fullName : Str
  name : Str
  parameters : Option (List Parameter)
  status : Str
  deriving DecidableEq

structure ResultFile where
  filename : Text
  results : Result
  deriving DecidableEq

def codePointNumber : CodePoint → ℕ
  | .ch c => c.toNat
  | .surrogate n => 0xd800 + n

/-- Python compares strings by their code points. -/
def strLe : Str → Str → Bool
  | [], _ => true
  | _ :: _, [] => false
  | c :: s, d :: t => codePointNumber c < codePointNumber d ||
      (codePointNumber c == codePointNumber d && strLe s t)

/-- `json.dumps(..., sort_keys=True)` of a dictionary of strings. -/
def dumpsSorted (d : Dict Str Str) : Text :=
  dumps (.obj ((d.entries.insertionSort fun a b => strLe a.1 b.1).map fun e => (e.1, .str e.2)))

def resultParams (parameters : List Parameter) : Dict Str Str :=
  parameters.foldl (fun params param => params.set param.name param.value) Dict.empty

/-- The key under which a result is compared: full name, name and parameters. -/
def testFullName (results : Result) : Str :=
  let fullName := results.fullName ++ (":" : Str) ++ results.name
  match results.parameters with
  | none => fullName
  | some parameters =>
      fullName ++ ("(" : Str) ++ ofText (dumpsSorted (resultParams parameters)) ++ (")" : Str)

inductive Finding
  | differs (fullName : Str)
  | kgrMissing (fullName : Str)
  deriving DecidableEq

structure Comparison where
  overallResults : Bool
  newKgrResults : Dict Str Str
  report : List Finding
  deriving DecidableEq

def isResultFile (file : ResultFile) : Bool := ".json".toList.isSuffixOf file.filename

/-- The body of the loop over the result files. -/
def compareFile (kgr : Dict Str Str) (c : Comparison) (file : ResultFile) : Comparison :=
  if isResultFile file then
    let fullName := testFullName file.results
    let status := file.results.status
    let newKgrResults := c.newKgrResults.set fullName status
    match kgr.get? fullName with
    | some known =>
        if known = status then { c with newKgrResults }
        else ⟨false, newKgrResults, c.report ++ [.differs fullName]⟩
    | none => ⟨false, newKgrResults, c.report ++ [.kgrMissing fullName]⟩
  else c

def sameAsYesterday (kgr : Dict Str Str) (files : List ResultFile) : Comparison :=
  files.foldl (compareFile kgr) ⟨true, Dict.empty, []⟩

def exitCode (c : Comparison) : ℕ := if c.overallResults then 0 else 1

/-- The results of the current run, in the order the directory lists them. -/
def currentResults (files : List ResultFile) : List Result :=
  (files.filter isResultFile).map (·.results)

/-- The run gives a test this status. -/
def Gives (files : List ResultFile) (fullName status : Str) : Prop :=
  ∃ r ∈ currentResults files, testFullName r = fullName ∧ r.status = status

/-- The known good results and the current results are the same map. -/
def SameResults (kgr : Dict Str Str) (files : List ResultFile) : Prop :=
  ∀ fullName status, kgr.get? fullName = some status ↔ Gives files fullName status

def Confirmed (kgr : Dict Str Str) (r : Result) : Prop :=
  kgr.get? (testFullName r) = some r.status

instance (kgr : Dict Str Str) (r : Result) : Decidable (Confirmed kgr r) :=
  inferInstanceAs (Decidable (_ = _))

theorem compareFile_overall (kgr : Dict Str Str) (c : Comparison) (file : ResultFile) :
    (compareFile kgr c file).overallResults = true ↔
      c.overallResults = true ∧ (isResultFile file = true → Confirmed kgr file.results) := by
  unfold compareFile Confirmed
  cases isResultFile file with
  | false => simp
  | true =>
    simp only [if_true, forall_const]
    cases kgr.get? (testFullName file.results) with
    | none => simp
    | some known =>
      rcases eq_or_ne known file.results.status with h | h
      · simp [h]
      · simp [h]

theorem foldl_overall (kgr : Dict Str Str) (files : List ResultFile) (c : Comparison) :
    (files.foldl (compareFile kgr) c).overallResults = true ↔
      c.overallResults = true ∧ ∀ r ∈ currentResults files, Confirmed kgr r := by
  induction files generalizing c with
  | nil => simp [currentResults]
  | cons file files ih =>
    rw [List.foldl_cons, ih, compareFile_overall]
    cases hf : isResultFile file with
    | false => simp [currentResults, hf]
    | true => simp [currentResults, hf, and_assoc]

/-- Success says only that every current result is in the known good results. -/
theorem exitCode_eq_zero (kgr : Dict Str Str) (files : List ResultFile) :
    exitCode (sameAsYesterday kgr files) = 0 ↔
      ∀ r ∈ currentResults files, Confirmed kgr r := by
  have overall := foldl_overall kgr files ⟨true, Dict.empty, []⟩
  simp only [true_and] at overall
  rw [← overall, exitCode, sameAsYesterday]
  split
  · next h => simp [h]
  · next h => simp [h]

/-- Equality of the maps asks in addition that no known good result is missing. -/
theorem sameResults_iff (kgr : Dict Str Str) (files : List ResultFile) :
    SameResults kgr files ↔ (∀ r ∈ currentResults files, Confirmed kgr r) ∧
      ∀ fullName ∈ kgr.keys, ∃ r ∈ currentResults files, testFullName r = fullName := by
  constructor
  · intro same
    refine ⟨fun r hr => (same _ _).mpr ⟨r, hr, rfl, rfl⟩, fun fullName hk => ?_⟩
    obtain ⟨status, hs⟩ : ∃ status, kgr.get? fullName = some status :=
      Option.ne_none_iff_exists'.mp fun h => Dict.get?_eq_none_iff.mp h hk
    obtain ⟨r, hr, hname, -⟩ := (same _ _).mp hs
    exact ⟨r, hr, hname⟩
  · rintro ⟨confirmed, present⟩ fullName status
    constructor
    · intro hs
      have hk : fullName ∈ kgr.keys := by
        by_contra h
        rw [Dict.get?_eq_none_iff.mpr h] at hs
        exact absurd hs (by simp)
      obtain ⟨r, hr, hname⟩ := present fullName hk
      have hc := confirmed r hr
      rw [Confirmed, hname, hs] at hc
      exact ⟨r, hr, hname, (Option.some.inj hc).symm⟩
    · rintro ⟨r, hr, rfl, rfl⟩
      exact confirmed r hr

/-- The exit code tells whether the maps are equal, unless all that differs is a known
good result that is missing from the run. -/
theorem exit_zero_iff_same_results_iff (kgr : Dict Str Str) (files : List ResultFile) :
    (exitCode (sameAsYesterday kgr files) = 0 ↔ SameResults kgr files) ↔
      (∀ fullName ∈ kgr.keys, ∃ r ∈ currentResults files, testFullName r = fullName) ∨
        ∃ r ∈ currentResults files, ¬ Confirmed kgr r := by
  have unconfirmed : (∃ r ∈ currentResults files, ¬ Confirmed kgr r) ↔
      ¬ ∀ r ∈ currentResults files, Confirmed kgr r := by
    simp
  rw [exitCode_eq_zero, sameResults_iff, unconfirmed]
  tauto

/-- A test that stopped running goes unnoticed. -/
theorem missing_test_passes :
    let passed (name : String) : Result := ⟨("Feature" : String), name, none, ("passed" : String)⟩
    let kgr : Dict Str Str := (Dict.empty.set ("Feature:a" : Str) ("passed" : Str)).set
      ("Feature:b" : Str) ("passed" : Str)
    let files : List ResultFile := [⟨"1-result.json".toList, passed "a"⟩]
    ¬ (exitCode (sameAsYesterday kgr files) = 0 ↔ SameResults kgr files) := by
  intro passed kgr files same
  have missing : Gives files ("Feature:b" : Str) ("passed" : Str) :=
    (same.mp (by decide) _ _).mp (by decide)
  obtain ⟨r, hr, hname, -⟩ := missing
  have ha : ∀ r ∈ currentResults files, testFullName r ≠ ("Feature:b" : Str) := by decide
  exact ha r hr hname

theorem compareFile_newKgrResults (kgr : Dict Str Str) (c : Comparison) (file : ResultFile) :
    (compareFile kgr c file).newKgrResults = if isResultFile file = true then
      c.newKgrResults.set (testFullName file.results) file.results.status
      else c.newKgrResults := by
  unfold compareFile
  split
  · dsimp only
    split
    · split <;> rfl
    · rfl
  · rfl

def record (d : Dict Str Str) (r : Result) : Dict Str Str := d.set (testFullName r) r.status

/-- The new file records the current results one after the other. -/
theorem newKgrResults_eq (kgr : Dict Str Str) (files : List ResultFile) (c : Comparison) :
    (files.foldl (compareFile kgr) c).newKgrResults =
      (currentResults files).foldl record c.newKgrResults := by
  induction files generalizing c with
  | nil => rfl
  | cons file files ih =>
    rw [List.foldl_cons, ih, compareFile_newKgrResults]
    cases hf : isResultFile file with
    | false => simp [currentResults, hf]
    | true => simp [currentResults, hf, record]

theorem foldl_record_get? {results : List Result} (h : (results.map testFullName).Nodup)
    (d : Dict Str Str) (fullName : Str) :
    (∀ r ∈ results, (results.foldl record d).get? (testFullName r) = some r.status) ∧
      (fullName ∉ results.map testFullName →
        (results.foldl record d).get? fullName = d.get? fullName) := by
  induction results generalizing d fullName with
  | nil => simp
  | cons r results ih =>
    obtain ⟨hnot, hnd⟩ := List.nodup_cons.mp h
    refine ⟨fun q hq => ?_, fun hout => ?_⟩
    · rcases List.mem_cons.mp hq with rfl | hq
      · rw [List.foldl_cons, (ih hnd _ _).2 hnot, record, Dict.get?_set_self]
      · exact (ih hnd _ fullName).1 q hq
    · rw [List.map_cons, List.mem_cons, not_or] at hout
      rw [List.foldl_cons, (ih hnd _ _).2 hout.2, record, Dict.get?_set, if_neg hout.1]

/-- Taking the new file for the known good results makes the same run pass. -/
theorem new_kgr_is_current {files : List ResultFile}
    (h : ((currentResults files).map testFullName).Nodup) (kgr : Dict Str Str) :
    SameResults (sameAsYesterday kgr files).newKgrResults files ∧
      exitCode (sameAsYesterday (sameAsYesterday kgr files).newKgrResults files) = 0 := by
  have confirmed : ∀ r ∈ currentResults files,
      Confirmed (sameAsYesterday kgr files).newKgrResults r := by
    rw [sameAsYesterday, newKgrResults_eq]
    exact (foldl_record_get? h Dict.empty []).1
  refine ⟨(sameResults_iff _ _).mpr ⟨confirmed, fun fullName hk => ?_⟩,
    (exitCode_eq_zero _ _).mpr confirmed⟩
  by_contra hout
  rw [sameAsYesterday, newKgrResults_eq] at hk
  have hnone := (foldl_record_get? h Dict.empty fullName).2 (by simpa using hout)
  exact Dict.get?_eq_none_iff.mp hnone hk

end AgentTestHarness.SameAsYesterday
