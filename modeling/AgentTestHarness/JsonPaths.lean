import AgentTestHarness.PyJson

/-! Places in a tree of nested objects, named by the keys on the way to them, and what is the same
in two trees except at some places. -/
namespace AgentTestHarness.JsonPaths
open PyText OrderedDict PyJson

abbrev Path := List Str

def valueAt : Path → Json → Option Json
  | [], j => some j
  | key :: path, .obj ms => (lookup key ms).bind (valueAt path)
  | _ :: _, _ => none

/-- A value without what an object holds. -/
def head : Json → Json
  | .obj _ => .obj []
  | j => j

def headAt (path : Path) (j : Json) : Option Json := (valueAt path j).map head

/-- Everything is the same, except at the paths and below them. -/
def SameExcept (paths : List Path) (j j' : Json) : Prop :=
  ∀ path, (∀ p ∈ paths, ¬ p <+: path) → headAt path j = headAt path j'

def IsObjectAt (path : Path) (j : Json) : Prop := headAt path j = some (.obj [])

instance (path : Path) (j : Json) : Decidable (IsObjectAt path j) :=
  inferInstanceAs (Decidable (_ = _))

/-- `j[k1]...[kn][key] = value` -/
def setItem : Path → Str → Json → Json → Except PyError Json
  | [], key, value, .obj ms => .ok (.obj (assign key value ms))
  | k :: ks, key, value, .obj ms => do
    let inner ← (Json.obj ms).item k
    let inner ← setItem ks key value inner
    pure (.obj (assign k inner ms))
  | _, _, _, _ => .error .typeError

/-! Heads. -/

theorem headAt_cons (key : Str) (path : Path) (ms : List (Str × Json)) :
    headAt (key :: path) (.obj ms) = (lookup key ms).bind (headAt path) := by
  rw [headAt, valueAt]
  cases lookup key ms <;> rfl

theorem isObjectAt_iff {path : Path} {j : Json} :
    IsObjectAt path j ↔ ∃ ms, valueAt path j = some (.obj ms) := by
  unfold IsObjectAt headAt
  constructor
  · intro h
    obtain ⟨v, hv, hhead⟩ := Option.map_eq_some_iff.mp h
    cases v with
    | obj ms => exact ⟨ms, hv⟩
    | _ => cases hhead
  · rintro ⟨ms, h⟩
    rw [h]
    rfl

/-- A text is its own head. -/
theorem headAt_eq_str {path : Path} {j : Json} {s : Str} :
    headAt path j = some (.str s) ↔ valueAt path j = some (.str s) := by
  unfold headAt
  constructor
  · intro h
    obtain ⟨v, hv, hhead⟩ := Option.map_eq_some_iff.mp h
    cases v with
    | obj ms => cases hhead
    | _ => exact hv.trans (congrArg some hhead)
  · intro h
    rw [h]
    rfl

theorem headAt_eq_none {path : Path} {j : Json} : headAt path j = none ↔ valueAt path j = none :=
  Option.map_eq_none_iff

/-- A value behind a path is that of the object it stands in. -/
theorem valueAt_concat {path : Path} {key : Str} {j : Json} {ms : List (Str × Json)}
    (h : valueAt path j = some (.obj ms)) : valueAt (path ++ [key]) j = lookup key ms := by
  induction path generalizing j with
  | nil =>
    obtain rfl := Option.some.inj h
    show (lookup key ms).bind some = _
    rw [Option.bind_fun_some]
  | cons k path ih =>
    cases j with
    | obj ns =>
      rw [valueAt] at h
      obtain ⟨inner, hinner, h⟩ := Option.bind_eq_some_iff.mp h
      rw [List.cons_append, valueAt, hinner]
      exact ih h
    | _ => cases h

theorem isObjectAt_of_valueAt_concat {path : Path} {key : Str} {j v : Json}
    (h : valueAt (path ++ [key]) j = some v) : IsObjectAt path j := by
  induction path generalizing j with
  | nil =>
    cases j with
    | obj ms => rfl
    | _ => cases h
  | cons k path ih =>
    cases j with
    | obj ms =>
      rw [List.cons_append, valueAt] at h
      obtain ⟨inner, hinner, h⟩ := Option.bind_eq_some_iff.mp h
      rw [IsObjectAt, headAt_cons, hinner]
      exact ih h
    | _ => cases h

/-- Behind a place that is not there nothing is there. -/
theorem valueAt_append_of_absent {path : Path} {j : Json} (h : headAt path j = none) (rest : Path) :
    valueAt (path ++ rest) j = none := by
  induction path generalizing j with
  | nil => cases h
  | cons key path ih =>
    cases j with
    | obj ms =>
      rw [headAt_cons] at h
      rw [List.cons_append, valueAt]
      cases hinner : lookup key ms with
      | none => rfl
      | some inner =>
        rw [hinner] at h
        exact ih h
    | _ => rfl

/-! Trees that are the same except at some places. -/

namespace SameExcept

variable {paths paths' : List Path} {j j' j'' : Json}

theorem refl (paths : List Path) (j : Json) : SameExcept paths j j := fun _ _ => rfl

theorem mono (h : SameExcept paths j j') (hsub : paths ⊆ paths') : SameExcept paths' j j' :=
  fun path hpath => h path fun p hp => hpath p (hsub hp)

theorem trans (h : SameExcept paths j j') (h' : SameExcept paths' j' j'') :
    SameExcept (paths ++ paths') j j'' := fun path hpath =>
  (h path fun p hp => hpath p (List.mem_append_left _ hp)).trans
    (h' path fun p hp => hpath p (List.mem_append_right _ hp))

theorem str_iff (h : SameExcept paths j j') {path : Path} (hpath : ∀ p ∈ paths, ¬ p <+: path)
    {s : Str} : valueAt path j = some (.str s) ↔ valueAt path j' = some (.str s) := by
  rw [← headAt_eq_str, h path hpath, headAt_eq_str]

theorem assign (key : Str) (value : Json) (ms : List (Str × Json)) :
    SameExcept [[key]] (.obj ms) (.obj (OrderedDict.assign key value ms)) := by
  intro path hpath
  cases path with
  | nil => rfl
  | cons k path =>
    have hne : k ≠ key := by
      rintro rfl
      exact hpath [k] List.mem_cons_self (List.cons_prefix_cons.mpr ⟨rfl, List.nil_prefix⟩)
    rw [headAt_cons, headAt_cons, lookup_assign_ne hne]

theorem within {key : Str} {inner inner' : Json} {ms : List (Str × Json)}
    (hinner : lookup key ms = some inner) (h : SameExcept paths inner inner') :
    SameExcept (paths.map (key :: ·)) (.obj ms) (.obj (OrderedDict.assign key inner' ms)) := by
  intro path hpath
  cases path with
  | nil => rfl
  | cons k path =>
    by_cases hk : k = key
    · subst hk
      rw [headAt_cons, headAt_cons, lookup_assign_self, hinner]
      refine h path fun p hp hprefix => ?_
      exact hpath (k :: p) (List.mem_map_of_mem hp) (List.cons_prefix_cons.mpr ⟨rfl, hprefix⟩)
    · rw [headAt_cons, headAt_cons, lookup_assign_ne hk]

end SameExcept

/-- An assignment into an object that is there. -/
theorem setItem_eq_ok {path : Path} {j : Json} (h : IsObjectAt path j) (key : Str) (value : Json) :
    ∃ j', setItem path key value j = .ok j' ∧ SameExcept [path ++ [key]] j j' ∧
      valueAt (path ++ [key]) j' = some value := by
  induction path generalizing j with
  | nil =>
    obtain ⟨ms, hms⟩ := isObjectAt_iff.mp h
    obtain rfl := Option.some.inj hms
    refine ⟨_, rfl, .assign key value ms, ?_⟩
    show (lookup key (OrderedDict.assign key value ms)).bind some = _
    rw [lookup_assign_self]
    rfl
  | cons k path ih =>
    cases j with
    | obj ms =>
      unfold IsObjectAt at h
      rw [headAt_cons] at h
      obtain ⟨inner, hinner, hobject⟩ := Option.bind_eq_some_iff.mp h
      obtain ⟨inner', hset, hsame, hvalue⟩ := ih hobject
      refine ⟨.obj (OrderedDict.assign k inner' ms), ?_, hsame.within hinner, ?_⟩
      · rw [setItem, Json.item_of_lookup hinner]
        simp only [bind, Except.bind, hset]
        rfl
      · rw [List.cons_append, valueAt, lookup_assign_self]
        exact hvalue
    | _ => cases h

end AgentTestHarness.JsonPaths
