import Mathlib.Data.List.Nodup

/-! Insertion-ordered dictionaries: a key keeps its place when its value is replaced,
and a new key goes to the end. The list functions serve plain lists of members; `Dict`
adds the invariant that no key occurs twice. -/
namespace AgentTestHarness.OrderedDict

variable {κ ν : Type*} [DecidableEq κ]

/-- The value under a key: that of its first entry. -/
def lookup (k : κ) : List (κ × ν) → Option ν
  | [] => none
  | (l, v) :: es => if l = k then some v else lookup k es

def assign (k : κ) (v : ν) : List (κ × ν) → List (κ × ν)
  | [] => [(k, v)]
  | (l, w) :: es => if l = k then (l, v) :: es else (l, w) :: assign k v es

def remove (k : κ) : List (κ × ν) → List (κ × ν)
  | [] => []
  | (l, w) :: es => if l = k then es else (l, w) :: remove k es

@[simp] theorem lookup_nil (k : κ) : lookup k ([] : List (κ × ν)) = none := rfl

theorem lookup_cons (k l : κ) (v : ν) (es : List (κ × ν)) :
    lookup k ((l, v) :: es) = if l = k then some v else lookup k es := rfl

@[simp] theorem lookup_assign_self (k : κ) (v : ν) (es : List (κ × ν)) :
    lookup k (assign k v es) = some v := by
  induction es with
  | nil => simp [assign, lookup]
  | cons e es ih =>
    by_cases h : e.1 = k
    · simp [assign, lookup, h]
    · simp [assign, lookup, h, ih]

theorem lookup_assign_ne {k l : κ} (h : k ≠ l) (v : ν) (es : List (κ × ν)) :
    lookup k (assign l v es) = lookup k es := by
  induction es with
  | nil => simp [assign, lookup, h.symm]
  | cons e es ih =>
    by_cases hl : e.1 = l
    · simp [assign, lookup, hl, h.symm]
    · by_cases hk : e.1 = k
      · simp [assign, lookup, hk, h]
      · simp [assign, lookup, hl, hk, ih]

theorem lookup_assign (k l : κ) (v : ν) (es : List (κ × ν)) :
    lookup k (assign l v es) = if k = l then some v else lookup k es := by
  by_cases h : k = l
  · simp [h]
  · simp [h, lookup_assign_ne h]

theorem lookup_eq_none_iff {k : κ} {es : List (κ × ν)} :
    lookup k es = none ↔ k ∉ es.map Prod.fst := by
  induction es with
  | nil => simp
  | cons e es ih =>
    by_cases h : e.1 = k
    · simp [lookup, h]
    · simp [lookup, h, ih, Ne.symm h]

theorem mem_of_lookup {k : κ} {v : ν} {es : List (κ × ν)} (h : lookup k es = some v) :
    (k, v) ∈ es := by
  induction es with
  | nil => simp at h
  | cons e es ih =>
    rw [lookup_cons] at h
    split at h
    · next hk =>
      obtain ⟨rfl, rfl⟩ := And.intro hk (Option.some.inj h)
      exact List.mem_cons_self
    · exact List.mem_cons_of_mem _ (ih h)

theorem mem_keys_of_lookup {k : κ} {v : ν} {es : List (κ × ν)} (h : lookup k es = some v) :
    k ∈ es.map Prod.fst :=
  List.mem_map.mpr ⟨(k, v), mem_of_lookup h, rfl⟩

theorem lookup_of_mem {k : κ} {v : ν} {es : List (κ × ν)} (h : (es.map Prod.fst).Nodup)
    (hm : (k, v) ∈ es) : lookup k es = some v := by
  induction es with
  | nil => simp at hm
  | cons e es ih =>
    obtain ⟨hnot, hnodup⟩ := List.nodup_cons.mp (show (e.1 :: es.map Prod.fst).Nodup from h)
    rw [lookup_cons]
    rcases List.mem_cons.mp hm with rfl | hm
    · rw [if_pos rfl]
    · rw [if_neg, ih hnodup hm]
      rintro rfl
      exact hnot (List.mem_map.mpr ⟨_, hm, rfl⟩)

theorem keys_assign (k : κ) (v : ν) (es : List (κ × ν)) :
    (assign k v es).map Prod.fst =
      if k ∈ es.map Prod.fst then es.map Prod.fst else es.map Prod.fst ++ [k] := by
  induction es with
  | nil => simp [assign]
  | cons e es ih =>
    by_cases h : e.1 = k
    · simp [assign, h]
    · have hk : ¬ k = e.1 := fun he => h he.symm
      by_cases hm : k ∈ es.map Prod.fst
      · simp only [assign, if_neg h, List.map_cons, ih, hm, if_true, List.mem_cons, or_true]
      · simp only [assign, if_neg h, List.map_cons, ih, hm, if_false, List.mem_cons, hk, or_false,
          List.cons_append]

theorem nodup_assign {k : κ} {v : ν} {es : List (κ × ν)} (h : (es.map Prod.fst).Nodup) :
    ((assign k v es).map Prod.fst).Nodup := by
  rw [keys_assign]
  split
  · exact h
  · next hk => exact List.nodup_append.mpr ⟨h, by simp, by
      intro a ha b hb hab
      exact hk (List.mem_singleton.mp hb ▸ hab ▸ ha)⟩

theorem remove_sublist (k : κ) (es : List (κ × ν)) : (remove k es).Sublist es := by
  induction es with
  | nil => exact List.Sublist.slnil
  | cons e es ih =>
    by_cases h : e.1 = k
    · simp [remove, h]
    · simpa [remove, h] using ih.cons_cons e

theorem lookup_remove {k l : κ} {es : List (κ × ν)} (h : (es.map Prod.fst).Nodup) :
    lookup k (remove l es) = if k = l then none else lookup k es := by
  induction es with
  | nil => simp [remove]
  | cons e es ih =>
    obtain ⟨hnot, hnd⟩ := List.nodup_cons.mp (show (e.1 :: es.map Prod.fst).Nodup from h)
    by_cases hl : e.1 = l
    · subst hl
      by_cases hk : k = e.1
      · subst hk
        simpa [remove, lookup_eq_none_iff] using hnot
      · simp [remove, lookup, hk, Ne.symm hk]
    · by_cases hk : k = l
      · subst hk
        simp [remove, lookup, hl, ih hnd]
      · simp [remove, lookup, hl, ih hnd, hk]

theorem lookup_remove_ne {k l : κ} (h : k ≠ l) (es : List (κ × ν)) :
    lookup k (remove l es) = lookup k es := by
  induction es with
  | nil => rfl
  | cons e es ih =>
    by_cases hl : e.1 = l
    · have hk : e.1 ≠ k := fun hk => h (hk.symm.trans hl)
      simp [remove, lookup, hl, h.symm]
    · simp [remove, lookup, hl, ih]

/-- A dictionary: its entries in insertion order, no key twice. -/
structure Dict (κ ν : Type*) where
  entries : List (κ × ν)
  nodup : (entries.map Prod.fst).Nodup

namespace Dict

instance [DecidableEq ν] : DecidableEq (Dict κ ν) := fun a b =>
  decidable_of_iff (a.entries = b.entries) ⟨fun h => by cases a; cases b; cases h; rfl, congrArg _⟩

omit [DecidableEq κ] in
def empty : Dict κ ν := ⟨[], List.nodup_nil⟩

def get? (d : Dict κ ν) (k : κ) : Option ν := lookup k d.entries

def set (d : Dict κ ν) (k : κ) (v : ν) : Dict κ ν := ⟨assign k v d.entries, nodup_assign d.nodup⟩

def del (d : Dict κ ν) (k : κ) : Dict κ ν :=
  ⟨remove k d.entries, d.nodup.sublist ((remove_sublist k d.entries).map Prod.fst)⟩

def keys (d : Dict κ ν) : List κ := d.entries.map Prod.fst

@[simp] theorem get?_empty (k : κ) : (empty : Dict κ ν).get? k = none := rfl

theorem get?_set (d : Dict κ ν) (k l : κ) (v : ν) :
    (d.set l v).get? k = if k = l then some v else d.get? k := lookup_assign k l v d.entries

@[simp] theorem get?_set_self (d : Dict κ ν) (k : κ) (v : ν) : (d.set k v).get? k = some v := by
  simp [get?_set]

/-- What holds of every entry holds when one more that it holds of is set. -/
theorem forall_get?_set {p : κ → ν → Prop} {d : Dict κ ν} {l : κ} {v : ν}
    (hd : ∀ k w, d.get? k = some w → p k w) (hv : p l v) :
    ∀ k w, (d.set l v).get? k = some w → p k w := by
  intro k w hw
  rw [get?_set] at hw
  split at hw
  · next hkey =>
    obtain rfl := Option.some.inj hw
    exact hkey ▸ hv
  · exact hd k w hw

theorem get?_del (d : Dict κ ν) (k l : κ) :
    (d.del l).get? k = if k = l then none else d.get? k := lookup_remove d.nodup

theorem get?_eq_none_iff {d : Dict κ ν} {k : κ} : d.get? k = none ↔ k ∉ d.keys :=
  lookup_eq_none_iff

end Dict

end AgentTestHarness.OrderedDict
