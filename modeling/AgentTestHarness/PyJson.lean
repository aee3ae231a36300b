import AgentTestHarness.OrderedDict
import AgentTestHarness.PyText
import Mathlib.Data.Int.Notation
import Mathlib.Logic.Basic

/-! JSON values as Python holds them: an object is an insertion-ordered dictionary, and
reading a value of the wrong shape raises the exception Python raises. -/
namespace AgentTestHarness.PyJson
open PyText OrderedDict

/-- A float is kept as its literal. -/
inductive Json
  | null
  | bool (b : Bool)
  | int (n : ℤ)
  | float (literal : Text)
  | str (s : Str)
  | arr (items : List Json)
  | obj (members : List (Str × Json))
  deriving Repr

inductive PyError
  | keyError
  | indexError
  | typeError
  | attributeError
  | unboundLocalError
  | jsonDecodeError
  | timeoutError
  | exception (message : String)
  deriving DecidableEq, Repr

theorem bind_eq_ok {ε α β : Type} {x : Except ε α} {f : α → Except ε β} {b : β}
    (h : x >>= f = .ok b) : ∃ a, x = .ok a ∧ f a = .ok b := by
  cases x with
  | ok a => exact ⟨a, rfl, h⟩
  | error e => cases h

/-- `xs[n]` of a list. -/
def nth {α : Type} (xs : List α) (n : ℕ) : Except PyError α :=
  match xs[n]? with
  | some x => .ok x
  | none => .error .indexError

theorem nth_eq_ok {α : Type} {xs : List α} {n : ℕ} {x : α} :
    nth xs n = .ok x ↔ xs[n]? = some x := by
  unfold nth
  cases xs[n]? <;> simp

theorem mapM_eq_map {ε α β : Type} {f : α → Except ε β} {g : α → β} {l : List α}
    (h : ∀ a ∈ l, f a = .ok (g a)) : l.mapM f = .ok (l.map g) := by
  induction l with
  | nil => rfl
  | cons a l ih =>
    rw [List.mapM_cons, h a List.mem_cons_self, ih fun b hb => h b (List.mem_cons_of_mem _ hb)]
    rfl

theorem mem_of_mapM {ε α β : Type} {f : α → Except ε β} {xs : List α} {ys : List β}
    (h : xs.mapM f = .ok ys) : ∀ y ∈ ys, ∃ x ∈ xs, f x = .ok y := by
  induction xs generalizing ys with
  | nil =>
    obtain rfl := Except.ok.inj h
    exact fun y hy => absurd hy List.not_mem_nil
  | cons x xs ih =>
    rw [List.mapM_cons] at h
    obtain ⟨y, hy, h⟩ := bind_eq_ok h
    obtain ⟨rest, hrest, h⟩ := bind_eq_ok h
    obtain rfl := Except.ok.inj h
    intro z hz
    rcases List.mem_cons.mp hz with rfl | hz
    · exact ⟨x, List.mem_cons_self, hy⟩
    · obtain ⟨w, hw, hfw⟩ := ih hrest z hz
      exact ⟨w, List.mem_cons_of_mem _ hw, hfw⟩

namespace Json

mutual
def decEq : (a b : Json) → Decidable (a = b)
  | .null, b => match b with
    | .null => isTrue rfl
    | .bool _ | .int _ | .float _ | .str _ | .arr _ | .obj _ => isFalse (by simp)
  | .bool x, b => match b with
    | .bool y => decidable_of_iff (x = y) (by simp)
    | .null | .int _ | .float _ | .str _ | .arr _ | .obj _ => isFalse (by simp)
  | .int x, b => match b with
    | .int y => decidable_of_iff (x = y) (by simp)
    | .null | .bool _ | .float _ | .str _ | .arr _ | .obj _ => isFalse (by simp)
  | .float x, b => match b with
    | .float y => decidable_of_iff (x = y) (by simp)
    | .null | .bool _ | .int _ | .str _ | .arr _ | .obj _ => isFalse (by simp)
  | .str x, b => match b with
    | .str y => decidable_of_iff (x = y) (by simp)
    | .null | .bool _ | .int _ | .float _ | .arr _ | .obj _ => isFalse (by simp)
  | .arr xs, b => match b with
    | .arr ys => @decidable_of_iff _ (xs = ys) (by simp) (decEqItems xs ys)
    | .null | .bool _ | .int _ | .float _ | .str _ | .obj _ => isFalse (by simp)
  | .obj xs, b => match b with
    | .obj ys => @decidable_of_iff _ (xs = ys) (by simp) (decEqMembers xs ys)
    | .null | .bool _ | .int _ | .float _ | .str _ | .arr _ => isFalse (by simp)
def decEqItems : (a b : List Json) → Decidable (a = b)
  | [], [] => isTrue rfl
  | [], _ :: _ => isFalse (by simp)
  | _ :: _, [] => isFalse (by simp)
  | x :: xs, y :: ys =>
    @decidable_of_iff _ (x = y ∧ xs = ys) (by simp)
      (@instDecidableAnd _ _ (decEq x y) (decEqItems xs ys))
def decEqMembers : (a b : List (Str × Json)) → Decidable (a = b)
  | [], [] => isTrue rfl
  | [], _ :: _ => isFalse (by simp)
  | _ :: _, [] => isFalse (by simp)
  | (k, x) :: xs, (l, y) :: ys =>
    @decidable_of_iff _ ((k = l ∧ x = y) ∧ xs = ys) (by simp)
      (@instDecidableAnd _ _ (@instDecidableAnd _ _ inferInstance (decEq x y))
        (decEqMembers xs ys))
end

instance : DecidableEq Json := decEq

/-- `value[key]` for a string key. -/
def item (j : Json) (key : Str) : Except PyError Json :=
  match j with
  | .obj ms => match lookup key ms with
    | some v => .ok v
    | none => .error .keyError
  | _ => .error .typeError

/-- `value.get(key)`; Python's None is JSON's null. -/
def get (j : Json) (key : Str) : Except PyError Json :=
  match j with
  | .obj ms => .ok ((lookup key ms).getD .null)
  | _ => .error .attributeError

/-- `key in value`: a member of an object, an element of an array, a part of a string. -/
def contains (j : Json) (key : Str) : Except PyError Bool :=
  match j with
  | .obj ms => .ok (lookup key ms).isSome
  | .arr xs => .ok (xs.contains (.str key))
  | .str s => .ok (decide (key <:+: s))
  | _ => .error .typeError

theorem item_obj {ms : List (Str × Json)} {key : Str} {v : Json} :
    (Json.obj ms).item key = .ok v ↔ lookup key ms = some v := by
  cases h : lookup key ms <;> simp [item, h]

theorem item_of_lookup {ms : List (Str × Json)} {key : Str} {v : Json}
    (h : lookup key ms = some v) : (Json.obj ms).item key = .ok v := item_obj.mpr h

/-- Only objects have members. -/
theorem item_eq_ok {j v : Json} {key : Str} :
    j.item key = .ok v ↔ ∃ ms, j = .obj ms ∧ lookup key ms = some v := by
  constructor
  · intro h
    cases j with
    | obj ms => exact ⟨ms, rfl, item_obj.mp h⟩
    | _ => simp [item] at h
  · rintro ⟨ms, rfl, h⟩
    exact item_of_lookup h

theorem contains_of_lookup {ms : List (Str × Json)} {key : Str} {v : Json}
    (h : lookup key ms = some v) : (Json.obj ms).contains key = .ok true := by
  simp [contains, h]

theorem contains_of_item {j v : Json} {key : Str} (h : j.item key = .ok v) :
    j.contains key = .ok true := by
  obtain ⟨ms, rfl, hv⟩ := item_eq_ok.mp h
  exact contains_of_lookup hv

/-- The literal of a float that is zero: it has digits, and none of its mantissa is 1 to 9. -/
def floatIsZero (literal : Text) : Bool :=
  let mantissa := literal.takeWhile fun c => c != 'e' && c != 'E'
  mantissa.any (· == '0') && mantissa.all fun c => !(c.isDigit && c != '0')

def truthy : Json → Bool
  | .null => false
  | .bool b => b
  | .int n => n != 0
  | .float literal => !floatIsZero literal
  | .str s => !s.isEmpty
  | .arr xs => !xs.isEmpty
  | .obj ms => !ms.isEmpty

/-- An absent member reads as None, which is not true. -/
theorem item_of_get_truthy {j v : Json} {key : Str} (h : j.get key = .ok v)
    (hv : v.truthy = true) : j.item key = .ok v := by
  cases j with
  | obj ms =>
    cases hl : lookup key ms with
    | none =>
      obtain rfl : Json.null = v := by simpa [get, hl] using h
      exact absurd hv (by simp [truthy])
    | some w =>
      obtain rfl : w = v := by simpa [get, hl] using h
      exact item_of_lookup hl
  | _ => simp [get] at h

/-- The value as a dictionary key: a list or a dictionary is not hashable, and a bool is
the same key as its integer. -/
def asKey : Json → Except PyError Json
  | .arr _ => .error .typeError
  | .obj _ => .error .typeError
  | .bool b => .ok (.int (if b then 1 else 0))
  | j => .ok j

end Json

/-- `d[key]` of a dictionary whose keys are texts. -/
def itemOf {ν : Type} (d : List (Str × ν)) (key : Json) : Except PyError ν := do
  match ← key.asKey with
  | .str s => match lookup s d with
    | some v => .ok v
    | none => .error .keyError
  | _ => .error .keyError

theorem itemOf_str {ν : Type} {d : List (Str × ν)} {s : Str} {v : ν} (h : lookup s d = some v) :
    itemOf d (.str s) = .ok v := by
  show (match lookup s d with
    | some v => Except.ok v
    | none => .error PyError.keyError) = _
  rw [h]

end AgentTestHarness.PyJson
