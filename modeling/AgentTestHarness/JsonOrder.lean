import Mathlib.Data.List.Lex
import Mathlib.Data.List.Sort
import AgentTestHarness.JsonRoundTrip

/-! JSON values up to the order of the members of their objects. Two values are equal just if they
are the same after all members are sorted by their keys. -/
namespace AgentTestHarness.JsonOrder
open PyText OrderedDict PyJson JsonRoundTrip

/-! Sorting a dictionary by the ranks of its keys. -/

section Entries

variable {κ ν ℓ : Type*} [LinearOrder ℓ] (rank : κ → ℓ)

def RankLe (e f : κ × ν) : Prop := rank e.1 ≤ rank f.1

instance : DecidableRel (RankLe (ν := ν) rank) := fun e f =>
  inferInstanceAs (Decidable (rank e.1 ≤ rank f.1))

instance : Std.Total (RankLe (ν := ν) rank) := ⟨fun e f => le_total (rank e.1) (rank f.1)⟩

instance : IsTrans (κ × ν) (RankLe rank) := ⟨fun _ _ _ h k => le_trans h k⟩

def sortByRank (es : List (κ × ν)) : List (κ × ν) := es.insertionSort (RankLe rank)

variable {rank}

theorem sortByRank_perm (es : List (κ × ν)) : (sortByRank rank es).Perm es :=
  List.perm_insertionSort _ es

/-- The sorted list depends on the members alone. -/
theorem sortByRank_eq_iff (hrank : Function.Injective rank) {es fs : List (κ × ν)}
    (hes : (es.map Prod.fst).Nodup) : sortByRank rank es = sortByRank rank fs ↔ es.Perm fs := by
  constructor
  · intro h
    exact (sortByRank_perm es).symm.trans (h ▸ sortByRank_perm fs)
  · intro h
    have hperm : (sortByRank rank es).Perm (sortByRank rank fs) :=
      (sortByRank_perm es).trans (h.trans (sortByRank_perm fs).symm)
    refine hperm.eq_of_pairwise ?_ (List.pairwise_insertionSort _ es)
      (List.pairwise_insertionSort _ fs)
    intro e f he hf hle hge
    have hkey : e.1 = f.1 := hrank (le_antisymm hle hge)
    have hmem : f ∈ es := h.mem_iff.mpr ((sortByRank_perm fs).mem_iff.mp hf)
    exact List.inj_on_of_nodup_map hes ((sortByRank_perm es).mem_iff.mp he) hmem hkey

end Entries

/-! The order of the keys. -/

def number : CodePoint → ℕ
  | .ch c => c.toNat
  | .surrogate n => 0xd800 + n

theorem number_injective : Function.Injective number := by
  intro p q h
  cases p with
  | ch c =>
    cases q with
    | ch d => exact congrArg CodePoint.ch (Char.toNat_inj.mp h)
    | surrogate n =>
      have hc : c.toNat = 0xd800 + n := h
      rcases toNat_valid c with hvalid | hvalid <;> omega
  | surrogate m =>
    cases q with
    | ch d =>
      have hd : 0xd800 + m = d.toNat := h
      rcases toNat_valid d with hvalid | hvalid <;> omega
    | surrogate n => exact congrArg CodePoint.surrogate (Fin.ext (Nat.add_left_cancel h))

/-- Strings are compared by their code points. -/
def rank (s : Str) : List ℕ := s.map number

theorem rank_injective : Function.Injective rank := List.map_injective_iff.mpr number_injective

def sortMembers (ms : List (Str × Json)) : List (Str × Json) := sortByRank rank ms

/-! Equality of values, in which the order of the members of an object does not matter. Inside an
array it may matter. -/

mutual
def Equal (arrays : Bool) : Json → Json → Prop
  | .arr xs, .arr ys => if arrays then EqualItems arrays xs ys else xs = ys
  | .obj ms, .obj ns => ms.length = ns.length ∧ EqualMembers arrays ms ns
  | x, y => x = y
def EqualItems (arrays : Bool) : List Json → List Json → Prop
  | [], [] => True
  | x :: xs, y :: ys => Equal arrays x y ∧ EqualItems arrays xs ys
  | _, _ => False
def EqualMembers (arrays : Bool) : List (Str × Json) → List (Str × Json) → Prop
  | [], _ => True
  | (k, v) :: ms, ns => (∃ w, lookup k ns = some w ∧ Equal arrays v w) ∧ EqualMembers arrays ms ns
end

mutual
def normal (arrays : Bool) : Json → Json
  | .arr xs => .arr (if arrays then normalItems arrays xs else xs)
  | .obj ms => .obj (sortMembers (normalMembers arrays ms))
  | x => x
def normalItems (arrays : Bool) : List Json → List Json
  | [] => []
  | x :: xs => normal arrays x :: normalItems arrays xs
def normalMembers (arrays : Bool) : List (Str × Json) → List (Str × Json)
  | [] => []
  | (k, v) :: ms => (k, normal arrays v) :: normalMembers arrays ms
end

section

variable {b : Bool}

theorem normalMembers_eq (ms : List (Str × Json)) :
    normalMembers b ms = ms.map fun m => (m.1, normal b m.2) := by
  induction ms with
  | nil => rfl
  | cons m ms ih => rw [normalMembers, ih, List.map_cons]

theorem keys_normalMembers (ms : List (Str × Json)) :
    (normalMembers b ms).map Prod.fst = ms.map Prod.fst := by
  rw [normalMembers_eq, List.map_map]
  rfl

theorem mem_normalMembers {ms : List (Str × Json)} {k : Str} {u : Json} :
    (k, u) ∈ normalMembers b ms ↔ ∃ v, (k, v) ∈ ms ∧ normal b v = u := by
  rw [normalMembers_eq, List.mem_map]
  constructor
  · rintro ⟨⟨k', v⟩, hm, heq⟩
    obtain ⟨rfl, rfl⟩ := Prod.mk.inj heq
    exact ⟨v, hm, rfl⟩
  · rintro ⟨v, hm, rfl⟩
    exact ⟨(k, v), hm, rfl⟩

theorem nodup_normalMembers {ms : List (Str × Json)} (h : (ms.map Prod.fst).Nodup) :
    (normalMembers b ms).Nodup := by
  refine List.Nodup.of_map Prod.fst ?_
  rw [keys_normalMembers]
  exact h

theorem perm_iff_length_subset {α : Type*} {l m : List α} (h : l.Nodup) :
    l.Perm m ↔ l.length = m.length ∧ l ⊆ m := by
  constructor
  · exact fun hperm => ⟨hperm.length_eq, hperm.subset⟩
  · rintro ⟨hlength, hsubset⟩
    exact (List.subperm_of_subset h hsubset).perm_of_length_le hlength.ge

mutual
theorem equal_iff : (v : Json) → Loadable v → ∀ {w : Json}, Loadable w →
    (Equal b v w ↔ normal b v = normal b w)
  | .null, _, w, _ => by cases w <;> simp [Equal, normal]
  | .bool _, _, w, _ => by cases w <;> simp [Equal, normal]
  | .int _, _, w, _ => by cases w <;> simp [Equal, normal]
  | .float _, _, w, _ => by cases w <;> simp [Equal, normal]
  | .str _, _, w, _ => by cases w <;> simp [Equal, normal]
  | .arr xs, hv, w, hw => by
    cases w with
    | arr ys =>
      have hitems := equalItems_iff xs hv hw
      cases b with
      | true => simp [Equal, normal, hitems]
      | false => simp [Equal, normal]
    | null | bool _ | int _ | float _ | str _ | obj _ => simp [Equal, normal]
  | .obj ms, hv, w, hw => by
    cases w with
    | obj ns =>
      have hmembers := equalMembers_iff ms hv.2 hw
      have hlength : (normalMembers b ms).length = (normalMembers b ns).length ↔
          ms.length = ns.length := by
        rw [normalMembers_eq, normalMembers_eq, List.length_map, List.length_map]
      have hkeys : ((normalMembers b ms).map Prod.fst).Nodup := by
        rw [keys_normalMembers]
        exact hv.1
      rw [Equal, normal, normal, Json.obj.injEq, sortMembers, sortMembers,
        sortByRank_eq_iff rank_injective hkeys,
        perm_iff_length_subset (nodup_normalMembers hv.1), hlength, hmembers]
    | null | bool _ | int _ | float _ | str _ | arr _ => simp [Equal, normal]
theorem equalItems_iff : (xs : List Json) → LoadableItems xs → ∀ {ys : List Json},
    LoadableItems ys → (EqualItems b xs ys ↔ normalItems b xs = normalItems b ys)
  | [], _, ys, _ => by cases ys <;> simp [EqualItems, normalItems]
  | x :: xs, hxs, ys, hys => by
    cases ys with
    | nil => simp [EqualItems, normalItems]
    | cons y ys =>
      have hx := equal_iff x hxs.1 hys.1
      have hrest := equalItems_iff xs hxs.2 hys.2
      rw [EqualItems, normalItems, normalItems, List.cons.injEq, hx, hrest]
theorem equalMembers_iff : (ms : List (Str × Json)) → LoadableMembers ms →
    ∀ {ns : List (Str × Json)}, Loadable (.obj ns) →
    (EqualMembers b ms ns ↔ normalMembers b ms ⊆ normalMembers b ns)
  | [], _, ns, _ => by simp [EqualMembers, normalMembers]
  | (k, v) :: ms, hms, ns, hns => by
    have hrest := equalMembers_iff ms hms.2 hns
    have hfirst : (∃ w, lookup k ns = some w ∧ Equal b v w) ↔
        (k, normal b v) ∈ normalMembers b ns := by
      rw [mem_normalMembers]
      constructor
      · rintro ⟨w, hlookup, hequal⟩
        have hw := loadable_lookup hns hlookup
        exact ⟨w, mem_of_lookup hlookup, ((equal_iff v hms.1.2 hw).mp hequal).symm⟩
      · rintro ⟨w, hmem, hnormal⟩
        have hlookup := lookup_of_mem hns.1 hmem
        have hw := loadable_lookup hns hlookup
        exact ⟨w, hlookup, (equal_iff v hms.1.2 hw).mpr hnormal.symm⟩
    rw [EqualMembers, normalMembers, List.cons_subset, hfirst, hrest]
end

theorem sortMembers_perm (ms : List (Str × Json)) : (sortMembers ms).Perm ms :=
  sortByRank_perm ms

theorem loadable_sortMembers {ms : List (Str × Json)} (h : Loadable (.obj ms)) :
    Loadable (.obj (sortMembers ms)) := by
  have hperm := sortMembers_perm ms
  refine ⟨(hperm.map Prod.fst).nodup_iff.mpr h.1, loadableMembers_iff.mpr fun m hm => ?_⟩
  exact loadableMembers_iff.mp h.2 m (hperm.mem_iff.mp hm)

mutual
theorem loadable_normal : (v : Json) → Loadable v → Loadable (normal b v)
  | .null, h | .bool _, h | .int _, h | .float _, h | .str _, h => h
  | .arr xs, h => by
    have hitems := loadable_normalItems xs h
    cases b with
    | true => exact hitems
    | false => exact h
  | .obj ms, h => by
    refine loadable_sortMembers ⟨?_, loadable_normalMembers ms h.2⟩
    rw [keys_normalMembers]
    exact h.1
theorem loadable_normalItems : (xs : List Json) → LoadableItems xs →
    LoadableItems (normalItems b xs)
  | [], _ => trivial
  | x :: xs, h => ⟨loadable_normal x h.1, loadable_normalItems xs h.2⟩
theorem loadable_normalMembers : (ms : List (Str × Json)) → LoadableMembers ms →
    LoadableMembers (normalMembers b ms)
  | [], _ => trivial
  | (_, v) :: ms, h => ⟨⟨h.1.1, loadable_normal v h.1.2⟩, loadable_normalMembers ms h.2⟩
end

mutual
/-- What is sorted outside arrays is sorted everywhere as the value itself. -/
theorem normal_normal : (v : Json) → Loadable v → normal true (normal b v) = normal true v
  | .null, _ | .bool _, _ | .int _, _ | .float _, _ | .str _, _ => rfl
  | .arr xs, h => by
    have hitems := normalItems_normalItems xs h
    cases b with
    | true => simp only [normal, if_true, hitems]
    | false => rfl
  | .obj ms, h => by
    have hkeys : ((normalMembers b ms).map Prod.fst).Nodup := by
      rw [keys_normalMembers]
      exact h.1
    have hsorted : ((normalMembers true (sortMembers (normalMembers b ms))).map
        Prod.fst).Nodup := by
      rw [keys_normalMembers]
      exact ((sortMembers_perm _).map Prod.fst).nodup_iff.mpr hkeys
    have hperm : (normalMembers true (sortMembers (normalMembers b ms))).Perm
        (normalMembers true (normalMembers b ms)) := by
      rw [normalMembers_eq (sortMembers _), normalMembers_eq (normalMembers b ms)]
      exact (sortMembers_perm _).map _
    rw [normalMembers_normalMembers ms h.2] at hperm
    rw [normal, normal, normal, Json.obj.injEq]
    exact (sortByRank_eq_iff rank_injective hsorted).mpr hperm
theorem normalItems_normalItems : (xs : List Json) → LoadableItems xs →
    normalItems true (normalItems b xs) = normalItems true xs
  | [], _ => rfl
  | x :: xs, h => by
    rw [normalItems, normalItems, normalItems, normal_normal x h.1,
      normalItems_normalItems xs h.2]
theorem normalMembers_normalMembers : (ms : List (Str × Json)) → LoadableMembers ms →
    normalMembers true (normalMembers b ms) = normalMembers true ms
  | [], _ => rfl
  | (k, v) :: ms, h => by
    rw [normalMembers, normalMembers, normalMembers, normal_normal v h.1.2,
      normalMembers_normalMembers ms h.2]
end

end

/-! The number of objects in a value. -/

mutual
def objects : Json → ℕ
  | .arr xs => objectsItems xs
  | .obj ms => objectsMembers ms + 1
  | _ => 0
def objectsItems : List Json → ℕ
  | [] => 0
  | x :: xs => objects x + objectsItems xs
def objectsMembers : List (Str × Json) → ℕ
  | [] => 0
  | (_, v) :: ms => objects v + objectsMembers ms
end

theorem objectsMembers_perm {ms ns : List (Str × Json)} (h : ms.Perm ns) :
    objectsMembers ms = objectsMembers ns := by
  induction h with
  | nil => rfl
  | cons m _ ih => rw [objectsMembers, objectsMembers, ih]
  | swap m n ms =>
    simp only [objectsMembers]
    omega
  | trans _ _ ih ih' => exact ih.trans ih'

theorem objectsMembers_sortMembers (ms : List (Str × Json)) :
    objectsMembers (sortMembers ms) = objectsMembers ms :=
  objectsMembers_perm (sortMembers_perm ms)

section

variable {b : Bool}

mutual
theorem objects_normal : (v : Json) → objects (normal b v) = objects v
  | .null | .bool _ | .int _ | .float _ | .str _ => rfl
  | .arr xs => by
    have hitems := objectsItems_normalItems xs
    cases b with
    | true => exact hitems
    | false => rfl
  | .obj ms => by
    rw [normal, objects, objects, objectsMembers_sortMembers, objectsMembers_normalMembers ms]
theorem objectsItems_normalItems : (xs : List Json) →
    objectsItems (normalItems b xs) = objectsItems xs
  | [] => rfl
  | x :: xs => by
    rw [normalItems, objectsItems, objectsItems, objects_normal x, objectsItems_normalItems xs]
theorem objectsMembers_normalMembers : (ms : List (Str × Json)) →
    objectsMembers (normalMembers b ms) = objectsMembers ms
  | [] => rfl
  | (k, v) :: ms => by
    rw [normalMembers, objectsMembers, objectsMembers, objects_normal v,
      objectsMembers_normalMembers ms]
end

/-- Equal values have as many objects. -/
theorem objects_eq_of_equal {v w : Json} (hv : Loadable v) (hw : Loadable w)
    (h : Equal b v w) : objects v = objects w := by
  calc objects v = objects (normal b v) := (objects_normal v).symm
    _ = objects (normal b w) := by rw [(equal_iff v hv hw).mp h]
    _ = objects w := objects_normal w

end

end AgentTestHarness.JsonOrder
