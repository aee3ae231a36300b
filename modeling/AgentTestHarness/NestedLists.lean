import Mathlib.Data.List.Basic

/-! Lists and tuples within each other, and the leaves in them from left to right: each has a place,
the indices on the way to it, and the places are in the order of a dictionary. -/
namespace AgentTestHarness.NestedLists

inductive Nested (α : Type*)
  | leaf (a : α)
  | list (xs : List (Nested α))
  | tuple (xs : List (Nested α))

variable {α : Type*}

/-! The leaf at a place. -/

mutual
def leafIn : Nested α → List ℕ → Option α
  | .leaf a, [] => some a
  | .leaf _, _ :: _ => none
  | .list xs, place => leafAt xs place
  | .tuple xs, place => leafAt xs place
def leafAt : List (Nested α) → List ℕ → Option α
  | [], _ => none
  | _, [] => none
  | x :: _, 0 :: place => leafIn x place
  | _ :: xs, (i + 1) :: place => leafAt xs (i :: place)
end

/-- The place behind one more element. -/
def shift : List ℕ → List ℕ
  | [] => []
  | i :: place => (i + 1) :: place

mutual
def leavesIn : Nested α → List (List ℕ × α)
  | .leaf a => [([], a)]
  | .list xs => leaves xs
  | .tuple xs => leaves xs
/-- The leaves with their places. -/
def leaves : List (Nested α) → List (List ℕ × α)
  | [] => []
  | x :: xs => (leavesIn x).map (fun l => (0 :: l.1, l.2)) ++
      (leaves xs).map fun l => (shift l.1, l.2)
end

theorem leafAt_nil (xs : List (Nested α)) : leafAt xs [] = none := by
  cases xs <;> rfl

theorem mem_map_zero {ls : List (List ℕ × α)} {place : List ℕ} {a : α} :
    (place, a) ∈ ls.map (fun l => (0 :: l.1, l.2)) ↔
      ∃ rest, place = 0 :: rest ∧ (rest, a) ∈ ls := by
  rw [List.mem_map]
  constructor
  · rintro ⟨⟨rest, b⟩, hl, heq⟩
    obtain ⟨rfl, rfl⟩ := Prod.mk.inj heq
    exact ⟨rest, rfl, hl⟩
  · rintro ⟨rest, rfl, hl⟩
    exact ⟨(rest, a), hl, rfl⟩

/-- Places in a list are not empty, so they are shifted by their first index. -/
theorem mem_map_shift {ls : List (List ℕ × α)} (hnil : ∀ a, ([], a) ∉ ls) {place : List ℕ}
    {a : α} : (place, a) ∈ ls.map (fun l => (shift l.1, l.2)) ↔
      ∃ i rest, place = (i + 1) :: rest ∧ (i :: rest, a) ∈ ls := by
  rw [List.mem_map]
  constructor
  · rintro ⟨⟨old, b⟩, hl, heq⟩
    obtain ⟨rfl, rfl⟩ := Prod.mk.inj heq
    cases old with
    | nil => exact absurd hl (hnil b)
    | cons i rest => exact ⟨i, rest, rfl, hl⟩
  · rintro ⟨i, rest, rfl, hl⟩
    exact ⟨(i :: rest, a), hl, rfl⟩

mutual
theorem mem_leavesIn : (x : Nested α) → ∀ {place : List ℕ} {a : α},
    (place, a) ∈ leavesIn x ↔ leafIn x place = some a
  | .leaf b, place, a => by
    cases place with
    | nil => simp [leavesIn, leafIn, eq_comm]
    | cons i place => simp [leavesIn, leafIn]
  | .list xs, _, _ => mem_leaves xs
  | .tuple xs, _, _ => mem_leaves xs
theorem mem_leaves : (xs : List (Nested α)) → ∀ {place : List ℕ} {a : α},
    (place, a) ∈ leaves xs ↔ leafAt xs place = some a
  | [], _, _ => by simp [leaves, leafAt]
  | x :: xs, place, a => by
    have hx := @mem_leavesIn x
    have hxs := @mem_leaves xs
    have hnil : ∀ b, ([], b) ∉ leaves xs := fun b hb => by simpa [leafAt_nil] using hxs.mp hb
    rw [leaves, List.mem_append, mem_map_zero, mem_map_shift hnil]
    cases place with
    | nil => simp [leafAt]
    | cons i place =>
      cases i with
      | zero => simp [leafAt, hx]
      | succ i => simp [leafAt, hxs]
end

/-! The order of the places. -/

theorem shift_lt_shift {p q : List ℕ} (h : p < q) : shift p < shift q := by
  cases p with
  | nil =>
    cases q with
    | nil => exact absurd h (List.lt_irrefl [])
    | cons j q => exact List.nil_lt_cons _ _
  | cons i p =>
    cases q with
    | nil => exact absurd h (List.not_lt_nil _)
    | cons j q =>
      rw [shift, shift, List.cons_lt_cons_iff]
      rcases List.cons_lt_cons_iff.mp h with hlt | ⟨rfl, hlt⟩
      · exact .inl (Nat.succ_lt_succ hlt)
      · exact .inr ⟨rfl, hlt⟩

mutual
theorem pairwise_leavesIn : (x : Nested α) → (leavesIn x).Pairwise fun l m => l.1 < m.1
  | .leaf _ => List.pairwise_singleton _ _
  | .list xs => pairwise_leaves xs
  | .tuple xs => pairwise_leaves xs
theorem pairwise_leaves : (xs : List (Nested α)) → (leaves xs).Pairwise fun l m => l.1 < m.1
  | [] => List.Pairwise.nil
  | x :: xs => by
    rw [leaves, List.pairwise_append, List.pairwise_map, List.pairwise_map]
    refine ⟨(pairwise_leavesIn x).imp fun h => ?_, (pairwise_leaves xs).imp shift_lt_shift, ?_⟩
    · exact List.cons_lt_cons_iff.mpr (.inr ⟨rfl, h⟩)
    · intro l hl m hm
      obtain ⟨l, -, rfl⟩ := List.mem_map.mp hl
      obtain ⟨⟨place, a⟩, hleaf, rfl⟩ := List.mem_map.mp hm
      cases place with
      | nil => exact absurd ((mem_leaves xs).mp hleaf) (by simp [leafAt_nil])
      | cons i place => exact List.cons_lt_cons_iff.mpr (.inl (Nat.succ_pos i))
end

end AgentTestHarness.NestedLists
