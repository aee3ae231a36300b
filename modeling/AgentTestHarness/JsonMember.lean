import AgentTestHarness.JsonReading

/-! The member of a JSON object text that counts: of several members with one name the last
one gives the value, and giving it another value changes just the text of that value. -/
namespace AgentTestHarness.JsonMember
open PyText OrderedDict PyJson JsonText

section Dict

variable {κ ν : Type*} [DecidableEq κ]

/-- The members of a dictionary after each other, later values replacing earlier ones. -/
def assignAll (d : List (κ × ν)) (ps : List (κ × ν)) : List (κ × ν) :=
  ps.foldl (fun d p => assign p.1 p.2 d) d

/-- Give the last entry of a key another value. -/
def setLast (k : κ) (v : ν) : List (κ × ν) → List (κ × ν)
  | [] => []
  | (l, w) :: ps =>
    if k ∈ ps.map Prod.fst then (l, w) :: setLast k v ps
    else if l = k then (l, v) :: ps
    else (l, w) :: ps

theorem assign_assign_self (k : κ) (v w : ν) (d : List (κ × ν)) :
    assign k v (assign k w d) = assign k v d := by
  induction d with
  | nil => simp [assign]
  | cons e d ih =>
    rcases eq_or_ne e.1 k with h | h
    · simp [assign, h]
    · simp [assign, h, ih]

theorem assign_comm {k l : κ} (h : k ≠ l) (v w : ν) {d : List (κ × ν)}
    (hk : k ∈ d.map Prod.fst) : assign k v (assign l w d) = assign l w (assign k v d) := by
  induction d with
  | nil => simp at hk
  | cons e d ih =>
    rcases eq_or_ne e.1 k with hek | hek
    · simp [assign, hek, h]
    · have hd : k ∈ d.map Prod.fst := by
        rw [List.map_cons, List.mem_cons] at hk
        exact hk.resolve_left fun he => hek he.symm
      rcases eq_or_ne e.1 l with hel | hel
      · simp [assign, hel, h.symm]
      · simp [assign, hek, hel, ih hd]

theorem mem_keys_assign {k l : κ} {v : ν} {d : List (κ × ν)} (h : k ∈ d.map Prod.fst) :
    k ∈ (assign l v d).map Prod.fst := by
  rw [keys_assign]
  split
  · exact h
  · exact List.mem_append_left _ h

theorem assignAll_assign {k : κ} (v : ν) {d ps : List (κ × ν)} (hd : k ∈ d.map Prod.fst)
    (hps : k ∉ ps.map Prod.fst) :
    assignAll (assign k v d) ps = assign k v (assignAll d ps) := by
  induction ps generalizing d with
  | nil => rfl
  | cons p ps ih =>
    rw [List.map_cons, List.mem_cons, not_or] at hps
    unfold assignAll at ih ⊢
    rw [List.foldl_cons, List.foldl_cons, ← ih (mem_keys_assign hd) hps.2,
      assign_comm hps.1 _ _ hd]

theorem assignAll_setLast {k : κ} (v : ν) {ps : List (κ × ν)} (h : k ∈ ps.map Prod.fst)
    (d : List (κ × ν)) : assignAll d (setLast k v ps) = assign k v (assignAll d ps) := by
  induction ps generalizing d with
  | nil => simp at h
  | cons p ps ih =>
    unfold setLast
    split
    · next hk => exact ih hk (assign p.1 p.2 d)
    · next hk =>
      have hp : p.1 = k := by
        rw [List.map_cons, List.mem_cons] at h
        exact (h.resolve_right hk).symm
      have hmem : k ∈ (assign k p.2 d).map Prod.fst := by
        rw [keys_assign]
        split
        · assumption
        · simp
      rw [if_pos hp]
      calc assignAll d ((p.1, v) :: ps) = assignAll (assign k v d) ps := by
            rw [assignAll, List.foldl_cons, hp]; rfl
        _ = assignAll (assign k v (assign k p.2 d)) ps := by rw [assign_assign_self]
        _ = assign k v (assignAll (assign k p.2 d) ps) := assignAll_assign v hmem hk
        _ = assign k v (assignAll d (p :: ps)) := by
            rw [← hp]
            rfl

theorem length_assign (k : κ) (v : ν) (d : List (κ × ν)) :
    (assign k v d).length = if k ∈ d.map Prod.fst then d.length else d.length + 1 := by
  have h := congrArg List.length (keys_assign k v d)
  rw [List.length_map] at h
  rw [h]
  split <;> simp

theorem assign_of_not_mem {k : κ} (v : ν) {d : List (κ × ν)} (h : k ∉ d.map Prod.fst) :
    assign k v d = d ++ [(k, v)] := by
  induction d with
  | nil => rfl
  | cons e d ih =>
    rw [List.map_cons, List.mem_cons, not_or] at h
    rw [assign, if_neg (Ne.symm h.1), ih h.2, List.cons_append]

theorem length_assignAll_le (d ps : List (κ × ν)) :
    (assignAll d ps).length ≤ d.length + ps.length := by
  induction ps generalizing d with
  | nil => simp [assignAll]
  | cons p ps ih =>
    have hlen := length_assign p.1 p.2 d
    have := ih (assign p.1 p.2 d)
    unfold assignAll at this ⊢
    rw [List.foldl_cons, List.length_cons]
    split at hlen <;> omega

/-- Only members with new names make a dictionary as long as the list of them. -/
theorem assignAll_of_length {d ps : List (κ × ν)}
    (h : (assignAll d ps).length = d.length + ps.length) : assignAll d ps = d ++ ps := by
  induction ps generalizing d with
  | nil => simp [assignAll]
  | cons p ps ih =>
    have hle := length_assignAll_le (assign p.1 p.2 d) ps
    have hlen := length_assign p.1 p.2 d
    unfold assignAll at h hle ih ⊢
    rw [List.foldl_cons] at h ⊢
    rw [List.length_cons] at h
    split at hlen
    · omega
    · next hp =>
      rw [ih (by omega), assign_of_not_mem p.2 hp]
      simp

theorem assignAll_of_nodup {d ps : List (κ × ν)} (h : ((d ++ ps).map Prod.fst).Nodup) :
    assignAll d ps = d ++ ps := by
  induction ps generalizing d with
  | nil => simp [assignAll]
  | cons p ps ih =>
    have hp : p.1 ∉ d.map Prod.fst := by
      rw [List.map_append, List.nodup_append] at h
      intro hm
      exact h.2.2 p.1 hm p.1 (by simp) rfl
    have hnext : d ++ [p] ++ ps = d ++ p :: ps := by simp
    unfold assignAll at ih ⊢
    rw [List.foldl_cons, assign_of_not_mem p.2 hp, ih (by rwa [hnext]), hnext]

theorem assign_eq_self {k : κ} {v : ν} {d : List (κ × ν)} (h : lookup k d = some v) :
    assign k v d = d := by
  induction d with
  | nil => simp at h
  | cons e d ih =>
    rw [lookup_cons] at h
    rw [assign]
    split at h
    · next he =>
      rw [if_pos he, ← Option.some.inj h]
    · next he =>
      rw [if_neg he, ih h]

end Dict

variable (name : Str)

def Names (l : Label) : Prop := decode l.raw = some name

instance (l : Label) : Decidable (Names name l) := inferInstanceAs (Decidable (_ = _))

/-- The last member of a name. -/
def effective : Members → Option (Label × Tree)
  | .last l t _ => if Names name l then some (l, t) else none
  | .more l t _ rest => (effective rest).or (if Names name l then some (l, t) else none)

/-- Put another tree in the place of the last member's value. -/
def setEffective (u : Tree) : Members → Members
  | .last l t after => .last l (if Names name l then u else t) after
  | .more l t after rest =>
    if (effective name rest).isSome then .more l t after (setEffective u rest)
    else .more l (if Names name l then u else t) after rest

theorem setEffective_self : (ms : Members) → {l : Label} → {t : Tree} →
    effective name ms = some (l, t) → setEffective name t ms = ms
  | .last l t after, l', t', h => by
    rw [effective] at h
    split at h
    · next hn =>
      obtain ⟨rfl, rfl⟩ := by simpa using h
      simp [setEffective]
    · exact absurd h (by simp)
  | .more l t after rest, l', t', h => by
    rw [effective] at h
    cases he : effective name rest with
    | some x =>
      obtain rfl : x = (l', t') := by simpa [he] using h
      simp [setEffective, he, setEffective_self rest he]
    | none =>
      rw [he, Option.none_or] at h
      split at h
      · next hn =>
        obtain ⟨rfl, rfl⟩ := by simpa using h
        simp [setEffective, he]
      · exact absurd h (by simp)

/-- Around the member the text stays as it is. The member stands between a comma or the
opening bracket and a comma or the closing bracket. -/
theorem render_setEffective : (ms : Members) → (open' : Char) → {l : Label} → {t : Tree} →
    effective name ms = some (l, t) → ms.Lexical →
      ∃ a c after e b, (c = open' ∨ c = ',') ∧ (e = ',' ∨ e = '}') ∧ Pad after ∧
        ∀ u, open' :: ((setEffective name u ms).render ++ ['}']) =
          a ++ c :: (l.render ++ u.render ++ after ++ e :: b)
  | .last l t after, open', l', t', h, lexical => by
    rw [effective] at h
    split at h
    · next hn =>
      obtain ⟨rfl, rfl⟩ := by simpa using h
      refine ⟨[], open', after, '}', [], .inl rfl, .inr rfl, lexical.2.2, fun u => ?_⟩
      simp [setEffective, hn, Members.render]
    · exact absurd h (by simp)
  | .more l t after rest, open', l', t', h, lexical => by
    rw [effective] at h
    cases he : effective name rest with
    | some x =>
      obtain rfl : x = (l', t') := by simpa [he] using h
      obtain ⟨a, c, after', e, b, hc, hend, hafter, hrest⟩ :=
        render_setEffective rest ',' he lexical.2.2.2
      refine ⟨open' :: (l.render ++ t.render ++ after) ++ a, c, after', e, b,
        .inr (hc.elim id id), hend, hafter, fun u => ?_⟩
      rw [List.append_assoc, ← hrest u]
      simp [setEffective, he, Members.render]
    | none =>
      rw [he, Option.none_or] at h
      split at h
      · next hn =>
        obtain ⟨rfl, rfl⟩ := by simpa using h
        refine ⟨[], open', after, ',', rest.render ++ ['}'], .inl rfl, .inl rfl, lexical.2.2.1,
          fun u => ?_⟩
        simp [setEffective, he, hn, Members.render]
      · exact absurd h (by simp)

theorem lexical_setEffective {u : Tree} (hu : u.Lexical) (ms : Members) (h : ms.Lexical) :
    (setEffective name u ms).Lexical := by
  cases ms with
  | last l t after =>
    obtain ⟨hl, ht, hafter⟩ := h
    unfold setEffective
    split
    · exact ⟨hl, hu, hafter⟩
    · exact ⟨hl, ht, hafter⟩
  | more l t after rest =>
    obtain ⟨hl, ht, hafter, hrest⟩ := h
    unfold setEffective
    split
    · exact ⟨hl, ht, hafter, lexical_setEffective hu rest hrest⟩
    · split
      · exact ⟨hl, hu, hafter, hrest⟩
      · exact ⟨hl, ht, hafter, hrest⟩

theorem effective_lexical : (ms : Members) → ms.Lexical → {l : Label} → {t : Tree} →
    effective name ms = some (l, t) → l.Lexical
  | .last l t after, lexical, l', t', h => by
    rw [effective] at h
    split at h
    · obtain ⟨rfl, -⟩ := by simpa using h
      exact lexical.1
    · exact absurd h (by simp)
  | .more l t after rest, lexical, l', t', h => by
    rw [effective] at h
    rcases Option.or_eq_some_iff.mp h with he | ⟨-, he⟩
    · exact effective_lexical rest lexical.2.2.2 he
    · split at he
      · obtain ⟨rfl, -⟩ := by simpa using he
        exact lexical.1
      · exact absurd he (by simp)

theorem pairs_last {l : Label} {t : Tree} {after : Text} {ps : List (Str × Json)} :
    (Members.last l t after).pairs = some ps ↔
      ∃ k v, decode l.raw = some k ∧ t.value = some v ∧ ps = [(k, v)] := by
  simp only [Members.pairs, Option.bind_eq_some_iff, Option.map_eq_some_iff]
  constructor
  · rintro ⟨k, hk, v, hv, rfl⟩
    exact ⟨k, v, hk, hv, rfl⟩
  · rintro ⟨k, v, hk, hv, rfl⟩
    exact ⟨k, hk, v, hv, rfl⟩

theorem pairs_more {l : Label} {t : Tree} {after : Text} {rest : Members}
    {ps : List (Str × Json)} :
    (Members.more l t after rest).pairs = some ps ↔
      ∃ k v qs, decode l.raw = some k ∧ t.value = some v ∧ rest.pairs = some qs ∧
        ps = (k, v) :: qs := by
  simp only [Members.pairs, Option.bind_eq_some_iff, Option.map_eq_some_iff]
  constructor
  · rintro ⟨k, hk, v, hv, qs, hqs, rfl⟩
    exact ⟨k, v, qs, hk, hv, hqs, rfl⟩
  · rintro ⟨k, v, qs, hk, hv, hqs, rfl⟩
    exact ⟨k, hk, v, hv, qs, hqs, rfl⟩

theorem effective_isSome : (ms : Members) → {ps : List (Str × Json)} → ms.pairs = some ps →
    ((effective name ms).isSome = true ↔ name ∈ ps.map Prod.fst)
  | .last l t after, ps, h => by
    obtain ⟨k, v, hk, -, rfl⟩ := pairs_last.mp h
    rcases eq_or_ne k name with rfl | hne
    · simp [effective, Names, hk]
    · simp [effective, Names, hk, hne, hne.symm]
  | .more l t after rest, ps, h => by
    obtain ⟨k, v, qs, hk, -, hqs, rfl⟩ := pairs_more.mp h
    have ih := effective_isSome rest hqs
    rcases eq_or_ne k name with rfl | hne
    · simp [effective, Names, hk]
    · rw [List.map_cons, List.mem_cons, ← ih]
      simp [effective, Names, hk, hne, hne.symm]

theorem pairs_setEffective {u : Tree} {v : Json} (hu : u.value = some v) :
    (ms : Members) → {ps : List (Str × Json)} → ms.pairs = some ps →
      (setEffective name u ms).pairs = some (setLast name v ps)
  | .last l t after, ps, h => by
    obtain ⟨k, w, hk, hw, rfl⟩ := pairs_last.mp h
    rcases eq_or_ne k name with rfl | hne
    · have hn : Names k l := hk
      rw [setEffective, if_pos hn]
      exact pairs_last.mpr ⟨k, v, hk, hu, by simp [setLast]⟩
    · have hn : ¬ Names name l := by simp [Names, hk, hne]
      rw [setEffective, if_neg hn]
      exact pairs_last.mpr ⟨k, w, hk, hw, by simp [setLast, hne]⟩
  | .more l t after rest, ps, h => by
    obtain ⟨k, w, qs, hk, hw, hqs, rfl⟩ := pairs_more.mp h
    have hmem := effective_isSome name rest hqs
    unfold setEffective setLast
    split
    · next he =>
      rw [if_pos (hmem.mp he)]
      exact pairs_more.mpr ⟨k, w, _, hk, hw, pairs_setEffective hu rest hqs, rfl⟩
    · next he =>
      rw [if_neg fun hn => he (hmem.mpr hn)]
      rcases eq_or_ne k name with rfl | hne
      · have hn : Names k l := hk
        rw [if_pos hn, if_pos rfl]
        exact pairs_more.mpr ⟨k, v, qs, hk, hu, hqs, rfl⟩
      · have hn : ¬ Names name l := by simp [Names, hk, hne]
        rw [if_neg hn, if_neg hne]
        exact pairs_more.mpr ⟨k, w, qs, hk, hw, hqs, rfl⟩

/-- The value of the object with the member's value changed. -/
theorem value_setEffective {u : Tree} {v : Json} (hu : u.value = some v) {ms : Members}
    {ps : List (Str × Json)} (hps : ms.pairs = some ps)
    (he : (effective name ms).isSome = true) :
    (Tree.object (setEffective name u ms)).value = some (.obj (assign name v (dict ps))) := by
  rw [Tree.value, pairs_setEffective name hu ms hps]
  exact congrArg (fun d => some (Json.obj d))
    (assignAll_setLast v ((effective_isSome name ms hps).mp he) [])

/-- The member looked up is the last one. -/
theorem lookup_dict {ms : Members} {l : Label} {t : Tree} {ps : List (Str × Json)} {v : Json}
    (he : effective name ms = some (l, t)) (hps : ms.pairs = some ps) (ht : t.value = some v) :
    lookup name (dict ps) = some v := by
  have hvalue := value_setEffective name ht hps (by rw [he]; rfl)
  rw [setEffective_self name ms he, Tree.value, hps] at hvalue
  have hdict : dict ps = assign name v (dict ps) := by simpa using hvalue
  rw [hdict, lookup_assign_self]

theorem effective_value : (ms : Members) → {l : Label} → {t : Tree} →
    {ps : List (Str × Json)} → effective name ms = some (l, t) → ms.pairs = some ps →
      Names name l ∧ ∃ v, t.value = some v
  | .last l t after, l', t', ps, h, hps => by
    obtain ⟨k, v, -, hv, -⟩ := pairs_last.mp hps
    rw [effective] at h
    split at h
    · next hn =>
      obtain ⟨rfl, rfl⟩ := by simpa using h
      exact ⟨hn, v, hv⟩
    · exact absurd h (by simp)
  | .more l t after rest, l', t', ps, h, hps => by
    obtain ⟨k, v, qs, -, hv, hqs, -⟩ := pairs_more.mp hps
    rw [effective] at h
    cases he : effective name rest with
    | some x =>
      obtain rfl : x = (l', t') := by simpa [he] using h
      exact effective_value rest he hqs
    | none =>
      rw [he, Option.none_or] at h
      split at h
      · next hn =>
        obtain ⟨rfl, rfl⟩ := by simpa using h
        exact ⟨hn, v, hv⟩
      · exact absurd h (by simp)

end AgentTestHarness.JsonMember
