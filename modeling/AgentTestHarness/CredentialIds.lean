import AgentTestHarness.PyJson

/-! The id under which a holder has stored a credential, looked for at any depth of an answer. None,
the result of a search that finds nothing, is JSON's null. -/
namespace AgentTestHarness.CredentialIds
open PyText OrderedDict PyJson

abbrev credentialId : Str := "credential_id"

mutual
def findCredentialId : Json → Json
  | .obj ms => findInMembers ms
  | .arr xs => findInItems xs
  | _ => .null
def findInMembers : List (Str × Json) → Json
  | [] => .null
  | (key, value) :: ms =>
    if key = credentialId then value
    else
      let result := findCredentialId value
      if result = .null then findInMembers ms else result
def findInItems : List Json → Json
  | [] => .null
  | x :: xs =>
    let result := findCredentialId x
    if result = .null then findInItems xs else result
end

/-! The ids of a tree in document order. -/

inductive Within : Json → Json → Prop
  | here (t : Json) : Within t t
  | member {t value : Json} {key : Str} {ms : List (Str × Json)} :
    (key, value) ∈ ms → Within t value → Within t (.obj ms)
  | item {t x : Json} {xs : List Json} : x ∈ xs → Within t x → Within t (.arr xs)

/-- The value of a member "credential_id". It is hidden if a null id stands before it in an object
that it is in. -/
structure Occurrence where
  value : Json
  hidden : Bool
  deriving DecidableEq

mutual
def occurrences (hidden : Bool) : Json → List Occurrence
  | .obj ms => memberOccurrences hidden ms
  | .arr xs => itemOccurrences hidden xs
  | _ => []
def memberOccurrences (hidden : Bool) : List (Str × Json) → List Occurrence
  | [] => []
  | (key, value) :: ms =>
    (if key = credentialId then [⟨value, hidden⟩] else []) ++ (occurrences hidden value ++
      memberOccurrences (hidden || decide (key = credentialId ∧ value = .null)) ms)
def itemOccurrences (hidden : Bool) : List Json → List Occurrence
  | [] => []
  | x :: xs => occurrences hidden x ++ itemOccurrences hidden xs
end

/-- The ids other than null. -/
def ids (t : Json) : List Occurrence := (occurrences false t).filter (·.value ≠ .null)

/-- What is found is the first id, if there is one. -/
def FindsFirst (t : Json) : Prop :=
  (findCredentialId t ≠ .null ↔
    ∃ ms v, Within (.obj ms) t ∧ (credentialId, v) ∈ ms ∧ v ≠ .null) ∧
  ∀ o, (ids t).head? = some o → findCredentialId t = o.value

/-- The first id is not hidden, or it is the same as the first that is not. -/
def Shown (t : Json) : Prop :=
  ∀ o, (ids t).head? = some o → ∃ o', (ids t).find? (!·.hidden) = some o' ∧ o'.value = o.value

/-! Every id occurs. -/

mutual
theorem mem_occurrences {v : Json} (hidden : Bool) (t : Json) :
    (∃ o ∈ occurrences hidden t, o.value = v) ↔
      ∃ ms, Within (.obj ms) t ∧ (credentialId, v) ∈ ms := by
  cases t with
  | obj ms =>
    rw [occurrences, mem_memberOccurrences hidden ms]
    constructor
    · rintro (hmem | ⟨⟨key, value⟩, hmem, ms', hwithin, hv⟩)
      · exact ⟨ms, .here _, hmem⟩
      · exact ⟨ms', .member hmem hwithin, hv⟩
    · rintro ⟨ms', hwithin, hv⟩
      cases hwithin with
      | here => exact .inl hv
      | member hmem hwithin => exact .inr ⟨_, hmem, ms', hwithin, hv⟩
  | arr xs =>
    rw [occurrences, mem_itemOccurrences hidden xs]
    constructor
    · rintro ⟨x, hmem, ms', hwithin, hv⟩
      exact ⟨ms', .item hmem hwithin, hv⟩
    · rintro ⟨ms', hwithin, hv⟩
      cases hwithin with
      | item hmem hwithin => exact ⟨_, hmem, ms', hwithin, hv⟩
  | _ =>
    refine iff_of_false (by simp [occurrences]) ?_
    rintro ⟨ms, hwithin, -⟩
    cases hwithin
theorem mem_memberOccurrences {v : Json} (hidden : Bool) (ms : List (Str × Json)) :
    (∃ o ∈ memberOccurrences hidden ms, o.value = v) ↔ (credentialId, v) ∈ ms ∨
      ∃ m ∈ ms, ∃ ms', Within (.obj ms') m.2 ∧ (credentialId, v) ∈ ms' := by
  match ms with
  | [] => simp [memberOccurrences]
  | (key, value) :: ms =>
    have hvalue := @mem_occurrences v hidden value
    have hrest := @mem_memberOccurrences v
      (hidden || decide (key = credentialId ∧ value = .null)) ms
    have hhere : (∃ o ∈ (if key = credentialId then [(⟨value, hidden⟩ : Occurrence)] else []),
        o.value = v) ↔ (credentialId, v) = (key, value) := by
      split
      · next hkey => simp [hkey, eq_comm]
      · next hkey => simpa using fun heq => absurd heq.symm hkey
    simp only [memberOccurrences, List.mem_append, or_and_right, exists_or, hhere, hvalue, hrest,
      List.mem_cons, exists_eq_left]
    rw [or_assoc]
    exact or_congr_right or_left_comm
theorem mem_itemOccurrences {v : Json} (hidden : Bool) (xs : List Json) :
    (∃ o ∈ itemOccurrences hidden xs, o.value = v) ↔
      ∃ x ∈ xs, ∃ ms', Within (.obj ms') x ∧ (credentialId, v) ∈ ms' := by
  match xs with
  | [] => simp [itemOccurrences]
  | x :: xs =>
    have hvalue := @mem_occurrences v hidden x
    have hrest := @mem_itemOccurrences v hidden xs
    simp only [itemOccurrences, List.mem_append, or_and_right, exists_or, hvalue, hrest,
      List.mem_cons, exists_eq_left]
end

theorem exists_id_iff {t : Json} : ids t ≠ [] ↔
    ∃ ms v, Within (.obj ms) t ∧ (credentialId, v) ∈ ms ∧ v ≠ .null := by
  unfold ids
  rw [Ne, List.filter_eq_nil_iff]
  push Not
  constructor
  · rintro ⟨o, ho, hvalue⟩
    obtain ⟨ms, hwithin, hmem⟩ := (mem_occurrences false t).mp ⟨o, ho, rfl⟩
    exact ⟨ms, o.value, hwithin, hmem, of_decide_eq_true hvalue⟩
  · rintro ⟨ms, v, hwithin, hmem, hv⟩
    obtain ⟨o, ho, rfl⟩ := (mem_occurrences false t).mpr ⟨ms, hwithin, hmem⟩
    exact ⟨o, ho, decide_eq_true hv⟩

/-! The search finds the first id that is not hidden. -/

mutual
theorem hidden_occurrences (t : Json) : ∀ o ∈ occurrences true t, o.hidden = true := by
  cases t with
  | obj ms => exact hidden_memberOccurrences ms
  | arr xs => exact hidden_itemOccurrences xs
  | _ => simp [occurrences]
theorem hidden_memberOccurrences (ms : List (Str × Json)) :
    ∀ o ∈ memberOccurrences true ms, o.hidden = true := by
  match ms with
  | [] => simp [memberOccurrences]
  | (key, value) :: ms =>
    rw [memberOccurrences, Bool.true_or]
    refine List.forall_mem_append.mpr ⟨?_, List.forall_mem_append.mpr ⟨?_, ?_⟩⟩
    · split <;> simp
    · exact hidden_occurrences value
    · exact hidden_memberOccurrences ms
theorem hidden_itemOccurrences (xs : List Json) :
    ∀ o ∈ itemOccurrences true xs, o.hidden = true := by
  match xs with
  | [] => simp [itemOccurrences]
  | x :: xs =>
    rw [itemOccurrences]
    exact List.forall_mem_append.mpr ⟨hidden_occurrences x, hidden_itemOccurrences xs⟩
end

def shown (o : Occurrence) : Bool := !o.hidden && decide (o.value ≠ .null)

def firstShown (os : List Occurrence) : Json := ((os.find? shown).map (·.value)).getD .null

theorem firstShown_append (os os' : List Occurrence) :
    firstShown (os ++ os') = if firstShown os = .null then firstShown os' else firstShown os := by
  unfold firstShown
  rw [List.find?_append]
  cases hfirst : os.find? shown with
  | none => rfl
  | some o =>
    have hvalue : o.value ≠ .null := by
      have hshown := List.find?_some hfirst
      simpa using (Bool.and_eq_true_iff.mp hshown).2
    simp [hvalue]

theorem firstShown_hidden {os : List Occurrence} (h : ∀ o ∈ os, o.hidden = true) :
    firstShown os = .null := by
  have hnone : os.find? shown = none :=
    List.find?_eq_none.mpr fun o ho => by simp [shown, h o ho]
  rw [firstShown, hnone]
  rfl

mutual
theorem findCredentialId_eq (t : Json) : findCredentialId t = firstShown (occurrences false t) := by
  cases t with
  | obj ms => exact findInMembers_eq ms
  | arr xs => exact findInItems_eq xs
  | _ => rfl
theorem findInMembers_eq (ms : List (Str × Json)) :
    findInMembers ms = firstShown (memberOccurrences false ms) := by
  match ms with
  | [] => rfl
  | (key, value) :: ms =>
    rw [findInMembers, memberOccurrences, firstShown_append, firstShown_append]
    by_cases hkey : key = credentialId
    · simp only [hkey, if_true, true_and, Bool.false_or]
      by_cases hvalue : value = .null
      · -- the rest of the object is not searched
        have hrest : firstShown (memberOccurrences true ms) = .null :=
          firstShown_hidden (hidden_memberOccurrences ms)
        subst hvalue
        simp only [decide_true, hrest]
        rfl
      · have hhere : firstShown [⟨value, false⟩] = value := by simp [firstShown, shown, hvalue]
        rw [hhere, if_neg hvalue]
    · have hnone : firstShown [] = .null := rfl
      simp only [hkey, if_false, false_and, decide_false, Bool.or_false, hnone, if_true]
      rw [findCredentialId_eq value, findInMembers_eq ms]
theorem findInItems_eq (xs : List Json) :
    findInItems xs = firstShown (itemOccurrences false xs) := by
  match xs with
  | [] => rfl
  | x :: xs =>
    rw [findInItems, itemOccurrences, firstShown_append, findCredentialId_eq x, findInItems_eq xs]
end

theorem findCredentialId_eq_ids (t : Json) :
    findCredentialId t = (((ids t).find? (!·.hidden)).map (·.value)).getD .null := by
  have hfind : (ids t).find? (!·.hidden) = (occurrences false t).find? shown := by
    rw [ids, List.find?_filter]
    exact congrArg (List.find? · _) (funext fun o => by simp [shown, and_comm])
  rw [findCredentialId_eq, firstShown, hfind]

theorem value_of_head? {t : Json} {o : Occurrence} (h : (ids t).head? = some o) :
    o.value ≠ .null :=
  of_decide_eq_true (List.mem_filter.mp (List.mem_of_mem_head? h)).2

/-- The first id is found exactly if it is not hidden, or another of the same value is not: after a
null id the search of its object ends. -/
theorem finds_first_iff (t : Json) : FindsFirst t ↔ Shown t := by
  constructor
  · rintro ⟨-, hfirst⟩ o ho
    have hfound := hfirst o ho
    rw [findCredentialId_eq_ids] at hfound
    cases hshown : (ids t).find? (!·.hidden) with
    | none =>
      rw [hshown] at hfound
      exact absurd hfound.symm (value_of_head? ho)
    | some o' =>
      rw [hshown] at hfound
      exact ⟨o', rfl, hfound⟩
  · intro hshown
    have hfirst : ∀ o, (ids t).head? = some o → findCredentialId t = o.value := by
      intro o ho
      obtain ⟨o', ho', hvalue⟩ := hshown o ho
      rw [findCredentialId_eq_ids, ho']
      exact hvalue
    refine ⟨?_, hfirst⟩
    rw [← exists_id_iff]
    cases hids : ids t with
    | nil =>
      have hnone : findCredentialId t = .null := by
        rw [findCredentialId_eq_ids, hids]
        rfl
      simp [hnone]
    | cons o os =>
      have ho : (ids t).head? = some o := by rw [hids, List.head?_cons]
      simp [hfirst o ho, value_of_head? ho]

/-- An answer with the ids of two formats, the first in a record behind an empty place for it. -/
def storedAnswer : Json :=
  .obj [("state", .str "done"),
    ("indy", .obj [("credential_id", .null), ("record", .obj [("credential_id", .str "indy-1")])]),
    ("json-ld", .obj [("credential_id", .str "ld-1")])]

theorem id_behind_null_missed : ¬ ∀ t, FindsFirst t := by
  intro h
  have hfirst := (h storedAnswer).2 ⟨.str "indy-1", true⟩ (by decide +kernel)
  revert hfirst
  decide +kernel

end AgentTestHarness.CredentialIds
