import AgentTestHarness.AdminPosts
import AgentTestHarness.JsonRoundTrip

/-! Which failed answers of the admin API keep their status on the way to the test harness: those
with a body that the processing of the command can digest. -/
namespace AgentTestHarness.FailedPosts
open PyText OrderedDict PyJson JsonReading JsonWriting JsonRoundTrip Webhooks CommandRequests
open AdminPosts

def Succeeds {α : Type} (x : Except PyError α) : Prop := ∃ a, x = .ok a

section Succeeds

variable {α β : Type}

@[simp] theorem succeeds_ok (a : α) : Succeeds (.ok a : Except PyError α) := ⟨a, rfl⟩

@[simp] theorem succeeds_pure (a : α) : Succeeds (pure a : Except PyError α) := ⟨a, rfl⟩

@[simp] theorem not_succeeds_error (e : PyError) : ¬ Succeeds (.error e : Except PyError α) := by
  rintro ⟨a, h⟩
  cases h

theorem succeeds_bind {x : Except PyError α} {f : α → Except PyError β} :
    Succeeds (x >>= f) ↔ ∃ a, x = .ok a ∧ Succeeds (f a) := by
  constructor
  · rintro ⟨b, h⟩
    obtain ⟨a, ha, hb⟩ := bind_eq_ok h
    exact ⟨a, ha, b, hb⟩
  · rintro ⟨a, rfl, b, hb⟩
    exact ⟨b, hb⟩

end Succeeds

/-! Moving a field to the top level. -/

/-- The members up to the first that holds the field are containers, and that one is an object. -/
def MembersMovable (field : Str) : List (Str × Json) → Prop
  | [] => True
  | (_, v) :: ms => (∃ fs, v = .obj fs ∧ (lookup field fs).isSome) ∨
      (v.contains field = .ok false ∧ MembersMovable field ms)

def Movable (field : Str) : Json → Prop
  | .obj ms => (lookup field ms).isSome ∨ MembersMovable field ms
  | .arr items => items = [] ∨ .str field ∈ items
  | .str s => s = [] ∨ field <:+: s
  | _ => False

theorem succeeds_item {v : Json} {field : Str} :
    Succeeds (v.item field) ↔ ∃ fs, v = .obj fs ∧ (lookup field fs).isSome := by
  constructor
  · rintro ⟨w, h⟩
    obtain ⟨fs, rfl, hw⟩ := Json.item_eq_ok.mp h
    exact ⟨fs, rfl, Option.isSome_of_eq_some hw⟩
  · rintro ⟨fs, rfl, h⟩
    obtain ⟨w, hw⟩ := Option.isSome_iff_exists.mp h
    exact ⟨w, Json.item_of_lookup hw⟩

theorem findField_cons (respJson key : Json) (field : Str) (keys : List Json) :
    findField respJson field (key :: keys) = subscript respJson key >>= fun value =>
      value.contains field >>= fun found =>
        if found then value.item field >>= fun fieldValue => pure (some fieldValue)
        else findField respJson field keys := rfl

theorem findField_none {respJson : Json} {field : Str} {keys : List Json}
    (h : findField respJson field keys = .ok none) :
    ∀ key ∈ keys, ∃ v, subscript respJson key = .ok v ∧ v.contains field = .ok false := by
  induction keys with
  | nil => simp
  | cons key keys ih =>
    rw [findField_cons] at h
    obtain ⟨v, hv, h⟩ := bind_eq_ok h
    obtain ⟨found, hfound, h⟩ := bind_eq_ok h
    cases found with
    | true =>
      obtain ⟨w, -, hw⟩ := bind_eq_ok h
      exact absurd (Except.ok.inj hw) (by simp)
    | false => exact List.forall_mem_cons.mpr ⟨⟨v, hv, hfound⟩, ih h⟩

theorem findField_some {respJson fieldValue : Json} {field : Str} {keys : List Json}
    (h : findField respJson field keys = .ok (some fieldValue)) :
    ∃ key v, subscript respJson key = .ok v ∧ v.item field = .ok fieldValue := by
  induction keys with
  | nil => exact absurd (Except.ok.inj h) (by simp)
  | cons key keys ih =>
    rw [findField_cons] at h
    obtain ⟨v, hv, h⟩ := bind_eq_ok h
    obtain ⟨found, hfound, h⟩ := bind_eq_ok h
    cases found with
    | true =>
      obtain ⟨w, hw, hsome⟩ := bind_eq_ok h
      obtain rfl := Option.some.inj (Except.ok.inj hsome)
      exact ⟨key, v, hv, hw⟩
    | false => exact ih h

/-- Over the members of an object the search comes to an end exactly if they are movable. -/
theorem succeeds_findField {ms es : List (Str × Json)} {field : Str}
    (h : ∀ m ∈ es, lookup m.1 ms = some m.2) :
    Succeeds (findField (.obj ms) field (es.map fun m => .str m.1)) ↔
      MembersMovable field es := by
  induction es with
  | nil => exact ⟨fun _ => trivial, fun _ => ⟨none, rfl⟩⟩
  | cons m es ih =>
    obtain ⟨hm, hes⟩ := List.forall_mem_cons.mp h
    have hsub : subscript (.obj ms) (.str m.1) = .ok m.2 := Json.item_of_lookup hm
    rw [List.map_cons, findField_cons, succeeds_bind, MembersMovable, ← succeeds_item]
    constructor
    · rintro ⟨v, hv, hrest⟩
      obtain rfl := Except.ok.inj (hsub.symm.trans hv)
      obtain ⟨found, hfound, hrest⟩ := succeeds_bind.mp hrest
      cases found with
      | true =>
        obtain ⟨w, hw, -⟩ := succeeds_bind.mp hrest
        exact .inl ⟨w, hw⟩
      | false => exact .inr ⟨hfound, (ih hes).mp hrest⟩
    · rintro (⟨w, hw⟩ | ⟨hfound, hrest⟩)
      · exact ⟨m.2, hsub, succeeds_bind.mpr ⟨true, Json.contains_of_item hw,
          succeeds_bind.mpr ⟨w, hw, succeeds_pure _⟩⟩⟩
      · exact ⟨m.2, hsub, succeeds_bind.mpr ⟨false, hfound, (ih hes).mpr hrest⟩⟩

theorem mem_of_itemAt {items : List Json} {n : ℤ} {v : Json} (h : itemAt items n = .ok v) :
    v ∈ items := by
  unfold itemAt at h
  dsimp only at h
  generalize (if n < 0 then n + items.length else n) = position at h
  split at h
  · cases h
  · split at h
    · next hv =>
      obtain rfl := Except.ok.inj h
      exact List.mem_of_getElem? hv
    · cases h

/-- A list is indexed by numbers only, and a number contains nothing. -/
theorem subscript_items {items : List Json} {key v : Json}
    (h : subscript (.arr items) key = .ok v) :
    v ∈ items ∧ ∀ field found, key.contains field ≠ .ok found := by
  cases key with
  | int n => exact ⟨mem_of_itemAt h, fun _ _ => by simp [Json.contains]⟩
  | bool b => exact ⟨mem_of_itemAt h, fun _ _ => by simp [Json.contains]⟩
  | _ => cases h

/-- A nonempty list does not let its elements pass as indexes of containers. -/
theorem findField_items {items : List Json} {field : Str} (h : items ≠ []) :
    findField (.arr items) field items ≠ .ok none := by
  intro hnone
  obtain ⟨key, hkey⟩ := List.exists_mem_of_ne_nil _ h
  obtain ⟨v, hv, hcontains⟩ := findField_none hnone key hkey
  obtain ⟨w, hw, -⟩ := findField_none hnone v (subscript_items hv).1
  exact (subscript_items hw).2 field false hcontains

theorem findField_chars {s : Str} {field : Str} (h : s ≠ []) :
    findField (.str s) field (s.map fun c => .str [c]) ≠ .ok none := by
  intro hnone
  obtain ⟨c, hc⟩ := List.exists_mem_of_ne_nil _ h
  obtain ⟨v, hv, -⟩ := findField_none hnone (.str [c]) (List.mem_map_of_mem hc)
  cases hv

/-- What `move_field_to_top_level` does with the value it has read. -/
def moveField (respText : Text) (field : Str) (respJson : Json) : Except PyError Text :=
  respJson.contains field >>= fun found =>
    if found then pure respText
    else iterated respJson >>= fun keys => findField respJson field keys >>= fun
      | some fieldValue => (setItem respJson field fieldValue).map dumps
      | none => pure respText

theorem moveFieldToTopLevel_eq (respText : Text) (field : Str) :
    moveFieldToTopLevel respText field = loads respText >>= moveField respText field := rfl

theorem moveField_obj (respText : Text) (field : Str) (ms : List (Str × Json)) :
    moveField respText field (.obj ms) =
      if (lookup field ms).isSome then pure respText
      else findField (.obj ms) field (ms.map fun m => .str m.1) >>= fun
        | some fieldValue => .ok (dumps (.obj (assign field fieldValue ms)))
        | none => pure respText := rfl

/-- A list or a string is never changed. -/
theorem moveField_unchanged {respText text : Text} {field : Str} {j : Json}
    (h : moveField respText field j = .ok text) (hj : ∀ ms, j ≠ .obj ms) :
    text = respText ∧ (j.contains field = .ok true ∨
      ∃ keys, iterated j = .ok keys ∧ findField j field keys = .ok none) := by
  obtain ⟨found, hfound, h⟩ := bind_eq_ok h
  cases found with
  | true => exact ⟨(Except.ok.inj h).symm, .inl hfound⟩
  | false =>
    obtain ⟨keys, hkeys, h⟩ := bind_eq_ok h
    obtain ⟨result, hresult, h⟩ := bind_eq_ok h
    cases result with
    | none => exact ⟨(Except.ok.inj h).symm, .inr ⟨keys, hkeys, hresult⟩⟩
    | some fieldValue =>
      cases j with
      | obj ms => exact absurd rfl (hj ms)
      | _ => cases h

theorem succeeds_moveField {respText : Text} {field : Str} {j : Json} (hj : Loadable j) :
    Succeeds (moveField respText field j) ↔ Movable field j := by
  cases j with
  | obj ms =>
    rw [moveField_obj, Movable]
    cases hl : (lookup field ms).isSome with
    | true => simp
    | false =>
      rw [if_neg (by simp), succeeds_bind, ← succeeds_findField fun m hm => lookup_of_mem hj.1 hm]
      simp only [Bool.false_eq_true, false_or]
      constructor
      · rintro ⟨result, hresult, -⟩
        exact ⟨result, hresult⟩
      · rintro ⟨result, hresult⟩
        refine ⟨result, hresult, ?_⟩
        cases result with
        | none => exact succeeds_pure _
        | some fieldValue => exact succeeds_ok _
  | arr items =>
    constructor
    · rintro ⟨text, h⟩
      obtain ⟨-, hfound | ⟨keys, hkeys, hnone⟩⟩ := moveField_unchanged h (by simp)
      · exact .inr (by simpa [Json.contains] using hfound)
      · obtain rfl := Except.ok.inj hkeys
        exact .inl (by_contra fun hne => findField_items hne hnone)
    · rintro (rfl | hmem)
      · exact ⟨respText, rfl⟩
      · have hfound : (Json.arr items).contains field = .ok true := by
          simpa [Json.contains] using hmem
        exact succeeds_bind.mpr ⟨true, hfound, succeeds_pure _⟩
  | str s =>
    constructor
    · rintro ⟨text, h⟩
      obtain ⟨-, hfound | ⟨keys, hkeys, hnone⟩⟩ := moveField_unchanged h (by simp)
      · exact .inr (by simpa [Json.contains] using hfound)
      · obtain rfl := Except.ok.inj hkeys
        exact .inl (by_contra fun hne => findField_chars hne hnone)
    · rintro (rfl | hinfix)
      · cases hfound : decide (field <:+: ([] : Str)) with
        | true => exact succeeds_bind.mpr ⟨true, congrArg Except.ok hfound, succeeds_pure _⟩
        | false => exact succeeds_bind.mpr ⟨false, congrArg Except.ok hfound, respText, rfl⟩
      · have hfound : (Json.str s).contains field = .ok true := by
          simpa [Json.contains] using hinfix
        exact succeeds_bind.mpr ⟨true, hfound, succeeds_pure _⟩
  | _ => exact iff_of_false (not_succeeds_error _) not_false

theorem succeeds_moveFieldToTopLevel {respText : Text} {field : Str} :
    Succeeds (moveFieldToTopLevel respText field) ↔
      ∃ j, loads respText = .ok j ∧ Movable field j := by
  rw [moveFieldToTopLevel_eq, succeeds_bind]
  exact exists_congr fun j => and_congr_right fun hj =>
    succeeds_moveField (loadable_of_loads hj)

/-- What is moved within an object comes from inside of it, so the result can be read again; no
other member changes. -/
theorem moved_object {respText text : Text} {field : Str} {ms : List (Str × Json)}
    (hfield : Unpaired field) (hread : loads respText = .ok (.obj ms))
    (h : moveFieldToTopLevel respText field = .ok text) :
    ∃ ms', loads text = .ok (.obj ms') ∧ ∀ k ≠ field, lookup k ms' = lookup k ms := by
  have hms := loadable_of_loads hread
  rw [moveFieldToTopLevel_eq] at h
  obtain ⟨j, hj, h⟩ := bind_eq_ok h
  obtain rfl := Except.ok.inj (hread.symm.trans hj)
  rw [moveField_obj] at h
  split at h
  · obtain rfl := Except.ok.inj h
    exact ⟨ms, hread, fun _ _ => rfl⟩
  · obtain ⟨result, hresult, h⟩ := bind_eq_ok h
    cases result with
    | none =>
      obtain rfl := Except.ok.inj h
      exact ⟨ms, hread, fun _ _ => rfl⟩
    | some fieldValue =>
      obtain rfl := Except.ok.inj h
      obtain ⟨key, v, hv, hvalue⟩ := findField_some hresult
      obtain ⟨k, rfl⟩ : ∃ k, key = .str k := by
        cases key with
        | str k => exact ⟨k, rfl⟩
        | _ => cases hv
      have hk : lookup k ms = some v := Json.item_obj.mp hv
      obtain ⟨fs, rfl, hfieldValue⟩ := Json.item_eq_ok.mp hvalue
      have hloadable := loadable_lookup (loadable_lookup hms hk) hfieldValue
      exact ⟨_, loads_dumps (loadable_assign hfield hloadable hms), fun k hk =>
        lookup_assign_ne hk fieldValue ms⟩

theorem withMessage_eq_ok {respText text : Text} {messageName : Str} :
    withMessage respText messageName = .ok text ↔
      ∃ ms message, loads respText = .ok (.obj ms) ∧ lookup messageName ms = some message ∧
        text = dumps (.obj [("record", .obj ms), ("message", message)]) := by
  constructor
  · intro h
    obtain ⟨respJson, hread, h⟩ := bind_eq_ok h
    obtain ⟨message, hmessage, h⟩ := bind_eq_ok h
    obtain ⟨ms, rfl, hlookup⟩ := Json.item_eq_ok.mp hmessage
    exact ⟨ms, message, hread, hlookup, (Except.ok.inj h).symm⟩
  · rintro ⟨ms, message, hread, hlookup, rfl⟩
    simp only [withMessage, hread, Json.item_of_lookup hlookup, bind, Except.bind, pure,
      Except.pure]

theorem succeeds_withMessage {respText : Text} {messageName : Str} :
    Succeeds (withMessage respText messageName) ↔
      ∃ ms, loads respText = .ok (.obj ms) ∧ (lookup messageName ms).isSome := by
  constructor
  · rintro ⟨text, h⟩
    obtain ⟨ms, message, hread, hlookup, -⟩ := withMessage_eq_ok.mp h
    exact ⟨ms, hread, Option.isSome_of_eq_some hlookup⟩
  · rintro ⟨ms, hread, h⟩
    obtain ⟨message, hlookup⟩ := Option.isSome_iff_exists.mp h
    exact ⟨_, withMessage_eq_ok.mpr ⟨ms, message, hread, hlookup, rfl⟩⟩

/-! Storing a credential. -/

/-- What the loop over a stored credential makes of one of its values. -/
inductive Marked : Json → Json → Prop
  | same (v : Json) : Marked v v
  | withId {fs : List (Str × Json)} {id : Json} (h : lookup ("cred_id_stored" : Str) fs = some id) :
      Marked (.obj fs) (.obj (assign "credential_id" id fs))

theorem withCredentialId_eq_ok {v w : Json} (h : withCredentialId v = .ok w) :
    Marked v w ∧ (v.truthy = true → ∃ fs, v = .obj fs) := by
  unfold withCredentialId at h
  split at h
  · next htruthy =>
    obtain ⟨id, hid, h⟩ := bind_eq_ok h
    cases v with
    | obj fs =>
      refine ⟨?_, fun _ => ⟨fs, rfl⟩⟩
      split at h
      · next hstored =>
        obtain rfl := Except.ok.inj h
        exact .withId (Json.item_obj.mp (Json.item_of_get_truthy hid hstored))
      · obtain rfl := Except.ok.inj h
        exact .same _
    | _ => cases hid
  · next hfalse =>
    obtain rfl := Except.ok.inj h
    exact ⟨.same v, fun htruthy => absurd htruthy hfalse⟩

theorem succeeds_withCredentialId {v : Json} :
    Succeeds (withCredentialId v) ↔ (v.truthy = true → ∃ fs, v = .obj fs) := by
  constructor
  · rintro ⟨w, h⟩
    exact (withCredentialId_eq_ok h).2
  · intro h
    unfold withCredentialId
    split
    · next htruthy =>
      obtain ⟨fs, rfl⟩ := h htruthy
      refine succeeds_bind.mpr ⟨_, rfl, ?_⟩
      split
      · exact succeeds_ok _
      · exact succeeds_pure _
    · exact succeeds_pure v

theorem succeeds_withCredentialIds {ms : List (Str × Json)} :
    Succeeds (withCredentialIds ms) ↔ ∀ m ∈ ms, m.2.truthy = true → ∃ fs, m.2 = .obj fs := by
  induction ms with
  | nil => simp [withCredentialIds]
  | cons m ms ih =>
    rw [List.forall_mem_cons, ← ih, ← succeeds_withCredentialId, withCredentialIds, succeeds_bind]
    constructor
    · rintro ⟨w, hw, h⟩
      obtain ⟨ws, hws, -⟩ := succeeds_bind.mp h
      exact ⟨⟨w, hw⟩, ws, hws⟩
    · rintro ⟨⟨w, hw⟩, ws, hws⟩
      exact ⟨w, hw, succeeds_bind.mpr ⟨ws, hws, succeeds_pure _⟩⟩

theorem withCredentialIds_eq_ok {ms ms' : List (Str × Json)}
    (h : withCredentialIds ms = .ok ms') :
    List.Forall₂ (fun m m' => m'.1 = m.1 ∧ Marked m.2 m'.2) ms ms' := by
  induction ms generalizing ms' with
  | nil =>
    obtain rfl := Except.ok.inj h
    exact .nil
  | cons m ms ih =>
    obtain ⟨w, hw, h⟩ := bind_eq_ok h
    obtain ⟨ws, hws, h⟩ := bind_eq_ok h
    obtain rfl := Except.ok.inj h
    exact .cons ⟨rfl, (withCredentialId_eq_ok hw).1⟩ (ih hws)

theorem Marked.loadable {v w : Json} (h : Marked v w) (hv : Loadable v) : Loadable w := by
  cases h with
  | same => exact hv
  | withId hid => exact loadable_assign (unpaired_ofText _) (loadable_lookup hv hid) hv

/-- The added id is not the field that is moved. -/
theorem Marked.contains {v w : Json} (h : Marked v w) {field : Str}
    (hfield : field ≠ ("credential_id" : Str)) : w.contains field = v.contains field := by
  cases h with
  | same => rfl
  | withId hid => simp only [Json.contains, lookup_assign_ne hfield]

theorem Marked.item {v w : Json} (h : Marked v w) {field : Str}
    (hfield : field ≠ ("credential_id" : Str)) : w.item field = v.item field := by
  cases h with
  | same => rfl
  | withId hid => simp only [Json.item, lookup_assign_ne hfield]

variable {ms ms' : List (Str × Json)}

theorem keys_marked (h : List.Forall₂ (fun m m' => m'.1 = m.1 ∧ Marked m.2 m'.2) ms ms') :
    ms'.map Prod.fst = ms.map Prod.fst := by
  induction h with
  | nil => rfl
  | cons hm _ ih => rw [List.map_cons, List.map_cons, hm.1, ih]

theorem loadable_marked (h : List.Forall₂ (fun m m' => m'.1 = m.1 ∧ Marked m.2 m'.2) ms ms')
    (hms : Loadable (.obj ms)) : Loadable (.obj ms') := by
  refine ⟨keys_marked h ▸ hms.1, ?_⟩
  have hmembers := hms.2
  clear hms
  induction h with
  | nil => trivial
  | cons hm _ ih =>
    exact ⟨⟨hm.1 ▸ hmembers.1.1, hm.2.loadable hmembers.1.2⟩, ih hmembers.2⟩

theorem membersMovable_marked (h : List.Forall₂ (fun m m' => m'.1 = m.1 ∧ Marked m.2 m'.2) ms ms')
    {field : Str} (hfield : field ≠ ("credential_id" : Str)) :
    MembersMovable field ms' ↔ MembersMovable field ms := by
  induction h with
  | nil => rfl
  | cons hm _ ih =>
    simp only [MembersMovable, ← succeeds_item, hm.2.item hfield, hm.2.contains hfield, ih]

theorem movable_marked (h : List.Forall₂ (fun m m' => m'.1 = m.1 ∧ Marked m.2 m'.2) ms ms')
    {field : Str} (hfield : field ≠ ("credential_id" : Str)) :
    Movable field (.obj ms') ↔ Movable field (.obj ms) := by
  have htop : (lookup field ms').isSome ↔ (lookup field ms).isSome := by
    rw [Option.isSome_iff_ne_none, Option.isSome_iff_ne_none, Ne, Ne, lookup_eq_none_iff,
      lookup_eq_none_iff, keys_marked h]
  rw [Movable, Movable, htop, membersMovable_marked h hfield]

/-- The members of a stored credential with the linked-data proof under its new name. -/
def renamed (ldProof : Json) (ms : List (Str × Json)) : List (Str × Json) :=
  if ldProof.truthy then assign "json-ld" ldProof (remove "ld_proof" ms) else ms

def StoredCredential (body : Text) : Prop :=
  ∃ ms ldProof, loads body = .ok (.obj ms) ∧ lookup ("ld_proof" : Str) ms = some ldProof ∧
    (∀ m ∈ renamed ldProof ms, m.2.truthy = true → ∃ fs, m.2 = .obj fs) ∧
      Movable "state" (.obj (renamed ldProof ms))

theorem loadable_renamed {ldProof : Json} (h : Loadable (.obj ms))
    (hld : lookup ("ld_proof" : Str) ms = some ldProof) : Loadable (.obj (renamed ldProof ms)) := by
  unfold renamed
  split
  · exact loadable_assign (unpaired_ofText _) (loadable_lookup h hld) (loadable_remove _ h)
  · exact h

theorem renameLdProof_obj (ms : List (Str × Json)) :
    renameLdProof (.obj ms) = match lookup ("ld_proof" : Str) ms with
      | some ldProof => .ok (renamed ldProof ms)
      | none => .error .keyError := rfl

theorem renameLdProof_eq_ok {j : Json} :
    renameLdProof j = .ok ms' ↔ ∃ ms ldProof, j = .obj ms ∧
      lookup ("ld_proof" : Str) ms = some ldProof ∧ ms' = renamed ldProof ms := by
  constructor
  · intro h
    cases j with
    | obj ms =>
      rw [renameLdProof_obj] at h
      cases hl : lookup ("ld_proof" : Str) ms with
      | none =>
        rw [hl] at h
        cases h
      | some ldProof =>
        rw [hl] at h
        exact ⟨ms, ldProof, rfl, hl, (Except.ok.inj h).symm⟩
    | _ => cases h
  · rintro ⟨ms, ldProof, rfl, hl, rfl⟩
    rw [renameLdProof_obj, hl]

theorem storedCredential_eq (text : Text) :
    storedCredential text = loads text >>= fun respJson => renameLdProof respJson >>= fun ms =>
      withCredentialIds ms >>= fun ms => pure (dumps (.obj ms)) := rfl

theorem succeeds_stored {text : Text} :
    Succeeds (storedCredential text >>= fun text => moveFieldToTopLevel text "state") ↔
      StoredCredential text := by
  have hfield : ("state" : Str) ≠ ("credential_id" : Str) := by decide
  have hmarked : ∀ {ms ldProof ms'}, loads text = .ok (.obj ms) →
      lookup ("ld_proof" : Str) ms = some ldProof →
      withCredentialIds (renamed ldProof ms) = .ok ms' →
      (Succeeds (moveFieldToTopLevel (dumps (.obj ms')) "state") ↔
        Movable "state" (.obj (renamed ldProof ms))) := by
    intro ms ldProof ms' hread hld hids
    have marked := withCredentialIds_eq_ok hids
    have hloads := loads_dumps (loadable_marked marked
      (loadable_renamed (loadable_of_loads hread) hld))
    rw [succeeds_moveFieldToTopLevel, ← movable_marked marked hfield, hloads]
    constructor
    · rintro ⟨j, hj, hmovable⟩
      exact Except.ok.inj hj ▸ hmovable
    · intro hmovable
      exact ⟨_, rfl, hmovable⟩
  constructor
  · intro h
    obtain ⟨stored, hstored, h⟩ := succeeds_bind.mp h
    rw [storedCredential_eq] at hstored
    obtain ⟨j, hread, hstored⟩ := bind_eq_ok hstored
    obtain ⟨ms, hrename, hstored⟩ := bind_eq_ok hstored
    obtain ⟨ms', hids, hstored⟩ := bind_eq_ok hstored
    obtain rfl := Except.ok.inj hstored
    obtain ⟨ms, ldProof, rfl, hld, rfl⟩ := renameLdProof_eq_ok.mp hrename
    exact ⟨ms, ldProof, hread, hld, succeeds_withCredentialIds.mp ⟨_, hids⟩,
      (hmarked hread hld hids).mp h⟩
  · rintro ⟨ms, ldProof, hread, hld, hobjects, hmovable⟩
    obtain ⟨ms', hids⟩ := succeeds_withCredentialIds.mpr hobjects
    have hrename := renameLdProof_eq_ok.mpr ⟨ms, ldProof, rfl, hld, rfl⟩
    refine succeeds_bind.mpr ⟨dumps (.obj ms'), ?_, (hmarked hread hld hids).mpr hmovable⟩
    simp only [storedCredential_eq, hread, hrename, hids, bind, Except.bind, pure, Except.pure]

/-! Offers and requests that the handler wraps. -/

def OfferedCredential (body : Text) : Prop :=
  ∃ ms, loads body = .ok (.obj ms) ∧ (lookup ("cred_offer" : Str) ms).isSome ∧
    Movable "state" (.obj ms)

theorem succeeds_offered {text : Text} :
    Succeeds (moveFieldToTopLevel text "state" >>= fun text => withMessage text "cred_offer") ↔
      OfferedCredential text := by
  have hname : ("cred_offer" : Str) ≠ ("state" : Str) := by decide
  constructor
  · intro h
    obtain ⟨moved, hmoved, h⟩ := succeeds_bind.mp h
    obtain ⟨j, hread, hmovable⟩ := succeeds_moveFieldToTopLevel.mp ⟨moved, hmoved⟩
    obtain ⟨ms', hread', hoffer⟩ := succeeds_withMessage.mp h
    cases j with
    | obj ms =>
      obtain ⟨ms'', hread'', hother⟩ := moved_object (unpaired_ofText _) hread hmoved
      obtain rfl := Json.obj.inj (Except.ok.inj (hread'.symm.trans hread''))
      exact ⟨ms, hread, hother _ hname ▸ hoffer, hmovable⟩
    | _ =>
      -- a text that is not that of an object is not changed, so it is none after the move either
      rw [moveFieldToTopLevel_eq] at hmoved
      obtain ⟨j, hj, hmoved⟩ := bind_eq_ok hmoved
      obtain rfl := Except.ok.inj (hread.symm.trans hj)
      obtain ⟨rfl, -⟩ := moveField_unchanged hmoved (by simp)
      cases hread.symm.trans hread'
  · rintro ⟨ms, hread, hoffer, hmovable⟩
    obtain ⟨moved, hmoved⟩ := succeeds_moveFieldToTopLevel.mpr ⟨_, hread, hmovable⟩
    obtain ⟨ms', hread', hother⟩ := moved_object (unpaired_ofText _) hread hmoved
    exact succeeds_bind.mpr ⟨moved, hmoved, succeeds_withMessage.mpr
      ⟨ms', hread', hother _ hname ▸ hoffer⟩⟩

/-- The state is looked for in the answer and in the request it came with. -/
def RequestedPresentation (body : Text) : Prop :=
  ∃ ms message, loads body = .ok (.obj ms) ∧ lookup ("pres_request" : Str) ms = some message ∧
    MembersMovable "state" [("record", .obj ms), ("message", message)]

theorem succeeds_requested {text : Text} :
    Succeeds (withMessage text "pres_request" >>= fun text => moveFieldToTopLevel text "state") ↔
      RequestedPresentation text := by
  have hwrapped : ∀ {ms message}, loads text = .ok (.obj ms) →
      lookup ("pres_request" : Str) ms = some message →
      (Succeeds (moveFieldToTopLevel
        (dumps (.obj [("record", .obj ms), ("message", message)])) "state") ↔
          MembersMovable "state" [("record", .obj ms), ("message", message)]) := by
    intro ms message hread hmessage
    have hms := loadable_of_loads hread
    have hloads := loads_dumps (j := .obj [("record", .obj ms), ("message", message)])
      ⟨(by decide : [("record" : Str), "message"].Nodup), ⟨unpaired_ofText _, hms⟩,
        ⟨unpaired_ofText _, loadable_lookup hms hmessage⟩, trivial⟩
    rw [succeeds_moveFieldToTopLevel, hloads]
    constructor
    · rintro ⟨j, hj, hmovable⟩
      obtain rfl := Except.ok.inj hj
      exact hmovable.resolve_left nofun
    · intro hmovable
      exact ⟨_, rfl, .inr hmovable⟩
  constructor
  · intro h
    obtain ⟨wrapped, hwrap, h⟩ := succeeds_bind.mp h
    obtain ⟨ms, message, hread, hmessage, rfl⟩ := withMessage_eq_ok.mp hwrap
    exact ⟨ms, message, hread, hmessage, (hwrapped hread hmessage).mp h⟩
  · rintro ⟨ms, message, hread, hmessage, hmovable⟩
    exact succeeds_bind.mpr ⟨_, withMessage_eq_ok.mpr ⟨ms, message, hread, hmessage, rfl⟩,
      (hwrapped hread hmessage).mpr hmovable⟩

/-! The answer as a whole. -/

/-- The bodies of failed answers that the processing gets through. -/
def Digestible (p : Posting) (body : Text) : Prop :=
  match p with
  | .receiveInvitation | .connectionOperation | .revocation | .didExchange | .outOfBand _ => True
  | .createInvitation => ∃ j, loads body = .ok j
  | .schema => ∃ j, loads body = .ok j ∧ Movable "schema_id" j
  | .credentialDefinition => ∃ j, loads body = .ok j ∧ Movable "credential_definition_id" j
  | .issueCredential operation => operation = some "create-offer".toList →
      ∃ ms, loads body = .ok (.obj ms) ∧ (lookup ("credential_offer_dict" : Str) ms).isSome
  | .createDid _ => False
  | .issueCredentialV2 operation =>
      if operation = "store".toList then StoredCredential body
      else if operation = "create-offer".toList then OfferedCredential body
      else ∃ j, loads body = .ok j ∧ Movable "state" j
  | .proof operation => operation = some "create-request".toList → ∃ j, loads body = .ok j
  | .proofV2 operation =>
      if operation = "create-request".toList then RequestedPresentation body
      else ∃ j, loads body = .ok j ∧ Movable "state" j

theorem succeeds_afterIssueCredentialV2 {operation text : Text} :
    Succeeds (afterIssueCredentialV2 operation text) ↔
      Digestible (.issueCredentialV2 operation) text := by
  have hafter : afterIssueCredentialV2 operation text =
      (if operation = "store".toList then storedCredential text else .ok text) >>= fun text =>
        moveFieldToTopLevel text "state" >>= fun text =>
          if operation = "create-offer".toList then withMessage text "cred_offer"
          else pure text := rfl
  have hother : operation = "store".toList → operation ≠ "create-offer".toList := by
    rintro rfl
    decide
  rw [hafter, Digestible]
  split
  · next hstore =>
    simp only [if_neg (hother hstore), bind_pure]
    exact succeeds_stored
  · split
    · exact succeeds_offered
    · simp only [bind_pure]
      exact succeeds_moveFieldToTopLevel

theorem succeeds_afterProofV2 {operation text : Text} :
    Succeeds (afterProofV2 operation text) ↔ Digestible (.proofV2 operation) text := by
  have hafter : afterProofV2 operation text =
      (if operation = "create-request".toList then withMessage text "pres_request"
        else .ok text) >>= fun text => moveFieldToTopLevel text "state" := rfl
  rw [hafter, Digestible]
  split
  · exact succeeds_requested
  · exact succeeds_moveFieldToTopLevel

section Failed

variable {status : ℕ} (failed : status ≠ 200)
include failed

theorem translatedIf_failed (topic text : Text) :
    translatedIf (status = 200) topic text = .ok text := by
  simp [translatedIf, failed]

theorem succeeds_afterIssueCredential {settings : Settings} {topic text : Text}
    {operation : Option Text} :
    Succeeds (afterIssueCredential settings topic operation status text) ↔
      Digestible (.issueCredential operation) text := by
  have hafter : afterIssueCredential settings topic operation status text =
      if operation = some "create-offer".toList then withMessage text "credential_offer_dict"
      else pure text := by
    simp only [afterIssueCredential, translatedIf, failed, false_and, decide_false,
      Bool.false_eq_true, if_false]
    rfl
  rw [hafter, Digestible, ← succeeds_withMessage]
  split
  · next h => exact ⟨fun hs _ => hs, fun hs => hs h⟩
  · next h => exact ⟨fun _ h' => absurd h' h, fun _ => succeeds_pure _⟩

theorem succeeds_afterProof {topic text : Text} {operation : Option Text} :
    Succeeds (afterProof topic operation status text) ↔ Digestible (.proof operation) text := by
  have hafter : afterProof topic operation status text =
      if operation = some "create-request".toList then loads text >>= fun _ => pure text
      else pure text := by
    simp only [afterProof, translatedIf, failed, decide_false, Bool.false_eq_true, if_false]
    rfl
  rw [hafter, Digestible]
  split
  · next h =>
    rw [succeeds_bind]
    exact ⟨fun ⟨j, hj, _⟩ _ => ⟨j, hj⟩, fun hs => (hs h).imp fun j hj => ⟨hj, succeeds_pure _⟩⟩
  · next h => exact ⟨fun _ h' => absurd h' h, fun _ => succeeds_pure _⟩

theorem afterOutOfBand_failed (agent : Agent) (topic : Text) (operation : Option Text)
    (text : Text) : afterOutOfBand agent topic operation status text = .ok (status, text) := by
  simp only [afterOutOfBand, failed, false_and, if_false, translatedIf, decide_false,
    Bool.false_eq_true]
  rfl

theorem afterCreateDid_failed (didMethod : Str) (text : Text) :
    afterCreateDid didMethod status text = .ok (500, "Unable to create did".toList) := by
  simp only [afterCreateDid, createdDid, failed, if_false]
  rfl

/-- A creation of a DID apart, processing a failed answer keeps the status or raises. -/
theorem afterPost_failed (settings : Settings) (agent : Agent) (topic text : Text) (p : Posting) :
    (∃ t, afterPost settings agent topic p status text = .ok (status, t) ∧ Digestible p text) ∨
    (∃ e, afterPost settings agent topic p status text = .error e ∧ ¬ Digestible p text) ∨
    (∃ t, afterPost settings agent topic p status text = .ok (500, t) ∧ ¬ Digestible p text) := by
  -- all but two postings give the status of the answer beside the processed text
  have hkept : ∀ {x : Except PyError Text}, (Succeeds x ↔ Digestible p text) →
      afterPost settings agent topic p status text = x.map (fun t => (status, t)) →
      (∃ t, afterPost settings agent topic p status text = .ok (status, t) ∧ Digestible p text) ∨
      (∃ e, afterPost settings agent topic p status text = .error e ∧ ¬ Digestible p text) ∨
      (∃ t, afterPost settings agent topic p status text = .ok (500, t) ∧
        ¬ Digestible p text) := by
    intro x hx heq
    rw [← hx, heq]
    cases x with
    | ok t => exact .inl ⟨t, rfl, succeeds_ok t⟩
    | error e => exact .inr (.inl ⟨e, rfl, not_succeeds_error e⟩)
  have htranslated : Succeeds (translatedIf (status = 200) topic text) ↔ True := by
    rw [translatedIf_failed failed, iff_true]
    exact succeeds_ok text
  cases p with
  | createInvitation =>
    refine hkept ?_ rfl
    simp only [afterCreateInvitation, translatedIf_failed failed, succeeds_bind, succeeds_ok,
      and_true]
    rfl
  | receiveInvitation => exact hkept htranslated rfl
  | connectionOperation => exact hkept htranslated rfl
  | revocation => exact hkept htranslated rfl
  | didExchange => exact hkept htranslated rfl
  | schema => exact hkept succeeds_moveFieldToTopLevel rfl
  | credentialDefinition => exact hkept succeeds_moveFieldToTopLevel rfl
  | issueCredential operation => exact hkept (succeeds_afterIssueCredential failed) rfl
  | createDid didMethod => exact .inr (.inr ⟨_, afterCreateDid_failed failed didMethod text, id⟩)
  | issueCredentialV2 operation => exact hkept succeeds_afterIssueCredentialV2 rfl
  | proof operation => exact hkept (succeeds_afterProof failed) rfl
  | proofV2 operation => exact hkept succeeds_afterProofV2 rfl
  | outOfBand operation =>
    exact .inl ⟨text, afterOutOfBand_failed failed agent topic operation text, trivial⟩

end Failed

theorem response_status (settings : Settings) (agent : Agent) (command : BackchannelCommand) :
    (postCommandBackchannel settings agent command).status =
      match makeAgentPostRequest settings agent command with
      | .ok (status, _) => status
      | .error _ => 500 := by
  unfold postCommandBackchannel
  cases makeAgentPostRequest settings agent command with
  | error e => rfl
  | ok answer =>
    dsimp only
    split
    · rfl
    · split
      · next h => exact h.symm
      · split
        · next h => exact h.symm
        · rfl

theorem makeAgentPostRequest_posts {settings : Settings} {agent : Agent}
    {command : BackchannelCommand} {p : Posting}
    (h : course settings agent command = .ok (.posts p)) :
    makeAgentPostRequest settings agent command =
      agent.post.body >>= afterPost settings agent (command.topic.getD []) p agent.post.status := by
  unfold makeAgentPostRequest Answer.read
  rw [h]
  cases agent.post.body with
  | error e => rfl
  | ok text => rfl

/-- A failed answer of the admin API keeps its status if its body is digestible. Otherwise the
response has the status 500, whatever the answer had. -/
theorem failed_status_kept_iff {settings : Settings} {agent : Agent}
    {command : BackchannelCommand} {p : Posting}
    (posts : course settings agent command = .ok (.posts p)) (failed : agent.post.status ≠ 200) :
    (postCommandBackchannel settings agent command).status = agent.post.status ↔
      agent.post.status = 500 ∨ ∃ body, agent.post.body = .ok body ∧ Digestible p body := by
  rw [response_status, makeAgentPostRequest_posts posts]
  cases hbody : agent.post.body with
  | error e =>
    simp only [bind, Except.bind, reduceCtorEq, false_and, exists_false, or_false]
    exact eq_comm
  | ok body =>
    have hdigest : (∃ body', Except.ok body = (.ok body' : Except PyError Text) ∧
        Digestible p body') ↔ Digestible p body := by simp
    rw [hdigest]
    simp only [bind, Except.bind]
    rcases afterPost_failed failed settings agent (command.topic.getD []) body p with
      ⟨t, h, hd⟩ | ⟨e, h, hd⟩ | ⟨t, h, hd⟩
    · simp [h, hd]
    · simp only [h, hd, or_false]
      exact eq_comm
    · simp only [h, hd, or_false]
      exact eq_comm

/-- An agent without automatic responses. -/
def manual : Settings := ⟨false, false, false, false, false, false, false, false⟩

def answering (status : ℕ) (text : String) : Agent :=
  ⟨.ok none, ⟨status, .ok text.toList⟩, ⟨404, .ok []⟩, .ok (404, [])⟩

def commandOf (topic : String) (operation : Option String) : BackchannelCommand :=
  ⟨some topic.toList, operation.map String.toList, .null, .post, .obj [], .bool false⟩

theorem rejected_schema_keeps_status :
    (postCommandBackchannel manual (answering 422 "\x7b\"schema_name\": [\"Missing data\"]\x7d")
      (commandOf "schema" none)).status = 422 :=
  (failed_status_kept_iff (p := .schema) rfl (by decide)).mpr (.inr ⟨_, rfl,
    .obj [("schema_name", .arr [.str "Missing data"])], by decide +kernel,
    .inr (.inr ⟨by decide +kernel, trivial⟩)⟩)

/-- The text of an error is no JSON. -/
theorem refused_invitation_becomes_500 :
    course manual (answering 400 "400: Bad Request")
        (commandOf "connection" (some "create-invitation")) = .ok (.posts .createInvitation) ∧
      (postCommandBackchannel manual (answering 400 "400: Bad Request")
        (commandOf "connection" (some "create-invitation"))).status = 500 :=
  ⟨rfl, by decide +kernel⟩

end AgentTestHarness.FailedPosts
