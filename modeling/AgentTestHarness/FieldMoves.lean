import AgentTestHarness.FailedPosts
import AgentTestHarness.JsonMember

/-! What `move_field_to_top_level` makes of an answer that is an object. The test for the field
means something else for each kind of member, and nothing for most scalars. -/
namespace AgentTestHarness.FieldMoves
open PyText OrderedDict PyJson JsonReading JsonWriting JsonRoundTrip JsonMember Webhooks AdminPosts
open FailedPosts

/-! The purpose of the function. -/

def nestedField (field : Str) : Json → Option Json
  | .obj fs => lookup field fs
  | _ => none

/-- The field of the first member that is an object with it. -/
def firstNested (field : Str) (ms : List (Str × Json)) : Option Json :=
  ms.findSome? fun m => nestedField field m.2

/-- The object with the field at its top level, if the field is there or one level below. -/
def lifted (field : Str) (ms : List (Str × Json)) : List (Str × Json) :=
  if (lookup field ms).isSome then ms
  else match firstNested field ms with
    | some v => ms ++ [(field, v)]
    | none => ms

def Moves (respText : Text) (field : Str) (ms : List (Str × Json)) : Prop :=
  ∃ text, moveFieldToTopLevel respText field = .ok text ∧
    loads text = .ok (.obj (lifted field ms))

/-! What the search finds. -/

theorem firstNested_cons (field : Str) (m : Str × Json) (ms : List (Str × Json)) :
    firstNested field (m :: ms) = (nestedField field m.2).or (firstNested field ms) := by
  unfold firstNested
  rw [List.findSome?_cons]
  cases nestedField field m.2 <;> rfl

theorem nestedField_of_not_contains {field : Str} {v : Json} (h : v.contains field = .ok false) :
    nestedField field v = none := by
  cases v with
  | obj fs => simpa [nestedField, Json.contains] using h
  | _ => rfl

/-- If the search gets through the members, it finds what it is meant to. -/
theorem findField_of_movable {field : Str} {ms es : List (Str × Json)}
    (keys : ∀ m ∈ es, lookup m.1 ms = some m.2) (h : MembersMovable field es) :
    findField (.obj ms) field (es.map fun m => .str m.1) = .ok (firstNested field es) := by
  induction es with
  | nil => rfl
  | cons m es ih =>
    obtain ⟨hm, hes⟩ := List.forall_mem_cons.mp keys
    have hsub : subscript (.obj ms) (.str m.1) = .ok m.2 := Json.item_of_lookup hm
    rw [List.map_cons, findField_cons, hsub, firstNested_cons]
    rcases h with ⟨fs, hv, hfound⟩ | ⟨hv, h⟩
    · obtain ⟨w, hw⟩ := Option.isSome_iff_exists.mp hfound
      have hitem : m.2.item field = .ok w := hv ▸ Json.item_of_lookup hw
      have hnested : nestedField field m.2 = some w := hv ▸ hw
      simp only [bind, Except.bind, Json.contains_of_item hitem, hitem, hnested, if_true]
      rfl
    · rw [nestedField_of_not_contains hv, Option.none_or, ← ih hes h]
      simp only [bind, Except.bind, hv]
      rfl

theorem mem_of_firstNested {field : Str} {v : Json} {ms : List (Str × Json)}
    (h : firstNested field ms = some v) :
    ∃ m ∈ ms, ∃ fs, m.2 = .obj fs ∧ lookup field fs = some v := by
  obtain ⟨⟨k, w⟩, hm, hnested⟩ := List.exists_of_findSome?_eq_some h
  cases w with
  | obj fs => exact ⟨(k, .obj fs), hm, fs, rfl, hnested⟩
  | _ => cases hnested

/-- What is found can be written next to the members and read again. -/
theorem loadable_lifted {field : Str} {v : Json} {ms : List (Str × Json)} (h : Loadable (.obj ms))
    (hv : firstNested field ms = some v) : Loadable (.obj (assign field v ms)) := by
  obtain ⟨m, hm, fs, hfs, hlookup⟩ := mem_of_firstNested hv
  have hobj : Loadable (.obj fs) := hfs ▸ (loadableMembers_iff.mp h.2 m hm).2
  have hfield : Unpaired field := (loadableMembers_iff.mp hobj.2 _ (mem_of_lookup hlookup)).1
  exact loadable_assign hfield (loadable_lookup hobj hlookup) h

/-- The field gets to the top level exactly if it is there already, or the members before the
first object that has it are all of a kind that the test understands. -/
theorem field_moved_iff {respText : Text} {field : Str} {ms : List (Str × Json)}
    (hread : loads respText = .ok (.obj ms)) :
    Moves respText field ms ↔ (lookup field ms).isSome ∨ MembersMovable field ms := by
  have hms := loadable_of_loads hread
  constructor
  · rintro ⟨text, htext, -⟩
    obtain ⟨j, hj, hmovable⟩ := succeeds_moveFieldToTopLevel.mp ⟨text, htext⟩
    obtain rfl := Except.ok.inj (hread.symm.trans hj)
    exact hmovable
  · intro h
    unfold Moves lifted
    rw [moveFieldToTopLevel_eq, hread]
    cases hl : (lookup field ms).isSome with
    | true => exact ⟨respText, by simp [bind, Except.bind, moveField_obj, hl, pure, Except.pure],
        hread⟩
    | false =>
      have hmovable : MembersMovable field ms := by simpa [hl] using h
      have hfind := findField_of_movable (fun m hm => lookup_of_mem hms.1 hm) hmovable
      have habsent : field ∉ ms.map Prod.fst := by
        rw [← lookup_eq_none_iff]
        simpa using hl
      simp only [bind, Except.bind, moveField_obj, hl, hfind]
      cases hfirst : firstNested field ms with
      | none => exact ⟨respText, rfl, hread⟩
      | some v =>
        refine ⟨dumps (.obj (assign field v ms)), rfl, ?_⟩
        rw [loads_dumps (loadable_lifted hms hfirst), assign_of_not_mem v habsent]
        rfl

theorem nested_state_moved :
    Moves "\x7b\"by_format\": \x7b\x7d, \"cred_ex_record\": \x7b\"state\": \"done\"\x7d\x7d".toList
      "state" [("by_format", .obj []), ("cred_ex_record", .obj [("state", .str "done")])] :=
  (field_moved_iff (by decide +kernel)).mpr (.inr (.inr ⟨by decide +kernel,
    .inl ⟨_, rfl, by decide +kernel⟩⟩))

/-- A flag before the record stops the search. -/
theorem flag_stops_search :
    ¬ ∀ respText field ms, loads respText = .ok (.obj ms) → Moves respText field ms := by
  intro h
  have hmoves := h
    "\x7b\"auto_issue\": false, \"cred_ex_record\": \x7b\"state\": \"done\"\x7d\x7d".toList "state"
    [("auto_issue", .bool false), ("cred_ex_record", .obj [("state", .str "done")])]
    (by decide +kernel)
  obtain ⟨text, htext, -⟩ := hmoves
  have herror : moveFieldToTopLevel
      "\x7b\"auto_issue\": false, \"cred_ex_record\": \x7b\"state\": \"done\"\x7d\x7d".toList
      "state" = .error .typeError := by decide +kernel
  cases herror.symm.trans htext

end AgentTestHarness.FieldMoves
