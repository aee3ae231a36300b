import AgentTestHarness.AdminPosts
import AgentTestHarness.RoleDetection

/-! GET connection, with and without an id: the two answers are put together and translated
separately. -/
namespace AgentTestHarness.ConnectionLists
open PyText OrderedDict PyJson JsonText JsonReading JsonWriting JsonRoundTrip JsonReplacing
open StateTranslation StateReplacement WrittenStates WrittenWords AdminPosts RoleDetection

/-- An empty id counts as none. -/
def isGiven (recordId : Option Text) : Bool := recordId.any (· ≠ [])

def connectionsOperation (recordId : Option Text) : Text :=
  if isGiven recordId then "/connections/".toList ++ recordId.getD [] else "/connections".toList

def connectionInfo (connectionId state connection : Json) : Record :=
  [("connection_id", connectionId), ("state", state), ("connection", connection)]

/-- The fields of a connection, with the connection as it is to be answered. -/
def infoOf (idKey stateKey : Str) (fields connection : Json) : Except PyError Json := do
  let connectionId ← fields.item idKey
  let state ← fields.item stateKey
  pure (.obj (connectionInfo connectionId state connection))

def infosOf (idKey stateKey : Str) (respJson : Json) : Except PyError Json := do
  let results ← respJson.item "results"
  let connections ← iterated results
  let infos ← connections.mapM fun connection => infoOf idKey stateKey connection connection
  pure (.arr infos)

namespace Acapy

def getConnection (adminGet : Text → ℕ × Text) (recordId : Option Text) :
    Except PyError (ℕ × Text) := do
  let (respStatus, respText) := adminGet (connectionsOperation recordId)
  if respStatus ≠ 200 then pure (respStatus, respText)
  else
    let respJson ← loads respText
    let info ←
      if isGiven recordId then infoOf "connection_id" "state" respJson respJson
      else infosOf "connection_id" "state" respJson
    let translated ← Acapy.agentStateTranslation "connection".toList (dumps info)
    pure (respStatus, translated)

end Acapy

namespace Afgo

/-- `len(value)` -/
def len : Json → Except PyError ℕ
  | .obj ms => .ok ms.length
  | .arr xs => .ok xs.length
  | .str s => .ok s.length
  | _ => .error .typeError

/-- For the topics connection and did-exchange. The answer for one connection keeps the object
around it. -/
def getConnection (topic : Text) (adminGet : Text → ℕ × Text) (recordId : Option Text) :
    Except PyError (ℕ × Text) := do
  let (respStatus, respText) := adminGet (connectionsOperation recordId)
  if respStatus ≠ 200 then pure (respStatus, respText)
  else
    let respJson ← loads respText
    if (← len respJson) = 0 then pure (respStatus, respText)
    else
      let info ←
        if isGiven recordId then do
          let result ← respJson.item "result"
          infoOf "ConnectionID" "State" result respJson
        else infosOf "ConnectionID" "State" respJson
      let translated ← Afgo.agentStateTranslation topic none (dumps info)
      pure (respStatus, translated)

end Afgo

inductive Backchannel
  | acapy
  | afgo
  deriving DecidableEq

namespace Backchannel

def getConnection : Backchannel → (Text → ℕ × Text) → Option Text → Except PyError (ℕ × Text)
  | .acapy => Acapy.getConnection
  | .afgo => Afgo.getConnection "connection".toList

def idKey : Backchannel → Str
  | .acapy => "connection_id"
  | .afgo => "ConnectionID"

def stateKey : Backchannel → Str
  | .acapy => "state"
  | .afgo => "State"

/-- What the agent answers for one of its connections. -/
def answer : Backchannel → Record → Json
  | .acapy, r => .obj r
  | .afgo, r => .obj [("result", .obj r)]

end Backchannel

/-- A connection that an agent holds. -/
structure Connection (b : Backchannel) where
  id : Text
  state : Json
  fields : Record
  given : id ≠ []
  id_eq : lookup b.idKey fields = some (.str (ofText id))
  state_eq : lookup b.stateKey fields = some state

/-- The agent holds these connections: it lists them, and answers with each under its id. The
agent of AFGO leaves out an empty list. -/
structure Holds (b : Backchannel) (adminGet : Text → ℕ × Text) (cs : List (Connection b)) :
    Prop where
  listed : (adminGet (connectionsOperation none)).1 = 200 ∧
    ∃ ms, loads (adminGet (connectionsOperation none)).2 = .ok (.obj ms) ∧
      (lookup ("results" : Str) ms = some (.arr (cs.map fun c => .obj c.fields)) ∨
        b = .afgo ∧ cs = [] ∧ ms = [])
  answered : ∀ c ∈ cs, (adminGet (connectionsOperation (some c.id))).1 = 200 ∧
    loads (adminGet (connectionsOperation (some c.id))).2 = .ok (b.answer c.fields)

/-- The list without an id has, connection by connection, what is answered for its id. -/
def ListsAnswers (b : Backchannel) (adminGet : Text → ℕ × Text) (cs : List (Connection b)) :
    Prop :=
  ∃ text xs, b.getConnection adminGet none = .ok (200, text) ∧ loads text = .ok (.arr xs) ∧
    List.Forall₂ (fun c x => ∃ t, b.getConnection adminGet (some c.id) = .ok (200, t) ∧
      loads t = .ok x) cs xs

/-- What the list says of a connection, untranslated. -/
def Connection.info {b : Backchannel} (c : Connection b) : Record :=
  connectionInfo (.str (ofText c.id)) c.state (.obj c.fields)

theorem Connection.lookup_state {b : Backchannel} (c : Connection b) :
    lookup ("state" : Str) c.info = some c.state := rfl

/-- A state that the translation leaves as it is: a completed connection whose text speaks of DID
exchange, and of an invitee if it speaks of a role. -/
def KeepsState (r : Record) : Prop :=
  lookup ("state" : Str) r = some (.str ("completed" : Str)) ∧
    (mentions "didexchange/1.0".toList r = true ∨ mentions "didexchange/1.1".toList r = true) ∧
    (mentions "their_role".toList r = false ∨ mentions "invitee".toList r = true)

instance (r : Record) : Decidable (KeepsState r) := inferInstanceAs (Decidable (_ ∧ _))

/-! What the two answers are before they are translated. -/

theorem isGiven_some {id : Text} (h : id ≠ []) : isGiven (some id) = true := by simp [isGiven, h]

theorem infoOf_eq {idKey stateKey : Str} {r : Record} {connectionId state : Json}
    (hid : lookup idKey r = some connectionId) (hstate : lookup stateKey r = some state)
    (connection : Json) : infoOf idKey stateKey (.obj r) connection =
      .ok (.obj (connectionInfo connectionId state connection)) := by
  simp only [infoOf, Json.item_of_lookup hid, Json.item_of_lookup hstate, bind, Except.bind]
  rfl

theorem infosOf_eq {b : Backchannel} {cs : List (Connection b)} {ms : Record}
    (h : lookup ("results" : Str) ms = some (.arr (cs.map fun c => .obj c.fields))) :
    infosOf b.idKey b.stateKey (.obj ms) = .ok (.arr (cs.map fun c => .obj c.info)) := by
  have hinfos : (cs.map fun c => Json.obj c.fields).mapM
      (fun connection => infoOf b.idKey b.stateKey connection connection) =
        .ok (cs.map fun c => Json.obj c.info) := by
    rw [List.mapM_map]
    exact mapM_eq_map fun c _ => infoOf_eq c.id_eq c.state_eq _
  simp only [infosOf, Json.item_of_lookup h, iterated, hinfos, bind, Except.bind]
  rfl

section Held

variable {b : Backchannel} {adminGet : Text → ℕ × Text} {cs : List (Connection b)}
  (holds : Holds b adminGet cs)
include holds

theorem Holds.loadable {c : Connection b} (hc : c ∈ cs) : Loadable (.obj c.fields) := by
  have hanswer := loadable_of_loads (holds.answered c hc).2
  cases b with
  | acapy => exact hanswer
  | afgo => exact hanswer.2.1.2

theorem Holds.loadable_info {c : Connection b} (hc : c ∈ cs) : Loadable (.obj c.info) := by
  have hfields := holds.loadable hc
  exact ⟨(by decide : [("connection_id" : Str), "state", "connection"].Nodup),
    ⟨unpaired_ofText _, unpaired_ofText _⟩, ⟨unpaired_ofText _, loadable_lookup hfields c.state_eq⟩,
    ⟨unpaired_ofText _, hfields⟩, trivial⟩

theorem Holds.loadable_infos : Loadable (.arr (cs.map fun c => .obj c.info)) := by
  have hitems : ∀ ds : List (Connection b), ds ⊆ cs →
      LoadableItems (ds.map fun c => .obj c.info) := by
    intro ds hds
    induction ds with
    | nil => trivial
    | cons d ds ih =>
      obtain ⟨hd, hds⟩ := List.cons_subset.mp hds
      exact ⟨holds.loadable_info hd, ih hds⟩
  exact hitems cs fun _ hc => hc

end Held

/-! The list has no state of its own, so it is never translated. -/

theorem state_not_mem {b : Backchannel} (cs : List (Connection b)) :
    (Json.arr (cs.map fun c => .obj c.info)).contains "state" = .ok false := by
  have hnot : Json.str ("state" : Str) ∉ cs.map fun c => Json.obj c.info := by
    intro hmem
    obtain ⟨c, -, hc⟩ := List.mem_map.mp hmem
    exact absurd hc (by simp)
  have hcontains : (cs.map fun c => Json.obj c.info).contains (.str ("state" : Str)) = false :=
    Bool.eq_false_iff.mpr fun h => hnot (List.contains_iff_mem.mp h)
  rw [Json.contains, hcontains]

section Acapy

variable {adminGet : Text → ℕ × Text} {cs : List (Connection .acapy)}
  (holds : Holds .acapy adminGet cs)
include holds

theorem acapy_list : Acapy.getConnection adminGet none =
    .ok (200, dumps (.arr (cs.map fun c => .obj c.info))) := by
  obtain ⟨hstatus, ms, hload, hresults | ⟨habsurd, -⟩⟩ := holds.listed
  · have hinfos : infosOf "connection_id" "state" (.obj ms) = _ := infosOf_eq hresults
    have htranslated : Acapy.agentStateTranslation "connection".toList
        (dumps (.arr (cs.map fun c => .obj c.info))) =
          .ok (dumps (.arr (cs.map fun c => .obj c.info))) := by
      simp only [Acapy.agentStateTranslation, loads_dumps holds.loadable_infos,
        state_not_mem, bind, Except.bind]
      rfl
    simp only [Acapy.getConnection, hstatus, hload, isGiven, Option.any_none, hinfos, htranslated,
      bind, Except.bind, ne_eq, not_true_eq_false, if_false, Bool.false_eq_true]
    rfl
  · exact absurd habsurd (by simp)

theorem acapy_single {c : Connection .acapy} (hc : c ∈ cs) :
    Acapy.getConnection adminGet (some c.id) =
      (Acapy.agentStateTranslation "connection".toList (dumps (.obj c.info))).map
        (200, ·) := by
  have hstatus := (holds.answered c hc).1
  have hload : loads (adminGet (connectionsOperation (some c.id))).2 = .ok (.obj c.fields) :=
    (holds.answered c hc).2
  have hinfo : infoOf "connection_id" "state" (.obj c.fields) (.obj c.fields) =
      .ok (.obj c.info) := infoOf_eq c.id_eq c.state_eq _
  simp only [Acapy.getConnection, hstatus, hload, isGiven_some c.given, hinfo, bind, Except.bind,
    ne_eq, not_true_eq_false, if_false, if_true]
  cases Acapy.agentStateTranslation "connection".toList
    (dumps (.obj c.info)) with
  | error e => rfl
  | ok text => rfl

end Acapy

/-- No entry of the tables for a role but the responder's for a completed connection keeps the
state. -/
theorem kept_entry {data : Text} {t : Table} (ht : Acapy.deStateTransMethod data = some t) :
    ∀ e ∈ t, e.1 = e.2 → e.1 = "completed".toList ∧
      t = Acapy.didExchangeResponderStateTranslationDict := by
  unfold Acapy.deStateTransMethod at ht
  split_ifs at ht <;> obtain rfl := Option.some.inj ht <;> decide

theorem no_connection_entry_kept :
    ∀ e ∈ Acapy.connectionStateTranslationDict, e.2 ≠ e.1 := by
  decide

theorem deStateTransMethod_responder_iff {r : Record} :
    Acapy.deStateTransMethod (dumps (.obj r)) =
        some Acapy.didExchangeResponderStateTranslationDict ↔
      mentions "their_role".toList r = false ∨ mentions "invitee".toList r = true := by
  have hne : Acapy.didExchangeRequesterStateTranslationDict ≠
      Acapy.didExchangeResponderStateTranslationDict := by decide
  have hrole : isIn "their_role".toList (dumps (.obj r)) = mentions "their_role".toList r := rfl
  have hinvitee : isIn "invitee".toList (dumps (.obj r)) = mentions "invitee".toList r := rfl
  rw [Acapy.deStateTransMethod, hrole, hinvitee]
  cases mentions "their_role".toList r with
  | false => exact iff_of_true rfl (.inl rfl)
  | true => cases mentions "invitee".toList r with
    | true => exact iff_of_true rfl (.inr rfl)
    | false =>
      refine iff_of_false ?_ (by simp)
      rw [if_pos rfl, if_neg (by simp)]
      split
      · simpa using hne
      · simp

/-- The translation of a record gives it back just if it keeps the state. -/
theorem translated_self_iff {r : Record} (loadable : Loadable (.obj r)) {state : Json}
    (hstate : lookup ("state" : Str) r = some state) :
    (∃ text, Acapy.agentStateTranslation "connection".toList (dumps (.obj r)) =
        .ok text ∧ loads text = .ok (.obj r)) ↔ KeepsState r := by
  constructor
  · rintro ⟨text, htext, hload⟩
    have htop := (topState_of_loads htext hload).trans hstate
    by_cases hmention :
        (mentions "didexchange/1.0".toList r || mentions "didexchange/1.1".toList r) = true
    · have hm : Acapy.method "connection".toList (dumps (.obj r)) = _ :=
        method_connection.trans (if_pos hmention)
      rw [topState_of_stateValue loadable hm] at htop
      obtain ⟨new, hchosen, rfl⟩ := Option.map_eq_some_iff.mp htop
      obtain ⟨style, t, old, hm', he, hold⟩ := chosenEntry_eq_some hchosen
      rw [hm] at hm'
      obtain ⟨-, ht⟩ := Prod.mk.inj (Option.some.inj hm')
      have hsame : old = new := by
        rw [hstate] at hold
        exact ofText_injective (Json.str.inj (Option.some.inj hold)).symm
      obtain ⟨rfl, rfl⟩ := kept_entry ht _ he hsame
      exact ⟨hold, Bool.or_eq_true_iff.mp hmention, deStateTransMethod_responder_iff.mp ht⟩
    · have hm : Acapy.method "connection".toList (dumps (.obj r)) = _ :=
        method_connection.trans (if_neg hmention)
      cases hchosen : chosenEntry "connection".toList r with
      | none =>
        rw [topState_of_chosenEntry loadable hm hchosen] at htop
        exact absurd htop (by simp)
      | some new =>
        obtain ⟨style, t, old, hm', he, hold⟩ := chosenEntry_eq_some hchosen
        rw [hm] at hm'
        obtain ⟨-, ht⟩ := Prod.mk.inj (Option.some.inj hm')
        obtain rfl := Option.some.inj ht
        rw [topState_of_bare loadable he hm hold, ← hstate, hold] at htop
        split at htop
        · exact absurd htop (by simp)
        · exact absurd (ofText_injective (Json.str.inj (Option.some.inj htop)))
            (no_connection_entry_kept _ he)
  · rintro ⟨hcompleted, hmention, hrole⟩
    have ht := deStateTransMethod_responder_iff.mpr hrole
    have hm : Acapy.method "connection".toList (dumps (.obj r)) =
        some (.stateValue, some
          Acapy.didExchangeResponderStateTranslationDict) := by
      rw [← ht]
      exact method_connection.trans (if_pos (Bool.or_eq_true_iff.mpr hmention))
    have he : ("completed".toList, "completed".toList) ∈
        Acapy.didExchangeResponderStateTranslationDict := by decide
    have htext := acapy_eq (loads_dumps loadable) hcompleted hm
      (tableEntry_of_mem (sound_acapy hm).1 he)
    have hne : pattern .stateValue "completed".toList ≠ [] := by decide
    rw [replaceState, replace_self hne] at htext
    exact ⟨_, htext, loads_dumps loadable⟩

/-! The answer of the AFGO backchannel for one connection keeps the object around it, so it is
never that of the list. -/

theorem afgo_empty {adminGet : Text → ℕ × Text}
    (hstatus : (adminGet (connectionsOperation none)).1 = 200)
    (hload : loads (adminGet (connectionsOperation none)).2 = .ok (.obj [])) :
    Afgo.getConnection "connection".toList adminGet none =
      .ok (200, (adminGet (connectionsOperation none)).2) := by
  simp only [Afgo.getConnection, hstatus, hload, Afgo.len, bind, Except.bind, ne_eq,
    not_true_eq_false, if_false, List.length_nil, if_true]
  rfl

/-- The object in which a connection is answered for its id. -/
def wrapped (c : Connection .afgo) : Record :=
  connectionInfo (.str (ofText c.id)) c.state (.obj [("result", .obj c.fields)])

section Afgo

variable {adminGet : Text → ℕ × Text} {cs : List (Connection .afgo)}
  (holds : Holds .afgo adminGet cs)
include holds

theorem afgo_list {ms : Record} (hload : loads (adminGet (connectionsOperation none)).2 =
      .ok (.obj ms))
    (hresults : lookup ("results" : Str) ms = some (.arr (cs.map fun c => .obj c.fields))) :
    Afgo.getConnection "connection".toList adminGet none =
      .ok (200, dumps (.arr (cs.map fun c => .obj c.info))) := by
  have hstatus := holds.listed.1
  have hlen : ms.length ≠ 0 := by
    intro h
    obtain rfl := List.eq_nil_of_length_eq_zero h
    exact absurd hresults (by simp)
  have hinfos : infosOf "ConnectionID" "State" (.obj ms) = _ := infosOf_eq hresults
  have htranslated : Afgo.agentStateTranslation "connection".toList none
      (dumps (.arr (cs.map fun c => .obj c.info))) =
        .ok (dumps (.arr (cs.map fun c => .obj c.info))) := by
    have htopic : "connection".toList ≠ "out-of-band".toList := by decide
    have hproof : Afgo.isProof "connection".toList = false := by decide
    simp only [Afgo.agentStateTranslation, loads_dumps holds.loadable_infos, state_not_mem,
      htopic, hproof, bind, Except.bind]
    rfl
  simp only [Afgo.getConnection, hstatus, hload, Afgo.len, hlen, isGiven, Option.any_none, hinfos,
    htranslated, bind, Except.bind, ne_eq, not_true_eq_false, if_false, Bool.false_eq_true]
  rfl

theorem Holds.loadable_wrapped {c : Connection .afgo} (hc : c ∈ cs) :
    Loadable (.obj (wrapped c)) := by
  have hfields := holds.loadable hc
  have hanswer := loadable_of_loads (holds.answered c hc).2
  exact ⟨(by decide : [("connection_id" : Str), "state", "connection"].Nodup),
    ⟨unpaired_ofText _, unpaired_ofText _⟩, ⟨unpaired_ofText _, loadable_lookup hfields c.state_eq⟩,
    ⟨unpaired_ofText _, hanswer⟩, trivial⟩

theorem afgo_single {c : Connection .afgo} (hc : c ∈ cs) :
    Afgo.getConnection "connection".toList adminGet (some c.id) =
      (Afgo.agentStateTranslation "connection".toList none (dumps (.obj (wrapped c)))).map
        (200, ·) := by
  have hstatus := (holds.answered c hc).1
  have hload : loads (adminGet (connectionsOperation (some c.id))).2 =
      .ok (.obj [("result", .obj c.fields)]) := (holds.answered c hc).2
  have hresult : (Json.obj [("result", .obj c.fields)]).item "result" = .ok (.obj c.fields) :=
    Json.item_of_lookup rfl
  have hinfo : infoOf "ConnectionID" "State" (.obj c.fields) (.obj [("result", .obj c.fields)]) =
      .ok (.obj (wrapped c)) := infoOf_eq c.id_eq c.state_eq _
  simp only [Afgo.getConnection, hstatus, hload, Afgo.len, isGiven_some c.given, hresult, hinfo,
    bind, Except.bind, ne_eq, not_true_eq_false, if_false, if_true, List.length_cons,
    List.length_nil, Nat.add_eq_zero_iff, Nat.one_ne_zero, and_false]
  cases Afgo.agentStateTranslation "connection".toList none (dumps (.obj (wrapped c))) with
  | error e => rfl
  | ok text => rfl

end Afgo

theorem afgo_words : ∀ e ∈ Afgo.connectionResponderStateTranslationDict, Words e.1 e.2 := by
  have hnonempty : ∀ e ∈ Afgo.connectionResponderStateTranslationDict, e.2 ≠ [] := by
    decide
  have hmethod : Afgo.method "connection".toList none =
      some (.bare, Afgo.connectionResponderStateTranslationDict) := by decide
  exact fun e he => ⟨(sound_afgo hmethod).1.2 e he, hnonempty e he⟩

/-- The translation replaces a word of the table throughout the text. -/
theorem afgo_translated {r : Record} (loadable : Loadable (.obj r)) {state : Json}
    (hstate : lookup ("state" : Str) r = some state) {text : Text}
    (h : Afgo.agentStateTranslation "connection".toList none (dumps (.obj r)) = .ok text) :
    ∃ e ∈ Afgo.connectionResponderStateTranslationDict, state = .str (ofText e.1) ∧
      text = replace e.1 e.2 (dumps (.obj r)) := by
  have hmethod : Afgo.method "connection".toList none =
      some (.bare, Afgo.connectionResponderStateTranslationDict) := by decide
  have hswap : Afgo.swapsCompleted "connection".toList none (dumps (.obj r)) = false := by
    simp [Afgo.swapsCompleted]
  simp only [Afgo.agentStateTranslation, loads_dumps loadable, Json.contains_of_lookup hstate,
    Json.item_of_lookup hstate, hmethod, hswap, bind, Except.bind, if_true,
    Bool.false_eq_true, if_false] at h
  cases htable : tableEntry Afgo.connectionResponderStateTranslationDict state with
  | error err =>
    simp only [htable] at h
    exact absurd h (by simp)
  | ok e =>
    simp only [htable] at h
    obtain ⟨he, hold⟩ := tableEntry_eq_ok htable
    exact ⟨e, he, hold, (Except.ok.inj h).symm⟩

/-- An object with a single member is reworded to one. -/
theorem reword_single {old new : Text} {k : Str} {v : Json} {ms : Record}
    (h : reword old new (.obj [(k, v)]) = some (.obj ms)) : ms.length = 1 := by
  obtain ⟨ps, hps, hdict⟩ := Option.map_eq_some_iff.mp h
  obtain ⟨l, -, hps⟩ := Option.bind_eq_some_iff.mp hps
  obtain ⟨w, -, hps⟩ := Option.bind_eq_some_iff.mp hps
  obtain rfl := Option.some.inj hps
  rw [← Json.obj.inj hdict]
  rfl

theorem reword_str {old new : Text} {s : Str} {ms : Record} :
    reword old new (.str s) ≠ some (.obj ms) := by
  intro h
  obtain ⟨t, -, ht⟩ := Option.map_eq_some_iff.mp h
  exact absurd ht (by simp)

theorem length_fields (c : Connection .afgo) : c.fields.length ≠ 1 := by
  intro hlen
  obtain ⟨⟨k, v⟩, hfields⟩ := List.length_eq_one_iff.mp hlen
  have hid := mem_of_lookup c.id_eq
  have hstate := mem_of_lookup c.state_eq
  rw [hfields] at hid hstate
  have hkeys : Backchannel.afgo.idKey = Backchannel.afgo.stateKey :=
    (Prod.mk.inj (List.mem_singleton.mp hid)).1.trans
      (Prod.mk.inj (List.mem_singleton.mp hstate)).1.symm
  exact absurd hkeys (by decide)

theorem afgo_never {c : Connection .afgo} (loadable : Loadable (.obj (wrapped c))) :
    ¬ ∃ text, Afgo.agentStateTranslation "connection".toList none (dumps (.obj (wrapped c))) =
      .ok text ∧ loads text = .ok (.obj c.info) := by
  rintro ⟨text, htext, hload⟩
  obtain ⟨e, he, hstate, rfl⟩ := afgo_translated loadable rfl htext
  have hreword := ((afgo_words e he).loads_replace loadable).mp hload
  obtain ⟨ps, hps, hdict⟩ := Option.map_eq_some_iff.mp hreword
  have hconnection : (("connection" : Str), Json.obj c.fields) ∈ dict ps := by
    rw [Json.obj.inj hdict]
    simp [Connection.info, connectionInfo]
  -- the connection would have to come from one of the three members
  obtain ⟨m, hm, -, hvalue⟩ := (rewordMembers_mem hps).2 _ (mem_of_mem_dict hconnection)
  rw [wrapped, connectionInfo, hstate] at hm
  simp only [List.mem_cons, List.not_mem_nil, or_false] at hm
  rcases hm with rfl | rfl | rfl
  · exact reword_str hvalue
  · exact reword_str hvalue
  · exact length_fields c (reword_single hvalue)

/-- When the list has the answers: with ACA-Py if the translation keeps the state of every
connection, with AFGO only if there is none and the agent says so. -/
def Unaltered : (b : Backchannel) → (Text → ℕ × Text) → List (Connection b) → Prop
  | .acapy, _, cs => ∀ c ∈ cs, KeepsState c.info
  | .afgo, adminGet, cs =>
    cs = [] ∧ loads (adminGet (connectionsOperation none)).2 ≠ .ok (.obj [])

/-- The list is answered untranslated, so all depends on the answers for the ids. -/
theorem listsAnswers_of_list {b : Backchannel} {adminGet : Text → ℕ × Text}
    {cs : List (Connection b)} (loadable : Loadable (.arr (cs.map fun c => .obj c.info)))
    (h : b.getConnection adminGet none = .ok (200, dumps (.arr (cs.map fun c => .obj c.info)))) :
    ListsAnswers b adminGet cs ↔ ∀ c ∈ cs, ∃ t,
      b.getConnection adminGet (some c.id) = .ok (200, t) ∧ loads t = .ok (.obj c.info) := by
  have hload := loads_dumps loadable
  constructor
  · rintro ⟨text, xs, htext, hxs, hanswers⟩
    rw [h] at htext
    obtain ⟨-, rfl⟩ := Prod.mk.inj (Except.ok.inj htext)
    rw [hload] at hxs
    obtain rfl := Json.arr.inj (Except.ok.inj hxs)
    exact List.forall₂_same.mp (List.forall₂_map_right_iff.mp hanswers)
  · intro hanswers
    exact ⟨_, _, h, hload, List.forall₂_map_right_iff.mpr (List.forall₂_same.mpr hanswers)⟩

/-- What is answered for an id is the translated text. -/
theorem exists_map_iff {x : Except PyError Text} {j : Json} :
    (∃ t, x.map (200, ·) = .ok (200, t) ∧ loads t = .ok j) ↔
      ∃ t, x = .ok t ∧ loads t = .ok j := by
  cases x with
  | error e => simp [Except.map]
  | ok text => simp [Except.map]

theorem acapy_answers_iff {adminGet : Text → ℕ × Text} {cs : List (Connection .acapy)}
    (holds : Holds .acapy adminGet cs) {c : Connection .acapy} (hc : c ∈ cs) :
    (∃ t, Backchannel.acapy.getConnection adminGet (some c.id) = .ok (200, t) ∧
      loads t = .ok (.obj c.info)) ↔ KeepsState c.info := by
  have hsingle : Backchannel.acapy.getConnection adminGet (some c.id) = _ := acapy_single holds hc
  rw [hsingle, exists_map_iff]
  exact translated_self_iff (holds.loadable_info hc) c.lookup_state

/-- The list without an id has the answers for the ids just if the translation does not alter
them. -/
theorem listsAnswers_iff (b : Backchannel) (adminGet : Text → ℕ × Text)
    (cs : List (Connection b)) (holds : Holds b adminGet cs) :
    ListsAnswers b adminGet cs ↔ Unaltered b adminGet cs := by
  cases b with
  | acapy =>
    rw [listsAnswers_of_list holds.loadable_infos (acapy_list holds)]
    exact forall₂_congr fun c hc => acapy_answers_iff holds hc
  | afgo =>
    obtain ⟨hstatus, ms, hload, hresults⟩ := holds.listed
    rw [Unaltered, hload]
    by_cases hms : ms = []
    · subst hms
      refine iff_of_false ?_ fun h => h.2 rfl
      rintro ⟨text, xs, htext, hxs, -⟩
      have hempty : Backchannel.afgo.getConnection adminGet none = .ok (200, _) :=
        afgo_empty hstatus hload
      rw [hempty] at htext
      obtain ⟨-, rfl⟩ := Prod.mk.inj (Except.ok.inj htext)
      rw [hload] at hxs
      exact absurd (Except.ok.inj hxs) (by simp)
    · have hresults := hresults.resolve_right fun h => hms h.2.2
      rw [listsAnswers_of_list holds.loadable_infos (afgo_list holds hload hresults)]
      constructor
      · intro h
        refine ⟨List.eq_nil_iff_forall_not_mem.mpr fun c hc => ?_, ?_⟩
        · have hanswer := h c hc
          have hsingle : Backchannel.afgo.getConnection adminGet (some c.id) = _ :=
            afgo_single holds hc
          rw [hsingle, exists_map_iff] at hanswer
          exact afgo_never (holds.loadable_wrapped hc) hanswer
        · exact fun h => hms (Json.obj.inj (Except.ok.inj h))
      · rintro ⟨rfl, -⟩ c hc
        exact absurd hc List.not_mem_nil

/-- An agent with one connection. -/
def agentWith {b : Backchannel} (c : Connection b) (path : Text) : ℕ × Text :=
  if path = "/connections".toList then (200, dumps (.obj [("results", .arr [.obj c.fields])]))
  else (200, dumps (b.answer c.fields))

theorem holds_agentWith {b : Backchannel} (c : Connection b) (loadable : Loadable (.obj c.fields)) :
    Holds b (agentWith c) [c] := by
  have hlisted : Loadable (.obj [("results", .arr [.obj c.fields])]) :=
    ⟨by simp, ⟨unpaired_ofText _, loadable, trivial⟩, trivial⟩
  have hanswer : Loadable (b.answer c.fields) := by
    cases b with
    | acapy => exact loadable
    | afgo => exact ⟨by simp, ⟨unpaired_ofText _, loadable⟩, trivial⟩
  have hpath : connectionsOperation (some c.id) ≠ "/connections".toList := by
    rw [connectionsOperation, if_pos (isGiven_some c.given)]
    intro h
    have hlength := congrArg List.length h
    have hlong : "/connections/".toList.length = "/connections".toList.length + 1 := by
      decide
    rw [List.length_append, hlong] at hlength
    omega
  refine ⟨⟨rfl, _, loads_dumps hlisted, .inl rfl⟩, fun d hd => ?_⟩
  obtain rfl := List.mem_singleton.mp hd
  rw [agentWith, if_neg hpath]
  exact ⟨rfl, loads_dumps hanswer⟩

def connectionFields (state theirRole protocol : Text) : Record :=
  [("connection_id", .str ("c1" : Str)), ("state", .str (ofText state)),
    ("their_role", .str (ofText theirRole)), ("connection_protocol", .str (ofText protocol))]

def acapyConnection (state theirRole protocol : Text) : Connection .acapy :=
  ⟨"c1".toList, .str (ofText state), connectionFields state theirRole protocol, by decide,
    rfl, rfl⟩

theorem loadable_connectionFields (state theirRole protocol : Text) :
    Loadable (.obj (connectionFields state theirRole protocol)) :=
  ⟨(by decide : [("connection_id" : Str), "state", "their_role", "connection_protocol"].Nodup),
    ⟨unpaired_ofText _, unpaired_ofText _⟩, ⟨unpaired_ofText _, unpaired_ofText _⟩,
    ⟨unpaired_ofText _, unpaired_ofText _⟩, ⟨unpaired_ofText _, unpaired_ofText _⟩, trivial⟩

/-- The completed exchange of an invitee is listed as it is answered. -/
theorem completed_invitee_listed :
    ListsAnswers .acapy
      (agentWith (acapyConnection "completed".toList "invitee".toList "didexchange/1.0".toList))
      [acapyConnection "completed".toList "invitee".toList "didexchange/1.0".toList] := by
  refine (listsAnswers_iff .acapy _ _ (holds_agentWith _ (loadable_connectionFields _ _ _))).mpr ?_
  intro c hc
  obtain rfl := List.mem_singleton.mp hc
  decide +kernel

/-- An active connection is listed as active and answered as complete. -/
theorem active_connection_listed_untranslated :
    Holds .acapy
        (agentWith (acapyConnection "active".toList "invitee".toList "connections/1.0".toList))
        [acapyConnection "active".toList "invitee".toList "connections/1.0".toList] ∧
      ¬ ListsAnswers .acapy
        (agentWith (acapyConnection "active".toList "invitee".toList "connections/1.0".toList))
        [acapyConnection "active".toList "invitee".toList "connections/1.0".toList] := by
  have holds := holds_agentWith
    (acapyConnection "active".toList "invitee".toList "connections/1.0".toList)
    (loadable_connectionFields _ _ _)
  refine ⟨holds, fun hlists => ?_⟩
  rw [listsAnswers_of_list holds.loadable_infos (acapy_list holds)] at hlists
  have hkeeps := (acapy_answers_iff holds List.mem_cons_self).mp (hlists _ List.mem_cons_self)
  exact absurd hkeeps (by decide)

end AgentTestHarness.ConnectionLists
