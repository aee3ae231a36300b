import AgentTestHarness.PyJson

/-! The store of webhook messages shared by the backchannels: messages by data id and data
type, and the two-way mapping between data ids and exchange ids. Every function takes the
lock for its whole body, so each is one step. -/
namespace AgentTestHarness.Storage
open PyText OrderedDict PyJson

/-- A queue of messages is stored as a JSON array; `store_resource` stores any value. -/
structure Store where
  storage : Dict Json (Dict Str Json)
  dataToExchId : Dict Str (Dict Json Json)
  exchToDataId : Dict Str (Dict Json Json)
  deriving DecidableEq

def empty : Store := ⟨Dict.empty, Dict.empty, Dict.empty⟩

def dataExchMappingName (dataType exchIdName : Str) : Str := dataType ++ ("." : Str) ++ exchIdName

/-- What is stored under a data id and a data type. -/
def Store.slot (s : Store) (key : Json) (dataType : Str) : Option Json :=
  (s.storage.get? key).bind fun types => types.get? dataType

def Store.setSlot (s : Store) (key : Json) (dataType : Str) (value : Json) : Store :=
  { s with storage :=
      s.storage.set key (((s.storage.get? key).getD Dict.empty).set dataType value) }

def Store.delSlot (s : Store) (key : Json) (dataType : Str) : Store :=
  match s.storage.get? key with
  | none => s
  | some types => { s with storage := s.storage.set key (types.del dataType) }

/-- The messages queued under a data id and a data type, oldest first. -/
def Store.queue (s : Store) (key : Json) (dataType : Str) : List Json :=
  match s.slot key dataType with
  | some (.arr messages) => messages
  | _ => []

/-- `mappings[name][key] = value`, creating the mapping of that name if needed. -/
def setMapping (mappings : Dict Str (Dict Json Json)) (name : Str) (key value : Json) :
    Dict Str (Dict Json Json) :=
  mappings.set name (((mappings.get? name).getD Dict.empty).set key value)

/-- An unhashable exchange id raises after the first half of the mapping is written. -/
def addDataExchMapping (dataId : Json) (dataType : Str) (data : Json) (exchIdName : Option Str)
    (s : Store) : Except PyError Unit × Store :=
  match exchIdName with
  | none => (.ok (), s)
  | some name =>
    if name = [] then (.ok (), s) else
    match data.contains name, data.item name, dataId.asKey with
    | .error e, _, _ => (.error e, s)
    | .ok false, _, _ => (.ok (), s)
    | .ok true, .error e, _ => (.error e, s)
    | .ok true, .ok _, .error e => (.error e, s)
    | .ok true, .ok exchId, .ok key =>
      let mapping := dataExchMappingName dataType name
      let t := { s with dataToExchId := setMapping s.dataToExchId mapping key exchId }
      match exchId.asKey with
      | .error e =>
          (.error e, { t with exchToDataId :=
            t.exchToDataId.set mapping ((t.exchToDataId.get? mapping).getD Dict.empty) })
      | .ok exchKey =>
          (.ok (), { t with exchToDataId := setMapping t.exchToDataId mapping exchKey dataId })

/-- Read one direction of a mapping; None when no mapping of that name exists. -/
def readMapping (mappings : Dict Str (Dict Json Json)) (name : Str) (id : Json) :
    Except PyError Json :=
  match mappings.get? name with
  | none => .ok .null
  | some mapping => match id.asKey with
    | .error e => .error e
    | .ok key => match mapping.get? key with
      | none => .error .keyError
      | some value => .ok value

def getDataIdFromExchId (dataType exchIdName : Str) (exchId : Json) (s : Store) :
    Except PyError Json :=
  readMapping s.exchToDataId (dataExchMappingName dataType exchIdName) exchId

def getExchIdFromDataId (dataType exchIdName : Str) (dataId : Json) (s : Store) :
    Except PyError Json :=
  readMapping s.dataToExchId (dataExchMappingName dataType exchIdName) dataId

def storeResource (dataId : Json) (dataType : Str) (data : Json) (exchIdName : Option Str)
    (s : Store) : Except PyError Json × Store :=
  match dataId.asKey with
  | .error e => (.error e, s)
  | .ok key =>
    match addDataExchMapping dataId dataType data exchIdName (s.setSlot key dataType data) with
    | (.error e, t) => (.error e, t)
    | (.ok _, t) => (.ok data, t)

def getResource (dataId : Json) (dataType : Str) (s : Store) : Except PyError Json :=
  match dataId.asKey with
  | .error e => .error e
  | .ok key => .ok ((s.slot key dataType).getD .null)

/-- `value[-1]`. -/
def lastItem : Json → Except PyError Json
  | .arr messages => match messages.getLast? with
    | some m => .ok m
    | none => .error .indexError
  | .str s => match s.getLast? with
    | some c => .ok (.str [c])
    | none => .error .indexError
  | .obj _ => .error .keyError
  | _ => .error .typeError

/-- Looks only under the data id that came into the store last, whatever it holds. -/
def getResourceLatest (dataType : Str) (s : Store) : Except PyError Json :=
  match s.storage.keys.getLast? with
  | none => .error .indexError
  | some key => match s.slot key dataType with
    | none => .error .keyError
    | some value => lastItem value

def deleteResource (dataId : Json) (dataType : Str) (s : Store) : Except PyError Json × Store :=
  match dataId.asKey with
  | .error e => (.error e, s)
  | .ok key => match s.slot key dataType with
    | none => (.ok .null, s)
    | some value => (.ok value, s.delSlot key dataType)

/-- The message is appended before the mapping is written, so an error of the mapping
leaves it stored. -/
def pushResource (dataId : Json) (dataType : Str) (data : Json) (exchIdName : Option Str)
    (s : Store) : Except PyError Json × Store :=
  match dataId.asKey with
  | .error e => (.error e, s)
  | .ok key =>
    match (s.slot key dataType).getD (.arr []) with
    | .arr messages =>
      match addDataExchMapping dataId dataType data exchIdName
          (s.setSlot key dataType (.arr (messages ++ [data]))) with
      | (.error e, t) => (.error e, t)
      | (.ok _, t) => (.ok data, t)
    | _ => (.error .attributeError, s)

/-- What taking an item from a stored value that is no queue does: nothing if it is
empty, and an exception otherwise. -/
def popOther : Json → Except PyError Json
  | .str s => if s = [] then .ok .null else .error .typeError
  | .obj ms => if ms = [] then .ok .null else .error .keyError
  | _ => .error .typeError

def popResource (dataId : Json) (dataType : Str) (s : Store) : Except PyError Json × Store :=
  match dataId.asKey with
  | .error e => (.error e, s)
  | .ok key => match s.slot key dataType with
    | none => (.ok .null, s)
    | some (.arr []) => (.ok .null, s)
    | some (.arr (m :: ms)) => (.ok m, s.setSlot key dataType (.arr ms))
    | some value => (popOther value, s)

/-- Takes the newest message under the data id that came into the store last. -/
def popResourceLatest (dataType : Str) (s : Store) : Except PyError Json × Store :=
  match s.storage.keys.getLast? with
  | none => (.error .indexError, s)
  | some key => match s.slot key dataType with
    | none => (.ok .null, s)
    | some (.arr messages) => match messages.getLast? with
      | none => (.ok .null, s)
      | some m => (.ok m, s.setSlot key dataType (.arr messages.dropLast))
    | some value => (popOther value, s)

@[simp] theorem slot_empty (key : Json) (d : Str) : empty.slot key d = none := rfl

theorem slot_setSlot (s : Store) (key k : Json) (d e : Str) (v : Json) :
    (s.setSlot key d v).slot k e = if k = key ∧ e = d then some v else s.slot k e := by
  unfold Store.slot Store.setSlot
  simp only [Dict.get?_set]
  by_cases hk : k = key
  · subst hk
    cases hs : s.storage.get? k with
    | none => by_cases he : e = d <;> simp [Dict.get?_set, he]
    | some types => by_cases he : e = d <;> simp [Dict.get?_set, he]
  · simp [hk]

theorem slot_delSlot (s : Store) (key k : Json) (d e : Str) :
    (s.delSlot key d).slot k e = if k = key ∧ e = d then none else s.slot k e := by
  unfold Store.delSlot
  cases hs : s.storage.get? key with
  | none =>
    by_cases hk : k = key
    · subst hk; simp [Store.slot, hs]
    · simp [hk]
  | some types =>
    unfold Store.slot
    simp only [Dict.get?_set]
    by_cases hk : k = key
    · subst hk
      by_cases he : e = d <;> simp [Dict.get?_del, he, hs]
    · simp [hk]

theorem queue_setSlot (s : Store) (key k : Json) (d e : Str) (ms : List Json) :
    (s.setSlot key d (.arr ms)).queue k e = if k = key ∧ e = d then ms else s.queue k e := by
  unfold Store.queue
  rw [slot_setSlot]
  split_ifs <;> rfl

/-- The mapping is apart from the messages. -/
@[simp] theorem addDataExchMapping_storage (id : Json) (d : Str) (data : Json) (name : Option Str)
    (s : Store) : (addDataExchMapping id d data name s).2.storage = s.storage := by
  unfold addDataExchMapping
  cases name with
  | none => rfl
  | some name =>
    by_cases hn : name = []
    · simp [hn]
    · simp only [if_neg hn]
      split <;> try rfl
      split <;> rfl

theorem slot_congr {s t : Store} (h : s.storage = t.storage) (key : Json) (d : Str) :
    s.slot key d = t.slot key d := by
  simp [Store.slot, h]

theorem queue_congr {s t : Store} (h : s.storage = t.storage) (key : Json) (d : Str) :
    s.queue key d = t.queue key d := by
  simp [Store.queue, slot_congr h]

theorem slot_of_queue_ne_nil {s : Store} {key : Json} {d : Str} (h : s.queue key d ≠ []) :
    s.slot key d = some (.arr (s.queue key d)) := by
  unfold Store.queue at h ⊢
  cases hs : s.slot key d with
  | none => simp [hs] at h
  | some v => cases v <;> simp_all

/-! Data types under which nothing but queues is stored. -/

def Store.Queued (s : Store) (d : Str) : Prop :=
  ∀ key v, s.slot key d = some v → ∃ ms, v = .arr ms

theorem queued_empty (d : Str) : empty.Queued d := by
  intro key v h
  simp at h

theorem Store.Queued.congr {s t : Store} {d : Str} (h : s.Queued d)
    (hst : t.storage = s.storage) : t.Queued d := by
  intro key v hv
  exact h key v (slot_congr hst key d ▸ hv)

theorem Store.Queued.setSlot {s : Store} {d : Str} (h : s.Queued d) (key : Json) (e : Str)
    (ms : List Json) : (s.setSlot key e (.arr ms)).Queued d := by
  intro k v hv
  rw [slot_setSlot] at hv
  split at hv
  · exact ⟨ms, (Option.some.inj hv).symm⟩
  · exact h k v hv

theorem Store.Queued.slot_getD {s : Store} {d : Str} (h : s.Queued d) (key : Json) :
    (s.slot key d).getD (.arr []) = .arr (s.queue key d) := by
  cases hs : s.slot key d with
  | none => simp [Store.queue, hs]
  | some v =>
    obtain ⟨ms, rfl⟩ := h key v hs
    simp [Store.queue, hs]

theorem pushResource_of_unhashable {id : Json} {e : PyError} (hk : id.asKey = .error e) (d : Str)
    (data : Json) (name : Option Str) (s : Store) :
    pushResource id d data name s = (.error e, s) := by
  simp [pushResource, hk]

/-- A push stores the message even if the mapping written afterwards raises. -/
theorem pushResource_storage {s : Store} {d : Str} (h : s.Queued d) {id key : Json}
    (hk : id.asKey = .ok key) (data : Json) (name : Option Str) :
    (pushResource id d data name s).2.storage =
      (s.setSlot key d (.arr (s.queue key d ++ [data]))).storage := by
  have hm := addDataExchMapping_storage id d data name
    (s.setSlot key d (.arr (s.queue key d ++ [data])))
  simp only [pushResource, hk, h.slot_getD key]
  cases hr : addDataExchMapping id d data name
      (s.setSlot key d (.arr (s.queue key d ++ [data]))) with
  | mk r t => cases r <;> simpa [hr] using hm

theorem popResource_of_queued {s : Store} {d : Str} (h : s.Queued d) {id key : Json}
    (hk : id.asKey = .ok key) :
    popResource id d s = match s.queue key d with
      | [] => (.ok .null, s)
      | m :: ms => (.ok m, s.setSlot key d (.arr ms)) := by
  unfold popResource Store.queue
  rw [hk]
  cases hs : s.slot key d with
  | none => simp [hs]
  | some v =>
    obtain ⟨ms, rfl⟩ := h key v hs
    cases ms <;> simp [hs]

theorem popResourceLatest_of_queued {s : Store} {d : Str} (h : s.Queued d) :
    popResourceLatest d s = match s.storage.keys.getLast? with
      | none => (.error .indexError, s)
      | some key => match (s.queue key d).getLast? with
        | none => (.ok .null, s)
        | some m => (.ok m, s.setSlot key d (.arr (s.queue key d).dropLast)) := by
  unfold popResourceLatest
  cases s.storage.keys.getLast? with
  | none => rfl
  | some key =>
    cases hslot : s.slot key d with
    | none => simp [Store.queue, hslot]
    | some v =>
      obtain ⟨ms, rfl⟩ := h key v hslot
      have hqueue : s.queue key d = ms := by simp [Store.queue, hslot]
      dsimp only
      rw [hqueue]
      cases hlast : ms.getLast? with
      | none => simp [hslot, hlast]
      | some m => simp [hslot, hlast]

theorem getResourceLatest_of_queued {s : Store} {d : Str} (h : s.Queued d) {m : Json}
    (hget : getResourceLatest d s = .ok m) :
    ∃ key, s.storage.keys.getLast? = some key ∧ (s.queue key d).getLast? = some m := by
  unfold getResourceLatest at hget
  cases hlast : s.storage.keys.getLast? with
  | none => simp [hlast] at hget
  | some key =>
    cases hslot : s.slot key d with
    | none => simp [hlast, hslot] at hget
    | some v =>
      obtain ⟨ms, rfl⟩ := h key v hslot
      have hqueue : s.queue key d = ms := by simp [Store.queue, hslot]
      simp only [hlast, hslot, lastItem] at hget
      refine ⟨key, rfl, ?_⟩
      rw [hqueue]
      cases hm : ms.getLast? with
      | none => simp [hm] at hget
      | some m' =>
        simp only [hm, Except.ok.injEq] at hget
        rw [hget]

/-! What is recorded in a mapping. -/

def recorded (mappings : Dict Str (Dict Json Json)) (name : Str) (key : Json) : Option Json :=
  (mappings.get? name).bind fun mapping => mapping.get? key

theorem recorded_setMapping (mappings : Dict Str (Dict Json Json)) (name name' : Str)
    (key key' value : Json) :
    recorded (setMapping mappings name key value) name' key' =
      if name' = name ∧ key' = key then some value else recorded mappings name' key' := by
  unfold recorded setMapping
  rw [Dict.get?_set]
  rcases eq_or_ne name' name with rfl | hname
  · rw [if_pos rfl, Option.bind_some, Dict.get?_set]
    cases mappings.get? name' <;> simp
  · simp [hname]

theorem readMapping_of_recorded {mappings : Dict Str (Dict Json Json)} {name : Str}
    {id key value : Json} (hk : id.asKey = .ok key) (h : recorded mappings name key = some value) :
    readMapping mappings name id = .ok value := by
  obtain ⟨mapping, hmapping, hvalue⟩ := Option.bind_eq_some_iff.mp h
  simp [readMapping, hmapping, hk, hvalue]

/-- A push of a message with a hashable exchange id records both ways. -/
theorem pushResource_mapping {s : Store} {d name : Str} (h : s.Queued d) (hname : name ≠ [])
    {id key data exchId exchKey : Json} (hk : id.asKey = .ok key)
    (hitem : data.item name = .ok exchId) (hexch : exchId.asKey = .ok exchKey) :
    (pushResource id d data (some name) s).2.dataToExchId =
        setMapping s.dataToExchId (dataExchMappingName d name) key exchId ∧
      (pushResource id d data (some name) s).2.exchToDataId =
        setMapping s.exchToDataId (dataExchMappingName d name) exchKey id := by
  have hcontains := Json.contains_of_item hitem
  simp only [pushResource, hk, h.slot_getD key, addDataExchMapping, if_neg hname, hcontains,
    hitem, hexch]
  exact ⟨rfl, rfl⟩

end AgentTestHarness.Storage
