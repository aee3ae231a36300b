import AgentTestHarness.Runs
import AgentTestHarness.Storage

/-! The "latest" functions of the store against what they are called for: the most
recently pushed message of a type, under whatever data id it is stored. -/
namespace AgentTestHarness.StorageLatest
open PyText PyJson Storage Runs

/-- For each data type, the messages still stored with their data ids, oldest push first. -/
abbrev Arrivals := Str → List (Json × Json)

structure History where
  store : Store
  arrivals : Arrivals

inductive Call
  | push (dataId : Json) (dataType : Str) (data : Json) (exchIdName : Option Str)
  | pop (dataId : Json) (dataType : Str)
  | popLatest (dataType : Str)
  | store (dataId : Json) (dataType : Str) (data : Json) (exchIdName : Option Str)
  | delete (dataId : Json) (dataType : Str)
  deriving DecidableEq

/-- A data type is used either with push and pop or with store and delete. -/
def Call.proper (queued : Str → Bool) : Call → Bool
  | .push _ d _ _ => queued d
  | .pop _ d => queued d
  | .popLatest d => queued d
  | .store _ d _ _ => !queued d
  | .delete _ d => !queued d

def Call.run : Call → Store → Store
  | .push id d data name, s => (pushResource id d data name s).2
  | .pop id d, s => (popResource id d s).2
  | .popLatest d, s => (popResourceLatest d s).2
  | .store id d data name, s => (storeResource id d data name s).2
  | .delete id d, s => (deleteResource id d s).2

def messagesOf (key : Json) (l : List (Json × Json)) : List Json :=
  (l.filter fun e => e.1 = key).map Prod.snd

def eraseFirst (key : Json) (l : List (Json × Json)) : List (Json × Json) :=
  l.eraseP fun e => e.1 = key

def eraseLast (key : Json) (l : List (Json × Json)) : List (Json × Json) :=
  (eraseFirst key l.reverse).reverse

/-- What the call does to the messages of its own type. -/
def Call.track (s : Store) (l : List (Json × Json)) : Call → List (Json × Json)
  | .push id _ data _ => match id.asKey with
    | .ok key => l ++ [(key, data)]
    | .error _ => l
  | .pop id _ => match id.asKey with
    | .ok key => eraseFirst key l
    | .error _ => l
  | .popLatest _ => match s.storage.keys.getLast? with
    | some key => eraseLast key l
    | none => l
  | .store _ _ _ _ => l
  | .delete _ _ => l

def Call.dataType : Call → Str
  | .push _ d _ _ => d
  | .pop _ d => d
  | .popLatest d => d
  | .store _ d _ _ => d
  | .delete _ d => d

def start : History := ⟨Storage.empty, fun _ => []⟩

def step (queued : Str → Bool) (h : History) (c : Call) : Option History :=
  if c.proper queued then
    some ⟨c.run h.store,
      Function.update h.arrivals c.dataType (c.track h.store (h.arrivals c.dataType))⟩
  else none

/-- The most recently pushed message of the type that is still stored, with its data id. -/
def History.newest (h : History) (d : Str) : Option (Json × Json) := (h.arrivals d).getLast?

/-- What both functions are to report: the newest message, or None. -/
def History.report (h : History) (d : Str) : Json :=
  match h.newest d with
  | none => .null
  | some (_, m) => m

def History.withoutNewest (h : History) (d : Str) : Store :=
  match h.newest d with
  | none => h.store
  | some (key, _) => h.store.setSlot key d (.arr (h.store.queue key d).dropLast)

/-- `pop_resource_latest` removes and returns the newest message of the type, and
`get_resource_latest` returns it; without one both report None. -/
def LatestSpec (h : History) (d : Str) : Prop :=
  popResourceLatest d h.store = (.ok (h.report d), h.withoutNewest d) ∧
    getResourceLatest d h.store = .ok (h.report d)

instance (h : History) (d : Str) : Decidable (LatestSpec h d) :=
  inferInstanceAs (Decidable (_ ∧ _))

/-- The newest stored message of the type is under the data id that came into the store
last. -/
def NewestUnderLastId (h : History) (d : Str) : Prop :=
  ∃ key m, h.newest d = some (key, m) ∧ h.store.storage.keys.getLast? = some key

/-- The store holds, for each type used with push and pop, the queues of its arrivals. -/
structure Tracks (queued : Str → Bool) (h : History) : Prop where
  isQueue : ∀ d, queued d → h.store.Queued d
  queue_eq : ∀ d, queued d → ∀ key, h.store.queue key d = messagesOf key (h.arrivals d)

@[simp] theorem messagesOf_nil (key : Json) : messagesOf key [] = [] := rfl

theorem messagesOf_append (key : Json) (l l' : List (Json × Json)) :
    messagesOf key (l ++ l') = messagesOf key l ++ messagesOf key l' := by
  simp [messagesOf]

theorem messagesOf_singleton (key k : Json) (m : Json) :
    messagesOf key [(k, m)] = if key = k then [m] else [] := by
  by_cases h : key = k
  · simp [messagesOf, h]
  · simp [messagesOf, h, Ne.symm h]

theorem messagesOf_reverse (key : Json) (l : List (Json × Json)) :
    messagesOf key l.reverse = (messagesOf key l).reverse := by
  simp [messagesOf]

theorem messagesOf_eraseFirst (key k : Json) (l : List (Json × Json)) :
    messagesOf k (eraseFirst key l) = if k = key then (messagesOf k l).tail else messagesOf k l := by
  induction l with
  | nil => simp [eraseFirst]
  | cons e l ih =>
    have cons_eq : ∀ l', messagesOf k (e :: l') = (if e.1 = k then [e.2] else []) ++ messagesOf k l' := by
      intro l'
      by_cases h : e.1 = k <;> simp [messagesOf, h]
    by_cases he : e.1 = key
    · have : eraseFirst key (e :: l) = l := by simp [eraseFirst, he]
      rw [this, cons_eq]
      by_cases hk : k = key
      · simp [hk, he]
      · simp [hk, he, Ne.symm hk]
    · have : eraseFirst key (e :: l) = e :: eraseFirst key l := by simp [eraseFirst, he]
      rw [this, cons_eq, cons_eq, ih]
      by_cases hk : k = key
      · subst hk; simp [he]
      · simp [hk]

theorem messagesOf_eraseLast (key k : Json) (l : List (Json × Json)) :
    messagesOf k (eraseLast key l) =
      if k = key then (messagesOf k l).dropLast else messagesOf k l := by
  rw [eraseLast, messagesOf_reverse, messagesOf_eraseFirst, messagesOf_reverse]
  by_cases hk : k = key
  · simp [hk, List.tail_reverse]
  · simp [hk]

section Tracking

variable {queued : Str → Bool}

theorem start_tracks : Tracks queued start :=
  ⟨fun d _ => queued_empty d, by simp [start, Store.queue]⟩

/-- A change of another type leaves the queues of this one alone. -/
theorem Tracks.of_slots {h : History} (ht : Tracks queued h) {s : Store} {a : Arrivals}
    (slots : ∀ d, queued d → ∀ key, s.slot key d = h.store.slot key d)
    (arrivals : ∀ d, queued d → a d = h.arrivals d) : Tracks queued ⟨s, a⟩ := by
  constructor
  · intro d hd key v hv
    exact ht.isQueue d hd key v (slots d hd key ▸ hv)
  · intro d hd key
    have := ht.queue_eq d hd key
    simpa [Store.queue, slots d hd key, arrivals d hd] using this

/-- Setting the queue of one data id to what its arrivals have become keeps track. -/
theorem Tracks.setQueue {h : History} (ht : Tracks queued h) {d : Str} {key : Json}
    {ms : List Json} {l : List (Json × Json)}
    (mine : messagesOf key l = ms) (others : ∀ k, k ≠ key → messagesOf k l = messagesOf k (h.arrivals d)) :
    Tracks queued ⟨h.store.setSlot key d (.arr ms), Function.update h.arrivals d l⟩ := by
  constructor
  · intro e he k v hv
    simp only [slot_setSlot] at hv
    split_ifs at hv with hc
    · exact ⟨ms, (Option.some.inj hv).symm⟩
    · exact ht.isQueue e he k v hv
  · intro e he k
    simp only [queue_setSlot, Function.update_apply]
    by_cases hd : e = d
    · subst hd
      by_cases hk : k = key
      · simp [hk, mine]
      · simp [hk, others k hk, ht.queue_eq e he]
    · simp [hd, ht.queue_eq e he]

theorem Tracks.unchanged {h : History} (ht : Tracks queued h) {d : Str}
    {l : List (Json × Json)} (same : ∀ k, messagesOf k l = messagesOf k (h.arrivals d)) :
    Tracks queued ⟨h.store, Function.update h.arrivals d l⟩ := by
  refine ⟨ht.isQueue, ?_⟩
  intro e he k
  by_cases hd : e = d
  · subst hd; simp [same, ht.queue_eq e he]
  · simp [hd, ht.queue_eq e he]

theorem Tracks.push {h : History} (ht : Tracks queued h) {d : Str} (hd : queued d)
    (id data : Json) (name : Option Str) :
    Tracks queued ⟨(Call.push id d data name).run h.store, Function.update h.arrivals d
      ((Call.push id d data name).track h.store (h.arrivals d))⟩ := by
  cases hk : id.asKey with
  | error e =>
    simpa [Call.run, Call.track, pushResource, hk] using ht
  | ok key =>
    have tracked : Tracks queued ⟨h.store.setSlot key d (.arr (h.store.queue key d ++ [data])),
        Function.update h.arrivals d (h.arrivals d ++ [(key, data)])⟩ := by
      refine ht.setQueue ?_ ?_
      · rw [messagesOf_append, messagesOf_singleton, ← ht.queue_eq d hd]; simp
      · intro k hk; simp [messagesOf_append, messagesOf_singleton, hk]
    have stored : ((Call.push id d data name).run h.store).storage =
        (h.store.setSlot key d (.arr (h.store.queue key d ++ [data]))).storage :=
      pushResource_storage (ht.isQueue d hd) hk data name
    refine Tracks.of_slots tracked (fun e _ k => slot_congr stored k e) (fun e _ => ?_)
    simp [Call.track, hk]

theorem Tracks.pop {h : History} (ht : Tracks queued h) {d : Str} (hd : queued d) (id : Json) :
    Tracks queued ⟨(Call.pop id d).run h.store, Function.update h.arrivals d
      ((Call.pop id d).track h.store (h.arrivals d))⟩ := by
  cases hk : id.asKey with
  | error e => simpa [Call.run, Call.track, popResource, hk] using ht
  | ok key =>
    have hq := ht.queue_eq d hd key
    have idle : h.store.queue key d = [] →
        Tracks queued ⟨h.store, Function.update h.arrivals d (eraseFirst key (h.arrivals d))⟩ := by
      intro hnil
      refine ht.unchanged fun k => ?_
      rw [messagesOf_eraseFirst]
      by_cases hk' : k = key
      · subst hk'; simp [← hq, hnil]
      · simp [hk']
    have hpop := popResource_of_queued (ht.isQueue d hd) hk
    cases hqm : h.store.queue key d with
    | nil =>
      rw [hqm] at hpop
      simpa [Call.run, Call.track, hk, hpop] using idle hqm
    | cons m ms =>
      rw [hqm] at hpop
      simp only [Call.run, Call.track, hk, hpop]
      refine ht.setQueue ?_ ?_
      · rw [messagesOf_eraseFirst, if_pos rfl, ← hq, hqm, List.tail_cons]
      · intro k hk'; simp [messagesOf_eraseFirst, hk']

theorem Tracks.popLatest {h : History} (ht : Tracks queued h) {d : Str} (hd : queued d) :
    Tracks queued ⟨(Call.popLatest d).run h.store, Function.update h.arrivals d
      ((Call.popLatest d).track h.store (h.arrivals d))⟩ := by
  cases hk : h.store.storage.keys.getLast? with
  | none => simpa [Call.run, Call.track, popResourceLatest, hk] using ht
  | some key =>
    have hq := ht.queue_eq d hd key
    have idle : h.store.queue key d = [] →
        Tracks queued ⟨h.store, Function.update h.arrivals d (eraseLast key (h.arrivals d))⟩ := by
      intro hnil
      refine ht.unchanged fun k => ?_
      rw [messagesOf_eraseLast]
      by_cases hk' : k = key
      · subst hk'; simp [← hq, hnil]
      · simp [hk']
    cases hs : h.store.slot key d with
    | none =>
      simpa [Call.run, Call.track, popResourceLatest, hk, hs] using
        idle (by simp [Store.queue, hs])
    | some v =>
      obtain ⟨ms, rfl⟩ := ht.isQueue d hd key v hs
      have hqm : h.store.queue key d = ms := by simp [Store.queue, hs]
      cases hl : ms.getLast? with
      | none =>
        have hnil : ms = [] := List.getLast?_eq_none_iff.mp hl
        simpa [Call.run, Call.track, popResourceLatest, hk, hs, hl] using idle (hqm.trans hnil)
      | some m =>
        simp only [Call.run, Call.track, popResourceLatest, hk, hs, hl]
        refine ht.setQueue ?_ ?_
        · rw [messagesOf_eraseLast, if_pos rfl, ← hq, hqm]
        · intro k hk'; simp [messagesOf_eraseLast, hk']

theorem storeResource_slot (id data : Json) (name : Option Str) {d e : Str} (hne : e ≠ d)
    (s : Store) (key : Json) : (storeResource id d data name s).2.slot key e = s.slot key e := by
  unfold storeResource
  cases hk : id.asKey with
  | error _ => rfl
  | ok k =>
    have hm := addDataExchMapping_storage id d data name (s.setSlot k d data)
    have hs : (s.setSlot k d data).slot key e = s.slot key e := by simp [slot_setSlot, hne]
    cases hr : addDataExchMapping id d data name (s.setSlot k d data) with
    | mk r t =>
      have ht : t.slot key e = s.slot key e := (slot_congr (by simpa [hr] using hm) key e).trans hs
      cases r <;> simpa [hr] using ht

theorem deleteResource_slot (id : Json) {d e : Str} (hne : e ≠ d) (s : Store) (key : Json) :
    (deleteResource id d s).2.slot key e = s.slot key e := by
  unfold deleteResource
  cases hk : id.asKey with
  | error _ => rfl
  | ok k =>
    cases hs : s.slot k d with
    | none => simp [hs]
    | some v => simp [hs, slot_delSlot, hne]

theorem Tracks.step {h t : History} {c : Call} (ht : Tracks queued h)
    (next : step queued h c = some t) : Tracks queued t := by
  unfold StorageLatest.step at next
  split_ifs at next with hp
  obtain rfl := Option.some.inj next
  cases c with
  | push id d data name => exact ht.push hp id data name
  | pop id d => exact ht.pop hp id
  | popLatest d => exact ht.popLatest hp
  | store id d data name =>
    have hne : ∀ e, queued e → e ≠ d := by
      rintro e he rfl
      simp [Call.proper, he] at hp
    exact Tracks.of_slots ht (fun e he key => storeResource_slot id data name (hne e he) _ key)
      (fun e he => by simp [Call.dataType, Call.track])
  | delete id d =>
    have hne : ∀ e, queued e → e ≠ d := by
      rintro e he rfl
      simp [Call.proper, he] at hp
    exact Tracks.of_slots ht (fun e he key => deleteResource_slot id (hne e he) _ key)
      (fun e he => by simp [Call.dataType, Call.track])

end Tracking

/-- Taking the latest message touches no data id but the last. -/
theorem popResourceLatest_queue_ne {s : Store} {d : Str} {key last : Json}
    (hl : s.storage.keys.getLast? = some last) (hne : key ≠ last) :
    (popResourceLatest d s).2.queue key d = s.queue key d := by
  unfold popResourceLatest
  rw [hl]
  cases hs : s.slot last d with
  | none => simp [hs]
  | some v =>
    cases v with
    | arr ms => cases hm : ms.getLast? <;> simp [hs, hm, queue_setSlot, hne]
    | _ => simp [hs]

theorem getResourceLatest_ne_null_of_empty {queued : Str → Bool} {h : History}
    (ht : Tracks queued h) {d : Str} (hd : queued d) (hnil : h.arrivals d = []) :
    getResourceLatest d h.store ≠ .ok .null := by
  unfold getResourceLatest
  cases hk : h.store.storage.keys.getLast? with
  | none => simp
  | some key =>
    cases hs : h.store.slot key d with
    | none => simp [hs]
    | some v =>
      obtain ⟨ms, rfl⟩ := ht.isQueue d hd key v hs
      have hq := ht.queue_eq d hd key
      have hms : ms = [] := by simpa [Store.queue, hs, hnil] using hq
      simp [hs, hms, lastItem]

/-- In every reachable state the two functions do what they are called for exactly when
some message of the type is stored and the newest one is under the last data id. -/
theorem latest_spec_iff_newest_under_last_id {queued : Str → Bool} {cs : List Call} {h : History}
    (run : Run (step queued) start cs h) {d : Str} (hd : queued d = true) :
    LatestSpec h d ↔ NewestUnderLastId h d := by
  have ht : Tracks queued h := run.invariant start_tracks Tracks.step
  constructor
  · rintro ⟨hpop, hget⟩
    cases hl : h.newest d with
    | none =>
      have hnil : h.arrivals d = [] := List.getLast?_eq_none_iff.mp hl
      simp only [History.report, hl] at hget
      exact absurd hget (getResourceLatest_ne_null_of_empty ht hd hnil)
    | some newest =>
      obtain ⟨key, m⟩ := newest
      simp only [History.report, History.withoutNewest, hl] at hpop
      refine ⟨key, m, hl, ?_⟩
      have hne : h.store.queue key d ≠ [] := by
        obtain ⟨before, hb⟩ := List.getLast?_eq_some_iff.mp hl
        rw [ht.queue_eq d hd, hb, messagesOf_append, messagesOf_singleton]
        simp
      cases hk : h.store.storage.keys.getLast? with
      | none => simp [popResourceLatest, hk] at hpop
      | some last =>
        by_contra hlast
        have hkl : key ≠ last := fun he => hlast (by rw [he])
        -- the queue of the newest message is left alone, though it should lose it
        have kept := popResourceLatest_queue_ne (d := d) hk hkl
        rw [hpop, queue_setSlot, if_pos ⟨rfl, rfl⟩] at kept
        have hlen := congrArg List.length kept
        have hpos := List.length_pos_iff.mpr hne
        rw [List.length_dropLast] at hlen
        omega
  · rintro ⟨key, m, hl, hk⟩
    obtain ⟨before, hb⟩ := List.getLast?_eq_some_iff.mp hl
    have hq : h.store.queue key d = messagesOf key before ++ [m] := by
      rw [ht.queue_eq d hd, hb, messagesOf_append, messagesOf_singleton, if_pos rfl]
    have hs := @slot_of_queue_ne_nil h.store key d (by simp [hq])
    constructor
    · simp [popResourceLatest, History.report, History.withoutNewest, hk, hl, hs, hq]
    · simp [getResourceLatest, History.report, hk, hl, hs, hq, lastItem]

def credentialThenProof : List Call :=
  [.push (.str "t1") "credential-msg" (.obj [("state", .str "offer_sent")]) none,
    .push (.str "t2") "presentation-msg" (.obj [("state", .str "request_sent")]) none]

/-- With one message each of two protocols, the type of the last data id reads well. -/
theorem latest_spec_of_last_pushed :
    ∃ h, Run (step fun _ => true) start credentialThenProof h ∧
      (LatestSpec h "presentation-msg" ↔ NewestUnderLastId h "presentation-msg") := by
  have run : Run (step fun _ => true) start credentialThenProof _ := run_of_exec rfl
  exact ⟨_, run, latest_spec_iff_newest_under_last_id run rfl⟩

/-- A message of another protocol under a newer thread hides the newest credential message. -/
theorem latest_hidden_by_newer_thread :
    ¬ ∀ (queued : Str → Bool) (cs : List Call) (h : History), Run (step queued) start cs h →
      ∀ d, queued d = true → LatestSpec h d := by
  intro spec
  have hidden := spec (fun _ => true) credentialThenProof _ (run_of_exec rfl) "credential-msg" rfl
  revert hidden
  decide

end AgentTestHarness.StorageLatest
