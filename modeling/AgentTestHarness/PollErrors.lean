import AgentTestHarness.JsonRoundTrip
import AgentTestHarness.PollAccounting

/-! Response polls that end in an error: the message is popped first and translated afterwards,
so one whose state cannot be translated is lost. -/
namespace AgentTestHarness.PollErrors
open PyText OrderedDict PyJson JsonReading JsonWriting JsonRoundTrip Storage StateTranslation
open Webhooks ResponsePolls PollAccounting Runs

/-- Where a poll pops: under an id, or the newest connection message of all. -/
inductive Source
  | under (recordId dataType : Str)
  | latest
  deriving DecidableEq

def Source.pop : Source → Store → Except PyError Json × Store
  | .under recordId dataType, s => popResource (.str recordId) dataType s
  | .latest, s => popResourceLatest "connection-msg" s

/-- A poll sleeps after some pops that found nothing, or was answered. -/
inductive PollState
  | sleeping (pops : ℕ)
  | answered (answer : Except PyError (ℕ × Text))
  deriving DecidableEq

structure Poll where
  topic : Text
  source : Source
  state : PollState
  deriving DecidableEq

/-- After a pop that follows `i` others. -/
def afterPop (topic : Text) (i : ℕ) : Except PyError Json → PollState
  | .error e => .answered (.error e)
  | .ok msg =>
    if msg = .null ∧ i < maxTimeout then .sleeping (i + 1) else .answered (respond topic msg)

structure System where
  store : Store
  polls : List Poll

def start : System := ⟨Storage.empty, []⟩

inductive Event
  | webhook (topic body : Text)
  | poll (topic : Text) (recordId : Option Str)
  | wake (n : ℕ)
  deriving DecidableEq

def System.add (s : System) (p : Poll) : System := { s with polls := s.polls ++ [p] }

def System.attempt (s : System) (n : ℕ) (p : Poll) (i : ℕ) : System :=
  let result := p.source.pop s.store
  ⟨result.2, s.polls.set n { p with state := afterPop p.topic i result.1 }⟩

/-- A poll without an id sleeps before its first pop. The webhooks of anoncreds, which fetch a
credential first, do not take part. -/
def step (s : System) : Event → Option System
  | .webhook topic body => match loads body with
    | .error _ => some s
    | .ok payload => match handleWebhook s.store topic payload with
      | .error _ => some s
      | .ok (.pushes ps) => some { s with store := (performPushes ps s.store).1 }
      | .ok (.fetches _) => none
  | .poll topic recordId => match makeAgentGetRequestResponse topic recordId with
    | .pops id dataType =>
      let p : Poll := ⟨topic, .under id dataType, .sleeping 0⟩
      some ((s.add p).attempt s.polls.length p 0)
    | .popsLatest => some (s.add ⟨topic, .latest, .sleeping 0⟩)
    | .answers _ _ => some s
  | .wake n => match s.polls[n]? with
    | some p => match p.state with
      | .sleeping i => some (s.attempt n p i)
      | .answered _ => none
    | none => none

/-- The poll has not given a message: it still sleeps, or it ended in an error. -/
def Poll.Unserved (p : Poll) : Prop := ∀ answer, p.state ≠ .answered (.ok answer)

/-- Where a poll of the step is not served, the store is kept. -/
def KeepsMessages (s : System) (e : Event) : Prop :=
  ∀ t, step s e = some t →
    (∃ (n : ℕ) (p : Poll), t.polls[n]? = some p ∧ s.polls[n]? ≠ some p ∧ p.Unserved) → t.store = s.store

/-- The message that a poll would pop. -/
def Source.next : Source → Store → Option Json
  | .under recordId dataType, s => (s.queue (.str recordId) dataType).head?
  | .latest, s => s.storage.keys.getLast?.bind fun key => (s.queue key "connection-msg").getLast?

/-- The message has no state, or one that the table of the topic has; for did-exchange that is
the table for the role named in the text. -/
def Translatable (topic : Text) (m : Json) : Prop :=
  topic = "did-exchange".toList ∨ topic = "proof".toList → ∀ state, m.item "state" = .ok state →
    ∃ style t, Acapy.method topic (dumps m) = some (style, some t) ∧
      ∃ e ∈ t, state = .str (ofText e.1)

/-- The message that the poll of the step pops can be translated. -/
def PopsTranslatable (s : System) : Event → Prop
  | .webhook _ _ => True
  | .poll topic recordId => ∀ id dataType,
      makeAgentGetRequestResponse topic recordId = .pops id dataType →
        ∀ m ∈ (Source.under id dataType).next s.store, Translatable topic m
  | .wake n => ∀ p i, s.polls[n]? = some p → p.state = .sleeping i →
      ∀ m ∈ p.source.next s.store, Translatable p.topic m

/-! When the translation raises. -/

theorem tableEntry_ok_iff {t : Table} {state : Json} :
    (∃ e, tableEntry t state = .ok e) ↔ ∃ e ∈ t, state = .str (ofText e.1) := by
  cases state with
  | str s =>
    rw [tableEntry]
    cases hfind : t.find? fun e => ofText e.1 = s with
    | none =>
      refine iff_of_false (by simp) ?_
      rintro ⟨e, he, hs⟩
      have := List.find?_eq_none.mp hfind e he
      exact this (by simpa using hs.symm)
    | some e =>
      refine iff_of_true ⟨e, rfl⟩ ⟨e, List.mem_of_find?_eq_some hfind, ?_⟩
      have := List.find?_some hfind
      rw [of_decide_eq_true this]
  | _ => simp [tableEntry]

theorem contains_of_absent {ms : List (Str × Json)} {key : Str} (h : lookup key ms = none) :
    (Json.obj ms).contains key = .ok false := by
  simp [Json.contains, h]

/-- The translation of a written object gives a text just if its state is in the table. -/
theorem translation_ok_iff {topic : Text} {ms : List (Str × Json)} (loadable : Loadable (.obj ms))
    (htopic : topic = "did-exchange".toList ∨ topic = "proof".toList) :
    (∃ text, Acapy.agentStateTranslation topic (dumps (.obj ms)) = .ok text) ↔
      Translatable topic (.obj ms) := by
  have hload := loads_dumps loadable
  have hmethod : Acapy.method topic (dumps (.obj ms)) ≠ none := by
    rcases htopic with rfl | rfl
    · simp only [Acapy.method, if_neg (by decide +kernel :
        "did-exchange".toList ≠ "connection".toList), if_neg (by decide +kernel :
        "did-exchange".toList ≠ "issue-credential".toList), if_neg (by decide +kernel :
        "did-exchange".toList ≠ "proof".toList), or_true, if_true]
      simp
    · simp only [Acapy.method, if_neg (by decide +kernel :
        "proof".toList ≠ "connection".toList), if_neg (by decide +kernel :
        "proof".toList ≠ "issue-credential".toList), if_true]
      simp
  unfold Acapy.agentStateTranslation
  simp only [hload]
  cases hstate : lookup ("state" : Str) ms with
  | none =>
    have hcontains := contains_of_absent hstate
    refine iff_of_true ⟨dumps (.obj ms), ?_⟩ ?_
    · simp only [hcontains, bind, Except.bind, pure, Except.pure]
      rfl
    · intro _ state hitem
      rw [Json.item_obj, hstate] at hitem
      exact absurd hitem (by simp)
  | some state =>
    have hcontains := Json.contains_of_lookup hstate
    have hitem := Json.item_of_lookup hstate
    simp only [hcontains, hitem, bind, Except.bind, pure, Except.pure, if_true]
    have htranslatable : Translatable topic (.obj ms) ↔
        ∃ style t, Acapy.method topic (dumps (.obj ms)) = some (style, some t) ∧
          ∃ e ∈ t, state = .str (ofText e.1) := by
      constructor
      · exact fun h => h htopic state hitem
      · intro h _ state' hitem'
        obtain rfl := Except.ok.inj (hitem.symm.trans hitem')
        exact h
    rw [htranslatable]
    cases hm : Acapy.method topic (dumps (.obj ms)) with
    | none => exact absurd hm hmethod
    | some m =>
      obtain ⟨style, t⟩ := m
      cases t with
      | none => exact iff_of_false (by simp [throw, throwThe, MonadExceptOf.throw]) (by simp)
      | some t =>
        have hentry : (∃ e, tableEntry t state = .ok e) ↔ ∃ e ∈ t, state = .str (ofText e.1) :=
          tableEntry_ok_iff
        simp only [Option.some.injEq, Prod.mk.injEq, existsAndEq, true_and]
        rw [← hentry]
        cases tableEntry t state with
        | error e => simp
        | ok e => simp

/-! What a pop does. -/

/-- Nothing but queues is stored, of objects that can be written and read back. -/
structure Sound (s : Store) : Prop where
  queued : ∀ d, s.Queued d
  object : ∀ key d, ∀ m ∈ s.queue key d, NonemptyObject m ∧ Loadable m

theorem sound_empty : Sound Storage.empty :=
  ⟨queued_empty, fun key d m hm => absurd hm (by simp [Store.queue])⟩

theorem Sound.setSlot {s : Store} (h : Sound s) {key : Json} {d : Str} {ms : List Json}
    (hms : ms ⊆ s.queue key d) : Sound (s.setSlot key d (.arr ms)) := by
  refine ⟨fun e => (h.queued e).setSlot key d ms, fun k e m hm => ?_⟩
  rw [queue_setSlot] at hm
  split at hm
  · next heq =>
    obtain ⟨rfl, rfl⟩ := heq
    exact h.object k e m (hms hm)
  · exact h.object k e m hm

theorem Sound.push {s : Store} (h : Sound s) {p : Push}
    (hp : NonemptyObject p.data ∧ Loadable p.data) :
    Sound (pushResource p.dataId p.dataType p.data p.exchIdName s).2 := by
  obtain ⟨queued, hqueue, -⟩ := pushResource_queue h.queued p
  refine ⟨queued, fun key d m hm => ?_⟩
  rw [hqueue, under_singleton] at hm
  rcases List.mem_append.mp hm with hm | hm
  · exact h.object key d m hm
  · split at hm
    · obtain rfl := List.mem_singleton.mp hm
      exact hp
    · exact absurd hm (by simp)

/-- A pop gives the next message and takes it away, or finds none and keeps the store. -/
theorem pop_cases {s : Store} (h : Sound s) (source : Source) :
    (source.next s = none ∧ (source.pop s).2 = s ∧
      ((source.pop s).1 = .ok .null ∨ ∃ e, (source.pop s).1 = .error e)) ∨
    ∃ m, source.next s = some m ∧ (source.pop s).1 = .ok m ∧ NonemptyObject m ∧ Loadable m ∧
      Sound (source.pop s).2 ∧ (source.pop s).2 ≠ s := by
  have taken : ∀ key d m (ms : List Json), m ∈ s.queue key d → ms ⊆ s.queue key d →
      ms.length ≠ (s.queue key d).length → NonemptyObject m ∧ Loadable m ∧
        Sound (s.setSlot key d (.arr ms)) ∧ s.setSlot key d (.arr ms) ≠ s := by
    intro key d m ms hm hms hlen
    refine ⟨(h.object key d m hm).1, (h.object key d m hm).2, h.setSlot hms, fun heq => hlen ?_⟩
    have hqueue := queue_setSlot s key key d d ms
    rw [heq, if_pos ⟨rfl, rfl⟩] at hqueue
    rw [hqueue]
  cases source with
  | under recordId dataType =>
    have hpop := popResource_of_queued (h.queued dataType)
      (show (Json.str recordId).asKey = .ok (.str recordId) from rfl)
    simp only [Source.pop, Source.next, hpop]
    cases hqueue : s.queue (.str recordId) dataType with
    | nil => exact .inl ⟨rfl, rfl, .inl rfl⟩
    | cons m ms =>
      refine .inr ⟨m, rfl, rfl, taken _ _ m ms ?_ ?_ ?_⟩
      · simp [hqueue]
      · simp [hqueue]
      · simp [hqueue]
  | latest =>
    simp only [Source.pop, Source.next]
    generalize (("connection-msg" : String) : Str) = d
    rw [popResourceLatest_of_queued (h.queued d)]
    cases s.storage.keys.getLast? with
    | none => exact .inl ⟨rfl, rfl, .inr ⟨_, rfl⟩⟩
    | some key =>
      rw [Option.bind_some]
      dsimp only
      cases hlast : (s.queue key d).getLast? with
      | none => exact .inl ⟨rfl, rfl, .inl rfl⟩
      | some m =>
        have hm := List.mem_of_getLast? hlast
        refine .inr ⟨m, rfl, rfl, taken key d m _ hm (List.dropLast_subset _) ?_⟩
        have := List.length_pos_of_mem hm
        rw [List.length_dropLast]
        omega

/-- A message that was popped is answered with an error just if it cannot be translated. -/
theorem respond_ok_iff {m : Json} (object : NonemptyObject m) (loadable : Loadable m)
    (topic : Text) : (∃ answer, respond topic m = .ok answer) ↔ Translatable topic m := by
  rw [respond, if_pos (truthy_of_nonemptyObject object)]
  obtain ⟨ms, rfl, -⟩ := object
  split
  · next htopic =>
    rw [← translation_ok_iff loadable htopic]
    cases Acapy.agentStateTranslation topic (dumps (.obj ms)) with
    | error e => simp [Except.map]
    | ok text => simp [Except.map]
  · next htopic => exact iff_of_true ⟨_, rfl⟩ fun h => absurd h htopic

/-! Steps. -/

theorem afterPop_ne (topic : Text) (i : ℕ) (result : Except PyError Json) :
    afterPop topic i result ≠ .sleeping i := by
  cases result with
  | error e => simp [afterPop]
  | ok msg =>
    rw [afterPop]
    split
    · simp
    · simp

theorem attempt_sound {s : System} (h : Sound s.store) (n : ℕ) (p : Poll) (i : ℕ) :
    Sound (s.attempt n p i).store := by
  rcases pop_cases h p.source with ⟨-, hstore, -⟩ | ⟨m, -, -, -, -, sound, -⟩
  · rw [System.attempt, hstore]
    exact h
  · exact sound

/-- An attempt changes its poll, and keeps the store unless it serves the poll just if the next
message, if any, can be translated. -/
theorem attempt_cases {s : System} (h : Sound s.store) (n : ℕ) (p : Poll) (i : ℕ) :
    ∃ q : Poll, (s.attempt n p i).polls = s.polls.set n q ∧ (p.state = .sleeping i → q ≠ p) ∧
      ((q.Unserved → (s.attempt n p i).store = s.store) ↔
        ∀ m ∈ p.source.next s.store, Translatable p.topic m) := by
  refine ⟨_, rfl, fun hstate heq => ?_, ?_⟩
  · exact afterPop_ne p.topic i _ ((congrArg Poll.state heq).trans hstate)
  · rcases pop_cases h p.source with ⟨hnext, hstore, -⟩ |
      ⟨m, hnext, hresult, object, loadable, -, hne⟩
    · exact iff_of_true (fun _ => hstore) (by simp [hnext])
    · obtain ⟨ms, rfl, -⟩ := id object
      have hafter : afterPop p.topic i (.ok (.obj ms)) =
          .answered (respond p.topic (.obj ms)) := by
        simp [afterPop]
      rw [hnext, hresult, hafter]
      simp only [Option.mem_def, Option.some.injEq, forall_eq']
      rw [← respond_ok_iff object loadable]
      constructor
      · intro hkept
        by_contra herror
        exact hne (hkept fun answer heq => herror ⟨answer, PollState.answered.inj heq⟩)
      · rintro ⟨answer, hanswer⟩ hunserved
        exact absurd (congrArg PollState.answered hanswer) (hunserved answer)

/-! Steps. -/

/-- What a step does: new messages come, a poll attempts a pop, or the store is kept. -/
theorem step_cases {s t : System} {e : Event} (h : Sound s.store) (next : step s e = some t) :
    (Sound t.store ∧ t.polls = s.polls ∧ PopsTranslatable s e) ∨
    (t.store = s.store ∧ PopsTranslatable s e) ∨
    (∃ topic recordId id dataType, e = .poll topic recordId ∧
      makeAgentGetRequestResponse topic recordId = .pops id dataType ∧
      t = (s.add ⟨topic, .under id dataType, .sleeping 0⟩).attempt s.polls.length
        ⟨topic, .under id dataType, .sleeping 0⟩ 0) ∨
    ∃ n p i, e = .wake n ∧ s.polls[n]? = some p ∧ p.state = .sleeping i ∧
      t = s.attempt n p i := by
  cases e with
  | webhook topic body =>
    left
    cases hload : loads body with
    | error e =>
      simp only [step, hload, Option.some.injEq] at next
      subst next
      exact ⟨h, rfl, trivial⟩
    | ok payload =>
      simp only [step, hload] at next
      cases hw : handleWebhook s.store topic payload with
      | error e =>
        rw [hw] at next
        obtain rfl := Option.some.inj next
        exact ⟨h, rfl, trivial⟩
      | ok handled =>
        rw [hw] at next
        cases handled with
        | fetches f => cases next
        | pushes ps =>
          obtain rfl := Option.some.inj next
          have hobjects : ∀ p ∈ ps, NonemptyObject p.data ∧ Loadable p.data := by
            intro p hp
            have own := own_handleWebhook hw p hp
            refine ⟨nonemptyObject_of_own own, ?_⟩
            rw [own.1]
            exact loadable_of_loads hload
          refine ⟨?_, rfl, trivial⟩
          exact @performPushes_rule (fun s _ => Sound s) ps
            (fun p hp s log hs => hs.push (hobjects p hp)) _ [] h
  | poll topic recordId =>
    right
    cases hr : makeAgentGetRequestResponse topic recordId with
    | pops id dataType =>
      simp only [step, hr] at next
      exact .inr (.inl ⟨topic, recordId, id, dataType, rfl, hr, (Option.some.inj next).symm⟩)
    | popsLatest =>
      simp only [step, hr] at next
      obtain rfl := Option.some.inj next
      exact .inl ⟨rfl, fun id dataType hpops => by simp [hr] at hpops⟩
    | answers status text =>
      simp only [step, hr] at next
      obtain rfl := Option.some.inj next
      exact .inl ⟨rfl, fun id dataType hpops => by simp [hr] at hpops⟩
  | wake n =>
    right; right; right
    cases hp : s.polls[n]? with
    | none => simp [step, hp] at next
    | some p =>
      cases hstate : p.state with
      | answered answer => simp [step, hp, hstate] at next
      | sleeping i =>
        simp only [step, hp, hstate] at next
        exact ⟨n, p, i, rfl, hp, hstate, (Option.some.inj next).symm⟩

theorem step_sound {s t : System} {e : Event} (h : Sound s.store) (next : step s e = some t) :
    Sound t.store := by
  rcases step_cases h next with ⟨sound, -⟩ | ⟨hstore, -⟩ |
    ⟨topic, recordId, id, dataType, -, -, rfl⟩ | ⟨n, p, i, -, -, -, rfl⟩
  · exact sound
  · exact hstore ▸ h
  · have hadd : Sound (s.add ⟨topic, .under id dataType, .sleeping 0⟩).store := h
    exact attempt_sound hadd _ _ _
  · exact attempt_sound h _ _ _

/-- A step keeps the messages that it does not serve just if what it pops can be translated. -/
theorem keepsMessages_iff {s t : System} {e : Event} (h : Sound s.store)
    (next : step s e = some t) : KeepsMessages s e ↔ PopsTranslatable s e := by
  have hkeeps : KeepsMessages s e ↔ ((∃ (n : ℕ) (p : Poll), t.polls[n]? = some p ∧
      s.polls[n]? ≠ some p ∧ p.Unserved) → t.store = s.store) := by
    constructor
    · exact fun hk => hk t next
    · intro hk t' next'
      obtain rfl := Option.some.inj (next.symm.trans next')
      exact hk
  rw [hkeeps]
  rcases step_cases h next with ⟨-, hpolls, hc⟩ | ⟨hstore, hc⟩ |
    ⟨topic, recordId, id, dataType, rfl, hpops, rfl⟩ | ⟨n, p, i, rfl, hp, hstate, rfl⟩
  · refine iff_of_true ?_ hc
    rintro ⟨n, p, hnew, hold, -⟩
    exact absurd (hpolls ▸ hnew) hold
  · exact iff_of_true (fun _ => hstore) hc
  · have hadd : Sound (s.add ⟨topic, .under id dataType, .sleeping 0⟩).store := h
    obtain ⟨q, hpolls, -, hq⟩ := attempt_cases hadd s.polls.length
      ⟨topic, .under id dataType, .sleeping 0⟩ 0
    have hset : (s.add ⟨topic, .under id dataType, .sleeping 0⟩).polls.set s.polls.length q =
        s.polls ++ [q] := by simp [System.add]
    rw [hset] at hpolls
    have hpoll : PopsTranslatable s (.poll topic recordId) ↔
        ∀ m ∈ (Source.under id dataType).next s.store, Translatable topic m := by
      constructor
      · exact fun hc => hc id dataType hpops
      · intro hc id' dataType' hpops'
        obtain ⟨rfl, rfl⟩ := Request.pops.inj (hpops.symm.trans hpops')
        exact hc
    rw [hpoll]
    refine Iff.trans (imp_congr_left ?_) hq
    rw [hpolls]
    constructor
    · rintro ⟨n, p, hnew, hold, hunserved⟩
      rcases Nat.lt_trichotomy n s.polls.length with hlt | rfl | hgt
      · rw [List.getElem?_append_left hlt] at hnew
        exact absurd hnew hold
      · obtain rfl : q = p := by simpa using hnew
        exact hunserved
      · rw [List.getElem?_eq_none (by simp; omega)] at hnew
        exact absurd hnew (by simp)
    · exact fun hunserved => ⟨s.polls.length, q, by simp, by simp, hunserved⟩
  · obtain ⟨q, hpolls, hne, hq⟩ := attempt_cases h n p i
    have hwake : PopsTranslatable s (.wake n) ↔
        ∀ m ∈ p.source.next s.store, Translatable p.topic m := by
      constructor
      · exact fun hc => hc p i hp hstate
      · intro hc p' i' hp' _
        obtain rfl := Option.some.inj (hp.symm.trans hp')
        exact hc
    rw [hwake, ← hq]
    refine imp_congr_left ?_
    rw [hpolls]
    have hn : n < s.polls.length := (List.getElem?_eq_some_iff.mp hp).1
    constructor
    · rintro ⟨k, p', hnew, hold, hunserved⟩
      rcases eq_or_ne n k with rfl | hnk
      · obtain rfl : q = p' := by simpa [hn] using hnew
        exact hunserved
      · rw [List.getElem?_set_ne hnk] at hnew
        exact absurd hnew hold
    · refine fun hunserved => ⟨n, q, by simp [hn], ?_, hunserved⟩
      rw [hp]
      exact fun heq => hne hstate (Option.some.inj heq).symm

/-- In a run every poll that is not served keeps the store, the polls that end in an error among
them, just if every message popped can be translated. -/
theorem polls_keep_messages_iff (es : List Event) :
    StepsMeet step start KeepsMessages es ↔ StepsMeet step start PopsTranslatable es :=
  stepsMeet_congr (I := fun s => Sound s.store) (Q := fun _ => True) sound_empty
    (fun h _ next => step_sound h next) (fun h _ next => keepsMessages_iff h next)
    fun _ _ => trivial

/-- A proof request of the second protocol version, whose states have dashes. -/
def requestReceived : List Event :=
  [.webhook "present_proof_v2_0".toList
    "\x7b\"thread_id\": \"t\", \"state\": \"request-received\"\x7d".toList,
    .poll "proof".toList (some "t")]

theorem failed_poll_loses_message :
    ¬ ∀ es : List Event, StepsMeet step start KeepsMessages es := by
  intro h
  have hbefore : (exec step start (requestReceived.take 1)).map
      (fun s => (s.polls, s.store.queue (.str "t") "presentation-msg")) =
        some ([], [.obj [("thread_id", .str "t"), ("state", .str "request-received")]]) := by
    decide +kernel
  have hafter : (exec step start requestReceived).map
      (fun s => (s.polls, s.store.queue (.str "t") "presentation-msg")) =
        some ([⟨"proof".toList, .under "t" "presentation-msg", .answered (.error .keyError)⟩],
          []) := by
    decide +kernel
  obtain ⟨s, hs, hsOld⟩ := Option.map_eq_some_iff.mp hbefore
  obtain ⟨t, ht, htNew⟩ := Option.map_eq_some_iff.mp hafter
  obtain ⟨hpolls, hqueue⟩ := Prod.mk.inj hsOld
  obtain ⟨hpolls', hqueue'⟩ := Prod.mk.inj htNew
  have next : step s (.poll "proof".toList (some "t")) = some t := by
    have hsplit : requestReceived = requestReceived.take 1 ++ [.poll "proof".toList (some "t")] :=
      rfl
    rw [hsplit, exec_append, hs, Option.bind_some, exec] at ht
    obtain ⟨u, hu, hut⟩ := Option.bind_eq_some_iff.mp ht
    exact Option.some.inj hut ▸ hu
  have hkept := h requestReceived List.prefix_rfl (run_of_exec hs) next t next
    ⟨0, _, by rw [hpolls']; rfl, by rw [hpolls]; simp, fun answer hanswer => by simp at hanswer⟩
  rw [hkept, hqueue] at hqueue'
  exact absurd hqueue' (by simp)

end AgentTestHarness.PollErrors
