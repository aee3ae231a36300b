import AgentTestHarness.AfgoThreads

/-! Whether a request is served from its own thread: the messages of its exchange are taken from
whatever thread came into the store last, and so is the DID that is kept from one of them. -/
namespace AgentTestHarness.ThreadIsolation
open PyText OrderedDict PyJson Storage StateTranslation AsyncQueue Runs AfgoThreads

/-- What the backchannel itself makes of a message. -/
inductive Version (w : Json) : Json → Prop
  | same : Version w w
  | changed {m m' : Json} (c : Change) (prior : Version w m) (changes : c.apply m = .ok m') :
      Version w m'

/-- The message came with a webhook of the thread. -/
def Stems (received : List Json) (thread message : Json) : Prop :=
  ∃ w ∈ received, Version w message ∧ piid w >>= Json.asKey = .ok thread

/-- What the use of a message says of its thread. -/
def UsesOwn (r : Request) (received : List Json) : Prop :=
  ∀ u ∈ r.used, match u.1 with
    | .own => ∀ thread, r.thread = some thread → Stems received thread u.2
    | .credential id => ∀ key, id.asKey = .ok key → Stems received key u.2

/-- Every message that a request was served with came with a webhook of the thread it is used
for. -/
structure Isolated (s : System) : Prop where
  requests : ∀ r ∈ s.requests, UsesOwn r s.received
  taken : ∀ p ∈ s.messageStacks.pops, ∀ thread, p.queue = Webhook.proofStack thread →
    ∀ message, p.getter = .took message → Stems s.received (.str thread) message
  returned : ∀ p ∈ s.messageStacks.pops, ∀ thread, p.queue = Webhook.proofStack thread →
    ∀ message, p.caller = .returned message → Stems s.received (.str thread) message

/-- Serving a request removes no stored message of another thread. -/
def SparesOthers (s : System) (e : Event) : Prop :=
  ∀ t, step s e = some t → match e with
    | .wake n | .fails n => ∀ r, t.requests[n]? = some r → ∀ thread, r.thread = some thread →
        ∀ key, key ≠ thread → ∀ d, (s.store.queue key d).Sublist (t.store.queue key d)
    | .resume n => ∀ p, s.messageStacks.pops[n]? = some p → ∀ stack, stack ≠ p.queue →
        (t.messageStacks.channels stack).items = (s.messageStacks.channels stack).items
    | _ => True

/-- Where a message of the last thread is looked for: in the end also where the state can be
guessed. -/
def lookedFor (messageName : Str) (i : ℕ) : List Str :=
  if messageName = issueStates ∧ ¬ i < maxTimeout then [messageName, issueActions]
  else [messageName]

def looksFor (r : Request) : List Str :=
  match r.stage with
  | .fetches messageName i _ => lookedFor messageName i
  | .takesState => [proofStates]
  | _ => []

/-- The thread that came into the store last has none of the messages that the request looks for, or
is that of the request. -/
def LatestServes (r : Request) (s : Store) (own : Json → Prop) : Prop :=
  ∀ key ∈ s.storage.keys.getLast?, (∀ d ∈ looksFor r, s.queue key d = []) ∨
    (∀ thread ∈ r.thread, thread = key) ∧ own key

instance (r : Request) (s : Store) (own : Json → Prop) [DecidablePred own] :
    Decidable (LatestServes r s own) :=
  inferInstanceAs (Decidable (∀ key ∈ s.storage.keys.getLast?, _ ∨ (∀ thread ∈ r.thread, _) ∧ _))

/-- Whether the next message makes the request send on the DID that is kept. -/
def sendsDID (r : Request) : Bool :=
  match r.stage with
  | .fetches _ _ true => r.command.readsDID
  | _ => false

/-- The DID that is kept was read from a message of the thread, or from none. -/
def DIDIsOf (myDID : Option Json) (r : Request) (key : Json) : Prop :=
  sendsDID r = true → ∀ m ∈ myDID, piid m >>= Json.asKey = .ok key

instance (myDID : Option Json) (r : Request) (key : Json) : Decidable (DIDIsOf myDID r key) :=
  inferInstanceAs (Decidable (_ → _))

/-- The thread that came into the store last is that of the request, or has none of the messages
it looks for; and so is the thread that the DID is of if it is sent on. -/
def LatestIsOwn (s : System) : Event → Prop
  | .wake n => ∀ r ∈ s.requests[n]?, LatestServes r s.store (DIDIsOf s.myDID r)
  | .fails n => ∀ r ∈ s.requests[n]?, LatestServes r s.store fun _ => True
  | _ => True

instance (s : System) (e : Event) : Decidable (LatestIsOwn s e) := by
  cases e <;> unfold LatestIsOwn <;> infer_instance

/-! Where a message comes from. -/

theorem Stems.mono {received : List Json} {thread m : Json} (h : Stems received thread m)
    (more : List Json) : Stems (received ++ more) thread m := by
  obtain ⟨w, hw, hm⟩ := h
  exact ⟨w, List.mem_append_left _ hw, hm⟩

/-! A change of a message keeps its thread. -/

theorem setItem_obj {ms : List (Str × Json)} {key : Str} {v j : Json}
    (h : Webhooks.setItem (.obj ms) key v = .ok j) : j = .obj (assign key v ms) :=
  (Except.ok.inj h).symm

/-- A change within one member leaves the others. -/
theorem within_cases {key : Str} {f : Json → Except PyError Json} {j j' : Json}
    (h : within key f j = .ok j') : ∃ v v', j.item key = .ok v ∧ f v = .ok v' ∧
      j'.item key = .ok v' ∧ ∀ other, other ≠ key → j'.item other = j.item other := by
  obtain ⟨v, hv, h⟩ := bind_eq_ok h
  obtain ⟨v', hv', h⟩ := bind_eq_ok h
  obtain ⟨ms, rfl, -⟩ := Json.item_eq_ok.mp hv
  obtain rfl := setItem_obj h
  refine ⟨v, v', hv, hv', Json.item_of_lookup (lookup_assign_self _ _ _), fun other hne => ?_⟩
  rw [Json.item, lookup_assign_ne hne]
  rfl

/-- A message that is given a state keeps its thread. -/
theorem properties_guessed {m m' : Json} (h : guessed m = .ok m') :
    properties m' = properties m := by
  obtain ⟨inner, hinner, h⟩ := bind_eq_ok h
  obtain ⟨didcomm, hdidcomm, h⟩ := bind_eq_ok h
  obtain ⟨opType, -, h⟩ := bind_eq_ok h
  obtain ⟨⟨old, state⟩, -, h⟩ := bind_eq_ok h
  obtain ⟨inner', hset, h⟩ := bind_eq_ok h
  obtain ⟨m₁, hset₁, h⟩ := bind_eq_ok h
  obtain ⟨ms, rfl, hmessage⟩ := Json.item_eq_ok.mp hinner
  obtain ⟨ns, rfl, -⟩ := Json.item_eq_ok.mp hdidcomm
  obtain rfl := setItem_obj hset
  obtain rfl := setItem_obj hset₁
  obtain rfl := setItem_obj h
  have hstate : ("message" : Str) ≠ "state" := by decide +kernel
  have hid : ("Properties" : Str) ≠ "StateID" := by decide +kernel
  have houter : lookup ("message" : Str) (assign "state" (.str (ofText state)) (assign "message"
      (.obj (assign "StateID" (.str (ofText state)) ns)) ms)) =
        some (.obj (assign "StateID" (.str (ofText state)) ns)) := by
    rw [lookup_assign_ne hstate, lookup_assign_self]
  have hitem : (Json.obj (assign "StateID" (.str (ofText state)) ns)).item "Properties" =
      (Json.obj ns).item "Properties" := by
    rw [Json.item, lookup_assign_ne hid]
    rfl
  rw [properties, properties, Json.item_of_lookup houter, hinner]
  exact hitem

theorem properties_changed {c : Change} {m m' : Json} (h : c.apply m = .ok m') :
    properties m' = properties m := by
  cases c with
  | state => exact properties_guessed h
  | attachment list n edit =>
    obtain ⟨inner, inner', hinner, hchange, hinner', -⟩ := within_cases h
    obtain ⟨-, -, -, -, -, hothers⟩ := within_cases hchange
    have hne : ("Properties" : Str) ≠ "Message" := by decide +kernel
    rw [properties, properties, hinner, hinner']
    exact hothers _ hne

theorem Version.properties_eq {w m : Json} (h : Version w m) : properties m = properties w := by
  induction h with
  | same => rfl
  | changed c _ changes ih => exact (properties_changed changes).trans ih

theorem Stems.changed {received : List Json} {thread m m' : Json} {c : Change}
    (h : Stems received thread m) (changes : c.apply m = .ok m') : Stems received thread m' := by
  obtain ⟨w, hw, version, hpiid⟩ := h
  exact ⟨w, hw, version.changed c changes, hpiid⟩

theorem Stems.piid_eq {received : List Json} {thread m : Json} (h : Stems received thread m) :
    AfgoThreads.piid m >>= Json.asKey = .ok thread := by
  obtain ⟨w, -, version, hpiid⟩ := h
  rwa [AfgoThreads.piid, version.properties_eq]

theorem Stems.piid {received : List Json} {thread m : Json} (h : Stems received thread m) :
    ∃ id, AfgoThreads.piid m = .ok id ∧ id.asKey = .ok thread := bind_eq_ok h.piid_eq

theorem Stems.ne_null {received : List Json} {thread m : Json} (h : Stems received thread m) :
    m ≠ .null := by
  rintro rfl
  obtain ⟨id, hid, -⟩ := h.piid
  exact absurd hid (by simp [AfgoThreads.piid, properties, Json.item, bind, Except.bind])

theorem stems_webhook {received : List Json} {w : Webhook} {message id key : Json}
    (hm : message ∈ received) (hid : w.threadId message = .ok id) (hkey : id.asKey = .ok key) :
    Stems received key message := by
  refine ⟨message, hm, .same, ?_⟩
  obtain ⟨props, hprops, h⟩ := bind_eq_ok hid
  obtain ⟨given, -, h⟩ := bind_eq_ok h
  cases given with
  | false => exact absurd h (by simp [throw, throwThe, MonadExceptOf.throw])
  | true =>
    have hitem : props.item "piid" = .ok id := by simpa using h
    simp only [AfgoThreads.piid, hprops, hitem, bind, Except.bind, hkey]

/-! The store, with every message under its thread. -/

structure Filed (received : List Json) (s : Store) : Prop where
  queued : ∀ d, s.Queued d
  stems : ∀ key d, ∀ m ∈ s.queue key d, Stems received key m

theorem filed_empty : Filed [] Storage.empty :=
  ⟨queued_empty, fun key d m hm => absurd hm (by simp [Store.queue])⟩

theorem Filed.mono {received : List Json} {s : Store} (h : Filed received s) (more : List Json) :
    Filed (received ++ more) s :=
  ⟨h.queued, fun key d m hm => (h.stems key d m hm).mono more⟩

theorem Filed.setSlot {received : List Json} {s : Store} (h : Filed received s) {key : Json}
    {d : Str} {ms : List Json} (hms : ∀ m ∈ ms, Stems received key m) :
    Filed received (s.setSlot key d (.arr ms)) := by
  refine ⟨fun e => (h.queued e).setSlot key d ms, fun k e m hm => ?_⟩
  rw [queue_setSlot] at hm
  split at hm
  · next heq =>
    obtain ⟨rfl, rfl⟩ := heq
    exact hms m hm
  · exact h.stems k e m hm

/-- The store keeps its messages in order, apart from those of one thread. -/
structure Serves (received : List Json) (own : Json) (s t : Store) : Prop where
  filed : Filed received t
  spares : ∀ key, key ≠ own → ∀ d, (s.queue key d).Sublist (t.queue key d)

/-- The store keeps all its messages. -/
structure Grows (received : List Json) (s t : Store) : Prop where
  filed : Filed received t
  keeps : ∀ key d, (s.queue key d).Sublist (t.queue key d)

section Store

variable {received : List Json} {s t u : Store} {own : Json}

theorem Grows.refl (h : Filed received s) : Grows received s s :=
  ⟨h, fun _ _ => List.Sublist.refl _⟩

theorem Grows.serves (h : Grows received s t) (own : Json) : Serves received own s t :=
  ⟨h.filed, fun key _ => h.keeps key⟩

theorem Grows.trans (h : Grows received s t) (h' : Grows received t u) : Grows received s u :=
  ⟨h'.filed, fun key d => (h.keeps key d).trans (h'.keeps key d)⟩

theorem Serves.trans (h : Serves received own s t) (h' : Serves received own t u) :
    Serves received own s u :=
  ⟨h'.filed, fun key hne d => (h.spares key hne d).trans (h'.spares key hne d)⟩

theorem Filed.serves_setSlot (h : Filed received s) {d : Str} {ms : List Json}
    (hms : ∀ m ∈ ms, Stems received own m) : Serves received own s (s.setSlot own d (.arr ms)) := by
  refine ⟨h.setSlot hms, fun key hne e => ?_⟩
  rw [queue_setSlot, if_neg fun heq => hne heq.1]

/-- A message is pushed under its thread. -/
theorem Filed.push_grows (h : Filed received s) {id key m : Json} (hkey : id.asKey = .ok key)
    (hm : Stems received key m) (d : Str) : Grows received s (pushResource id d m none s).2 := by
  have hstorage := pushResource_storage (h.queued d) hkey m none
  have hset : Filed received (s.setSlot key d (.arr (s.queue key d ++ [m]))) := by
    refine h.setSlot fun m' hm' => ?_
    rcases List.mem_append.mp hm' with hm' | hm'
    · exact h.stems key d m' hm'
    · obtain rfl := List.mem_singleton.mp hm'
      exact hm
  have hqueue := fun k e => queue_congr hstorage k e
  refine ⟨⟨fun e => (hset.queued e).congr hstorage, fun k e m' hm' => ?_⟩, fun k e => ?_⟩
  · rw [hqueue] at hm'
    exact hset.stems k e m' hm'
  · rw [hqueue, queue_setSlot]
    split
    · next heq =>
      obtain ⟨rfl, rfl⟩ := heq
      exact List.sublist_append_left _ _
    · exact List.Sublist.refl _

theorem Filed.pushAgain_grows (h : Filed received s) {key m : Json} (hm : Stems received key m)
    (words : List String) (d : Str) : Grows received s (pushAgain words d m s).2 := by
  obtain ⟨id, hid, hkey⟩ := hm.piid
  rw [pushAgain]
  split
  · simp only [hid]
    exact h.push_grows hkey hm d
  · exact Grows.refl h

theorem Filed.keepDetails_grows (h : Filed received s) {key m : Json} (hm : Stems received key m) :
    Grows received s (keepDetails m s).2 := by
  have hdetails := h.pushAgain_grows hm ["filters~attach", "/3.0/propose-credential"] credentialDetails
  rw [keepDetails]
  split
  · next heq =>
    rw [heq] at hdetails
    exact hdetails
  · next heq =>
    rw [heq] at hdetails
    exact hdetails.trans (hdetails.filed.pushAgain_grows hm _ _)

/-- A pop of a thread takes its own message, or nothing. -/
theorem Filed.pop_serves (h : Filed received s) {id key : Json} (hkey : id.asKey = .ok key)
    (d : Str) : Serves received key s (popResource id d s).2 ∧
      ∀ m, (popResource id d s).1 = .ok m → m ≠ .null → Stems received key m := by
  rw [popResource_of_queued (h.queued d) hkey]
  cases hqueue : s.queue key d with
  | nil =>
    refine ⟨(Grows.refl h).serves key, fun m hm hne => ?_⟩
    exact absurd (Except.ok.inj hm).symm hne
  | cons m ms =>
    have hstems := fun m' hm' => h.stems key d m' (hqueue ▸ hm')
    refine ⟨h.serves_setSlot fun m' hm' => hstems m' (List.mem_cons_of_mem _ hm'), ?_⟩
    intro m' hm' hne
    obtain rfl := Except.ok.inj hm'
    exact hstems m List.mem_cons_self

/-- The pop of the latest takes nothing, or the newest message of the last thread. -/
theorem Filed.popLatest_cases (h : Filed received s) (d : Str) :
    ((popResourceLatest d s).2 = s ∧
      ∀ m, (popResourceLatest d s).1 = .ok m → m = .null) ∨
    ∃ key m, s.storage.keys.getLast? = some key ∧ s.queue key d ≠ [] ∧
      (popResourceLatest d s).1 = .ok m ∧ Stems received key m ∧
      Serves received key s (popResourceLatest d s).2 := by
  rw [popResourceLatest_of_queued (h.queued d)]
  cases s.storage.keys.getLast? with
  | none => exact .inl ⟨rfl, fun m hm => absurd hm (by simp)⟩
  | some key =>
    dsimp only
    cases hlast : (s.queue key d).getLast? with
    | none => exact .inl ⟨rfl, fun m hm => (Except.ok.inj hm).symm⟩
    | some m =>
      have hm := List.mem_of_getLast? hlast
      refine .inr ⟨key, m, rfl, List.ne_nil_of_mem hm, rfl, h.stems key d m hm, ?_⟩
      exact h.serves_setSlot fun m' hm' => h.stems key d m' (List.mem_of_mem_dropLast hm')

theorem Filed.guess_cases (h : Filed received s) :
    ((guessState s).2 = s ∧ ∀ m, (guessState s).1 ≠ .ok m) ∨
    ∃ key m, s.storage.keys.getLast? = some key ∧ s.queue key issueActions ≠ [] ∧
      (guessState s).1 = .ok m ∧ Stems received key m ∧
      Serves received key s (guessState s).2 := by
  rw [guessState]
  cases hget : getResourceLatest issueActions s with
  | error e => exact .inl ⟨rfl, fun m hm => absurd hm (by simp)⟩
  | ok m =>
    obtain ⟨key, hkey, hlast⟩ := getResourceLatest_of_queued (h.queued issueActions) hget
    have hm := List.mem_of_getLast? hlast
    dsimp only
    split
    · exact .inl ⟨rfl, fun m hm => absurd hm (by simp)⟩
    · exact .inl ⟨rfl, fun m hm => absurd hm (by simp)⟩
    · split
      · exact .inl ⟨rfl, fun m hm => absurd hm (by simp)⟩
      · next m' hm' =>
        have hstems : Stems received key m' :=
          (h.stems key issueActions m hm).changed (c := .state) hm'
        refine .inr ⟨key, m', hkey, List.ne_nil_of_mem hm, rfl, hstems, ?_⟩
        rw [setLatest, hkey]
        refine h.serves_setSlot fun n hn => ?_
        rcases List.mem_append.mp hn with hn | hn
        · exact h.stems key issueActions n (List.mem_of_mem_dropLast hn)
        · obtain rfl := List.mem_singleton.mp hn
          exact hstems

theorem Stems.needsGuess_eq {key m : Json} (h : Stems received key m) (messageName : Str) :
    needsGuess messageName m = .ok false := by
  obtain ⟨id, hid, -⟩ := h.piid
  obtain ⟨props, hprops, -⟩ := bind_eq_ok hid
  obtain ⟨inner, hinner, -⟩ := bind_eq_ok hprops
  rw [needsGuess, if_neg h.ne_null, Json.contains_of_item hinner]
  split
  · rfl
  · rfl

theorem keepDetails_null (s : Store) : keepDetails .null s = (.ok .null, s) := by
  have hdetails : pushAgain ["filters~attach", "/3.0/propose-credential"] credentialDetails .null s =
      (.ok .null, s) := if_neg (by decide +kernel)
  have hcache : pushAgain ["credentials~attach", "/3.0/issue-credential"] credentialCache .null s =
      (.ok .null, s) := if_neg (by decide +kernel)
  rw [keepDetails, hdetails]
  exact hcache

/-- The details of a message are kept under its thread. -/
theorem Filed.kept_grows (h : Filed received s) {key m : Json} (hm : Stems received key m) :
    Grows received s (kept (.ok m, s)).2 ∧
      ∀ m', (kept (.ok m, s)).1 = .gives m' → Stems received key m' := by
  have hgrows := h.keepDetails_grows hm
  rw [kept]
  split
  · next heq =>
    rw [heq] at hgrows
    exact ⟨hgrows, fun m' hm' => absurd hm' (by simp)⟩
  · next heq =>
    rw [heq] at hgrows
    refine ⟨hgrows, fun m' hm' => ?_⟩
    obtain rfl := Outcome.gives.inj hm'
    exact hm

theorem kept_null (s : Store) : kept (.ok .null, s) = (.gives .null, s) := by
  rw [kept, keepDetails_null]

/-- A message that a request waits for is one of the last thread. -/
theorem Filed.fetch_cases (h : Filed received s) (messageName : Str) (i : ℕ) :
    ((requestResponseIssueCredential messageName i s).2 = s ∧
      ∀ m, (requestResponseIssueCredential messageName i s).1 = .gives m → m = .null) ∨
    ∃ key, s.storage.keys.getLast? = some key ∧
      (∃ d ∈ lookedFor messageName i, s.queue key d ≠ []) ∧
      Serves received key s (requestResponseIssueCredential messageName i s).2 ∧
      ∀ m, (requestResponseIssueCredential messageName i s).1 = .gives m →
        Stems received key m := by
  have hpop := h.popLatest_cases messageName
  rw [requestResponseIssueCredential]
  generalize popResourceLatest messageName s = popped at hpop ⊢
  obtain ⟨result, t⟩ := popped
  rcases hpop with ⟨hsame, hnull⟩ | ⟨key, m, hkey, hqueue, rfl, hm, hserves⟩
  · obtain rfl : t = s := hsame
    cases result with
    | error e => exact .inl ⟨rfl, fun m hm => absurd hm (by simp)⟩
    | ok m =>
      obtain rfl := hnull m rfl
      dsimp only
      split
      · exact .inl ⟨rfl, fun m hm => absurd hm (by simp)⟩
      · next hover =>
        have hover : ¬ i < maxTimeout := fun hi => hover ⟨rfl, hi⟩
        by_cases hstates : messageName = issueStates
        · have hguess : needsGuess messageName .null = .ok true := by
            rw [needsGuess, if_neg (not_not.mpr hstates), if_pos rfl]
          have hguessed := h.guess_cases
          rw [hguess]
          dsimp only
          rw [if_pos rfl]
          generalize guessState t = found at hguessed ⊢
          obtain ⟨result, u⟩ := found
          rcases hguessed with ⟨hsame, hnone⟩ | ⟨key, m, hkey, hqueue, rfl, hm, hserves⟩
          · obtain rfl : u = t := hsame
            cases result with
            | error e => exact .inl ⟨rfl, fun m hm => absurd hm (by simp [kept])⟩
            | ok m => exact absurd rfl (hnone m)
          · obtain ⟨hgrows, hgives⟩ := hserves.filed.kept_grows hm
            have hlooked : issueActions ∈ lookedFor messageName i := by
              rw [lookedFor, if_pos ⟨hstates, hover⟩]
              exact List.mem_cons_of_mem _ List.mem_cons_self
            exact .inr ⟨key, hkey, ⟨issueActions, hlooked, hqueue⟩,
              hserves.trans (hgrows.serves key), hgives⟩
        · have hguess : needsGuess messageName .null = .ok false := if_pos hstates
          rw [hguess]
          exact .inl ⟨congrArg Prod.snd (kept_null _), fun m hm =>
            (Outcome.gives.inj ((congrArg Prod.fst (kept_null _)).symm.trans hm)).symm⟩
  · have hne : ¬ (m = .null ∧ i < maxTimeout) := fun hm' => hm.ne_null hm'.1
    dsimp only
    rw [if_neg hne, hm.needsGuess_eq]
    obtain ⟨hgrows, hgives⟩ := hserves.filed.kept_grows hm
    have hlooked : messageName ∈ lookedFor messageName i := by
      rw [lookedFor]
      split
      · exact List.mem_cons_self
      · exact List.mem_cons_self
    exact .inr ⟨key, hkey, ⟨messageName, hlooked, hqueue⟩, hserves.trans (hgrows.serves key),
      hgives⟩

end Store

/-! Requests. -/

/-- A request that goes on without a thread has used no message, and one that pops under its
record id has no other thread. -/
structure Sound (received : List Json) (r : Request) : Prop where
  uses : UsesOwn r received
  unnamed : r.thread = none → r.stage ≠ .ended → r.used = []
  named : ∀ i, r.stage = .popsActions i → ∀ thread, r.thread = some thread →
    thread = r.command.dataId

/-- The DID that is kept was read from a webhook message, if from one at all. -/
def Kept (received : List Json) (myDID : Option Json) : Prop :=
  ∀ m ∈ myDID, ∃ thread, Stems received thread m

/-- What a wake-up of a request may do. -/
structure Served (received : List Json) (s : Store) (x : Request × Store × Option Json) : Prop where
  sound : Sound received x.1
  filed : Filed received x.2.1
  spares : ∀ thread, x.1.thread = some thread → ∀ key, key ≠ thread → ∀ d,
    (s.queue key d).Sublist (x.2.1.queue key d)
  kept : Kept received x.2.2

section Requests

variable {received : List Json} {s t : Store} {r : Request} {key : Json} {myDID : Option Json}

theorem UsesOwn.serve (h : UsesOwn r received) {use : Use} {m : Json}
    (hm : match use with
      | .own => ∀ thread, r.thread = some thread → Stems received thread m
      | .credential id => ∀ key, id.asKey = .ok key → Stems received key m) :
    UsesOwn (r.serve use m) received := by
  intro u hu
  rcases List.mem_append.mp hu with hu | hu
  · exact h u hu
  · obtain rfl := List.mem_singleton.mp hu
    exact hm

theorem UsesOwn.of_nil (h : r.used = []) : UsesOwn r received := by
  intro u hu
  rw [h] at hu
  exact absurd hu List.not_mem_nil

theorem Sound.ended (h : UsesOwn r received) : Sound received (r.goto .ended) :=
  ⟨h, fun _ hne => absurd rfl hne, fun _ hpops => absurd hpops (by simp [Request.goto])⟩

theorem Sound.goto (h : Sound received r) (hstage : r.stage ≠ .ended) {stage : Stage}
    (hpops : ∀ i, stage ≠ .popsActions i) : Sound received (r.goto stage) :=
  ⟨h.uses, fun hnone _ => h.unnamed hnone hstage, fun i hi => absurd hi (hpops i)⟩

theorem Sound.of_thread (hthread : r.thread = some key) (h : UsesOwn r received)
    (hpops : ∀ i, r.stage ≠ .popsActions i) : Sound received r :=
  ⟨h, fun hnone => absurd (hthread.symm.trans hnone) (by simp), fun i hi => absurd hi (hpops i)⟩

/-- The request is told the thread that its messages stem from. -/
theorem onThread_thread {id : Json} (hkey : id.asKey = .ok key)
    (hown : ∀ thread, r.thread = some thread → thread = key) :
    (r.onThread id).thread = some key := by
  cases hthread : r.thread with
  | none => simp [Request.onThread, hthread, hkey, Except.toOption]
  | some thread => simp [Request.onThread, hthread, hown thread hthread]

theorem Sound.onThread (h : Sound received r) (hstage : r.stage ≠ .ended) (id : Json) :
    UsesOwn (r.onThread id) received := by
  cases hthread : r.thread with
  | none => exact UsesOwn.of_nil (h.unnamed hthread hstage)
  | some thread =>
    have hsame : r.onThread id = r := by
      cases r
      simp_all [Request.onThread]
    rw [hsame]
    exact h.uses

/-- What was taken is of the thread of the request. -/
theorem Served.of_serves (hserves : Serves received key s t)
    (hown : ∀ thread, r.thread = some thread → thread = key) (h : Sound received r)
    (kept : Kept received myDID) : Served received s (r, t, myDID) :=
  ⟨h, hserves.filed, fun thread hthread k hne d => hserves.spares k (hown thread hthread ▸ hne) d,
    kept⟩

/-- The DID that is sent on was read from a message of the thread. -/
theorem UsesOwn.serveDID (h : UsesOwn r received) (hthread : r.thread = some key)
    (kept : Kept received myDID)
    (hdid : r.command.readsDID = true → ∀ m ∈ myDID, piid m >>= Json.asKey = .ok key) :
    UsesOwn (r.serveDID myDID) received ∧ (r.serveDID myDID).thread = some key := by
  rw [Request.serveDID]
  split
  · next hreads =>
    refine ⟨fun u hu => ?_, hthread⟩
    rcases List.mem_append.mp hu with hu | hu
    · exact h u hu
    · obtain ⟨m, hm, rfl⟩ := List.mem_map.mp hu
      have hm := Option.mem_toList.mp hm
      obtain ⟨thread, hstems⟩ := kept m hm
      have hsame : thread = key := Except.ok.inj (hstems.piid_eq.symm.trans (hdid hreads m hm))
      intro own hown
      rw [← Option.some.inj (hthread.symm.trans hown), ← hsame]
      exact hstems
  · exact ⟨h, hthread⟩

/-- A request on the thread goes on to the agent, with the DID if it sends it on. -/
theorem Served.posts (hserves : Serves received key s t) (hthread : r.thread = some key)
    (huses : UsesOwn r received) (kept : Kept received myDID)
    (hdid : r.command.readsDID = true → ∀ m ∈ myDID, piid m >>= Json.asKey = .ok key) :
    Served received s ((r.serveDID myDID).goto .posts, t, myDID) := by
  obtain ⟨huses', hthread'⟩ := huses.serveDID hthread kept hdid
  refine Served.of_serves hserves (fun thread heq => ?_)
    (Sound.of_thread hthread' huses' (by simp [Request.goto])) kept
  exact Option.some.inj (heq.symm.trans hthread')

/-- A message of the last thread is used by a request on it, or by one that has no thread yet. -/
theorem Sound.given (h : Sound received r) (hstage : r.stage ≠ .ended) (first : Bool) {m : Json}
    (hserves : Serves received key s t) (hm : Stems received key m)
    (hown : ∀ thread, r.thread = some thread → thread = key) (kept : Kept received myDID)
    (hdid : first = true → r.command.readsDID = true →
      ∀ m ∈ myDID, piid m >>= Json.asKey = .ok key) :
    Served received s (r.given first m t myDID) := by
  have huses : UsesOwn (r.serve .own m) received :=
    h.uses.serve fun thread hthread => (hown thread hthread).symm ▸ hm
  have hended : Served received s ((r.serve .own m).goto .ended, t, myDID) :=
    Served.of_serves hserves hown (Sound.ended huses) kept
  obtain ⟨id, hid, hkey⟩ := hm.piid
  -- from here on the request is on the thread of the message
  have hthread : ((r.serve .own m).onThread id).thread = some key := onThread_thread hkey hown
  have hown' : ∀ thread, ((r.serve .own m).onThread id).thread = some thread → thread = key :=
    fun thread heq => Option.some.inj (heq.symm.trans hthread)
  have huses' : UsesOwn ((r.serve .own m).onThread id) received :=
    (Sound.onThread h hstage id).serve fun thread heq => (hown' thread heq).symm ▸ hm
  rw [Request.given, if_neg hm.ne_null]
  cases first with
  | false => exact hended
  | true =>
    have hdid := hdid rfl
    dsimp only
    split
    · rw [hid]
      dsimp only
      split
      · obtain ⟨hpop, hdetails⟩ := hserves.filed.pop_serves hkey credentialDetails
        generalize popResource id credentialDetails t = popped at hpop hdetails ⊢
        obtain ⟨result, u⟩ := popped
        have hu := hserves.trans hpop
        cases result with
        | error e => exact Served.of_serves hu hown' (Sound.ended huses') kept
        | ok details =>
          dsimp only
          split
          · split
            · exact Served.of_serves hu hown' (Sound.ended huses') kept
            · exact Served.posts hu hthread huses' kept hdid
          · next hne =>
            have hboth : UsesOwn (((r.serve .own m).onThread id).serve .own details) received :=
              huses'.serve fun thread heq => (hown' thread heq).symm ▸ hdetails details rfl hne
            exact Served.posts hu hthread hboth kept hdid
      · split
        · split
          · exact Served.of_serves hserves hown' (Sound.ended huses') kept
          · refine Served.of_serves hserves hown' (Sound.of_thread hthread huses'
              (by simp [Request.goto])) fun m' hm' => ?_
            obtain rfl := Option.some.inj hm'
            exact ⟨key, hm⟩
        · exact Served.posts hserves hthread huses' kept hdid
    · exact hended

/-- The thread that has what the request looks for is its own. -/
theorem own_of_latest {own : Json → Prop} (latest : LatestServes r s own)
    (hkey : s.storage.keys.getLast? = some key) {d : Str} (hd : d ∈ looksFor r)
    (hqueue : s.queue key d ≠ []) :
    (∀ thread, r.thread = some thread → thread = key) ∧ own key := by
  rcases latest key hkey with hnone | hown
  · exact absurd (hnone d hd) hqueue
  · exact hown

/-- Nothing was taken. -/
theorem Sound.served (h : Sound received r) (filed : Filed received s)
    (kept : Kept received myDID) : Served received s (r, s, myDID) :=
  ⟨h, filed, fun _ _ _ _ _ => List.Sublist.refl _, kept⟩

theorem Sound.fetch (h : Sound received r) (filed : Filed received s) {messageName : Str} {i : ℕ}
    {first : Bool} (hstage : r.stage = .fetches messageName i first)
    (kept : Kept received myDID) (latest : LatestServes r s (DIDIsOf myDID r)) :
    Served received s (r.fetch messageName i first s myDID) := by
  have hne : r.stage ≠ .ended := by
    rw [hstage]
    simp
  have hcases := filed.fetch_cases messageName i
  rw [Request.fetch]
  generalize requestResponseIssueCredential messageName i s = outcome at hcases ⊢
  obtain ⟨outcome, t⟩ := outcome
  rcases hcases with ⟨hsame, hnull⟩ | ⟨key, hkey, ⟨d, hd, hqueue⟩, hserves, hgives⟩
  · obtain rfl : t = s := hsame
    cases outcome with
    | sleeps => exact (h.goto hne (by simp)).served filed kept
    | raises => exact (h.goto hne (by simp)).served filed kept
    | gives m =>
      obtain rfl := hnull m rfl
      exact (h.goto hne (by simp)).served filed kept
  · have hlooks : d ∈ looksFor r := by
      rw [looksFor, hstage]
      exact hd
    obtain ⟨hown, hdid⟩ := own_of_latest latest hkey hlooks hqueue
    cases outcome with
    | sleeps => exact Served.of_serves hserves hown (h.goto hne (by simp)) kept
    | raises => exact Served.of_serves hserves hown (h.goto hne (by simp)) kept
    | gives m =>
      refine h.given hne first hserves (hgives m rfl) hown kept fun hfirst hreads => hdid ?_
      rw [sendsDID, hstage, hfirst]
      exact hreads

theorem Sound.takeState (h : Sound received r) (filed : Filed received s)
    (hstage : r.stage = .takesState) (kept : Kept received myDID) {own : Json → Prop}
    (latest : LatestServes r s own) :
    Served received s ((r.takeState s).1, (r.takeState s).2, myDID) := by
  have hcases := filed.popLatest_cases proofStates
  rw [Request.takeState]
  generalize popResourceLatest proofStates s = popped at hcases ⊢
  obtain ⟨result, t⟩ := popped
  rcases hcases with ⟨hsame, hnull⟩ | ⟨key, m, hkey, hqueue, rfl, hm, hserves⟩
  · obtain rfl : t = s := hsame
    have hended : Served received t (r.goto .ended, t, myDID) :=
      (Sound.ended h.uses).served filed kept
    cases result with
    | error e => exact hended
    | ok m =>
      obtain rfl := hnull m rfl
      exact hended
  · have hlooks : proofStates ∈ looksFor r := by
      rw [looksFor, hstage]
      exact List.mem_singleton_self _
    have hown := (own_of_latest latest hkey hlooks hqueue).1
    have huses : UsesOwn (r.serve .own m) received :=
      h.uses.serve fun thread hthread => (hown thread hthread).symm ▸ hm
    dsimp only
    rw [if_neg hm.ne_null]
    exact Served.of_serves hserves hown (Sound.ended huses) kept

theorem asKey_dataId (c : Command) : c.dataId.asKey = .ok c.dataId := by
  rw [Command.dataId]
  cases c.recordId with
  | none => rfl
  | some id => rfl

/-- A cached credential is one of the id under which it was looked for. -/
theorem Filed.stems_cachedCredential (h : Filed received s) {id : Json} {us : List (Use × Json)}
    (hread : cachedCredential s id = .ok us) :
    ∀ u ∈ us, u.1 = .credential id ∧ ∀ key, id.asKey = .ok key → Stems received key u.2 := by
  obtain ⟨records, hrecords, hus⟩ := bind_eq_ok hread
  intro u hu
  split at hus
  · next messages =>
    obtain rfl := Except.ok.inj hus
    obtain ⟨m, hm, rfl⟩ := List.mem_map.mp hu
    refine ⟨rfl, fun key hkey => h.stems key credentialCache m ?_⟩
    rw [getResource, hkey] at hrecords
    have hslot : (s.slot key credentialCache).getD .null = .arr messages := Except.ok.inj hrecords
    have hqueue : s.queue key credentialCache = messages := by
      rw [Store.queue]
      cases hget : s.slot key credentialCache with
      | none => simp [hget] at hslot
      | some v =>
        rw [hget] at hslot
        obtain rfl : v = .arr messages := hslot
        rfl
    rw [hqueue]
    exact List.mem_of_getLast? (Option.mem_toList.mp hm)
  · exact absurd hus (by simp [throw, throwThe, MonadExceptOf.throw])

/-- A presentation presents credentials of the ids that it names. -/
theorem Filed.stems_presented (h : Filed received s) {data : Json} {us : List (Use × Json)}
    (hread : presented data s = .ok us) :
    ∀ u ∈ us, ∃ id, u.1 = .credential id ∧ ∀ key, id.asKey = .ok key → Stems received key u.2 := by
  obtain ⟨format, -, hread⟩ := bind_eq_ok hread
  obtain ⟨underscore, -, hread⟩ := bind_eq_ok hread
  obtain ⟨dash, -, hread⟩ := bind_eq_ok hread
  intro u hu
  split at hread
  · obtain ⟨lists, -, hread⟩ := bind_eq_ok hread
    split at hread
    · obtain ⟨ids, -, hread⟩ := bind_eq_ok hread
      obtain ⟨credentials, hcredentials, hread⟩ := bind_eq_ok hread
      obtain rfl := Except.ok.inj hread
      obtain ⟨cs, hcs, hu⟩ := List.mem_flatten.mp hu
      obtain ⟨id, -, hid⟩ := mem_of_mapM hcredentials cs hcs
      obtain ⟨huse, hstems⟩ := h.stems_cachedCredential hid u hu
      exact ⟨id, huse, hstems⟩
    · exact absurd hread (by simp [throw, throwThe, MonadExceptOf.throw])
  · obtain rfl := Except.ok.inj hread
    exact absurd hu List.not_mem_nil

theorem Sound.popActions (h : Sound received r) (filed : Filed received s) {i : ℕ}
    (hstage : r.stage = .popsActions i) (kept : Kept received myDID) :
    Served received s ((r.popActions i s).1, (r.popActions i s).2, myDID) := by
  have hne : r.stage ≠ .ended := by
    rw [hstage]
    simp
  have hkey := asKey_dataId r.command
  obtain ⟨hserves, hpop⟩ := filed.pop_serves hkey proofActions
  have hown := h.named i hstage
  rw [Request.popActions]
  generalize popResource r.command.dataId proofActions s = popped at hserves hpop ⊢
  obtain ⟨result, t⟩ := popped
  have hended : Served received s (r.goto .ended, t, myDID) :=
    Served.of_serves hserves hown (Sound.ended h.uses) kept
  cases result with
  | error e => exact hended
  | ok m =>
    dsimp only
    split
    · split
      · refine Served.of_serves hserves hown ?_ kept
        exact ⟨h.uses, fun hnone _ => h.unnamed hnone hne, fun j _ => hown⟩
      · exact hended
    · next hnull =>
      have hm := hpop m rfl hnull
      split
      · next topic operation recordId data hcommand =>
        split
        · exact hended
        · have hthread := onThread_thread (r := r) hkey hown
          have hown' : ∀ thread, (r.onThread r.command.dataId).thread = some thread →
              thread = r.command.dataId := fun thread heq => Option.some.inj (heq.symm.trans hthread)
          have huses : UsesOwn ((r.onThread r.command.dataId).serve .own m) received :=
            (Sound.onThread h hne _).serve fun thread heq => (hown' thread heq).symm ▸ hm
          split
          · exact Served.of_serves hserves hown' (Sound.ended huses) kept
          · next credentials hcredentials =>
            refine Served.of_serves hserves hown'
              (Sound.of_thread hthread ?_ (by simp [Request.goto])) kept
            intro u hu
            rcases List.mem_append.mp hu with hu | hu
            · exact huses u hu
            · obtain ⟨id, huse, hstems⟩ := hserves.filed.stems_presented hcredentials u hu
              rw [huse]
              exact hstems
      · exact hended

theorem Sound.wake (h : Sound received r) (filed : Filed received s) (kept : Kept received myDID)
    (latest : LatestServes r s (DIDIsOf myDID r)) {x : Request × Store × Option Json}
    (next : r.wake s myDID = some x) : Served received s x := by
  cases hstage : r.stage with
  | fetches messageName i first =>
    rw [Request.wake, hstage] at next
    exact Option.some.inj next ▸ h.fetch filed hstage kept latest
  | popsActions i =>
    rw [Request.wake, hstage] at next
    exact Option.some.inj next ▸ h.popActions filed hstage kept
  | takesState =>
    rw [Request.wake, hstage] at next
    exact Option.some.inj next ▸ h.takeState filed hstage kept latest
  | asks =>
    rw [Request.wake, hstage] at next
    exact absurd next (by simp)
  | posts =>
    rw [Request.wake, hstage] at next
    exact absurd next (by simp)
  | ended =>
    rw [Request.wake, hstage] at next
    exact absurd next (by simp)

theorem Sound.onThread_goto (h : Sound received r) (hstage : r.stage ≠ .ended) (id : Json)
    {stage : Stage} (hpops : ∀ i, stage ≠ .popsActions i) :
    Sound received ((r.onThread id).goto stage) := by
  refine ⟨Sound.onThread h hstage id, fun hnone _ => ?_, fun i hi => absurd hi (hpops i)⟩
  have hthread : r.thread.or id.asKey.toOption = none := hnone
  exact h.unnamed (Option.or_eq_none_iff.mp hthread).1 hstage

theorem Sound.answered (h : Sound received r) (hstage : r.stage = .posts) (status : ℕ)
    (text : Text) : Sound received (r.answered status text) := by
  have hne : r.stage ≠ .ended := by
    rw [hstage]
    simp
  have hended : Sound received (r.goto .ended) := Sound.ended h.uses
  rw [Request.answered]
  split
  · exact hended
  · split
    · exact hended
    · split
      · exact h.onThread_goto hne _ (by simp)
      · split
        · exact hended
        · exact h.goto hne (by simp)
    · split
      · exact h.goto hne (by simp)
      · split
        · exact h.onThread_goto hne _ (by simp)
        · exact hended

end Requests

/-! Steps. -/

/-- A message on its way to a stack, or on it, is one of its thread. -/
def OnStack (received : List Json) (stack : Str) (m : Json) : Prop :=
  ∀ thread, stack = Webhook.proofStack thread → Stems received (.str thread) m

structure Invariant (s : System) : Prop where
  filed : Filed s.received s.store
  kept : Kept s.received s.myDID
  sound : ∀ r ∈ s.requests, Sound s.received r
  puts : ∀ p ∈ s.puts, OnStack s.received p.1 p.2
  onStacks : ItemsSatisfy (OnStack s.received) s.messageStacks

theorem invariant_start : Invariant start :=
  ⟨filed_empty, fun _ hm => absurd hm (Option.not_mem_none _),
    fun _ hr => absurd hr List.not_mem_nil, fun _ hp => absurd hp List.not_mem_nil,
    itemsSatisfy_start _⟩

theorem Invariant.isolated {s : System} (h : Invariant s) : Isolated s :=
  ⟨fun r hr => (h.sound r hr).uses, fun p hp thread hthread m hm =>
    h.onStacks.taken p hp m hm thread hthread, fun p hp thread hthread m hm =>
    h.onStacks.returned p hp m hm thread hthread⟩

theorem UsesOwn.mono {received : List Json} {r : Request} (h : UsesOwn r received)
    (more : List Json) : UsesOwn r (received ++ more) := by
  intro u hu
  have hold := h u hu
  split at hold
  · exact fun thread hthread => (hold thread hthread).mono more
  · exact fun key hkey => (hold key hkey).mono more

theorem OnStack.mono {received : List Json} {stack : Str} {m : Json} (h : OnStack received stack m)
    (more : List Json) : OnStack (received ++ more) stack m :=
  fun thread hthread => (h thread hthread).mono more

theorem Sound.mono {received : List Json} {r : Request} (h : Sound received r)
    (more : List Json) : Sound (received ++ more) r :=
  ⟨h.uses.mono more, h.unnamed, h.named⟩

theorem Kept.mono {received : List Json} {myDID : Option Json} (h : Kept received myDID)
    (more : List Json) : Kept (received ++ more) myDID := by
  intro m hm
  obtain ⟨thread, hstems⟩ := h m hm
  exact ⟨thread, hstems.mono more⟩

theorem Invariant.received {s : System} (h : Invariant s) (more : List Json) :
    Invariant { s with received := s.received ++ more } :=
  ⟨h.filed.mono more, h.kept.mono more, fun r hr => (h.sound r hr).mono more,
    fun p hp => (h.puts p hp).mono more,
    ⟨fun k v hv => (h.onStacks.items k v hv).mono more,
      fun p hp v hv => (h.onStacks.taken p hp v hv).mono more,
      fun p hp v hv => (h.onStacks.returned p hp v hv).mono more⟩⟩

/-- A push fails before it stores anything, or stores the message under its thread. -/
theorem Filed.push_any {received : List Json} {s : Store} (h : Filed received s) {id m : Json}
    (hm : ∀ key, id.asKey = .ok key → Stems received key m) (d : Str) :
    Filed received (pushResource id d m none s).2 := by
  cases hkey : id.asKey with
  | error e =>
    rw [pushResource_of_unhashable hkey]
    exact h
  | ok key => exact (h.push_grows hkey (hm key hkey) d).filed

theorem proofStack_injective {t u : Str} (h : Webhook.proofStack t = Webhook.proofStack u) :
    t = u := List.append_cancel_left h

/-- A webhook stores its message under its thread, and puts it on the stack of that thread. -/
theorem Filed.handle {received : List Json} {s : Store} (h : Filed received s) (w : Webhook)
    {message : Json} (hm : message ∈ received) :
    Filed received (w.handle message s).1 ∧
      ∀ p ∈ (w.handle message s).2, OnStack received p.1 p.2 := by
  rw [Webhook.handle]
  split
  · exact ⟨h, fun p hp => absurd hp List.not_mem_nil⟩
  · next id hid =>
    have hstems : ∀ key, id.asKey = .ok key → Stems received key message :=
      fun key hkey => stems_webhook hm hid hkey
    have hpush := h.push_any hstems w.dataType
    generalize pushResource id w.dataType message none s = pushed at hpush ⊢
    obtain ⟨result, t⟩ := pushed
    cases result with
    | error e => exact ⟨hpush, fun p hp => absurd hp List.not_mem_nil⟩
    | ok m =>
      dsimp only
      split
      · split
        · exact ⟨hpush.push_any hstems _, fun p hp => absurd hp List.not_mem_nil⟩
        · exact ⟨hpush, fun p hp => absurd hp List.not_mem_nil⟩
      · next thread =>
        refine ⟨hpush, fun p hp => ?_⟩
        obtain rfl := List.mem_singleton.mp hp
        intro u hu
        rw [← proofStack_injective hu]
        exact hstems _ rfl
      · exact ⟨hpush, fun p hp => absurd hp List.not_mem_nil⟩

theorem Invariant.stackStep {s : System} (h : Invariant s) {e : AsyncQueue.Event Str Json}
    (put : ∀ k v, e = .put k v → OnStack s.received k v) {loop : Loop Str Json}
    (acts : StackStep s e loop) : Invariant { s with messageStacks := loop } :=
  ⟨h.filed, h.kept, h.sound, h.puts, h.onStacks.step put acts⟩

theorem Invariant.setRequest {s : System} (h : Invariant s) {r : Request} {n : ℕ}
    (hr : Sound s.received r) : Invariant { s with requests := s.requests.set n r } := by
  refine ⟨h.filed, h.kept, fun q hq => ?_, h.puts, h.onStacks⟩
  rcases List.mem_or_eq_of_mem_set hq with hq | rfl
  · exact h.sound q hq
  · exact hr

/-- A command begins with no message used, and pops under its own record id only. -/
theorem sound_command (received : List Json) (c : Command) (stage : Stage) :
    Sound received ⟨c, c.recordId.map fun id => Json.str (ofText id), stage, []⟩ := by
  refine ⟨UsesOwn.of_nil rfl, fun _ _ => rfl, fun i _ thread hthread => ?_⟩
  have hthread : (c.recordId.map fun id => Json.str (ofText id)) = some thread := hthread
  show thread = c.dataId
  rw [Command.dataId, hthread]
  rfl

theorem Invariant.served {s : System} (h : Invariant s) {n : ℕ} {r : Request} {store : Store}
    {myDID : Option Json} (served : Served s.received s.store (r, store, myDID)) :
    Invariant { s with requests := s.requests.set n r, store := store, myDID := myDID } := by
  have hset := (Invariant.setRequest h served.sound : Invariant { s with
    requests := s.requests.set n r })
  exact ⟨served.filed, served.kept, hset.sound, hset.puts, hset.onStacks⟩

theorem Invariant.wake {s : System} (h : Invariant s) {n : ℕ} (latest : LatestIsOwn s (.wake n))
    {r r' : Request} {store : Store} {myDID : Option Json} (hr : s.requests[n]? = some r)
    (wakes : r.wake s.store s.myDID = some (r', store, myDID)) :
    Served s.received s.store (r', store, myDID) :=
  (h.sound r (List.mem_of_getElem? hr)).wake h.filed h.kept (latest r hr) wakes

/-- A request that raises sends on no DID, and leaves the one that is kept. -/
theorem Invariant.fails {s : System} (h : Invariant s) {n : ℕ} (latest : LatestIsOwn s (.fails n))
    {r r' : Request} {store : Store} {myDID : Option Json} (hr : s.requests[n]? = some r)
    (wakes : r.wake s.store none = some (r', store, myDID)) :
    Served s.received s.store (r'.goto .ended, store, s.myDID) := by
  have hlatest : LatestServes r s.store (DIDIsOf none r) := by
    intro key hkey
    refine (latest r hr key hkey).imp id fun hown => ⟨hown.1, fun _ m hm => ?_⟩
    exact absurd hm (Option.not_mem_none m)
  have served := (h.sound r (List.mem_of_getElem? hr)).wake h.filed
    (fun m hm => absurd hm (Option.not_mem_none m)) hlatest wakes
  exact ⟨Sound.ended served.sound.uses, served.filed, served.spares, h.kept⟩

theorem Invariant.webhook {s : System} (h : Invariant s) (w : Webhook) (message : Json) :
    Invariant { s with
      received := s.received ++ [message]
      store := (w.handle message s.store).1
      puts := s.puts ++ (w.handle message s.store).2 } := by
  have hmore := h.received [message]
  have hmem : message ∈ s.received ++ [message] := by simp
  obtain ⟨hfiled, hputs⟩ := hmore.filed.handle w hmem
  refine ⟨hfiled, hmore.kept, hmore.sound, fun p hp => ?_, hmore.onStacks⟩
  rcases List.mem_append.mp hp with hp | hp
  · exact hmore.puts p hp
  · exact hputs p hp

theorem Invariant.put {s : System} {n : ℕ} (h : Invariant s) {p : Str × Json}
    (waits : s.puts[n]? = some p) {loop : Loop Str Json} (acts : StackStep s (.put p.1 p.2) loop) :
    Invariant { s with puts := s.puts.eraseIdx n, messageStacks := loop } := by
  have hfewer : Invariant { s with puts := s.puts.eraseIdx n } :=
    ⟨h.filed, h.kept, h.sound, fun q hq => h.puts q (List.eraseIdx_subset hq), h.onStacks⟩
  refine hfewer.stackStep (fun k v heq => ?_) acts
  obtain ⟨rfl, rfl⟩ := AsyncQueue.Event.put.inj heq
  exact h.puts p (List.mem_of_getElem? waits)

theorem Invariant.command {s : System} (h : Invariant s) (c : Command) (stage : Stage) :
    Invariant { s with requests := s.requests ++
      [⟨c, c.recordId.map fun id => Json.str (ofText id), stage, []⟩] } := by
  refine ⟨h.filed, h.kept, fun r hr => ?_, h.puts, h.onStacks⟩
  rcases List.mem_append.mp hr with hr | hr
  · exact h.sound r hr
  · obtain rfl := List.mem_singleton.mp hr
    exact sound_command s.received c stage

/-- The record of a connection is no webhook message. -/
theorem Invariant.participants {s : System} (h : Invariant s) {n : ℕ} {r : Request}
    (hr : s.requests[n]? = some r) (asks : r.stage = .asks) :
    Invariant { s with requests := s.requests.set n (r.goto .posts), myDID := none } := by
  have hsound : Sound s.received (r.goto .posts) :=
    (h.sound r (List.mem_of_getElem? hr)).goto (by rw [asks]; simp) (by simp)
  have hset := (Invariant.setRequest h hsound : Invariant { s with
    requests := s.requests.set n (r.goto .posts) })
  exact ⟨h.filed, fun m hm => absurd hm (Option.not_mem_none m), hset.sound, hset.puts,
    hset.onStacks⟩

/-- What is changed where it is stored stems from the thread it stemmed from. -/
theorem Invariant.edited {s : System} {key : Json} {d : Str} {n : ℕ} {c : Change}
    {message message' : Json} (h : Invariant s)
    (stored : (s.store.queue key d)[n]? = some message) (changes : c.apply message = .ok message') :
    Invariant { s with
      store := s.store.setSlot key d (.arr ((s.store.queue key d).set n message')) } := by
  refine ⟨h.filed.setSlot fun m hm => ?_, h.kept, h.sound, h.puts, h.onStacks⟩
  rcases List.mem_or_eq_of_mem_set hm with hm | rfl
  · exact h.filed.stems key d m hm
  · exact (h.filed.stems key d message (List.mem_of_getElem? stored)).changed changes

theorem Invariant.step {s t : System} {e : Event} (h : Invariant s) (latest : LatestIsOwn s e)
    (next : step s e = some t) : Invariant t := by
  cases AfgoThreads.steps_of_step next with
  | webhook w message => exact h.webhook w message
  | put waits acts => exact h.put waits acts
  | answers _ => exact h
  | command _ => exact h.command _ _
  | getProof acts => exact h.stackStep (fun k v heq => absurd heq (by simp)) acts
  | wake requests wakes => exact h.served (h.wake latest requests wakes)
  | fails requests wakes => exact h.served (h.fails latest requests wakes)
  | participants requests asks => exact h.participants requests asks
  | agent status text requests posts =>
    exact h.setRequest ((h.sound _ (List.mem_of_getElem? requests)).answered posts status text)
  | ends requests => exact h.setRequest (Sound.ended (h.sound _ (List.mem_of_getElem? requests)).uses)
  | edited stored changes => exact h.edited stored changes
  | resume acts => exact h.stackStep (fun k v heq => absurd heq (by simp)) acts
  | deliver acts => exact h.stackStep (fun k v heq => absurd heq (by simp)) acts
  | expire acts => exact h.stackStep (fun k v heq => absurd heq (by simp)) acts

theorem Invariant.sparesOthers {s : System} {e : Event} (h : Invariant s)
    (latest : LatestIsOwn s e) : SparesOthers s e := by
  intro t next
  cases AfgoThreads.steps_of_step next with
  | @wake n r r' store myDID requests wakes =>
    intro q hq
    have hq : (s.requests.set n r')[n]? = some q := hq
    rw [List.getElem?_set_self (List.getElem?_eq_some_iff.mp requests).1] at hq
    obtain rfl := Option.some.inj hq
    exact (h.wake latest requests wakes).spares
  | @fails n r r' store myDID requests wakes =>
    intro q hq
    have hq : (s.requests.set n (r'.goto .ended))[n]? = some q := hq
    rw [List.getElem?_set_self (List.getElem?_eq_some_iff.mp requests).1] at hq
    obtain rfl := Option.some.inj hq
    exact (h.fails latest requests wakes).spares
  | resume acts =>
    intro p hp stack hstack
    cases AsyncQueue.steps_of_step acts with
    | @resume _ q called ready =>
      obtain rfl : p = q := Option.some.inj (hp.symm.trans called)
      exact resume_items_ne hstack
  | _ => trivial

/-- A message of a thread, with its state. -/
def stateMessage (thread state : String) : Json :=
  .obj [("message", .obj [("Properties", .obj [("piid", .str (thread : Str))]),
    ("StateID", .str (state : Str))])]

/-- A proposal that waits for an offer. -/
def proposalMessage (thread did : String) : Json :=
  .obj [("message", .obj [("Properties", .obj [("piid", .str (thread : Str)),
    ("myDID", .str (did : Str))]), ("Message", .obj [])])]

def postFor (operation thread : String) : Event :=
  .command (.issueCredential "issue-credential".toList operation.toList (some thread.toList) .null)

/-- Two threads after one another: an offer and an issuance, which sends on the DID that the offer
kept, and then a GET for the other thread. -/
def oneAfterTheOther : List Event :=
  [.webhook .issueCredentialActions (proposalMessage "t1" "did:1"),
    postFor "send-offer" "t1", .wake 0, .agent 0 200 "\x7b\x7d".toList,
    .webhook .issueCredentialStates (stateMessage "t1" "offer-sent"), .wake 0,
    .webhook .issueCredentialStates (stateMessage "t1" "request-received"),
    postFor "issue" "t1", .wake 1, .agent 1 200 "\x7b\x7d".toList,
    .webhook .issueCredentialStates (stateMessage "t1" "done"), .wake 1,
    .webhook .issueCredentialStates (stateMessage "t2" "request-sent"),
    .command (.getIssueCredential "t2".toList), .wake 2]

/-- The same GET for the first thread while the message of the second has come. -/
def bothWaiting : List Event :=
  [.webhook .issueCredentialStates (stateMessage "t1" "offer-sent"),
    .webhook .issueCredentialStates (stateMessage "t2" "request-sent"),
    .command (.getIssueCredential "t1".toList), .wake 0]

end AgentTestHarness.ThreadIsolation
