import AgentTestHarness.RepeatedPops
import AgentTestHarness.ThreadIsolation
import Mathlib.Data.Finset.Preimage
import Mathlib.Data.Fintype.EquivFin

/-! GET for the state of an exchange, asked twice: it takes the message whose state it answers. -/
namespace AgentTestHarness.RepeatedGets
open PyText OrderedDict PyJson Storage AfgoThreads RepeatedPops Runs
open AsyncQueue (Loop PopCall Linked)
open ThreadIsolation (proofStack_injective)

/-- Status and state. -/
abbrev Reply := ℕ × Option Json

def stateOf (message : Json) : Except PyError Json := do
  let inner ← message.item "message"
  if ← inner.contains "StateID" then inner.item "StateID"
  else throw (.exception "Could not retieve State from webhook message")

/-- The answer made of a message; a timeout is an exception too. -/
def reply : Option Json → Reply
  | none => (500, none)
  | some message => match stateOf message with
    | .ok state => (200, some state)
    | .error _ => (500, none)

/-- The versions of a protocol are served alike. -/
inductive Topic
  | issueCredential
  | proof
  deriving DecidableEq

def Topic.get (topic : Topic) (recordId : Text) : Event := match topic with
  | .issueCredential => .command (.getIssueCredential recordId)
  | .proof => .getProof recordId

/-- The number that the next GET has among the requests, or among the pops. -/
def calls (topic : Topic) (s : System) : ℕ := match topic with
  | .issueCredential => s.requests.length
  | .proof => s.messageStacks.pops.length

/-- What a GET has answered, if it has. -/
def answer (topic : Topic) (n : ℕ) (s : System) : Option Reply := match topic with
  | .issueCredential => match s.requests[n]? with
    | some r => if r.stage = .ended then some (reply (r.used.head?.map Prod.snd)) else none
    | none => none
  | .proof => (s.messageStacks.pops[n]?).bind fun p => (outcome p).map reply

def isGet : Command → Bool
  | .getIssueCredential _ => true
  | _ => false

/-- No webhook of the thread comes or is put on its stack, and no other GET of it is asked. A GET
ends by itself, and its timer fires only while its getter waits. -/
def Between (thread : Text) (s : System) : Event → Prop
  | .webhook w message => w.threadId message ≠ .ok (.str (ofText thread))
  | .put n => ∀ p ∈ s.puts[n]?, p.1 ≠ Webhook.proofStack (ofText thread)
  | .getProof recordId => recordId ≠ thread
  | .command c => c ≠ .getIssueCredential thread
  | .ends n | .fails n => ∀ r ∈ s.requests[n]?, isGet r.command = false
  | .expire n => ∀ p ∈ s.messageStacks.pops[n]?, p.getter = .waiting
  | _ => True

instance (thread : Text) (s : System) : (e : Event) → Decidable (Between thread s e)
  | .webhook w message =>
    inferInstanceAs (Decidable (w.threadId message ≠ .ok (.str (ofText thread))))
  | .put n =>
    inferInstanceAs (Decidable (∀ p ∈ s.puts[n]?, p.1 ≠ Webhook.proofStack (ofText thread)))
  | .getProof recordId => inferInstanceAs (Decidable (recordId ≠ thread))
  | .command c => inferInstanceAs (Decidable (c ≠ .getIssueCredential thread))
  | .expire n =>
    inferInstanceAs (Decidable (∀ p ∈ s.messageStacks.pops[n]?, p.getter = .waiting))
  | .wake _ => isTrue trivial
  | .participants _ => isTrue trivial
  | .agent _ _ _ => isTrue trivial
  | .ends n => inferInstanceAs (Decidable (∀ r ∈ s.requests[n]?, isGet r.command = false))
  | .fails n => inferInstanceAs (Decidable (∀ r ∈ s.requests[n]?, isGet r.command = false))
  | .edited _ _ _ _ => isTrue trivial
  | .resume _ => isTrue trivial
  | .deliver _ => isTrue trivial

def stepBetween (thread : Text) (s : System) (e : Event) : Option System :=
  if Between thread s e then step s e else none

/-- The next two GETs of the thread answer the same, whatever happens besides webhooks of it. -/
def Repeats (topic : Topic) (thread : Text) (s : System) : Prop :=
  ∀ s₁ es u es' u₁ v a b, step s (topic.get thread) = some s₁ →
    Run (stepBetween thread) s₁ es u → answer topic (calls topic s) u = some a →
    step u (topic.get thread) = some u₁ → Run (stepBetween thread) u₁ es' v →
    answer topic (calls topic u) v = some b → a = b

/-- The messages that getters called before are about to take from the stack of the thread, and the
two after them, answer the same; where there is none left the answer is a timeout's. -/
def SameAgain (thread : Text) (s : System) : Prop :=
  ∀ j < takers (Webhook.proofStack (ofText thread)) s.messageStacks + 2,
    reply (newest (Webhook.proofStack (ofText thread)) s.messageStacks j) =
      reply (newest (Webhook.proofStack (ofText thread)) s.messageStacks 0)

/-- The id is not one of the two words that ask for something else than a state. -/
def IsThread (recordId : Text) : Prop :=
  recordId ≠ "retrieve-credential-proposal".toList ∧
    recordId ≠ "retrieve-credential-application".toList

/-! The stacks of a run. -/

/-- A step leaves the stacks, or is one of theirs, which puts nothing on the stack of the thread if
it is one between two GETs. -/
theorem stack_step {s t : System} {e : Event} (next : step s e = some t) :
    t.messageStacks = s.messageStacks ∨ ∃ e',
      AsyncQueue.step (fun _ => .lifo) s.messageStacks e' = some t.messageStacks ∧
        ∀ thread, Between thread s e →
          Still (Webhook.proofStack (ofText thread)) s.messageStacks e' := by
  cases steps_of_step next with
  | webhook w message => exact .inl rfl
  | put waits acts => exact .inr ⟨_, acts, fun thread between => between _ waits⟩
  | answers _ => exact .inl rfl
  | command _ => exact .inl rfl
  | getProof acts =>
    refine .inr ⟨_, acts, fun thread between heq => between ?_⟩
    exact ofText_injective (proofStack_injective heq)
  | wake _ _ => exact .inl rfl
  | fails _ _ => exact .inl rfl
  | participants _ _ => exact .inl rfl
  | agent _ _ _ _ => exact .inl rfl
  | ends _ => exact .inl rfl
  | edited _ _ => exact .inl rfl
  | resume acts => exact .inr ⟨_, acts, fun _ _ => trivial⟩
  | deliver acts => exact .inr ⟨_, acts, fun _ _ => trivial⟩
  | expire acts => exact .inr ⟨_, acts, fun _ between p hp => between p hp⟩

theorem linked_step {s t : System} {e : Event} (h : Linked s.messageStacks)
    (next : step s e = some t) : Linked t.messageStacks := by
  rcases stack_step next with heq | ⟨e', hstep, -⟩
  · exact heq ▸ h
  · exact h.step hstep

theorem linked_start : Linked start.messageStacks :=
  ⟨fun _ _ hg => absurd hg List.not_mem_nil, fun _ => List.nodup_nil⟩

theorem stepBetween_eq {thread : Text} {s t : System} {e : Event}
    (next : stepBetween thread s e = some t) : Between thread s e ∧ step s e = some t := by
  unfold stepBetween at next
  split at next
  · next between => exact ⟨between, next⟩
  · cases next

/-! GET for a proof. -/

section Proof

variable {thread : Text} {s t : System} {v : Reply}

/-- What is on the stack of the thread answers the same, also after more GETs. -/
def AlikeOn (thread : Text) (v : Reply) (more i : ℕ) (s : System) : Prop :=
  Alike (Webhook.proofStack (ofText thread)) reply v more i s.messageStacks

theorem AlikeOn.run {more i : ℕ} (h : AlikeOn thread v more i s) {es : List Event}
    (run : Run (stepBetween thread) s es t) : AlikeOn thread v more i t := by
  refine run.invariant (I := AlikeOn thread v more i) h fun {u e w} hu next => ?_
  obtain ⟨between, next⟩ := stepBetween_eq next
  rcases stack_step next with heq | ⟨e', hstep, still⟩
  · unfold AlikeOn
    rw [heq]
    exact hu
  · exact Alike.step hu rfl (still thread between) hstep

theorem AlikeOn.answer {more i : ℕ} (h : AlikeOn thread v more i s) {a : Reply}
    (hanswer : answer .proof i s = some a) : a = v := by
  obtain ⟨p, hp, -, hgives⟩ := h.pop
  simp only [RepeatedGets.answer, hp, Option.bind_some] at hanswer
  obtain ⟨o, ho, rfl⟩ := Option.map_eq_some_iff.mp hanswer
  exact hgives.outcome ho

/-- The pop that a GET calls. -/
def asked (thread : Text) : PopCall Str Json :=
  ⟨Webhook.proofStack (ofText thread), some maxTimeout, .ready, .pending⟩

def withAsked (thread : Text) (l : Loop Str Json) : Loop Str Json :=
  { l with pops := l.pops ++ [asked thread] }

theorem getProof_eq (thread : Text) (s : System) : step s (Topic.proof.get thread) =
    some { s with messageStacks := withAsked thread s.messageStacks } := rfl

theorem takers_withAsked (l : Loop Str Json) :
    takers (Webhook.proofStack (ofText thread)) (withAsked thread l) =
      takers (Webhook.proofStack (ofText thread)) l + 1 := by
  have hready : readyOn (Webhook.proofStack (ofText thread)) (asked thread) = true :=
    readyOn_iff.mpr ⟨rfl, rfl⟩
  rw [takers, takers, withAsked, List.countP_append, List.countP_singleton, if_pos hready]

/-- A GET that is asked for takes one of the places left for more. -/
theorem alikeOn_get (linked : Linked s.messageStacks) (more : ℕ)
    (items : ∀ j < takers (Webhook.proofStack (ofText thread)) s.messageStacks + (more + 1),
      reply (newest (Webhook.proofStack (ofText thread)) s.messageStacks j) = v)
    (next : step s (Topic.proof.get thread) = some t) :
    AlikeOn thread v more (calls .proof s) t := by
  rw [getProof_eq] at next
  obtain rfl := Option.some.inj next
  have hcalled : AsyncQueue.step (fun _ => .lifo) s.messageStacks
      (.pop (Webhook.proofStack (ofText thread)) (some maxTimeout)) =
        some (withAsked thread s.messageStacks) := rfl
  refine ⟨linked.step hcalled, fun j hj => items j ?_, asked thread,
    List.getElem?_concat_length, rfl, trivial⟩
  rw [takers_withAsked] at hj
  omega

theorem repeats_of_sameAgain (linked : Linked s.messageStacks) (h : SameAgain thread s) :
    Repeats .proof thread s := by
  intro s₁ es u es' u₁ v a b next run hanswer next' run' hanswer'
  have hu := (alikeOn_get linked 1 h next).run run
  obtain rfl := hu.answer hanswer
  have hv := (alikeOn_get hu.linked 0 hu.items next').run run'
  exact (hv.answer hanswer').symm

variable (thread) in
/-- What getters and callers do of themselves can happen between two GETs. -/
theorem run_of_turns {l l' : Loop Str Json} {es : List (AsyncQueue.Event Str Json)}
    (turns : Run (turn fun _ => .lifo) l es l') {s : System} (hstacks : s.messageStacks = l) :
    ∃ fs, Run (stepBetween thread) s fs { s with messageStacks := l' } := by
  subst hstacks
  induction turns with
  | nil => exact ⟨[], .nil⟩
  | @snoc es m l' e _ next ih =>
    obtain ⟨fs, run⟩ := ih
    obtain ⟨f, hf⟩ : ∃ f, stepBetween thread { s with messageStacks := m } f =
        some { s with messageStacks := l' } := by
      rw [turn] at next
      split at next
      · next hturn =>
        cases e with
        | put queue v => exact hturn.elim
        | pop queue d => exact hturn.elim
        | resume i =>
          refine ⟨.resume i, ?_⟩
          rw [stepBetween, if_pos (show Between thread _ (.resume i) from trivial)]
          exact Option.map_eq_some_iff.mpr ⟨l', next, rfl⟩
        | deliver i =>
          refine ⟨.deliver i, ?_⟩
          rw [stepBetween, if_pos (show Between thread _ (.deliver i) from trivial)]
          exact Option.map_eq_some_iff.mpr ⟨l', next, rfl⟩
        | expire i =>
          refine ⟨.expire i, ?_⟩
          rw [stepBetween, if_pos (show Between thread { s with messageStacks := m } (.expire i) from hturn)]
          exact Option.map_eq_some_iff.mpr ⟨l', next, rfl⟩
      · cases next
    exact ⟨fs ++ [f], run.snoc hf⟩

variable (thread) in
/-- A GET is answered with the newest state, and as many getters as are about to take one can take
theirs after it. -/
theorem get_answers (s : System) {n : ℕ}
    (h : n ≤ takers (Webhook.proofStack (ofText thread)) s.messageStacks) :
    ∃ s₁ fs u, step s (Topic.proof.get thread) = some s₁ ∧ Run (stepBetween thread) s₁ fs u ∧
      answer .proof (calls .proof s) u =
        some (reply (newest (Webhook.proofStack (ofText thread)) s.messageStacks 0)) ∧
      newest (Webhook.proofStack (ofText thread)) u.messageStacks 0 =
        newest (Webhook.proofStack (ofText thread)) s.messageStacks (n + 1) := by
  have called : (withAsked thread s.messageStacks).pops[calls .proof s]? = some (asked thread) :=
    List.getElem?_concat_length
  obtain ⟨es, l, run, ⟨p, hp, hne, houtcome⟩, hitems, hcount⟩ :=
    serve (fun _ => .lifo) rfl called
  rw [takers_withAsked] at hcount
  obtain ⟨es', l', run', hdropped, hkept⟩ :=
    drain (fun _ => .lifo) (k := Webhook.proofStack (ofText thread)) rfl (s := l) (n := n)
      (by omega)
  obtain ⟨fs, run⟩ := run_of_turns thread (run.append run')
    (s := { s with messageStacks := withAsked thread s.messageStacks }) rfl
  refine ⟨_, fs, _, getProof_eq thread s, run, ?_, ?_⟩
  · simp only [answer, hkept _ p hp hne, Option.bind_some, houtcome]
    rfl
  · rw [newest, hdropped, hitems, List.getElem?_drop, List.getElem?_tail, Nat.add_zero]
    rfl

theorem sameAgain_of_repeats (h : Repeats .proof thread s) : SameAgain thread s := by
  intro j hj
  cases j with
  | zero => rfl
  | succ n =>
    obtain ⟨s₁, es, u, next, run, hanswer, hnewest⟩ := get_answers thread s (n := n)
      (by omega)
    obtain ⟨u₁, es', v, next', run', hanswer', -⟩ := get_answers thread u (Nat.zero_le _)
    rw [hnewest] at hanswer'
    exact (h s₁ es u es' u₁ v _ _ next run hanswer next' run' hanswer').symm

end Proof

/-! GET for a credential. -/

section IssueCredential

variable {thread u : Text} {s : Store}

/-- The message of a webhook that tells the state of an exchange. -/
def told (u word : Text) : Json :=
  .obj [("message", .obj [("Properties", .obj [("piid", .str (ofText u))]),
    ("StateID", .str (ofText word))])]

theorem exists_fresh (thread : Text) (s : Store) :
    ∃ u : Text, u ≠ thread ∧ Json.str (ofText u) ∉ s.storage.keys := by
  have hinj : Function.Injective fun u => Json.str (ofText u) := by
    intro u v h
    exact ofText_injective (Json.str.inj h)
  obtain ⟨u, hu⟩ := Infinite.exists_notMem_finset
    (insert thread (s.storage.keys.toFinset.preimage _ hinj.injOn))
  rw [Finset.mem_insert, Finset.mem_preimage, List.mem_toFinset, not_or] at hu
  exact ⟨u, hu⟩

theorem slot_of_fresh (fresh : Json.str (ofText u) ∉ s.storage.keys) (d : Str) :
    s.slot (.str (ofText u)) d = none := by
  rw [Store.slot, Dict.get?_eq_none_iff.mpr fresh]
  rfl

/-- A message is pushed where there is none of its type. -/
theorem pushResource_fresh {key m : Json} {d : Str} (hkey : key.asKey = .ok key)
    (hslot : s.slot key d = none) : pushResource key d m none s =
      (.ok m, s.setSlot key d (.arr [m])) := by
  rw [pushResource, hkey]
  simp only [hslot, Option.getD_none, List.nil_append]
  rfl

theorem handle_told (fresh : Json.str (ofText u) ∉ s.storage.keys) (word : Text) :
    Webhook.issueCredentialStates.handle (told u word) s =
      (s.setSlot (.str (ofText u)) issueStates (.arr [told u word]), []) := by
  have hid : Webhook.issueCredentialStates.threadId (told u word) = .ok (.str (ofText u)) := rfl
  have hpush := pushResource_fresh (m := told u word) rfl (slot_of_fresh fresh issueStates)
  have hrevocation : (told u word).contains "revocation_id" = .ok false := rfl
  rw [Webhook.handle, hid]
  dsimp only
  rw [show Webhook.issueCredentialStates.dataType = issueStates from rfl, hpush]
  simp only [hrevocation, Except.ok.injEq, Bool.false_eq_true, if_false]

theorem keys_setSlot_fresh (fresh : Json.str (ofText u) ∉ s.storage.keys) (d : Str) (v : Json) :
    (s.setSlot (.str (ofText u)) d v).storage.keys = s.storage.keys ++ [.str (ofText u)] := by
  exact (keys_assign _ _ _).trans (if_neg fresh)

/-- A message is kept as details only where there are none. -/
theorem pushAgain_fresh {m : Json} (words : List String) {d : Str}
    (hid : piid m = .ok (.str (ofText u))) (hslot : s.slot (.str (ofText u)) d = none) :
    (pushAgain words d m s).1 = .ok m ∧
      ∀ e ≠ d, (pushAgain words d m s).2.slot (.str (ofText u)) e =
        s.slot (.str (ofText u)) e := by
  rw [pushAgain]
  split
  · rw [hid]
    dsimp only
    rw [pushResource_fresh rfl hslot]
    refine ⟨rfl, fun e hne => ?_⟩
    rw [slot_setSlot, if_neg fun heq => hne heq.2]
  · exact ⟨rfl, fun _ _ => rfl⟩

theorem keepDetails_fresh {m : Json} (hid : piid m = .ok (.str (ofText u)))
    (hdetails : s.slot (.str (ofText u)) credentialDetails = none)
    (hcache : s.slot (.str (ofText u)) credentialCache = none) :
    (keepDetails m s).1 = .ok m := by
  have hne : credentialCache ≠ credentialDetails := by decide +kernel
  obtain ⟨hfirst, hslots⟩ := pushAgain_fresh
    ["filters~attach", "/3.0/propose-credential"] hid hdetails
  rw [keepDetails]
  generalize pushAgain ["filters~attach", "/3.0/propose-credential"] credentialDetails m s =
    pushed at hfirst hslots
  obtain ⟨result, t⟩ := pushed
  obtain rfl : result = .ok m := hfirst
  exact (pushAgain_fresh _ hid ((hslots _ hne).trans hcache)).1

/-- A GET takes the state that the last webhook told, of whatever thread. -/
theorem requestResponse_told (fresh : Json.str (ofText u) ∉ s.storage.keys) (word : Text) (i : ℕ) :
    ∃ t, requestResponseIssueCredential issueStates i
      (s.setSlot (.str (ofText u)) issueStates (.arr [told u word])) = (.gives (told u word), t) := by
  have hid : piid (told u word) = .ok (.str (ofText u)) := rfl
  have hne : credentialDetails ≠ issueStates ∧ credentialCache ≠ issueStates := by decide +kernel
  have hlast : (s.setSlot (.str (ofText u)) issueStates
      (.arr [told u word])).storage.keys.getLast? = some (.str (ofText u)) := by
    rw [keys_setSlot_fresh fresh, List.getLast?_concat]
  have hpop : popResourceLatest issueStates
      (s.setSlot (.str (ofText u)) issueStates (.arr [told u word])) =
        (.ok (told u word), (s.setSlot (.str (ofText u)) issueStates
          (.arr [told u word])).setSlot (.str (ofText u)) issueStates (.arr [])) := by
    rw [popResourceLatest, hlast]
    simp only [slot_setSlot, and_self, if_true]
    rfl
  have hslot : ∀ d ≠ issueStates, ((s.setSlot (.str (ofText u)) issueStates
      (.arr [told u word])).setSlot (.str (ofText u)) issueStates (.arr [])).slot
        (.str (ofText u)) d = none := by
    intro d hd
    rw [slot_setSlot, if_neg fun heq => hd heq.2, slot_setSlot, if_neg fun heq => hd heq.2,
      slot_of_fresh fresh]
  have hguess : needsGuess issueStates (told u word) = .ok false := rfl
  have hkept := keepDetails_fresh hid (hslot _ hne.1) (hslot _ hne.2)
  rw [requestResponseIssueCredential, hpop]
  generalize (s.setSlot (.str (ofText u)) issueStates
    (.arr [told u word])).setSlot (.str (ofText u)) issueStates (.arr []) = t at hkept
  dsimp only
  rw [if_neg (by simp [told]), hguess]
  dsimp only
  rw [if_neg Bool.false_ne_true, kept]
  generalize keepDetails (told u word) t = details at hkept
  obtain ⟨result, t'⟩ := details
  obtain rfl : result = .ok (told u word) := hkept
  exact ⟨t', rfl⟩

/-- The request that a GET makes. -/
def pending (thread : Text) : Request :=
  ⟨.getIssueCredential thread, some (.str (ofText thread)), .fetches issueStates 0 true, []⟩

theorem getIssueCredential_eq (hthread : IsThread thread) (s : System) :
    step s (Topic.issueCredential.get thread) =
      some { s with requests := s.requests ++ [pending thread] } := by
  have hstage : (Command.getIssueCredential thread).stage = some (.fetches issueStates 0 true) := by
    have hnot : ¬ (thread = "retrieve-credential-proposal".toList ∨
        thread = "retrieve-credential-application".toList) := not_or.mpr hthread
    rw [Command.stage, if_neg hnot]
  rw [Topic.get, step, hstage]
  rfl

theorem webhook_told (s : System) (hne : u ≠ thread)
    (fresh : Json.str (ofText u) ∉ s.store.storage.keys) (word : Text) :
    stepBetween thread s (.webhook .issueCredentialStates (told u word)) =
      some { s with
        received := s.received ++ [told u word]
        store := s.store.setSlot (.str (ofText u)) issueStates (.arr [told u word]) } := by
  have between : Between thread s (.webhook .issueCredentialStates (told u word)) := by
    intro heq
    exact hne (ofText_injective (Json.str.inj (Except.ok.inj heq)))
  rw [stepBetween, if_pos between, step, handle_told fresh]
  simp only [List.append_nil]

theorem wake_pending (thread : Text) (s : System) {n : ℕ} (hn : s.requests[n]? = some (pending thread))
    {m : Json} {t : Store} (hne : m ≠ .null)
    (hgives : requestResponseIssueCredential issueStates 0 s.store = (.gives m, t)) :
    stepBetween thread s (.wake n) = some { s with
      requests := s.requests.set n (((pending thread).serve .own m).goto .ended)
      store := t } := by
  have hwake : (pending thread).wake s.store s.myDID =
      some (((pending thread).serve .own m).goto .ended, t, s.myDID) := by
    have hgiven : (pending thread).given true m t s.myDID =
        (((pending thread).serve .own m).goto .ended, t, s.myDID) := by
      rw [Request.given, if_neg hne]
      rfl
    rw [← hgiven]
    simp only [Request.wake, pending, Request.fetch, hgives]
  rw [stepBetween, if_pos (show Between thread s (.wake n) from trivial), step, hn]
  simp only [hwake, Option.map_some]

/-- Whatever the store holds, a webhook of another thread can tell what a GET answers. -/
theorem get_answers_told (hthread : IsThread thread) (s : System) (word : Text) :
    ∃ s₁ es v, step s (Topic.issueCredential.get thread) = some s₁ ∧
      Run (stepBetween thread) s₁ es v ∧
      answer .issueCredential (calls .issueCredential s) v = some (200, some (.str (ofText word))) := by
  obtain ⟨u, hne, fresh⟩ := exists_fresh thread s.store
  obtain ⟨t, ht⟩ := requestResponse_told fresh word 0
  have hwebhook := webhook_told { s with requests := s.requests ++ [pending thread] } hne fresh word
  have hwake := wake_pending thread { s with
    received := s.received ++ [told u word]
    store := s.store.setSlot (.str (ofText u)) issueStates (.arr [told u word])
    requests := s.requests ++ [pending thread] } (n := s.requests.length)
      List.getElem?_concat_length (by simp [told]) ht
  refine ⟨_, _, _, getIssueCredential_eq hthread s, .cons hwebhook (.cons hwake .nil), ?_⟩
  have hlt : s.requests.length < (s.requests ++ [pending thread]).length := by simp
  rw [answer, calls, List.getElem?_set_self hlt]
  rfl

theorem not_repeats (hthread : IsThread thread) (s : System) :
    ¬ Repeats .issueCredential thread s := by
  intro h
  obtain ⟨s₁, es, u, next, run, hanswer⟩ := get_answers_told hthread s "offer-sent".toList
  obtain ⟨u₁, es', v, next', run', hanswer'⟩ := get_answers_told hthread u "done".toList
  have heq := h s₁ es u es' u₁ v _ _ next run hanswer next' run' hanswer'
  have hwords : ofText "offer-sent".toList ≠ ofText "done".toList := by decide +kernel
  exact hwords (Json.str.inj (Option.some.inj (Prod.ext_iff.mp heq).2))

end IssueCredential

/-- A GET can be asked again only for a proof, while the newest states on the stack of the thread
are the same. -/
theorem repeats_iff {history : List Event} {s : System} (reached : Run step start history s)
    {thread : Text} (hthread : IsThread thread) (topic : Topic) :
    Repeats topic thread s ↔ topic = .proof ∧ SameAgain thread s := by
  cases topic with
  | issueCredential =>
    constructor
    · intro h
      exact absurd h (not_repeats hthread s)
    · rintro ⟨htopic, -⟩
      cases htopic
  | proof =>
    have linked := reached.invariant (I := fun s => Linked s.messageStacks) linked_start linked_step
    constructor
    · exact fun h => ⟨rfl, sameAgain_of_repeats h⟩
    · exact fun h => repeats_of_sameAgain linked h.2

/-- As many webhooks of a thread as there are words, each with its message on the stack. -/
def tells (thread : Text) (words : List String) : List Event :=
  words.flatMap fun word =>
    [.webhook .presentProofStates (told thread word.toList), .put 0]

def after (events : List Event) : System := (exec step start events).getD start

theorem same_state_repeats : Repeats .proof "t".toList
    (after (tells "t".toList ["request-sent", "done", "done"])) := by
  have reached : Run step start (tells "t".toList ["request-sent", "done", "done"])
      (after (tells "t".toList ["request-sent", "done", "done"])) := run_of_exec rfl
  refine (repeats_iff reached ⟨by decide, by decide⟩ .proof).mpr ⟨rfl, ?_⟩
  have htakers : takers (Webhook.proofStack (ofText "t".toList)) (after (tells "t".toList
      ["request-sent", "done", "done"])).messageStacks = 0 := by decide +kernel
  have hsecond : reply (newest (Webhook.proofStack (ofText "t".toList)) (after (tells "t".toList
      ["request-sent", "done", "done"])).messageStacks 1) = reply (newest (Webhook.proofStack
        (ofText "t".toList)) (after (tells "t".toList
          ["request-sent", "done", "done"])).messageStacks 0) := by decide +kernel
  intro j hj
  rw [htakers] at hj
  match j, hj with
  | 0, _ => rfl
  | 1, _ => exact hsecond

/-- The state that a GET has answered is gone when it is asked for again. -/
theorem state_not_repeated : ¬ ∀ topic history s thread, Run step start history s →
    IsThread thread → Repeats topic thread s := by
  intro h
  have hrepeats := h .proof (tells "t".toList ["request-sent"])
    (after (tells "t".toList ["request-sent"])) "t".toList (run_of_exec rfl)
    ⟨by decide, by decide⟩
  have hsame := sameAgain_of_repeats hrepeats 1 (by decide +kernel)
  exact absurd hsame (by decide +kernel)

end AgentTestHarness.RepeatedGets
