import AgentTestHarness.JsonMember
import AgentTestHarness.ResponsePolls

/-! Whatever the interleaving, the polls of a key get the messages pushed under it in the order
of the pushes, and a poll that gives up found nothing. -/
namespace AgentTestHarness.PollAccounting
open PyText PyJson JsonWriting Storage StateTranslation Webhooks ResponsePolls Runs

/-- A poll that sleeps or gives up has found its key empty at every attempt and has no message;
any other answer is made of one message popped under the poll's own id and type. -/
def Accounted (n : ℕ) (p : Poll) (pops : List Pop) : Prop :=
  match p.state with
  | .sleeping i =>
    i < maxTimeout ∧ p.attempts.length = 1 + i ∧ (∀ a ∈ p.attempts, a.stored = []) ∧ pops = []
  | .answered answer =>
    answer = .ok (200, "\x7b\x7d".toList) ∧ p.attempts.length = 1 + maxTimeout ∧
      (∀ a ∈ p.attempts, a.stored = []) ∧ pops = [] ∨
    answer ≠ .ok (200, "\x7b\x7d".toList) ∧
      ∃ m, pops = [⟨n, p.recordId, p.dataType, m⟩] ∧ answer = respond p.topic m

/-! A message gives an answer other than the empty object. -/

theorem replaceState_object (oldState newState rest : Text) :
    ∃ rest', replaceState .stateValue oldState newState ('{' :: '"' :: rest) =
      '{' :: '"' :: rest' := by
  have hopen : ¬ pattern .stateValue oldState <+: '{' :: '"' :: rest := by
    intro h
    rw [pattern_stateValue] at h
    exact absurd (List.cons_prefix_cons.mp h).1 (by decide)
  rw [replaceState, replace_cons_of_not hopen]
  by_cases hp : pattern .stateValue oldState <+: '"' :: rest
  · obtain ⟨tail, htail⟩ := hp
    have hne : pattern .stateValue oldState ≠ [] := by
      rw [pattern_stateValue]
      simp
    rw [← htail, replace_append hne, pattern_stateValue newState]
    exact ⟨_, rfl⟩
  · rw [replace_cons_of_not hp]
    exact ⟨_, rfl⟩

theorem agentStateTranslation_cases {topic data text : Text}
    (h : Acapy.agentStateTranslation topic data = .ok text) :
    text = data ∨ ∃ style t oldState newState, Acapy.method topic data = some (style, t) ∧
      text = replaceState style oldState newState data := by
  obtain ⟨respJson, -, h⟩ := bind_eq_ok h
  obtain ⟨hasState, -, h⟩ := bind_eq_ok h
  cases hasState with
  | false => exact .inl (Except.ok.inj h).symm
  | true =>
    obtain ⟨agentState, -, h⟩ := bind_eq_ok h
    cases hm : Acapy.method topic data with
    | none =>
      rw [hm] at h
      exact .inl (Except.ok.inj h).symm
    | some m =>
      obtain ⟨style, t⟩ := m
      rw [hm] at h
      cases t with
      | none => cases h
      | some t =>
        obtain ⟨⟨oldState, newState⟩, -, h⟩ := bind_eq_ok h
        exact .inr ⟨style, _, oldState, newState, rfl, (Except.ok.inj h).symm⟩

theorem method_style {topic data : Text} {style : Style} {t : Option Table}
    (htopic : topic = "did-exchange".toList ∨ topic = "proof".toList)
    (h : Acapy.method topic data = some (style, t)) : style = .stateValue := by
  have hconnection : topic ≠ "connection".toList := by
    rcases htopic with rfl | rfl <;> decide +kernel
  have hcredential : topic ≠ "issue-credential".toList := by
    rcases htopic with rfl | rfl <;> decide +kernel
  unfold Acapy.method at h
  rw [if_neg hconnection, if_neg hcredential] at h
  split_ifs at h <;> exact (Prod.mk.inj (Option.some.inj h)).1.symm

theorem truthy_of_nonemptyObject {m : Json} (h : NonemptyObject m) : m.truthy = true := by
  obtain ⟨ms, rfl, hne⟩ := h
  cases ms with
  | nil => exact absurd rfl hne
  | cons _ _ => rfl

theorem respond_ne_empty {m : Json} (h : NonemptyObject m) (topic : Text) :
    respond topic m ≠ .ok (200, "\x7b\x7d".toList) := by
  obtain ⟨ms, rfl, hne⟩ := h
  obtain ⟨⟨k, v⟩, ms, rfl⟩ := List.exists_cons_of_ne_nil hne
  obtain ⟨rest, hrest⟩ := dumps_cons k v ms
  have hopen : ∀ rest' : Text, '{' :: '"' :: rest' ≠ "\x7b\x7d".toList := by simp
  have htruthy : (Json.obj ((k, v) :: ms)).truthy = true := rfl
  unfold respond
  rw [if_pos htruthy, hrest]
  split
  · next htopic =>
    intro h
    cases htr : Acapy.agentStateTranslation topic ('{' :: '"' :: rest) with
    | error e => simp [htr, Except.map] at h
    | ok text =>
      obtain rfl : text = "\x7b\x7d".toList := by
        rw [htr] at h
        exact (Prod.mk.inj (Except.ok.inj h)).2
      rcases agentStateTranslation_cases htr with heq | ⟨style, t, old, new, hm, heq⟩
      · exact hopen rest heq.symm
      · obtain rfl := method_style htopic hm
        obtain ⟨rest', hrest'⟩ := replaceState_object old new rest
        exact hopen rest' (hrest'.symm.trans heq.symm)
  · intro h
    exact hopen rest (Prod.mk.inj (Except.ok.inj h)).2

/-! What the pushes of a webhook do to the queues. -/

theorem under_append (key : Json) (d : Str) (ps qs : List Push) :
    under key d (ps ++ qs) = under key d ps ++ under key d qs := by
  simp [under]

theorem under_singleton (key : Json) (d : Str) (p : Push) :
    under key d [p] = if p.dataId.asKey = .ok key ∧ p.dataType = d then [p.data] else [] := by
  by_cases h : p.dataId.asKey = .ok key ∧ p.dataType = d
  · simp [under, h]
  · simp [under, h]

theorem pushResource_queue {s : Store} (queued : ∀ d, s.Queued d) (p : Push) :
    (∀ d, (pushResource p.dataId p.dataType p.data p.exchIdName s).2.Queued d) ∧
    (∀ key d, (pushResource p.dataId p.dataType p.data p.exchIdName s).2.queue key d =
      s.queue key d ++ under key d [p]) ∧
    ∀ key d, (pushResource p.dataId p.dataType p.data p.exchIdName s).2.slot key d = none ↔
      s.slot key d = none ∧ under key d [p] = [] := by
  cases hk : p.dataId.asKey with
  | error e =>
    rw [pushResource_of_unhashable hk]
    exact ⟨queued, fun key d => by simp [under, hk], fun key d => by simp [under, hk]⟩
  | ok key =>
    have hstorage := pushResource_storage (queued p.dataType) hk p.data p.exchIdName
    refine ⟨fun d => ((queued d).setSlot key p.dataType _).congr hstorage, fun k d => ?_,
      fun k d => ?_⟩
    · rw [queue_congr hstorage, queue_setSlot, under_singleton, hk]
      by_cases h : k = key ∧ d = p.dataType
      · obtain ⟨rfl, rfl⟩ := h
        simp
      · rw [if_neg h, if_neg fun hp => h ⟨(Except.ok.inj hp.1).symm, hp.2.symm⟩, List.append_nil]
    · rw [slot_congr hstorage, slot_setSlot, under_singleton, hk]
      by_cases h : k = key ∧ d = p.dataType
      · obtain ⟨rfl, rfl⟩ := h
        simp
      · rw [if_neg h, if_neg fun hp => h ⟨(Except.ok.inj hp.1).symm, hp.2.symm⟩]
        simp

/-! What a step can do. -/

/-- The anoncreds handlers wait with nonempty objects. -/
def Waiting (fetches : List (Option CredentialFetch)) : Prop :=
  ∀ f, some f ∈ fetches → NonemptyObject f.message

theorem nonemptyObject_of_own {message : Json} {p : Push} (h : p.Own message) :
    NonemptyObject p.data := by
  obtain ⟨rfl, k, hk⟩ := h
  exact nonemptyObject_of_item hk

theorem nonemptyObject_of_anoncreds {s : Store} {payload : Json} {f : CredentialFetch}
    (h : handleIssueCredentialV20Anoncreds s payload = .ok (some f)) :
    NonemptyObject f.message := by
  obtain ⟨exchId, hitem, h⟩ := bind_eq_ok h
  obtain ⟨threadId, -, h⟩ := bind_eq_ok h
  obtain ⟨stored, -, h⟩ := bind_eq_ok h
  cases stored with
  | false => cases h
  | true =>
    obtain ⟨recordId, -, h⟩ := bind_eq_ok h
    obtain rfl := Option.some.inj (Except.ok.inj h)
    exact nonemptyObject_of_item hitem

theorem nonemptyObject_of_fetches {s : Store} {topic : Text} {payload : Json} {f : CredentialFetch}
    (h : handleWebhook s topic payload = .ok (.fetches f)) : NonemptyObject f.message := by
  rcases handleWebhook_cases h with heq | ⟨handle, ps, -, -, heq⟩ | ⟨g, hg, heq⟩
  · cases heq
  · cases heq
  · obtain rfl := Handled.fetches.inj heq
    exact nonemptyObject_of_anoncreds hg

theorem nonemptyObject_copyItem {source message message' : Json} {field name : Str}
    (hm : NonemptyObject message) (h : copyItem source field name message = .ok message') :
    NonemptyObject message' := by
  obtain ⟨has, -, h⟩ := bind_eq_ok h
  cases has with
  | false => exact Except.ok.inj h ▸ hm
  | true =>
    obtain ⟨value, -, h⟩ := bind_eq_ok h
    obtain ⟨ms, rfl, hne⟩ := hm
    refine ⟨_, (Except.ok.inj h).symm, fun hnil => hne ?_⟩
    have hlen := JsonMember.length_assign name value ms
    rw [hnil, List.length_nil] at hlen
    refine List.length_eq_zero_iff.mp ?_
    split at hlen <;> omega

theorem afterFetch_objects {f : CredentialFetch} {respStatus : ℕ} {respText : Text}
    {ps : List Push} (hf : NonemptyObject f.message)
    (h : afterFetch f respStatus respText = .ok ps) : ∀ p ∈ ps, NonemptyObject p.data := by
  obtain ⟨message, hmessage, h⟩ := bind_eq_ok h
  have hm : NonemptyObject message := by
    unfold withRevocationInfo at hmessage
    split at hmessage
    · obtain ⟨respJson, -, hmessage⟩ := bind_eq_ok hmessage
      obtain ⟨first, hfirst, hmessage⟩ := bind_eq_ok hmessage
      exact nonemptyObject_copyItem (nonemptyObject_copyItem hf hfirst) hmessage
    · exact Except.ok.inj hmessage ▸ hf
  obtain ⟨revocation, -, h⟩ := bind_eq_ok h
  cases revocation with
  | false =>
    obtain rfl := Except.ok.inj h
    simp
  | true =>
    obtain rfl := Except.ok.inj h
    simpa using hm

theorem step_cases {s t : System} {e : Event} (waiting : Waiting s.fetches)
    (next : step s e = some t) :
    (∃ fetches ps, Waiting fetches ∧ (∀ p ∈ ps, NonemptyObject p.data) ∧
      t = { s with fetches := fetches }.perform ps) ∨
    (∃ p : Poll, p.attempts = [] ∧
      t = { s with polls := s.polls ++ [p] }.attempt s.polls.length p 0) ∨
    (∃ n p i, s.polls[n]? = some p ∧ p.state = .sleeping i ∧ t = s.attempt n p (i + 1)) ∨
    ((∃ threadId dataType idTxt, e = .swap threadId dataType idTxt) ∨ ∃ n, e = .resume n) ∧
      ∃ swaps, t = { s with swaps := swaps } := by
  have idle : ∀ fetches, Waiting fetches → ∃ fetches' ps, Waiting fetches' ∧
      (∀ p ∈ ps, NonemptyObject p.data) ∧
      ({ s with fetches := fetches } : System) = { s with fetches := fetches' }.perform ps :=
    fun fetches hf => ⟨fetches, [], hf, by simp, by simp [System.perform, performPushes]⟩
  have rest : ∀ n, Waiting (s.fetches.set n none) := by
    intro n g hg
    rcases List.mem_or_eq_of_mem_set hg with hg | hg
    · exact waiting g hg
    · cases hg
  cases steps_of_step next with
  | rejected _ => exact .inl (idle s.fetches waiting)
  | pushed handled =>
    exact .inl ⟨s.fetches, _, waiting,
      fun p hp => nonemptyObject_of_own (own_handleWebhook handled p hp), rfl⟩
  | @fetches topic payload f handled =>
    refine .inl (idle _ fun g hg => ?_)
    rcases List.mem_append.mp hg with hg | hg
    · exact waiting g hg
    · obtain rfl : g = f := by simpa using hg
      exact nonemptyObject_of_fetches handled
  | failed _ _ => exact .inl (idle _ (rest _))
  | fetched hf fetched =>
    exact .inl ⟨_, _, rest _, afterFetch_objects (waiting _ (List.mem_of_getElem? hf)) fetched, rfl⟩
  | answers _ => exact .inl (idle s.fetches waiting)
  | poll _ => exact .inr (.inl ⟨_, rfl, rfl⟩)
  | wake polls sleeps => exact .inr (.inr (.inl ⟨_, _, _, polls, sleeps, rfl⟩))
  | swap threadId dataType idTxt => exact .inr (.inr (.inr ⟨.inl ⟨_, _, _, rfl⟩, _, rfl⟩))
  | resume _ _ => exact .inr (.inr (.inr ⟨.inr ⟨_, rfl⟩, _, rfl⟩))

/-! The invariant. -/

/-- Under every key, what was pushed is what was popped and then what is stored; there is no
queue where nothing was pushed. -/
structure Balanced (s : System) : Prop where
  queued : ∀ d, s.store.Queued d
  account : ∀ key d, s.pushedUnder key d = s.poppedUnder key d ++ s.store.queue key d
  seen : ∀ key d, s.store.slot key d = none ↔ s.pushedUnder key d = []
  objects : ∀ p ∈ s.pushes, NonemptyObject p.data
  waiting : Waiting s.fetches

structure Accounts (s : System) : Prop extends Balanced s where
  numbered : ∀ q ∈ s.pops, q.poll < s.polls.length
  polls : ∀ n p, s.polls[n]? = some p → Accounted n p (s.poppedBy n)

theorem start_accounts : Accounts start where
  queued := queued_empty
  account := by simp [start, System.pushedUnder, System.poppedUnder, under, Store.queue]
  seen := by simp [start, System.pushedUnder, under]
  objects := by simp [start]
  waiting := by simp [start, Waiting]
  numbered := by simp [start]
  polls := by simp [start]

theorem Balanced.object_of_mem_queue {s : System} (h : Balanced s) {key : Json} {d : Str}
    {m : Json} (hm : m ∈ s.store.queue key d) : NonemptyObject m := by
  have hpushed : m ∈ s.pushedUnder key d := by
    rw [h.account key d]
    exact List.mem_append_right _ hm
  obtain ⟨p, hp, rfl⟩ := List.mem_map.mp hpushed
  exact h.objects p (List.mem_of_mem_filter hp)

theorem Balanced.perform {s : System} (h : Balanced s) {fetches : List (Option CredentialFetch)}
    {ps : List Push} (waiting : Waiting fetches) (hps : ∀ p ∈ ps, NonemptyObject p.data) :
    Balanced ({ s with fetches := fetches }.perform ps) := by
  obtain ⟨hqueued, haccount, hseen, hobjects⟩ := performPushes_rule
    (I := fun t log => (∀ d, t.Queued d) ∧
      (∀ key d, under key d log = s.poppedUnder key d ++ t.queue key d) ∧
      (∀ key d, t.slot key d = none ↔ under key d log = []) ∧
      ∀ p ∈ log, NonemptyObject p.data)
    ps (fun p hp t log ⟨hqueued, haccount, hseen, hobjects⟩ => by
      obtain ⟨hqueued', hqueue, hslot⟩ := pushResource_queue hqueued p
      refine ⟨hqueued', fun key d => ?_, fun key d => ?_, ?_⟩
      · rw [under_append, haccount, hqueue, List.append_assoc]
      · rw [hslot, under_append, hseen, List.append_eq_nil_iff]
      · exact List.forall_mem_append.mpr ⟨hobjects, by simpa using hps p hp⟩)
    ⟨h.queued, h.account, h.seen, h.objects⟩
  exact ⟨hqueued, haccount, hseen, hobjects, waiting⟩

theorem poppedUnder_append (pops : List Pop) (q : Pop) (key : Json) (d : Str) :
    ((pops ++ [q]).filter fun p => .str p.recordId = key ∧ p.dataType = d).map Pop.message =
      (pops.filter fun p => .str p.recordId = key ∧ p.dataType = d).map Pop.message ++
        if key = .str q.recordId ∧ d = q.dataType then [q.message] else [] := by
  rw [List.filter_append, List.map_append]
  by_cases h : key = .str q.recordId ∧ d = q.dataType
  · obtain ⟨rfl, rfl⟩ := h
    rw [if_pos ⟨rfl, rfl⟩, List.filter_cons_of_pos (by simp), List.filter_nil, List.map_singleton]
  · rw [if_neg h, List.filter_cons_of_neg, List.filter_nil, List.map_nil]
    rw [decide_eq_true_eq]
    exact fun hq => h ⟨hq.1.symm, hq.2.symm⟩

/-- A poll's pop finds nothing, or takes the oldest message of its key. -/
theorem attempt_cases {s : System} (h : Balanced s) (n : ℕ) (p : Poll) (i : ℕ) :
    (s.store.queue (.str p.recordId) p.dataType = [] ∧ s.attempt n p i = { s with
      polls := s.polls.set n { p with
        attempts := p.attempts ++ [⟨[], .ok .null⟩]
        state := afterPop p.topic i (.ok .null) } }) ∨
    ∃ m ms, s.store.queue (.str p.recordId) p.dataType = m :: ms ∧ NonemptyObject m ∧
      s.attempt n p i = { s with
        store := s.store.setSlot (.str p.recordId) p.dataType (.arr ms)
        polls := s.polls.set n { p with
          attempts := p.attempts ++ [⟨m :: ms, .ok m⟩]
          state := afterPop p.topic i (.ok m) }
        pops := s.pops ++ [⟨n, p.recordId, p.dataType, m⟩] } := by
  have hkey : (Json.str p.recordId).asKey = .ok (.str p.recordId) := rfl
  have hpop := popResource_of_queued (h.queued p.dataType) hkey
  cases hq : s.store.queue (.str p.recordId) p.dataType with
  | nil =>
    rw [hq] at hpop
    exact .inl ⟨rfl, by simp [System.attempt, hpop, hq, System.popOf]⟩
  | cons m ms =>
    rw [hq] at hpop
    have hm : NonemptyObject m := h.object_of_mem_queue (hq ▸ List.mem_cons_self)
    refine .inr ⟨m, ms, rfl, hm, ?_⟩
    obtain ⟨members, rfl, -⟩ := hm
    simp [System.attempt, hpop, hq, System.popOf]

theorem Balanced.attempt {s : System} (h : Balanced s) (n : ℕ) (p : Poll) (i : ℕ) :
    Balanced (s.attempt n p i) := by
  rcases attempt_cases h n p i with ⟨-, hs⟩ | ⟨m, ms, hq, -, hs⟩
  · rw [hs]
    exact ⟨h.queued, h.account, h.seen, h.objects, h.waiting⟩
  · rw [hs]
    refine ⟨fun d => (h.queued d).setSlot _ _ _, fun key d => ?_, fun key d => ?_, h.objects,
      h.waiting⟩
    swap
    · have hslot : s.store.slot (.str p.recordId) p.dataType ≠ none := by
        intro hnone
        simp [Store.queue, hnone] at hq
      have hseen := h.seen key d
      simp only [System.pushedUnder] at hseen ⊢
      rw [slot_setSlot, ← hseen]
      by_cases hk : key = .str p.recordId ∧ d = p.dataType
      · obtain ⟨rfl, rfl⟩ := hk
        simp [hslot]
      · rw [if_neg hk]
    have haccount := h.account key d
    simp only [System.pushedUnder, System.poppedUnder] at haccount ⊢
    rw [poppedUnder_append, queue_setSlot, haccount]
    by_cases hk : key = .str p.recordId ∧ d = p.dataType
    · obtain ⟨rfl, rfl⟩ := hk
      simp [hq]
    · rw [if_neg hk, if_neg hk, List.append_nil]

/-- The poll that has popped is accounted for by what it popped. -/
theorem accounted_attempt {s : System} (h : Balanced s) {n : ℕ} {p : Poll} {i : ℕ}
    (hlen : p.attempts.length = i) (hempty : ∀ a ∈ p.attempts, a.stored = [])
    (hi : i ≤ maxTimeout) :
    ∃ q pops, (s.attempt n p i).polls = s.polls.set n q ∧
      (s.attempt n p i).pops = s.pops ++ pops ∧ (∀ r ∈ pops, r.poll = n) ∧ Accounted n q pops := by
  rcases attempt_cases h n p i with ⟨-, hs⟩ | ⟨m, ms, -, hm, hs⟩
  · rw [hs]
    refine ⟨_, [], rfl, (List.append_nil _).symm, by simp, ?_⟩
    have hempty' : ∀ a ∈ p.attempts ++ [⟨[], .ok .null⟩], a.stored = [] :=
      List.forall_mem_append.mpr ⟨hempty, by simp⟩
    rcases Nat.lt_or_ge i maxTimeout with hlt | hge
    · have hstate : afterPop p.topic i (.ok .null) = .sleeping i := if_pos ⟨rfl, hlt⟩
      simp only [Accounted, hstate]
      exact ⟨hlt, by rw [List.length_append, hlen, List.length_singleton, Nat.add_comm],
        hempty', trivial⟩
    · have hstate : afterPop p.topic i (.ok .null) =
          .answered (.ok (200, "\x7b\x7d".toList)) := if_neg fun h => absurd h.2 (by omega)
      simp only [Accounted, hstate]
      exact .inl ⟨trivial, by rw [List.length_append, hlen, List.length_singleton]; omega,
        hempty', trivial⟩
  · rw [hs]
    refine ⟨_, _, rfl, rfl, by simp, ?_⟩
    have hnull : m ≠ .null := by
      rintro rfl
      obtain ⟨members, hmembers, -⟩ := hm
      cases hmembers
    have hstate : afterPop p.topic i (.ok m) = .answered (respond p.topic m) :=
      if_neg fun h => hnull h.1
    simp only [Accounted, hstate]
    exact .inr ⟨respond_ne_empty hm p.topic, m, rfl, rfl⟩

theorem poppedBy_append {pops : List Pop} {n : ℕ} (h : ∀ r ∈ pops, r.poll = n) (k : ℕ)
    (before : List Pop) : (before ++ pops).filter (fun p => p.poll = k) =
      before.filter (fun p => p.poll = k) ++ if k = n then pops else [] := by
  rw [List.filter_append]
  congr 1
  split
  · next hk => exact List.filter_eq_self.mpr fun r hr => by simp [h r hr, hk]
  · next hk => exact List.filter_eq_nil_iff.mpr fun r hr => by simp [h r hr, Ne.symm hk]

/-- A poll that has popped nothing yet keeps the accounts when it pops. -/
theorem Accounts.attempt {s : System} (h : Balanced s) {n : ℕ} {p : Poll} {i : ℕ}
    (hn : n < s.polls.length) (fresh : s.poppedBy n = [])
    (numbered : ∀ q ∈ s.pops, q.poll < s.polls.length)
    (others : ∀ k q, k ≠ n → s.polls[k]? = some q → Accounted k q (s.poppedBy k))
    (hlen : p.attempts.length = i) (hempty : ∀ a ∈ p.attempts, a.stored = [])
    (hi : i ≤ maxTimeout) : Accounts (s.attempt n p i) := by
  obtain ⟨q, pops, hpolls, hpops, hnumber, haccounted⟩ := accounted_attempt h (n := n) hlen hempty hi
  refine ⟨h.attempt n p i, fun r hr => ?_, fun k r hr => ?_⟩
  · rw [hpolls, List.length_set]
    rw [hpops] at hr
    rcases List.mem_append.mp hr with hr | hr
    · exact numbered r hr
    · exact hnumber r hr ▸ hn
  · have hby : (s.attempt n p i).poppedBy k = s.poppedBy k ++ if k = n then pops else [] := by
      rw [System.poppedBy, hpops]
      exact poppedBy_append hnumber k s.pops
    rw [hpolls, List.getElem?_set] at hr
    rw [hby]
    rcases eq_or_ne n k with rfl | hk
    · rw [if_pos rfl, if_pos hn] at hr
      obtain rfl := Option.some.inj hr
      rw [fresh, List.nil_append, if_pos rfl]
      exact haccounted
    · rw [if_neg hk] at hr
      rw [if_neg hk.symm, List.append_nil]
      exact others k r hk.symm hr

theorem Accounts.step {s t : System} {e : Event} (h : Accounts s) (next : step s e = some t) :
    Accounts t := by
  rcases step_cases h.waiting next with ⟨fetches, ps, waiting, hps, rfl⟩ | ⟨p, hp, rfl⟩ |
    ⟨n, p, i, hp, hstate, rfl⟩ | ⟨-, swaps, rfl⟩
  · exact ⟨h.toBalanced.perform waiting hps, h.numbered, h.polls⟩
  · have hbalanced : Balanced { s with polls := s.polls ++ [p] } :=
      ⟨h.queued, h.account, h.seen, h.objects, h.waiting⟩
    have hnew : s.poppedBy s.polls.length = [] := by
      refine List.filter_eq_nil_iff.mpr fun q hq => ?_
      have := h.numbered q hq
      simp only [decide_eq_true_eq]
      omega
    refine Accounts.attempt hbalanced (by simp) hnew (fun q hq => ?_) (fun k q hk hq => ?_)
      (by simp [hp]) (by simp [hp]) (Nat.zero_le _)
    · have := h.numbered q hq
      simp only [List.length_append, List.length_singleton]
      omega
    · have hlt : k < s.polls.length := by
        have := (List.getElem?_eq_some_iff.mp hq).1
        simp only [List.length_append, List.length_singleton] at this
        omega
      rw [List.getElem?_append_left hlt] at hq
      exact h.polls k q hq
  · have hpoll := h.polls n p hp
    simp only [Accounted, hstate] at hpoll
    obtain ⟨hi, hlen, hempty, hpopped⟩ := hpoll
    exact Accounts.attempt h.toBalanced (List.getElem?_eq_some_iff.mp hp).1 hpopped h.numbered
      (fun k q _ hq => h.polls k q hq) (by omega) hempty (by omega)
  · exact ⟨⟨h.queued, h.account, h.seen, h.objects, h.waiting⟩, h.numbered, h.polls⟩

/-- In every run, the messages pushed under a key are those its polls popped followed by those
still stored, each in order, and every poll is accounted for. -/
theorem polls_take_pushes_in_order {es : List Event} {s : System} (run : Run step start es s) :
    (∀ key dataType,
      s.pushedUnder key dataType = s.poppedUnder key dataType ++ s.store.queue key dataType) ∧
    ∀ n p, s.polls[n]? = some p → Accounted n p (s.poppedBy n) := by
  have h : Accounts s := run.invariant start_accounts Accounts.step
  exact ⟨h.account, h.polls⟩

def credentialIssued : Json :=
  .obj [("thread_id", .str "t"), ("cred_ex_id", .str "e"), ("revocation_id", .str "1")]

/-- A credential is polled twice; the second poll sleeps until it gives up. -/
def twoPolls : List Event :=
  [.webhook "issue_credential_v2_0".toList credentialIssued,
    .poll "issue-credential".toList (some "t"), .poll "credential".toList (some "t"),
    .wake 1, .wake 1, .wake 1, .wake 1, .wake 1]

theorem two_polls_accounted :
    ∃ s, Run step start twoPolls s ∧
      s.polls.map Poll.state = [.answered (.ok (200, dumps credentialIssued)),
        .answered (.ok (200, "\x7b\x7d".toList))] ∧
      (∀ key dataType, s.pushedUnder key dataType =
        s.poppedUnder key dataType ++ s.store.queue key dataType) ∧
      ∀ n p, s.polls[n]? = some p → Accounted n p (s.poppedBy n) := by
  have hpolls : (exec step start twoPolls).map (fun s => s.polls.map Poll.state) =
      some [.answered (.ok (200, dumps credentialIssued)),
        .answered (.ok (200, "\x7b\x7d".toList))] := by
    decide +kernel
  obtain ⟨s, hs, hstates⟩ := Option.map_eq_some_iff.mp hpolls
  exact ⟨s, run_of_exec hs, hstates, polls_take_pushes_in_order (run_of_exec hs)⟩

end AgentTestHarness.PollAccounting
