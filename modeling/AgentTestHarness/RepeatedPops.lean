import AgentTestHarness.AsyncQueue

/-! Pops of one stack after one another while nothing is put on it: what they give is what lies on
the stack and how many getters are about to take from it. -/
namespace AgentTestHarness.RepeatedPops
open AsyncQueue Runs

variable {κ α β : Type*} [DecidableEq κ]

def readyOn (k : κ) (p : PopCall κ α) : Bool :=
  decide (p.queue = k) && match p.getter with
    | .ready => true
    | _ => false

/-- The getters that will take an item, or find none, before anything is put. -/
def takers (k : κ) (s : Loop κ α) : ℕ := s.pops.countP (readyOn k)

/-- The newest item of a stack and, counting from it, the older ones. -/
def newest (k : κ) (s : Loop κ α) (j : ℕ) : Option α := (s.channels k).items.reverse[j]?

/-- What a caller was given: an item, or none when its timer fired. -/
def outcome (p : PopCall κ α) : Option (Option α) := match p.caller with
  | .pending => none
  | .returned v => some (some v)
  | .timedOut => some none

/-- Nothing is put on the stack, no new pop of it is called, and timers fire for getters only that
have found nothing. -/
def Still (k : κ) (s : Loop κ α) : Event κ α → Prop
  | .put queue _ => queue ≠ k
  | .pop queue _ => queue ≠ k
  | .resume _ => True
  | .deliver _ => True
  | .expire i => ∀ p, s.pops[i]? = some p → p.getter = .waiting

/-- Where the getter is after it looked for an item. -/
def looked : Option α → Getter α
  | none => .waiting
  | some v => .took v

/-- A pop that is not resumed stays, or its caller is given what its getter has. -/
def Moves (p q : PopCall κ α) : Prop :=
  q = p ∨ (∃ v, p.getter = .took v ∧ p.caller = .pending ∧ q = { p with caller := .returned v }) ∨
    p.getter = .waiting ∧ p.caller = .pending ∧ q = { p with caller := .timedOut }

theorem take_lifo (items : List α) : Discipline.lifo.take items =
    items.getLast?.map fun v => (v, items.dropLast) := by
  cases items with
  | nil => rfl
  | cons x xs => simp [Discipline.take, List.getLast?_eq_some_getLast]

omit [DecidableEq κ] in
theorem newest_zero (k : κ) (s : Loop κ α) : newest k s 0 = (s.channels k).items.getLast? := by
  rw [newest, ← List.head?_eq_getElem?, List.head?_reverse]

section Resume

variable {disc : κ → Discipline} {k : κ} {s : Loop κ α} {i : ℕ} {p : PopCall κ α}

/-- A ready getter of the stack takes the newest item if there is one. -/
theorem resume_lifo (hlifo : disc k = .lifo) (hk : p.queue = k) :
    ((s.resume disc i p).channels k).items.reverse = (s.channels k).items.reverse.tail ∧
      (s.resume disc i p).pops = s.pops.set i { p with getter := looked (newest k s 0) } := by
  subst hk
  rw [newest_zero]
  cases hlast : (s.channels p.queue).items.getLast? with
  | none =>
    have hnil := List.getLast?_eq_none_iff.mp hlast
    rw [resume_wait hnil]
    simp [hnil, looked]
  | some v =>
    have htake : (disc p.queue).take (s.channels p.queue).items =
        some (v, (s.channels p.queue).items.dropLast) := by
      rw [hlifo, take_lifo, hlast]
      rfl
    rw [resume_take htake]
    simp [looked]

theorem resume_items_other (hk : p.queue ≠ k) :
    ((s.resume disc i p).channels k).items = (s.channels k).items := by
  cases htake : (disc p.queue).take (s.channels p.queue).items with
  | none =>
    rw [resume_wait (take_none.mp htake)]
    simp [hk.symm]
  | some taken =>
    rw [resume_take htake]
    simp [hk.symm]

theorem takers_set {q : PopCall κ α} (hp : s.pops[i]? = some p) :
    takers k { s with pops := s.pops.set i q } + (if readyOn k p then 1 else 0) =
      takers k s + if readyOn k q then 1 else 0 := by
  obtain ⟨hlt, rfl⟩ := List.getElem?_eq_some_iff.mp hp
  have hpos : readyOn k s.pops[i] = true → 0 < s.pops.countP (readyOn k) :=
    fun h => List.countP_pos_iff.mpr ⟨_, List.getElem_mem hlt, h⟩
  simp only [takers, List.countP_set hlt]
  split
  · next h =>
    have := hpos h
    omega
  · omega

end Resume

section Steps

variable {disc : κ → Discipline} {k : κ} {s t : Loop κ α}

/-- The stack is as it was, but callers may have got what was taken for them. -/
structure Same (k : κ) (s t : Loop κ α) : Prop where
  items : (t.channels k).items = (s.channels k).items
  count : takers k t = takers k s
  pops : ∀ (i : ℕ) (p : PopCall κ α), s.pops[i]? = some p → p.queue = k →
    ∃ q, t.pops[i]? = some q ∧ Moves p q

theorem Same.of_set {i : ℕ} {p q : PopCall κ α} (hp : s.pops[i]? = some p)
    (hitems : (t.channels k).items = (s.channels k).items) (hpops : t.pops = s.pops.set i q)
    (hready : readyOn k p = readyOn k q) (hmoves : p.queue = k → Moves p q) : Same k s t := by
  refine ⟨hitems, ?_, fun j r hr hk => ?_⟩
  · have hset := takers_set (k := k) (q := q) hp
    rw [hready, takers] at hset
    rw [takers, hpops]
    exact Nat.add_right_cancel hset
  · rw [hpops]
    by_cases hij : i = j
    · subst hij
      obtain rfl := Option.some.inj (hp.symm.trans hr)
      exact ⟨q, List.getElem?_set_self (List.getElem?_eq_some_iff.mp hp).1, hmoves hk⟩
    · exact ⟨r, by rw [List.getElem?_set_ne hij, hr], .inl rfl⟩

theorem readyOn_of_ne {p : PopCall κ α} (h : p.queue ≠ k) : readyOn k p = false := by
  simp [readyOn, h]

theorem readyOn_iff {p : PopCall κ α} : readyOn k p = true ↔ p.queue = k ∧ p.getter = .ready := by
  rw [readyOn, Bool.and_eq_true, decide_eq_true_eq]
  cases p.getter with
  | ready => simp
  | waiting => simp
  | took m => simp

theorem takers_resume {i : ℕ} {p : PopCall κ α} (hlifo : disc k = .lifo)
    (called : s.pops[i]? = some p) (hk : p.queue = k) (ready : p.getter = .ready) :
    takers k (s.resume disc i p) + 1 = takers k s := by
  have hset := takers_set (k := k) (q := { p with getter := looked (newest k s 0) }) called
  have hlooked : readyOn k { p with getter := looked (newest k s 0) } = false := by
    cases newest k s 0 <;> simp [readyOn, looked]
  rw [readyOn_iff.mpr ⟨hk, ready⟩, hlooked, if_pos rfl, if_neg Bool.false_ne_true,
    Nat.add_zero] at hset
  rw [takers, (resume_lifo hlifo hk).2]
  exact hset

/-- What a step that puts nothing on the stack does to it: it stays the same, or one getter looks
for an item. -/
theorem still_cases (linked : Linked s) (hlifo : disc k = .lifo) {e : Event κ α}
    (still : Still k s e) (next : step disc s e = some t) :
    Same k s t ∨ ∃ i p, s.pops[i]? = some p ∧ p.queue = k ∧ p.getter = .ready ∧
      takers k t + 1 = takers k s ∧
      (t.channels k).items.reverse = (s.channels k).items.reverse.tail ∧
      t.pops = s.pops.set i { p with getter := looked (newest k s 0) } := by
  cases steps_of_step next with
  | put queue v =>
    left
    have hne : k ≠ queue := Ne.symm still
    cases hg : (s.channels queue).getters with
    | nil =>
      rw [putNowait_idle hg]
      exact ⟨by simp [hne], rfl, fun i p hp _ => ⟨p, hp, .inl rfl⟩⟩
    | cons g gs =>
      obtain ⟨woken, hwoken, rfl, -⟩ := linked.waiting queue g (hg ▸ List.mem_cons_self)
      rw [putNowait_wake hg hwoken]
      refine Same.of_set hwoken (by simp [hne]) rfl ?_ fun hk => absurd hk.symm hne
      rw [readyOn_of_ne hne.symm, readyOn_of_ne (p := woken.wake) hne.symm]
  | pop queue d =>
    left
    refine ⟨rfl, ?_, fun i p hp _ => ⟨p, ?_, .inl rfl⟩⟩
    · simp only [takers, List.countP_append, List.countP_singleton,
        readyOn_of_ne (p := ⟨queue, d, .ready, .pending⟩) still]
      rfl
    · have hlt := (List.getElem?_eq_some_iff.mp hp).1
      rw [List.getElem?_append_left hlt, hp]
  | @resume i p called ready =>
    by_cases hk : p.queue = k
    · right
      obtain ⟨hitems, hpops⟩ := resume_lifo (i := i) hlifo hk
      exact ⟨i, p, called, hk, ready, takers_resume hlifo called hk ready, hitems, hpops⟩
    · left
      obtain ⟨getter, hpops⟩ : ∃ getter, (s.resume disc i p).pops =
          s.pops.set i { p with getter := getter } := by
        cases htake : (disc p.queue).take (s.channels p.queue).items with
        | none =>
          rw [resume_wait (take_none.mp htake)]
          exact ⟨_, rfl⟩
        | some taken =>
          rw [resume_take htake]
          exact ⟨_, rfl⟩
      refine Same.of_set called (resume_items_other hk) hpops ?_ fun hk' => absurd hk' hk
      rw [readyOn_of_ne hk, readyOn_of_ne (p := { p with getter := getter }) hk]
  | @deliver i p v called took pending =>
    left
    exact Same.of_set called rfl rfl (by simp [readyOn, took])
      fun _ => .inr (.inl ⟨v, took, pending, rfl⟩)
  | @expire i p called timed pending =>
    left
    have hwaiting := still p called
    exact Same.of_set called rfl rfl (by simp [readyOn, hwaiting])
      fun _ => .inr (.inr ⟨hwaiting, pending, rfl⟩)

end Steps

/-! What the callers are given. -/

section Alike

variable {disc : κ → Discipline} {k : κ} {s t : Loop κ α} {f : Option α → β} {v : β}

/-- The pop gives the value, or will: it is ready, or it has looked. -/
def Gives (f : Option α → β) (v : β) (p : PopCall κ α) : Prop := match p.getter, p.caller with
  | .ready, .pending => True
  | .waiting, .pending => f none = v
  | .waiting, .timedOut => f none = v
  | .took m, .pending => f (some m) = v
  | .took m, .returned m' => m' = m ∧ f (some m) = v
  | _, _ => False

/-- All that the getters can take, and more pops after them, has the value, and so has what a
pop of the stack gives. -/
structure Alike (k : κ) (f : Option α → β) (v : β) (more i : ℕ) (s : Loop κ α) : Prop where
  linked : Linked s
  items : ∀ j < takers k s + more, f (newest k s j) = v
  pop : ∃ p, s.pops[i]? = some p ∧ p.queue = k ∧ Gives f v p

omit [DecidableEq κ] in
theorem Gives.moves {p q : PopCall κ α} (h : Gives f v p) (moves : Moves p q) : Gives f v q := by
  rcases moves with rfl | ⟨m, htook, hpending, rfl⟩ | ⟨hwaiting, hpending, rfl⟩
  · exact h
  · simp only [Gives, htook, hpending] at h ⊢
    exact ⟨trivial, h⟩
  · simpa only [Gives, hwaiting, hpending] using h

omit [DecidableEq κ] in
theorem Moves.queue {p q : PopCall κ α} (h : Moves p q) : q.queue = p.queue := by
  rcases h with rfl | ⟨m, -, -, rfl⟩ | ⟨-, -, rfl⟩
  · rfl
  · rfl
  · rfl

theorem Alike.step {more i : ℕ} (h : Alike k f v more i s) (hlifo : disc k = .lifo)
    {e : Event κ α} (still : Still k s e) (next : step disc s e = some t) :
    Alike k f v more i t := by
  obtain ⟨p, hp, hk, hgives⟩ := h.pop
  rcases still_cases h.linked hlifo still next with hsame |
    ⟨n, r, hr, hrk, hready, hcount, hitems, hpops⟩
  · refine ⟨h.linked.step next, fun j hj => ?_, ?_⟩
    · rw [newest, hsame.items]
      exact h.items j (hsame.count ▸ hj)
    · obtain ⟨q, hq, hmoves⟩ := hsame.pops i p hp hk
      exact ⟨q, hq, hmoves.queue.trans hk, hgives.moves hmoves⟩
  · refine ⟨h.linked.step next, fun j hj => ?_, ?_⟩
    · have hnewest : newest k t j = newest k s (j + 1) := by
        rw [newest, hitems, List.getElem?_tail, newest]
      rw [hnewest]
      exact h.items (j + 1) (by omega)
    · rw [hpops]
      by_cases hni : n = i
      · subst hni
        obtain rfl := Option.some.inj (hp.symm.trans hr)
        refine ⟨_, List.getElem?_set_self (List.getElem?_eq_some_iff.mp hr).1, hk, ?_⟩
        have hfirst := h.items 0 (by omega)
        have hpending : p.caller = .pending := by
          cases hcaller : p.caller with
          | pending => rfl
          | returned m => simp [Gives, hready, hcaller] at hgives
          | timedOut => simp [Gives, hready, hcaller] at hgives
        cases hnewest : newest k s 0 with
        | none => simpa only [Gives, looked, hpending, hnewest] using hfirst
        | some m => simpa only [Gives, looked, hpending, hnewest] using hfirst
      · exact ⟨p, by rw [List.getElem?_set_ne hni, hp], hk, hgives⟩

omit [DecidableEq κ] in
theorem Gives.outcome {p : PopCall κ α} (h : Gives f v p) {o : Option α}
    (houtcome : outcome p = some o) : f o = v := by
  obtain ⟨queue, deadline, getter, caller⟩ := p
  cases caller with
  | pending => cases houtcome
  | returned m =>
    obtain rfl := Option.some.inj houtcome
    cases getter with
    | ready => exact h.elim
    | waiting => exact h.elim
    | took m' =>
      obtain ⟨rfl, hm⟩ := h
      exact hm
  | timedOut =>
    obtain rfl := Option.some.inj houtcome
    cases getter with
    | ready => exact h.elim
    | waiting => exact h
    | took m' => exact h.elim

end Alike

/-! Pops that are served. -/

section Turns

variable [DecidableEq α] {disc : κ → Discipline} {k : κ} {s t : Loop κ α}

/-- A getter looks, or a caller gets its answer, in time. -/
def Turn (s : Loop κ α) : Event κ α → Prop
  | .put _ _ => False
  | .pop _ _ => False
  | .resume _ => True
  | .deliver _ => True
  | .expire i => ∀ p ∈ s.pops[i]?, p.getter = .waiting

instance (s : Loop κ α) : (e : Event κ α) → Decidable (Turn s e)
  | .put _ _ => isFalse id
  | .pop _ _ => isFalse id
  | .resume _ => isTrue trivial
  | .deliver _ => isTrue trivial
  | .expire i => inferInstanceAs (Decidable (∀ p ∈ s.pops[i]?, p.getter = .waiting))

def turn (disc : κ → Discipline) (s : Loop κ α) (e : Event κ α) : Option (Loop κ α) :=
  if Turn s e then step disc s e else none

theorem turn_resume {i : ℕ} {p : PopCall κ α} (called : s.pops[i]? = some p)
    (ready : p.getter = .ready) : turn disc s (.resume i) = some (s.resume disc i p) := by
  rw [turn, if_pos (show Turn s (.resume i) from trivial)]
  simp only [step, called, ready]

variable (disc) in
/-- A pop that is ready looks and then gets what it found. -/
theorem serve (hlifo : disc k = .lifo) {i : ℕ} {d : ℚ}
    (called : s.pops[i]? = some ⟨k, some d, .ready, .pending⟩) :
    ∃ es t, Run (turn disc) s es t ∧
      (∃ p, t.pops[i]? = some p ∧ p.getter ≠ .ready ∧ outcome p = some (newest k s 0)) ∧
      (t.channels k).items.reverse = (s.channels k).items.reverse.tail ∧
      takers k t + 1 = takers k s := by
  obtain ⟨hitems, hpops⟩ := resume_lifo (i := i) (s := s)
    (p := ⟨k, some d, .ready, .pending⟩) hlifo rfl
  have hcount := takers_resume hlifo called rfl rfl
  have next : turn disc s (.resume i) = some (s.resume disc i ⟨k, some d, .ready, .pending⟩) :=
    turn_resume called rfl
  have hlooked : (s.resume disc i ⟨k, some d, .ready, .pending⟩).pops[i]? =
      some ⟨k, some d, looked (newest k s 0), .pending⟩ := by
    rw [hpops, List.getElem?_set_self (List.getElem?_eq_some_iff.mp called).1]
  generalize s.resume disc i ⟨k, some d, .ready, .pending⟩ = u at *
  have finish : ∀ (e : Event κ α) (q : PopCall κ α), turn disc u e = some (u.setPop i q) →
      q.getter = looked (newest k s 0) → outcome q = some (newest k s 0) →
      ∃ es t, Run (turn disc) s es t ∧
        (∃ p, t.pops[i]? = some p ∧ p.getter ≠ .ready ∧ outcome p = some (newest k s 0)) ∧
        (t.channels k).items.reverse = (s.channels k).items.reverse.tail ∧
        takers k t + 1 = takers k s := by
    intro e q last hgetter houtcome
    have hne : looked (newest k s 0) ≠ .ready := by cases newest k s 0 <;> simp [looked]
    have hidle : ∀ p : PopCall κ α, p.getter = looked (newest k s 0) → readyOn k p = false := by
      intro p hp
      exact Bool.eq_false_iff.mpr fun hready => hne (hp.symm.trans (readyOn_iff.mp hready).2)
    have hset := takers_set (k := k) (q := q) hlooked
    rw [hidle _ rfl, hidle q hgetter] at hset
    refine ⟨[.resume i, e], _, .cons next (.cons last .nil), ⟨q, ?_, hgetter ▸ hne, houtcome⟩,
      hitems, ?_⟩
    · exact List.getElem?_set_self (List.getElem?_eq_some_iff.mp hlooked).1
    · rw [← hcount]
      exact congrArg (· + 1) (Nat.add_right_cancel hset)
  cases hnewest : newest k s 0 with
  | none =>
    rw [hnewest] at hlooked finish
    refine finish (.expire i) ⟨k, some d, .waiting, .timedOut⟩ ?_ rfl rfl
    have hturn : Turn u (.expire i) := by
      intro p hp
      obtain rfl := Option.some.inj (hlooked.symm.trans hp)
      rfl
    rw [turn, if_pos hturn]
    simp only [step, hlooked]
    rfl
  | some m =>
    rw [hnewest] at hlooked finish
    refine finish (.deliver i) ⟨k, some d, .took m, .returned m⟩ ?_ rfl rfl
    rw [turn, if_pos (show Turn u (.deliver i) from trivial)]
    simp only [step, hlooked, looked]

variable (disc) in
/-- As many getters as are ready take an item each, or find none. -/
theorem drain (hlifo : disc k = .lifo) {n : ℕ} (h : n ≤ takers k s) :
    ∃ es t, Run (turn disc) s es t ∧
      (t.channels k).items.reverse = (s.channels k).items.reverse.drop n ∧
      ∀ (i : ℕ) (p : PopCall κ α), s.pops[i]? = some p → p.getter ≠ .ready →
        t.pops[i]? = some p := by
  induction n generalizing s with
  | zero => exact ⟨[], s, .nil, rfl, fun i p hp _ => hp⟩
  | succ n ih =>
    obtain ⟨p, hmem, hready⟩ := List.countP_pos_iff.mp (Nat.zero_lt_of_lt h)
    obtain ⟨i, hp⟩ := List.getElem?_of_mem hmem
    obtain ⟨hk, hgetter⟩ := readyOn_iff.mp hready
    have hcount := takers_resume hlifo hp hk hgetter
    obtain ⟨hitems, hpops⟩ := resume_lifo (i := i) (s := s) hlifo hk
    obtain ⟨es, t, run, hdropped, hkept⟩ := ih (s := s.resume disc i p) (by omega)
    refine ⟨.resume i :: es, t, .cons (turn_resume hp hgetter) run, ?_, fun j q hq hne => ?_⟩
    · rw [hdropped, hitems, ← List.drop_one, List.drop_drop, Nat.add_comm]
    · refine hkept j q ?_ hne
      rw [hpops, List.getElem?_set_ne, hq]
      rintro rfl
      obtain rfl := Option.some.inj (hp.symm.trans hq)
      exact hne hgetter

end Turns

end AgentTestHarness.RepeatedPops
