import AgentTestHarness.CutEscapes
import AgentTestHarness.PollErrors
import AgentTestHarness.StateReplacement

/-! The role and the protocol of a connection record, which the translation of its state finds by
words anywhere in the text of the record. -/
namespace AgentTestHarness.RoleDetection
open PyText OrderedDict PyJson JsonText JsonReading JsonWriting JsonMember JsonReplacing
open JsonReplacedValue JsonRoundTrip StateTranslation StateReplacement WrittenStates WrittenWords
open CutEscapes PollErrors

abbrev Record := List (Str × Json)

def connectionTopics : List Text :=
  ["connection".toList, "out-of-band".toList, "did-exchange".toList]

/-- The state at the top of the translated record; without one, or where the translation raises
or its text cannot be read, there is none. -/
def topState (topic : Text) (r : Record) : Option Json :=
  match Acapy.agentStateTranslation topic (dumps (.obj r)) with
  | .error _ => none
  | .ok text => match loads text with
    | .ok (.obj ms) => lookup ("state" : Str) ms
    | _ => none

def isDidExchange (r : Record) : Prop :=
  lookup ("connection_protocol" : Str) r = some (.str ("didexchange/1.0" : Str)) ∨
    lookup ("connection_protocol" : Str) r = some (.str ("didexchange/1.1" : Str))

instance (r : Record) : Decidable (isDidExchange r) := inferInstanceAs (Decidable (_ ∨ _))

/-- The table that applies to a record by its own fields. -/
def tableOf (topic : Text) (r : Record) : Option Table :=
  if topic = "connection".toList ∧ ¬ isDidExchange r then
    some Acapy.connectionStateTranslationDict
  else if lookup ("their_role" : Str) r = some (.str ("invitee" : Str)) then
    some Acapy.didExchangeResponderStateTranslationDict
  else if lookup ("their_role" : Str) r = some (.str ("inviter" : Str)) then
    some Acapy.didExchangeRequesterStateTranslationDict
  else none

/-- The state of the record has this entry in the table that applies. -/
def HasEntry (topic : Text) (r : Record) (e : Text × Text) : Prop :=
  (∃ t, tableOf topic r = some t ∧ e ∈ t) ∧
    lookup ("state" : Str) r = some (.str (ofText e.1))

/-- The fields that decide. -/
def deciding : List Str := ["state", "their_role", "connection_protocol"]

def Agree (r₁ r₂ : Record) : Prop := ∀ key ∈ deciding, lookup key r₁ = lookup key r₂

/-- The two records are given the same state, and that of their table where one applies; in a DID
exchange it is none of a connection. -/
structure TranslatedAlike (topic : Text) (r₁ r₂ : Record) : Prop where
  same : topState topic r₁ = topState topic r₂
  entry : ∀ r ∈ [r₁, r₂], ∀ e, HasEntry topic r e → topState topic r = some (.str (ofText e.2))
  other : ∀ r ∈ [r₁, r₂], isDidExchange r → ∀ e ∈ Acapy.connectionStateTranslationDict,
    topState topic r ≠ some (.str (ofText e.2))

def mentions (word : Text) (r : Record) : Bool := isIn word (dumps (.obj r))

/-- The states that responder and requester call the same. -/
def sharedStates : List Text := ["initial".toList, "?".toList, "active".toList]

/-- No other field of the record speaks of a role or a protocol, or it makes no difference. -/
def Undisturbed (topic : Text) (r : Record) (state : Text) : Prop :=
  if topic = "connection".toList ∧ ¬ isDidExchange r then
    mentions "didexchange/1.0".toList r = false ∧ mentions "didexchange/1.1".toList r = false ∧
      cutsIn state (.obj r) = false
  else lookup ("their_role" : Str) r = some (.str ("invitee" : Str)) ∨
    mentions "invitee".toList r = false ∨ state ∈ sharedStates

/-- The entry for the state in the table that the words of the text choose. -/
def chosenEntry (topic : Text) (r : Record) : Option Text := do
  let (_, t) ← Acapy.method topic (dumps (.obj r))
  let t ← t
  let state ← lookup ("state" : Str) r
  (tableEntry t state).toOption.map Prod.snd

/-! The words of a field stand in the text of the record. -/

theorem infix_dumpsMembers {ms : Record} {k : Str} {v : Json} (h : (k, v) ∈ ms) :
    dumpsStr k <:+: dumpsMembers ms ∧ dumps v <:+: dumpsMembers ms := by
  induction ms with
  | nil => exact absurd h List.not_mem_nil
  | cons m ms ih =>
    rw [dumpsMembers]
    rcases List.mem_cons.mp h with rfl | h
    · exact ⟨⟨", ".toList, ": ".toList ++ dumps v ++ dumpsMembers ms, by simp⟩,
        ⟨", ".toList ++ dumpsStr k ++ ": ".toList, dumpsMembers ms, by simp⟩⟩
    · obtain ⟨hk, hv⟩ := ih h
      have hrest := fun t => (List.suffix_append t (dumpsMembers ms)).isInfix
      exact ⟨hk.trans (hrest _), hv.trans (hrest _)⟩

theorem infix_dumps {r : Record} {k : Str} {v : Json} (h : (k, v) ∈ r) :
    dumpsStr k <:+: dumps (.obj r) ∧ dumps v <:+: dumps (.obj r) := by
  cases r with
  | nil => exact absurd h List.not_mem_nil
  | cons m ms =>
    rw [dumps]
    rcases List.mem_cons.mp h with rfl | h
    · exact ⟨⟨['{'], ": ".toList ++ dumps v ++ dumpsMembers ms ++ ['}'], by simp⟩,
        ⟨'{' :: dumpsStr k ++ ": ".toList, dumpsMembers ms ++ ['}'], by simp⟩⟩
    · obtain ⟨hk, hv⟩ := infix_dumpsMembers h
      have hrest := fun t => ((List.suffix_append t (dumpsMembers ms)).isInfix).trans
        (List.prefix_append _ ['}']).isInfix
      exact ⟨hk.trans (hrest _), hv.trans (hrest _)⟩

theorem mentions_name {r : Record} {word : Text} {v : Json} (plain : Plain word)
    (h : lookup (ofText word) r = some v) : mentions word r = true := by
  have hname := (infix_dumps (mem_of_lookup h)).1
  rw [dumpsStr, escape_ofText plain] at hname
  refine decide_eq_true (List.IsInfix.trans ?_ hname)
  exact ⟨['"'], ['"'], by simp⟩

theorem mentions_value {r : Record} {name : Str} {word : Text} (plain : Plain word)
    (h : lookup name r = some (.str (ofText word))) : mentions word r = true := by
  have hvalue := (infix_dumps (mem_of_lookup h)).2
  rw [dumps_plain plain] at hvalue
  exact decide_eq_true (List.IsInfix.trans ⟨['"'], ['"'], by simp [quoted]⟩ hvalue)

/-! The table that the text chooses. -/

theorem method_connection {data : Text} :
    Acapy.method "connection".toList data =
      if isIn "didexchange/1.0".toList data || isIn "didexchange/1.1".toList data then
        some (.stateValue, Acapy.deStateTransMethod data)
      else some (.bare, some Acapy.connectionStateTranslationDict) := rfl

theorem method_other {topic data : Text}
    (h : topic = "out-of-band".toList ∨ topic = "did-exchange".toList) :
    Acapy.method topic data = some (.stateValue, Acapy.deStateTransMethod data) := by
  rcases h with rfl | rfl
  · rfl
  · rfl

theorem plain_deStateTransMethod {data : Text} {t : Table}
    (h : Acapy.deStateTransMethod data = some t) : ∀ e ∈ t, Plain e.1 ∧ Plain e.2 := by
  unfold Acapy.deStateTransMethod at h
  split_ifs at h <;> obtain rfl := Option.some.inj h <;> decide

theorem fit_of_plain {e : Text × Text} (h : Plain e.1 ∧ Plain e.2) :
    Fit "state".toList e.1 e.2 :=
  ⟨by decide, by decide, by decide, h.1, h.2⟩

theorem tableEntry_eq_ok {t : Table} {state : Json} {e : Text × Text}
    (h : tableEntry t state = .ok e) : e ∈ t ∧ state = .str (ofText e.1) := by
  cases state with
  | str s =>
    rw [tableEntry] at h
    cases hfind : t.find? fun e => ofText e.1 = s with
    | none =>
      rw [hfind] at h
      exact absurd h (by simp)
    | some f =>
      rw [hfind] at h
      obtain rfl := Except.ok.inj h
      have hs := List.find?_some hfind
      exact ⟨List.mem_of_find?_eq_some hfind, congrArg Json.str (of_decide_eq_true hs).symm⟩
  | _ => exact absurd h (by simp [tableEntry])

theorem connection_words : ∀ e ∈ Acapy.connectionStateTranslationDict,
    (∃ o o₂ o₃ n n₂ old' new', Spelling e.1 e.2 o o₂ o₃ n n₂ old' new') ∧
      ∃ c, Marker c ∧ c ∈ e.2 ∧ c ∉ "state".toList ∧
        replace e.1 e.2 "state".toList = "state".toList := by
  have hentries : Acapy.connectionStateTranslationDict = [
      ("invitation".toList, "invited".toList), ("request".toList, "requested".toList),
      ("response".toList, "responded".toList), ("active".toList, "complete".toList)] := rfl
  rw [hentries]
  simp only [List.forall_mem_cons]
  refine ⟨?_, ?_, ?_, ?_, fun e he => absurd he List.not_mem_nil⟩
  · exact ⟨⟨'i', 'n', 'v', 'i', 'n', "itation".toList, "vited".toList, by decide⟩, 'v', by decide⟩
  · exact ⟨⟨'r', 'e', 'q', 'r', 'e', "uest".toList, "quested".toList, by decide⟩, 'q', by decide⟩
  · exact ⟨⟨'r', 'e', 's', 'r', 'e', "ponse".toList, "sponded".toList, by decide⟩, 'p', by decide⟩
  · exact ⟨⟨'a', 'c', 't', 'c', 'o', "ive".toList, "mplete".toList, by decide⟩, 'p', by decide⟩

section Translation

variable {topic : Text} {r : Record}

theorem topState_of_raises {error : PyError}
    (h : Acapy.agentStateTranslation topic (dumps (.obj r)) = .error error) :
    topState topic r = none := by
  rw [topState, h]

theorem topState_of_loads {text : Text} {ms : Record}
    (h : Acapy.agentStateTranslation topic (dumps (.obj r)) = .ok text)
    (hload : loads text = .ok (.obj ms)) : topState topic r = lookup ("state" : Str) ms := by
  rw [topState, h]
  simp only [hload]

variable (loadable : Loadable (.obj r))
include loadable

theorem topState_of_absent (h : lookup ("state" : Str) r = none) : topState topic r = none := by
  have hload := loads_dumps loadable
  have htext : Acapy.agentStateTranslation topic (dumps (.obj r)) = .ok (dumps (.obj r)) := by
    simp only [Acapy.agentStateTranslation, hload, contains_of_absent h, bind, Except.bind]
    rfl
  rw [topState_of_loads htext hload, h]

theorem translation_eq {style : Style} {t : Option Table} {state : Json}
    (hm : Acapy.method topic (dumps (.obj r)) = some (style, t))
    (hstate : lookup ("state" : Str) r = some state) :
    Acapy.agentStateTranslation topic (dumps (.obj r)) = match t with
      | none => .error .unboundLocalError
      | some t => (tableEntry t state).map fun e =>
          replaceState style e.1 e.2 (dumps (.obj r)) := by
  simp only [Acapy.agentStateTranslation, loads_dumps loadable, Json.contains_of_lookup hstate,
    Json.item_of_lookup hstate, hm, bind, Except.bind, if_true]
  cases t with
  | none => rfl
  | some t =>
    cases htable : tableEntry t state with
    | error e => simp only [htable, Except.map]
    | ok e => simp only [htable, Except.map]; rfl

/-- Without an entry in the table that was chosen there is no state. -/
theorem topState_of_chosenEntry {style : Style} {t : Option Table}
    (hm : Acapy.method topic (dumps (.obj r)) = some (style, t))
    (h : chosenEntry topic r = none) : topState topic r = none := by
  cases hstate : lookup ("state" : Str) r with
  | none => exact topState_of_absent loadable hstate
  | some state =>
    have htext := translation_eq loadable hm hstate
    cases t with
    | none => exact topState_of_raises htext
    | some t =>
      simp only [chosenEntry, hm, hstate, Option.bind_eq_bind, Option.bind_some] at h
      cases htable : tableEntry t state with
      | error e =>
        simp only [htable, Except.map] at htext
        exact topState_of_raises htext
      | ok e =>
        rw [htable] at h
        exact absurd h (by simp [Except.toOption])

omit loadable in
theorem chosenEntry_eq {style : Style} {t : Table}
    (hm : Acapy.method topic (dumps (.obj r)) = some (style, some t)) {state : Json}
    (hstate : lookup ("state" : Str) r = some state) :
    chosenEntry topic r = (tableEntry t state).toOption.map Prod.snd := by
  simp only [chosenEntry, hm, hstate, Option.bind_eq_bind, Option.bind_some]

omit loadable in
theorem chosenEntry_eq_some {new : Text} (h : chosenEntry topic r = some new) :
    ∃ style t old, Acapy.method topic (dumps (.obj r)) = some (style, some t) ∧
      (old, new) ∈ t ∧ lookup ("state" : Str) r = some (.str (ofText old)) := by
  simp only [chosenEntry, Option.bind_eq_bind, Option.bind_eq_some_iff,
    Option.map_eq_some_iff] at h
  obtain ⟨⟨style, u⟩, hm, t, rfl, state, hstate, ⟨old, new'⟩, hentry, rfl⟩ := h
  cases htable : tableEntry t state with
  | error e =>
    rw [htable] at hentry
    exact absurd hentry (by simp [Except.toOption])
  | ok e =>
    rw [htable] at hentry
    obtain rfl : e = (old, new') := Option.some.inj hentry
    obtain ⟨he, rfl⟩ := tableEntry_eq_ok htable
    exact ⟨style, t, old, hm, he, hstate⟩

/-- Where the state is replaced with its name, the state is the entry. -/
theorem topState_of_stateValue
    (hm : Acapy.method topic (dumps (.obj r)) =
      some (.stateValue, Acapy.deStateTransMethod (dumps (.obj r)))) :
    topState topic r = (chosenEntry topic r).map fun new => .str (ofText new) := by
  cases hchosen : chosenEntry topic r with
  | none => exact topState_of_chosenEntry loadable hm hchosen
  | some new =>
    obtain ⟨style, t, old, hm', he, hstate⟩ := chosenEntry_eq_some hchosen
    rw [hm] at hm'
    obtain ⟨rfl, ht⟩ := Prod.mk.inj (Option.some.inj hm')
    have hm : Acapy.method topic (dumps (.obj r)) = some (.stateValue, some t) := ht ▸ hm
    have sound := sound_acapy hm
    have htext := acapy_eq (loads_dumps loadable) hstate hm (tableEntry_of_mem sound.1 he)
    have hload := (fit_of_plain (plain_deStateTransMethod ht _ he)).loads_replace loadable
    rw [memberText_state, memberText_state] at hload
    exact (topState_of_loads htext hload).trans (lookup_turnMembers new hstate)

/-- Where the state is replaced alone, the text must still be readable. -/
theorem topState_of_bare {e : Text × Text} (he : e ∈ Acapy.connectionStateTranslationDict)
    (hm : Acapy.method topic (dumps (.obj r)) =
      some (.bare, some Acapy.connectionStateTranslationDict))
    (hstate : lookup ("state" : Str) r = some (.str (ofText e.1))) :
    topState topic r =
      if cutsIn e.1 (.obj r) = true then none else some (.str (ofText e.2)) := by
  obtain ⟨⟨o, o₂, o₃, n, n₂, old', new', spelling⟩, c, marker, hnew, hname, hkept⟩ :=
    connection_words e he
  have sound := sound_acapy hm
  have htext : Acapy.agentStateTranslation topic (dumps (.obj r)) =
      .ok (replace e.1 e.2 (dumps (.obj r))) :=
    acapy_eq (loads_dumps loadable) hstate hm (tableEntry_of_mem sound.1 he)
  have hread := spelling.loads_replace loadable
  split
  · next hcut =>
    rw [topState, htext]
    cases hload : loads (replace e.1 e.2 (dumps (.obj r))) with
    | error err => simp only [hload]
    | ok v =>
      have hclean := hread.mp ⟨v, hload⟩
      rw [hcut] at hclean
      exact absurd hclean (by simp)
  · next hclean =>
    obtain ⟨v, hload⟩ := hread.mpr (Bool.eq_false_iff.mpr hclean)
    have hreword := (spelling.words.loads_replace loadable).mp hload
    obtain ⟨ps, hps, rfl⟩ := Option.map_eq_some_iff.mp hreword
    rw [topState_of_loads htext hload]
    have hne := spelling.words.proper.1
    have hself : replace e.1 e.2 e.1 = e.2 := by
      have happend := replace_append hne e.2 []
      rwa [List.append_nil, replace_nil, List.append_nil] at happend
    have hvalue : reword e.1 e.2 (.str (ofText e.1)) = some (.str (ofText e.2)) := by
      have hplain : PlainText (replace e.1 e.2 e.1) := hself.symm ▸ spelling.words.proper.2.2.2.1
      rw [reword, rewordStr_plain e.1 e.2 spelling.plain hplain, hself]
      rfl
    refine lookup_rewordMembers hps hstate loadable.1 hvalue fun k hk => ?_
    obtain ⟨m, hmem, rfl⟩ := List.mem_map.mp hk
    exact rewordStr_eq_iff hne marker hnew hname (by decide) hkept
      (loadableMembers_iff.mp loadable.2 m hmem).1

end Translation

/-! When the table that the text chooses is the one that applies. -/

theorem mentions_didExchange {r : Record} (h : isDidExchange r) :
    (mentions "didexchange/1.0".toList r || mentions "didexchange/1.1".toList r) = true := by
  rcases h with h | h
  · rw [mentions_value (by decide) h, Bool.true_or]
  · rw [mentions_value (by decide) h, Bool.or_true]

theorem method_by_role {topic : Text} {r : Record} (htopic : topic ∈ connectionTopics)
    (h : ¬ (topic = "connection".toList ∧ ¬ isDidExchange r)) :
    Acapy.method topic (dumps (.obj r)) =
      some (.stateValue, Acapy.deStateTransMethod (dumps (.obj r))) := by
  rcases List.mem_cons.mp htopic with rfl | hother
  · have hdid : isDidExchange r := by
      by_contra hnot
      exact h ⟨rfl, hnot⟩
    exact method_connection.trans (if_pos (mentions_didExchange hdid))
  · exact method_other (by simpa using hother)

/-- The text of a record with a role speaks of it. -/
theorem deStateTransMethod_invitee {r : Record}
    (hrole : lookup ("their_role" : Str) r = some (.str ("invitee" : Str))) :
    Acapy.deStateTransMethod (dumps (.obj r)) =
      some Acapy.didExchangeResponderStateTranslationDict := by
  have hname : isIn "their_role".toList (dumps (.obj r)) = true :=
    mentions_name (by decide) hrole
  have hinvitee : isIn "invitee".toList (dumps (.obj r)) = true :=
    mentions_value (by decide) hrole
  rw [Acapy.deStateTransMethod, if_pos hname, if_pos hinvitee]

theorem deStateTransMethod_inviter {r : Record}
    (hrole : lookup ("their_role" : Str) r = some (.str ("inviter" : Str))) :
    Acapy.deStateTransMethod (dumps (.obj r)) =
      if mentions "invitee".toList r then some Acapy.didExchangeResponderStateTranslationDict
      else some Acapy.didExchangeRequesterStateTranslationDict := by
  have hname : isIn "their_role".toList (dumps (.obj r)) = true :=
    mentions_name (by decide) hrole
  have hinviter : isIn "inviter".toList (dumps (.obj r)) = true :=
    mentions_value (by decide) hrole
  rw [Acapy.deStateTransMethod, if_pos hname, if_pos hinviter]
  rfl

/-- No role calls a state as a connection does. -/
theorem roles_ne_connection {data : Text} {t : Table}
    (h : Acapy.deStateTransMethod data = some t) :
    ∀ f ∈ t, ∀ e ∈ Acapy.connectionStateTranslationDict, f.2 ≠ e.2 := by
  unfold Acapy.deStateTransMethod at h
  split_ifs at h <;> obtain rfl := Option.some.inj h <;> decide

/-- What the responder calls the states of the requester. -/
theorem responder_of_requester :
    ∀ e ∈ Acapy.didExchangeRequesterStateTranslationDict,
      ∃ f ∈ Acapy.didExchangeResponderStateTranslationDict, f.1 = e.1 ∧
        (f.2 = e.2 ↔ e.1 ∈ sharedStates) := by
  decide

section Tables

variable {topic : Text} {r : Record} (loadable : Loadable (.obj r))
include loadable

theorem topState_of_role {t : Table}
    (hm : Acapy.method topic (dumps (.obj r)) =
      some (.stateValue, Acapy.deStateTransMethod (dumps (.obj r))))
    (ht : Acapy.deStateTransMethod (dumps (.obj r)) = some t) {old new : Text}
    (he : (old, new) ∈ t) (hstate : lookup ("state" : Str) r = some (.str (ofText old))) :
    topState topic r = some (.str (ofText new)) := by
  have hmt := hm
  rw [ht] at hmt
  rw [topState_of_stateValue loadable hm, chosenEntry_eq hmt hstate,
    tableEntry_of_mem (sound_acapy hmt).1 he]
  rfl

theorem topState_ne_connection
    (hm : Acapy.method topic (dumps (.obj r)) =
      some (.stateValue, Acapy.deStateTransMethod (dumps (.obj r)))) {e : Text × Text}
    (he : e ∈ Acapy.connectionStateTranslationDict) :
    topState topic r ≠ some (.str (ofText e.2)) := by
  intro htop
  rw [topState_of_stateValue loadable hm] at htop
  obtain ⟨new, hchosen, hnew⟩ := Option.map_eq_some_iff.mp htop
  obtain ⟨style, t, old, hm', ht, -⟩ := chosenEntry_eq_some hchosen
  rw [hm] at hm'
  obtain ⟨-, ht'⟩ := Prod.mk.inj (Option.some.inj hm')
  exact roles_ne_connection ht' _ ht e he (ofText_injective (Json.str.inj hnew))

/-- The record is given the state of its own table just if it is undisturbed. -/
theorem topState_iff_undisturbed (htopic : topic ∈ connectionTopics) {e : Text × Text}
    (h : HasEntry topic r e) :
    topState topic r = some (.str (ofText e.2)) ↔ Undisturbed topic r e.1 := by
  obtain ⟨⟨t, ht, he⟩, hstate⟩ := h
  unfold tableOf at ht
  by_cases hconnection : topic = "connection".toList ∧ ¬ isDidExchange r
  · rw [if_pos hconnection] at ht
    obtain rfl := Option.some.inj ht
    rw [Undisturbed, if_pos hconnection]
    obtain ⟨rfl, -⟩ := hconnection
    by_cases hmention :
        (mentions "didexchange/1.0".toList r || mentions "didexchange/1.1".toList r) = true
    · have hm := method_connection.trans (if_pos hmention)
      refine iff_of_false (topState_ne_connection loadable hm he) fun hnone => ?_
      rw [hnone.1, hnone.2.1] at hmention
      exact absurd hmention (by simp)
    · have hm := method_connection.trans (if_neg hmention)
      rw [topState_of_bare loadable he hm hstate]
      have hnone := Bool.or_eq_false_iff.mp (Bool.eq_false_iff.mpr hmention)
      cases hcut : cutsIn e.1 (.obj r) with
      | true => simp
      | false => exact iff_of_true rfl ⟨hnone.1, hnone.2, rfl⟩
  · have hm := method_by_role htopic hconnection
    rw [if_neg hconnection] at ht
    rw [Undisturbed, if_neg hconnection]
    split at ht
    · next hrole =>
      obtain rfl := Option.some.inj ht
      exact iff_of_true
        (topState_of_role loadable hm (deStateTransMethod_invitee hrole) he hstate) (.inl hrole)
    · next hrole =>
      split at ht
      · next hinviter =>
        obtain rfl := Option.some.inj ht
        have htable := deStateTransMethod_inviter hinviter
        cases hmention : mentions "invitee".toList r with
        | false =>
          rw [hmention] at htable
          exact iff_of_true (topState_of_role loadable hm htable he hstate) (.inr (.inl rfl))
        | true =>
          rw [hmention] at htable
          obtain ⟨⟨old, new⟩, hf, heq, hshared⟩ := responder_of_requester e he
          obtain rfl : old = e.1 := heq
          rw [topState_of_role loadable hm htable hf hstate, Option.some.injEq, Json.str.injEq,
            ofText_inj, hshared]
          refine ⟨fun hs => .inr (.inr hs), ?_⟩
          rintro (hinvitee | hfalse | hs)
          · exact absurd hinvitee hrole
          · exact absurd hfalse (by simp)
          · exact hs
      · exact absurd ht (by simp)

/-- Where no table applies, or not to this state, the state is what the text chooses. -/
theorem topState_of_no_entry (htopic : topic ∈ connectionTopics)
    (h : ∀ e, ¬ HasEntry topic r e) :
    topState topic r = (chosenEntry topic r).map fun new => .str (ofText new) := by
  by_cases hconnection : topic = "connection".toList ∧ ¬ isDidExchange r
  · have htable : tableOf topic r = some Acapy.connectionStateTranslationDict := if_pos hconnection
    obtain ⟨rfl, -⟩ := hconnection
    by_cases hmention :
        (mentions "didexchange/1.0".toList r || mentions "didexchange/1.1".toList r) = true
    · exact topState_of_stateValue loadable (method_connection.trans (if_pos hmention))
    · have hm : Acapy.method "connection".toList (dumps (.obj r)) = _ :=
        method_connection.trans (if_neg hmention)
      have hchosen : chosenEntry "connection".toList r = none := by
        refine Option.eq_none_iff_forall_ne_some.mpr fun new hnew => ?_
        obtain ⟨style, t, old, hm', he, hstate⟩ := chosenEntry_eq_some hnew
        rw [hm] at hm'
        obtain ⟨-, ht⟩ := Prod.mk.inj (Option.some.inj hm')
        obtain rfl := Option.some.inj ht
        exact h (old, new) ⟨⟨_, htable, he⟩, hstate⟩
      rw [topState_of_chosenEntry loadable hm hchosen, hchosen]
      rfl
  · exact topState_of_stateValue loadable (method_by_role htopic hconnection)

end Tables

theorem Agree.isDidExchange {r₁ r₂ : Record} (agree : Agree r₁ r₂) :
    isDidExchange r₁ ↔ isDidExchange r₂ := by
  have hprotocol := agree "connection_protocol" (by simp [deciding])
  rw [RoleDetection.isDidExchange, RoleDetection.isDidExchange, hprotocol]

theorem Agree.hasEntry {r₁ r₂ : Record} (agree : Agree r₁ r₂) (topic : Text)
    (e : Text × Text) : HasEntry topic r₁ e ↔ HasEntry topic r₂ e := by
  have hrole := agree "their_role" (by simp [deciding])
  have hstate := agree "state" (by simp [deciding])
  simp only [HasEntry, tableOf, hrole, hstate, agree.isDidExchange]

/-- Two records that agree are translated alike just if the text of neither is disturbed; where
no table applies, just if both texts choose the same entry. -/
theorem translatedAlike_iff (topic : Text) (htopic : topic ∈ connectionTopics)
    (r₁ r₂ : Record) (loadable₁ : Loadable (.obj r₁)) (loadable₂ : Loadable (.obj r₂))
    (agree : Agree r₁ r₂) :
    TranslatedAlike topic r₁ r₂ ↔
      (∀ e, HasEntry topic r₁ e → Undisturbed topic r₁ e.1 ∧ Undisturbed topic r₂ e.1) ∧
      ((∀ e, ¬ HasEntry topic r₁ e) → chosenEntry topic r₁ = chosenEntry topic r₂) := by
  have hfirst := fun e he => topState_iff_undisturbed loadable₁ htopic (e := e) he
  have hsecond := fun e he => topState_iff_undisturbed loadable₂ htopic (e := e) he
  have hentries := agree.hasEntry topic
  constructor
  · intro alike
    refine ⟨fun e he => ⟨?_, ?_⟩, fun hnone => ?_⟩
    · exact (hfirst e he).mp (alike.entry r₁ List.mem_cons_self e he)
    · have he₂ := (hentries e).mp he
      exact (hsecond e he₂).mp (alike.entry r₂ (by simp) e he₂)
    · have hsame := alike.same
      rw [topState_of_no_entry loadable₁ htopic hnone,
        topState_of_no_entry loadable₂ htopic fun e he => hnone e ((hentries e).mpr he)] at hsame
      exact Option.map_injective (fun s t hst => ofText_injective (Json.str.inj hst)) hsame
  · rintro ⟨hundisturbed, hchosen⟩
    have hentry₁ : ∀ e, HasEntry topic r₁ e → topState topic r₁ = some (.str (ofText e.2)) :=
      fun e he => (hfirst e he).mpr (hundisturbed e he).1
    have hentry₂ : ∀ e, HasEntry topic r₂ e → topState topic r₂ = some (.str (ofText e.2)) :=
      fun e he => (hsecond e he).mpr (hundisturbed e ((hentries e).mpr he)).2
    refine ⟨?_, ?_, ?_⟩
    · by_cases hex : ∃ e, HasEntry topic r₁ e
      · obtain ⟨e, he⟩ := hex
        rw [hentry₁ e he, hentry₂ e ((hentries e).mp he)]
      · have hnone := not_exists.mp hex
        rw [topState_of_no_entry loadable₁ htopic hnone,
          topState_of_no_entry loadable₂ htopic fun e he => hnone e ((hentries e).mpr he),
          hchosen hnone]
    · intro r hr e he
      rcases List.mem_cons.mp hr with rfl | hr
      · exact hentry₁ e he
      · obtain rfl := List.mem_singleton.mp hr
        exact hentry₂ e he
    · intro r hr hdid e he
      have hnot : ¬ (topic = "connection".toList ∧ ¬ isDidExchange r) := fun h => h.2 hdid
      rcases List.mem_cons.mp hr with rfl | hr
      · exact topState_ne_connection loadable₁ (method_by_role htopic hnot) he
      · obtain rfl := List.mem_singleton.mp hr
        exact topState_ne_connection loadable₂ (method_by_role htopic hnot) he

/-- A record of an inviter in a DID exchange, with an alias. -/
def inviterRecord (state contact : Text) : Record :=
  [("state", .str (ofText state)), ("their_role", .str ("inviter" : Str)),
    ("connection_protocol", .str ("didexchange/1.0" : Str)), ("alias", .str (ofText contact))]

theorem loadable_inviterRecord (state contact : Text) :
    Loadable (.obj (inviterRecord state contact)) :=
  ⟨(by decide : [("state" : Str), "their_role", "connection_protocol", "alias"].Nodup),
    ⟨unpaired_ofText _, unpaired_ofText _⟩, ⟨unpaired_ofText _, unpaired_ofText _⟩,
    ⟨unpaired_ofText _, unpaired_ofText _⟩, ⟨unpaired_ofText _, unpaired_ofText _⟩, trivial⟩

theorem agree_inviterRecord (state contact₁ contact₂ : Text) :
    Agree (inviterRecord state contact₁) (inviterRecord state contact₂) := by
  intro key hkey
  simp only [deciding, List.mem_cons, List.not_mem_nil, or_false] at hkey
  rcases hkey with rfl | rfl | rfl
  · rfl
  · rfl
  · rfl

/-- Without the word in either alias the requests of two inviters are translated alike. -/
theorem bob_and_carol_alike : TranslatedAlike "did-exchange".toList
    (inviterRecord "request".toList "Bob".toList)
    (inviterRecord "request".toList "Carol".toList) := by
  refine (translatedAlike_iff "did-exchange".toList (by decide) _ _
    (loadable_inviterRecord _ _) (loadable_inviterRecord _ _) (agree_inviterRecord _ _ _)).mpr
    ⟨?_, fun hnone => ?_⟩
  · intro e he
    have hquiet : ∀ contact ∈ ["Bob".toList, "Carol".toList],
        mentions "invitee".toList (inviterRecord "request".toList contact) = false := by
      decide +kernel
    have hrole : ¬ ("did-exchange".toList = "connection".toList) := by decide
    refine ⟨?_, ?_⟩
    · rw [Undisturbed, if_neg fun h => hrole h.1]
      exact .inr (.inl (hquiet _ (by simp)))
    · rw [Undisturbed, if_neg fun h => hrole h.1]
      exact .inr (.inl (hquiet _ (by simp)))
  · exact absurd ⟨⟨_, rfl, by decide⟩, rfl⟩ (hnone ("request".toList, "request-sent".toList))

/-- An alias that speaks of an invitee turns the inviter's request into the responder's. -/
theorem alias_chooses_the_table :
    Agree (inviterRecord "request".toList "Bob".toList)
        (inviterRecord "request".toList "my invitee".toList) ∧
      ¬ TranslatedAlike "did-exchange".toList (inviterRecord "request".toList "Bob".toList)
        (inviterRecord "request".toList "my invitee".toList) := by
  refine ⟨agree_inviterRecord _ _ _, fun alike => ?_⟩
  have hstates : topState "did-exchange".toList (inviterRecord "request".toList "Bob".toList) =
        some (.str ("request-sent" : Str)) ∧
      topState "did-exchange".toList (inviterRecord "request".toList "my invitee".toList) =
        some (.str ("request-received" : Str)) := by
    decide +kernel
  have hsame := alike.same
  rw [hstates.1, hstates.2] at hsame
  exact absurd hsame (by decide)

end AgentTestHarness.RoleDetection
