import AgentTestHarness.StateTranslation
import AgentTestHarness.MemberReplacement

/-! When the translation of a state changes the state alone. -/
namespace AgentTestHarness.StateReplacement
open PyText OrderedDict PyJson JsonText JsonReading JsonMember JsonReplacing JsonReplacedValue
open MemberReplacement StateTranslation

/-- The backchannels; the one of AFGO is also told the operation. -/
inductive Agent
  | acapy
  | afgo (operation : Option Text)

namespace Agent

def translate : Agent → Text → Text → Except PyError Text
  | .acapy, topic, data => Acapy.agentStateTranslation topic data
  | .afgo operation, topic, data => Afgo.agentStateTranslation topic operation data

def method : Agent → Text → Text → Option (Style × Table)
  | .acapy, topic, data => (Acapy.method topic data).bind fun m => m.2.map (m.1, ·)
  | .afgo operation, topic, _ => Afgo.method topic operation

def swaps : Agent → Text → Text → Bool
  | .acapy, _, _ => false
  | .afgo operation, topic, data => Afgo.swapsCompleted topic operation data

/-- Once a response was sent a completed connection counts as a response sent. -/
def meansResponseSent : Agent → Text → Bool
  | .acapy, _ => false
  | .afgo operation, topic => Afgo.isConnection topic && operation = some "send-response".toList

def responseSent (t : Table) : Table :=
  t.map fun e => if e.1 = "completed".toList then (e.1, "response-sent".toList) else e

/-- The table that applies to a topic. -/
def stateTable (agent : Agent) (topic data : Text) : Option Table :=
  (agent.method topic data).map fun m =>
    if agent.meansResponseSent topic then responseSent m.2 else m.2

end Agent

def replacementOf (style : Style) (oldState newState : Text) : Replacement :=
  match style with
  | .bare => .inStrings oldState newState
  | .stateValue => .ofMember "state".toList oldState newState

def completedSwap : Replacement := .inStrings "completed".toList "response-sent".toList

/-- What is replaced in the data for a state and its entry in the table. -/
def Agent.replacement (agent : Agent) (topic data oldState newState : Text) : Replacement :=
  if agent.swaps topic data then completedSwap
  else match agent.method topic data with
    | some (style, _) => replacementOf style oldState newState
    | none => .inStrings oldState newState

/-- The pattern stands in the text of the state and nowhere else, or changes nothing. -/
def Safe (ρ : Replacement) (data : Text) : Prop :=
  ρ.old = ρ.new ∨ spelled ρ "state" data = true ∧ occurrences ρ.old data = 1

instance (ρ : Replacement) (data : Text) : Decidable (Safe ρ data) :=
  inferInstanceAs (Decidable (_ ∨ _))

/-- The translation gives the same object with the new state. -/
def Translated (agent : Agent) (topic data : Text) (ms : List (Str × Json)) (newState : Text) :
    Prop :=
  ∃ text, agent.translate topic data = .ok text ∧
    loads text = .ok (.obj (assign "state" (.str (ofText newState)) ms))

theorem memberText_eq (name s : Text) :
    memberText name s = '"' :: name ++ ['"', ':', ' ', '"'] ++ s ++ ['"'] := by
  simp [memberText, quoted]

theorem memberText_state (s : Text) : memberText "state".toList s = pattern .stateValue s :=
  (memberText_eq _ s).trans (pattern_stateValue s).symm

theorem replacementOf_apply (style : Style) (oldState newState data : Text) :
    (replacementOf style oldState newState).apply data =
      replaceState style oldState newState data := by
  cases style with
  | bare => rfl
  | stateValue =>
    rw [replaceState, ← memberText_state, ← memberText_state]
    rfl

theorem words_replacementOf (style : Style) (oldState newState : Text) :
    oldWord (replacementOf style oldState newState) = oldState ∧
      newWord (replacementOf style oldState newState) = newState := by
  cases style with
  | bare => exact ⟨rfl, rfl⟩
  | stateValue => exact ⟨rfl, rfl⟩

/-! The tables: no state twice, and proper patterns only. -/

def Table.Sound (style : Style) (t : Table) : Prop :=
  (t.map Prod.fst).Nodup ∧ ∀ e ∈ t, (replacementOf style e.1 e.2).Proper

instance (style : Style) (t : Table) : Decidable (Table.Sound style t) :=
  inferInstanceAs (Decidable (_ ∧ _))

theorem sound_acapy {topic data : Text} {style : Style} {t : Table}
    (h : Acapy.method topic data = some (style, some t)) : Table.Sound style t := by
  have hrole : ∀ u, Acapy.deStateTransMethod data = some u → Table.Sound .stateValue u := by
    intro u hu
    unfold Acapy.deStateTransMethod at hu
    split_ifs at hu <;> obtain rfl := Option.some.inj hu <;> decide +kernel
  unfold Acapy.method at h
  split_ifs at h <;> obtain ⟨rfl, ht⟩ := Prod.mk.inj (Option.some.inj h)
  · exact hrole t ht
  · obtain rfl := Option.some.inj ht
    decide +kernel
  · obtain rfl := Option.some.inj ht
    decide +kernel
  · obtain rfl := Option.some.inj ht
    decide +kernel
  · exact hrole t ht

theorem sound_afgo {topic : Text} {operation : Option Text} {style : Style} {t : Table}
    (h : Afgo.method topic operation = some (style, t)) :
    Table.Sound style t ∧ Table.Sound style (Agent.responseSent t) := by
  unfold Afgo.method at h
  split_ifs at h <;> obtain ⟨rfl, rfl⟩ := Prod.mk.inj (Option.some.inj h) <;> decide +kernel

theorem sound_method {agent : Agent} {topic data : Text} {style : Style} {t : Table}
    (h : agent.method topic data = some (style, t)) :
    Table.Sound style t ∧ (agent.meansResponseSent topic = true →
      Table.Sound style (Agent.responseSent t)) := by
  cases agent with
  | acapy =>
    obtain ⟨⟨style', u⟩, hm, hu⟩ := Option.bind_eq_some_iff.mp h
    obtain ⟨u, rfl, hstyle⟩ := Option.map_eq_some_iff.mp hu
    obtain ⟨rfl, rfl⟩ := Prod.mk.inj hstyle
    exact ⟨sound_acapy hm, fun hsent => absurd hsent (by simp [Agent.meansResponseSent])⟩
  | afgo operation => exact ⟨(sound_afgo h).1, fun _ => (sound_afgo h).2⟩

theorem tableEntry_of_mem {t : Table} (hnodup : (t.map Prod.fst).Nodup) {oldState newState : Text}
    (h : (oldState, newState) ∈ t) :
    tableEntry t (.str (ofText oldState)) = .ok (oldState, newState) := by
  induction t with
  | nil => simp at h
  | cons e t ih =>
    obtain ⟨he, hnodup⟩ := List.nodup_cons.mp hnodup
    rcases List.mem_cons.mp h with rfl | h
    · simp [tableEntry]
    · have hne : e.1 ≠ oldState := by
        intro heq
        exact he (heq ▸ List.mem_map_of_mem (f := Prod.fst) h)
      have ih := ih hnodup h
      simp only [tableEntry, ofText_inj] at ih ⊢
      rw [List.find?_cons_of_neg (by simpa using hne)]
      exact ih

theorem infix_pattern (style : Style) (s : Text) : s <:+: pattern style s := by
  cases style with
  | bare => exact List.infix_rfl
  | stateValue => exact ⟨_, ['"'], rfl⟩

theorem pattern_ne_nil (style : Style) {s : Text} (h : s ≠ []) : pattern style s ≠ [] := by
  intro hp
  have := infix_pattern style s
  rw [hp, List.infix_nil] at this
  exact h this

theorem replaceState_of_absent (style : Style) {oldState data : Text} (hne : oldState ≠ [])
    (h : ¬ oldState <:+: data) (newState : Text) :
    replaceState style oldState newState data = data :=
  replace_of_absent _ ((occurrences_eq_zero_iff (pattern_ne_nil style hne)).mpr fun hp =>
    h ((infix_pattern style oldState).trans hp))

section Translate

variable {topic data : Text} {ms : List (Str × Json)} {oldState newState : Text}

theorem acapy_eq {style : Style} {t : Table} (hload : loads data = .ok (.obj ms))
    (hstate : lookup ("state" : Str) ms = some (.str (ofText oldState)))
    (hmethod : Acapy.method topic data = some (style, some t))
    (hentry : tableEntry t (.str (ofText oldState)) = .ok (oldState, newState)) :
    Acapy.agentStateTranslation topic data = .ok (replaceState style oldState newState data) := by
  simp only [Acapy.agentStateTranslation, hload, Json.contains_of_lookup hstate,
    Json.item_of_lookup hstate, hmethod, hentry, bind, pure, Except.bind, Except.pure, if_true]

theorem afgo_eq {operation : Option Text} {style : Style} {t : Table}
    (hload : loads data = .ok (.obj ms))
    (hstate : lookup ("state" : Str) ms = some (.str (ofText oldState)))
    (hmethod : Afgo.method topic operation = some (style, t))
    (hentry : tableEntry t (.str (ofText oldState)) = .ok (oldState, newState)) :
    Afgo.agentStateTranslation topic operation data =
      .ok (if Afgo.swapsCompleted topic operation data then completedSwap.apply data
        else replaceState style oldState newState data) := by
  simp only [Afgo.agentStateTranslation, hload, Json.contains_of_lookup hstate,
    Json.item_of_lookup hstate, hmethod, hentry, bind, pure, Except.bind, Except.pure, if_true]
  split <;> rfl

/-- The translation of a state of the table is the replacement. -/
theorem translate_eq {agent : Agent} {t : Table} (hload : loads data = .ok (.obj ms))
    (hstate : lookup ("state" : Str) ms = some (.str (ofText oldState)))
    (htable : agent.stateTable topic data = some t) (hentry : (oldState, newState) ∈ t) :
    agent.translate topic data =
      .ok ((agent.replacement topic data oldState newState).apply data) := by
  obtain ⟨⟨style, u⟩, hmethod, htu⟩ := Option.map_eq_some_iff.mp htable
  obtain ⟨sound, -⟩ := sound_method hmethod
  cases agent with
  | acapy =>
    obtain rfl : u = t := htu
    obtain ⟨⟨style', u'⟩, hm, hu⟩ := Option.bind_eq_some_iff.mp hmethod
    obtain ⟨u', rfl, hstyle⟩ := Option.map_eq_some_iff.mp hu
    obtain ⟨rfl, rfl⟩ := Prod.mk.inj hstyle
    rw [Agent.translate, acapy_eq hload hstate hm (tableEntry_of_mem sound.1 hentry),
      Agent.replacement, hmethod, if_neg (by simp [Agent.swaps]), replacementOf_apply]
  | afgo operation =>
    rw [Agent.replacement, hmethod, Agent.translate, Agent.swaps]
    have hmem : (oldState, newState) ∈ u ∨ ∃ e ∈ u, e.1 = "completed".toList ∧
        oldState = "completed".toList ∧
        (Agent.afgo operation).meansResponseSent topic = true := by
      split at htu
      · next hsent =>
        rw [← htu] at hentry
        obtain ⟨e, he, hpair⟩ := List.mem_map.mp hentry
        split at hpair
        · next hcompleted =>
          exact .inr ⟨e, he, hcompleted, (Prod.mk.inj hpair).1 ▸ hcompleted, hsent⟩
        · exact .inl (hpair ▸ he)
      · rw [← htu] at hentry
        exact .inl hentry
    rcases hmem with hmem | ⟨⟨old, new⟩, hmem, rfl, rfl, hsent⟩
    · rw [afgo_eq hload hstate hmethod (tableEntry_of_mem sound.1 hmem)]
      split
      · rfl
      · rw [replacementOf_apply]
    · rw [afgo_eq hload hstate hmethod (tableEntry_of_mem sound.1 hmem)]
      split
      · rfl
      · next hswap =>
        -- the text of the data may spell the state with an escape
        have habsent : ¬ "completed".toList <:+: data := by
          intro hin
          have hisIn : isIn "completed".toList data = true := decide_eq_true hin
          rw [Afgo.swapsCompleted, hisIn, Bool.and_true] at hswap
          exact hswap hsent
        have hne : "completed".toList ≠ [] := by decide
        rw [replacementOf_apply, replaceState_of_absent style hne habsent,
          replaceState_of_absent style hne habsent]

end Translate

theorem old_eq_new_iff (ρ : Replacement) : ρ.old = ρ.new ↔ oldWord ρ = newWord ρ := by
  cases ρ with
  | inStrings old new => exact Iff.rfl
  | ofMember name old new => simp [Replacement.old, Replacement.new, memberText, quoted, oldWord,
      newWord]

theorem spells_of_turns {ρ : Replacement} {l : Label}
    (h : Replacement.Turns ρ l (oldWord ρ) (newWord ρ)) : Spells ρ l (oldWord ρ) := by
  cases ρ with
  | inStrings old new => exact rfl
  | ofMember name old new => exact ⟨h.1, h.2.1, h.2.2.1, rfl⟩

theorem turning_oldWord {ρ : Replacement} (proper : ρ.Proper) : turning ρ (oldWord ρ) = 1 := by
  cases ρ with
  | inStrings old new => exact occurrences_self proper.1
  | ofMember name old new => rfl

section Replace

variable {ρ : Replacement} (proper : ρ.Proper) {data : Text} {ms : List (Str × Json)}
  (hload : loads data = .ok (.obj ms))
include proper hload

/-- Where the word of the pattern is the state, the replacement is right when it is safe. -/
theorem loads_apply_of_safe (hstate : lookup ("state" : Str) ms = some (.str (ofText (oldWord ρ))))
    (safe : Safe ρ data) :
    loads (ρ.apply data) = .ok (.obj (assign "state" (.str (ofText (newWord ρ))) ms)) := by
  rcases safe with hsame | ⟨hspelled, once⟩
  · have happly : ρ.apply data = data := by
      rw [Replacement.apply, ← hsame, replace_self (old_ne_nil proper)]
    have hword := (old_eq_new_iff ρ).mp hsame
    rw [happly, hload, assign_eq_self (hword ▸ hstate)]
  · exact loads_apply_of_spelled proper hload hspelled once

theorem safe_of_loads_apply (plain : PlainJson data)
    (hstate : lookup ("state" : Str) ms = some (.str (ofText (oldWord ρ))))
    (h : loads (ρ.apply data) = .ok (.obj (assign "state" (.str (ofText (newWord ρ))) ms))) :
    Safe ρ data := by
  rcases eq_or_ne ρ.old ρ.new with hsame | hne
  · exact .inl hsame
  · have hwords := fun he => hne ((old_eq_new_iff ρ).mpr he)
    obtain ⟨before, members, after, l, hparse, he, turns, hcount⟩ :=
      turned_of_loads proper hne plain hload hstate hwords h
    rw [turning_oldWord proper] at hcount
    exact .inr ⟨spelled_iff.mpr ⟨before, members, after, l, _, hparse, he, spells_of_turns turns⟩,
      hcount⟩

end Replace

/-! The swap of a completed connection. -/

theorem proper_completedSwap : completedSwap.Proper := by decide

theorem completed_of_mem {topic : Text} {operation : Option Text} {style : Style} {t : Table}
    (h : Afgo.method topic operation = some (style, t)) :
    ∀ e ∈ t, e.1 = "completed".toList ∨ occurrences "completed".toList e.1 = 0 := by
  unfold Afgo.method at h
  split_ifs at h <;> obtain ⟨rfl, rfl⟩ := Prod.mk.inj (Option.some.inj h) <;> decide

/-- What is replaced: the state by its entry, or the word for a completed connection. -/
theorem replacement_cases {agent : Agent} {topic data oldState newState : Text} {t : Table}
    (htable : agent.stateTable topic data = some t) (hentry : (oldState, newState) ∈ t) :
    (agent.replacement topic data oldState newState).Proper ∧
    (oldWord (agent.replacement topic data oldState newState) = oldState ∧
      newWord (agent.replacement topic data oldState newState) = newState ∨
    agent.replacement topic data oldState newState = completedSwap ∧
      "completed".toList <:+: data ∧ occurrences "completed".toList oldState = 0) := by
  obtain ⟨⟨style, u⟩, hmethod, htu⟩ := Option.map_eq_some_iff.mp htable
  obtain ⟨sound, soundSent⟩ := sound_method hmethod
  have properEntry : (replacementOf style oldState newState).Proper := by
    split at htu
    · next hsent =>
      rw [← htu] at hentry
      exact (soundSent hsent).2 _ hentry
    · rw [← htu] at hentry
      exact sound.2 _ hentry
  unfold Agent.replacement
  split
  · next hswap =>
    refine ⟨proper_completedSwap, ?_⟩
    cases agent with
    | acapy => exact absurd hswap (by simp [Agent.swaps])
    | afgo operation =>
      have hswap' : (Agent.afgo operation).meansResponseSent topic = true ∧
          isIn "completed".toList data = true := Bool.and_eq_true_iff.mp hswap
      rw [if_pos hswap'.1] at htu
      rw [← htu] at hentry
      obtain ⟨e, he, hpair⟩ := List.mem_map.mp hentry
      rcases completed_of_mem hmethod e he with hcompleted | habsent
      · rw [if_pos hcompleted] at hpair
        obtain ⟨rfl, rfl⟩ := Prod.mk.inj hpair
        exact .inl ⟨hcompleted.symm, rfl⟩
      · have hne : e.1 ≠ "completed".toList := by
          intro heq
          rw [heq] at habsent
          exact absurd habsent (by decide)
        rw [if_neg hne] at hpair
        subst hpair
        exact .inr ⟨rfl, of_decide_eq_true hswap'.2, habsent⟩
  · rw [hmethod]
    exact ⟨properEntry, .inl (words_replacementOf style oldState newState)⟩

/-- Where the data speak of a completed connection and the state does not, the swap is wrong. -/
theorem not_loads_completedSwap {data oldState newState : Text} {ms : List (Str × Json)}
    (plain : PlainJson data) (hload : loads data = .ok (.obj ms))
    (hstate : lookup ("state" : Str) ms = some (.str (ofText oldState)))
    (hin : "completed".toList <:+: data) (habsent : occurrences "completed".toList oldState = 0) :
    loads (completedSwap.apply data) ≠
      .ok (.obj (assign "state" (.str (ofText newState)) ms)) := by
  intro h
  have proper := proper_completedSwap
  have hne : completedSwap.old ≠ completedSwap.new := by decide
  rcases eq_or_ne oldState newState with rfl | hstates
  · rw [assign_eq_self hstate] at h
    have hms : ms ≠ [] := by
      rintro rfl
      exact absurd hstate (by simp)
    have hnone := absent_of_loads proper hne plain hload hms h
    exact (occurrences_eq_zero_iff (old_ne_nil proper)).mp hnone hin
  · obtain ⟨-, -, -, l, -, -, turns, -⟩ :=
      turned_of_loads proper hne plain hload hstate hstates h
    have hreplace : replace "completed".toList "response-sent".toList oldState = newState := turns
    rw [replace_of_absent _ habsent] at hreplace
    exact hstates hreplace

/-- The translation changes the state alone if the pattern is safe; on a text without escapes
and repeated names only then. -/
theorem agentStateTranslation_iff_safe (agent : Agent) (topic data : Text)
    (ms : List (Str × Json)) (oldState newState : Text) (t : Table)
    (hload : loads data = .ok (.obj ms))
    (hstate : lookup ("state" : Str) ms = some (.str (ofText oldState)))
    (htable : agent.stateTable topic data = some t) (hentry : (oldState, newState) ∈ t) :
    (Safe (agent.replacement topic data oldState newState) data →
      Translated agent topic data ms newState) ∧
    (PlainJson data → (Translated agent topic data ms newState ↔
      Safe (agent.replacement topic data oldState newState) data)) := by
  have htranslated : Translated agent topic data ms newState ↔
      loads ((agent.replacement topic data oldState newState).apply data) =
        .ok (.obj (assign "state" (.str (ofText newState)) ms)) := by
    rw [Translated, translate_eq hload hstate htable hentry]
    simp only [Except.ok.injEq, exists_eq_left']
  obtain ⟨proper, ⟨hold, hnew⟩ | ⟨hswap, hin, habsent⟩⟩ := replacement_cases htable hentry
  · have hstate' := hstate
    rw [← hold] at hstate'
    rw [htranslated]
    have hright := loads_apply_of_safe proper hload hstate'
    have hsafe := fun plain => safe_of_loads_apply proper hload plain hstate'
    rw [hnew] at hright hsafe
    exact ⟨hright, fun plain => ⟨hsafe plain, hright⟩⟩
  · rw [htranslated, hswap]
    have hunsafe : ¬ Safe completedSwap data := by
      rintro (hsame | ⟨hspelled, -⟩)
      · exact absurd hsame (by decide)
      · have hcompleted := lookup_of_spelled proper_completedSwap hload hspelled
        rw [hstate, Option.some.injEq, Json.str.injEq, ofText_inj] at hcompleted
        rw [hcompleted] at habsent
        exact absurd habsent (by decide)
    exact ⟨fun safe => absurd safe hunsafe, fun plain =>
      ⟨fun h => absurd h (not_loads_completedSwap plain hload hstate hin habsent),
        fun safe => absurd safe hunsafe⟩⟩

/-- A connection that is complete: the word stands in its state alone. -/
theorem active_connection_translated :
    Translated .acapy "connection".toList
      "\x7b\"state\": \"active\", \"connection_id\": \"c1\"\x7d".toList
      [("state", .str ("active" : Str)), ("connection_id", .str ("c1" : Str))]
      "complete".toList :=
  (agentStateTranslation_iff_safe .acapy "connection".toList
    "\x7b\"state\": \"active\", \"connection_id\": \"c1\"\x7d".toList
    [("state", .str ("active" : Str)), ("connection_id", .str ("c1" : Str))]
    "active".toList "complete".toList Acapy.connectionStateTranslationDict
    (by decide +kernel) (by decide +kernel) (by decide +kernel) (by decide +kernel)).1
    (by decide +kernel)

/-- A connection request: its `rfc23_state` begins with the word for its state. -/
theorem requested_connection_not_translated :
    ¬ ∀ (agent : Agent) (topic data : Text) (ms : List (Str × Json)) (oldState newState : Text)
      (t : Table), loads data = .ok (.obj ms) →
      lookup ("state" : Str) ms = some (.str (ofText oldState)) →
      agent.stateTable topic data = some t → (oldState, newState) ∈ t →
        Translated agent topic data ms newState := by
  intro h
  obtain ⟨text, htext, hload⟩ := h .acapy "connection".toList
    "\x7b\"state\": \"request\", \"rfc23_state\": \"request-received\"\x7d".toList
    [("state", .str ("request" : Str)), ("rfc23_state", .str ("request-received" : Str))]
    "request".toList "requested".toList Acapy.connectionStateTranslationDict
    (by decide +kernel) (by decide +kernel) (by decide +kernel) (by decide +kernel)
  have htranslate : Agent.acapy.translate "connection".toList
      "\x7b\"state\": \"request\", \"rfc23_state\": \"request-received\"\x7d".toList =
      .ok "\x7b\"state\": \"requested\", \"rfc23_state\": \"requested-received\"\x7d".toList := by
    decide +kernel
  obtain rfl := Except.ok.inj (htranslate.symm.trans htext)
  exact absurd hload (by decide +kernel)

end AgentTestHarness.StateReplacement
