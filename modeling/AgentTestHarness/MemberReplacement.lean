import AgentTestHarness.JsonReplacedValue

/-! When a textual replacement changes just the value of one member of an object text: exactly
when the member is spelled as the pattern and the pattern occurs once. -/
namespace AgentTestHarness.MemberReplacement
open PyText OrderedDict PyJson JsonText JsonReading JsonMember JsonReplacing JsonReplacedValue

/-- The text of the value that is replaced, and of the one that replaces it. -/
def oldWord : Replacement → Text
  | .inStrings old _ => old
  | .ofMember _ old _ => old

def newWord : Replacement → Text
  | .inStrings _ new => new
  | .ofMember _ _ new => new

/-- A member with the value `s` has the spelling of the pattern. -/
def Spells : Replacement → Label → Text → Prop
  | .inStrings old _, _, s => s = old
  | .ofMember name old _, l, s =>
    l.raw = name ∧ l.afterKey = [] ∧ l.beforeValue = [' '] ∧ s = old

instance (ρ : Replacement) (l : Label) (s : Text) : Decidable (Spells ρ l s) :=
  match ρ with
  | .inStrings old _ => inferInstanceAs (Decidable (s = old))
  | .ofMember name old _ => inferInstanceAs (Decidable (l.raw = name ∧ l.afterKey = [] ∧
      l.beforeValue = [' '] ∧ s = old))

/-- The member that gives an object text the value of a name has the spelling of the pattern. -/
def spelled (ρ : Replacement) (name : Str) (data : Text) : Bool :=
  match parse data with
  | some ⟨_, .object ms, _⟩ => match effective name ms with
    | some (l, .string s) => Spells ρ l s
    | _ => false
  | _ => false

theorem spelled_iff {ρ : Replacement} {name : Str} {data : Text} :
    spelled ρ name data = true ↔ ∃ before ms after l s,
      parse data = some ⟨before, .object ms, after⟩ ∧ effective name ms = some (l, .string s) ∧
        Spells ρ l s := by
  constructor
  · intro h
    unfold spelled at h
    split at h
    · next before ms after hd =>
      split at h
      · next l s he => exact ⟨before, ms, after, l, s, hd, he, of_decide_eq_true h⟩
      · exact absurd h (by simp)
    · exact absurd h (by simp)
  · rintro ⟨before, ms, after, l, s, hd, he, hs⟩
    simp [spelled, hd, he, hs]

/-- The document with another value in the place of the member's. -/
def withValue (name : Str) (before after : Text) (ms : Members) (s : Text) : Document :=
  ⟨before, .object (setEffective name (.string s) ms), after⟩

/-- The member in the text of the document. -/
theorem render_withValue {name : Str} {ms : Members} {l : Label} {t : Tree}
    (lexical : ms.Lexical) (he : effective name ms = some (l, t)) (before after : Text) :
    ∃ a c pad e b, (c = '{' ∨ c = ',') ∧ (e = ',' ∨ e = '}') ∧ Pad pad ∧
      ∀ s, (withValue name before after ms s).render =
        a ++ c :: (l.render ++ quoted s ++ pad ++ e :: b) := by
  obtain ⟨a, c, pad, e, b, hc, hend, hpad, hrender⟩ :=
    render_setEffective name ms '{' he lexical
  refine ⟨before ++ a, c, pad, e, b ++ after, hc, hend, hpad, fun s => ?_⟩
  have hmembers := hrender (.string s)
  rw [Tree.render] at hmembers
  calc (withValue name before after ms s).render
      = before ++ '{' :: ((setEffective name (.string s) ms).render ++ ['}']) ++ after := rfl
    _ = before ++ (a ++ c :: (l.render ++ quoted s ++ pad ++ e :: b)) ++ after := by rw [hmembers]
    _ = _ := by simp

/-- The pattern and its replacement in the place of the member. -/
theorem spelled_split (before after : Text) {ρ : Replacement} {name : Str} {ms : Members}
    {l : Label} {s : Text} (lexical : ms.Lexical) (he : effective name ms = some (l, .string s))
    (hs : Spells ρ l s) :
    ∃ pre post, (withValue name before after ms s).render = pre ++ ρ.old ++ post ∧
      (withValue name before after ms (newWord ρ)).render = pre ++ ρ.new ++ post := by
  obtain ⟨a, c, pad, e, b, -, -, -, hdoc⟩ := render_withValue lexical he before after
  cases ρ with
  | inStrings old new =>
    obtain rfl : s = old := hs
    refine ⟨a ++ c :: (l.render ++ ['"']), '"' :: (pad ++ e :: b), ?_, ?_⟩
    · rw [hdoc]
      simp [quoted, Replacement.old]
    · rw [hdoc]
      simp [quoted, Replacement.new, newWord]
  | ofMember n old new =>
    obtain ⟨rfl, hkey, hvalue, rfl⟩ := hs
    refine ⟨a ++ c :: l.before, pad ++ e :: b, ?_, ?_⟩
    · rw [hdoc]
      simp [Label.render, hkey, hvalue, Replacement.old, memberText]
    · rw [hdoc]
      simp [Label.render, hkey, hvalue, Replacement.new, newWord, memberText]

theorem plain_newWord {ρ : Replacement} (proper : ρ.Proper) : PlainText (newWord ρ) := by
  cases ρ with
  | inStrings old new => exact proper.2.2.2.1
  | ofMember name old new => exact proper.2.2.2.1

theorem plain_oldWord {ρ : Replacement} (proper : ρ.Proper) : PlainText (oldWord ρ) := by
  cases ρ with
  | inStrings old new => exact proper.2.2.2.2
  | ofMember name old new => exact proper.2.2.1

theorem spells_word {ρ : Replacement} {l : Label} {s : Text} (h : Spells ρ l s) :
    s = oldWord ρ := by
  cases ρ with
  | inStrings old new => exact h
  | ofMember name old new => exact h.2.2.2

theorem pairs_of_loads {data before after : Text} {members : Members} {ms : List (Str × Json)}
    (hdata : data = (Document.mk before (.object members) after).render)
    (lexical : (Document.mk before (.object members) after).Lexical)
    (hload : loads data = .ok (.obj ms)) : ∃ ps, members.pairs = some ps ∧ dict ps = ms := by
  have := (loads_render lexical).mp (hdata ▸ hload)
  rw [Tree.value] at this
  obtain ⟨ps, hps, hdict⟩ := Option.map_eq_some_iff.mp this
  exact ⟨ps, hps, by simpa using hdict⟩

/-- The value under the name is the word that is replaced. -/
theorem lookup_of_spelled {ρ : Replacement} (proper : ρ.Proper) {name : Str} {data : Text}
    {ms : List (Str × Json)} (hload : loads data = .ok (.obj ms))
    (hs : spelled ρ name data = true) : lookup name ms = some (.str (ofText (oldWord ρ))) := by
  obtain ⟨before, members, after, l, s, hparse, he, hspells⟩ := spelled_iff.mp hs
  obtain ⟨hdata, lexical⟩ := parse_render hparse
  obtain ⟨ps, hps, rfl⟩ := pairs_of_loads hdata lexical hload
  obtain rfl := spells_word hspells
  exact lookup_dict name he hps (by rw [Tree.value, decode_of_plain (plain_oldWord proper)]; rfl)

/-- A member with the spelling of a pattern that occurs once is all that changes. -/
theorem loads_apply_of_spelled {ρ : Replacement} (proper : ρ.Proper) {name : Str} {data : Text}
    {ms : List (Str × Json)} (hload : loads data = .ok (.obj ms))
    (hs : spelled ρ name data = true) (once : occurrences ρ.old data = 1) :
    loads (ρ.apply data) = .ok (.obj (assign name (.str (ofText (newWord ρ))) ms)) := by
  obtain ⟨before, members, after, l, s, hparse, he, hspells⟩ := spelled_iff.mp hs
  obtain ⟨hdata, lexical⟩ := parse_render hparse
  obtain ⟨pre, post, hold, hnew⟩ := spelled_split before after lexical.tree he hspells
  have hself : withValue name before after members s = ⟨before, .object members, after⟩ := by
    rw [withValue, setEffective_self name members he]
  rw [hself, ← hdata] at hold
  have happly : ρ.apply data = (withValue name before after members (newWord ρ)).render := by
    rw [hnew, Replacement.apply, hold]
    exact replace_of_once (old_ne_nil proper) _ _ _ (hold ▸ once)
  have hplain := plain_newWord proper
  have hvalue : (Tree.string (newWord ρ)).value = some (.str (ofText (newWord ρ))) := by
    rw [Tree.value, decode_of_plain hplain, Option.map_some]
  have hlexical : (Tree.string (newWord ρ)).Lexical := closed_plain hplain
  obtain ⟨ps, hps, rfl⟩ := pairs_of_loads hdata lexical hload
  have hdoc : (withValue name before after members (newWord ρ)).Lexical :=
    ⟨lexical.before, lexical_setEffective name hlexical members lexical.tree, lexical.after⟩
  rw [happly]
  exact (loads_render hdoc).mpr (value_setEffective name hvalue hps (by rw [he]; rfl))

/-! The converse, on texts without escapes in which no object repeats a name. -/

mutual
def Distinct : Tree → Prop
  | .word _ | .string _ | .emptyArray _ | .emptyObject _ => True
  | .array items => DistinctItems items
  | .object members => (names members).Nodup ∧ DistinctMembers members
def DistinctItems : Items → Prop
  | .last _ t _ => Distinct t
  | .more _ t _ rest => Distinct t ∧ DistinctItems rest
def DistinctMembers : Members → Prop
  | .last _ t _ => Distinct t
  | .more _ t _ rest => Distinct t ∧ DistinctMembers rest
end

/-- No backslash in the text, no name twice in an object. -/
structure PlainJson (data : Text) : Prop where
  unescaped : '\\' ∉ data
  distinct : ∀ d, parse data = some d → Distinct d.tree

theorem quote_not_mem_of_closed {raw : Text} (h : Closed raw) (hescape : '\\' ∉ raw) :
    '"' ∉ raw := by
  intro hm
  obtain ⟨a, b, rfl, ha⟩ := List.eq_append_cons_of_mem hm
  have hplain : ∀ c ∈ a, c ≠ '"' ∧ c ≠ '\\' := fun c hc =>
    ⟨fun he => ha (he ▸ hc), fun he => hescape (he ▸ List.mem_append_left _ hc)⟩
  have hscan := closed_of_plain hplain (b ++ '"' :: [])
  have := h []
  rw [List.append_assoc, List.cons_append, hscan] at this
  have hlen := congrArg List.length (Prod.mk.inj (Option.some.inj this)).1
  rw [List.length_append, List.length_cons] at hlen
  omega

theorem no_control_of_decode {raw : Text} {s : Str} (h : decode raw = some s)
    (hescape : '\\' ∉ raw) : ∀ c ∈ raw, ¬ c < ' ' := by
  obtain ⟨ps, hps, -⟩ := Option.map_eq_some_iff.mp h
  clear h
  induction raw generalizing ps with
  | nil => simp
  | cons c raw ih =>
    rw [List.mem_cons, not_or] at hescape
    rw [pieces_cons (Ne.symm hescape.1)] at hps
    split at hps
    · exact absurd hps (by simp)
    · next hc =>
      obtain ⟨qs, hqs, -⟩ := Option.map_eq_some_iff.mp hps
      exact List.forall_mem_cons.mpr ⟨hc, ih hescape.2 qs hqs⟩

theorem plain_of_decode {raw : Text} {s : Str} (h : decode raw = some s) (hclosed : Closed raw)
    (hescape : '\\' ∉ raw) : PlainText raw := fun c hc =>
  ⟨fun he => quote_not_mem_of_closed hclosed hescape (he ▸ hc), fun he => hescape (he ▸ hc),
    no_control_of_decode h hescape c hc⟩

mutual
theorem simple_tree : (t : Tree) → t.Lexical → '\\' ∉ t.render → {v : Json} →
    t.value = some v → Distinct t → Simple t
  | .word _, _, _, v, hv, _ => ⟨v, hv⟩
  | .string raw, lexical, hescape, _, hv, _ => by
    obtain ⟨s, hs, -⟩ := Option.map_eq_some_iff.mp hv
    refine plain_of_decode hs lexical fun hm => hescape ?_
    simp [Tree.render, quoted, hm]
  | .emptyArray _, _, _, _, _, _ => trivial
  | .array items, lexical, hescape, _, hv, distinct => by
    obtain ⟨vs, hvs, -⟩ := Option.map_eq_some_iff.mp hv
    refine simple_items items lexical (fun hm => hescape ?_) hvs distinct
    simp [Tree.render, hm]
  | .emptyObject _, _, _, _, _, _ => trivial
  | .object members, lexical, hescape, _, hv, distinct => by
    obtain ⟨ps, hps, -⟩ := Option.map_eq_some_iff.mp hv
    refine ⟨distinct.1, simple_members members lexical (fun hm => hescape ?_) hps distinct.2⟩
    simp [Tree.render, hm]
theorem simple_items : (items : Items) → items.Lexical → '\\' ∉ items.render →
    {vs : List Json} → items.values = some vs → DistinctItems items → SimpleItems items
  | .last before t after, lexical, hescape, _, hv, distinct => by
    obtain ⟨v, ht, -⟩ := Option.map_eq_some_iff.mp hv
    refine simple_tree t lexical.2.1 (fun hm => hescape ?_) ht distinct
    simp [Items.render, hm]
  | .more before t after rest, lexical, hescape, _, hv, distinct => by
    obtain ⟨v, ht, hv⟩ := Option.bind_eq_some_iff.mp hv
    obtain ⟨vs, hvs, -⟩ := Option.map_eq_some_iff.mp hv
    refine ⟨simple_tree t lexical.2.1 (fun hm => hescape ?_) ht distinct.1,
      simple_items rest lexical.2.2.2 (fun hm => hescape ?_) hvs distinct.2⟩ <;>
    simp [Items.render, hm]
theorem simple_members : (members : Members) → members.Lexical → '\\' ∉ members.render →
    {ps : List (Str × Json)} → members.pairs = some ps → DistinctMembers members →
      SimpleMembers members
  | .last l t after, lexical, hescape, _, hp, distinct => by
    obtain ⟨k, v, hk, ht, -⟩ := pairs_last.mp hp
    refine ⟨plain_of_decode hk lexical.1.raw fun hm => hescape ?_,
      simple_tree t lexical.2.1 (fun hm => hescape ?_) ht distinct⟩ <;>
    simp [Members.render, Label.render, quoted, hm]
  | .more l t after rest, lexical, hescape, _, hp, distinct => by
    obtain ⟨k, v, ps, hk, ht, hps, -⟩ := pairs_more.mp hp
    refine ⟨plain_of_decode hk lexical.1.raw fun hm => hescape ?_,
      simple_tree t lexical.2.1 (fun hm => hescape ?_) ht distinct.1,
      simple_members rest lexical.2.2.2 (fun hm => hescape ?_) hps distinct.2⟩ <;>
    simp [Members.render, Label.render, quoted, hm]
end

/-- An object text without escapes and repeated names has a simple tree of members. -/
theorem simple_of_plain {data : Text} {ms : List (Str × Json)} (plain : PlainJson data)
    (hload : loads data = .ok (.obj ms)) (hne : ms ≠ []) :
    ∃ before members after, parse data = some ⟨before, .object members, after⟩ ∧
      data = (Document.mk before (.object members) after).render ∧
      (Document.mk before (.object members) after).Lexical ∧ (names members).Nodup ∧
      SimpleMembers members ∧ members.pairs = some ms := by
  obtain ⟨⟨before, t, after⟩, rfl, lexical, hv⟩ := loads_ok hload
  have hparse := parse_of_render lexical
  have hescape : '\\' ∉ t.render := fun hm => plain.unescaped (by simp [Document.render, hm])
  have simple := simple_tree t lexical.tree hescape hv (plain.distinct _ hparse)
  cases t with
  | word w => exact absurd rfl ((readWord_atom hv).2 ms)
  | string raw => simp [Tree.value] at hv
  | emptyArray pad => simp [Tree.value] at hv
  | array items => simp [Tree.value] at hv
  | emptyObject pad => exact absurd (by simpa [Tree.value] using hv) hne.symm
  | object members =>
    obtain ⟨ps, hps, hdict⟩ := Option.map_eq_some_iff.mp hv
    rw [dict_of_simple simple.2 simple.1 hps] at hdict
    obtain rfl : ps = ms := by simpa using hdict
    exact ⟨before, members, after, hparse, rfl, lexical, simple.1, simple.2, hps⟩

/-- How often the pattern occurs in a member whose value is turned. -/
def turning : Replacement → Text → ℕ
  | .inStrings old _, s => occurrences old s
  | .ofMember _ _ _, _ => 1

theorem replace_member {name old new pad before : Text}
    (proper : (Replacement.ofMember name old new).Proper) (hbefore : Pad before) (hpad : Pad pad) :
    replace (memberText name old) (memberText name new)
      (before ++ memberText name old ++ pad) = before ++ memberText name new ++ pad ∧
    occurrences (memberText name old) (before ++ memberText name old ++ pad) = 1 := by
  have hquote : ∀ s, Pad s → '"' ∉ s := fun s hs hm => absurd (hs _ hm) (by decide)
  have hne : memberText name old ≠ [] := old_ne_nil proper
  have hpads : ∀ s b, Pad s → replace (memberText name old) (memberText name new) (s ++ b) =
      s ++ replace (memberText name old) (memberText name new) b :=
    fun s b hs => apply_pad proper hs b
  constructor
  · have hend : replace (memberText name old) (memberText name new) pad = pad := by
      simpa [replace, replaceFrom] using hpads pad [] hpad
    rw [List.append_assoc, hpads before _ hbefore, replace_append hne, hend, List.append_assoc]
  · exact occurrences_alone (hquote before hbefore) (hquote pad hpad) _

/-- If the replacement makes the object with another text under one name, the pattern stands in
the member of this name and nowhere else. -/
theorem turned_of_loads {ρ : Replacement} (proper : ρ.Proper) (hne : ρ.old ≠ ρ.new) {name : Str}
    {data : Text} {ms : List (Str × Json)} {s s' : Text} (plain : PlainJson data)
    (hload : loads data = .ok (.obj ms)) (hlookup : lookup name ms = some (.str (ofText s)))
    (hss : s ≠ s')
    (happly : loads (ρ.apply data) = .ok (.obj (assign name (.str (ofText s')) ms))) :
    ∃ before members after l, parse data = some ⟨before, .object members, after⟩ ∧
      effective name members = some (l, .string s) ∧ Replacement.Turns ρ l s s' ∧
      occurrences ρ.old data = turning ρ s := by
  have hnonempty : ms ≠ [] := by
    rintro rfl
    exact absurd hlookup (by simp)
  obtain ⟨before, members, after, hparse, hdata, lexical, hnodup, simple, hps⟩ :=
    simple_of_plain plain hload hnonempty
  obtain ⟨hrender, hlexical⟩ := apply_document proper lexical ⟨hnodup, simple⟩
  rw [hdata, hrender] at happly
  obtain ⟨qs, hqs, hdict⟩ := Option.map_eq_some_iff.mp ((loads_render hlexical).mp happly)
  have hlen : (assign name (.str (ofText s')) ms).length = ms.length := by
    rw [length_assign, if_pos (mem_keys_of_lookup hlookup)]
  obtain rfl := dict_of_inMembers hps hqs (by simpa using hdict) hlen
  obtain ⟨l, he, hset, turns⟩ :=
    only_effective proper hne hss members simple hnodup hps hlookup hqs
  refine ⟨before, members, after, l, hparse, he, turns, ?_⟩
  obtain ⟨a, c, pad, e, b, hc, hend, hpad, hdoc⟩ :=
    render_withValue lexical.tree he before after
  have hold : data = a ++ c :: (l.render ++ quoted s ++ pad ++ e :: b) := by
    rw [← hdoc s, withValue, setEffective_self name members he, hdata]
  have hnew : ρ.apply data = a ++ c :: (l.render ++ quoted s' ++ pad ++ e :: b) := by
    rw [← hdoc s', withValue, ← hset, hdata]
    exact hrender
  cases ρ with
  | inStrings old new =>
    have hquote : '"' ∉ old := fun hm => absurd (proper.2.1 _ hm) (by decide)
    have hsplit : ∀ u, a ++ c :: (l.render ++ quoted u ++ pad ++ e :: b) =
        (a ++ c :: l.render) ++ '"' :: (u ++ '"' :: (pad ++ e :: b)) := by
      intro u
      simp [quoted]
    rw [hsplit] at hold hnew
    rw [hold] at hnew ⊢
    exact occurrences_of_replace_middle proper.1 hne hquote hquote turns hnew
  | ofMember n old new =>
    obtain ⟨rfl, hkey, hvalue, rfl, rfl⟩ := turns
    have hsplit : ∀ u, a ++ c :: (l.render ++ quoted u ++ pad ++ e :: b) =
        a ++ c :: ((l.before ++ memberText l.raw u ++ pad) ++ e :: b) := by
      intro u
      simp [Label.render, hkey, hvalue, memberText]
    rw [hsplit] at hold hnew
    rw [hold] at hnew ⊢
    have hbefore := (effective_lexical name members lexical.tree he).before
    obtain ⟨hmember, hcount⟩ := replace_member proper hbefore hpad
    have habsent : ∀ d, d = '{' ∨ d = ',' ∨ d = '}' → d ∉ memberText l.raw old := by
      rintro d hd hm
      have hends : endsWord d = true := by rcases hd with rfl | rfl | rfl <;> decide
      have hword : ∀ w : Text, (∀ x ∈ w, endsWord x = false) → d ∉ w := fun w hw hx => by
        rw [hw d hx] at hends
        exact absurd hends (by simp)
      have hraw := hword l.raw proper.2.1
      have hstate := hword old proper.2.2.2.2
      rcases hd with rfl | rfl | rfl <;> simp [memberText, quoted, hraw, hstate] at hm
    calc occurrences (memberText l.raw old) _
        = occurrences (memberText l.raw old) (l.before ++ memberText l.raw old ++ pad) :=
          occurrences_of_replace_middle (old_ne_nil proper) hne
            (habsent c (hc.imp_right .inl)) (habsent e (.inr hend)) hmember hnew
      _ = 1 := hcount

/-- If the replacement keeps the object, it finds nothing. -/
theorem absent_of_loads {ρ : Replacement} (proper : ρ.Proper) (hne : ρ.old ≠ ρ.new) {data : Text}
    {ms : List (Str × Json)} (plain : PlainJson data) (hload : loads data = .ok (.obj ms))
    (hms : ms ≠ []) (happly : loads (ρ.apply data) = .ok (.obj ms)) :
    occurrences ρ.old data = 0 := by
  obtain ⟨before, members, after, hparse, hdata, lexical, hnodup, simple, hps⟩ :=
    simple_of_plain plain hload hms
  obtain ⟨hrender, hlexical⟩ := apply_document proper lexical ⟨hnodup, simple⟩
  have hvalue : (Tree.object members).value = some (.obj ms) :=
    (loads_render lexical).mp (hdata ▸ hload)
  rw [hdata, hrender] at happly
  have hvalue' := (loads_render hlexical).mp happly
  have hfixed := fixed_tree proper hne (.object members) ⟨hnodup, simple⟩ hvalue hvalue'
  refine occurrences_of_replace_eq (old_ne_nil proper) hne ?_
  have := hrender
  rw [hfixed, ← hdata] at this
  exact this

end AgentTestHarness.MemberReplacement
