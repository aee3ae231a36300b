import AgentTestHarness.JsonReplacing

/-! What a textual replacement does to the value of a JSON text without escapes and repeated
names: if the value is kept, nothing was replaced, and if just one member's value changes,
nothing else was replaced. -/
namespace AgentTestHarness.JsonReplacedValue
open PyText OrderedDict PyJson JsonText JsonReading JsonMember JsonReplacing

theorem joinPieces_lit (s : Text) : joinPieces (s.map Piece.lit) = ofText s := by
  induction s with
  | nil => rfl
  | cons c s ih =>
    rw [List.map_cons, joinPieces, ih]
    rfl

theorem pieces_of_plain {raw : Text} (h : PlainText raw) :
    pieces raw = some (raw.map Piece.lit) := by
  induction raw with
  | nil => rfl
  | cons c raw ih =>
    obtain ⟨hc, hraw⟩ := List.forall_mem_cons.mp h
    rw [pieces_cons hc.2.1, if_neg hc.2.2, ih hraw]
    rfl

theorem decode_of_plain {raw : Text} (h : PlainText raw) : decode raw = some (ofText raw) := by
  rw [decode, pieces_of_plain h, Option.map_some, joinPieces_lit]

theorem plain_replace {old new : Text} (hne : old ≠ []) (hnew : PlainText new) {s : Text}
    (h : PlainText s) : PlainText (replace old new s) := by
  induction s using replace_induction hne with
  | nil => exact h
  | here rest ih =>
    rw [replace_append hne]
    obtain ⟨-, hrest⟩ := List.forall_mem_append.mp h
    exact List.forall_mem_append.mpr ⟨hnew, ih hrest⟩
  | skip c cs hp ih =>
    rw [replace_cons_of_not hp]
    obtain ⟨hc, hcs⟩ := List.forall_mem_cons.mp h
    exact List.forall_mem_cons.mpr ⟨hc, ih hcs⟩

section Values

variable {ρ : Replacement} (proper : ρ.Proper)
include proper

theorem plain_inRaw {raw : Text} (h : PlainText raw) : PlainText (ρ.inRaw raw) := by
  cases ρ with
  | inStrings old new => exact plain_replace proper.1 proper.2.2.2.1 h
  | ofMember name old new => exact h

theorem decode_inRaw {raw : Text} (h : PlainText raw) :
    decode (ρ.inRaw raw) = some (ofText (ρ.inRaw raw)) := decode_of_plain (plain_inRaw proper h)

omit proper in
theorem closed_plain {raw : Text} (h : PlainText raw) : Closed raw :=
  closed_of_plain fun c hc => ⟨(h c hc).1, (h c hc).2.1⟩

omit proper in
/-- What a member that is replaced as a whole is: one of the replaced name and the old value,
written the way the member is written. -/
theorem hit_cases {l : Label} {t : Tree} {state : Text} (h : ρ.hit l t = some state) :
    ∃ name old, ρ = .ofMember name old state ∧ t = .string old ∧ l.raw = name ∧
      l.afterKey = [] ∧ l.beforeValue = [' '] := by
  cases ρ with
  | inStrings old new => simp [Replacement.hit] at h
  | ofMember name old new =>
    cases t with
    | string raw =>
      rw [Replacement.hit] at h
      split at h
      · next hcond =>
        obtain ⟨hname, hkey, hvalue, rfl⟩ := hcond
        obtain rfl := Option.some.inj h
        exact ⟨name, raw, rfl, rfl, hname, hkey, hvalue⟩
      · exact absurd h (by simp)
    | _ => simp [Replacement.hit] at h

theorem plain_hit {l : Label} {t : Tree} {state : Text} (h : ρ.hit l t = some state) :
    PlainText state := by
  obtain ⟨name, old, rfl, -⟩ := hit_cases h
  exact proper.2.2.2.1

theorem lexical_inLabel {l : Label} (h : l.Lexical) (hraw : PlainText l.raw) :
    (ρ.inLabel l).Lexical :=
  ⟨h.before, closed_plain (plain_inRaw proper hraw), h.afterKey, h.beforeValue⟩

theorem lexical_value {l : Label} {t : Tree} (h : (ρ.inTree t).Lexical) :
    (((ρ.hit l t).map Tree.string).getD (ρ.inTree t)).Lexical := by
  cases hh : ρ.hit l t with
  | none => exact h
  | some state => exact closed_plain (plain_hit proper hh)

end Values

mutual
theorem lexical_inTree {ρ : Replacement} (proper : ρ.Proper) : (t : Tree) → t.Lexical →
    Simple t → (ρ.inTree t).Lexical
  | .word _, lexical, _ => lexical
  | .string _, _, simple => closed_plain (plain_inRaw proper simple)
  | .emptyArray _, lexical, _ => lexical
  | .emptyObject _, lexical, _ => lexical
  | .array items, lexical, simple => lexical_inItems proper items lexical simple
  | .object members, lexical, simple => lexical_inMembers proper members lexical simple.2
theorem lexical_inItems {ρ : Replacement} (proper : ρ.Proper) : (items : Items) →
    items.Lexical → SimpleItems items → (ρ.inItems items).Lexical
  | .last _ t _, lexical, simple =>
    ⟨lexical.1, lexical_inTree proper t lexical.2.1 simple, lexical.2.2⟩
  | .more _ t _ rest, lexical, simple =>
    ⟨lexical.1, lexical_inTree proper t lexical.2.1 simple.1, lexical.2.2.1,
      lexical_inItems proper rest lexical.2.2.2 simple.2⟩
theorem lexical_inMembers {ρ : Replacement} (proper : ρ.Proper) : (members : Members) →
    members.Lexical → SimpleMembers members → (ρ.inMembers members).Lexical
  | .last _ t _, lexical, simple =>
    ⟨lexical_inLabel proper lexical.1 simple.1,
      lexical_value proper (lexical_inTree proper t lexical.2.1 simple.2), lexical.2.2⟩
  | .more _ t _ rest, lexical, simple =>
    ⟨lexical_inLabel proper lexical.1 simple.1,
      lexical_value proper (lexical_inTree proper t lexical.2.1 simple.2.1), lexical.2.2.1,
      lexical_inMembers proper rest lexical.2.2.2 simple.2.2⟩
end

theorem keys_of_pairs : (ms : Members) → SimpleMembers ms → {ps : List (Str × Json)} →
    ms.pairs = some ps → ps.map Prod.fst = (names ms).map ofText
  | .last l t after, simple, ps, h => by
    obtain ⟨k, v, hk, -, rfl⟩ := pairs_last.mp h
    obtain rfl : ofText l.raw = k := by
      simpa [decode_of_plain simple.1] using hk
    rfl
  | .more l t after rest, simple, ps, h => by
    obtain ⟨k, v, qs, hk, -, hqs, rfl⟩ := pairs_more.mp h
    obtain rfl : ofText l.raw = k := by
      simpa [decode_of_plain simple.1] using hk
    rw [List.map_cons, keys_of_pairs rest simple.2.2 hqs]
    rfl

theorem length_pairs_inMembers {ρ : Replacement} : (ms : Members) →
    {ps qs : List (Str × Json)} → ms.pairs = some ps → (ρ.inMembers ms).pairs = some qs →
      qs.length = ps.length
  | .last l t after, ps, qs, h, h' => by
    obtain ⟨k, v, -, -, rfl⟩ := pairs_last.mp h
    obtain ⟨k', v', -, -, rfl⟩ := pairs_last.mp h'
    rfl
  | .more l t after rest, ps, qs, h, h' => by
    obtain ⟨k, v, ps', -, -, hps, rfl⟩ := pairs_more.mp h
    obtain ⟨k', v', qs', -, -, hqs, rfl⟩ := pairs_more.mp h'
    simp [length_pairs_inMembers rest hps hqs]

/-- Members without repeated names are the dictionary they make. -/
theorem dict_of_simple {ms : Members} (simple : SimpleMembers ms) (hnodup : (names ms).Nodup)
    {ps : List (Str × Json)} (h : ms.pairs = some ps) : dict ps = ps := by
  have hkeys : ((([] : List (Str × Json)) ++ ps).map Prod.fst).Nodup := by
    rw [List.nil_append, keys_of_pairs ms simple h]
    exact hnodup.map ofText_injective
  exact assignAll_of_nodup hkeys

/-- If the members after the replacement make a dictionary as long as before, they are it. -/
theorem dict_of_inMembers {ρ : Replacement} {ms : Members} {ps qs d : List (Str × Json)}
    (hps : ms.pairs = some ps) (hqs : (ρ.inMembers ms).pairs = some qs) (hd : dict qs = d)
    (hlen : d.length = ps.length) : qs = d := by
  have hlen' : (assignAll [] qs).length = ([] : List (Str × Json)).length + qs.length := by
    rw [length_pairs_inMembers ms hps hqs, ← hlen, ← hd]
    simp [dict, assignAll]
  have := assignAll_of_length hlen'
  rw [List.nil_append] at this
  exact this.symm.trans hd

theorem apply_render {ρ : Replacement} (proper : ρ.Proper) {d : Document} (lexical : d.Lexical)
    (taken : Taken ρ d.tree) :
    ρ.apply d.render = (Document.mk d.before (ρ.inTree d.tree) d.after).render := by
  have hfollow : Follow d.after := by
    intro c hc
    have hspace := lexical.after c (List.mem_of_mem_head? hc)
    refine ⟨by simp [endsWord, hspace], ?_, ?_⟩ <;>
    · rintro rfl
      exact absurd hspace (by decide)
  have hafter : ρ.apply d.after = d.after := by
    simpa [Replacement.apply, replace, replaceFrom] using apply_pad proper lexical.after []
  rw [Document.render, List.append_assoc, apply_pad proper lexical.before,
    apply_tree proper d.tree lexical.tree taken d.after hfollow, hafter]
  simp [Document.render]

/-- Replacing in the text of a document is replacing in its tree. -/
theorem apply_document {ρ : Replacement} (proper : ρ.Proper) {d : Document} (lexical : d.Lexical)
    (simple : Simple d.tree) :
    ρ.apply d.render = (Document.mk d.before (ρ.inTree d.tree) d.after).render ∧
      (Document.mk d.before (ρ.inTree d.tree) d.after).Lexical :=
  ⟨apply_render proper lexical (taken_of_simple d.tree simple), lexical.before,
    lexical_inTree proper d.tree lexical.tree simple, lexical.after⟩

/-- A member whose name and value are kept: nothing in it was replaced. -/
theorem fixed_label {ρ : Replacement} (proper : ρ.Proper) {l : Label} (hraw : PlainText l.raw)
    {k : Str} (hk : decode l.raw = some k) (hk' : decode (ρ.inLabel l).raw = some k) :
    ρ.inLabel l = l := by
  have hdecode : decode (ρ.inRaw l.raw) = some k := hk'
  rw [decode_of_plain hraw] at hk
  rw [decode_inRaw proper hraw, ← hk, Option.some.injEq, ofText_inj] at hdecode
  simp [Replacement.inLabel, hdecode]

/-- A member that is replaced as a whole changes its value. -/
theorem hit_value {ρ : Replacement} (proper : ρ.Proper) {l : Label} {t : Tree} {state : Text}
    (h : ρ.hit l t = some state) :
    ∃ name old new, ρ = .ofMember name old new ∧ state = new ∧ t = .string old ∧ l.raw = name ∧
      l.afterKey = [] ∧ l.beforeValue = [' '] ∧ t.value = some (.str (ofText old)) ∧
      (Tree.string state).value = some (.str (ofText new)) := by
  obtain ⟨name, old, rfl, rfl, hname, hkey, hvalue⟩ := hit_cases h
  refine ⟨name, old, state, rfl, rfl, rfl, hname, hkey, hvalue, ?_, ?_⟩
  · rw [Tree.value, decode_of_plain proper.2.2.1, Option.map_some]
  · rw [Tree.value, decode_of_plain proper.2.2.2.1, Option.map_some]

theorem hit_eq_none_of_value {ρ : Replacement} (proper : ρ.Proper) (hne : ρ.old ≠ ρ.new)
    {l : Label} {t : Tree} {v : Json} (hv : t.value = some v)
    (hv' : (((ρ.hit l t).map Tree.string).getD (ρ.inTree t)).value = some v) :
    ρ.hit l t = none := by
  cases h : ρ.hit l t with
  | none => rfl
  | some state =>
    obtain ⟨name, old, new, rfl, rfl, rfl, -, -, -, hold, hnew⟩ := hit_value proper h
    rw [h, Option.map_some, Option.getD_some, hnew] at hv'
    rw [hold, ← hv', Option.some.injEq, Json.str.injEq, ofText_inj] at hv
    exact absurd (by simp [Replacement.old, Replacement.new, hv]) hne

mutual
/-- Where the value is kept the tree is. -/
theorem fixed_tree {ρ : Replacement} (proper : ρ.Proper) (hne : ρ.old ≠ ρ.new) : (t : Tree) →
    Simple t → {v : Json} → t.value = some v → (ρ.inTree t).value = some v → ρ.inTree t = t
  | .word _, _, _, _, _ => rfl
  | .string raw, simple, v, hv, hv' => by
    have hraw : ρ.inRaw raw = raw := by
      have h : some (Json.str (ofText (ρ.inRaw raw))) = some (Json.str (ofText raw)) := by
        rw [Replacement.inTree, Tree.value, decode_inRaw proper simple, Option.map_some] at hv'
        rw [Tree.value, decode_of_plain simple, Option.map_some] at hv
        rw [hv', hv]
      simpa using h
    rw [Replacement.inTree, hraw]
  | .emptyArray _, _, _, _, _ => rfl
  | .emptyObject _, _, _, _, _ => rfl
  | .array items, simple, v, hv, hv' => by
    obtain ⟨vs, hvs, rfl⟩ := Option.map_eq_some_iff.mp hv
    obtain ⟨ws, hws, heq⟩ := Option.map_eq_some_iff.mp hv'
    obtain rfl : ws = vs := by simpa using heq
    rw [Replacement.inTree, fixed_items proper hne items simple hvs hws]
  | .object members, simple, v, hv, hv' => by
    obtain ⟨ps, hps, rfl⟩ := Option.map_eq_some_iff.mp hv
    obtain ⟨qs, hqs, heq⟩ := Option.map_eq_some_iff.mp hv'
    have hdict := dict_of_simple simple.2 simple.1 hps
    have hqp : qs = ps := dict_of_inMembers hps hqs (by simpa [hdict] using heq) rfl
    rw [Replacement.inTree, fixed_members proper hne members simple.2 hps (hqp ▸ hqs)]
theorem fixed_items {ρ : Replacement} (proper : ρ.Proper) (hne : ρ.old ≠ ρ.new) :
    (items : Items) → SimpleItems items → {vs : List Json} → items.values = some vs →
      (ρ.inItems items).values = some vs → ρ.inItems items = items
  | .last _ t _, simple, vs, hv, hv' => by
    obtain ⟨v, ht, rfl⟩ := Option.map_eq_some_iff.mp hv
    obtain ⟨w, ht', heq⟩ := Option.map_eq_some_iff.mp hv'
    obtain rfl : w = v := by simpa using heq
    rw [Replacement.inItems, fixed_tree proper hne t simple ht ht']
  | .more _ t _ rest, simple, vs, hv, hv' => by
    obtain ⟨v, ht, hv⟩ := Option.bind_eq_some_iff.mp hv
    obtain ⟨us, hrest, rfl⟩ := Option.map_eq_some_iff.mp hv
    obtain ⟨w, ht', hv'⟩ := Option.bind_eq_some_iff.mp hv'
    obtain ⟨ws, hrest', heq⟩ := Option.map_eq_some_iff.mp hv'
    obtain ⟨rfl, rfl⟩ := List.cons.inj heq
    rw [Replacement.inItems, fixed_tree proper hne t simple.1 ht ht',
      fixed_items proper hne rest simple.2 hrest hrest']
theorem fixed_members {ρ : Replacement} (proper : ρ.Proper) (hne : ρ.old ≠ ρ.new) :
    (ms : Members) → SimpleMembers ms → {ps : List (Str × Json)} → ms.pairs = some ps →
      (ρ.inMembers ms).pairs = some ps → ρ.inMembers ms = ms
  | .last l t _, simple, ps, hp, hp' => by
    obtain ⟨k, v, hk, ht, rfl⟩ := pairs_last.mp hp
    obtain ⟨k', v', hk', ht', heq⟩ := pairs_last.mp hp'
    obtain ⟨rfl, rfl⟩ : k = k' ∧ v = v' := by simpa using heq
    have hmiss := hit_eq_none_of_value proper hne ht ht'
    rw [hmiss] at ht'
    rw [Replacement.inMembers, fixed_label proper simple.1 hk hk', hmiss, Option.map_none,
      Option.getD_none, fixed_tree proper hne t simple.2 ht ht']
  | .more l t _ rest, simple, ps, hp, hp' => by
    obtain ⟨k, v, qs, hk, ht, hqs, rfl⟩ := pairs_more.mp hp
    obtain ⟨k', v', qs', hk', ht', hqs', heq⟩ := pairs_more.mp hp'
    obtain ⟨⟨rfl, rfl⟩, rfl⟩ : (k = k' ∧ v = v') ∧ qs = qs' := by simpa using heq
    have hmiss := hit_eq_none_of_value proper hne ht ht'
    rw [hmiss] at ht'
    rw [Replacement.inMembers, fixed_label proper simple.1 hk hk', hmiss, Option.map_none,
      Option.getD_none, fixed_tree proper hne t simple.2.1 ht ht',
      fixed_members proper hne rest simple.2.2 hqs hqs']
end

/-- Numbers and keywords are neither strings nor objects. -/
theorem readNumber_atom {w : Text} {v : Json} (h : readNumber w = some v) :
    (∀ s, v ≠ .str s) ∧ ∀ ms, v ≠ .obj ms := by
  unfold readNumber at h
  dsimp only at h
  split_ifs at h <;> cases h <;> simp

theorem readWord_atom {w : Text} {v : Json} (h : readWord w = some v) :
    (∀ s, v ≠ .str s) ∧ ∀ ms, v ≠ .obj ms := by
  unfold readWord at h
  split at h
  · cases h
    simp
  · split at h
    · cases h
      simp
    · split at h
      · cases h
        simp
      · split at h
        · cases h
          simp
        · exact readNumber_atom h

theorem string_of_value {t : Tree} (simple : Simple t) {s : Text}
    (h : t.value = some (.str (ofText s))) : t = .string s := by
  cases t with
  | word w => exact absurd rfl ((readWord_atom h).1 _)
  | string raw =>
    rw [Tree.value, decode_of_plain simple, Option.map_some, Option.some.injEq, Json.str.injEq,
      ofText_inj] at h
    rw [h]
  | emptyArray pad => simp [Tree.value] at h
  | array items => simp [Tree.value] at h
  | emptyObject pad => simp [Tree.value] at h
  | object members => simp [Tree.value] at h

/-- The replacement turns the value of a member from one text into another. -/
def Replacement.Turns : Replacement → Label → Text → Text → Prop
  | .inStrings old new, _, s, s' => replace old new s = s'
  | .ofMember name old new, l, s, s' =>
    l.raw = name ∧ l.afterKey = [] ∧ l.beforeValue = [' '] ∧ old = s ∧ new = s'

theorem turned_value {ρ : Replacement} (proper : ρ.Proper) {l : Label} {t : Tree}
    (simple : Simple t) {s s' : Text} (hss : s ≠ s') (hv : t.value = some (.str (ofText s)))
    (hv' : (((ρ.hit l t).map Tree.string).getD (ρ.inTree t)).value = some (.str (ofText s'))) :
    t = .string s ∧ ((ρ.hit l t).map Tree.string).getD (ρ.inTree t) = .string s' ∧
      Replacement.Turns ρ l s s' := by
  obtain rfl := string_of_value simple hv
  refine ⟨rfl, ?_⟩
  cases h : ρ.hit l (.string s) with
  | none =>
    have hraw : ρ.inRaw s = s' := by
      rw [h, Option.map_none, Option.getD_none, Replacement.inTree, Tree.value,
        decode_inRaw proper simple] at hv'
      simpa using hv'
    refine ⟨by rw [Option.map_none, Option.getD_none, Replacement.inTree, hraw], ?_⟩
    cases ρ with
    | inStrings old new => exact hraw
    | ofMember name old new => exact absurd hraw hss
  | some state =>
    obtain ⟨name, old, new, rfl, rfl, ht, hname, hkey, hvalue, -, hnew⟩ := hit_value proper h
    obtain rfl : s = old := by simpa using ht
    obtain rfl : state = s' := by
      rw [h, Option.map_some, Option.getD_some, hnew] at hv'
      simpa using hv'
    exact ⟨rfl, hname, hkey, hvalue, rfl, rfl⟩

/-- If the replacement changes the value of one name only, it was found just there. -/
theorem only_effective {ρ : Replacement} (proper : ρ.Proper) (hne : ρ.old ≠ ρ.new) {name : Str}
    {s s' : Text} (hss : s ≠ s') : (ms : Members) → SimpleMembers ms → (names ms).Nodup →
      {ps : List (Str × Json)} → ms.pairs = some ps → lookup name ps = some (.str (ofText s)) →
      (ρ.inMembers ms).pairs = some (assign name (.str (ofText s')) ps) →
        ∃ l, effective name ms = some (l, .string s) ∧
          ρ.inMembers ms = setEffective name (.string s') ms ∧ Replacement.Turns ρ l s s'
  | .last l t after, simple, _, ps, hp, hlookup, hp' => by
    obtain ⟨k, v, hk, ht, rfl⟩ := pairs_last.mp hp
    rw [lookup_cons] at hlookup
    split at hlookup
    · next hkn =>
      subst hkn
      obtain rfl := Option.some.inj hlookup
      obtain ⟨k', v', hk', ht', heq⟩ := pairs_last.mp hp'
      obtain ⟨rfl, rfl⟩ : k' = k ∧ v' = .str (ofText s') := by simpa [assign, eq_comm] using heq
      obtain ⟨rfl, hvalue, turns⟩ := turned_value proper simple.2 hss ht ht'
      have hn : Names k' l := hk
      refine ⟨l, by rw [effective, if_pos hn], ?_, turns⟩
      rw [Replacement.inMembers, setEffective, if_pos hn, hvalue,
        fixed_label proper simple.1 hk hk']
    · exact absurd hlookup (by simp)
  | .more l t after rest, simple, hnodup, ps, hp, hlookup, hp' => by
    obtain ⟨k, v, qs, hk, ht, hqs, rfl⟩ := pairs_more.mp hp
    obtain ⟨hraw, hrest⟩ := List.nodup_cons.mp hnodup
    obtain ⟨k', v', qs', hk', ht', hqs', heq⟩ := pairs_more.mp hp'
    have hmem := effective_isSome name rest hqs
    rw [lookup_cons] at hlookup
    rcases eq_or_ne k name with rfl | hkn
    · rw [if_pos rfl] at hlookup
      obtain rfl := Option.some.inj hlookup
      obtain ⟨⟨rfl, rfl⟩, rfl⟩ : (k' = k ∧ v' = .str (ofText s')) ∧ qs' = qs := by
        simpa [assign, eq_comm] using heq
      obtain ⟨rfl, hvalue, turns⟩ := turned_value proper simple.2.1 hss ht ht'
      have hn : Names k' l := hk
      have hnone : effective k' rest = none := by
        rw [← Option.not_isSome_iff_eq_none, hmem, keys_of_pairs rest simple.2.2 hqs]
        rw [decode_of_plain simple.1] at hk
        rw [← Option.some.inj hk, List.mem_map_of_injective ofText_injective]
        exact hraw
      refine ⟨l, by rw [effective, hnone, if_pos hn]; rfl, ?_, turns⟩
      rw [Replacement.inMembers, setEffective, hnone, if_neg (by simp), if_pos hn, hvalue,
        fixed_label proper simple.1 hk hk', fixed_members proper hne rest simple.2.2 hqs hqs']
    · rw [if_neg hkn] at hlookup
      obtain ⟨⟨rfl, rfl⟩, rfl⟩ : (k' = k ∧ v' = v) ∧ qs' = assign name (.str (ofText s')) qs := by
        simpa [assign, hkn, eq_comm] using heq
      obtain ⟨l', he, hset, turns⟩ :=
        only_effective proper hne hss rest simple.2.2 hrest hqs hlookup hqs'
      have hmiss := hit_eq_none_of_value proper hne ht ht'
      rw [hmiss] at ht'
      refine ⟨l', by rw [effective, he]; rfl, ?_, turns⟩
      rw [Replacement.inMembers, setEffective, he, if_pos (by simp), hset, hmiss,
        fixed_label proper simple.1 hk hk', Option.map_none, Option.getD_none,
        fixed_tree proper hne t simple.2.1 ht ht']

end AgentTestHarness.JsonReplacedValue
