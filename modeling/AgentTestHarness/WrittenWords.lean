import AgentTestHarness.JsonReplacedValue
import AgentTestHarness.WrittenStates
import Mathlib.Tactic.MkIffOfInductiveProp

/-! Replacing a word in a text that `json.dumps` wrote, wherever it stands in a string: also where
it begins within an escape. -/
namespace AgentTestHarness.WrittenWords
open PyText OrderedDict PyJson JsonText JsonReading JsonWriting JsonMember JsonReplacing
open JsonReplacedValue JsonRoundTrip WrittenStates

/-! The replaced text has the same tree, with other strings. -/

mutual
theorem taken_written (old new : Text) : (j : Json) → Loadable j →
    Taken (.inStrings old new) (written j)
  | .null, _ => ⟨.null, rfl⟩
  | .bool true, _ => ⟨.bool true, by decide⟩
  | .bool false, _ => ⟨.bool false, by decide⟩
  | .int n, _ => ⟨.int n, readWord_dumpsInt n⟩
  | .float w, h => ⟨.float w, h.2⟩
  | .str _, _ => trivial
  | .arr [], _ => trivial
  | .arr (x :: xs), h => takenItems_written old new [] (taken_written old new x h.1) xs h.2
  | .obj [], _ => trivial
  | .obj ((k, v) :: ms), h =>
    takenMembers_written old new (writtenLabel [] k) (taken_written old new v h.2.1.2) ms h.2.2
theorem takenItems_written (old new before : Text) {t : Tree}
    (ht : Taken (.inStrings old new) t) : (xs : List Json) → LoadableItems xs →
      TakenItems (.inStrings old new) (writtenItems before t xs)
  | [], _ => ht
  | x :: xs, h =>
    ⟨ht, takenItems_written old new [' '] (taken_written old new x h.1) xs h.2⟩
theorem takenMembers_written (old new : Text) (label : Label) {t : Tree}
    (ht : Taken (.inStrings old new) t) : (ms : List (Str × Json)) → LoadableMembers ms →
      TakenMembers (.inStrings old new) (writtenMembers label t ms)
  | [], _ => ⟨trivial, ht⟩
  | (k, v) :: ms, h =>
    ⟨trivial, ht,
      takenMembers_written old new (writtenLabel [' '] k) (taken_written old new v h.1.2) ms h.2⟩
end

/-- A raw string ends where its closing quote is: every quote in it is escaped. -/
theorem closed_cons {c : Char} (hquote : c ≠ '"') (hescape : c ≠ '\\') {raw : Text} :
    Closed (c :: raw) ↔ Closed raw := by
  constructor
  · intro h rest
    have := h rest
    rw [List.cons_append, scanString_cons hquote hescape] at this
    simpa using this
  · intro h rest
    rw [List.cons_append, scanString_cons hquote hescape, h rest]
    rfl

theorem closed_escaped {c : Char} {raw : Text} : Closed ('\\' :: c :: raw) ↔ Closed raw := by
  constructor
  · intro h rest
    have := h rest
    rw [List.cons_append, List.cons_append, scanString] at this
    simpa using this
  · intro h rest
    rw [List.cons_append, List.cons_append, scanString, h rest]
    rfl

theorem closed_append {w : Text} (hw : ∀ c ∈ w, c ≠ '"' ∧ c ≠ '\\') {raw : Text} :
    Closed (w ++ raw) ↔ Closed raw := by
  induction w with
  | nil => rfl
  | cons c w ih =>
    obtain ⟨hc, hw⟩ := List.forall_mem_cons.mp hw
    rw [List.cons_append, closed_cons hc.1 hc.2, ih hw]

/-- The words that replace each other are plain and not empty. -/
@[mk_iff]
structure Words (old new : Text) : Prop where
  proper : (Replacement.inStrings old new).Proper
  nonempty : new ≠ []

instance (old new : Text) : Decidable (Words old new) := decidable_of_iff _ (words_iff old new).symm

section Closing

variable {old new : Text} (words : Words old new)
include words

theorem Words.old_chars : ∀ c ∈ old, c ≠ '"' ∧ c ≠ '\\' := fun c hc =>
  ⟨(words.proper.2.2.2.2 c hc).1, (words.proper.2.2.2.2 c hc).2.1⟩

theorem Words.new_chars : ∀ c ∈ new, c ≠ '"' ∧ c ≠ '\\' := fun c hc =>
  ⟨(words.proper.2.2.2.1 c hc).1, (words.proper.2.2.2.1 c hc).2.1⟩

/-- A word that begins at an escaped character leaves it escaped. -/
theorem Words.closed_replace {raw : Text} (h : Closed raw) : Closed (replace old new raw) := by
  have hlen : 0 < old.length := List.length_pos_of_ne_nil words.proper.1
  induction hn : raw.length using Nat.strong_induction_on generalizing raw with
  | h n ih =>
    subst hn
    cases raw with
    | nil => exact h
    | cons c cs =>
      by_cases hp : old <+: c :: cs
      · obtain ⟨rest, hrest⟩ := hp
        rw [← hrest] at h ⊢
        rw [replace_append words.proper.1]
        refine (closed_append words.new_chars).mpr (ih rest.length ?_ ?_ rfl)
        · rw [← hrest, List.length_append]
          omega
        · exact (closed_append words.old_chars).mp h
      · rw [replace_cons_of_not hp]
        by_cases hquote : c = '"'
        · subst hquote
          exact absurd (h []) (by simp [scanString])
        by_cases hescape : c = '\\'
        · subst hescape
          cases cs with
          | nil => exact absurd (h []) (by simp [scanString])
          | cons e rest =>
            have hrest := closed_escaped.mp h
            by_cases hq : old <+: e :: rest
            · obtain ⟨rest', hrest'⟩ := hq
              obtain ⟨o, old', hold⟩ := List.exists_cons_of_ne_nil words.proper.1
              obtain ⟨n, new', hnew⟩ := List.exists_cons_of_ne_nil words.nonempty
              have hchars : ∀ c ∈ old', c ≠ '"' ∧ c ≠ '\\' := fun c hc =>
                words.old_chars c (hold ▸ List.mem_cons_of_mem _ hc)
              have hchars' : ∀ c ∈ new', c ≠ '"' ∧ c ≠ '\\' := fun c hc =>
                words.new_chars c (hnew ▸ List.mem_cons_of_mem _ hc)
              have htail : rest = old' ++ rest' := by
                rw [hold] at hrest'
                exact (List.cons.inj hrest').2.symm
              have hclosed : Closed (replace old new rest') := by
                refine ih rest'.length ?_ ((closed_append hchars).mp (htail ▸ hrest)) rfl
                simp [htail]
                omega
              rw [← hrest', replace_append words.proper.1]
              have hsplit : '\\' :: (new ++ replace old new rest') =
                  '\\' :: n :: (new' ++ replace old new rest') := by rw [hnew, List.cons_append]
              rw [hsplit]
              exact closed_escaped.mpr ((closed_append hchars').mpr hclosed)
            · rw [replace_cons_of_not hq]
              exact closed_escaped.mpr (ih rest.length (by simp only [List.length_cons]; omega) hrest rfl)
        · exact (closed_cons hquote hescape).mpr
            (ih cs.length (by simp) ((closed_cons hquote hescape).mp h) rfl)

end Closing

mutual
theorem Words.lexical_inTree {old new : Text} (words : Words old new) : (t : Tree) →
    t.Lexical → ((Replacement.inStrings old new).inTree t).Lexical
  | .word _, h => h
  | .string _, h => words.closed_replace h
  | .emptyArray _, h => h
  | .emptyObject _, h => h
  | .array items, h => words.lexical_inItems items h
  | .object members, h => words.lexical_inMembers members h
theorem Words.lexical_inItems {old new : Text} (words : Words old new) : (items : Items) →
    items.Lexical → ((Replacement.inStrings old new).inItems items).Lexical
  | .last _ t _, h => ⟨h.1, words.lexical_inTree t h.2.1, h.2.2⟩
  | .more _ t _ rest, h =>
    ⟨h.1, words.lexical_inTree t h.2.1, h.2.2.1, words.lexical_inItems rest h.2.2.2⟩
theorem Words.lexical_inMembers {old new : Text} (words : Words old new) : (ms : Members) →
    ms.Lexical → ((Replacement.inStrings old new).inMembers ms).Lexical
  | .last _ t _, h =>
    ⟨⟨h.1.before, words.closed_replace h.1.raw, h.1.afterKey, h.1.beforeValue⟩,
      words.lexical_inTree t h.2.1, h.2.2⟩
  | .more _ t _ rest, h =>
    ⟨⟨h.1.before, words.closed_replace h.1.raw, h.1.afterKey, h.1.beforeValue⟩,
      words.lexical_inTree t h.2.1, h.2.2.1, words.lexical_inMembers rest h.2.2.2⟩
end

/-! The value as which the replaced text is read, if it can be read. -/

def rewordStr (old new : Text) (s : Str) : Option Str := decode (replace old new (s.flatMap escape))

mutual
def reword (old new : Text) : Json → Option Json
  | .str s => (rewordStr old new s).map .str
  | .arr xs => (rewordItems old new xs).map .arr
  | .obj ms => (rewordMembers old new ms).map fun ps => .obj (dict ps)
  | j => some j
def rewordItems (old new : Text) : List Json → Option (List Json)
  | [] => some []
  | x :: xs => (reword old new x).bind fun v => (rewordItems old new xs).map (v :: ·)
def rewordMembers (old new : Text) : List (Str × Json) → Option (List (Str × Json))
  | [] => some []
  | (k, v) :: ms => (rewordStr old new k).bind fun l => (reword old new v).bind fun w =>
      (rewordMembers old new ms).map ((l, w) :: ·)
end

mutual
theorem value_inTree (old new : Text) : (j : Json) → Loadable j →
    ((Replacement.inStrings old new).inTree (written j)).value = reword old new j
  | .null, _ => rfl
  | .bool true, h => value_written (.bool true) h
  | .bool false, h => value_written (.bool false) h
  | .int n, _ => readWord_dumpsInt n
  | .float _, h => h.2
  | .str _, _ => rfl
  | .arr [], _ => rfl
  | .arr (x :: xs), h => by
    rw [written, Replacement.inTree, Tree.value,
      values_inItems old new [] (value_inTree old new x h.1) xs h.2, reword, rewordItems]
  | .obj [], _ => rfl
  | .obj ((k, v) :: ms), h => by
    rw [written, Replacement.inTree, Tree.value,
      pairs_inMembers old new [] k (value_inTree old new v h.2.1.2) ms h.2.2, reword,
      rewordMembers]
theorem values_inItems (old new before : Text) {t : Tree} {x : Json}
    (ht : ((Replacement.inStrings old new).inTree t).value = reword old new x) :
    (xs : List Json) → LoadableItems xs →
      ((Replacement.inStrings old new).inItems (writtenItems before t xs)).values =
        (reword old new x).bind fun v => (rewordItems old new xs).map (v :: ·)
  | [], _ => by
    rw [writtenItems, Replacement.inItems, Items.values, ht, rewordItems]
    cases reword old new x <;> rfl
  | y :: ys, h => by
    rw [writtenItems, Replacement.inItems, Items.values, ht,
      values_inItems old new [' '] (value_inTree old new y h.1) ys h.2, rewordItems]
theorem pairs_inMembers (old new before : Text) (k : Str) {t : Tree} {v : Json}
    (ht : ((Replacement.inStrings old new).inTree t).value = reword old new v) :
    (ms : List (Str × Json)) → LoadableMembers ms →
      ((Replacement.inStrings old new).inMembers
          (writtenMembers (writtenLabel before k) t ms)).pairs =
        (rewordStr old new k).bind fun l => (reword old new v).bind fun w =>
          (rewordMembers old new ms).map ((l, w) :: ·)
  | [], _ => by
    rw [writtenMembers, Replacement.inMembers, Members.pairs, rewordMembers]
    have hvalue : ((((Replacement.inStrings old new).hit (writtenLabel before k) t).map
        Tree.string).getD ((Replacement.inStrings old new).inTree t)).value =
        reword old new v := ht
    rw [hvalue]
    cases reword old new v <;> rfl
  | (l, w) :: ms, h => by
    rw [writtenMembers, Replacement.inMembers, Members.pairs,
      pairs_inMembers old new [' '] l (value_inTree old new w h.1.2) ms h.2, rewordMembers]
    have hvalue : ((((Replacement.inStrings old new).hit (writtenLabel before k) t).map
        Tree.string).getD ((Replacement.inStrings old new).inTree t)).value =
        reword old new v := ht
    rw [hvalue]
    rfl
end

/-- What the replaced text is read as. -/
theorem Words.loads_replace {old new : Text} (words : Words old new) {j : Json} (h : Loadable j)
    {v : Json} : loads (replace old new (dumps j)) = .ok v ↔ reword old new j = some v := by
  have hdoc : Document.render ⟨[], written j, []⟩ = dumps j := by
    simp [Document.render, render_written]
  have lexical : (Document.mk [] (written j) []).Lexical :=
    ⟨pad_nil, lexical_written j h, pad_nil⟩
  have hrender := apply_render words.proper lexical (taken_written old new j h)
  rw [hdoc] at hrender
  have hreplace : replace old new (dumps j) = _ := hrender
  rw [hreplace, ← value_inTree old new j h]
  exact loads_render ⟨pad_nil, words.lexical_inTree _ (lexical_written j h), pad_nil⟩

/-! A name is not made by the replacement. -/

/-- A character that stands for itself wherever it is in a string that can be read. -/
@[mk_iff]
structure Marker (c : Char) : Prop where
  hex : hexDigit c = none
  simple : simpleEscape c = none
  unicode : c ≠ 'u'
  escape : c ≠ '\\'

instance (c : Char) : Decidable (Marker c) := decidable_of_iff _ (marker_iff c).symm

theorem Marker.mem_pieces {c : Char} (marker : Marker c) {raw : Text} {ps : List Piece}
    (h : pieces raw = some ps) (hc : c ∈ raw) : Piece.lit c ∈ ps := by
  have hdigit : ∀ d n, hexDigit d = some n → c ≠ d := by
    rintro d n hd rfl
    rw [marker.hex] at hd
    exact absurd hd (by simp)
  induction raw using pieces.induct generalizing ps with
  | case1 => exact absurd hc List.not_mem_nil
  | case2 w x y z rest kw kx ky kz hz hy hx hw ih =>
    rw [pieces.eq_2] at h
    simp only [hw, hx, hy, hz] at h
    obtain ⟨qs, hqs, rfl⟩ := Option.map_eq_some_iff.mp h
    have hrest : c ∈ rest := by
      simpa [marker.escape, marker.unicode, hdigit _ _ hw, hdigit _ _ hx, hdigit _ _ hy,
        hdigit _ _ hz] using hc
    exact List.mem_cons_of_mem _ (ih hqs hrest)
  | case3 w x y z rest hfail =>
    rw [pieces.eq_2] at h
    split at h
    · next hw hx hy hz => exact absurd (hfail _ _ _ _ hw hx hy hz) id
    · exact absurd h (by simp)
  | case4 e rest hne ih =>
    rw [pieces.eq_3 e rest hne] at h
    obtain ⟨d, hd, h⟩ := Option.bind_eq_some_iff.mp h
    obtain ⟨qs, hqs, rfl⟩ := Option.map_eq_some_iff.mp h
    have he : c ≠ e := by
      rintro rfl
      rw [marker.simple] at hd
      exact absurd hd (by simp)
    have hrest : c ∈ rest := by simpa [marker.escape, he] using hc
    exact List.mem_cons_of_mem _ (ih hqs hrest)
  | case5 d rest h1 h2 hbad =>
    rw [pieces.eq_4 d rest h1 h2, if_pos hbad] at h
    exact absurd h (by simp)
  | case6 d rest h1 h2 hgood ih =>
    rw [pieces.eq_4 d rest h1 h2, if_neg hgood] at h
    obtain ⟨qs, hqs, rfl⟩ := Option.map_eq_some_iff.mp h
    rcases List.mem_cons.mp hc with rfl | hc
    · exact List.mem_cons_self
    · exact List.mem_cons_of_mem _ (ih hqs hc)

theorem lit_mem_joinPieces {c : Char} {ps : List Piece} (h : Piece.lit c ∈ ps) :
    CodePoint.ch c ∈ joinPieces ps := by
  induction ps using joinPieces.induct with
  | case1 => exact absurd h List.not_mem_nil
  | case2 d ps ih =>
    rw [joinPieces]
    rcases List.mem_cons.mp h with heq | h
    · obtain rfl := Piece.lit.inj heq
      exact List.mem_cons_self
    · exact List.mem_cons_of_mem _ (ih h)
  | case3 n => simp at h
  | case4 n d ps ih =>
    rw [joinPieces]
    simp only [List.mem_cons, reduceCtorEq, false_or] at h ⊢
    rcases h with heq | h
    · obtain rfl := Piece.lit.inj heq
      exact .inr (.inl rfl)
    · exact .inr (.inr (ih h))
  | case5 m n ps hpair ih =>
    rw [joinPieces, if_pos hpair]
    simp only [List.mem_cons, reduceCtorEq, false_or] at h
    exact List.mem_cons_of_mem _ (ih h)
  | case6 m n ps hpair ih =>
    rw [joinPieces, if_neg hpair]
    simp only [List.mem_cons, reduceCtorEq, false_or] at h
    exact List.mem_cons_of_mem _ (ih (List.mem_cons_of_mem _ h))

theorem Marker.mem_decode {c : Char} (marker : Marker c) {raw : Text} {s : Str}
    (h : decode raw = some s) (hc : c ∈ raw) : CodePoint.ch c ∈ s := by
  obtain ⟨ps, hps, rfl⟩ := Option.map_eq_some_iff.mp h
  exact lit_mem_joinPieces (marker.mem_pieces hps hc)

/-- Where the new word is not found, nothing was replaced. -/
theorem replace_eq_self {old new : Text} (hne : old ≠ []) {c : Char} (hc : c ∈ new) {raw : Text}
    (h : c ∉ replace old new raw) : replace old new raw = raw := by
  induction raw using replace_induction hne with
  | nil => rfl
  | here rest ih =>
    rw [replace_append hne] at h
    exact absurd (List.mem_append_left _ hc) h
  | skip d cs hp ih =>
    rw [replace_cons_of_not hp] at h ⊢
    rw [List.mem_cons, not_or] at h
    rw [ih h.2]

theorem plainText_of_plain {w : Text} (h : Plain w) : PlainText w := fun c hc =>
  ⟨(h c hc).2.2.1, (h c hc).2.2.2, Char.not_lt.mpr (h c hc).1⟩

theorem rewordStr_plain (old new : Text) {w : Text} (h : Plain w)
    (hnew : PlainText (replace old new w)) :
    rewordStr old new (ofText w) = some (ofText (replace old new w)) := by
  rw [rewordStr, escape_ofText h, decode_of_plain hnew]

theorem rewordStr_eq_iff {old new name : Text} (hne : old ≠ []) {c : Char} (marker : Marker c)
    (hnew : c ∈ new) (hname : c ∉ name) (plain : Plain name) (hkept : replace old new name = name)
    {k : Str} (hk : Unpaired k) : rewordStr old new k = some (ofText name) ↔ k = ofText name := by
  constructor
  · intro h
    have habsent : c ∉ replace old new (k.flatMap escape) := by
      intro hc
      obtain ⟨d, hd, heq⟩ := List.mem_map.mp (marker.mem_decode h hc)
      obtain rfl := CodePoint.ch.inj heq
      exact hname hd
    rw [rewordStr, replace_eq_self hne hnew habsent, decode_escape hk] at h
    exact Option.some.inj h
  · rintro rfl
    rw [rewordStr_plain old new plain (hkept.symm ▸ plainText_of_plain plain), hkept]

/-! The value under a name. -/

theorem mem_of_mem_assign {k : Str} {v : Json} {ms : List (Str × Json)} {m : Str × Json}
    (h : m ∈ assign k v ms) : m = (k, v) ∨ m ∈ ms := by
  induction ms with
  | nil => exact .inl (List.mem_singleton.mp h)
  | cons n ms ih =>
    rw [assign] at h
    split at h
    · next hk =>
      rcases List.mem_cons.mp h with rfl | h
      · exact .inl (by rw [hk])
      · exact .inr (List.mem_cons_of_mem _ h)
    · rcases List.mem_cons.mp h with rfl | h
      · exact .inr List.mem_cons_self
      · exact (ih h).imp_right (List.mem_cons_of_mem _)

/-- A dictionary holds only what it was made of. -/
theorem mem_of_mem_dict {ps : List (Str × Json)} {m : Str × Json} (h : m ∈ dict ps) : m ∈ ps := by
  have hfold : ∀ d : List (Str × Json),
      m ∈ ps.foldl (fun d q => assign q.1 q.2 d) d → m ∈ d ∨ m ∈ ps := by
    clear h
    induction ps with
    | nil => exact fun d h => .inl h
    | cons q ps ih =>
      intro d h
      rcases ih _ h with h | h
      · rcases mem_of_mem_assign h with rfl | h
        · exact .inr List.mem_cons_self
        · exact .inl h
      · exact .inr (List.mem_cons_of_mem _ h)
  exact (hfold [] h).resolve_left List.not_mem_nil

theorem lookup_dict_of_mem {ps : List (Str × Json)} {k : Str} {v : Json} (hm : (k, v) ∈ ps)
    (h : ∀ q ∈ ps, q.1 = k → q.2 = v) : lookup k (dict ps) = some v := by
  have hfold : ∀ d : List (Str × Json), (k, v) ∈ ps ∨ lookup k d = some v →
      lookup k (ps.foldl (fun d m => assign m.1 m.2 d) d) = some v := by
    clear hm
    induction ps with
    | nil =>
      rintro d (hm | hd)
      · exact absurd hm List.not_mem_nil
      · exact hd
    | cons q ps ih =>
      obtain ⟨hq, hps⟩ := List.forall_mem_cons.mp h
      intro d hd
      refine ih hps _ ?_
      by_cases hk : q.1 = k
      · right
        rw [← hk, lookup_assign_self, hq hk]
      · rw [lookup_assign_ne (Ne.symm hk)]
        rcases hd with hm | hd
        · rcases List.mem_cons.mp hm with rfl | hm
          · exact absurd rfl hk
          · exact .inl hm
        · exact .inr hd
  exact hfold [] (.inl hm)

theorem rewordMembers_mem {old new : Text} {ms ps : List (Str × Json)}
    (h : rewordMembers old new ms = some ps) :
    (∀ m ∈ ms, ∃ p ∈ ps, rewordStr old new m.1 = some p.1 ∧ reword old new m.2 = some p.2) ∧
      ∀ p ∈ ps, ∃ m ∈ ms, rewordStr old new m.1 = some p.1 ∧ reword old new m.2 = some p.2 := by
  induction ms generalizing ps with
  | nil =>
    obtain rfl := Option.some.inj h
    simp
  | cons m ms ih =>
    obtain ⟨l, hl, h⟩ := Option.bind_eq_some_iff.mp h
    obtain ⟨w, hw, h⟩ := Option.bind_eq_some_iff.mp h
    obtain ⟨qs, hqs, rfl⟩ := Option.map_eq_some_iff.mp h
    obtain ⟨hms, hps⟩ := ih hqs
    constructor
    · intro n hn
      rcases List.mem_cons.mp hn with rfl | hn
      · exact ⟨(l, w), List.mem_cons_self, hl, hw⟩
      · obtain ⟨p, hp, hnp⟩ := hms n hn
        exact ⟨p, List.mem_cons_of_mem _ hp, hnp⟩
    · intro p hp
      rcases List.mem_cons.mp hp with rfl | hp
      · exact ⟨m, List.mem_cons_self, hl, hw⟩
      · obtain ⟨n, hn, hnp⟩ := hps p hp
        exact ⟨n, List.mem_cons_of_mem _ hn, hnp⟩

/-- The only member whose name becomes this one gives its value. -/
theorem lookup_rewordMembers {old new : Text} {ms ps : List (Str × Json)} {name : Str}
    {v w : Json} (h : rewordMembers old new ms = some ps) (hv : lookup name ms = some v)
    (hnodup : (ms.map Prod.fst).Nodup) (hw : reword old new v = some w)
    (hname : ∀ k ∈ ms.map Prod.fst, rewordStr old new k = some name ↔ k = name) :
    lookup name (dict ps) = some w := by
  obtain ⟨hms, hps⟩ := rewordMembers_mem h
  have hmem := mem_of_lookup hv
  have hkey := (hname name (mem_keys_of_lookup hv)).mpr rfl
  have hunique : ∀ q ∈ ps, q.1 = name → q.2 = w := by
    rintro q hq rfl
    obtain ⟨m, hm, hk, hu⟩ := hps q hq
    have hmk := (hname m.1 (List.mem_map_of_mem hm)).mp hk
    have hmv : m.2 = v := by
      have hlookup := lookup_of_mem hnodup (show (m.1, m.2) ∈ ms from hm)
      rw [hmk, hv] at hlookup
      exact (Option.some.inj hlookup).symm
    rw [hmv, hw] at hu
    exact (Option.some.inj hu).symm
  obtain ⟨p, hp, hpk, hpv⟩ := hms _ hmem
  rw [hkey] at hpk
  rw [hw] at hpv
  obtain ⟨rfl, rfl⟩ := And.intro (Option.some.inj hpk) (Option.some.inj hpv)
  exact lookup_dict_of_mem hp hunique

end AgentTestHarness.WrittenWords
