import AgentTestHarness.WrittenWords

/-! When a text is still JSON after a word was replaced in it: unless the word began within an
escape, and what it became is no escape. -/
namespace AgentTestHarness.CutEscapes
open PyText OrderedDict PyJson JsonText JsonReading JsonWriting JsonReplacing JsonReplacedValue
open JsonRoundTrip WrittenStates WrittenWords

/-- The escape of a code point ends in the first two letters of the word, and the rest of the word
follows. -/
def cuts (old : Text) : Str → Bool
  | [] => false
  | p :: s => decide (old.take 2 <:+ escape p ∧ ofText (old.drop 2) <+: s) || cuts old s

mutual
/-- A name or another string of the value is cut. -/
def cutsIn (old : Text) : Json → Bool
  | .str s => cuts old s
  | .arr xs => cutsItems old xs
  | .obj ms => cutsMembers old ms
  | _ => false
def cutsItems (old : Text) : List Json → Bool
  | [] => false
  | x :: xs => cutsIn old x || cutsItems old xs
def cutsMembers (old : Text) : List (Str × Json) → Bool
  | [] => false
  | (k, v) :: ms => cuts old k || cutsIn old v || cutsMembers old ms
end

/-- What the words are made of: the first letters of the old word may end an escape, and only the
second letter of the new word spoils it. -/
@[mk_iff]
structure Spelling (old new : Text) (o o₂ o₃ n n₂ : Char) (old' new' : Text) : Prop where
  old_eq : old = o :: o₂ :: o₃ :: old'
  new_eq : new = n :: n₂ :: new'
  words : Words old new
  plain : Plain old
  simple : simpleEscape o ≠ none → n = o
  unicode : o ≠ 'u'
  distinct : o ≠ o₂
  third : hexDigit o₃ = none ∧ o₃ ≠ 'u'
  first : hexDigit o ≠ none → hexDigit n ≠ none
  second : hexDigit o ≠ none → hexDigit n₂ = none

instance (old new : Text) (o o₂ o₃ n n₂ : Char) (old' new' : Text) :
    Decidable (Spelling old new o o₂ o₃ n n₂ old' new') :=
  decidable_of_iff _ (spelling_iff old new o o₂ o₃ n n₂ old' new').symm

theorem pieces_append_plain {w : Text} (h : PlainText w) (r : Text) :
    (pieces (w ++ r)).isSome = (pieces r).isSome := by
  induction w with
  | nil => rfl
  | cons c w ih =>
    obtain ⟨hc, hw⟩ := List.forall_mem_cons.mp h
    rw [List.cons_append, pieces_cons hc.2.1, if_neg hc.2.2, Option.isSome_map, ih hw]

/-- A plain text in front of a written string is the front of the string. -/
theorem plain_isPrefix {w : Text} (h : ∀ c ∈ w, c ≠ '\\') {s : Str}
    (hp : w <+: s.flatMap escape) : ∃ s', s = ofText w ++ s' := by
  induction w generalizing s with
  | nil => exact ⟨s, rfl⟩
  | cons d w ih =>
    obtain ⟨hd, hw⟩ := List.forall_mem_cons.mp h
    cases s with
    | nil => exact absurd (List.prefix_nil.mp hp) (by simp)
    | cons p s =>
      rw [List.flatMap_cons] at hp
      rcases escape_cases p with ⟨t, ht⟩ | ⟨c, rfl, ht, -⟩
      · rw [ht] at hp
        exact absurd (List.cons_prefix_cons.mp hp).1 hd
      · rw [ht] at hp
        obtain ⟨rfl, hrest⟩ := List.cons_prefix_cons.mp hp
        obtain ⟨s', rfl⟩ := ih hw hrest
        exact ⟨s', rfl⟩

theorem flatMap_ofText_append {w : Text} (h : Plain w) (s : Str) :
    (ofText w ++ s).flatMap escape = w ++ s.flatMap escape := by
  rw [List.flatMap_append, escape_ofText h]

theorem cuts_append {old : Text} (hlen : (old.take 2).length = 2) {w : Text} (h : Plain w)
    (s : Str) : cuts old (ofText w ++ s) = cuts old s := by
  induction w with
  | nil => rfl
  | cons c w ih =>
    obtain ⟨⟨hlow, hhigh, hquote, hescape⟩, hw⟩ := List.forall_mem_cons.mp h
    have hone : ¬ (old.take 2 <:+ escape (.ch c) ∧ ofText (old.drop 2) <+: ofText w ++ s) := by
      rintro ⟨hsuffix, -⟩
      rw [escape, escapeChar_plain hlow hhigh hquote hescape] at hsuffix
      have := hsuffix.length_le
      rw [hlen] at this
      exact absurd this (by simp)
    have hw := ih hw
    rw [ofText, List.map_cons, List.cons_append, cuts, ← ofText, hw, decide_eq_false hone,
      Bool.false_or]

/-- The ways in which a code point is written. -/
theorem escape_forms (p : CodePoint) :
    (∃ e, escape p = ['\\', e] ∧ simpleEscape e ≠ none ∧ e ≠ 'u') ∨
      (∃ c, escape p = [c] ∧ PlainText [c]) ∨
      ∃ before n, n < 0x10000 ∧ escape p = before ++ unicodeEscape n ∧
        (before = [] ∨ ∃ m < 0x10000, before = unicodeEscape m) := by
  cases p with
  | surrogate n => exact .inr (.inr ⟨[], _, by omega, rfl, .inl rfl⟩)
  | ch c =>
    rcases escapeChar_cases c with ⟨e, ht, he, hu, -⟩ | ⟨ht, hspace, hquote, hescape, -⟩ |
      ⟨n, hn, ht, -⟩ | ⟨m, hm, n, hn, ht, -⟩
    · exact .inl ⟨e, ht, by simp [he], hu⟩
    · refine .inr (.inl ⟨c, ht, fun d hd => ?_⟩)
      obtain rfl := List.mem_singleton.mp hd
      exact ⟨hquote, hescape, Char.not_lt.mpr hspace⟩
    · exact .inr (.inr ⟨[], n, hn, ht, .inl rfl⟩)
    · exact .inr (.inr ⟨unicodeEscape m, n, hn, ht, .inr ⟨m, hm, rfl⟩⟩)

theorem hexDigit_hex4 (n : ℕ) : ∀ c ∈ hex4 n, hexDigit c ≠ none := by
  have hdigit : ∀ k, hexDigit (Nat.digitChar (k % 16)) ≠ none := fun k => by
    rw [hexDigit_digitChar ⟨k % 16, Nat.mod_lt k (by decide)⟩]
    simp
  intro c hc
  simp only [hex4, List.map_cons, List.map_nil, List.mem_cons, List.not_mem_nil, or_false] at hc
  rcases hc with rfl | rfl | rfl | rfl
  · exact hdigit _
  · exact hdigit _
  · exact hdigit _
  · exact hdigit _

theorem unicodeEscape_eq (n : ℕ) : ∃ w x y z, unicodeEscape n = ['\\', 'u', w, x, y, z] ∧
    hexDigit w ≠ none ∧ hexDigit x ≠ none ∧ hexDigit y ≠ none ∧ hexDigit z ≠ none := by
  have hdigits := hexDigit_hex4 n
  simp only [hex4, List.map_cons, List.map_nil, List.forall_mem_cons] at hdigits
  exact ⟨_, _, _, _, rfl, hdigits.1, hdigits.2.1, hdigits.2.2.1, hdigits.2.2.2.1⟩

theorem pieces_unicode {w x y z : Char} (hw : hexDigit w ≠ none) (hx : hexDigit x ≠ none)
    (hy : hexDigit y ≠ none) (hz : hexDigit z ≠ none) (r : Text) :
    (pieces ('\\' :: 'u' :: w :: x :: y :: z :: r)).isSome = (pieces r).isSome := by
  obtain ⟨a, ha⟩ := Option.ne_none_iff_exists'.mp hw
  obtain ⟨b, hb⟩ := Option.ne_none_iff_exists'.mp hx
  obtain ⟨c, hc⟩ := Option.ne_none_iff_exists'.mp hy
  obtain ⟨d, hd⟩ := Option.ne_none_iff_exists'.mp hz
  rw [pieces.eq_2]
  simp only [ha, hb, hc, hd, Option.isSome_map]

theorem pieces_spoiled {z : Char} (hz : hexDigit z = none) (w x y : Char) (r : Text) :
    (pieces ('\\' :: 'u' :: w :: x :: y :: z :: r)).isSome = false := by
  rw [pieces.eq_2]
  split
  · next h => exact absurd (hz.symm.trans h) (by simp)
  · rfl

theorem pieces_simple {e : Char} (hu : e ≠ 'u') (he : simpleEscape e ≠ none) (r : Text) :
    (pieces ('\\' :: e :: r)).isSome = (pieces r).isSome := by
  obtain ⟨d, hd⟩ := Option.ne_none_iff_exists'.mp he
  rw [pieces_simpleEscape hu hd, Option.isSome_map]

section Reading

variable {old new : Text} {o o₂ o₃ n n₂ : Char} {old' new' : Text}
  (spelling : Spelling old new o o₂ o₃ n n₂ old' new')
include spelling

theorem Spelling.escape_not_mem : ∀ c ∈ old, c ≠ '\\' := fun c hc =>
  (spelling.plain c hc).2.2.2

theorem Spelling.take_two : old.take 2 = [o, o₂] := by
  rw [spelling.old_eq]
  rfl

theorem Spelling.new_tail : PlainText (n₂ :: new') := fun c hc =>
  spelling.words.proper.2.2.2.1 c (spelling.new_eq ▸ List.mem_cons_of_mem n hc)

/-- No match begins at a backslash, at the letter of an escape of four digits, or at its first two
digits. -/
theorem Spelling.not_prefix {c : Char} (h : c ≠ o) (r : Text) : ¬ old <+: c :: r := by
  rw [spelling.old_eq]
  exact fun hp => h (List.cons_prefix_cons.mp hp).1.symm

theorem Spelling.not_prefix_third {y : Char} (h : hexDigit y ≠ none) (w x : Char) (r : Text) :
    ¬ old <+: w :: x :: y :: r := by
  rw [spelling.old_eq]
  intro hp
  obtain ⟨-, hp⟩ := List.cons_prefix_cons.mp hp
  obtain ⟨-, hp⟩ := List.cons_prefix_cons.mp hp
  obtain rfl := (List.cons_prefix_cons.mp hp).1
  exact h spelling.third.1

theorem Spelling.backslash : '\\' ≠ o := by
  rintro rfl
  exact spelling.escape_not_mem '\\' (spelling.old_eq ▸ List.mem_cons_self) rfl

theorem Spelling.replace_escape (w x y z : Char) (hy : hexDigit y ≠ none)
    (hz : hexDigit z ≠ none) (r : Text) :
    replace old new ('\\' :: 'u' :: w :: x :: y :: z :: r) =
      '\\' :: 'u' :: w :: x :: replace old new (y :: z :: r) := by
  rw [replace_cons_of_not (spelling.not_prefix spelling.backslash _),
    replace_cons_of_not (spelling.not_prefix spelling.unicode.symm _),
    replace_cons_of_not (spelling.not_prefix_third hy w x _),
    replace_cons_of_not (spelling.not_prefix_third hz x y _)]

/-- The front of a written string that is the old word, from some letter on. -/
theorem Spelling.split_front {w : Text} (hw : ∀ c ∈ w, c ∈ old) {s : Str}
    (hp : w <+: s.flatMap escape) :
    ∃ s', s = ofText w ++ s' ∧ s.flatMap escape = w ++ s'.flatMap escape ∧
      cuts old s = cuts old s' := by
  have hplain : Plain w := fun c hc => spelling.plain c (hw c hc)
  obtain ⟨s', rfl⟩ := plain_isPrefix (fun c hc => (hplain c hc).2.2.2) hp
  have hlen : (old.take 2).length = 2 := by rw [spelling.take_two]; rfl
  exact ⟨s', rfl, flatMap_ofText_append hplain s', cuts_append hlen hplain s'⟩

/-- The old word where it begins with a letter before a written string. -/
theorem Spelling.split_old {c : Char} {s : Str} (hp : old <+: c :: s.flatMap escape) :
    o = c ∧ ∃ s', c :: s.flatMap escape = old ++ s'.flatMap escape ∧ s'.length ≤ s.length ∧
      cuts old s = cuts old s' := by
  rw [spelling.old_eq, List.cons_prefix_cons] at hp
  obtain ⟨rfl, hrest⟩ := hp
  obtain ⟨s', rfl, hfront, hcuts⟩ := spelling.split_front
    (fun c hc => by rw [spelling.old_eq]; exact List.mem_cons_of_mem _ hc) hrest
  refine ⟨rfl, s', ?_, by simp, hcuts⟩
  rw [hfront, spelling.old_eq]
  rfl

theorem Spelling.isSome_new (r : Text) :
    (pieces (new ++ r)).isSome = (pieces r).isSome :=
  pieces_append_plain spelling.words.proper.2.2.2.1 r

/-- An escape of four digits stays one, unless the old word begins with its last two digits. -/
theorem Spelling.isSome_replace_unicode {s : Str} (ih : ∀ s' : Str, s'.length ≤ s.length →
      (pieces (replace old new (s'.flatMap escape))).isSome = !cuts old s') (m : ℕ) :
    (pieces (replace old new (unicodeEscape m ++ s.flatMap escape))).isSome =
      !(decide (old.take 2 <:+ unicodeEscape m ∧ ofText (old.drop 2) <+: s) || cuts old s) := by
  obtain ⟨w, x, y, z, hm, hw, hx, hy, hz⟩ := unicodeEscape_eq m
  have hne := spelling.words.proper.1
  have hlast : old.take 2 <:+ unicodeEscape m ↔ y = o ∧ z = o₂ := by
    rw [hm, spelling.take_two]
    constructor
    · rintro ⟨t, ht⟩
      have hlen : t.length = 4 := by
        have := congrArg List.length ht
        simpa using this
      have hdrop := congrArg (List.drop 4) ht
      rw [List.drop_left' hlen] at hdrop
      simpa [eq_comm] using hdrop
    · rintro ⟨rfl, rfl⟩
      exact ⟨['\\', 'u', w, x], rfl⟩
  simp only [hlast]
  rw [hm]
  have htext : ['\\', 'u', w, x, y, z] ++ s.flatMap escape =
      '\\' :: 'u' :: w :: x :: y :: z :: s.flatMap escape := rfl
  rw [htext, spelling.replace_escape w x y z hy hz]
  by_cases hcut : (y = o ∧ z = o₂) ∧ ofText (old.drop 2) <+: s
  · obtain ⟨⟨rfl, rfl⟩, s', rfl⟩ := hcut
    have hold : y :: z :: (ofText (old.drop 2) ++ s').flatMap escape =
        old ++ s'.flatMap escape := by
      rw [flatMap_ofText_append fun c hc => spelling.plain c (List.drop_subset 2 old hc)]
      simp [spelling.old_eq]
    rw [hold, replace_append hne, spelling.new_eq]
    simpa using pieces_spoiled (spelling.second hy) w x n (new' ++ replace old
      (n :: n₂ :: new') (s'.flatMap escape))
  · rw [decide_eq_false hcut, Bool.false_or]
    have hthird : ¬ old <+: y :: z :: s.flatMap escape := by
      rw [spelling.old_eq, List.cons_prefix_cons, List.cons_prefix_cons]
      rintro ⟨rfl, rfl, hrest⟩
      obtain ⟨s', rfl, -⟩ := spelling.split_front
        (w := o₃ :: old') (fun c hc => by rw [spelling.old_eq]; simp [List.mem_cons.mp hc]) hrest
      exact hcut ⟨⟨rfl, rfl⟩, by rw [spelling.old_eq]; exact List.prefix_append _ _⟩
    rw [replace_cons_of_not hthird]
    by_cases hfourth : old <+: z :: s.flatMap escape
    · obtain ⟨rfl, s', hold, hle, hcuts⟩ := spelling.split_old hfourth
      have hnew : ∀ r, '\\' :: 'u' :: w :: x :: y :: (new ++ r) =
          '\\' :: 'u' :: w :: x :: y :: n :: (n₂ :: new' ++ r) := by
        simp [spelling.new_eq]
      rw [hold, replace_append hne, hnew, pieces_unicode hw hx hy (spelling.first hz),
        pieces_append_plain spelling.new_tail, ih s' hle, hcuts]
    · rw [replace_cons_of_not hfourth, pieces_unicode hw hx hy hz, ih s le_rfl]

/-- The first escape of a pair stays as it is. -/
theorem Spelling.isSome_replace_high (k m : ℕ) (r : Text) :
    (pieces (replace old new (unicodeEscape k ++ (unicodeEscape m ++ r)))).isSome =
      (pieces (replace old new (unicodeEscape m ++ r))).isSome := by
  obtain ⟨w, x, y, z, hk, hw, hx, hy, hz⟩ := unicodeEscape_eq k
  obtain ⟨t, ht⟩ : ∃ t, unicodeEscape m ++ r = '\\' :: t := ⟨_, rfl⟩
  have hnot : ∀ a : Text, a.length < 3 → ¬ old <+: a ++ '\\' :: t := by
    intro a ha hp
    obtain ⟨b, hb⟩ := hp
    have hlen : a.length < old.length := by
      rw [spelling.old_eq]
      simp only [List.length_cons]
      omega
    have hmem : '\\' ∈ old := by
      have hget := congrArg (fun l : Text => l[a.length]?) hb
      simp only [List.getElem?_append_left hlen, List.getElem?_append_right le_rfl,
        Nat.sub_self, List.getElem?_cons_zero] at hget
      exact List.mem_of_getElem? hget
    exact spelling.escape_not_mem _ hmem rfl
  have htext : unicodeEscape k ++ '\\' :: t = '\\' :: 'u' :: w :: x :: y :: z :: '\\' :: t := by
    rw [hk]
    rfl
  have hthird : ¬ old <+: y :: z :: '\\' :: t := hnot [y, z] (by simp)
  have hfourth : ¬ old <+: z :: '\\' :: t := hnot [z] (by simp)
  rw [ht, htext, spelling.replace_escape w x y z hy hz, replace_cons_of_not hthird,
    replace_cons_of_not hfourth, pieces_unicode hw hx hy hz]

theorem Spelling.cuts_cons {p : CodePoint}
    (h : (escape p).length < 2 ∨ ∃ e, escape p = ['\\', e]) (s : Str) :
    cuts old (p :: s) = cuts old s := by
  have hnot : ¬ (old.take 2 <:+ escape p ∧ ofText (old.drop 2) <+: s) := by
    rw [spelling.take_two]
    rintro ⟨hs, -⟩
    rcases h with hlen | ⟨e, he⟩
    · have hle : 2 ≤ (escape p).length := hs.length_le
      omega
    · rw [he] at hs
      have heq := hs.eq_of_length rfl
      exact spelling.backslash (List.cons.inj heq).1.symm
  rw [cuts, decide_eq_false hnot, Bool.false_or]

/-- Behind a backslash the new word begins with the letter that was escaped. -/
theorem Spelling.isSome_replace_simple {s : Str} (ih : ∀ s' : Str, s'.length ≤ s.length →
      (pieces (replace old new (s'.flatMap escape))).isSome = !cuts old s') {e : Char}
    (he : simpleEscape e ≠ none) (hu : e ≠ 'u') :
    (pieces ('\\' :: replace old new (e :: s.flatMap escape))).isSome = !cuts old s := by
  have hne := spelling.words.proper.1
  by_cases hfirst : old <+: e :: s.flatMap escape
  · obtain ⟨rfl, s', hold, hle, hcuts⟩ := spelling.split_old hfirst
    have hnew : ∀ r, '\\' :: (new ++ r) = '\\' :: o :: (n₂ :: new' ++ r) := by
      simp [spelling.new_eq, spelling.simple he]
    rw [hold, replace_append hne, hnew, pieces_simple hu he,
      pieces_append_plain spelling.new_tail, ih s' hle, hcuts]
  · rw [replace_cons_of_not hfirst, pieces_simple hu he, ih s le_rfl]

/-- The replaced string can be read unless an escape is cut. -/
theorem Spelling.isSome_pieces (s : Str) :
    (pieces (replace old new (s.flatMap escape))).isSome = !cuts old s := by
  have hne := spelling.words.proper.1
  induction hn : s.length using Nat.strong_induction_on generalizing s with
  | h n ih =>
    subst hn
    cases s with
    | nil => rfl
    | cons p s =>
      have ih : ∀ s' : Str, s'.length ≤ s.length →
          (pieces (replace old new (s'.flatMap escape))).isSome = !cuts old s' :=
        fun s' hlen => ih s'.length (Nat.lt_succ_of_le hlen) s' rfl
      by_cases hp : old <+: (p :: s).flatMap escape
      · obtain ⟨s', hs, hfront, hcuts⟩ := spelling.split_front (fun _ hc => hc) hp
        have hlen : s'.length ≤ s.length := by
          have hlength := congrArg List.length hs
          have hpos := List.length_pos_of_ne_nil hne
          simp only [List.length_cons, List.length_append, ofText, List.length_map] at hlength
          omega
        rw [hfront, replace_append hne, spelling.isSome_new, ih s' hlen, hcuts]
      · rw [List.flatMap_cons] at hp ⊢
        rcases escape_forms p with ⟨e, ht, he, hu⟩ | ⟨c, ht, hc⟩ | ⟨before, m, hm, ht, hbefore⟩
        · rw [spelling.cuts_cons (.inr ⟨e, ht⟩), ht]
          rw [ht] at hp
          have hskip : replace old new (['\\', e] ++ s.flatMap escape) =
              '\\' :: replace old new (e :: s.flatMap escape) := replace_cons_of_not hp new
          rw [hskip, spelling.isSome_replace_simple ih he hu]
        · rw [spelling.cuts_cons (.inl (by simp [ht])), ht]
          rw [ht] at hp
          have hskip : replace old new ([c] ++ s.flatMap escape) =
              [c] ++ replace old new (s.flatMap escape) := replace_cons_of_not hp new
          rw [hskip, pieces_append_plain hc, ih s le_rfl]
        · have hunicode := spelling.isSome_replace_unicode ih m
          rw [cuts, ht]
          rcases hbefore with rfl | ⟨k, hk, rfl⟩
          · rw [List.nil_append, hunicode]
          · have hsuffix : old.take 2 <:+ unicodeEscape k ++ unicodeEscape m ↔
                old.take 2 <:+ unicodeEscape m := by
              rw [spelling.take_two]
              refine ⟨fun h => ?_, fun h => h.trans (List.suffix_append _ _)⟩
              exact List.suffix_of_suffix_length_le h (List.suffix_append _ _) (by simp [unicodeEscape])
            rw [List.append_assoc, spelling.isSome_replace_high, hunicode]
            simp only [hsuffix]

theorem Spelling.isSome_rewordStr (s : Str) : (rewordStr old new s).isSome = !cuts old s := by
  rw [rewordStr, decode, Option.isSome_map, spelling.isSome_pieces]

end Reading

mutual
theorem Spelling.isSome_reword {old new : Text} {o o₂ o₃ n n₂ : Char} {old' new' : Text}
    (spelling : Spelling old new o o₂ o₃ n n₂ old' new') :
    (j : Json) → (reword old new j).isSome = !cutsIn old j
  | .null => rfl
  | .bool _ => rfl
  | .int _ => rfl
  | .float _ => rfl
  | .str s => by rw [reword, Option.isSome_map, spelling.isSome_rewordStr, cutsIn]
  | .arr xs => by rw [reword, Option.isSome_map, spelling.isSome_rewordItems xs, cutsIn]
  | .obj ms => by rw [reword, Option.isSome_map, spelling.isSome_rewordMembers ms, cutsIn]
theorem Spelling.isSome_rewordItems {old new : Text} {o o₂ o₃ n n₂ : Char} {old' new' : Text}
    (spelling : Spelling old new o o₂ o₃ n n₂ old' new') :
    (xs : List Json) → (rewordItems old new xs).isSome = !cutsItems old xs
  | [] => rfl
  | x :: xs => by
    rw [rewordItems, cutsItems, Bool.not_or, ← spelling.isSome_reword x,
      ← spelling.isSome_rewordItems xs]
    cases reword old new x with
    | none => rfl
    | some v => simp
theorem Spelling.isSome_rewordMembers {old new : Text} {o o₂ o₃ n n₂ : Char} {old' new' : Text}
    (spelling : Spelling old new o o₂ o₃ n n₂ old' new') :
    (ms : List (Str × Json)) → (rewordMembers old new ms).isSome = !cutsMembers old ms
  | [] => rfl
  | (k, v) :: ms => by
    rw [rewordMembers, cutsMembers, Bool.not_or, Bool.not_or, ← spelling.isSome_rewordStr k,
      ← spelling.isSome_reword v, ← spelling.isSome_rewordMembers ms]
    cases rewordStr old new k with
    | none => rfl
    | some l => cases reword old new v with
      | none => rfl
      | some w => simp
end

/-- The replaced text of a value can be read unless an escape is cut. -/
theorem Spelling.loads_replace {old new : Text} {o o₂ o₃ n n₂ : Char} {old' new' : Text}
    (spelling : Spelling old new o o₂ o₃ n n₂ old' new') {j : Json} (h : Loadable j) :
    (∃ v, loads (replace old new (dumps j)) = .ok v) ↔ cutsIn old j = false := by
  have hsome := spelling.isSome_reword j
  simp only [spelling.words.loads_replace h, ← Option.isSome_iff_exists, hsome,
    Bool.not_eq_true']

end AgentTestHarness.CutEscapes
