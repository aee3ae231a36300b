import AgentTestHarness.JsonReplacing
import AgentTestHarness.JsonRoundTrip

/-! Replacing `"name": "old"` in a text that `json.dumps` wrote. The match may begin at a quote
that is escaped, at the end of a longer name; in either case only the value of a member changes. -/
namespace AgentTestHarness.WrittenStates
open PyText OrderedDict PyJson JsonText JsonReading JsonWriting JsonReplacing JsonRoundTrip

/-- Characters that are written as themselves. -/
def Plain (w : Text) : Prop := ∀ c ∈ w, ' ' ≤ c ∧ c ≤ '~' ∧ c ≠ '"' ∧ c ≠ '\\'

instance (w : Text) : Decidable (Plain w) := inferInstanceAs (Decidable (∀ c ∈ w, _))

theorem escape_cases (p : CodePoint) :
    (∃ t, escape p = '\\' :: t) ∨ ∃ c, p = .ch c ∧ escape p = [c] ∧ c ≠ '"' ∧ c ≠ '\\' := by
  cases p with
  | surrogate n => exact .inl ⟨_, rfl⟩
  | ch c =>
    rcases escapeChar_cases c with ⟨e, ht, -⟩ | ⟨ht, -, hquote, hescape, -⟩ | ⟨n, -, ht, -⟩ |
      ⟨m, -, n, -, ht, -⟩
    · exact .inl ⟨_, ht⟩
    · exact .inr ⟨c, rfl, ht, hquote, hescape⟩
    · exact .inl ⟨_, ht⟩
    · exact .inl ⟨_, ht⟩

/-- A quote is written only for a quote. -/
theorem quote_escape (p : CodePoint) : p = .ch '"' ∨ '"' ∉ escape p := by
  have hunicode : ∀ n, '"' ∉ unicodeEscape n := by
    intro n hmem
    simp only [unicodeEscape, List.mem_cons] at hmem
    rcases hmem with hmem | hmem | hmem
    · exact absurd hmem (by decide)
    · exact absurd hmem (by decide)
    · exact (hex4_plain n _ hmem).1 rfl
  cases p with
  | surrogate n => exact .inr (hunicode _)
  | ch c =>
    rcases escapeChar_cases c with ⟨e, ht, he, -⟩ | ⟨ht, -, hquote, -⟩ | ⟨n, -, ht, -⟩ |
      ⟨m, -, n, -, ht, -⟩
    · by_cases hq : e = '"'
      · subst hq
        exact .inl (congrArg CodePoint.ch (Option.some.inj he).symm)
      · refine .inr fun hmem => ?_
        rw [escape, ht] at hmem
        simp [Ne.symm hq] at hmem
    · refine .inr fun hmem => ?_
      rw [escape, ht] at hmem
      exact hquote (List.mem_singleton.mp hmem).symm
    · exact .inr (by rw [escape, ht]; exact hunicode n)
    · refine .inr ?_
      rw [escape, ht, List.mem_append, not_or]
      exact ⟨hunicode m, hunicode n⟩

theorem escapeChar_plain {c : Char} (hlow : ' ' ≤ c) (hhigh : c ≤ '~') (hquote : c ≠ '"')
    (hescape : c ≠ '\\') : escapeChar c = [c] := by
  have hne : ∀ d : Char, d < ' ' → c ≠ d := by
    rintro d hd rfl
    exact absurd hlow (Char.not_le.mpr hd)
  rw [escapeChar, if_neg hquote, if_neg hescape, if_neg (hne _ (by decide)),
    if_neg (hne _ (by decide)), if_neg (hne _ (by decide)), if_neg (hne _ (by decide)),
    if_neg (hne _ (by decide)), if_pos ⟨hlow, hhigh⟩]

theorem escape_ofText {w : Text} (h : Plain w) : (ofText w).flatMap escape = w := by
  induction w with
  | nil => rfl
  | cons c w ih =>
    obtain ⟨⟨hlow, hhigh, hquote, hescape⟩, hw⟩ := List.forall_mem_cons.mp h
    rw [ofText, List.map_cons, List.flatMap_cons, escape, escapeChar_plain hlow hhigh hquote hescape,
      ← ofText, ih hw]
    rfl

/-- Where a written string begins with a text and a quote, the text is the whole string. -/
theorem written_isPrefix {w : Text} (hw : ∀ c ∈ w, c ≠ '"' ∧ c ≠ '\\') {s : Str} {x b : Text}
    (h : w ++ '"' :: x <+: s.flatMap escape ++ '"' :: b) : s = ofText w ∧ x <+: b := by
  induction w generalizing s with
  | nil =>
    cases s with
    | nil => exact ⟨rfl, (List.cons_prefix_cons.mp h).2⟩
    | cons p s =>
      rw [List.flatMap_cons, List.append_assoc] at h
      rcases escape_cases p with ⟨t, ht⟩ | ⟨c, rfl, ht, hquote, -⟩
      · rw [ht] at h
        exact absurd (List.cons_prefix_cons.mp h).1 (by decide)
      · rw [ht] at h
        exact absurd (List.cons_prefix_cons.mp h).1.symm hquote
  | cons d w ih =>
    obtain ⟨⟨hquote, hescape⟩, hw⟩ := List.forall_mem_cons.mp hw
    cases s with
    | nil => exact absurd (List.cons_prefix_cons.mp h).1 hquote
    | cons p s =>
      rw [List.flatMap_cons, List.append_assoc] at h
      rcases escape_cases p with ⟨t, ht⟩ | ⟨c, rfl, ht, -⟩
      · rw [ht] at h
        exact absurd (List.cons_prefix_cons.mp h).1 hescape
      · rw [ht] at h
        obtain ⟨rfl, hrest⟩ := List.cons_prefix_cons.mp h
        obtain ⟨rfl, hx⟩ := ih hw hrest
        exact ⟨rfl, hx⟩

/-- The texts are written as they are, and none of the name ends a word. -/
structure Fit (name old new : Text) : Prop where
  nonempty : name ≠ []
  words : ∀ c ∈ name, endsWord c = false
  name : Plain name
  old : Plain old
  new : Plain new

/-- In a text a member of this name seems to have the name: it is the name, or ends in a quote and
the name. -/
def Named (name : Text) (s : Str) : Prop := s = ofText name ∨ (.ch '"' :: ofText name) <:+ s

instance (name : Text) (s : Str) : Decidable (Named name s) :=
  inferInstanceAs (Decidable (_ ∨ _))

/-- What follows a name that is written as a member with the value. -/
def valueText (value : Text) : Text := ':' :: ' ' :: quoted value

theorem not_suffix_ofText {name : Text} : ¬ (.ch '"' :: ofText name) <:+ ofText name :=
  fun h => Nat.not_succ_le_self _ h.length_le

section Strings

variable {name old new : Text}

theorem replace_quote_free (name old new : Text) {t : Text} (h : '"' ∉ t) (b : Text) :
    replace (memberText name old) (memberText name new) (t ++ b) =
      t ++ replace (memberText name old) (memberText name new) b := by
  induction t with
  | nil => rfl
  | cons c t ih =>
    rw [List.mem_cons, not_or] at h
    rw [List.cons_append, replace_cons_of_not, ih h.2, List.cons_append]
    exact fun hp => h.1 (List.cons_prefix_cons.mp hp).1

theorem memberText_isPrefix {s : Text} :
    memberText name old <+: '"' :: s ↔ name ++ '"' :: valueText old <+: s := by
  rw [memberText, quoted, List.cons_append, List.cons_append, List.cons_prefix_cons]
  simp [valueText]

variable (fit : Fit name old new)
include fit

/-- A match at the opening quote of a string is at its name. -/
theorem Fit.prefix_written {s : Str} {b : Text}
    (h : memberText name old <+: '"' :: (s.flatMap escape ++ '"' :: b)) :
    s = ofText name ∧ valueText old <+: b :=
  written_isPrefix (fun c hc => (fit.name c hc).2.2) (memberText_isPrefix.mp h)

/-- A quote that closes a string begins no match. -/
theorem Fit.not_prefix_close {b : Text} (hb : ∀ c ∈ b.head?, endsWord c = true) :
    ¬ memberText name old <+: '"' :: b := by
  rw [memberText_isPrefix]
  intro h
  obtain ⟨c, rest, rfl⟩ := List.exists_cons_of_ne_nil fit.nonempty
  cases b with
  | nil => exact absurd (List.prefix_nil.mp h) (by simp)
  | cons d b =>
    obtain rfl : c = d := (List.cons_prefix_cons.mp h).1
    have hends := hb c rfl
    rw [fit.words c List.mem_cons_self] at hends
    exact absurd hends (by simp)

/-- The rest of a string behind its opening quote. -/
theorem Fit.replace_rest {s : Str} {b : Text} (hb : ∀ c ∈ b.head?, endsWord c = true)
    (hmiss : ¬ ((.ch '"' :: ofText name) <:+ s ∧ valueText old <+: b)) :
    replace (memberText name old) (memberText name new) (s.flatMap escape ++ '"' :: b) =
      s.flatMap escape ++ '"' :: replace (memberText name old) (memberText name new) b := by
  induction s with
  | nil => exact replace_cons_of_not (fit.not_prefix_close hb) _
  | cons p s ih =>
    have ih := ih fun h => hmiss ⟨h.1.trans (List.suffix_cons p s), h.2⟩
    rw [List.flatMap_cons, List.append_assoc, List.append_assoc]
    rcases quote_escape p with rfl | hp
    · have hquote : ¬ memberText name old <+: '"' :: (s.flatMap escape ++ '"' :: b) := by
        intro h
        obtain ⟨rfl, hvalue⟩ := fit.prefix_written h
        exact hmiss ⟨List.suffix_rfl, hvalue⟩
      have hskip := replace_quote_free name old new
        (t := ['\\']) (by decide) ('"' :: (s.flatMap escape ++ '"' :: b))
      rw [replace_cons_of_not hquote, ih] at hskip
      exact hskip
    · rw [replace_quote_free _ _ _ hp, ih]

theorem Fit.replace_rest_hit {s : Str} (r : Text) (hs : (.ch '"' :: ofText name) <:+ s) :
    replace (memberText name old) (memberText name new)
        (s.flatMap escape ++ '"' :: (valueText old ++ r)) =
      s.flatMap escape ++ '"' :: (valueText new ++
        replace (memberText name old) (memberText name new) r) := by
  induction s with
  | nil => exact absurd (List.suffix_nil.mp hs) (by simp)
  | cons p s ih =>
    rw [List.flatMap_cons, List.append_assoc, List.append_assoc]
    rcases List.suffix_cons_iff.mp hs with heq | hrest
    · obtain ⟨rfl, rfl⟩ := List.cons.inj heq
      have hskip := replace_quote_free name old new
        (t := ['\\']) (by decide) (memberText name old ++ r)
      have hne : memberText name old ≠ [] := by simp [memberText, quoted]
      rw [replace_append hne] at hskip
      rw [escape_ofText fit.name]
      simpa [escape, escapeChar, memberText, quoted, valueText] using hskip
    · have ih := ih hrest
      rcases quote_escape p with rfl | hp
      · have hquote : ¬ memberText name old <+:
            '"' :: (s.flatMap escape ++ '"' :: (valueText old ++ r)) := by
          intro h
          obtain ⟨rfl, -⟩ := fit.prefix_written h
          exact not_suffix_ofText hrest
        have hskip := replace_quote_free name old new
          (t := ['\\']) (by decide) ('"' :: (s.flatMap escape ++ '"' :: (valueText old ++ r)))
        rw [replace_cons_of_not hquote, ih] at hskip
        exact hskip
      · rw [replace_quote_free _ _ _ hp, ih]

theorem Fit.replace_string {s : Str} {b : Text} (hb : ∀ c ∈ b.head?, endsWord c = true)
    (hmiss : ¬ (Named name s ∧ valueText old <+: b)) :
    replace (memberText name old) (memberText name new) (dumpsStr s ++ b) =
      dumpsStr s ++ replace (memberText name old) (memberText name new) b := by
  have hopen : ¬ memberText name old <+: '"' :: (s.flatMap escape ++ '"' :: b) := by
    intro h
    obtain ⟨hs, hvalue⟩ := fit.prefix_written h
    exact hmiss ⟨.inl hs, hvalue⟩
  have hrest := fit.replace_rest hb fun h => hmiss ⟨.inr h.1, h.2⟩
  have htext : ∀ t, dumpsStr s ++ t = '"' :: (s.flatMap escape ++ '"' :: t) := by
    simp [dumpsStr]
  rw [htext, htext, replace_cons_of_not hopen, hrest]

theorem Fit.replace_string_hit {s : Str} (r : Text) (hs : Named name s) :
    replace (memberText name old) (memberText name new) (dumpsStr s ++ (valueText old ++ r)) =
      dumpsStr s ++ (valueText new ++
        replace (memberText name old) (memberText name new) r) := by
  have htext : ∀ t, dumpsStr s ++ t = '"' :: (s.flatMap escape ++ '"' :: t) := by
    simp [dumpsStr]
  rcases hs with rfl | hs
  · have hmember : ∀ value t,
        dumpsStr (ofText name) ++ (valueText value ++ t) = memberText name value ++ t := by
      simp [dumpsStr, escape_ofText fit.name, memberText, quoted, valueText]
    have hne : memberText name old ≠ [] := by simp [memberText, quoted]
    rw [hmember, hmember, replace_append hne]
  · have hopen : ¬ memberText name old <+:
        '"' :: (s.flatMap escape ++ '"' :: (valueText old ++ r)) := by
      intro h
      obtain ⟨rfl, -⟩ := fit.prefix_written h
      exact not_suffix_ofText hs
    rw [htext, htext, replace_cons_of_not hopen, fit.replace_rest_hit r hs]

end Strings

mutual
/-- The value with every member of the name and the old value given the new one. -/
def turn (name old new : Text) : Json → Json
  | .arr xs => .arr (turnItems name old new xs)
  | .obj ms => .obj (turnMembers name old new ms)
  | j => j
def turnItems (name old new : Text) : List Json → List Json
  | [] => []
  | x :: xs => turn name old new x :: turnItems name old new xs
def turnMembers (name old new : Text) : List (Str × Json) → List (Str × Json)
  | [] => []
  | (k, v) :: ms =>
    (k, if Named name k ∧ v = .str (ofText old) then .str (ofText new) else turn name old new v) ::
      turnMembers name old new ms
end

theorem follow_cons {c : Char} (h : endsWord c = true ∧ c ≠ '"' ∧ c ≠ ':') (r : Text) :
    Follow (c :: r) := by
  intro d hd
  obtain rfl : c = d := Option.some.inj hd
  exact h

theorem follow_dumpsItems (xs : List Json) (r : Text) : Follow (dumpsItems xs ++ ']' :: r) := by
  cases xs with
  | nil => exact follow_cons (by decide) r
  | cons x xs => exact follow_cons (c := ',') (by decide) _

theorem follow_dumpsMembers (ms : List (Str × Json)) (r : Text) :
    Follow (dumpsMembers ms ++ '}' :: r) := by
  cases ms with
  | nil => exact follow_cons (by decide) r
  | cons m ms => exact follow_cons (c := ',') (by decide) _

theorem quote_not_mem_word {w : Text} (h : ∀ c ∈ w, endsWord c = false) : '"' ∉ w :=
  fun hm => absurd (h _ hm) (by decide)

/-- Only a string is written with a quote in front. -/
theorem eq_str_of_quote {v : Json} (h : Loadable v) {r t : Text} (hv : dumps v ++ r = '"' :: t) :
    ∃ s, v = .str s := by
  have hword : ∀ w : Text, w ≠ [] → '"' ∉ w → w ++ r ≠ '"' :: t := by
    intro w hne hquote heq
    obtain ⟨c, w, rfl⟩ := List.exists_cons_of_ne_nil hne
    obtain rfl : c = '"' := (List.cons.inj heq).1
    exact hquote List.mem_cons_self
  cases v with
  | null => exact absurd hv (hword _ (by decide) (by decide))
  | bool b => cases b <;> exact absurd hv (hword _ (by decide) (by decide))
  | int n => exact absurd hv (hword _ (dumpsInt_word n).1 (quote_not_mem_word (dumpsInt_word n).2))
  | float w => exact absurd hv (hword _ h.1.1 (quote_not_mem_word h.1.2))
  | str s => exact ⟨s, rfl⟩
  | arr xs =>
    cases xs with
    | nil => exact absurd (List.cons.inj hv).1 (by decide)
    | cons x xs => exact absurd (List.cons.inj hv).1 (by decide)
  | obj ms =>
    cases ms with
    | nil => exact absurd (List.cons.inj hv).1 (by decide)
    | cons m ms => exact absurd (List.cons.inj hv).1 (by decide)

theorem dumps_plain {value : Text} (h : Plain value) :
    dumps (.str (ofText value)) = quoted value := by
  rw [dumps, dumpsStr, escape_ofText h, quoted]

theorem dumps_obj_cons (k : Str) (v : Json) (ms : List (Str × Json)) (r : Text) :
    dumps (.obj ((k, v) :: ms)) ++ r =
      '{' :: (dumpsStr k ++ ':' :: ' ' :: (dumps v ++ (dumpsMembers ms ++ '}' :: r))) := by
  rw [dumps]
  simp

theorem dumps_arr_cons (x : Json) (xs : List Json) (r : Text) :
    dumps (.arr (x :: xs)) ++ r = '[' :: (dumps x ++ (dumpsItems xs ++ ']' :: r)) := by
  rw [dumps]
  simp

section Values

variable {name old new : Text} (fit : Fit name old new)
include fit

theorem Fit.eq_old {v : Json} (h : Loadable v) {r : Text}
    (hv : valueText old <+: ':' :: ' ' :: (dumps v ++ r)) : v = .str (ofText old) := by
  have hquoted : quoted old <+: dumps v ++ r :=
    (List.cons_prefix_cons.mp (List.cons_prefix_cons.mp hv).2).2
  cases htext : dumps v ++ r with
  | nil =>
    rw [htext] at hquoted
    exact absurd (List.prefix_nil.mp hquoted) (by simp [quoted])
  | cons c t =>
    rw [htext, quoted, List.cons_append] at hquoted
    obtain ⟨rfl, hrest⟩ := List.cons_prefix_cons.mp hquoted
    obtain ⟨s, rfl⟩ := eq_str_of_quote h htext
    have hs : s.flatMap escape ++ '"' :: r = t := by
      simpa [dumps, dumpsStr] using (List.cons.inj htext).2
    rw [← hs] at hrest
    exact congrArg Json.str
      (written_isPrefix (x := []) (fun c hc => (fit.old c hc).2.2) (by simpa using hrest)).1

/-- A member, its value apart where that is turned with it. -/
theorem Fit.replace_member {k : Str} {v : Json} (h : Loadable v) {r : Text}
    (ih : replace (memberText name old) (memberText name new) (dumps v ++ r) =
      dumps (turn name old new v) ++ replace (memberText name old) (memberText name new) r) :
    replace (memberText name old) (memberText name new)
        (dumpsStr k ++ ':' :: ' ' :: (dumps v ++ r)) =
      dumpsStr k ++ ':' :: ' ' ::
        (dumps (if Named name k ∧ v = .str (ofText old) then .str (ofText new)
          else turn name old new v) ++
        replace (memberText name old) (memberText name new) r) := by
  split
  · next hhit =>
    obtain ⟨hk, rfl⟩ := hhit
    rw [dumps_plain fit.old, dumps_plain fit.new]
    exact fit.replace_string_hit r hk
  · next hmiss =>
    have hskip := replace_quote_free name old new
      (t := [':', ' ']) (by decide) (dumps v ++ r)
    have hends : ∀ c ∈ (':' :: ' ' :: (dumps v ++ r)).head?, endsWord c = true := by
      intro c hc
      obtain rfl : ':' = c := Option.some.inj hc
      rfl
    rw [fit.replace_string hends fun hvalue => hmiss ⟨hvalue.1, fit.eq_old h hvalue.2⟩, ← ih]
    exact congrArg (dumpsStr k ++ ·) hskip

end Values

mutual
/-- Replacing in the written text is turning the value. -/
theorem Fit.replace_dumps {name old new : Text} (fit : Fit name old new) : (j : Json) →
    Loadable j → (r : Text) → Follow r →
    replace (memberText name old) (memberText name new) (dumps j ++ r) =
      dumps (turn name old new j) ++ replace (memberText name old) (memberText name new) r
  | .null, _, r, _ => replace_quote_free _ _ _ (by decide) r
  | .bool true, _, r, _ => replace_quote_free _ _ _ (by decide) r
  | .bool false, _, r, _ => replace_quote_free _ _ _ (by decide) r
  | .int n, _, r, _ => replace_quote_free _ _ _ (quote_not_mem_word (dumpsInt_word n).2) r
  | .float w, h, r, _ => replace_quote_free _ _ _ (quote_not_mem_word h.1.2) r
  | .str s, _, r, hr => by
    refine fit.replace_string (fun c hc => (hr c hc).1) ?_
    rintro ⟨-, hvalue⟩
    cases r with
    | nil => exact absurd (List.prefix_nil.mp hvalue) (by simp [valueText])
    | cons c r => exact (hr c rfl).2.2 (List.cons_prefix_cons.mp hvalue).1.symm
  | .arr [], _, r, _ => replace_quote_free _ _ _ (by decide) r
  | .obj [], _, r, _ => replace_quote_free _ _ _ (by decide) r
  | .arr (x :: xs), h, r, _ => by
    have hx := fit.replace_dumps x h.1 (dumpsItems xs ++ ']' :: r) (follow_dumpsItems xs r)
    have hopen := replace_quote_free name old new
      (t := ['[']) (by decide) (dumps x ++ (dumpsItems xs ++ ']' :: r))
    rw [hx, fit.replace_dumpsItems xs h.2 r] at hopen
    rw [dumps_arr_cons, turn, turnItems, dumps_arr_cons]
    exact hopen
  | .obj ((k, v) :: ms), h, r, _ => by
    have hv := fit.replace_dumps v h.2.1.2 (dumpsMembers ms ++ '}' :: r) (follow_dumpsMembers ms r)
    have hopen := replace_quote_free name old new (t := ['{'])
      (by decide) (dumpsStr k ++ ':' :: ' ' :: (dumps v ++ (dumpsMembers ms ++ '}' :: r)))
    rw [fit.replace_member h.2.1.2 hv, fit.replace_dumpsMembers ms h.2.2 r] at hopen
    rw [dumps_obj_cons, turn, turnMembers, dumps_obj_cons]
    exact hopen
theorem Fit.replace_dumpsItems {name old new : Text} (fit : Fit name old new) :
    (xs : List Json) → LoadableItems xs → (r : Text) →
    replace (memberText name old) (memberText name new) (dumpsItems xs ++ ']' :: r) =
      dumpsItems (turnItems name old new xs) ++
        ']' :: replace (memberText name old) (memberText name new) r
  | [], _, r => replace_quote_free _ _ _ (t := [']']) (by decide) r
  | x :: xs, h, r => by
    have hx := fit.replace_dumps x h.1 (dumpsItems xs ++ ']' :: r) (follow_dumpsItems xs r)
    have hopen := replace_quote_free name old new
      (t := [',', ' ']) (by decide) (dumps x ++ (dumpsItems xs ++ ']' :: r))
    rw [hx, fit.replace_dumpsItems xs h.2 r] at hopen
    rw [turnItems, dumpsItems, dumpsItems]
    simpa using hopen
theorem Fit.replace_dumpsMembers {name old new : Text} (fit : Fit name old new) :
    (ms : List (Str × Json)) → LoadableMembers ms → (r : Text) →
    replace (memberText name old) (memberText name new) (dumpsMembers ms ++ '}' :: r) =
      dumpsMembers (turnMembers name old new ms) ++
        '}' :: replace (memberText name old) (memberText name new) r
  | [], _, r => replace_quote_free _ _ _ (t := ['}']) (by decide) r
  | (k, v) :: ms, h, r => by
    have hv := fit.replace_dumps v h.1.2 (dumpsMembers ms ++ '}' :: r) (follow_dumpsMembers ms r)
    have hopen := replace_quote_free name old new (t := [',', ' '])
      (by decide) (dumpsStr k ++ ':' :: ' ' :: (dumps v ++ (dumpsMembers ms ++ '}' :: r)))
    rw [fit.replace_member h.1.2 hv, fit.replace_dumpsMembers ms h.2 r] at hopen
    rw [turnMembers, dumpsMembers, dumpsMembers]
    simpa using hopen
end

/-! A turned value can be loaded if the value can, and has the same names. -/

theorem keys_turnMembers (name old new : Text) (ms : List (Str × Json)) :
    (turnMembers name old new ms).map Prod.fst = ms.map Prod.fst := by
  induction ms with
  | nil => rfl
  | cons m ms ih => rw [turnMembers, List.map_cons, List.map_cons, ih]

mutual
theorem loadable_turn (name old new : Text) : (j : Json) → Loadable j →
    Loadable (turn name old new j)
  | .null, _ => trivial
  | .bool _, _ => trivial
  | .int _, _ => trivial
  | .float _, h => h
  | .str _, h => h
  | .arr xs, h => loadable_turnItems name old new xs h
  | .obj ms, h => ⟨by rw [keys_turnMembers]; exact h.1, loadable_turnMembers name old new ms h.2⟩
theorem loadable_turnItems (name old new : Text) : (xs : List Json) → LoadableItems xs →
    LoadableItems (turnItems name old new xs)
  | [], _ => trivial
  | x :: xs, h => ⟨loadable_turn name old new x h.1, loadable_turnItems name old new xs h.2⟩
theorem loadable_turnMembers (name old new : Text) : (ms : List (Str × Json)) →
    LoadableMembers ms → LoadableMembers (turnMembers name old new ms)
  | [], _ => trivial
  | (k, v) :: ms, h => by
    refine ⟨⟨h.1.1, ?_⟩, loadable_turnMembers name old new ms h.2⟩
    split
    · exact unpaired_ofText new
    · exact loadable_turn name old new v h.1.2
end

theorem lookup_turnMembers {name old : Text} (new : Text) {ms : List (Str × Json)}
    (h : lookup (ofText name) ms = some (.str (ofText old))) :
    lookup (ofText name) (turnMembers name old new ms) = some (.str (ofText new)) := by
  induction ms with
  | nil => exact absurd h (by simp)
  | cons m ms ih =>
    rw [lookup_cons] at h
    rw [turnMembers, lookup_cons]
    split at h
    · next hk =>
      rw [if_pos hk, if_pos ⟨.inl hk, Option.some.inj h⟩]
    · next hk =>
      rw [if_neg hk, ih h]

/-- The text after the replacement is that of the turned value. -/
theorem Fit.loads_replace {name old new : Text} (fit : Fit name old new) {j : Json}
    (h : Loadable j) :
    loads (replace (memberText name old) (memberText name new) (dumps j)) =
      .ok (turn name old new j) := by
  have hdumps := fit.replace_dumps j h [] (by simp [Follow])
  rw [replace_nil, List.append_nil, List.append_nil] at hdumps
  rw [hdumps, loads_dumps (loadable_turn name old new j h)]

end AgentTestHarness.WrittenStates
