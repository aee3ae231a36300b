import AgentTestHarness.JsonMember

/-! Textual replacement on a JSON text without escapes is a replacement in its tree, and it
leaves the value alone only where it finds nothing. -/
namespace AgentTestHarness.JsonReplacing
open PyText OrderedDict PyJson JsonText JsonReading JsonMember

/-- What is replaced: a word wherever it stands in a string, or the value of the members of a
name that are spelled `"name": "old"`. -/
inductive Replacement
  | inStrings (old new : Text)
  | ofMember (name old new : Text)

def memberText (name state : Text) : Text := quoted name ++ ':' :: ' ' :: quoted state

namespace Replacement

def old : Replacement → Text
  | .inStrings old _ => old
  | .ofMember name old _ => memberText name old

def new : Replacement → Text
  | .inStrings _ new => new
  | .ofMember name _ new => memberText name new

def apply (ρ : Replacement) (s : Text) : Text := replace ρ.old ρ.new s

def inRaw : Replacement → Text → Text
  | .inStrings old new, raw => replace old new raw
  | .ofMember _ _ _, raw => raw

def inLabel (ρ : Replacement) (l : Label) : Label := { l with raw := ρ.inRaw l.raw }

/-- The new value of a member that is replaced as a whole. -/
def hit : Replacement → Label → Tree → Option Text
  | .ofMember name old new, l, .string raw =>
    if l.raw = name ∧ l.afterKey = [] ∧ l.beforeValue = [' '] ∧ raw = old then some new else none
  | _, _, _ => none

mutual
def inTree (ρ : Replacement) : Tree → Tree
  | .word w => .word w
  | .string raw => .string (ρ.inRaw raw)
  | .emptyArray pad => .emptyArray pad
  | .array items => .array (inItems ρ items)
  | .emptyObject pad => .emptyObject pad
  | .object members => .object (inMembers ρ members)
def inItems (ρ : Replacement) : Items → Items
  | .last before t after => .last before (inTree ρ t) after
  | .more before t after rest => .more before (inTree ρ t) after (inItems ρ rest)
def inMembers (ρ : Replacement) : Members → Members
  | .last l t after =>
    .last (ρ.inLabel l) (((ρ.hit l t).map Tree.string).getD (inTree ρ t)) after
  | .more l t after rest =>
    .more (ρ.inLabel l) (((ρ.hit l t).map Tree.string).getD (inTree ρ t)) after (inMembers ρ rest)
end

end Replacement

/-- Characters that stand for themselves in a string. -/
def PlainText (s : Text) : Prop := ∀ c ∈ s, c ≠ '"' ∧ c ≠ '\\' ∧ ¬ c < ' '

instance (s : Text) : Decidable (PlainText s) := List.decidableBAll _ s

/-- The characters of numbers and keywords. -/
def wordChar (c : Char) : Bool :=
  c.isDigit || "+-.eEnultrfasNIiy".toList.contains c

/-- The pattern is made of plain characters that end no word, and it fits in no word. -/
def Replacement.Proper : Replacement → Prop
  | .inStrings old new =>
    old ≠ [] ∧ (∀ c ∈ old, endsWord c = false) ∧ (∃ c ∈ old, wordChar c = false) ∧
      PlainText new ∧ PlainText old
  | .ofMember name old new =>
    name ≠ [] ∧ (∀ c ∈ name, endsWord c = false) ∧ PlainText old ∧ PlainText new ∧
      ∀ c ∈ old, endsWord c = false

instance (ρ : Replacement) : Decidable ρ.Proper :=
  match ρ with
  | .inStrings old new => inferInstanceAs (Decidable (old ≠ [] ∧ (∀ c ∈ old, endsWord c = false) ∧
      (∃ c ∈ old, wordChar c = false) ∧ PlainText new ∧ PlainText old))
  | .ofMember name old new => inferInstanceAs (Decidable (name ≠ [] ∧
      (∀ c ∈ name, endsWord c = false) ∧ PlainText old ∧ PlainText new ∧
      ∀ c ∈ old, endsWord c = false))

mutual
/-- Trees of texts without escapes in which no object repeats a name. -/
def Simple : Tree → Prop
  | .word w => ∃ v, readWord w = some v
  | .string raw => PlainText raw
  | .emptyArray _ => True
  | .array items => SimpleItems items
  | .emptyObject _ => True
  | .object members => (names members).Nodup ∧ SimpleMembers members
def SimpleItems : Items → Prop
  | .last _ t _ => Simple t
  | .more _ t _ rest => Simple t ∧ SimpleItems rest
def SimpleMembers : Members → Prop
  | .last l t _ => PlainText l.raw ∧ Simple t
  | .more l t _ rest => PlainText l.raw ∧ Simple t ∧ SimpleMembers rest
def names : Members → List Text
  | .last l _ _ => [l.raw]
  | .more l _ _ rest => l.raw :: names rest
end

/-- The strings in which what is replaced can be found: a word may be anywhere in any string. -/
def Replacement.Takes : Replacement → Text → Prop
  | .inStrings _ _, _ => True
  | .ofMember _ _ _, raw => PlainText raw

mutual
def Taken (ρ : Replacement) : Tree → Prop
  | .word w => ∃ v, readWord w = some v
  | .string raw => ρ.Takes raw
  | .emptyArray _ => True
  | .array items => TakenItems ρ items
  | .emptyObject _ => True
  | .object members => TakenMembers ρ members
def TakenItems (ρ : Replacement) : Items → Prop
  | .last _ t _ => Taken ρ t
  | .more _ t _ rest => Taken ρ t ∧ TakenItems ρ rest
def TakenMembers (ρ : Replacement) : Members → Prop
  | .last l t _ => ρ.Takes l.raw ∧ Taken ρ t
  | .more l t _ rest => ρ.Takes l.raw ∧ Taken ρ t ∧ TakenMembers ρ rest
end

theorem takes_of_plain {ρ : Replacement} {raw : Text} (h : PlainText raw) : ρ.Takes raw := by
  cases ρ with
  | inStrings old new => trivial
  | ofMember name old new => exact h

mutual
theorem taken_of_simple {ρ : Replacement} : (t : Tree) → Simple t → Taken ρ t
  | .word _, h => h
  | .string _, h => takes_of_plain h
  | .emptyArray _, _ => trivial
  | .array items, h => takenItems_of_simple items h
  | .emptyObject _, _ => trivial
  | .object members, h => takenMembers_of_simple members h.2
theorem takenItems_of_simple {ρ : Replacement} : (items : Items) → SimpleItems items →
    TakenItems ρ items
  | .last _ t _, h => taken_of_simple t h
  | .more _ t _ rest, h => ⟨taken_of_simple t h.1, takenItems_of_simple rest h.2⟩
theorem takenMembers_of_simple {ρ : Replacement} : (members : Members) → SimpleMembers members →
    TakenMembers ρ members
  | .last _ t _, h => ⟨takes_of_plain h.1, taken_of_simple t h.2⟩
  | .more _ t _ rest, h =>
    ⟨takes_of_plain h.1, taken_of_simple t h.2.1, takenMembers_of_simple rest h.2.2⟩
end

/-! Words. -/

theorem wordChar_of_validExponent {r : Text} (h : validExponent r = true) :
    ∀ c ∈ r, wordChar c = true := by
  have hdigits : ∀ digits : Text, digits.all Char.isDigit = true →
      ∀ c ∈ digits, wordChar c = true := by
    intro digits hall c hc
    simp [wordChar, List.all_eq_true.mp hall c hc]
  cases r with
  | nil => simp
  | cons e r =>
    simp only [validExponent, Bool.and_eq_true] at h
    obtain ⟨⟨he, -⟩, hall⟩ := h
    have hhead : wordChar e = true := by
      rcases Bool.or_eq_true_iff.mp he with he | he <;> rw [eq_of_beq he] <;> decide
    intro c hc
    rcases List.mem_cons.mp hc with rfl | hc
    · exact hhead
    · split at hall
      · next hsign =>
        cases r with
        | nil => simp at hc
        | cons d r =>
          have hd : wordChar d = true := by
            rcases hsign with hsign | hsign <;> rw [Option.some.inj hsign] <;> decide
          rcases List.mem_cons.mp hc with rfl | hc
          · exact hd
          · exact hdigits r hall c hc
      · exact hdigits r hall c hc

theorem wordChar_of_validFraction {r : Text} (h : validFraction r = true) :
    ∀ c ∈ r, wordChar c = true := by
  unfold validFraction at h
  split at h
  · next hdot =>
    cases r with
    | nil => simp at hdot
    | cons d r =>
      rw [Bool.and_eq_true] at h
      intro c hc
      rcases List.mem_cons.mp hc with rfl | hc
      · rw [Option.some.inj hdot]
        decide
      · rw [← List.takeWhile_append_dropWhile (p := Char.isDigit) (l := r)] at hc
        rcases List.mem_append.mp hc with hc | hc
        · simp [wordChar, List.mem_takeWhile_imp hc]
        · exact wordChar_of_validExponent h.2 c hc
  · exact wordChar_of_validExponent h

theorem wordChar_of_readNumber {w : Text} {v : Json} (h : readNumber w = some v) :
    ∀ c ∈ w, wordChar c = true := by
  unfold readNumber at h
  dsimp only at h
  have hunsigned : ∀ u : Text, (u.dropWhile Char.isDigit = [] ∨
      validFraction (u.dropWhile Char.isDigit) = true) → ∀ c ∈ u, wordChar c = true := by
    intro u hrest c hc
    rw [← List.takeWhile_append_dropWhile (p := Char.isDigit) (l := u)] at hc
    rcases List.mem_append.mp hc with hc | hc
    · simp [wordChar, List.mem_takeWhile_imp hc]
    · rcases hrest with hrest | hrest
      · simp [hrest] at hc
      · exact wordChar_of_validFraction hrest c hc
  have hrest : ∀ c ∈ (if w.head? = some '-' then w.tail else w), wordChar c = true := by
    apply hunsigned
    by_cases hsign : w.head? = some '-'
    · simp only [hsign, if_true] at h ⊢
      split at h
      · exact absurd h (by simp)
      · split at h
        · next he => exact .inl he
        · split at h
          · next hv => exact .inr hv
          · exact absurd h (by simp)
    · simp only [hsign, if_false] at h ⊢
      split at h
      · exact absurd h (by simp)
      · split at h
        · next he => exact .inl he
        · split at h
          · next hv => exact .inr hv
          · exact absurd h (by simp)
  intro c hc
  split at hrest
  · next hsign =>
    cases w with
    | nil => simp at hc
    | cons d w =>
      rcases List.mem_cons.mp hc with rfl | hc
      · rw [Option.some.inj hsign]
        decide
      · exact hrest c hc
  · exact hrest c hc

theorem wordChar_of_readWord {w : Text} {v : Json} (h : readWord w = some v) :
    ∀ c ∈ w, wordChar c = true := by
  unfold readWord at h
  split at h
  · next hw => rw [hw]; decide
  · split at h
    · next hw => rw [hw]; decide
    · split at h
      · next hw => rw [hw]; decide
      · split at h
        · next hw => rcases hw with hw | hw | hw <;> rw [hw] <;> decide
        · exact wordChar_of_readNumber h

/-! Replacement token by token. -/

section Tokens

variable {ρ : Replacement} (proper : ρ.Proper)
include proper

theorem old_ne_nil : ρ.old ≠ [] := by
  cases ρ with
  | inStrings old new => exact proper.1
  | ofMember name old new => simp [Replacement.old, memberText, quoted]

/-- No match begins at a character that ends a word, a quote apart. -/
theorem not_prefix_of_endsWord {c : Char} (hc : endsWord c = true) (hquote : c ≠ '"') (b : Text) :
    ¬ ρ.old <+: c :: b := by
  cases ρ with
  | inStrings old new =>
    refine not_prefix_cons proper.1 (fun hm => ?_) b
    rw [proper.2.1 c hm] at hc
    exact absurd hc (by simp)
  | ofMember name old new =>
    intro h
    exact hquote (List.cons_prefix_cons.mp h).1.symm

theorem apply_cons {c : Char} (hc : endsWord c = true) (hquote : c ≠ '"') (b : Text) :
    ρ.apply (c :: b) = c :: ρ.apply b :=
  replace_cons_of_not (not_prefix_of_endsWord proper hc hquote b) _

theorem apply_pad {pad : Text} (hpad : Pad pad) (b : Text) :
    ρ.apply (pad ++ b) = pad ++ ρ.apply b := by
  induction pad with
  | nil => rfl
  | cons c pad ih =>
    obtain ⟨hc, hpad⟩ := List.forall_mem_cons.mp hpad
    have hends : endsWord c = true := by simp [endsWord, hc]
    have hquote : c ≠ '"' := by
      rintro rfl
      exact absurd hc (by decide)
    rw [List.cons_append, apply_cons proper hends hquote, ih hpad, List.cons_append]

omit proper in
/-- Where a value ends: at whitespace, a comma or a closing bracket. -/
def Follow (r : Text) : Prop := ∀ c ∈ r.head?, endsWord c = true ∧ c ≠ '"' ∧ c ≠ ':'

theorem apply_word {w : Text} (hw : ∀ c ∈ w, wordChar c = true)
    (hends : ∀ c ∈ w, endsWord c = false) {r : Text} (hr : Follow r) :
    ρ.apply (w ++ r) = w ++ ρ.apply r := by
  cases ρ with
  | inStrings old new =>
    obtain ⟨hne, hold, ⟨d, hd, hdw⟩, -⟩ := proper
    have habsent : occurrences old w = 0 := by
      rw [occurrences_eq_zero_iff hne]
      intro h
      rw [hw d (h.subset hd)] at hdw
      exact absurd hdw (by simp)
    cases r with
    | nil => simp [Replacement.apply, Replacement.old, replace_of_absent _ habsent]
    | cons c r =>
      have hc : c ∉ old := by
        intro hm
        have := (hr c rfl).1
        rw [hold c hm] at this
        exact absurd this (by simp)
      have hcons := replace_append_cons hne hc new [] r
      simp only [Replacement.apply, Replacement.old, Replacement.new]
      rw [replace_append_cons hne hc, replace_of_absent _ habsent]
      simpa using hcons.symm
  | ofMember name old new =>
    induction w with
    | nil => rfl
    | cons c w ih =>
      have hc : c ≠ '"' := by
        rintro rfl
        exact absurd (hends _ List.mem_cons_self) (by decide)
      have hp : ¬ memberText name old <+: c :: (w ++ r) := fun h =>
        hc (List.cons_prefix_cons.mp h).1.symm
      have ih := ih (fun c hm => hw c (List.mem_cons_of_mem _ hm))
        fun c hm => hends c (List.mem_cons_of_mem _ hm)
      rw [List.cons_append, List.cons_append, ← ih]
      exact replace_cons_of_not hp _

omit proper in
/-- Two quoted texts that begin alike are the same. -/
theorem quoted_isPrefix {a b x y : Text} (ha : '"' ∉ a) (hb : '"' ∉ b)
    (h : quoted a ++ x <+: quoted b ++ y) : a = b ∧ x <+: y := by
  have h' : a ++ '"' :: x <+: b ++ '"' :: y := by
    simpa [quoted] using h
  clear h
  induction a generalizing b with
  | nil =>
    cases b with
    | nil => exact ⟨rfl, by simpa using h'⟩
    | cons c b => exact absurd (List.cons_prefix_cons.mp h').1 fun he => hb (by simp [← he])
  | cons d a ih =>
    cases b with
    | nil => exact absurd (List.cons_prefix_cons.mp h').1 fun he => ha (by simp [he])
    | cons c b =>
      obtain ⟨hdc, htail⟩ := List.cons_prefix_cons.mp h'
      obtain ⟨rfl, hxy⟩ := ih (fun hm => ha (List.mem_cons_of_mem _ hm))
        (fun hm => hb (List.mem_cons_of_mem _ hm)) htail
      subst hdc
      exact ⟨rfl, hxy⟩

omit proper in
theorem quote_not_mem {s : Text} (h : PlainText s) : '"' ∉ s := fun hm => (h _ hm).1 rfl

omit proper in
/-- A quoted text that is no match is kept; behind it the name of a member cannot begin. -/
theorem replace_quoted {name old new raw r : Text}
    (proper : (Replacement.ofMember name old new).Proper) (hraw : PlainText raw)
    (hr : ∀ c ∈ r.head?, endsWord c = true) (h : ¬ memberText name old <+: quoted raw ++ r) :
    (Replacement.ofMember name old new).apply (quoted raw ++ r) =
      quoted raw ++ (Replacement.ofMember name old new).apply r := by
  have hclose : ¬ memberText name old <+: '"' :: r := by
    intro hp
    obtain ⟨-, hp⟩ := List.cons_prefix_cons.mp hp
    obtain ⟨hne, hname, -⟩ := proper
    cases name with
    | nil => exact hne rfl
    | cons c name =>
      cases r with
      | nil => exact absurd (List.prefix_nil.mp hp) (by simp)
      | cons d r =>
        obtain rfl : c = d := (List.cons_prefix_cons.mp hp).1
        have := hr c rfl
        rw [hname c List.mem_cons_self] at this
        exact absurd this (by simp)
  have hinner : ∀ s : Text, (∀ c ∈ s, c ≠ '"') →
      replace (memberText name old) (memberText name new) (s ++ '"' :: r) =
        s ++ '"' :: replace (memberText name old) (memberText name new) r := by
    intro s hs
    induction s with
    | nil => exact replace_cons_of_not hclose _
    | cons c s ih =>
      obtain ⟨hc, hs⟩ := List.forall_mem_cons.mp hs
      have hp : ¬ memberText name old <+: c :: (s ++ '"' :: r) := fun hp =>
        hc (List.cons_prefix_cons.mp hp).1.symm
      rw [List.cons_append, replace_cons_of_not hp, ih hs, List.cons_append]
  have htext : quoted raw ++ r = '"' :: (raw ++ '"' :: r) := by simp [quoted]
  rw [htext] at h ⊢
  simp only [Replacement.apply, Replacement.old, Replacement.new]
  rw [replace_cons_of_not h, hinner raw fun c hc => (hraw c hc).1]
  simp [quoted]

theorem apply_string {raw : Text} (hraw : ρ.Takes raw) {r : Text} (hr : Follow r) :
    ρ.apply (quoted raw ++ r) = quoted (ρ.inRaw raw) ++ ρ.apply r := by
  cases ρ with
  | inStrings old new =>
    have hquote : '"' ∉ old := fun hm => absurd (proper.2.1 _ hm) (by decide)
    have htext : quoted raw ++ r = [] ++ '"' :: (raw ++ '"' :: r) := by simp [quoted]
    simp only [Replacement.apply, Replacement.old, Replacement.new, Replacement.inRaw]
    rw [htext, replace_append_cons proper.1 hquote, replace_append_cons proper.1 hquote]
    simp [quoted]
  | ofMember name old new =>
    refine replace_quoted proper hraw (fun c hc => (hr c hc).1) fun hp => ?_
    have hname : '"' ∉ name := fun hm => absurd (proper.2.1 _ hm) (by decide)
    obtain ⟨-, hp⟩ := quoted_isPrefix hname (quote_not_mem hraw) hp
    cases r with
    | nil => exact absurd (List.prefix_nil.mp hp) (by simp)
    | cons c r => exact (hr c rfl).2.2 (List.cons_prefix_cons.mp hp).1.symm

omit proper in
/-- A member in which the pattern begins is the one it is made for. -/
theorem hit_of_prefix {name old new : Text}
    (proper : (Replacement.ofMember name old new).Proper) {l : Label} (hl : l.Lexical)
    (hraw : PlainText l.raw) {t : Tree} (ht : t.Lexical)
    (taken : Taken (.ofMember name old new) t) {r : Text}
    (h : memberText name old <+:
      quoted l.raw ++ (l.afterKey ++ ':' :: (l.beforeValue ++ (t.render ++ r)))) :
    l.raw = name ∧ l.afterKey = [] ∧ l.beforeValue = [' '] ∧ t = .string old := by
  have hname : '"' ∉ name := fun hm => absurd (proper.2.1 _ hm) (by decide)
  obtain ⟨rfl, hp⟩ := quoted_isPrefix hname (quote_not_mem hraw) h
  have hkey : l.afterKey = [] := by
    cases hk : l.afterKey with
    | nil => rfl
    | cons c s =>
      rw [hk] at hp
      obtain rfl : ':' = c := (List.cons_prefix_cons.mp hp).1
      have := hl.afterKey ':' (by simp [hk])
      exact absurd this (by decide)
  rw [hkey, List.nil_append] at hp
  obtain ⟨-, hp⟩ := List.cons_prefix_cons.mp hp
  obtain ⟨c, s, hs, hspace, -⟩ := render_head ht
  cases hv : l.beforeValue with
  | nil =>
    rw [hv, hs] at hp
    obtain rfl : ' ' = c := (List.cons_prefix_cons.mp hp).1
    exact absurd hspace (by decide)
  | cons d pad =>
    rw [hv] at hp
    obtain ⟨hspace', htail⟩ := List.cons_prefix_cons.mp hp
    subst hspace'
    cases pad with
    | cons e pad =>
      obtain rfl : '"' = e := (List.cons_prefix_cons.mp htail).1
      have := hl.beforeValue '"' (by simp [hv])
      exact absurd this (by decide)
    | nil =>
      refine ⟨rfl, hkey, rfl, ?_⟩
      have hquote : c = '"' := by
        rw [hs] at htail
        exact (List.cons_prefix_cons.mp htail).1.symm
      cases t with
      | string raw =>
        have hvalue : quoted old ++ [] <+: quoted raw ++ r := by
          simpa [Tree.render] using htail
        rw [(quoted_isPrefix (quote_not_mem proper.2.2.1) (quote_not_mem taken) hvalue).1]
      | word w =>
        have : c ∈ w := by
          have hw : w = c :: s := hs
          simp [hw]
        have := ht.2 c this
        rw [hquote] at this
        exact absurd this (by decide)
      | emptyArray pad => simp [Tree.render, hquote] at hs
      | array items => simp [Tree.render, hquote] at hs
      | emptyObject pad => simp [Tree.render, hquote] at hs
      | object members => simp [Tree.render, hquote] at hs

/-- A member: its name and, unless it is replaced as a whole, its value. -/
theorem apply_member {l : Label} (hl : l.Lexical) (hraw : ρ.Takes l.raw) {t : Tree}
    (ht : t.Lexical) (taken : Taken ρ t) {r : Text}
    (ih : ρ.apply (t.render ++ r) = (ρ.inTree t).render ++ ρ.apply r) :
    ρ.apply (l.render ++ (t.render ++ r)) =
      (ρ.inLabel l).render ++ ((((ρ.hit l t).map Tree.string).getD (ρ.inTree t)).render ++
        ρ.apply r) := by
  have hcolon : ∀ s, ρ.apply (l.afterKey ++ ':' :: (l.beforeValue ++ s)) =
      l.afterKey ++ ':' :: (l.beforeValue ++ ρ.apply s) := by
    intro s
    rw [apply_pad proper hl.afterKey, apply_cons proper (by decide) (by decide),
      apply_pad proper hl.beforeValue]
  have hhead : ∀ s, ∀ c ∈ (l.afterKey ++ ':' :: s).head?, endsWord c = true := by
    intro s c hc
    exact boundary_pad hl.afterKey (by decide) s c hc
  have htext : ∀ s, l.render ++ s =
      l.before ++ (quoted l.raw ++ (l.afterKey ++ ':' :: (l.beforeValue ++ s))) := by
    intro s
    simp [Label.render]
  rw [htext, apply_pad proper hl.before]
  cases ρ with
  | inStrings old new =>
    have hquote : '"' ∉ old := fun hm => absurd (proper.2.1 _ hm) (by decide)
    have hname : ∀ s, (Replacement.inStrings old new).apply (quoted l.raw ++ s) =
        quoted (replace old new l.raw) ++ (Replacement.inStrings old new).apply s := by
      intro s
      have hsplit : quoted l.raw ++ s = [] ++ '"' :: (l.raw ++ '"' :: s) := by simp [quoted]
      simp only [Replacement.apply, Replacement.old, Replacement.new]
      rw [hsplit, replace_append_cons proper.1 hquote, replace_append_cons proper.1 hquote]
      simp [quoted]
    rw [hname, hcolon, ih]
    simp [Label.render, Replacement.inLabel, Replacement.inRaw, Replacement.hit]
  | ofMember name old new =>
    by_cases hp : memberText name old <+:
        quoted l.raw ++ (l.afterKey ++ ':' :: (l.beforeValue ++ (t.render ++ r)))
    · obtain ⟨rfl, hkey, hvalue, rfl⟩ := hit_of_prefix proper hl hraw ht taken hp
      have hmember : quoted l.raw ++ (l.afterKey ++ ':' :: (l.beforeValue ++
          ((Tree.string old).render ++ r))) = memberText l.raw old ++ r := by
        simp [hkey, hvalue, memberText, Tree.render]
      have hne : memberText l.raw old ≠ [] := by simp [memberText, quoted]
      rw [hmember]
      simp only [Replacement.apply, Replacement.old, Replacement.new]
      rw [replace_append hne]
      simp [Label.render, Replacement.inLabel, Replacement.inRaw, Replacement.hit, hkey, hvalue,
        memberText, Tree.render]
    · have hmiss : Replacement.hit (.ofMember name old new) l t = none := by
        cases t with
        | string raw =>
          rw [Replacement.hit, if_neg]
          rintro ⟨rfl, hkey, hvalue, rfl⟩
          refine hp ⟨r, ?_⟩
          simp [hkey, hvalue, memberText, Tree.render]
        | _ => rfl
      rw [replace_quoted proper hraw (hhead _) hp, hcolon, ih, hmiss]
      simp [Label.render, Replacement.inLabel, Replacement.inRaw]

omit proper in
theorem follow_pad {pad : Text} (hpad : Pad pad) {c : Char}
    (hc : endsWord c = true ∧ c ≠ '"' ∧ c ≠ ':') (r : Text) : Follow (pad ++ c :: r) := by
  intro d hd
  cases pad with
  | nil =>
    obtain rfl : c = d := by simpa using hd
    exact hc
  | cons e pad =>
    obtain rfl : e = d := by simpa using hd
    have he := hpad e List.mem_cons_self
    refine ⟨by simp [endsWord, he], ?_, ?_⟩
    · rintro rfl
      exact absurd he (by decide)
    · rintro rfl
      exact absurd he (by decide)

end Tokens

mutual
/-- Replacing in the text of a tree is replacing in the tree. -/
theorem apply_tree {ρ : Replacement} (proper : ρ.Proper) : (t : Tree) → t.Lexical → Taken ρ t →
    (r : Text) → Follow r → ρ.apply (t.render ++ r) = (ρ.inTree t).render ++ ρ.apply r
  | .word w, lexical, taken, r, hr => by
    obtain ⟨v, hv⟩ := taken
    exact apply_word proper (wordChar_of_readWord hv) lexical.2 hr
  | .string raw, _, taken, r, hr => apply_string proper taken hr
  | .emptyArray pad, lexical, _, r, _ => by
    have hpad := apply_pad proper lexical (']' :: r)
    simp only [Tree.render, Replacement.inTree, List.cons_append, List.append_assoc,
      List.nil_append]
    rw [apply_cons proper (by decide) (by decide), hpad,
      apply_cons proper (by decide) (by decide)]
  | .emptyObject pad, lexical, _, r, _ => by
    have hpad := apply_pad proper lexical ('}' :: r)
    simp only [Tree.render, Replacement.inTree, List.cons_append, List.append_assoc,
      List.nil_append]
    rw [apply_cons proper (by decide) (by decide), hpad,
      apply_cons proper (by decide) (by decide)]
  | .array items, lexical, taken, r, _ => by
    have hitems := apply_items proper items lexical taken r
    simp only [Tree.render, Replacement.inTree, List.cons_append, List.append_assoc,
      List.nil_append]
    rw [apply_cons proper (by decide) (by decide), hitems]
  | .object members, lexical, taken, r, _ => by
    have hmembers := apply_members proper members lexical taken r
    simp only [Tree.render, Replacement.inTree, List.cons_append, List.append_assoc,
      List.nil_append]
    rw [apply_cons proper (by decide) (by decide), hmembers]
theorem apply_items {ρ : Replacement} (proper : ρ.Proper) : (items : Items) → items.Lexical →
    TakenItems ρ items → (r : Text) →
      ρ.apply (items.render ++ ']' :: r) = (ρ.inItems items).render ++ ']' :: ρ.apply r
  | .last before t after, lexical, taken, r => by
    obtain ⟨hbefore, ht, hafter⟩ := lexical
    have htree := apply_tree proper t ht taken (after ++ ']' :: r)
      (follow_pad hafter (by decide) r)
    simp only [Items.render, Replacement.inItems, List.append_assoc]
    rw [apply_pad proper hbefore, htree, apply_pad proper hafter,
      apply_cons proper (by decide) (by decide)]
  | .more before t after rest, lexical, taken, r => by
    obtain ⟨hbefore, ht, hafter, hrest⟩ := lexical
    have htree := apply_tree proper t ht taken.1 (after ++ ',' :: (rest.render ++ ']' :: r))
      (follow_pad hafter (by decide) _)
    have hitems := apply_items proper rest hrest taken.2 r
    simp only [Items.render, Replacement.inItems, List.append_assoc, List.cons_append]
    rw [apply_pad proper hbefore, htree, apply_pad proper hafter,
      apply_cons proper (by decide) (by decide), hitems]
theorem apply_members {ρ : Replacement} (proper : ρ.Proper) : (members : Members) →
    members.Lexical → TakenMembers ρ members → (r : Text) →
      ρ.apply (members.render ++ '}' :: r) = (ρ.inMembers members).render ++ '}' :: ρ.apply r
  | .last l t after, lexical, taken, r => by
    obtain ⟨hl, ht, hafter⟩ := lexical
    have htree := apply_tree proper t ht taken.2 (after ++ '}' :: r)
      (follow_pad hafter (by decide) r)
    simp only [Members.render, Replacement.inMembers, List.append_assoc]
    rw [apply_member proper hl taken.1 ht taken.2 htree, apply_pad proper hafter,
      apply_cons proper (by decide) (by decide)]
  | .more l t after rest, lexical, taken, r => by
    obtain ⟨hl, ht, hafter, hrest⟩ := lexical
    have htree := apply_tree proper t ht taken.2.1 (after ++ ',' :: (rest.render ++ '}' :: r))
      (follow_pad hafter (by decide) _)
    have hmembers := apply_members proper rest hrest taken.2.2 r
    simp only [Members.render, Replacement.inMembers, List.append_assoc, List.cons_append]
    rw [apply_member proper hl taken.1 ht taken.2.1 htree, apply_pad proper hafter,
      apply_cons proper (by decide) (by decide), hmembers]
end

end AgentTestHarness.JsonReplacing
