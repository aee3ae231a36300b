import Mathlib.Data.List.DropRight
import Mathlib.Data.List.Infix

/-! Python strings. A text that arrives over the wire is a list of characters; a string
decoded from JSON may also hold lone surrogates, so it is a list of code points. -/
namespace AgentTestHarness.PyText

/-! Properties of the elements of a list are decided along the list, even if their type is
finite. -/

instance (priority := high) decidableForallMem {α : Type*} {P : α → Prop} [DecidablePred P]
    (l : List α) : Decidable (∀ a ∈ l, P a) :=
  List.decidableBAll P l

instance (priority := high) decidableExistsMem {α : Type*} {P : α → Prop} [DecidablePred P]
    (l : List α) : Decidable (∃ a ∈ l, P a) :=
  List.decidableBEx P l

abbrev Text := List Char

/-- What `str.isspace` takes for white space. -/
def isWhitespace (c : Char) : Bool :=
  let n := c.toNat
  (9 ≤ n && n ≤ 13) || (28 ≤ n && n ≤ 32) || n = 0x85 || n = 0xa0 || n = 0x1680 ||
    (0x2000 ≤ n && n ≤ 0x200a) || n = 0x2028 || n = 0x2029 || n = 0x202f || n = 0x205f || n = 0x3000

/-- `str.strip`. -/
def strip (t : Text) : Text := (t.dropWhile isWhitespace).rdropWhile isWhitespace

/-- The zeros of the scripts with decimal digits; each is followed by its one to nine. -/
def decimalZeros : List ℕ :=
  [0x30, 0x660, 0x6f0, 0x7c0, 0x966, 0x9e6, 0xa66, 0xae6, 0xb66, 0xbe6, 0xc66, 0xce6, 0xd66,
    0xde6, 0xe50, 0xed0, 0xf20, 0x1040, 0x1090, 0x17e0, 0x1810, 0x1946, 0x19d0, 0x1a80, 0x1a90,
    0x1b50, 0x1bb0, 0x1c40, 0x1c50, 0xa620, 0xa8d0, 0xa900, 0xa9d0, 0xa9f0, 0xaa50, 0xabf0,
    0xff10, 0x104a0, 0x10d30, 0x11066, 0x110f0, 0x11136, 0x111d0, 0x112f0, 0x11450, 0x114d0,
    0x11650, 0x116c0, 0x11730, 0x118e0, 0x11950, 0x11c50, 0x11d50, 0x11da0, 0x16a60, 0x16ac0,
    0x16b50, 0x1d7ce, 0x1d7d8, 0x1d7e2, 0x1d7ec, 0x1d7f6, 0x1e140, 0x1e2f0, 0x1e950, 0x1fbf0]

def isDecimal (c : Char) : Bool := decimalZeros.any fun z => z ≤ c.toNat && c.toNat < z + 10

/-- A code point is a Unicode scalar value or one of the 2048 surrogates from D800 on. -/
inductive CodePoint
  | ch (c : Char)
  | surrogate (n : Fin 2048)
  deriving DecidableEq, Repr

abbrev Str := List CodePoint

def ofText (t : Text) : Str := t.map .ch

instance : Coe String Str := ⟨fun s => ofText s.toList⟩

theorem ofText_injective : Function.Injective ofText :=
  List.map_injective_iff.mpr fun _ _ h => CodePoint.ch.inj h

@[simp] theorem ofText_inj {s t : Text} : ofText s = ofText t ↔ s = t := ofText_injective.eq_iff

theorem not_mem_of_mem_splitOn {α : Type*} [BEq α] [LawfulBEq α] {sep : α} {t piece : List α}
    (h : piece ∈ t.splitOn sep) : sep ∉ piece := by
  induction t generalizing piece with
  | nil =>
    rw [List.splitOn_nil, List.mem_singleton] at h
    simp [h]
  | cons c t ih =>
    rw [List.splitOn_cons_eq_if_modifyHead] at h
    split at h
    · rcases List.mem_cons.mp h with rfl | h
      · simp
      · exact ih h
    · next hc =>
      obtain ⟨first, rest, hsplit⟩ := List.exists_cons_of_ne_nil (List.splitOn_ne_nil sep t)
      rw [hsplit, List.modifyHead_cons, List.mem_cons] at h
      rcases h with rfl | h
      · have := ih (hsplit ▸ List.mem_cons_self)
        simpa [this] using fun hs : sep = c => hc (by simp [hs])
      · exact ih (hsplit ▸ List.mem_cons_of_mem _ h)

section Replace

variable {α : Type*} [DecidableEq α]

/-- Drop `skip` characters, then replace from the left; `skip` runs over a match. -/
def replaceFrom (old new : List α) : ℕ → List α → List α
  | _, [] => []
  | skip + 1, _ :: cs => replaceFrom old new skip cs
  | 0, c :: cs =>
      if old <+: c :: cs then new ++ replaceFrom old new (old.length - 1) cs
      else c :: replaceFrom old new 0 cs

/-- `str.replace` for a nonempty `old`: every match from the left, none overlapping. -/
def replace (old new : List α) (s : List α) : List α := replaceFrom old new 0 s

/-- The number of positions at which a pattern occurs. -/
def occurrences (p : List α) : List α → ℕ
  | [] => 0
  | c :: cs => (if p <+: c :: cs then 1 else 0) + occurrences p cs

theorem replaceFrom_skip (old new : List α) (skip : ℕ) (s : List α) :
    replaceFrom old new skip s = replace old new (s.drop skip) := by
  induction skip generalizing s with
  | zero => rfl
  | succ skip ih =>
    cases s with
    | nil => rfl
    | cons c cs => simpa [replaceFrom] using ih cs

@[simp] theorem replace_nil (old new : List α) : replace old new [] = [] := rfl

/-- Where the pattern matches, it is replaced and the search goes on behind it. -/
theorem replace_append {old : List α} (h : old ≠ []) (new rest : List α) :
    replace old new (old ++ rest) = new ++ replace old new rest := by
  cases old with
  | nil => exact absurd rfl h
  | cons o os =>
    have hp : o :: os <+: o :: (os ++ rest) := by simp
    rw [replace, List.cons_append, replaceFrom, if_pos hp, replaceFrom_skip]
    simp

theorem replace_cons_of_not {old : List α} {c : α} {cs : List α} (h : ¬ old <+: c :: cs)
    (new : List α) : replace old new (c :: cs) = c :: replace old new cs := by
  simp [replace, replaceFrom, h]

theorem occurrences_cons (p : List α) (c : α) (cs : List α) :
    occurrences p (c :: cs) = (if p <+: c :: cs then 1 else 0) + occurrences p cs := rfl

theorem occurrences_append_ge (p pre s : List α) : occurrences p s ≤ occurrences p (pre ++ s) := by
  induction pre with
  | nil => simp
  | cons c cs ih =>
    rw [List.cons_append, occurrences_cons]
    omega

theorem occurrences_pos {p : List α} (h : p ≠ []) (pre post : List α) :
    0 < occurrences p (pre ++ p ++ post) := by
  cases p with
  | nil => exact absurd rfl h
  | cons c cs =>
    have hp : c :: cs <+: c :: (cs ++ post) := by simp
    have := occurrences_append_ge (c :: cs) pre (c :: cs ++ post)
    rw [List.cons_append, occurrences_cons, if_pos hp] at this
    simp only [List.append_assoc, List.cons_append] at this ⊢
    omega

theorem replace_of_absent {old : List α} (new : List α) {s : List α}
    (h : occurrences old s = 0) : replace old new s = s := by
  induction s with
  | nil => rfl
  | cons c cs ih =>
    rw [occurrences_cons] at h
    have hn : ¬ old <+: c :: cs := by
      intro hp
      simp [hp] at h
    rw [replace_cons_of_not hn, ih (by omega)]

/-- A pattern that occurs once is replaced just there. -/
theorem replace_of_once {old : List α} (hne : old ≠ []) (new pre post : List α)
    (h : occurrences old (pre ++ old ++ post) = 1) :
    replace old new (pre ++ old ++ post) = pre ++ new ++ post := by
  induction pre with
  | nil =>
    have hpost : occurrences old post = 0 := by
      cases old with
      | nil => exact absurd rfl hne
      | cons o os =>
        have hp : o :: os <+: o :: (os ++ post) := by simp
        have hle := occurrences_append_ge (o :: os) os post
        rw [List.nil_append, List.cons_append, occurrences_cons, if_pos hp] at h
        omega
    rw [List.nil_append, replace_append hne, replace_of_absent new hpost, List.nil_append]
  | cons c cs ih =>
    have hpos := occurrences_pos hne cs post
    simp only [List.cons_append] at h ⊢
    rw [occurrences_cons] at h
    have hn : ¬ old <+: c :: (cs ++ old ++ post) := by
      intro hp
      rw [if_pos hp] at h
      omega
    rw [if_neg hn, Nat.zero_add] at h
    rw [replace_cons_of_not hn, ih h]

/-- Induction along a replacement: a match in front, or a character that begins none. -/
theorem replace_induction {old : List α} (hne : old ≠ []) {motive : List α → Prop}
    (nil : motive []) (here : ∀ rest, motive rest → motive (old ++ rest))
    (skip : ∀ c cs, ¬ old <+: c :: cs → motive cs → motive (c :: cs)) (s : List α) : motive s := by
  have hlen : 0 < old.length := List.length_pos_of_ne_nil hne
  induction hn : s.length using Nat.strong_induction_on generalizing s with
  | h n ih =>
    cases s with
    | nil => exact nil
    | cons c cs =>
      subst hn
      by_cases hp : old <+: c :: cs
      · obtain ⟨rest, hrest⟩ := hp
        rw [← hrest]
        exact here rest (ih rest.length (by rw [← hrest, List.length_append]; omega) rest rfl)
      · exact skip c cs hp (ih cs.length (by simp) cs rfl)

omit [DecidableEq α] in
/-- A match does not run over a character the pattern does not have. -/
theorem prefix_append_cons_iff {old : List α} {c : α} (h : c ∉ old) (a b : List α) :
    old <+: a ++ c :: b ↔ old <+: a := by
  constructor
  · intro hp
    rcases List.prefix_or_prefix_of_prefix hp (List.prefix_append a (c :: b)) with hold | ha
    · exact hold
    · obtain ⟨t, rfl⟩ := ha
      cases t with
      | nil => simp
      | cons d t =>
        have ht : d :: t <+: c :: b := (List.prefix_append_right_inj a).mp hp
        have hd : d = c := (List.cons_prefix_cons.mp ht).1
        simp [hd] at h
  · exact fun hp => hp.trans (List.prefix_append _ _)

omit [DecidableEq α] in
theorem not_prefix_cons {old : List α} (hne : old ≠ []) {c : α} (h : c ∉ old) (b : List α) :
    ¬ old <+: c :: b := by
  intro hp
  have : old <+: [] := (prefix_append_cons_iff h [] b).mp hp
  exact hne (List.prefix_nil.mp this)

theorem replace_append_cons {old : List α} (hne : old ≠ []) {c : α} (h : c ∉ old)
    (new a b : List α) :
    replace old new (a ++ c :: b) = replace old new a ++ c :: replace old new b := by
  induction a using replace_induction hne with
  | nil => exact replace_cons_of_not (not_prefix_cons hne h b) new
  | here rest ih =>
    rw [List.append_assoc, replace_append hne, replace_append hne, ih, List.append_assoc]
  | skip d a hp ih =>
    have hp' : ¬ old <+: d :: (a ++ c :: b) := fun hm =>
      hp ((prefix_append_cons_iff h (d :: a) b).mp hm)
    rw [List.cons_append, replace_cons_of_not hp', replace_cons_of_not hp, ih, List.cons_append]

theorem occurrences_append_cons {old : List α} (hne : old ≠ []) {c : α} (h : c ∉ old)
    (a b : List α) :
    occurrences old (a ++ c :: b) = occurrences old a + occurrences old b := by
  induction a with
  | nil =>
    rw [List.nil_append, occurrences_cons, if_neg (not_prefix_cons hne h b)]
    rfl
  | cons d a ih =>
    have hp := prefix_append_cons_iff h (d :: a) b
    rw [List.cons_append] at hp
    rw [List.cons_append, occurrences_cons, occurrences_cons, ih, Nat.add_assoc]
    simp only [hp]

theorem length_replace_le {old new : List α} (hne : old ≠ []) (h : new.length ≤ old.length)
    (s : List α) : (replace old new s).length ≤ s.length := by
  induction s using replace_induction hne with
  | nil => simp
  | here rest ih =>
    rw [replace_append hne, List.length_append, List.length_append]
    omega
  | skip c cs hp ih =>
    rw [replace_cons_of_not hp, List.length_cons, List.length_cons]
    omega

theorem length_le_replace {old new : List α} (hne : old ≠ []) (h : old.length ≤ new.length)
    (s : List α) : s.length ≤ (replace old new s).length := by
  induction s using replace_induction hne with
  | nil => simp
  | here rest ih =>
    rw [replace_append hne, List.length_append, List.length_append]
    omega
  | skip c cs hp ih =>
    rw [replace_cons_of_not hp, List.length_cons, List.length_cons]
    omega

/-- Two parts of a text that together keep their lengths under replacement both do. -/
theorem replace_parts_eq {old new : List α} (hne : old ≠ []) {a b : List α}
    (h : (replace old new a).length + (replace old new b).length = a.length + b.length) :
    (replace old new a).length = a.length ∧ (replace old new b).length = b.length := by
  rcases Nat.le_total new.length old.length with hle | hle
  · have := length_replace_le hne hle a
    have := length_replace_le hne hle b
    omega
  · have := length_le_replace hne hle a
    have := length_le_replace hne hle b
    omega

/-- A replacement that changes nothing finds nothing, or replaces by the same. -/
theorem occurrences_of_replace_eq {old new : List α} (hne : old ≠ []) (hnew : old ≠ new)
    {s : List α} (h : replace old new s = s) : occurrences old s = 0 := by
  induction s using replace_induction hne with
  | nil => rfl
  | here rest ih =>
    rw [replace_append hne] at h
    have hlen : new.length + (replace old new rest).length = old.length + rest.length := by
      rw [← List.length_append, ← List.length_append, h]
    have : new.length = old.length := by
      rcases Nat.le_total new.length old.length with hle | hle
      · have := length_replace_le hne hle rest
        omega
      · have := length_le_replace hne hle rest
        omega
    exact absurd (List.append_inj_left h this).symm hnew
  | skip c cs hp ih =>
    rw [replace_cons_of_not hp] at h
    rw [occurrences_cons, if_neg hp, ih (List.cons.inj h).2]

theorem occurrences_eq_zero_iff {old : List α} (hne : old ≠ []) {s : List α} :
    occurrences old s = 0 ↔ ¬ old <:+: s := by
  constructor
  · rintro h ⟨pre, post, rfl⟩
    exact absurd h (Nat.pos_iff_ne_zero.mp (occurrences_pos hne pre post))
  · intro h
    induction s with
    | nil => rfl
    | cons c cs ih =>
      have hp : ¬ old <+: c :: cs := fun hp => h hp.isInfix
      have hs : ¬ old <:+: cs := fun hs => h (hs.trans (List.suffix_cons c cs).isInfix)
      rw [occurrences_cons, if_neg hp, ih hs]

/-- A pattern that begins with a character found nowhere around it occurs just once. -/
theorem occurrences_alone {c : α} {a b : List α} (ha : c ∉ a) (hb : c ∉ b) (cs : List α) :
    occurrences (c :: cs) (a ++ (c :: cs) ++ b) = 1 := by
  induction a with
  | nil =>
    have htail : occurrences (c :: cs) (cs ++ b) = 0 := by
      rw [occurrences_eq_zero_iff (by simp)]
      intro h
      have := h.sublist.count_le c
      rw [List.count_cons_self, List.count_append, List.count_eq_zero_of_not_mem hb] at this
      omega
    have hp : c :: cs <+: c :: (cs ++ b) := by simp
    rw [List.nil_append, List.cons_append, occurrences_cons, if_pos hp, htail]
  | cons d a ih =>
    rw [List.mem_cons, not_or] at ha
    have hp : ¬ c :: cs <+: d :: (a ++ (c :: cs) ++ b) := fun h =>
      ha.1 (List.cons_prefix_cons.mp h).1
    rw [List.cons_append, List.cons_append, occurrences_cons, if_neg hp, Nat.zero_add]
    exact ih ha.2

theorem occurrences_self {old : List α} (hne : old ≠ []) : occurrences old old = 1 := by
  cases old with
  | nil => exact absurd rfl hne
  | cons c cs => simpa using occurrences_alone (a := []) (b := []) (by simp) (by simp) cs

theorem replace_self {old : List α} (hne : old ≠ []) (s : List α) : replace old old s = s := by
  induction s using replace_induction hne with
  | nil => rfl
  | here rest ih => rw [replace_append hne, ih]
  | skip c cs hp ih => rw [replace_cons_of_not hp, ih]

/-- What is replaced in the middle of a text is all that is replaced if the rest is kept. -/
theorem occurrences_of_replace_middle {old new : List α} (hne : old ≠ []) (hnew : old ≠ new)
    {c e : α} (hc : c ∉ old) (he : e ∉ old) {a m m' b : List α} (hm : replace old new m = m')
    (h : replace old new (a ++ c :: (m ++ e :: b)) = a ++ c :: (m' ++ e :: b)) :
    occurrences old (a ++ c :: (m ++ e :: b)) = occurrences old m := by
  rw [replace_append_cons hne hc, replace_append_cons hne he, hm] at h
  have hlen := congrArg List.length h
  simp only [List.length_append, List.length_cons] at hlen
  have hparts : (replace old new a).length + (replace old new b).length = a.length + b.length := by
    omega
  obtain ⟨hla, -⟩ := replace_parts_eq hne hparts
  obtain ⟨ha, htail⟩ := List.append_inj h hla
  obtain ⟨-, htail⟩ := List.cons.inj htail
  obtain ⟨-, hb⟩ := List.append_inj htail rfl
  rw [occurrences_append_cons hne hc, occurrences_append_cons hne he,
    occurrences_of_replace_eq hne hnew ha, occurrences_of_replace_eq hne hnew (List.cons.inj hb).2]
  omega

end Replace

end AgentTestHarness.PyText
