import Mathlib.Data.Prod.Lex
import AgentTestHarness.BinaryFloats
import AgentTestHarness.JsonRoundTrip
import AgentTestHarness.RevocationCommands

/-! The numbers by which versions of ACA-Py are compared. The dots are deleted from the text, so the
number of a version is as its digits read one after the other, which respects the order of the
versions only where the second and the third component have a single digit. -/
namespace AgentTestHarness.VersionNumbers
open PyText PyJson JsonText JsonRoundTrip BinaryFloats StateTranslation RevocationCommands
open PyFloats (Decimal Number float float_digits float_digits_point float_minus valueError)

inductive Suffix
  | none
  | rc (n : ℕ)
  | dash (s : Text)
  deriving DecidableEq

structure Version where
  x : ℕ
  y : ℕ
  z : ℕ
  suffix : Suffix
  deriving DecidableEq

def digits (n : ℕ) : Text := Nat.toDigits 10 n

def Suffix.text : Suffix → Text
  | .none => []
  | .rc n => 'r' :: 'c' :: digits n
  | .dash s => '-' :: s

namespace Version

def text (v : Version) : Text :=
  digits v.x ++ '.' :: (digits v.y ++ '.' :: (digits v.z ++ v.suffix.text))

def IsPreRelease (v : Version) : Prop := v.suffix ≠ .none

def toRelease (v : Version) : Version := { v with suffix := .none }

/-- The components in their lexicographic order. -/
def triple (v : Version) : ℕ ×ₗ (ℕ ×ₗ ℕ) := toLex (v.x, toLex (v.y, v.z))

/-- Later than a release, or a pre-release of it. -/
def NewerThan (v r : Version) : Prop :=
  r.triple < v.triple ∨ r.triple = v.triple ∧ v.IsPreRelease

end Version

/-- A float that is not negative; the number of a version is one. -/
def rounded : Number → Except PyError (WithTop ℚ)
  | .finite false d => .ok (double.round d.value)
  | .infinite false => .ok ⊤
  | _ => .error valueError

/-- What `get_acapy_version_as_float` returns for a version. -/
def number (v : Version) : Except PyError (WithTop ℚ) :=
  getAcapyVersionAsFloat (some v.text) >>= rounded

/-! The order of the numbers. -/

/-- The version has a number, which is smaller than that of every later version. A pre-release has
a larger one than its release. The bounds of the callers are passed by newer versions only. -/
structure Numbered (v : Version) (r : WithTop ℚ) : Prop where
  number_eq : number v = .ok r
  lt_later : ∀ w q, v.triple < w.triple → number w = .ok q → r < q
  release_lt : v.IsPreRelease → ∀ q, number v.toRelease = .ok q → q < r
  above_54 : ((54 : ℚ) : WithTop ℚ) < r ↔ v.NewerThan ⟨0, 5, 4, .none⟩
  above_56 : ((56 : ℚ) : WithTop ℚ) < r ↔ v.NewerThan ⟨0, 5, 6, .none⟩

def Comparable (v : Version) : Prop := ∃ r, Numbered v r

/-- The digits of a version whose last two components have one each. -/
def joined (v : Version) : ℕ := 100 * v.x + 10 * v.y + v.z

/-- The floating point numbers near a version and the next one are different ones. -/
def Separated (v : Version) : Prop :=
  if v.suffix = .none then double.round (joined v) < double.round (joined v + 1)
  else double.round (joined v) < double.round (joined v + 1 / 10) ∧
    double.round (joined v + 1 / 10) < double.round (joined v + 1)

/-- After a dash nothing reads `rc` without the dots. -/
def Dashed (v : Version) : Prop :=
  ∀ s, v.suffix = .dash s → ¬ isIn "rc".toList (s.filter (· != '.')) = true

/-! The digits in the text. -/

/-- The first component without the zero that is taken off. -/
def leading (x : ℕ) : Text := if x = 0 then [] else digits x

/-- What is left of the components. -/
def compact (v : Version) : Text := leading v.x ++ (digits v.y ++ digits v.z)

theorem dropZero_of_head? {t : Text} (h : t.head? ≠ some '0') : dropZero t = t := by
  unfold dropZero
  split
  · simp at h
  · rfl

theorem dropZero_digits (x : ℕ) (t : Text) : dropZero (digits x ++ t) = leading x ++ t := by
  rcases Nat.eq_zero_or_pos x with rfl | hx
  · rfl
  · rw [leading, if_neg hx.ne']
    refine dropZero_of_head? fun hzero => ?_
    obtain ⟨c, cs, hcs⟩ := List.exists_cons_of_ne_nil (Nat.toDigits_ne_nil (n := x) (b := 10))
    have hhead : (Nat.toDigits 10 x).head? = some '0' := by
      rw [digits, hcs] at hzero
      rw [hcs]
      exact hzero
    have hlength := toDigits_head x hhead
    have hvalue := natValue_toDigits x
    rw [hcs] at hhead hlength hvalue
    obtain rfl : c = '0' := Option.some.inj hhead
    obtain rfl : cs = [] := List.length_eq_zero_iff.mp (Nat.succ.inj hlength)
    exact absurd hvalue (by simp [natValue]; omega)

theorem isDigit_compact (v : Version) : ∀ c ∈ compact v, c.isDigit = true := by
  intro c hc
  rcases List.mem_append.mp hc with hx | hc
  · unfold leading at hx
    split at hx
    · cases hx
    · exact isDigit_toDigits v.x c hx
  · rcases List.mem_append.mp hc with hy | hz
    · exact isDigit_toDigits v.y c hy
    · exact isDigit_toDigits v.z c hz

theorem filter_digits {t : Text} (h : ∀ c ∈ t, c.isDigit = true) :
    t.filter (· != '.') = t := by
  refine List.filter_eq_self.mpr fun c hc => ?_
  rw [bne_iff_ne]
  rintro rfl
  exact absurd (h _ hc) (by decide)

theorem text_ne_nil (v : Version) : v.text ≠ [] := by
  simp [Version.text]

/-- The text without its first zero and without the dots. -/
theorem filter_dropZero_text (v : Version) : (dropZero v.text).filter (· != '.') =
    compact v ++ v.suffix.text.filter (· != '.') := by
  have hx := isDigit_compact v
  have hdot : ('.' != '.') = false := rfl
  have hleading := filter_digits fun c hc => hx c (List.mem_append_left _ hc)
  have hy := filter_digits (isDigit_toDigits v.y)
  have hz := filter_digits (isDigit_toDigits v.z)
  rw [Version.text, dropZero_digits, List.filter_append, List.filter_cons_of_neg (by simp),
    List.filter_append, List.filter_cons_of_neg (by simp), List.filter_append, hleading, compact,
    digits, digits, hy, hz]
  simp only [List.append_assoc]

theorem infix_append_iff {c : Char} {p ds t : Text} (h : c ∉ ds) :
    (c :: p) <:+: ds ++ t ↔ (c :: p) <:+: t := by
  induction ds with
  | nil => rfl
  | cons d ds ih =>
    rw [List.mem_cons, not_or] at h
    rw [List.cons_append, List.infix_cons_iff, List.cons_prefix_cons, ih h.2]
    exact or_iff_right fun hd => h.1 hd.1

theorem before_append {c : Char} {p ds t : Text} (h : c ∉ ds) :
    before (c :: p) (ds ++ t) = ds ++ before (c :: p) t := by
  induction ds with
  | nil => rfl
  | cons d ds ih =>
    rw [List.mem_cons, not_or] at h
    have hd : ¬ (c :: p) <+: d :: (ds ++ t) := fun hd => h.1 (List.cons_prefix_cons.mp hd).1
    rw [List.cons_append, before, if_neg hd, ih h.2, List.cons_append]

theorem before_of_starts {p t : Text} (h : p <+: t) : before p t = [] := by
  cases t with
  | nil => rfl
  | cons c t => rw [before, if_pos h]

/-! The number that is read. -/

theorem natValue_append (s t : Text) :
    natValue (s ++ t) = 10 ^ t.length * natValue s + natValue t :=
  (Nat.ofDigitChars_append 0).trans Nat.ofDigitChars_eq_ofDigitChars_zero

theorem notMem_compact {v : Version} {c : Char} (h : ¬ c.isDigit = true) : c ∉ compact v :=
  fun hc => h (isDigit_compact v c hc)

theorem compact_ne_nil (v : Version) : compact v ≠ [] := by
  simp [compact, digits]

/-- The number that the digits make up, and a tenth more for a pre-release. -/
def digitsValue (v : Version) : ℚ :=
  natValue (compact v) + if v.suffix = .none then 0 else 1 / 10

theorem getAcapyVersionAsFloat_text (v : Version) :
    getAcapyVersionAsFloat (some v.text) =
      if isIn "rc".toList (compact v ++ v.suffix.text.filter (· != '.')) then
        float
          (before "rc".toList (compact v ++ v.suffix.text.filter (· != '.')) ++ ".1".toList)
      else if isIn "-".toList (compact v ++ v.suffix.text.filter (· != '.')) then
        float
          (before "-".toList (compact v ++ v.suffix.text.filter (· != '.')) ++ ".1".toList)
      else float (compact v ++ v.suffix.text.filter (· != '.')) := by
  rw [← filter_dropZero_text]
  cases htext : v.text with
  | nil => exact absurd htext (text_ne_nil v)
  | cons c t => rfl

theorem isIn_compact {v : Version} {c : Char} {p t : Text} (h : ¬ c.isDigit = true) :
    isIn (c :: p) (compact v ++ t) = isIn (c :: p) t := by
  unfold isIn
  rw [decide_eq_decide]
  exact infix_append_iff (notMem_compact h)

theorem before_compact {v : Version} {c : Char} {p t : Text} (h : ¬ c.isDigit = true)
    (hstart : c :: p <+: t) : before (c :: p) (compact v ++ t) = compact v := by
  rw [before_append (notMem_compact h), before_of_starts hstart, List.append_nil]

theorem isIn_of_starts {p t : Text} (h : p <+: t) : isIn p t = true :=
  decide_eq_true h.isInfix

/-- The digits as they are read, with a tenth behind the point for a pre-release. -/
def decimal (v : Version) : Decimal :=
  if v.suffix = .none then ⟨natValue (compact v), 0⟩ else ⟨10 * natValue (compact v) + 1, 1⟩

theorem value_decimal (v : Version) : (decimal v).value = digitsValue v := by
  unfold Decimal.value decimal digitsValue
  split
  · simp
  · push_cast
    ring

theorem getAcapyVersionAsFloat_of_dashed {v : Version} (h : Dashed v) :
    getAcapyVersionAsFloat (some v.text) = .ok (.finite false (decimal v)) := by
  have hr : ¬ ('r' : Char).isDigit = true := by decide
  have hdash : ¬ ('-' : Char).isDigit = true := by decide
  have hrc : "rc".toList = ['r', 'c'] := rfl
  have hminus : "-".toList = ['-'] := rfl
  rw [getAcapyVersionAsFloat_text, decimal, hrc, hminus, isIn_compact hr, isIn_compact hdash]
  cases hsuffix : v.suffix with
  | none =>
    have hnone : (Suffix.none.text).filter (· != '.') = [] := rfl
    have hno : ∀ p : Text, p ≠ [] → ¬ isIn p [] = true := by simp [isIn]
    rw [hnone, if_neg (hno _ (by simp)), if_neg (hno _ (by simp)), List.append_nil,
      float_digits (compact_ne_nil v) (isDigit_compact v), if_pos rfl]
  | rc n =>
    have hstart : ['r', 'c'] <+: (Suffix.rc n).text.filter (· != '.') :=
      ⟨(digits n).filter (· != '.'), by simp [Suffix.text]⟩
    rw [if_pos (isIn_of_starts hstart), before_compact hr hstart,
      float_digits_point (compact_ne_nil v) (isDigit_compact v), if_neg (by simp)]
  | dash s =>
    have htext : (Suffix.dash s).text.filter (· != '.') = '-' :: s.filter (· != '.') := rfl
    have hno : ¬ isIn ['r', 'c'] ('-' :: s.filter (· != '.')) = true := by
      rw [isIn, decide_eq_true_eq, List.infix_cons_iff, List.cons_prefix_cons]
      rintro (⟨heq, -⟩ | hin)
      · exact absurd heq (by decide)
      · exact h s hsuffix (decide_eq_true hin)
    have hstart : ['-'] <+: '-' :: s.filter (· != '.') := ⟨_, rfl⟩
    rw [htext, if_neg hno, if_pos (isIn_of_starts hstart), before_compact hdash hstart,
      float_digits_point (compact_ne_nil v) (isDigit_compact v), if_neg (by simp)]

/-- The dash is left in front of what reads `rc`. -/
theorem getAcapyVersionAsFloat_of_not_dashed {v : Version} (h : ¬ Dashed v) :
    getAcapyVersionAsFloat (some v.text) = .error valueError := by
  have hr : ¬ ('r' : Char).isDigit = true := by decide
  have hrc : "rc".toList = ['r', 'c'] := rfl
  rw [Dashed] at h
  push Not at h
  obtain ⟨s, hsuffix, hin⟩ := h
  have htext : (Suffix.dash s).text.filter (· != '.') = '-' :: s.filter (· != '.') := rfl
  have hpattern : ¬ ['r', 'c'] <+: '-' :: s.filter (· != '.') := by
    rw [List.cons_prefix_cons]
    exact fun heq => absurd heq.1 (by decide)
  have hcut : isIn ['r', 'c'] ('-' :: s.filter (· != '.')) = true :=
    decide_eq_true (List.infix_cons_iff.mpr (.inr (of_decide_eq_true hin)))
  have hbefore : before ['r', 'c'] (compact v ++ '-' :: s.filter (· != '.')) ++ ".1".toList =
      compact v ++ '-' :: (before ['r', 'c'] (s.filter (· != '.')) ++ ".1".toList) := by
    rw [before_append (notMem_compact hr), before, if_neg hpattern, List.append_assoc,
      List.cons_append]
  have hlast : ∀ c ∈ (compact v ++ '-' :: (before ['r', 'c'] (s.filter (· != '.')) ++
      ".1".toList)).getLast?, c.isDigit = true := by
    rw [← List.cons_append, ← List.append_assoc, List.getLast?_append]
    simp
  rw [getAcapyVersionAsFloat_text, hsuffix, htext, hrc, isIn_compact hr, if_pos hcut, hbefore,
    float_minus (compact_ne_nil v) (isDigit_compact v) hlast]

theorem number_of_dashed {v : Version} (h : Dashed v) :
    number v = .ok (double.round (digitsValue v)) := by
  rw [number, getAcapyVersionAsFloat_of_dashed h, ← value_decimal]
  rfl

/-! The size of the number. -/

theorem length_digits_pos (n : ℕ) : 1 ≤ (digits n).length :=
  List.length_pos_iff.mpr Nat.toDigits_ne_nil

theorem length_digits_of_lt {n : ℕ} (h : n < 10) : (digits n).length = 1 := by
  rw [digits, Nat.toDigits_of_lt_base h]
  rfl

theorem two_le_length_digits {n : ℕ} (h : 10 ≤ n) : 2 ≤ (digits n).length := by
  rw [digits, Nat.toDigits_of_base_le (by decide) h, List.length_append]
  exact Nat.succ_le_succ (length_digits_pos (n / 10))

theorem natValue_leading (x : ℕ) : natValue (leading x) = x := by
  unfold leading
  split
  · next hx => rw [hx]; rfl
  · exact natValue_toDigits x

theorem natValue_compact (v : Version) : natValue (compact v) =
    10 ^ (digits v.z).length * (10 ^ (digits v.y).length * v.x + v.y) + v.z := by
  have hy : natValue (digits v.y) = v.y := natValue_toDigits v.y
  have hz : natValue (digits v.z) = v.z := natValue_toDigits v.z
  rw [compact, natValue_append, natValue_append, natValue_leading, hy, hz, List.length_append,
    pow_add]
  ring

theorem ten_le_pow {k : ℕ} (h : 1 ≤ k) : 10 ≤ 10 ^ k := by
  calc 10 = 10 ^ 1 := (pow_one 10).symm
    _ ≤ 10 ^ k := Nat.pow_le_pow_right (by decide) h

theorem hundred_le_pow {k : ℕ} (h : 2 ≤ k) : 100 ≤ 10 ^ k := by
  calc 100 = 10 ^ 2 := by norm_num
    _ ≤ 10 ^ k := Nat.pow_le_pow_right (by decide) h

theorem joined_le (v : Version) : joined v ≤ natValue (compact v) := by
  have hy := ten_le_pow (length_digits_pos v.y)
  have hz := ten_le_pow (length_digits_pos v.z)
  have hinner : 10 * v.x + v.y ≤ 10 ^ (digits v.y).length * v.x + v.y :=
    Nat.add_le_add_right (Nat.mul_le_mul_right _ hy) _
  have houter := Nat.mul_le_mul hz hinner
  rw [natValue_compact, joined]
  omega

theorem natValue_compact_of_lt {v : Version} (hy : v.y < 10) (hz : v.z < 10) :
    natValue (compact v) = joined v := by
  rw [natValue_compact, length_digits_of_lt hy, length_digits_of_lt hz, joined]
  ring

theorem natValue_release {x y z : ℕ} (hy : y < 10) (hz : z < 10) :
    natValue (compact ⟨x, y, z, .none⟩) = 100 * x + 10 * y + z :=
  @natValue_compact_of_lt ⟨x, y, z, .none⟩ hy hz

/-- A second component of more digits moves the first one to another place. -/
theorem natValue_of_ten_le_y {v : Version} (hy : 10 ≤ v.y) :
    100 * (v.x + 1) ≤ natValue (compact v) := by
  have hpow := hundred_le_pow (two_le_length_digits hy)
  have hz := ten_le_pow (length_digits_pos v.z)
  have hinner : 100 * v.x + 10 ≤ 10 ^ (digits v.y).length * v.x + v.y :=
    Nat.add_le_add (Nat.mul_le_mul_right _ hpow) hy
  have houter := Nat.mul_le_mul hz hinner
  rw [natValue_compact]
  omega

theorem natValue_of_ten_le_z {v : Version} (hy : v.y < 10) (hz : 10 ≤ v.z) :
    100 * v.x + 10 * v.y + 10 ≤ natValue (compact v) := by
  have hpow := hundred_le_pow (two_le_length_digits hz)
  have houter := Nat.mul_le_mul_right (10 * v.x + v.y) hpow
  rw [natValue_compact, length_digits_of_lt hy, pow_one]
  omega

/-! Later versions. -/

theorem triple_lt_iff {v w : Version} : v.triple < w.triple ↔
    v.x < w.x ∨ v.x = w.x ∧ (v.y < w.y ∨ v.y = w.y ∧ v.z < w.z) := by
  rw [Version.triple, Version.triple, Prod.Lex.toLex_lt_toLex, Prod.Lex.toLex_lt_toLex]

theorem triple_eq_iff {v w : Version} :
    v.triple = w.triple ↔ v.x = w.x ∧ v.y = w.y ∧ v.z = w.z := by
  simp [Version.triple]

theorem joined_lt_of_later {v w : Version} (hy : v.y < 10) (hz : v.z < 10)
    (h : v.triple < w.triple) : joined v + 1 ≤ joined w := by
  rw [triple_lt_iff] at h
  rw [joined, joined]
  omega

/-- The release that comes next where no component has more than one digit. -/
theorem exists_next {v : Version} (hy : v.y < 10) : ∃ w : Version, v.triple < w.triple ∧
    w.suffix = .none ∧ natValue (compact w) = 100 * v.x + 10 * v.y + min v.z 9 + 1 := by
  rcases Nat.lt_or_ge v.z 9 with hz | hz
  · refine ⟨⟨v.x, v.y, v.z + 1, .none⟩, ?_, rfl, ?_⟩
    · exact triple_lt_iff.mpr (.inr ⟨rfl, .inr ⟨rfl, Nat.lt_succ_self _⟩⟩)
    · rw [natValue_release hy (by omega)]
      omega
  · rcases Nat.lt_or_ge v.y 9 with hy9 | hy9
    · refine ⟨⟨v.x, v.y + 1, 0, .none⟩, ?_, rfl, ?_⟩
      · exact triple_lt_iff.mpr (.inr ⟨rfl, .inl (Nat.lt_succ_self _)⟩)
      · rw [natValue_release (by omega) (by omega)]
        omega
    · refine ⟨⟨v.x + 1, 0, 0, .none⟩, triple_lt_iff.mpr (.inl (Nat.lt_succ_self _)), rfl, ?_⟩
      rw [natValue_release (by omega) (by omega)]
      omega

/-! The rounded numbers. -/

theorem lt_double_tenth {m : ℕ} (h : m < 2 ^ 50) :
    ((m : ℚ) : WithTop ℚ) < double.round (m + 1 / 10) ∧
      double.round (m + 1 / 10) < (((m + 1 : ℕ) : ℚ) : WithTop ℚ) := by
  have hm : (0 : ℚ) ≤ m := Nat.cast_nonneg m
  have hle : (m : ℚ) + 1 ≤ 2 ^ 50 := by exact_mod_cast h
  have hpos : (0 : ℚ) < m + 1 / 10 := by linarith
  have hlt : (m : ℚ) + 1 / 10 < 2 ^ 50 := by linarith
  have hmin : double.minExponent < (50 : ℕ) := by decide
  have hfinite := Format.nearest_lt_of_lt hpos hlt hmin (by decide)
  have hnear := @Format.abs_nearest_sub_le_of_lt double _ 50 3 hpos hlt hmin (by decide)
  rw [abs_le] at hnear
  norm_num at hnear
  rw [Format.round, if_pos hfinite, WithTop.coe_lt_coe, WithTop.coe_lt_coe]
  push_cast
  constructor <;> linarith

theorem double_natCast {n : ℕ} (h : n < 2 ^ 53) :
    double.round n = ((n : ℚ) : WithTop ℚ) :=
  Format.round_natCast h

theorem separated_of_lt {v : Version} (h : joined v < 2 ^ 50) : Separated v := by
  have hsmall := lt_double_tenth h
  have hnext : double.round ((joined v : ℚ) + 1) = (((joined v + 1 : ℕ) : ℚ) : WithTop ℚ) := by
    rw [← double_natCast (by omega)]
    push_cast
    rfl
  rw [Separated, hnext, double_natCast (by omega)]
  split
  · exact hsmall.1.trans hsmall.2
  · exact hsmall

/-- The bounds of the callers are passed just by larger numbers. -/
theorem lt_double_iff {m n : ℕ} (h : m < 2 ^ 50) {pre : Prop} [Decidable pre] :
    ((m : ℚ) : WithTop ℚ) < double.round (n + if pre then 0 else 1 / 10) ↔
      m < n ∨ m = n ∧ ¬ pre := by
  have hround := double_natCast (show m < 2 ^ 53 by omega)
  rcases Nat.lt_trichotomy m n with hlt | rfl | hgt
  · have hnext := double_natCast (show m + 1 < 2 ^ 53 by omega)
    have hle : ((m + 1 : ℕ) : ℚ) ≤ n + if pre then 0 else 1 / 10 := by
      have hn : ((m + 1 : ℕ) : ℚ) ≤ n := by exact_mod_cast hlt
      split <;> linarith
    refine iff_of_true ?_ (.inl hlt)
    calc ((m : ℚ) : WithTop ℚ) < (((m + 1 : ℕ) : ℚ) : WithTop ℚ) :=
          WithTop.coe_lt_coe.mpr (by exact_mod_cast Nat.lt_succ_self m)
      _ = double.round ((m + 1 : ℕ) : ℚ) := hnext.symm
      _ ≤ double.round (n + if pre then 0 else 1 / 10) :=
        Format.round_mono (Nat.cast_nonneg _) hle
  · by_cases hpre : pre
    · rw [if_pos hpre, add_zero, hround]
      exact iff_of_false (lt_irrefl _) (by simp [hpre])
    · rw [if_neg hpre]
      exact iff_of_true (lt_double_tenth h).1 (.inr ⟨rfl, hpre⟩)
  · refine iff_of_false (not_lt.mpr ?_) (by omega)
    have hle : (n : ℚ) + (if pre then 0 else 1 / 10) ≤ m := by
      have hm : (n : ℚ) + 1 ≤ m := by exact_mod_cast hgt
      split <;> linarith
    rw [← hround]
    refine Format.round_mono ?_ hle
    have hn : (0 : ℚ) ≤ n := Nat.cast_nonneg n
    split <;> linarith

/-! What the callers rely on. -/

theorem number_eq_ok {v : Version} {r : WithTop ℚ} :
    number v = .ok r ↔ Dashed v ∧ r = double.round (digitsValue v) := by
  by_cases h : Dashed v
  · rw [number_of_dashed h, Except.ok.injEq, eq_comm]
    exact (and_iff_right h).symm
  · rw [number, getAcapyVersionAsFloat_of_not_dashed h]
    exact iff_of_false (fun hc => by cases hc) fun hc => h hc.1

theorem dashed_of_release {v : Version} (h : v.suffix = .none) : Dashed v := by
  intro s hs
  rw [h] at hs
  cases hs

theorem natValue_le_digitsValue (v : Version) : (natValue (compact v) : ℚ) ≤ digitsValue v := by
  unfold digitsValue
  split <;> linarith

theorem digitsValue_release {v : Version} (h : v.suffix = .none) :
    digitsValue v = natValue (compact v) := by
  rw [digitsValue, if_pos h, add_zero]

/-- No later release has a number that is as small. -/
theorem Numbered.lt_of_later {v w : Version} {r : WithTop ℚ} (h : Numbered v r)
    (hlater : v.triple < w.triple) (hrelease : w.suffix = .none) :
    natValue (compact v) < natValue (compact w) ∧
      double.round (digitsValue v) < double.round (natValue (compact w)) := by
  obtain ⟨-, rfl⟩ := number_eq_ok.mp h.number_eq
  have hlt := h.lt_later w _ hlater (number_of_dashed (dashed_of_release hrelease))
  rw [digitsValue_release hrelease] at hlt
  refine ⟨?_, hlt⟩
  by_contra hge
  have hle : (natValue (compact w) : ℚ) ≤ natValue (compact v) := by exact_mod_cast not_lt.mp hge
  exact absurd (Format.round_mono (Nat.cast_nonneg _) (hle.trans (natValue_le_digitsValue v)))
    (not_le.mpr hlt)

theorem newerThan_iff {v : Version} (hy : v.y < 10) (hz : v.z < 10) {x y z : ℕ} (hy' : y < 10)
    (hz' : z < 10) : v.NewerThan ⟨x, y, z, .none⟩ ↔
      100 * x + 10 * y + z < joined v ∨ 100 * x + 10 * y + z = joined v ∧ ¬ v.suffix = .none := by
  rw [Version.NewerThan, triple_lt_iff, triple_eq_iff, Version.IsPreRelease, joined]
  dsimp only
  constructor
  · rintro (hlt | ⟨heq, hpre⟩)
    · exact .inl (by omega)
    · exact .inr ⟨by omega, hpre⟩
  · rintro (hlt | ⟨heq, hpre⟩)
    · exact .inl (by omega)
    · exact .inr ⟨by omega, hpre⟩

theorem Numbered.y_lt {v : Version} {r : WithTop ℚ} (h : Numbered v r) : v.y < 10 := by
  by_contra hten
  have hlarge := natValue_of_ten_le_y (not_lt.mp hten)
  have hnext := (h.lt_of_later (w := ⟨v.x + 1, 0, 0, .none⟩)
    (triple_lt_iff.mpr (.inl (Nat.lt_succ_self _))) rfl).1
  rw [natValue_release (by decide) (by decide)] at hnext
  omega

theorem Numbered.z_lt {v : Version} {r : WithTop ℚ} (h : Numbered v r) : v.z < 10 := by
  by_contra hten
  obtain ⟨w, hlater, hrelease, hvalue⟩ := exists_next h.y_lt
  have hlarge := natValue_of_ten_le_z h.y_lt (not_lt.mp hten)
  have hnext := (h.lt_of_later hlater hrelease).1
  rw [hvalue] at hnext
  omega

theorem compact_toRelease (v : Version) : compact v.toRelease = compact v := rfl

/-- The number differs from that of the release and from that of the next one. -/
theorem Numbered.separated {v : Version} {r : WithTop ℚ} (h : Numbered v r) : Separated v := by
  have hz := h.z_lt
  have hcompact := natValue_compact_of_lt h.y_lt hz
  obtain ⟨w, hlater, hrelease, hvalue⟩ := exists_next h.y_lt
  have hsucc : natValue (compact w) = joined v + 1 := by
    rw [hvalue, joined]
    omega
  have hlt := (h.lt_of_later hlater hrelease).2
  rw [hsucc, digitsValue, hcompact] at hlt
  push_cast at hlt
  unfold Separated
  split
  · next hnone =>
    rw [if_pos hnone, add_zero] at hlt
    exact hlt
  · next hpre =>
    rw [if_neg hpre] at hlt
    obtain ⟨-, rfl⟩ := number_eq_ok.mp h.number_eq
    have hrel := h.release_lt hpre _ (number_of_dashed (dashed_of_release rfl))
    rw [digitsValue_release rfl, compact_toRelease, digitsValue, if_neg hpre, hcompact] at hrel
    exact ⟨hrel, hlt⟩

theorem numbered_of_separated {v : Version} (hy : v.y < 10) (hz : v.z < 10) (hdashed : Dashed v)
    (hseparated : Separated v) : Numbered v (double.round (digitsValue v)) := by
  have hcompact := natValue_compact_of_lt hy hz
  refine ⟨number_of_dashed hdashed, ?_, ?_, ?_, ?_⟩
  · intro w q hlater hw
    obtain ⟨-, rfl⟩ := number_eq_ok.mp hw
    have hjoined := (joined_lt_of_later hy hz hlater).trans (joined_le w)
    have hvalue : (joined v : ℚ) + 1 ≤ natValue (compact w) := by exact_mod_cast hjoined
    have hnonneg : (0 : ℚ) ≤ joined v + 1 := by positivity
    have hle := Format.round_mono (F := double) hnonneg (hvalue.trans (natValue_le_digitsValue w))
    refine lt_of_lt_of_le ?_ hle
    rw [digitsValue, hcompact]
    unfold Separated at hseparated
    split at hseparated
    · next hnone =>
      rw [if_pos hnone, add_zero]
      exact hseparated
    · next hpre =>
      rw [if_neg hpre]
      exact hseparated.2
  · intro hpre q hq
    obtain ⟨-, rfl⟩ := number_eq_ok.mp hq
    rw [Separated, if_neg hpre] at hseparated
    rw [digitsValue_release rfl, compact_toRelease, digitsValue, if_neg hpre, hcompact]
    exact hseparated.1
  · rw [digitsValue, hcompact]
    exact (@lt_double_iff 54 _ (by decide) _ _).trans
      (@newerThan_iff v hy hz 0 5 4 (by decide) (by decide)).symm
  · rw [digitsValue, hcompact]
    exact (@lt_double_iff 56 _ (by decide) _ _).trans
      (@newerThan_iff v hy hz 0 5 6 (by decide) (by decide)).symm

/-- The numbers of a version are as promised just if its second and third component have one digit
each, no `rc` is behind a dash, and the floating point numbers near it are different ones. -/
theorem version_comparable_iff (v : Version) :
    Comparable v ↔ v.y < 10 ∧ v.z < 10 ∧ Dashed v ∧ Separated v := by
  constructor
  · rintro ⟨r, h⟩
    exact ⟨h.y_lt, h.z_lt, (number_eq_ok.mp h.number_eq).1, h.separated⟩
  · rintro ⟨hy, hz, hdashed, hseparated⟩
    exact ⟨_, numbered_of_separated hy hz hdashed hseparated⟩

/-- Version 1.0.0 has the number of 0.10.0. -/
theorem versions_not_comparable : ¬ ∀ v, Comparable v := by
  intro h
  obtain ⟨r, hr⟩ := h ⟨0, 10, 0, .none⟩
  have hlater : (⟨0, 10, 0, .none⟩ : Version).triple < (⟨1, 0, 0, .none⟩ : Version).triple :=
    triple_lt_iff.mpr (.inl one_pos)
  have hlt := (hr.lt_of_later hlater rfl).1
  revert hlt
  decide

end AgentTestHarness.VersionNumbers
