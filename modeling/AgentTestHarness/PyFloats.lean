import AgentTestHarness.BinaryFloats
import AgentTestHarness.JsonText

/-! Python's `float` of a text, and the comparisons of the number with whole numbers. -/
namespace AgentTestHarness.PyFloats
open PyText PyJson JsonText BinaryFloats

/-- A decimal number: the digits without the point, and how many stand behind it. -/
structure Decimal where
  mantissa : ℕ
  decimals : ℕ
  deriving DecidableEq

namespace Decimal

def value (d : Decimal) : ℚ := d.mantissa / 10 ^ d.decimals

/-- The number times a power of ten. -/
def scaled (d : Decimal) (exponent : ℤ) : Decimal :=
  let shift := exponent - d.decimals
  ⟨d.mantissa * 10 ^ shift.toNat, (-shift).toNat⟩

theorem scaled_zero (d : Decimal) : d.scaled 0 = d := by
  simp [scaled]

end Decimal

inductive Number
  | finite (negative : Bool) (d : Decimal)
  | infinite (negative : Bool)
  | nan
  deriving DecidableEq

namespace Number

/-- The nearest float is greater than the whole number; not a number is not greater than any. -/
def exceeds : Number → ℕ → Prop
  | finite false d, n => ((n : ℚ) : WithTop ℚ) < double.round d.value
  | infinite false, _ => True
  | _, _ => False

instance : (x : Number) → (n : ℕ) → Decidable (x.exceeds n)
  | finite false d, n =>
    inferInstanceAs (Decidable (((n : ℚ) : WithTop ℚ) < double.round d.value))
  | infinite false, _ => isTrue trivial
  | finite true _, _ | infinite true, _ | nan, _ => isFalse id

/-- `x == True` -/
def isOne : Number → Bool
  | finite false d => double.round d.value = 1
  | _ => false

theorem exceeds_natCast {m n : ℕ} (h : m < 2 ^ 53) : (finite false ⟨m, 0⟩).exceeds n ↔ n < m := by
  have hround : double.round m = ((m : ℚ) : WithTop ℚ) := Format.round_natCast h
  rw [exceeds, Decimal.value, pow_zero, div_one, hround, WithTop.coe_lt_coe, Nat.cast_lt]

end Number

def valueError : PyError := .exception "could not convert string to float"

/-- The digits of every script count. -/
def asciiDigit (c : Char) : Char :=
  match decimalZeros.find? fun z => z ≤ c.toNat && c.toNat < z + 10 with
  | some z => Char.ofNat ('0'.toNat + (c.toNat - z))
  | none => c

/-- Underscores stand between digits, and are left out. -/
def withoutUnderscores : Text → Except PyError Text
  | [] => .ok []
  | '_' :: _ => .error valueError
  | [c] => .ok [c]
  | c :: '_' :: t =>
    if c.isDigit ∧ (t.head?.any Char.isDigit) then (withoutUnderscores t).map (c :: ·)
    else .error valueError
  | c :: d :: t => (withoutUnderscores (d :: t)).map (c :: ·)

/-- The power of ten of what `validExponent` accepts. -/
def exponentValue : Text → ℤ
  | _ :: '-' :: digits => -natValue digits
  | _ :: '+' :: digits => natValue digits
  | _ :: digits => natValue digits
  | [] => 0

/-- Digits, with a point before, between or behind them, and an exponent. -/
def magnitude (t : Text) : Except PyError Decimal :=
  let whole := t.takeWhile Char.isDigit
  let rest := t.dropWhile Char.isDigit
  let pointed := rest.head? = some '.'
  let part := if pointed then rest.tail.takeWhile Char.isDigit else []
  let exponent := if pointed then rest.tail.dropWhile Char.isDigit else rest
  if whole ++ part ≠ [] ∧ validExponent exponent then
    .ok (Decimal.scaled ⟨natValue (whole ++ part), part.length⟩ (exponentValue exponent))
  else .error valueError

def unsigned (negative : Bool) (t : Text) : Except PyError Number :=
  let word := t.map Char.toLower
  if word = "inf".toList ∨ word = "infinity".toList then .ok (.infinite negative)
  else if word = "nan".toList then .ok .nan
  else (magnitude t).map (.finite negative)

def signed : Text → Except PyError Number
  | '-' :: t => unsigned true t
  | '+' :: t => unsigned false t
  | t => unsigned false t

def float (t : Text) : Except PyError Number :=
  withoutUnderscores ((strip t).map asciiDigit) >>= signed

/-- The float of a JSON literal equals one. -/
def isOne (literal : Text) : Bool :=
  match float literal with
  | .ok x => x.isOne
  | .error _ => false

/-! Texts that begin and end with a digit. -/

theorem isWhitespace_digit {c : Char} (h : c.isDigit = true) : isWhitespace c = false := by
  have hdigit : 48 ≤ c.toNat ∧ c.toNat ≤ 57 := Char.isDigit_iff_toNat.mp h
  simp [isWhitespace]
  omega

theorem asciiDigit_digit {c : Char} (h : c.isDigit = true) : asciiDigit c = c := by
  have hdigit : 48 ≤ c.toNat ∧ c.toNat ≤ 57 := Char.isDigit_iff_toNat.mp h
  have hzero : (decimalZeros.find? fun z => z ≤ c.toNat && c.toNat < z + 10) = some 0x30 := by
    rw [decimalZeros, List.find?_cons_of_pos]
    simp
    omega
  have hvalue : '0'.toNat + (c.toNat - 0x30) = c.toNat := by
    have hchar : '0'.toNat = 48 := rfl
    omega
  simp only [asciiDigit, hzero, hvalue]
  exact Char.ofNat_toNat c

theorem strip_of_digits {t : Text} (hhead : ∀ c ∈ t.head?, c.isDigit = true)
    (hlast : ∀ c ∈ t.getLast?, c.isDigit = true) : strip t = t := by
  have hleft : t.dropWhile isWhitespace = t := by
    cases t with
    | nil => rfl
    | cons c t =>
      have hc := isWhitespace_digit (hhead c rfl)
      rw [List.dropWhile_cons_of_neg (by rw [hc]; decide)]
  rw [strip, hleft, List.rdropWhile_eq_self_iff]
  intro hne hspace
  have hdigit := hlast _ (List.getLast?_eq_getLast_of_ne_nil hne)
  rw [isWhitespace_digit hdigit] at hspace
  cases hspace

theorem withoutUnderscores_cons {c d : Char} {t : Text} (hc : c ≠ '_') (hd : d ≠ '_') :
    withoutUnderscores (c :: d :: t) = (withoutUnderscores (d :: t)).map (c :: ·) := by
  rw [withoutUnderscores]
  · exact fun h => hc h
  · exact fun h => hd h

theorem withoutUnderscores_of_notMem {t : Text} (h : '_' ∉ t) : withoutUnderscores t = .ok t := by
  induction t with
  | nil => rfl
  | cons c t ih =>
    rw [List.mem_cons, not_or] at h
    have hc : c ≠ '_' := fun heq => h.1 heq.symm
    cases t with
    | nil =>
      rw [withoutUnderscores]
      exact hc
    | cons d t =>
      have hd : d ≠ '_' := fun heq => h.2 (heq ▸ List.mem_cons_self)
      rw [withoutUnderscores_cons hc hd, ih h.2]
      rfl

theorem error_of_map {ε α β : Type} {x : Except ε α} {f : α → β} {e : ε}
    (h : x.map f = .error e) : x = .error e := by
  cases x with
  | ok a => cases h
  | error e' => exact congrArg Except.error (Except.error.inj h)

theorem error_withoutUnderscores {t : Text} {e : PyError} (h : withoutUnderscores t = .error e) :
    e = valueError := by
  fun_induction withoutUnderscores t generalizing e with
  | case1 => cases h
  | case2 => exact (Except.error.inj h).symm
  | case3 => cases h
  | case4 c t _ _ ih => exact ih (error_of_map h)
  | case5 => exact (Except.error.inj h).symm
  | case6 c d t _ _ ih => exact ih (error_of_map h)

theorem ne_of_isDigit {c d : Char} (h : c.isDigit = true) (hd : ¬ d.isDigit = true) : c ≠ d :=
  fun heq => hd (heq ▸ h)

/-- A minus behind digits stays there. -/
theorem withoutUnderscores_minus {ds t u : Text} (h : ∀ c ∈ ds, c.isDigit = true)
    (hu : withoutUnderscores (ds ++ '-' :: t) = .ok u) : ∃ r, u = ds ++ '-' :: r := by
  induction ds generalizing u with
  | nil =>
    rw [List.nil_append] at hu
    cases t with
    | nil => exact ⟨[], (Except.ok.inj hu).symm⟩
    | cons d t =>
      by_cases hd : d = '_'
      · subst hd
        rw [withoutUnderscores] at hu
        · simp at hu
        · decide
      · rw [withoutUnderscores_cons (by decide) hd] at hu
        cases hrest : withoutUnderscores (d :: t) with
        | ok r =>
          rw [hrest] at hu
          exact ⟨r, (Except.ok.inj hu).symm⟩
        | error e =>
          rw [hrest] at hu
          cases hu
  | cons c ds ih =>
    have hcons : withoutUnderscores (c :: (ds ++ '-' :: t)) =
        (withoutUnderscores (ds ++ '-' :: t)).map (c :: ·) := by
      have hc := ne_of_isDigit (d := '_') (h c List.mem_cons_self) (by decide)
      cases ds with
      | nil => exact withoutUnderscores_cons hc (by decide)
      | cons d ds =>
        have hmem : d ∈ c :: d :: ds := List.mem_cons_of_mem _ List.mem_cons_self
        exact withoutUnderscores_cons hc (ne_of_isDigit (h d hmem) (by decide))
    rw [List.cons_append, hcons] at hu
    cases hrest : withoutUnderscores (ds ++ '-' :: t) with
    | ok r =>
      obtain ⟨r', rfl⟩ := ih (fun c' hc' => h c' (List.mem_cons_of_mem _ hc')) hrest
      rw [hrest] at hu
      exact ⟨r', (Except.ok.inj hu).symm⟩
    | error e =>
      rw [hrest] at hu
      cases hu

/-- A text that begins with a digit has no sign and is no word. -/
theorem signed_digit {c : Char} {t : Text} (h : c.isDigit = true) :
    signed (c :: t) = (magnitude (c :: t)).map (.finite false) := by
  have hlower : c.toLower = c := by
    have hdigit : 48 ≤ c.toNat ∧ c.toNat ≤ 57 := Char.isDigit_iff_toNat.mp h
    have hlower : ¬ (c.val ≥ 'A'.val ∧ c.val ≤ 'Z'.val) := by
      rintro ⟨hupper, -⟩
      have hle : 65 ≤ c.toNat := hupper
      omega
    exact dif_neg hlower
  have hword : ∀ {w : Text} {d : Char}, ¬ d.isDigit = true → (c :: t).map Char.toLower ≠ d :: w := by
    intro w d hd heq
    rw [List.map_cons, hlower] at heq
    exact ne_of_isDigit h hd (List.cons.inj heq).1
  have hunsigned : unsigned false (c :: t) = (magnitude (c :: t)).map (.finite false) := by
    rw [unsigned, if_neg, if_neg]
    · exact hword (by decide)
    · rintro (heq | heq)
      · exact hword (by decide) heq
      · exact hword (by decide) heq
  rw [signed, hunsigned]
  · exact fun _ heq => ne_of_isDigit h (by decide) (List.cons.inj heq).1
  · exact fun _ heq => ne_of_isDigit h (by decide) (List.cons.inj heq).1

section

variable {ds : Text} (hne : ds ≠ []) (h : ∀ c ∈ ds, c.isDigit = true)
include hne h

/-- Between digits nothing is stripped. -/
theorem float_of_digits {t : Text} (hlast : ∀ c ∈ (ds ++ t).getLast?, c.isDigit = true) :
    float (ds ++ t) = withoutUnderscores (ds ++ t.map asciiDigit) >>= signed := by
  have hhead : ∀ c ∈ (ds ++ t).head?, c.isDigit = true := by
    obtain ⟨d, ds', rfl⟩ := List.exists_cons_of_ne_nil hne
    rintro c ⟨⟩
    exact h d List.mem_cons_self
  have hmap : ds.map asciiDigit = ds := by
    refine (List.map_congr_left fun c hc => asciiDigit_digit (h c hc)).trans ?_
    exact List.map_id ds
  rw [float, strip_of_digits hhead hlast, List.map_append, hmap]

theorem signed_of_digits (t : Text) :
    signed (ds ++ t) = (magnitude (ds ++ t)).map (.finite false) := by
  obtain ⟨d, ds', rfl⟩ := List.exists_cons_of_ne_nil hne
  exact signed_digit (h d List.mem_cons_self)

theorem float_digits : float ds = .ok (.finite false ⟨natValue ds, 0⟩) := by
  have hlast : ∀ c ∈ (ds ++ []).getLast?, c.isDigit = true := by
    intro c hc
    rw [List.append_nil] at hc
    exact h c (List.mem_of_getLast? hc)
  have hunderscore : '_' ∉ ds := fun hmem => absurd (h _ hmem) (by decide)
  have hfloat := float_of_digits hne h hlast
  have hsigned := signed_of_digits hne h []
  rw [List.map_nil, List.append_nil, withoutUnderscores_of_notMem hunderscore] at hfloat
  rw [List.append_nil] at hsigned
  rw [hfloat]
  refine hsigned.trans ?_
  have htake := List.takeWhile_eq_self_iff.mpr h
  have hdrop := List.dropWhile_eq_nil_iff.mpr h
  simp [magnitude, htake, hdrop, hne, validExponent, exponentValue, Decimal.scaled_zero, Except.map]

theorem float_digits_point :
    float (ds ++ ".1".toList) = .ok (.finite false ⟨10 * natValue ds + 1, 1⟩) := by
  have hlast : ∀ c ∈ (ds ++ ".1".toList).getLast?, c.isDigit = true := by
    rw [List.getLast?_append]
    simp
  have hunderscore : '_' ∉ ds ++ ".1".toList := by
    intro hmem
    rcases List.mem_append.mp hmem with hmem | hmem
    · exact absurd (h _ hmem) (by decide)
    · exact absurd hmem (by decide)
  have hpoint : ".1".toList.map asciiDigit = ".1".toList := by decide
  rw [float_of_digits hne h hlast, hpoint, withoutUnderscores_of_notMem hunderscore]
  refine (signed_of_digits hne h _).trans ?_
  have htake : (ds ++ ".1".toList).takeWhile Char.isDigit = ds := by
    rw [List.takeWhile_append_of_pos h]
    simp
  have hdrop : (ds ++ ".1".toList).dropWhile Char.isDigit = ".1".toList := by
    rw [List.dropWhile_append_of_pos h]
    rfl
  have hvalue : natValue (ds ++ ['1']) = 10 * natValue ds + 1 :=
    (Nat.ofDigitChars_append 0).trans Nat.ofDigitChars_eq_ofDigitChars_zero
  have hhead : ".1".toList.head? = some '.' := rfl
  have hpart : ".1".toList.tail.takeWhile Char.isDigit = ['1'] := rfl
  have hexponent : ".1".toList.tail.dropWhile Char.isDigit = [] := rfl
  simp only [magnitude, htake, hdrop, if_pos hhead, hpart, hexponent, hvalue]
  rw [if_pos ⟨by simp, rfl⟩]
  exact congrArg (fun d => Except.ok (Number.finite false d)) (Decimal.scaled_zero _)

/-- A minus behind digits is not read. -/
theorem float_minus {t : Text} (hlast : ∀ c ∈ (ds ++ '-' :: t).getLast?, c.isDigit = true) :
    float (ds ++ '-' :: t) = .error valueError := by
  have hminus : asciiDigit '-' = '-' := by decide
  rw [float_of_digits hne h hlast, List.map_cons, hminus]
  cases hu : withoutUnderscores (ds ++ '-' :: t.map asciiDigit) with
  | error e => exact congrArg Except.error (error_withoutUnderscores hu)
  | ok u =>
    obtain ⟨r, rfl⟩ := withoutUnderscores_minus h hu
    refine (signed_of_digits hne h _).trans ?_
    have htake : (ds ++ '-' :: r).takeWhile Char.isDigit = ds := by
      rw [List.takeWhile_append_of_pos h]
      simp
    have hdrop : (ds ++ '-' :: r).dropWhile Char.isDigit = '-' :: r := by
      rw [List.dropWhile_append_of_pos h]
      rfl
    simp [magnitude, htake, hdrop, validExponent, Except.map]

end

end AgentTestHarness.PyFloats
