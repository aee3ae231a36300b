import Mathlib.Algebra.Order.Field.Rat
import Mathlib.Algebra.Order.Round
import Mathlib.Data.Int.Log
import Mathlib.Data.Rat.Floor
import Mathlib.Order.WithBot
import Mathlib.Tactic.Linarith
import Mathlib.Tactic.Positivity

/-! Binary floating point numbers of a precision and a range of exponents, and the one nearest to a
rational number that is not negative; of two it is the even one. -/
namespace AgentTestHarness.BinaryFloats

/-- The integer nearest to a number, and the even one of two. -/
def roundEven (q : ℚ) : ℤ :=
  if q - ⌊q⌋ < 1 / 2 then ⌊q⌋
  else if 1 / 2 < q - ⌊q⌋ then ⌊q⌋ + 1
  else if Even ⌊q⌋ then ⌊q⌋ else ⌊q⌋ + 1

theorem floor_le_roundEven (q : ℚ) : ⌊q⌋ ≤ roundEven q := by
  unfold roundEven
  split_ifs <;> omega

theorem roundEven_le_floor_add_one (q : ℚ) : roundEven q ≤ ⌊q⌋ + 1 := by
  unfold roundEven
  split_ifs <;> omega

theorem roundEven_intCast (n : ℤ) : roundEven n = n := by
  simp [roundEven]

theorem roundEven_mono {q r : ℚ} (h : q ≤ r) : roundEven q ≤ roundEven r := by
  rcases (Int.floor_le_floor h).lt_or_eq with hlt | heq
  · have hq := roundEven_le_floor_add_one q
    have hr := floor_le_roundEven r
    omega
  · have hpart : q - ⌊q⌋ ≤ r - ⌊r⌋ := by rw [heq]; linarith
    unfold roundEven
    rw [← heq] at hpart ⊢
    split_ifs <;> first | omega | linarith

theorem abs_roundEven_sub_le (q : ℚ) : |(roundEven q : ℚ) - q| ≤ 1 / 2 := by
  have hfloor := Int.floor_le q
  have hlt := Int.lt_floor_add_one q
  unfold roundEven
  rw [abs_le]
  split_ifs <;> push_cast <;> constructor <;> linarith

structure Format where
  precision : ℕ
  minExponent : ℤ
  maxExponent : ℤ
  precision_pos : 0 < precision
  min_lt : minExponent < precision
  le_max : precision ≤ maxExponent

namespace Format

variable (F : Format)

def exponent (q : ℚ) : ℤ := max F.minExponent (Int.log 2 q)

/-- The unit in the last place. -/
def ulp (q : ℚ) : ℚ := 2 ^ (F.exponent q + 1 - F.precision)

def nearest (q : ℚ) : ℚ := roundEven (q / F.ulp q) * F.ulp q

/-- A number beyond the largest one is infinite. -/
def round (q : ℚ) : WithTop ℚ :=
  if F.nearest q < 2 ^ (F.maxExponent + 1) then (F.nearest q : ℚ) else ⊤

variable {F}

theorem ulp_pos (q : ℚ) : 0 < F.ulp q := zpow_pos two_pos _

theorem abs_nearest_sub_le (q : ℚ) : |F.nearest q - q| ≤ F.ulp q / 2 := by
  have hpos := F.ulp_pos q
  have hround := abs_roundEven_sub_le (q / F.ulp q)
  have heq : F.nearest q - q = (roundEven (q / F.ulp q) - q / F.ulp q) * F.ulp q := by
    rw [sub_mul, div_mul_cancel₀ _ hpos.ne']
    rfl
  rw [heq, abs_mul, abs_of_pos hpos]
  calc |(roundEven (q / F.ulp q) : ℚ) - q / F.ulp q| * F.ulp q
      ≤ 1 / 2 * F.ulp q := mul_le_mul_of_nonneg_right hround hpos.le
    _ = F.ulp q / 2 := by ring

theorem exponent_mono {q r : ℚ} (hq : 0 < q) (h : q ≤ r) : F.exponent q ≤ F.exponent r :=
  max_le_max le_rfl (Int.log_mono_right hq h)

theorem lt_zpow_exponent (q : ℚ) : q < 2 ^ (F.exponent q + 1) := by
  have hlog := Int.lt_zpow_succ_log_self one_lt_two q
  have hle : Int.log 2 q + 1 ≤ F.exponent q + 1 := add_le_add_left (le_max_right _ _) 1
  exact_mod_cast hlog.trans_le (zpow_le_zpow_right₀ one_le_two hle)

/-- Two powers of a unit and the precision make up the end of the binade. -/
theorem pow_precision_mul_ulp (q : ℚ) :
    ((2 ^ F.precision : ℤ) : ℚ) * F.ulp q = 2 ^ (F.exponent q + 1) := by
  have htwo : (2 : ℚ) ≠ 0 := two_ne_zero
  push_cast
  rw [ulp, ← zpow_natCast, ← zpow_add₀ htwo]
  congr 1
  ring

theorem nearest_le_binade (q : ℚ) : F.nearest q ≤ 2 ^ (F.exponent q + 1) := by
  have hpos := F.ulp_pos q
  have hquot : q / F.ulp q ≤ ((2 ^ F.precision : ℤ) : ℚ) := by
    rw [div_le_iff₀ hpos, pow_precision_mul_ulp]
    exact (lt_zpow_exponent q).le
  have hround := roundEven_mono hquot
  rw [roundEven_intCast] at hround
  calc F.nearest q ≤ ((2 ^ F.precision : ℤ) : ℚ) * F.ulp q :=
        mul_le_mul_of_nonneg_right (by exact_mod_cast hround) hpos.le
    _ = 2 ^ (F.exponent q + 1) := pow_precision_mul_ulp q

/-- Above the least exponent the numbers of a binade are not rounded below its beginning. -/
theorem binade_le_nearest {q : ℚ} (hq : 0 < q) (h : F.minExponent < F.exponent q) :
    (2 : ℚ) ^ F.exponent q ≤ F.nearest q := by
  have hpos := F.ulp_pos q
  have hlog : F.exponent q = Int.log 2 q := by
    rw [exponent] at h ⊢
    exact max_eq_right (not_lt.mp fun hlt => absurd h (by rw [max_eq_left hlt.le]; exact lt_irrefl _))
  have hbinade : (2 : ℚ) ^ F.exponent q ≤ q := by
    rw [hlog]
    exact_mod_cast Int.zpow_log_le_self one_lt_two hq
  have hhalf : ((2 ^ (F.precision - 1) : ℤ) : ℚ) * F.ulp q = 2 ^ F.exponent q := by
    have htwo : (2 : ℚ) ≠ 0 := two_ne_zero
    have hprecision := F.precision_pos
    push_cast
    rw [ulp, ← zpow_natCast, ← zpow_add₀ htwo]
    congr 1
    omega
  have hquot : ((2 ^ (F.precision - 1) : ℤ) : ℚ) ≤ q / F.ulp q := by
    rw [le_div_iff₀ hpos, hhalf]
    exact hbinade
  have hround := roundEven_mono hquot
  rw [roundEven_intCast] at hround
  calc (2 : ℚ) ^ F.exponent q = ((2 ^ (F.precision - 1) : ℤ) : ℚ) * F.ulp q := hhalf.symm
    _ ≤ F.nearest q := mul_le_mul_of_nonneg_right (by exact_mod_cast hround) hpos.le

theorem nearest_nonneg {q : ℚ} (hq : 0 ≤ q) : 0 ≤ F.nearest q := by
  have hround := roundEven_mono (show ((0 : ℤ) : ℚ) ≤ q / F.ulp q by
    rw [Int.cast_zero]
    exact div_nonneg hq (F.ulp_pos q).le)
  rw [roundEven_intCast] at hround
  exact mul_nonneg (by exact_mod_cast hround) (F.ulp_pos q).le

theorem nearest_zero : F.nearest 0 = 0 := by
  have hzero : roundEven 0 = 0 := by exact_mod_cast roundEven_intCast 0
  simp [nearest, hzero]

theorem nearest_mono {q r : ℚ} (hq : 0 ≤ q) (h : q ≤ r) : F.nearest q ≤ F.nearest r := by
  rcases hq.eq_or_lt with rfl | hq
  · rw [nearest_zero]
    exact nearest_nonneg h
  rcases (F.exponent_mono hq h).lt_or_eq with hlt | heq
  · calc F.nearest q ≤ 2 ^ (F.exponent q + 1) := nearest_le_binade q
      _ ≤ 2 ^ F.exponent r := zpow_le_zpow_right₀ one_le_two hlt
      _ ≤ F.nearest r :=
        binade_le_nearest (hq.trans_le h) ((le_max_left _ _).trans_lt hlt)
  · have hulp : F.ulp q = F.ulp r := by rw [ulp, ulp, heq]
    have hround := roundEven_mono (div_le_div_of_nonneg_right h (F.ulp_pos r).le)
    rw [nearest, nearest, hulp]
    exact mul_le_mul_of_nonneg_right (by exact_mod_cast hround) (F.ulp_pos r).le

theorem round_mono {q r : ℚ} (hq : 0 ≤ q) (h : q ≤ r) : F.round q ≤ F.round r := by
  have hnearest := F.nearest_mono hq h
  unfold round
  split_ifs with hfinite hfinite'
  · exact WithTop.coe_le_coe.mpr hnearest
  · exact le_top
  · linarith
  · exact le_rfl

/-! Numbers that are small for the precision. -/

theorem exponent_lt_of_lt {q : ℚ} {k : ℕ} (hq : 0 < q) (h : q < 2 ^ k)
    (hk : F.minExponent < k) : F.exponent q < k :=
  max_lt hk ((Int.lt_zpow_iff_log_lt one_lt_two hq).mp (by exact_mod_cast h))

theorem nearest_natCast {n : ℕ} (h : n < 2 ^ F.precision) : F.nearest n = n := by
  rcases Nat.eq_zero_or_pos n with rfl | hn
  · exact_mod_cast F.nearest_zero
  · have hexponent := F.exponent_lt_of_lt (q := n) (by exact_mod_cast hn) (by exact_mod_cast h)
      F.min_lt
    obtain ⟨k, hk⟩ := Int.eq_ofNat_of_zero_le
      (show 0 ≤ (F.precision : ℤ) - (F.exponent n + 1) by omega)
    have hulp : F.ulp n = (2 ^ k)⁻¹ := by
      have hneg : F.exponent n + 1 - F.precision = -(k : ℤ) := by omega
      rw [ulp, hneg, zpow_neg, zpow_natCast]
    have hquot : (n : ℚ) / F.ulp n = ((n * 2 ^ k : ℤ) : ℚ) := by
      rw [hulp, div_inv_eq_mul]
      push_cast
      rfl
    rw [nearest, hquot, roundEven_intCast, ← hquot, div_mul_cancel₀ _ (F.ulp_pos _).ne']

theorem nearest_lt_of_lt {q : ℚ} {k : ℕ} (hq : 0 < q) (h : q < 2 ^ k) (hmin : F.minExponent < k)
    (hmax : k ≤ F.maxExponent) : F.nearest q < 2 ^ (F.maxExponent + 1) := by
  have hexponent := exponent_lt_of_lt hq h hmin
  calc F.nearest q ≤ 2 ^ (F.exponent q + 1) := nearest_le_binade q
    _ < 2 ^ (F.maxExponent + 1) := zpow_lt_zpow_right₀ one_lt_two (by omega)

theorem round_natCast {n : ℕ} (h : n < 2 ^ F.precision) : F.round n = ((n : ℚ) : WithTop ℚ) := by
  have hmax := F.le_max
  have hlt : (n : ℚ) < 2 ^ (F.maxExponent + 1) := by
    calc (n : ℚ) < 2 ^ F.precision := by exact_mod_cast h
      _ = 2 ^ (F.precision : ℤ) := (zpow_natCast _ _).symm
      _ ≤ 2 ^ (F.maxExponent + 1) := zpow_le_zpow_right₀ one_le_two (by omega)
  rw [round, nearest_natCast h, if_pos hlt]

/-- The distance to the nearest number, in terms of the bits that are left for the part behind the
point. -/
theorem abs_nearest_sub_le_of_lt {q : ℚ} {k bits : ℕ} (hq : 0 < q) (h : q < 2 ^ k)
    (hmin : F.minExponent < k) (hbits : k + bits ≤ F.precision) :
    |F.nearest q - q| ≤ (2 ^ bits)⁻¹ / 2 := by
  have hexponent := exponent_lt_of_lt hq h hmin
  have hulp : F.ulp q ≤ (2 ^ bits)⁻¹ := by
    rw [ulp, ← zpow_natCast, ← zpow_neg]
    exact zpow_le_zpow_right₀ one_le_two (by omega)
  exact (abs_nearest_sub_le q).trans (div_le_div_of_nonneg_right hulp two_pos.le)

end Format

/-- Python's floating point numbers. -/
def double : Format := ⟨53, -1022, 1023, by decide, by decide, by decide⟩

end AgentTestHarness.BinaryFloats
