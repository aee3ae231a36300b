import Mathlib.Data.Fin.Basic
import Mathlib.Data.List.DropRight
import Mathlib.Data.List.FinRange

/-! Base64 over an alphabet of 64 letters and a pad. Three bytes become four letters; the decoder
collects the bits of the letters and passes over everything else. -/
namespace AgentTestHarness.Base64

structure Alphabet (α : Type*) where
  letter : Fin 64 → α
  pad : α
  injective : Function.Injective letter
  letter_ne_pad : ∀ v, letter v ≠ pad

/-- One letter too many, or a last group that is not filled with pads. -/
inductive DecodeError
  | dataCharacters
  | incorrectPadding
  deriving DecidableEq

namespace Alphabet

variable {α : Type*} (A : Alphabet α)

def symbol (n : ℕ) : α := A.letter (Fin.ofNat 64 n)

def encode : List UInt8 → List α
  | [] => []
  | [a] => [A.symbol (a.toNat / 4), A.symbol (a.toNat % 4 * 16), A.pad, A.pad]
  | [a, b] => [A.symbol (a.toNat / 4), A.symbol (a.toNat % 4 * 16 + b.toNat / 16),
      A.symbol (b.toNat % 16 * 4), A.pad]
  | a :: b :: c :: bytes =>
      A.symbol (a.toNat / 4) :: A.symbol (a.toNat % 4 * 16 + b.toNat / 16) ::
        A.symbol (b.toNat % 16 * 4 + c.toNat / 64) :: A.symbol (c.toNat % 64) :: encode bytes

variable [DecidableEq α]

def value? (c : α) : Option ℕ := ((List.finRange 64).find? fun v => A.letter v = c).map Fin.val

/-- The decoder at a position in a group of four letters, with the bits that are left of the last
letter. Behind two letters the text ends with the pads that fill the group. -/
def decodeFrom : (position left pads : ℕ) → List α → Except DecodeError (List UInt8)
  | 0, _, _, [] => .ok []
  | 1, _, _, [] => .error .dataCharacters
  | _, _, _, [] => .error .incorrectPadding
  | position, left, pads, c :: cs =>
    if c = A.pad then
      if 2 ≤ position then
        if 4 ≤ position + (pads + 1) then .ok [] else decodeFrom position left (pads + 1) cs
      else decodeFrom position left pads cs
    else match A.value? c with
      | none => decodeFrom position left pads cs
      | some v => match position with
        | 0 => decodeFrom 1 v 0 cs
        | 1 => (UInt8.ofNat (left * 4 + v / 16) :: ·) <$> decodeFrom 2 (v % 16) 0 cs
        | 2 => (UInt8.ofNat (left * 16 + v / 4) :: ·) <$> decodeFrom 3 (v % 4) 0 cs
        | _ => (UInt8.ofNat (left * 64 + v) :: ·) <$> decodeFrom 0 0 0 cs

def decode (text : List α) : Except DecodeError (List UInt8) := A.decodeFrom 0 0 0 text

/-! The round trip. -/

variable {A}

theorem value?_letter (v : Fin 64) : A.value? (A.letter v) = some v := by
  have hfind : (List.finRange 64).find? (fun w => A.letter w = A.letter v) = some v := by
    simp only [A.injective.eq_iff]
    cases h : (List.finRange 64).find? fun w => decide (w = v) with
    | none => exact absurd (List.find?_eq_none.mp h v (List.mem_finRange v)) (by simp)
    | some w => simpa using List.find?_some h
  rw [value?, hfind]
  rfl

theorem value?_symbol {n : ℕ} (h : n < 64) : A.value? (A.symbol n) = some n := by
  rw [symbol, value?_letter]
  simp [Fin.ofNat, Nat.mod_eq_of_lt h]

omit [DecidableEq α] in
theorem symbol_ne_pad (n : ℕ) : A.symbol n ≠ A.pad := A.letter_ne_pad _

/-- A letter moves the decoder on in its group. -/
theorem decodeFrom_symbol {n : ℕ} (h : n < 64) (position left pads : ℕ) (cs : List α) :
    A.decodeFrom position left pads (A.symbol n :: cs) = match position with
      | 0 => A.decodeFrom 1 n 0 cs
      | 1 => (UInt8.ofNat (left * 4 + n / 16) :: ·) <$> A.decodeFrom 2 (n % 16) 0 cs
      | 2 => (UInt8.ofNat (left * 16 + n / 4) :: ·) <$> A.decodeFrom 3 (n % 4) 0 cs
      | _ => (UInt8.ofNat (left * 64 + n) :: ·) <$> A.decodeFrom 0 0 0 cs := by
  rw [decodeFrom, if_neg (symbol_ne_pad n), value?_symbol h]

/-- Pads that fill the group end the text. -/
theorem decodeFrom_pads (left : ℕ) :
    A.decodeFrom 2 left 0 [A.pad, A.pad] = .ok [] ∧ A.decodeFrom 3 left 0 [A.pad] = .ok [] := by
  simp [decodeFrom]

theorem decodeFrom_encode (bytes : List UInt8) (left pads : ℕ) :
    A.decodeFrom 0 left pads (A.encode bytes) = .ok bytes := by
  induction bytes using encode.induct generalizing left pads with
  | case1 => rfl
  | case2 a =>
    have ha := a.toNat_lt
    simp (disch := omega) only [encode, decodeFrom_symbol, decodeFrom_pads]
    have hbyte : a.toNat / 4 * 4 + a.toNat % 4 * 16 / 16 = a.toNat := by omega
    simp only [hbyte, UInt8.ofNat_toNat]
    rfl
  | case3 a b =>
    have ha := a.toNat_lt
    have hb := b.toNat_lt
    simp (disch := omega) only [encode, decodeFrom_symbol, decodeFrom_pads]
    have hfirst : a.toNat / 4 * 4 + (a.toNat % 4 * 16 + b.toNat / 16) / 16 = a.toNat := by omega
    have hsecond : (a.toNat % 4 * 16 + b.toNat / 16) % 16 * 16 + b.toNat % 16 * 4 / 4 =
        b.toNat := by omega
    simp only [hfirst, hsecond, UInt8.ofNat_toNat]
    rfl
  | case4 a b c bytes ih =>
    have ha := a.toNat_lt
    have hb := b.toNat_lt
    have hc := c.toNat_lt
    simp (disch := omega) only [encode, decodeFrom_symbol, ih]
    have hfirst : a.toNat / 4 * 4 + (a.toNat % 4 * 16 + b.toNat / 16) / 16 = a.toNat := by omega
    have hsecond : (a.toNat % 4 * 16 + b.toNat / 16) % 16 * 16 +
        (b.toNat % 16 * 4 + c.toNat / 64) / 4 = b.toNat := by omega
    have hthird : (b.toNat % 16 * 4 + c.toNat / 64) % 4 * 64 + c.toNat % 64 = c.toNat := by omega
    simp only [hfirst, hsecond, hthird, UInt8.ofNat_toNat]
    rfl

theorem decode_encode (bytes : List UInt8) : A.decode (A.encode bytes) = .ok bytes :=
  decodeFrom_encode bytes 0 0

/-! Without the pads. -/

omit [DecidableEq α] in
/-- An encoded text is letters with at most two pads behind them, in groups of four. -/
theorem encode_eq (bytes : List UInt8) : ∃ letters pads,
    A.encode bytes = letters ++ List.replicate pads A.pad ∧ A.pad ∉ letters ∧ pads < 3 ∧
      4 ∣ letters.length + pads := by
  induction bytes using encode.induct with
  | case1 => exact ⟨[], 0, rfl, List.not_mem_nil, by omega, Nat.dvd_zero 4⟩
  | case2 a =>
    exact ⟨[_, _], 2, rfl, by simp [(symbol_ne_pad _).symm], by omega, Nat.dvd_refl 4⟩
  | case3 a b =>
    exact ⟨[_, _, _], 1, rfl, by simp [(symbol_ne_pad _).symm], by omega, Nat.dvd_refl 4⟩
  | case4 a b c bytes ih =>
    obtain ⟨letters, pads, heq, hnot, hpads, hgroups⟩ := ih
    refine ⟨_ :: _ :: _ :: _ :: letters, pads, by rw [encode, heq]; rfl, ?_, hpads, ?_⟩
    · simp [(symbol_ne_pad _).symm, hnot]
    · simp only [List.length_cons]
      omega

omit [DecidableEq α] in
theorem mem_encode {bytes : List UInt8} {c : α} (h : c ∈ A.encode bytes) :
    c = A.pad ∨ ∃ v, c = A.letter v := by
  induction bytes using encode.induct with
  | case1 => exact absurd h List.not_mem_nil
  | case2 a =>
    simp only [encode, List.mem_cons, List.not_mem_nil, or_false] at h
    rcases h with rfl | rfl | rfl | rfl
    · exact .inr ⟨_, rfl⟩
    · exact .inr ⟨_, rfl⟩
    · exact .inl rfl
    · exact .inl rfl
  | case3 a b =>
    simp only [encode, List.mem_cons, List.not_mem_nil, or_false] at h
    rcases h with rfl | rfl | rfl | rfl
    · exact .inr ⟨_, rfl⟩
    · exact .inr ⟨_, rfl⟩
    · exact .inr ⟨_, rfl⟩
    · exact .inl rfl
  | case4 a b c bytes ih =>
    simp only [encode, List.mem_cons] at h
    rcases h with rfl | rfl | rfl | rfl | h
    · exact .inr ⟨_, rfl⟩
    · exact .inr ⟨_, rfl⟩
    · exact .inr ⟨_, rfl⟩
    · exact .inr ⟨_, rfl⟩
    · exact ih h

end Alphabet

theorem rdropWhile_replicate {α : Type*} [DecidableEq α] {x : α} {xs : List α} (h : x ∉ xs)
    (n : ℕ) : (xs ++ List.replicate n x).rdropWhile (· = x) = xs := by
  induction n with
  | zero =>
    rw [List.replicate_zero, List.append_nil, List.rdropWhile_eq_self_iff]
    intro hne hlast
    exact h (of_decide_eq_true hlast ▸ List.getLast_mem hne)
  | succ n ih =>
    rw [List.replicate_succ', ← List.append_assoc, List.rdropWhile_concat_pos _ _ _ (by simp), ih]

end AgentTestHarness.Base64
