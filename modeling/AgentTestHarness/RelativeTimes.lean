import AgentTestHarness.JsonText
import Mathlib.Algebra.Order.Floor.Ring
import Mathlib.Data.Int.ConditionallyCompleteOrder
import Mathlib.Data.Rat.Floor

/-! Times relative to the clock, in seconds: the interval in which a credential must not have been
revoked, and the timestamps of a presentation. -/
namespace AgentTestHarness.RelativeTimes
open PyText PyJson JsonText

/-- The readings of the clock in their order. -/
structure Clock where
  reading : ℕ → ℚ
  monotone : Monotone reading

/-- `int` of a float goes toward zero. -/
def truncate (x : ℚ) : ℤ := if 0 ≤ x then ⌊x⌋ else ⌈x⌉

def Clock.seconds (clock : Clock) (n : ℕ) : ℤ := truncate (clock.reading n)

/-- `int(time.time())`; the state is the number of readings so far. -/
def now (clock : Clock) : StateT ℕ (Except PyError) ℤ := fun n => .ok (clock.seconds n, n + 1)

def valueError : PyError := .exception "invalid literal for int() with base 10"

def digit? : CodePoint → Option Char
  | .ch c => if c.isDigit then some c else none
  | _ => none

def natural (s : Str) : Except PyError ℤ :=
  match s.mapM digit? with
  | some (d :: ds) => .ok (natValue (d :: ds))
  | _ => .error valueError

/-- `int` of digits behind an optional sign; blanks and underscores, which Python allows between
them, are in no timeframe. -/
def int : Str → Except PyError ℤ
  | .ch '-' :: digits => (natural digits).map fun n => -n
  | .ch '+' :: digits => natural digits
  | digits => natural digits

section Interval

variable (clock : Clock)

/-- An open end is None. -/
def fromInterval (fromReference : Str) : StateT ℕ (Except PyError) Json :=
  if fromReference = ("now" : Str) then do return .int (← now clock)
  else if fromReference = [] then return .null
  else do return .int ((← int fromReference) + (← now clock))

/-- An open end is kept as the empty text. -/
def toInterval (toReference : Str) : StateT ℕ (Except PyError) Json :=
  if toReference = ("now" : Str) then do return .int (← now clock)
  else if toReference = [] then return .str toReference
  else do return .int ((← int toReference) + (← now clock))

def nonRevoked (fromInterval toInterval : Json) : Json :=
  .obj [("non_revoked", .obj [("from", fromInterval), ("to", toInterval)])]

def createNonRevokeInterval (timeframe : Str) : Except PyError Json :=
  Prod.fst <$> StateT.run (do
    let fromReference ← nth (timeframe.splitOn (.ch ':')) 0
    let toReference ← nth (timeframe.splitOn (.ch ':')) 1
    let fromInterval ← fromInterval clock fromReference
    let toInterval ← toInterval clock toReference
    return nonRevoked fromInterval toInterval) 0

end Interval

/-- A timestamp comes from a file; `truncated` is `int` of a float, by its literal. -/
def getRelativeTimestampToEpoch (truncated : Text → Except PyError ℤ) (clock : Clock)
    (timestamp : Json) : StateT ℕ (Except PyError) ℤ :=
  if timestamp = .str "now" then now clock
  else do
    let offset ← match timestamp with
      | .int n => pure n
      | .bool b => pure (if b then 1 else 0)
      | .str s => int s
      | .float literal => truncated literal
      | _ => throw .typeError
    return offset + (← now clock)

/-! What a timeframe says. -/

inductive Part
  | unbounded
  | now
  | offset (sign : Option Bool) (digits : Text)
    (plain : digits ≠ [] ∧ ∀ c ∈ digits, c.isDigit = true)

namespace Part

def text : Part → Str
  | .unbounded => []
  | .now => "now"
  | .offset none digits _ => ofText digits
  | .offset (some false) digits _ => .ch '+' :: ofText digits
  | .offset (some true) digits _ => .ch '-' :: ofText digits

def offset? : Part → Option ℤ
  | .unbounded => none
  | .now => some 0
  | .offset (some true) digits _ => some (-natValue digits)
  | .offset _ digits _ => some (natValue digits)

/-- The clock is read for an end that is given. -/
def readings (part : Part) : ℕ := if part.offset? = none then 0 else 1

end Part

/-- An end is None if the timeframe leaves it open, and else as far from a reading of the clock as
it says. -/
def End (part : Part) (seconds : ℤ) (value : Json) : Prop :=
  (value = .null ↔ part.text = []) ∧ ∀ d ∈ part.offset?, value = .int (seconds + d)

/-- The interval that the timeframe describes. -/
def Described (clock : Clock) (F T : Part) (result : Except PyError Json) : Prop :=
  ∃ fromEnd toEnd, result = .ok (nonRevoked fromEnd toEnd) ∧
    End F (clock.seconds 0) fromEnd ∧ End T (clock.seconds F.readings) toEnd ∧
    ∀ d ∈ F.offset?, ∀ e ∈ T.offset?, d ≤ e → ∃ a b, fromEnd = .int a ∧ toEnd = .int b ∧ a ≤ b

def timeframe (F T : Part) : Str := F.text ++ .ch ':' :: T.text

/-! The ends. -/

theorem truncate_monotone : Monotone truncate := by
  intro x y h
  unfold truncate
  split
  · next hx =>
    rw [if_pos (hx.trans h)]
    exact Int.floor_le_floor h
  · next hx =>
    split
    · next hy => exact (Int.ceil_nonpos.mpr (not_le.mp hx).le).trans (Int.floor_nonneg.mpr hy)
    · exact Int.ceil_le_ceil h

theorem Clock.seconds_monotone (clock : Clock) : Monotone clock.seconds :=
  truncate_monotone.comp clock.monotone

theorem mapM_digit? {digits : Text} (h : ∀ c ∈ digits, c.isDigit = true) :
    (ofText digits).mapM digit? = some digits := by
  induction digits with
  | nil => rfl
  | cons d ds ih =>
    obtain ⟨hd, hds⟩ := List.forall_mem_cons.mp h
    have hdigit : digit? (.ch d) = some d := if_pos hd
    rw [ofText, List.map_cons, List.mapM_cons, hdigit]
    simp only [bind, Option.bind, pure]
    rw [show (ds.map CodePoint.ch).mapM digit? = some ds from ih hds]

theorem natural_ofText {digits : Text} (h : digits ≠ [] ∧ ∀ c ∈ digits, c.isDigit = true) :
    natural (ofText digits) = .ok (natValue digits) := by
  obtain ⟨d, ds, rfl⟩ := List.exists_cons_of_ne_nil h.1
  rw [natural, mapM_digit? h.2]

theorem int_of_digits {digits : Text} (h : digits ≠ [] ∧ ∀ c ∈ digits, c.isDigit = true) :
    int (ofText digits) = .ok (natValue digits) := by
  have hnatural := natural_ofText h
  obtain ⟨d, ds, rfl⟩ := List.exists_cons_of_ne_nil h.1
  have hd := h.2 d List.mem_cons_self
  have hminus : d ≠ '-' := by
    rintro rfl
    exact absurd hd (by decide)
  have hplus : d ≠ '+' := by
    rintro rfl
    exact absurd hd (by decide)
  rw [← hnatural]
  simp only [ofText, List.map_cons]
  unfold int
  split
  · next heq => exact absurd (CodePoint.ch.inj (List.cons.inj heq).1) hminus
  · next heq => exact absurd (CodePoint.ch.inj (List.cons.inj heq).1) hplus
  · rfl

theorem int_offset {sign : Option Bool} {digits : Text}
    (plain : digits ≠ [] ∧ ∀ c ∈ digits, c.isDigit = true) :
    ∀ d ∈ (Part.offset sign digits plain).offset?,
      int (Part.offset sign digits plain).text = .ok d := by
  rintro d hd
  match sign with
  | none =>
    obtain rfl := Option.some.inj hd
    exact int_of_digits plain
  | some false =>
    obtain rfl := Option.some.inj hd
    exact natural_ofText plain
  | some true =>
    obtain rfl := Option.some.inj hd
    show (natural (ofText digits)).map _ = _
    rw [natural_ofText plain]
    rfl

/-- An offset is written neither as "now" nor as nothing. -/
theorem offset_text {sign : Option Bool} {digits : Text}
    (plain : digits ≠ [] ∧ ∀ c ∈ digits, c.isDigit = true) :
    (Part.offset sign digits plain).text ≠ ("now" : Str) ∧
      (Part.offset sign digits plain).text ≠ [] := by
  have hnow : ("now" : Str) = [.ch 'n', .ch 'o', .ch 'w'] := rfl
  rw [hnow]
  match sign with
  | none =>
    obtain ⟨d, ds, rfl⟩ := List.exists_cons_of_ne_nil plain.1
    refine ⟨fun heq => ?_, List.cons_ne_nil _ _⟩
    obtain rfl := CodePoint.ch.inj (List.cons.inj heq).1
    exact absurd (plain.2 'n' List.mem_cons_self) (by decide)
  | some false => exact ⟨fun heq => absurd (List.cons.inj heq).1 (by decide), List.cons_ne_nil _ _⟩
  | some true => exact ⟨fun heq => absurd (List.cons.inj heq).1 (by decide), List.cons_ne_nil _ _⟩

section Ends

variable (clock : Clock) (n : ℕ)

theorem relative_eq {sign : Option Bool} {digits : Text}
    (plain : digits ≠ [] ∧ ∀ c ∈ digits, c.isDigit = true) :
    ∃ d, (Part.offset sign digits plain).offset? = some d ∧
      (do return Json.int ((← int (Part.offset sign digits plain).text) + (← now clock)) :
        StateT ℕ (Except PyError) Json) n = .ok (.int (clock.seconds n + d), n + 1) := by
  obtain ⟨d, hd⟩ : ∃ d, (Part.offset sign digits plain).offset? = some d := by
    rcases sign with _ | _ | _ <;> exact ⟨_, rfl⟩
  refine ⟨d, hd, ?_⟩
  rw [int_offset plain d hd, add_comm]
  rfl

theorem getRelativeTimestampToEpoch_eq (truncated : Text → Except PyError ℤ) {part : Part} {d : ℤ}
    (h : part.offset? = some d) : getRelativeTimestampToEpoch truncated clock (.str part.text) n =
      .ok (clock.seconds n + d, n + 1) := by
  cases part with
  | unbounded => cases h
  | now =>
    obtain rfl := Option.some.inj h
    rw [add_zero]
    rfl
  | offset sign digits plain =>
    have hnow : Json.str (Part.offset sign digits plain).text ≠ .str "now" :=
      fun heq => (@offset_text sign digits plain).1 (Json.str.inj heq)
    rw [getRelativeTimestampToEpoch, if_neg hnow, add_comm]
    simp only [int_offset plain d h]
    rfl

theorem fromInterval_eq (F : Part) : fromInterval clock F.text n =
    .ok (F.offset?.elim .null fun d => .int (clock.seconds n + d), n + F.readings) := by
  cases F with
  | unbounded => rfl
  | now =>
    show Except.ok (Json.int (clock.seconds n), n + 1) = _
    simp [Part.offset?, Part.readings]
  | offset sign digits plain =>
    obtain ⟨hnow, hopen⟩ := @offset_text sign digits plain
    obtain ⟨d, hd, hrun⟩ := @relative_eq clock n sign digits plain
    rw [fromInterval, if_neg hnow, if_neg hopen, hrun]
    simp [Part.readings, hd]

theorem toInterval_eq (T : Part) : toInterval clock T.text n =
    .ok (T.offset?.elim (.str []) fun d => .int (clock.seconds n + d), n + T.readings) := by
  cases T with
  | unbounded => rfl
  | now =>
    show Except.ok (Json.int (clock.seconds n), n + 1) = _
    simp [Part.offset?, Part.readings]
  | offset sign digits plain =>
    obtain ⟨hnow, hopen⟩ := @offset_text sign digits plain
    obtain ⟨d, hd, hrun⟩ := @relative_eq clock n sign digits plain
    rw [toInterval, if_neg hnow, if_neg hopen, hrun]
    simp [Part.readings, hd]

theorem colon_not_mem_text (part : Part) : CodePoint.ch ':' ∉ part.text := by
  cases part with
  | unbounded => exact List.not_mem_nil
  | now => decide
  | offset sign digits plain =>
    have hdigits : CodePoint.ch ':' ∉ ofText digits := by
      intro hmem
      obtain ⟨c, hc, heq⟩ := List.mem_map.mp hmem
      obtain rfl := CodePoint.ch.inj heq
      exact absurd (plain.2 ':' hc) (by decide)
    match sign with
    | none => exact hdigits
    | some false => exact List.not_mem_cons_of_ne_of_not_mem (by decide) hdigits
    | some true => exact List.not_mem_cons_of_ne_of_not_mem (by decide) hdigits

/-- Only an end that is open differs between the two. -/
theorem createNonRevokeInterval_eq (F T : Part) :
    createNonRevokeInterval clock (timeframe F T) = .ok (nonRevoked
      (F.offset?.elim .null fun d => .int (clock.seconds 0 + d))
      (T.offset?.elim (.str []) fun d => .int (clock.seconds F.readings + d))) := by
  have hsplit : (timeframe F T).splitOn (.ch ':') = [F.text, T.text] := by
    rw [timeframe, List.splitOn_append_cons_self_of_not_mem (colon_not_mem_text F),
      List.splitOn_eq_singleton (colon_not_mem_text T)]
  have hfrom := fromInterval_eq clock 0 F
  have hto := toInterval_eq clock (0 + F.readings) T
  unfold createNonRevokeInterval
  rw [hsplit]
  show Prod.fst <$> (fromInterval clock F.text 0 >>= fun r => toInterval clock T.text r.2 >>=
    fun r' => Except.ok (nonRevoked r.1 r'.1, r'.2)) = _
  rw [hfrom]
  show Prod.fst <$> (toInterval clock T.text (0 + F.readings) >>= fun r' =>
    Except.ok (nonRevoked _ r'.1, r'.2)) = _
  rw [hto, Nat.zero_add]
  rfl

end Ends

theorem nonRevoked_inj {a b a' b' : Json} :
    nonRevoked a b = nonRevoked a' b' ↔ a = a' ∧ b = b' := by
  simp [nonRevoked]

theorem end_of_offset? {part : Part} {otherwise : Json} (h : part = .unbounded → otherwise = .null)
    (seconds : ℤ) : End part seconds (part.offset?.elim otherwise fun d => .int (seconds + d)) := by
  have hgiven : ∀ d, part.offset? = some d → part.text ≠ [] →
      End part seconds (part.offset?.elim otherwise fun d => .int (seconds + d)) := by
    intro d hd htext
    refine ⟨iff_of_false (by simp [hd]) htext, fun e he => ?_⟩
    rw [Option.mem_def] at he
    rw [he]
    rfl
  cases part with
  | unbounded => exact ⟨iff_of_true (h rfl) rfl, fun d hd => nomatch hd⟩
  | now => exact hgiven 0 rfl (by decide)
  | offset sign digits plain =>
    have htext := (@offset_text sign digits plain).2
    rcases sign with _ | _ | _ <;> exact hgiven _ rfl htext

/-- The interval is the one described exactly if the end of it is given. -/
theorem interval_described_iff (clock : Clock) (F T : Part) :
    Described clock F T (createNonRevokeInterval clock (timeframe F T)) ↔ T ≠ .unbounded := by
  rw [createNonRevokeInterval_eq]
  constructor
  · rintro ⟨fromEnd, toEnd, hresult, -, hto, -⟩ rfl
    obtain ⟨-, rfl⟩ := nonRevoked_inj.mp (Except.ok.inj hresult)
    exact absurd (hto.1.mpr rfl) (by simp [Part.offset?])
  · intro hgiven
    refine ⟨_, _, rfl, end_of_offset? (fun _ => rfl) _,
      end_of_offset? (fun hopen => absurd hopen hgiven) _, fun d hd e he hle => ?_⟩
    rw [Option.mem_def] at hd he
    have hclock := clock.seconds_monotone (Nat.zero_le F.readings)
    refine ⟨clock.seconds 0 + d, clock.seconds F.readings + e, ?_, ?_, by omega⟩
    · rw [hd]
      rfl
    · rw [he]
      rfl

/-- A clock that stands still. -/
def noon : Clock := ⟨fun _ => 43200, monotone_const⟩

theorem open_end_sent_as_text :
    ¬ ∀ clock F T, Described clock F T (createNonRevokeInterval clock (timeframe F T)) := by
  intro h
  obtain ⟨fromEnd, toEnd, hresult, -, ⟨hopen, -⟩, -⟩ := h noon .now .unbounded
  rw [createNonRevokeInterval_eq] at hresult
  obtain ⟨-, rfl⟩ := nonRevoked_inj.mp (Except.ok.inj hresult)
  exact absurd (hopen.mpr rfl) (by simp [Part.offset?])

end AgentTestHarness.RelativeTimes
