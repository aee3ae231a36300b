import AgentTestHarness.JsonReading
import AgentTestHarness.JsonWriting
import AgentTestHarness.JsonMember

/-! What `json.dumps` writes of a value that `json.loads` gave is read as that value. -/
namespace AgentTestHarness.JsonRoundTrip
open PyText OrderedDict PyJson JsonText JsonReading JsonWriting JsonMember

/-! Strings. -/

def IsHigh : CodePoint → Prop
  | .ch _ => False
  | .surrogate n => n.val < 1024

def IsLow : CodePoint → Prop
  | .ch _ => False
  | .surrogate n => 1024 ≤ n.val

/-- No high surrogate is followed by a low one: written out, the two would make a character. -/
def Unpaired : Str → Prop
  | [] => True
  | p :: s => (IsHigh p → ∀ q ∈ s.head?, ¬ IsLow q) ∧ Unpaired s

theorem unpaired_ofText (t : Text) : Unpaired (ofText t) := by
  induction t with
  | nil => trivial
  | cons c t ih => exact ⟨False.elim, ih⟩

/-- The pieces as which a code point is written. -/
def piecesOf : CodePoint → List Piece
  | .surrogate n => [.unit (0xd800 + n)]
  | .ch c =>
    if c = '"' ∨ c = '\\' ∨ c = '\n' ∨ c = '\r' ∨ c = '\t' ∨ c = '\x08' ∨ c = '\x0c' ∨
      ' ' ≤ c ∧ c ≤ '~' then [.lit c]
    else if c.toNat < 0x10000 then [.unit c.toNat]
    else [.unit (0xd800 + (c.toNat - 0x10000) / 0x400),
      .unit (0xdc00 + (c.toNat - 0x10000) % 0x400)]

theorem piecesOf_ch (c : Char) : piecesOf (.ch c) =
    if c = '"' ∨ c = '\\' ∨ c = '\n' ∨ c = '\r' ∨ c = '\t' ∨ c = '\x08' ∨ c = '\x0c' ∨
      ' ' ≤ c ∧ c ≤ '~' then [.lit c]
    else if c.toNat < 0x10000 then [.unit c.toNat]
    else [.unit (0xd800 + (c.toNat - 0x10000) / 0x400),
      .unit (0xdc00 + (c.toNat - 0x10000) % 0x400)] := rfl

theorem toNat_valid (c : Char) : c.toNat < 0xd800 ∨ 0xdfff < c.toNat ∧ c.toNat < 0x110000 :=
  c.valid

theorem hexDigit_digitChar (n : Fin 16) : hexDigit (Nat.digitChar n) = some n.val := by
  revert n
  decide

theorem pieces_unicodeEscape {n : ℕ} (h : n < 0x10000) (rest : Text) :
    pieces (unicodeEscape n ++ rest) = (pieces rest).map (.unit n :: ·) := by
  have hdigit : ∀ k, hexDigit (Nat.digitChar (k % 16)) = some (k % 16) := fun k =>
    hexDigit_digitChar ⟨k % 16, Nat.mod_lt k (by decide)⟩
  have hsum : 4096 * (n / 4096 % 16) + 256 * (n / 256 % 16) + 16 * (n / 16 % 16) + n % 16 = n := by
    omega
  simp only [unicodeEscape, hex4, List.map_cons, List.map_nil, List.cons_append, List.nil_append]
  rw [pieces.eq_2]
  simp only [hdigit, hsum]

theorem pieces_simpleEscape {e d : Char} (hu : e ≠ 'u') (he : simpleEscape e = some d)
    (rest : Text) : pieces ('\\' :: e :: rest) = (pieces rest).map ([.lit d] ++ ·) := by
  have hpieces : pieces ('\\' :: e :: rest) =
      (simpleEscape e).bind fun c => (pieces rest).map (.lit c :: ·) := by
    refine pieces.eq_3 e rest ?_
    rintro _ _ _ _ _ rfl
    exact absurd rfl hu
  rw [hpieces, he, Option.bind_some]
  rfl

/-- The ways in which a character is written. -/
theorem escapeChar_cases (c : Char) :
    (∃ e, escapeChar c = ['\\', e] ∧ simpleEscape e = some c ∧ e ≠ 'u' ∧
      piecesOf (.ch c) = [.lit c]) ∨
    (escapeChar c = [c] ∧ ' ' ≤ c ∧ c ≠ '"' ∧ c ≠ '\\' ∧ piecesOf (.ch c) = [.lit c]) ∨
    (∃ n < 0x10000, escapeChar c = unicodeEscape n ∧ piecesOf (.ch c) = [.unit n]) ∨
    ∃ m < 0x10000, ∃ n < 0x10000, escapeChar c = unicodeEscape m ++ unicodeEscape n ∧
      piecesOf (.ch c) = [.unit m, .unit n] := by
  rcases eq_or_ne c '"' with rfl | hquote
  · exact .inl ⟨_, rfl, rfl, by decide, rfl⟩
  rcases eq_or_ne c '\\' with rfl | hescape
  · exact .inl ⟨_, rfl, rfl, by decide, rfl⟩
  rcases eq_or_ne c '\n' with rfl | hn
  · exact .inl ⟨_, rfl, rfl, by decide, rfl⟩
  rcases eq_or_ne c '\r' with rfl | hr
  · exact .inl ⟨_, rfl, rfl, by decide, rfl⟩
  rcases eq_or_ne c '\t' with rfl | ht
  · exact .inl ⟨_, rfl, rfl, by decide, rfl⟩
  rcases eq_or_ne c '\x08' with rfl | hb
  · exact .inl ⟨_, rfl, rfl, by decide, rfl⟩
  rcases eq_or_ne c '\x0c' with rfl | hf
  · exact .inl ⟨_, rfl, rfl, by decide, rfl⟩
  have htext : escapeChar c = if ' ' ≤ c ∧ c ≤ '~' then [c]
      else if c.toNat < 0x10000 then unicodeEscape c.toNat
      else unicodeEscape (0xd800 + (c.toNat - 0x10000) / 0x400) ++
        unicodeEscape (0xdc00 + (c.toNat - 0x10000) % 0x400) := by
    simp only [escapeChar, if_neg hquote, if_neg hescape, if_neg hn, if_neg hr, if_neg ht,
      if_neg hb, if_neg hf]
  have hpieces : piecesOf (.ch c) = if ' ' ≤ c ∧ c ≤ '~' then [.lit c]
      else if c.toNat < 0x10000 then [.unit c.toNat]
      else [.unit (0xd800 + (c.toNat - 0x10000) / 0x400),
        .unit (0xdc00 + (c.toNat - 0x10000) % 0x400)] := by
    simp only [piecesOf, hquote, hescape, hn, hr, ht, hb, hf, false_or]
  rw [htext, hpieces]
  right
  split
  · next hprint => exact .inl ⟨rfl, hprint.1, hquote, hescape, rfl⟩
  · right
    split
    · next hsmall => exact .inl ⟨_, hsmall, rfl, rfl⟩
    · have hvalid := toNat_valid c
      exact .inr ⟨_, by omega, _, by omega, rfl, rfl⟩

theorem pieces_escapeChar (c : Char) (rest : Text) :
    pieces (escapeChar c ++ rest) = (pieces rest).map (piecesOf (.ch c) ++ ·) := by
  rcases escapeChar_cases c with ⟨e, ht, he, hu, hp⟩ | ⟨ht, hspace, -, hescape, hp⟩ |
    ⟨n, hn, ht, hp⟩ | ⟨m, hm, n, hn, ht, hp⟩
  · rw [ht, hp]
    exact pieces_simpleEscape hu he rest
  · rw [ht, hp]
    exact (pieces_cons hescape rest).trans (if_neg (Char.not_lt.mpr hspace))
  · rw [ht, hp]
    exact pieces_unicodeEscape hn rest
  · rw [ht, hp, List.append_assoc, pieces_unicodeEscape hm, pieces_unicodeEscape hn,
      Option.map_map]
    rfl

theorem pieces_escape (s : Str) : pieces (s.flatMap escape) = some (s.flatMap piecesOf) := by
  induction s with
  | nil => rfl
  | cons p s ih =>
    have hp : pieces (escape p ++ s.flatMap escape) =
        (pieces (s.flatMap escape)).map (piecesOf p ++ ·) := by
      cases p with
      | ch c => exact pieces_escapeChar c _
      | surrogate n => exact pieces_unicodeEscape (by omega) _
    rw [List.flatMap_cons, hp, ih]
    rfl

/-- The first piece of the rest does not complete a pair. -/
def NoLowUnit (ps : List Piece) : Prop := ∀ n, ps.head? = some (.unit n) → ¬ (0xdc00 ≤ n ∧ n < 0xe000)

theorem joinPieces_unit {n : ℕ} {ps : List Piece}
    (h : 0xd800 ≤ n → n < 0xdc00 → NoLowUnit ps) :
    joinPieces (.unit n :: ps) = codeUnit n :: joinPieces ps := by
  cases ps with
  | nil => rfl
  | cons p ps =>
    cases p with
    | lit c => rfl
    | unit l =>
      rw [joinPieces, if_neg]
      rintro ⟨hlow, hhigh, hl⟩
      exact h hlow hhigh l rfl hl

theorem codeUnit_toNat (c : Char) : codeUnit c.toNat = .ch c := by
  have hvalid := toNat_valid c
  rw [codeUnit, dif_neg (by omega), Char.ofNat_toNat]

theorem codeUnit_surrogate (n : Fin 2048) : codeUnit (0xd800 + n) = .surrogate n := by
  have hn := n.isLt
  rw [codeUnit, dif_pos ⟨by omega, by omega⟩]
  exact congrArg CodePoint.surrogate (Fin.ext (Nat.add_sub_cancel_left ..))

/-- The pieces of a code point that is no low surrogate complete no pair. -/
theorem noLowUnit_piecesOf {p : CodePoint} (h : ¬ IsLow p) (ps : List Piece) :
    NoLowUnit (piecesOf p ++ ps) := by
  intro n hn
  cases p with
  | surrogate k =>
    have hk : ¬ 1024 ≤ k.val := h
    obtain rfl : 0xd800 + k.val = n := Piece.unit.inj (Option.some.inj hn)
    omega
  | ch c =>
    have hvalid := toNat_valid c
    rw [piecesOf_ch] at hn
    split at hn
    · simp at hn
    · split at hn
      · obtain rfl : c.toNat = n := Piece.unit.inj (Option.some.inj hn)
        omega
      · obtain rfl : 0xd800 + (c.toNat - 0x10000) / 0x400 = n :=
          Piece.unit.inj (Option.some.inj hn)
        omega

theorem joinPieces_piecesOf {s : Str} (h : Unpaired s) : joinPieces (s.flatMap piecesOf) = s := by
  induction s with
  | nil => rfl
  | cons p s ih =>
    have ih := ih h.2
    have hnext : IsHigh p → NoLowUnit (s.flatMap piecesOf) := by
      intro hp
      cases s with
      | nil => intro n hn; simp at hn
      | cons q s =>
        rw [List.flatMap_cons]
        exact noLowUnit_piecesOf (h.1 hp q rfl) _
    rw [List.flatMap_cons]
    cases p with
    | surrogate k =>
      have hunit : joinPieces (.unit (0xd800 + k.val) :: s.flatMap piecesOf) =
          codeUnit (0xd800 + k.val) :: joinPieces (s.flatMap piecesOf) :=
        joinPieces_unit fun _ hk => hnext (show k.val < 1024 by omega)
      rw [codeUnit_surrogate, ih] at hunit
      exact hunit
    | ch c =>
      have hvalid := toNat_valid c
      rw [piecesOf_ch]
      split
      · exact congrArg (CodePoint.ch c :: ·) ih
      · split
        · have hunit : joinPieces (.unit c.toNat :: s.flatMap piecesOf) =
              codeUnit c.toNat :: joinPieces (s.flatMap piecesOf) :=
            joinPieces_unit fun hlow hhigh => absurd hvalid (by omega)
          rw [codeUnit_toNat, ih] at hunit
          exact hunit
        · have hsum : 0x10000 + 0x400 * (0xd800 + (c.toNat - 0x10000) / 0x400 - 0xd800) +
              (0xdc00 + (c.toNat - 0x10000) % 0x400 - 0xdc00) = c.toNat := by omega
          rw [List.cons_append, List.cons_append, List.nil_append, joinPieces, if_pos (by omega),
            hsum, Char.ofNat_toNat, ih]

theorem decode_escape {s : Str} (h : Unpaired s) : decode (s.flatMap escape) = some s := by
  rw [decode, pieces_escape, Option.map_some, joinPieces_piecesOf h]

theorem isHigh_codeUnit {n : ℕ} (h : IsHigh (codeUnit n)) : 0xd800 ≤ n ∧ n < 0xdc00 := by
  unfold codeUnit at h
  split at h
  · next hn =>
    have hk : n - 0xd800 < 1024 := h
    omega
  · exact h.elim

theorem isLow_codeUnit {n : ℕ} (h : IsLow (codeUnit n)) : 0xdc00 ≤ n ∧ n < 0xe000 := by
  unfold codeUnit at h
  split at h
  · next hn =>
    have hk : 1024 ≤ n - 0xd800 := h
    omega
  · exact h.elim

theorem head_joinPieces_unit (l : ℕ) (ps : List Piece) :
    ∀ q ∈ (joinPieces (.unit l :: ps)).head?, IsLow q → q = codeUnit l := by
  intro q hq hlow
  cases ps with
  | nil => exact (Option.some.inj hq).symm
  | cons p ps =>
    cases p with
    | lit c => exact (Option.some.inj hq).symm
    | unit m =>
      rw [joinPieces] at hq
      split at hq
      · obtain rfl := Option.some.inj hq
        exact hlow.elim
      · exact (Option.some.inj hq).symm

/-- Pairs are joined, so none is left. -/
theorem unpaired_joinPieces (ps : List Piece) : Unpaired (joinPieces ps) := by
  fun_induction joinPieces ps with
  | case1 => trivial
  | case2 c ps ih => exact ⟨False.elim, ih⟩
  | case3 n => exact ⟨fun _ q hq => absurd hq (by simp), trivial⟩
  | case4 n c ps ih =>
    refine ⟨fun _ q hq => ?_, False.elim, ih⟩
    obtain rfl := Option.some.inj hq
    exact id
  | case5 m n ps hpair ih => exact ⟨False.elim, ih⟩
  | case6 m n ps hpair ih =>
    refine ⟨fun hhigh q hq hlow => ?_, ih⟩
    obtain rfl := head_joinPieces_unit n ps q hq hlow
    obtain ⟨hm, hm'⟩ := isHigh_codeUnit hhigh
    exact hpair ⟨hm, hm', isLow_codeUnit hlow⟩

theorem unpaired_of_decode {raw : Text} {s : Str} (h : decode raw = some s) : Unpaired s := by
  obtain ⟨ps, -, rfl⟩ := Option.map_eq_some_iff.mp h
  exact unpaired_joinPieces ps

theorem hex4_plain (n : ℕ) : ∀ c ∈ hex4 n, c ≠ '"' ∧ c ≠ '\\' := by
  have hdigit : ∀ k : Fin 16, Nat.digitChar k ≠ '"' ∧ Nat.digitChar k ≠ '\\' := by decide
  intro c hc
  obtain ⟨k, hk, rfl⟩ := List.mem_map.mp hc
  have hlt : k < 16 := by
    simp only [List.mem_cons, List.not_mem_nil, or_false] at hk
    omega
  exact hdigit ⟨k, hlt⟩

theorem scanString_unicodeEscape (n : ℕ) (rest : Text) :
    scanString (unicodeEscape n ++ rest) =
      (scanString rest).map fun (raw, r) => (unicodeEscape n ++ raw, r) := by
  have hscan : scanString (unicodeEscape n ++ rest) =
      (scanString (hex4 n ++ rest)).map fun (raw, r) => ('\\' :: 'u' :: raw, r) := rfl
  rw [hscan, scanString_append_plain (hex4_plain n), Option.map_map]
  rfl

theorem scanString_escape (p : CodePoint) (rest : Text) :
    scanString (escape p ++ rest) = (scanString rest).map fun (raw, r) => (escape p ++ raw, r) := by
  cases p with
  | surrogate n => exact scanString_unicodeEscape _ rest
  | ch c =>
    rw [escape]
    rcases escapeChar_cases c with ⟨e, ht, -⟩ | ⟨ht, -, hquote, hescape, -⟩ | ⟨n, -, ht, -⟩ |
      ⟨m, -, n, -, ht, -⟩
    · rw [ht]
      rfl
    · rw [ht]
      exact scanString_cons hquote hescape rest
    · rw [ht]
      exact scanString_unicodeEscape n rest
    · rw [ht, List.append_assoc, scanString_unicodeEscape, scanString_unicodeEscape,
        Option.map_map]
      simp only [List.append_assoc]
      rfl

/-- No quote of an escaped string closes it early. -/
theorem closed_escape (s : Str) : Closed (s.flatMap escape) := by
  intro rest
  induction s with
  | nil => rfl
  | cons p s ih =>
    rw [List.flatMap_cons, List.append_assoc, scanString_escape, ih]
    rfl

/-! Integers. -/

theorem natValue_toDigits (n : ℕ) : natValue (Nat.toDigits 10 n) = n :=
  Nat.ofDigitChars_ten_toDigits

theorem isDigit_toDigits (n : ℕ) : ∀ c ∈ Nat.toDigits 10 n, c.isDigit = true := fun _ hc =>
  Nat.isDigit_of_mem_toDigits (by decide) (by decide) hc

/-- A number of two digits or more has no leading zero. -/
theorem toDigits_head (n : ℕ) :
    (Nat.toDigits 10 n).head? = some '0' → (Nat.toDigits 10 n).length = 1 := by
  induction n using Nat.strongRecOn with
  | ind n ih =>
    intro h
    rcases Nat.lt_or_ge n 10 with hlt | hge
    · rw [Nat.toDigits_of_lt_base hlt]
      rfl
    · have hsplit := Nat.toDigits_of_base_le (b := 10) (by decide) hge
      obtain ⟨c, ds, hds⟩ := List.exists_cons_of_ne_nil (Nat.toDigits_ne_nil (n := n / 10) (b := 10))
      rw [hsplit, hds, List.cons_append, List.head?_cons] at h
      have hone := ih (n / 10) (by omega) (by rw [hds]; exact h)
      have hvalue := natValue_toDigits (n / 10)
      rw [hds] at hvalue hone
      obtain rfl : c = '0' := Option.some.inj h
      obtain rfl : ds = [] := List.eq_nil_of_length_eq_zero (by simpa using hone)
      exact absurd hvalue (by simp [natValue]; omega)

theorem endsWord_of_isDigit {c : Char} (h : c.isDigit = true) : endsWord c = false := by
  cases hc : endsWord c with
  | false => rfl
  | true =>
    simp only [endsWord, isSpace, Bool.or_eq_true, beq_iff_eq, or_assoc] at hc
    rcases hc with rfl | rfl | rfl | rfl | rfl | rfl | rfl | rfl | rfl | rfl | rfl <;>
      exact absurd h (by decide)

theorem dumpsInt_word (n : ℤ) : dumpsInt n ≠ [] ∧ ∀ c ∈ dumpsInt n, endsWord c = false := by
  have hdigits : ∀ c ∈ Nat.toDigits 10 n.natAbs, endsWord c = false := fun c hc =>
    endsWord_of_isDigit (isDigit_toDigits _ c hc)
  unfold dumpsInt
  split
  · exact ⟨List.cons_ne_nil _ _, List.forall_mem_cons.mpr ⟨by decide, hdigits⟩⟩
  · exact ⟨Nat.toDigits_ne_nil, hdigits⟩

theorem readNumber_digits {ds : Text} (hne : ds ≠ []) (hd : ∀ c ∈ ds, c.isDigit = true)
    (hzero : ds.head? = some '0' → ds.length = 1) :
    readNumber ds = some (.int (natValue ds)) ∧
      readNumber ('-' :: ds) = some (.int (-(natValue ds : ℤ))) := by
  have htake : ds.takeWhile Char.isDigit = ds := List.takeWhile_eq_self_iff.mpr hd
  have hdrop : ds.dropWhile Char.isDigit = [] := List.dropWhile_eq_nil_iff.mpr hd
  have hsign : ds.head? ≠ some '-' := by
    intro h
    exact absurd (hd '-' (List.mem_of_mem_head? h)) (by decide)
  have hlead : ¬ (ds = [] ∨ ds.head? = some '0' ∧ ds.length ≠ 1) := by
    rintro (h | ⟨h, hlen⟩)
    · exact hne h
    · exact hlen (hzero h)
  constructor
  · simp [readNumber, hsign, htake, hdrop, hlead]
  · simp [readNumber, htake, hdrop, hlead]

theorem readWord_number {w : Text} {d : Char} (hd : d ∈ w) (hdigit : d.isDigit = true) :
    readWord w = readNumber w := by
  have hkeyword : ∀ k : Text, (∀ c ∈ k, c.isDigit = false) → w ≠ k := by
    rintro k hk rfl
    exact absurd hdigit (by simp [hk d hd])
  unfold readWord
  rw [if_neg (hkeyword _ (by decide)), if_neg (hkeyword _ (by decide)),
    if_neg (hkeyword _ (by decide)), if_neg]
  rintro (h | h | h)
  · exact hkeyword _ (by decide) h
  · exact hkeyword _ (by decide) h
  · exact hkeyword _ (by decide) h

theorem readWord_dumpsInt (n : ℤ) : readWord (dumpsInt n) = some (.int n) := by
  have hne : Nat.toDigits 10 n.natAbs ≠ [] := Nat.toDigits_ne_nil
  have hdigits := isDigit_toDigits n.natAbs
  obtain ⟨d, hd⟩ := List.exists_mem_of_ne_nil _ hne
  obtain ⟨hpos, hneg⟩ := readNumber_digits hne hdigits (toDigits_head n.natAbs)
  rw [natValue_toDigits] at hpos hneg
  unfold dumpsInt
  split
  · next hn =>
    rw [readWord_number (List.mem_cons_of_mem _ hd) (hdigits d hd), hneg]
    exact congrArg (fun k => some (Json.int k)) (by omega)
  · next hn =>
    rw [readWord_number hd (hdigits d hd), hpos]
    exact congrArg (fun k => some (Json.int k)) (by omega)

/-! Values. -/

mutual
/-- What `json.loads` can give: no pair of surrogates is left in a string, a float is a literal
that is read as itself, and no key of an object occurs twice. -/
def Loadable : Json → Prop
  | .null | .bool _ | .int _ => True
  | .float w => (w ≠ [] ∧ ∀ c ∈ w, endsWord c = false) ∧ readWord w = some (.float w)
  | .str s => Unpaired s
  | .arr xs => LoadableItems xs
  | .obj ms => (ms.map Prod.fst).Nodup ∧ LoadableMembers ms
def LoadableItems : List Json → Prop
  | [] => True
  | x :: xs => Loadable x ∧ LoadableItems xs
def LoadableMembers : List (Str × Json) → Prop
  | [] => True
  | (k, v) :: ms => (Unpaired k ∧ Loadable v) ∧ LoadableMembers ms
end

theorem loadableItems_iff {xs : List Json} : LoadableItems xs ↔ ∀ x ∈ xs, Loadable x := by
  induction xs with
  | nil => simp [LoadableItems]
  | cons x xs ih => rw [LoadableItems, ih, List.forall_mem_cons]

theorem loadableMembers_iff {ms : List (Str × Json)} :
    LoadableMembers ms ↔ ∀ m ∈ ms, Unpaired m.1 ∧ Loadable m.2 := by
  induction ms with
  | nil => simp [LoadableMembers]
  | cons m ms ih => rw [LoadableMembers, ih, List.forall_mem_cons]

theorem loadableMembers_assign {k : Str} {v : Json} {ms : List (Str × Json)} (hk : Unpaired k)
    (hv : Loadable v) (h : LoadableMembers ms) : LoadableMembers (assign k v ms) := by
  induction ms with
  | nil => exact ⟨⟨hk, hv⟩, trivial⟩
  | cons m ms ih =>
    obtain ⟨hm, hms⟩ := h
    rw [assign]
    split
    · exact ⟨⟨hm.1, hv⟩, hms⟩
    · exact ⟨hm, ih hms⟩

theorem loadable_assign {k : Str} {v : Json} {ms : List (Str × Json)} (hk : Unpaired k)
    (hv : Loadable v) (h : Loadable (.obj ms)) : Loadable (.obj (assign k v ms)) :=
  ⟨nodup_assign h.1, loadableMembers_assign hk hv h.2⟩

theorem loadable_remove (k : Str) {ms : List (Str × Json)} (h : Loadable (.obj ms)) :
    Loadable (.obj (remove k ms)) :=
  ⟨h.1.sublist ((remove_sublist k ms).map Prod.fst), loadableMembers_iff.mpr fun m hm =>
    loadableMembers_iff.mp h.2 m ((remove_sublist k ms).subset hm)⟩

theorem loadable_lookup {k : Str} {v : Json} {ms : List (Str × Json)} (h : Loadable (.obj ms))
    (hv : lookup k ms = some v) : Loadable v :=
  (loadableMembers_iff.mp h.2 _ (mem_of_lookup hv)).2

theorem loadable_dict {ps : List (Str × Json)} (h : LoadableMembers ps) :
    Loadable (.obj (dict ps)) := by
  have hfold : ∀ d, Loadable (.obj d) →
      Loadable (.obj (ps.foldl (fun d m => assign m.1 m.2 d) d)) := by
    induction ps with
    | nil => exact fun d hd => hd
    | cons m ps ih =>
      intro d hd
      exact ih h.2 _ (loadable_assign h.1.1 h.1.2 hd)
  exact hfold [] ⟨List.nodup_nil, trivial⟩

theorem loadable_readNumber {w : Text} {v : Json} (hw : w ≠ [] ∧ ∀ c ∈ w, endsWord c = false)
    (hword : readWord w = some v) (h : readNumber w = some v) : Loadable v := by
  unfold readNumber at h
  dsimp only at h
  generalize (if w.head? = some '-' then w.tail else w) = u at h
  split at h
  · exact absurd h (by simp)
  · split at h
    · obtain rfl := Option.some.inj h
      trivial
    · split at h
      · obtain rfl := Option.some.inj h
        exact ⟨hw, hword⟩
      · exact absurd h (by simp)

theorem loadable_readWord {w : Text} {v : Json} (hw : w ≠ [] ∧ ∀ c ∈ w, endsWord c = false)
    (h : readWord w = some v) : Loadable v := by
  have hword := h
  unfold readWord at h
  split at h
  · obtain rfl := Option.some.inj h
    trivial
  · split at h
    · obtain rfl := Option.some.inj h
      trivial
    · split at h
      · obtain rfl := Option.some.inj h
        trivial
      · split at h
        · obtain rfl := Option.some.inj h
          exact ⟨hw, hword⟩
        · exact loadable_readNumber hw hword h

mutual
theorem loadable_value : (t : Tree) → t.Lexical → {v : Json} → t.value = some v → Loadable v
  | .word _, lexical, _, h => loadable_readWord lexical h
  | .string _, _, _, h => by
    obtain ⟨s, hs, rfl⟩ := Option.map_eq_some_iff.mp h
    exact unpaired_of_decode hs
  | .emptyArray _, _, _, h => by
    obtain rfl := Option.some.inj h
    trivial
  | .array items, lexical, _, h => by
    obtain ⟨vs, hvs, rfl⟩ := Option.map_eq_some_iff.mp h
    exact loadable_values items lexical hvs
  | .emptyObject _, _, _, h => by
    obtain rfl := Option.some.inj h
    exact ⟨List.nodup_nil, trivial⟩
  | .object members, lexical, _, h => by
    obtain ⟨ps, hps, rfl⟩ := Option.map_eq_some_iff.mp h
    exact loadable_dict (loadable_pairs members lexical hps)
theorem loadable_values : (items : Items) → items.Lexical → {vs : List Json} →
    items.values = some vs → LoadableItems vs
  | .last _ t _, lexical, _, h => by
    obtain ⟨v, hv, rfl⟩ := Option.map_eq_some_iff.mp h
    exact ⟨loadable_value t lexical.2.1 hv, trivial⟩
  | .more _ t _ rest, lexical, _, h => by
    obtain ⟨v, hv, h⟩ := Option.bind_eq_some_iff.mp h
    obtain ⟨vs, hvs, rfl⟩ := Option.map_eq_some_iff.mp h
    exact ⟨loadable_value t lexical.2.1 hv, loadable_values rest lexical.2.2.2 hvs⟩
theorem loadable_pairs : (members : Members) → members.Lexical → {ps : List (Str × Json)} →
    members.pairs = some ps → LoadableMembers ps
  | .last _ t _, lexical, _, h => by
    obtain ⟨k, v, hk, hv, rfl⟩ := pairs_last.mp h
    exact ⟨⟨unpaired_of_decode hk, loadable_value t lexical.2.1 hv⟩, trivial⟩
  | .more _ t _ rest, lexical, _, h => by
    obtain ⟨k, v, qs, hk, hv, hqs, rfl⟩ := pairs_more.mp h
    exact ⟨⟨unpaired_of_decode hk, loadable_value t lexical.2.1 hv⟩,
      loadable_pairs rest lexical.2.2.2 hqs⟩
end

theorem loadable_of_loads {s : Text} {v : Json} (h : loads s = .ok v) : Loadable v := by
  obtain ⟨d, -, lexical, hv⟩ := loads_ok h
  exact loadable_value d.tree lexical.tree hv

/-! The tree that `json.dumps` writes. -/

def writtenLabel (before : Text) (k : Str) : Label := ⟨before, k.flatMap escape, [], [' ']⟩

mutual
def written : Json → Tree
  | .null => .word "null".toList
  | .bool true => .word "true".toList
  | .bool false => .word "false".toList
  | .int n => .word (dumpsInt n)
  | .float w => .word w
  | .str s => .string (s.flatMap escape)
  | .arr [] => .emptyArray []
  | .arr (x :: xs) => .array (writtenItems [] (written x) xs)
  | .obj [] => .emptyObject []
  | .obj ((k, v) :: ms) => .object (writtenMembers (writtenLabel [] k) (written v) ms)
/-- The first item is given as its tree. -/
def writtenItems (before : Text) (t : Tree) : List Json → Items
  | [] => .last before t []
  | x :: xs => .more before t [] (writtenItems [' '] (written x) xs)
def writtenMembers (label : Label) (t : Tree) : List (Str × Json) → Members
  | [] => .last label t []
  | (k, v) :: ms => .more label t [] (writtenMembers (writtenLabel [' '] k) (written v) ms)
end

theorem render_writtenLabel (before : Text) (k : Str) :
    (writtenLabel before k).render = before ++ dumpsStr k ++ ": ".toList := by
  simp [writtenLabel, Label.render, quoted, dumpsStr]

mutual
theorem render_written : (j : Json) → (written j).render = dumps j
  | .null => by simp only [written, Tree.render, dumps]
  | .bool true => by simp only [written, Tree.render, dumps]
  | .bool false => by simp only [written, Tree.render, dumps]
  | .int n => by simp only [written, Tree.render, dumps]
  | .float w => by simp only [written, Tree.render, dumps]
  | .str s => by simp only [written, Tree.render, dumps, quoted, dumpsStr]
  | .arr [] => by simp [written, Tree.render, dumps]
  | .arr (x :: xs) => by
    rw [written, Tree.render, render_writtenItems [] _ xs, render_written x, dumps]
    rfl
  | .obj [] => by simp [written, Tree.render, dumps]
  | .obj ((k, v) :: ms) => by
    rw [written, Tree.render, render_writtenMembers _ _ ms, render_written v,
      render_writtenLabel, dumps]
    rfl
theorem render_writtenItems (before : Text) (t : Tree) : (xs : List Json) →
    (writtenItems before t xs).render = before ++ t.render ++ dumpsItems xs
  | [] => by rw [writtenItems, Items.render, dumpsItems]
  | x :: xs => by
    rw [writtenItems, Items.render, render_writtenItems [' '] _ xs, render_written x, dumpsItems]
    simp
theorem render_writtenMembers (label : Label) (t : Tree) : (ms : List (Str × Json)) →
    (writtenMembers label t ms).render = label.render ++ t.render ++ dumpsMembers ms
  | [] => by rw [writtenMembers, Members.render, dumpsMembers]
  | (k, v) :: ms => by
    rw [writtenMembers, Members.render, render_writtenMembers _ _ ms, render_written v,
      render_writtenLabel, dumpsMembers]
    simp
end

theorem pad_nil : Pad [] := fun _ hc => absurd hc (by simp)

theorem pad_space : Pad [' '] := by
  intro c hc
  obtain rfl := List.mem_singleton.mp hc
  rfl

theorem lexical_writtenLabel {before : Text} (h : Pad before) (k : Str) :
    (writtenLabel before k).Lexical :=
  ⟨h, closed_escape k, pad_nil, pad_space⟩

mutual
theorem lexical_written : (j : Json) → Loadable j → (written j).Lexical
  | .null, _ => ⟨by decide, by decide⟩
  | .bool true, _ => ⟨by decide, by decide⟩
  | .bool false, _ => ⟨by decide, by decide⟩
  | .int n, _ => dumpsInt_word n
  | .float _, h => h.1
  | .str s, _ => closed_escape s
  | .arr [], _ => pad_nil
  | .arr (x :: xs), h => lexical_writtenItems pad_nil (lexical_written x h.1) xs h.2
  | .obj [], _ => pad_nil
  | .obj ((k, v) :: ms), h =>
    lexical_writtenMembers (lexical_writtenLabel pad_nil k) (lexical_written v h.2.1.2) ms h.2.2
theorem lexical_writtenItems {before : Text} {t : Tree} (hbefore : Pad before)
    (ht : t.Lexical) : (xs : List Json) → LoadableItems xs → (writtenItems before t xs).Lexical
  | [], _ => ⟨hbefore, ht, pad_nil⟩
  | x :: xs, h =>
    ⟨hbefore, ht, pad_nil, lexical_writtenItems pad_space (lexical_written x h.1) xs h.2⟩
theorem lexical_writtenMembers {label : Label} {t : Tree} (hlabel : label.Lexical)
    (ht : t.Lexical) : (ms : List (Str × Json)) → LoadableMembers ms →
      (writtenMembers label t ms).Lexical
  | [], _ => ⟨hlabel, ht, pad_nil⟩
  | (k, v) :: ms, h =>
    ⟨hlabel, ht, pad_nil, lexical_writtenMembers (lexical_writtenLabel pad_space k)
      (lexical_written v h.1.2) ms h.2⟩
end

theorem dict_of_nodup {ps : List (Str × Json)} (h : (ps.map Prod.fst).Nodup) : dict ps = ps :=
  assignAll_of_nodup (d := []) h

theorem decode_writtenLabel (before : Text) {k : Str} (h : Unpaired k) :
    decode (writtenLabel before k).raw = some k := decode_escape h

mutual
theorem value_written : (j : Json) → Loadable j → (written j).value = some j
  | .null, _ => rfl
  | .bool true, _ => by decide
  | .bool false, _ => by decide
  | .int n, _ => readWord_dumpsInt n
  | .float _, h => h.2
  | .str s, h => by rw [written, Tree.value, decode_escape h, Option.map_some]
  | .arr [], _ => rfl
  | .arr (x :: xs), h => by
    rw [written, Tree.value, values_writtenItems [] (value_written x h.1) xs h.2, Option.map_some]
  | .obj [], _ => rfl
  | .obj ((k, v) :: ms), h => by
    rw [written, Tree.value, pairs_writtenMembers (decode_writtenLabel [] h.2.1.1)
      (value_written v h.2.1.2) ms h.2.2, Option.map_some, dict_of_nodup h.1]
theorem values_writtenItems (before : Text) {t : Tree} {v : Json} (ht : t.value = some v) :
    (xs : List Json) → LoadableItems xs → (writtenItems before t xs).values = some (v :: xs)
  | [], _ => by rw [writtenItems, Items.values, ht, Option.map_some]
  | x :: xs, h => by
    rw [writtenItems, Items.values, ht, Option.bind_some,
      values_writtenItems [' '] (value_written x h.1) xs h.2, Option.map_some]
theorem pairs_writtenMembers {label : Label} {k : Str} {t : Tree} {v : Json}
    (hk : decode label.raw = some k) (ht : t.value = some v) : (ms : List (Str × Json)) →
      LoadableMembers ms → (writtenMembers label t ms).pairs = some ((k, v) :: ms)
  | [], _ => by rw [writtenMembers, Members.pairs, hk, ht, Option.bind_some, Option.map_some]
  | (l, w) :: ms, h => by
    rw [writtenMembers, Members.pairs, hk, ht, Option.bind_some, Option.bind_some,
      pairs_writtenMembers (decode_writtenLabel [' '] h.1.1) (value_written w h.1.2) ms h.2,
      Option.map_some]
end

/-- A value that `json.loads` can give is read back from what `json.dumps` writes of it. -/
theorem loads_dumps {j : Json} (h : Loadable j) : loads (dumps j) = .ok j := by
  have hdoc : Document.render ⟨[], written j, []⟩ = dumps j := by
    simp [Document.render, render_written]
  rw [← hdoc]
  exact (loads_render ⟨pad_nil, lexical_written j h, pad_nil⟩).mpr (value_written j h)

end AgentTestHarness.JsonRoundTrip
