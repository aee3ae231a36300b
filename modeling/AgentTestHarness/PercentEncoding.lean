import AgentTestHarness.PyText
import Mathlib.Data.List.Flatten

/-! Percent encoding of URL texts: `urllib.parse.quote` with no safe characters, and the
decoding that undoes it. -/
namespace AgentTestHarness.PercentEncoding
open PyText

/-- Letters, digits and `-._~` stand for themselves everywhere in a URL. -/
def isUnreserved (c : Char) : Bool :=
  c.isAlphanum || c == '-' || c == '.' || c == '_' || c == '~'

def hexUpper (n : ℕ) : Char := (Nat.digitChar n).toUpper

def percentByte (b : UInt8) : Text := ['%', hexUpper (b.toNat / 16), hexUpper (b.toNat % 16)]

def quoteChar (c : Char) : Text :=
  if isUnreserved c then [c] else (String.utf8EncodeChar c).flatMap percentByte

def quote (s : Text) : Text := s.flatMap quoteChar

def hexValue (c : Char) : Option ℕ :=
  if '0' ≤ c ∧ c ≤ '9' then some (c.toNat - '0'.toNat)
  else if 'a' ≤ c ∧ c ≤ 'f' then some (c.toNat - 'a'.toNat + 10)
  else if 'A' ≤ c ∧ c ≤ 'F' then some (c.toNat - 'A'.toNat + 10)
  else none

/-- The bytes a text stands for: an escape is its byte, any other character its UTF-8. -/
def bytes : Text → List UInt8
  | [] => []
  | '%' :: a :: b :: rest =>
    match hexValue a, hexValue b with
    | some x, some y => UInt8.ofNat (16 * x + y) :: bytes rest
    | _, _ => String.utf8EncodeChar '%' ++ bytes (a :: b :: rest)
  | c :: rest => String.utf8EncodeChar c ++ bytes rest

/-- Decode the escapes once. A text whose bytes are no UTF-8 stays as it is; that decoding
makes no text longer is checked along the way. -/
def unquote (s : Text) : Text :=
  match (bytes s).toByteArray.utf8Decode? with
  | some cs => if cs.size ≤ s.length then cs.toList else s
  | none => s

theorem hexValue_hexUpper : ∀ n < 16, hexValue (hexUpper n) = some n := by decide

theorem isUnreserved_hexUpper : ∀ n < 16, isUnreserved (hexUpper n) = true := by decide

theorem mem_quote {s : Text} {c : Char} (h : c ∈ quote s) : isUnreserved c = true ∨ c = '%' := by
  obtain ⟨d, -, hd⟩ := List.mem_flatMap.mp h
  unfold quoteChar at hd
  split at hd
  · next hu => exact .inl (List.mem_singleton.mp hd ▸ hu)
  · obtain ⟨b, -, hb⟩ := List.mem_flatMap.mp hd
    have hlt : b.toNat < 256 := UInt8.toNat_lt_size b
    rcases List.mem_cons.mp hb with rfl | hb
    · exact .inr rfl
    · rcases List.mem_cons.mp hb with rfl | hb
      · exact .inl (isUnreserved_hexUpper _ (by omega))
      · rw [List.mem_singleton.mp hb]
        exact .inl (isUnreserved_hexUpper _ (by omega))

theorem not_mem_quote {c : Char} (hu : isUnreserved c = false) (hp : c ≠ '%') (s : Text) :
    c ∉ quote s := by
  intro h
  rcases mem_quote h with h | h
  · simp [hu] at h
  · exact hp h

theorem quote_of_unreserved {s : Text} (h : ∀ c ∈ s, isUnreserved c = true) : quote s = s := by
  induction s with
  | nil => rfl
  | cons c s ih =>
    obtain ⟨hc, hs⟩ := List.forall_mem_cons.mp h
    rw [quote, List.flatMap_cons, quoteChar, if_pos hc]
    exact congrArg (c :: ·) (ih hs)

theorem utf8EncodeChar_ne_nil (c : Char) : String.utf8EncodeChar c ≠ [] := by
  unfold String.utf8EncodeChar
  dsimp only
  split_ifs <;> simp

theorem length_quoteChar_pos (c : Char) : 0 < (quoteChar c).length := by
  unfold quoteChar
  split
  · simp
  · obtain ⟨b, bs, hb⟩ := List.exists_cons_of_ne_nil (utf8EncodeChar_ne_nil c)
    simp [hb, percentByte]

theorem length_le_length_quote (s : Text) : s.length ≤ (quote s).length := by
  induction s with
  | nil => simp
  | cons c s ih =>
    have := length_quoteChar_pos c
    rw [quote, List.flatMap_cons, List.length_append, List.length_cons]
    exact Nat.add_comm _ _ ▸ Nat.add_le_add this ih

theorem bytes_percentByte_append (b : UInt8) (rest : Text) :
    bytes (percentByte b ++ rest) = b :: bytes rest := by
  have hlt : b.toNat < 256 := UInt8.toNat_lt_size b
  have hsum : 16 * (b.toNat / 16) + b.toNat % 16 = b.toNat := Nat.div_add_mod _ _
  simp only [percentByte, List.cons_append, List.nil_append, bytes]
  rw [hexValue_hexUpper _ (by omega), hexValue_hexUpper _ (by omega)]
  simp [hsum]

theorem bytes_cons_of_ne {c : Char} (h : c ≠ '%') (rest : Text) :
    bytes (c :: rest) = String.utf8EncodeChar c ++ bytes rest := by
  rw [bytes]
  rintro _ _ _ rfl
  exact absurd rfl h

theorem bytes_quote_append (s rest : Text) :
    bytes (quote s ++ rest) = s.flatMap String.utf8EncodeChar ++ bytes rest := by
  induction s with
  | nil => rfl
  | cons c s ih =>
    have hbytes : ∀ bs : List UInt8, ∀ t : Text,
        bytes (bs.flatMap percentByte ++ t) = bs ++ bytes t := by
      intro bs t
      induction bs with
      | nil => rfl
      | cons b bs ihb =>
        rw [List.flatMap_cons, List.append_assoc, bytes_percentByte_append, ihb, List.cons_append]
    rw [quote, List.flatMap_cons, List.append_assoc, quoteChar, List.flatMap_cons,
      List.append_assoc, ← ih]
    split
    · next hu =>
      exact bytes_cons_of_ne (by rintro rfl; exact absurd hu (by decide)) _
    · exact hbytes _ _

theorem unquote_quote (s : Text) : unquote (quote s) = s := by
  have hbytes : bytes (quote s) = s.flatMap String.utf8EncodeChar := by
    simpa [bytes] using bytes_quote_append s []
  have hdecode : (s.flatMap String.utf8EncodeChar).toByteArray.utf8Decode? = some s.toArray :=
    List.utf8Decode?_utf8Encode
  unfold unquote
  rw [hbytes, hdecode]
  simp [length_le_length_quote]

/-- A text without escapes is decoded as it is. -/
theorem unquote_of_plain {s : Text} (h : '%' ∉ s) : unquote s = s := by
  have hbytes : bytes s = s.flatMap String.utf8EncodeChar := by
    induction s with
    | nil => rfl
    | cons c s ih =>
      rw [List.mem_cons, not_or] at h
      rw [bytes_cons_of_ne (fun hc => h.1 hc.symm), ih h.2, List.flatMap_cons]
  have hdecode : (s.flatMap String.utf8EncodeChar).toByteArray.utf8Decode? = some s.toArray :=
    List.utf8Decode?_utf8Encode
  unfold unquote
  rw [hbytes, hdecode]
  simp

theorem length_unquote_le (s : Text) : (unquote s).length ≤ s.length := by
  unfold unquote
  split
  · next cs _ =>
    split
    · next h => simpa using h
    · exact le_rfl
  · exact le_rfl

end AgentTestHarness.PercentEncoding
