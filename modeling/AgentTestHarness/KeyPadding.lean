import AgentTestHarness.Base64
import AgentTestHarness.PyJson

/-! The public keys that the agent gives in base64 without pads, which are put back before a key is
decoded. -/
namespace AgentTestHarness.KeyPadding
open PyText PyJson Base64

def padBase64 (value : Str) : Str :=
  if value.length % 4 ≠ 0 then
    let nMissing := 4 - value.length % 4
    value ++ List.replicate nMissing (.ch '=')
  else value

/-! The functions of `base64`. -/

def letters : Text :=
  "ABCDEFGHIJKLMNOPQRSTUVWXYZabcdefghijklmnopqrstuvwxyz0123456789+/".toList

theorem nodup_letters : letters.Nodup := by decide +kernel

theorem length_letters : letters.length = 64 := by decide +kernel

def standard : Alphabet Char where
  letter v := letters.get (v.cast length_letters.symm)
  pad := '='
  injective := (List.nodup_iff_injective_get.mp nodup_letters).comp
    (Fin.cast_injective length_letters.symm)
  letter_ne_pad v h := by
    have hpad : '=' ∉ letters := by decide +kernel
    exact hpad (h ▸ List.get_mem letters _)

/-- The URL-safe letter for a letter, and the letter for a URL-safe one. -/
def urlsafe (c : Char) : Char := if c = '+' then '-' else if c = '/' then '_' else c

def ofUrlsafe (c : Char) : Char := if c = '-' then '+' else if c = '_' then '/' else c

def urlsafeB64encode (s : List UInt8) : Text := (standard.encode s).map urlsafe

/-- `s.encode("ascii")` -/
def ascii (s : Str) : Except PyError Text :=
  s.mapM fun
    | .ch c => if c.toNat < 128 then .ok c else .error (.exception "non-ASCII")
    | .surrogate _ => .error (.exception "non-ASCII")

def urlsafeB64decode (s : Str) : Except PyError (List UInt8) := do
  let text ← ascii s
  match standard.decode (text.map ofUrlsafe) with
  | .ok bytes => .ok bytes
  | .error .dataCharacters => .error (.exception "Invalid base64-encoded string")
  | .error .incorrectPadding => .error (.exception "Incorrect padding")

/-- The encoded bytes without the pads. -/
def unpadded (s : List UInt8) : Str :=
  (ofText (urlsafeB64encode s)).rdropWhile (· = .ch '=')

/-! The padding. -/

theorem padBase64_eq {value : Str} {pads : ℕ} (hpads : pads < 4) (h : 4 ∣ value.length + pads) :
    padBase64 value = value ++ List.replicate pads (.ch '=') := by
  unfold padBase64
  split
  · have hmissing : 4 - value.length % 4 = pads := by omega
    simp only [hmissing]
  · have hnone : pads = 0 := by omega
    rw [hnone, List.replicate_zero, List.append_nil]

theorem padBase64_cases (value : Str) : ∃ pads < 4, 4 ∣ value.length + pads ∧
    padBase64 value = value ++ List.replicate pads (.ch '=') := by
  have hpads : (4 - value.length % 4) % 4 < 4 := Nat.mod_lt _ (by decide)
  have hgroups : 4 ∣ value.length + (4 - value.length % 4) % 4 := by omega
  exact ⟨_, hpads, hgroups, padBase64_eq hpads hgroups⟩

/-! The round trip. -/

theorem ofUrlsafe_urlsafe {c : Char} (h : c ∈ '=' :: letters) : ofUrlsafe (urlsafe c) = c := by
  have hall : ∀ c ∈ '=' :: letters, ofUrlsafe (urlsafe c) = c := by decide +kernel
  exact hall c h

theorem urlsafe_ascii {c : Char} (h : c ∈ '=' :: letters) : (urlsafe c).toNat < 128 := by
  have hall : ∀ c ∈ '=' :: letters, (urlsafe c).toNat < 128 := by decide +kernel
  exact hall c h

theorem urlsafe_eq_pad {c : Char} : urlsafe c = '=' ↔ c = '=' := by
  unfold urlsafe
  split
  · next h => simp [h]
  · split
    · next h => simp [h]
    · rfl

theorem mem_encode (s : List UInt8) : ∀ c ∈ standard.encode s, c ∈ '=' :: letters := by
  intro c hc
  rcases Alphabet.mem_encode hc with rfl | ⟨v, rfl⟩
  · exact List.mem_cons_self
  · exact List.mem_cons_of_mem _ (List.get_mem letters _)

theorem ascii_ofText {t : Text} (h : ∀ c ∈ t, c.toNat < 128) : ascii (ofText t) = .ok t := by
  unfold ascii ofText
  induction t with
  | nil => rfl
  | cons c t ih =>
    obtain ⟨hc, ht⟩ := List.forall_mem_cons.mp h
    rw [List.map_cons, List.mapM_cons, ih ht]
    simp only [hc, if_true]
    rfl

/-- What is encoded is decoded, pads included. -/
theorem urlsafeB64decode_encode (s : List UInt8) :
    urlsafeB64decode (ofText (urlsafeB64encode s)) = .ok s := by
  have hascii : ∀ c ∈ urlsafeB64encode s, c.toNat < 128 := by
    intro c hc
    obtain ⟨d, hd, rfl⟩ := List.mem_map.mp hc
    exact urlsafe_ascii (mem_encode s d hd)
  have hback : (urlsafeB64encode s).map ofUrlsafe = standard.encode s := by
    rw [urlsafeB64encode, List.map_map]
    exact (List.map_congr_left fun c hc => ofUrlsafe_urlsafe (mem_encode s c hc)).trans
      (List.map_id _)
  rw [urlsafeB64decode, ascii_ofText hascii]
  simp only [bind, Except.bind, hback, Alphabet.decode_encode]

/-- The padding puts back the pads that were stripped. -/
theorem padBase64_unpadded (s : List UInt8) :
    padBase64 (unpadded s) = ofText (urlsafeB64encode s) := by
  obtain ⟨text, pads, heq, hnot, hpads, hgroups⟩ := standard.encode_eq s
  have hencoded : ofText (urlsafeB64encode s) =
      ofText (text.map urlsafe) ++ List.replicate pads (.ch '=') := by
    rw [urlsafeB64encode, heq, List.map_append, ofText, List.map_append]
    simp only [List.map_replicate]
    rfl
  have hpad : '=' ∉ text := hnot
  have hletters : CodePoint.ch '=' ∉ ofText (text.map urlsafe) := by
    simpa [ofText, urlsafe_eq_pad] using hpad
  have hlength : (ofText (text.map urlsafe)).length = text.length := by simp [ofText]
  rw [unpadded, hencoded, rdropWhile_replicate hletters]
  exact padBase64_eq (by omega) (by rwa [hlength])

/-- A padded key is decoded to the bytes that were encoded, and padding makes the length of any
text a multiple of four without changing what is there, once and for all. -/
theorem key_padding (s : List UInt8) (value : Str) :
    urlsafeB64decode (padBase64 (unpadded s)) = .ok s ∧
      4 ∣ (padBase64 value).length ∧ value <+: padBase64 value ∧
      padBase64 (padBase64 value) = padBase64 value := by
  refine ⟨by rw [padBase64_unpadded, urlsafeB64decode_encode], ?_⟩
  obtain ⟨pads, -, hgroups, heq⟩ := padBase64_cases value
  have hlength : 4 ∣ (padBase64 value).length := by
    rwa [heq, List.length_append, List.length_replicate]
  refine ⟨hlength, heq ▸ List.prefix_append _ _, ?_⟩
  simpa using @padBase64_eq (padBase64 value) 0 (by decide) hlength

end AgentTestHarness.KeyPadding
