import AgentTestHarness.PyText
import Mathlib.Data.List.TakeWhile

/-! The ids under which a ledger knows schemas and credential definitions, in the form of the
indy ledgers and in the fully qualified form of anoncreds. -/
namespace AgentTestHarness.LedgerIds
open PyText

abbrev colon : CodePoint := .ch ':'

abbrev slash : CodePoint := .ch '/'

def legacySchemaId (did name version : Str) : Str :=
  did ++ (":2:" : Str) ++ name ++ (":" : Str) ++ version

def legacyCredDefId (did seqNo tag : Str) : Str :=
  did ++ (":3:CL:" : Str) ++ seqNo ++ (":" : Str) ++ tag

/-- The DID of an issuer; a method can have parts, such as a ledger's namespace. -/
def qualifiedDid (method did : Str) : Str := ("did:" : Str) ++ method ++ (":" : Str) ++ did

def qualifiedSchemaId (issuerId name version : Str) : Str :=
  issuerId ++ ("/anoncreds/v0/SCHEMA/" : Str) ++ name ++ ("/" : Str) ++ version

def qualifiedCredDefId (issuerId seqNo tag : Str) : Str :=
  issuerId ++ ("/anoncreds/v0/CLAIM_DEF/" : Str) ++ seqNo ++ ("/" : Str) ++ tag

theorem splitOn_cons_piece {sep : CodePoint} {piece : Str} (h : sep ∉ piece) (rest : Str) :
    (piece ++ sep :: rest).splitOn sep = piece :: rest.splitOn sep :=
  List.splitOn_append_cons_self_of_not_mem h rest

/-- The first piece of a text. -/
theorem head?_splitOn (sep : CodePoint) (s : Str) :
    (s.splitOn sep).head? = some (s.takeWhile (· != sep)) := by
  by_cases h : sep ∈ s
  · obtain ⟨a, b, rfl, ha⟩ := List.eq_append_cons_of_mem h
    have hplain : ∀ c ∈ a, (c != sep) = true := fun c hc => by
      simpa using fun heq : c = sep => ha (heq ▸ hc)
    rw [splitOn_cons_piece ha, List.takeWhile_append_of_pos hplain]
    simp
  · have hplain : ∀ c ∈ s, (c != sep) = true := fun c hc => by
      simpa using fun heq : c = sep => h (heq ▸ hc)
    rw [List.splitOn_eq_singleton h, List.takeWhile_eq_self_iff.mpr hplain]
    rfl

theorem length_splitOn (sep : CodePoint) (s : Str) :
    (s.splitOn sep).length = s.count sep + 1 := by
  induction s with
  | nil => rw [List.splitOn_nil, List.length_singleton, List.count_nil]
  | cons c s ih =>
    rw [List.splitOn_cons_eq_if_modifyHead, List.count_cons]
    split
    · rw [List.length_cons, ih]
    · rw [List.length_modifyHead, ih, Nat.add_zero]

/-- The text behind the last separator. -/
def lastPiece (sep : CodePoint) (s : Str) : Str := ((s.splitOn sep).getLast?).getD []

theorem lastPiece_append_cons (sep : CodePoint) (s t : Str) :
    lastPiece sep (s ++ sep :: t) = lastPiece sep t := by
  unfold lastPiece
  rw [List.splitOn_append_cons_self, List.getLast?_append_of_ne_nil _ (List.splitOn_ne_nil _ _)]

theorem lastPiece_of_not_mem {sep : CodePoint} {s : Str} (h : sep ∉ s) : lastPiece sep s = s := by
  rw [lastPiece, List.splitOn_eq_singleton h]
  rfl

theorem lastPiece_suffix (sep : CodePoint) (s : Str) : lastPiece sep s <:+ s := by
  by_cases h : sep ∈ s
  · obtain ⟨a, b, hs, -⟩ := List.eq_append_cons_of_mem h
    have hlt : b.length < s.length := by simp [hs]; omega
    have hrest := lastPiece_suffix sep b
    rw [hs, lastPiece_append_cons]
    exact hrest.trans ((List.suffix_cons sep b).trans (List.suffix_append a (sep :: b)))
  · rw [lastPiece_of_not_mem h]
termination_by s.length

/-- What stands before a text with a separator does not count. -/
theorem lastPiece_append {sep : CodePoint} {t : Str} (h : sep ∈ t) (s : Str) :
    lastPiece sep (s ++ t) = lastPiece sep t := by
  obtain ⟨a, b, rfl, -⟩ := List.eq_append_cons_of_mem h
  rw [← List.append_assoc, lastPiece_append_cons, lastPiece_append_cons]

/-- A word without the separator is in one of the parts between separators. -/
theorem infix_append_cons {sep : CodePoint} {word : Str} (h : sep ∉ word) (s t : Str) :
    word <:+: s ++ sep :: t ↔ word <:+: s ∨ word <:+: t := by
  constructor
  · intro hword
    rcases List.infix_append_iff.mp hword with hs | ht | ⟨w, w', rfl, hw, hw'⟩
    · exact .inl hs
    · rcases List.infix_cons_iff.mp ht with hstart | ht
      · cases word with
        | nil => exact .inl List.nil_infix
        | cons c word =>
          obtain ⟨rfl, -⟩ := List.cons_prefix_cons.mp hstart
          exact absurd List.mem_cons_self h
      · exact .inr ht
    · cases w' with
      | nil => exact .inl (by simpa using hw.isInfix)
      | cons c w' =>
        obtain ⟨rfl, -⟩ := List.cons_prefix_cons.mp hw'
        exact absurd (List.mem_append_right w List.mem_cons_self) h
  · rintro (hs | ht)
    · exact List.infix_append_of_infix_left hs
    · exact List.infix_append_of_infix_right (List.infix_cons ht)

theorem splitOn_legacyCredDefId {did seqNo : Str} (hdid : colon ∉ did) (hseqNo : colon ∉ seqNo)
    (tag : Str) : (legacyCredDefId did seqNo tag).splitOn colon =
      did :: ("3" : Str) :: ("CL" : Str) :: seqNo :: tag.splitOn colon := by
  have h3 : colon ∉ ("3" : Str) := by decide
  have hcl : colon ∉ ("CL" : Str) := by decide
  have hform : legacyCredDefId did seqNo tag =
      did ++ colon :: (("3" : Str) ++ colon :: (("CL" : Str) ++ colon :: (seqNo ++ colon ::
        tag))) := by
    simp only [legacyCredDefId, List.append_assoc]
    rfl
  rw [hform, splitOn_cons_piece hdid, splitOn_cons_piece h3, splitOn_cons_piece hcl,
    splitOn_cons_piece hseqNo]

end AgentTestHarness.LedgerIds
