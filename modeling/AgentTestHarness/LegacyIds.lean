import AgentTestHarness.LedgerIds
import AgentTestHarness.PyJson

/-! The legacy form of the ids that agents report for schemas and credential definitions. The steps
convert what has "indy" in it and keep the rest. -/
namespace AgentTestHarness.LegacyIds
open PyText PyJson LedgerIds

/-- The pieces between slashes behind the last colon. -/
def idPieces (id : Str) : List Str := (lastPiece colon id).splitOn slash

/-- The two functions differ in the middle of the legacy id. -/
def convert (middle id : Str) : Except PyError Str := do
  let idPart ← nth (idPieces id) 0
  let first ← nth (idPieces id) 4
  let second ← nth (idPieces id) 5
  pure (idPart ++ (":" : Str) ++ middle ++ (":" : Str) ++ first ++ (":" : Str) ++ second)

def convertFullyQualifiedIndyCredDefIdToLegacy (id : Str) : Except PyError Str := convert "3:CL" id

def convertFullyQualifiedIndySchemaIdToLegacy (id : Str) : Except PyError Str := convert "2" id

abbrev indy : Str := "indy"

/-- The schema id that is recorded, and the one that a credential is compared with. -/
def normalisedSchemaId (id : Str) : Except PyError Str :=
  if indy <:+: id then convertFullyQualifiedIndySchemaIdToLegacy id else .ok id

def normalisedCredDefId (id : Str) : Except PyError Str :=
  if indy <:+: id then convertFullyQualifiedIndyCredDefIdToLegacy id else .ok id

/-- An issuer of an indy ledger; its id has no colon and no slash. -/
structure Issuer where
  ledger : Str
  id : Str
  noColon : colon ∉ id
  noSlash : slash ∉ id

def Issuer.did (issuer : Issuer) : Str := qualifiedDid (("indy:" : Str) ++ issuer.ledger) issuer.id

/-- Both forms of an id, and so the normalised id itself, become the legacy form. -/
def Normalised (normalise : Str → Except PyError Str) (qualified legacy : Str) : Prop :=
  ∀ id ∈ [qualified, legacy], normalise id = .ok legacy

/-- The parts of an id are not taken apart themselves, and a legacy id is kept. -/
def Convertible (issuer : Issuer) (first second : Str) : Prop :=
  (∀ part ∈ [first, second], colon ∉ part ∧ slash ∉ part) ∧
    ∀ part ∈ [issuer.id, first, second], ¬ indy <:+: part

/-! What a conversion can give. -/

theorem slash_not_mem_of_nth {id piece : Str} {n : ℕ} (h : nth (idPieces id) n = .ok piece) :
    slash ∉ piece :=
  not_mem_of_mem_splitOn (List.mem_of_getElem? (nth_eq_ok.mp h))

theorem slash_not_mem_of_convert {middle id legacy : Str} (hmiddle : slash ∉ middle)
    (h : convert middle id = .ok legacy) : slash ∉ legacy := by
  have hcolon : slash ∉ (":" : Str) := by decide
  obtain ⟨idPart, hidPart, h⟩ := bind_eq_ok h
  obtain ⟨first, hfirst, h⟩ := bind_eq_ok h
  obtain ⟨second, hsecond, h⟩ := bind_eq_ok h
  obtain rfl := Except.ok.inj h
  simp only [List.mem_append, not_or]
  exact ⟨⟨⟨⟨⟨⟨slash_not_mem_of_nth hidPart, hcolon⟩, hmiddle⟩, hcolon⟩,
    slash_not_mem_of_nth hfirst⟩, hcolon⟩, slash_not_mem_of_nth hsecond⟩

/-- Behind the last colon of the id there have to be five slashes. -/
theorem count_of_convert {middle id legacy : Str} (h : convert middle id = .ok legacy) :
    5 ≤ (lastPiece colon id).count slash := by
  obtain ⟨idPart, hidPart, h⟩ := bind_eq_ok h
  obtain ⟨first, hfirst, h⟩ := bind_eq_ok h
  obtain ⟨second, hsecond, h⟩ := bind_eq_ok h
  have hlength := (List.getElem?_eq_some_iff.mp (nth_eq_ok.mp hsecond)).1
  rw [idPieces, length_splitOn] at hlength
  omega

/-- No legacy id is kept by a conversion. -/
theorem convert_ne_self {middle id : Str} (hmiddle : slash ∉ middle) :
    convert middle id ≠ .ok id := by
  intro h
  have hcount := count_of_convert h
  have hslash := slash_not_mem_of_convert hmiddle h
  have hsub := (lastPiece_suffix colon id).sublist.count_le slash
  rw [List.count_eq_zero_of_not_mem hslash] at hsub
  omega

/-! The two forms of an id. -/

section Forms

variable (issuer : Issuer) (kind middle first second : Str)

def qualifiedForm : Str :=
  ("did:" : Str) ++ (("indy:" : Str) ++ issuer.ledger) ++ colon :: (issuer.id ++ slash ::
    (("anoncreds" : Str) ++ slash :: (("v0" : Str) ++ slash :: (kind ++ slash ::
      (first ++ slash :: second)))))

def legacyForm : Str := issuer.id ++ colon :: (middle ++ colon :: (first ++ colon :: second))

theorem qualifiedSchemaId_eq (name version : Str) :
    qualifiedSchemaId issuer.did name version = qualifiedForm issuer "SCHEMA" name version := by
  simp only [qualifiedSchemaId, Issuer.did, qualifiedDid, qualifiedForm, List.append_assoc]
  rfl

theorem qualifiedCredDefId_eq (seqNo tag : Str) :
    qualifiedCredDefId issuer.did seqNo tag = qualifiedForm issuer "CLAIM_DEF" seqNo tag := by
  simp only [qualifiedCredDefId, Issuer.did, qualifiedDid, qualifiedForm, List.append_assoc]
  rfl

theorem legacySchemaId_eq (name version : Str) :
    legacySchemaId issuer.id name version = legacyForm issuer "2" name version := by
  simp only [legacySchemaId, legacyForm, List.append_assoc]
  rfl

theorem legacyCredDefId_eq (seqNo tag : Str) :
    legacyCredDefId issuer.id seqNo tag = legacyForm issuer "3:CL" seqNo tag := by
  simp only [legacyCredDefId, legacyForm, List.append_assoc]
  rfl

theorem indy_infix_qualifiedForm : indy <:+: qualifiedForm issuer kind first second := by
  refine List.infix_append_of_infix_left (List.infix_append_of_infix_right
    (List.infix_append_of_infix_left ?_))
  decide

variable {middle} in
theorem indy_infix_legacyForm (hmiddle : ¬ indy <:+: middle) :
    indy <:+: legacyForm issuer middle first second ↔
      ∃ part ∈ [issuer.id, first, second], indy <:+: part := by
  have hword : colon ∉ indy := by decide
  unfold legacyForm
  simp only [infix_append_cons hword, hmiddle, false_or, List.mem_cons, List.not_mem_nil, or_false,
    exists_eq_or_imp, exists_eq_left]

variable {kind middle first second}

theorem idPieces_qualifiedForm (hkind : colon ∉ kind ∧ slash ∉ kind)
    (hparts : ∀ part ∈ [first, second], colon ∉ part ∧ slash ∉ part) :
    idPieces (qualifiedForm issuer kind first second) =
      [issuer.id, "anoncreds", "v0", kind, first, second] := by
  obtain ⟨⟨hfirst, hfirst'⟩, hsecond, hsecond'⟩ :=
    List.forall_mem_cons.mp hparts |>.imp_right List.forall_mem_singleton.mp
  have hslash : colon ≠ slash := by decide
  have hword : colon ∉ ("anoncreds" : Str) ∧ slash ∉ ("anoncreds" : Str) := by decide
  have hversion : colon ∉ ("v0" : Str) ∧ slash ∉ ("v0" : Str) := by decide
  have hcolon : colon ∉ issuer.id ++ slash :: (("anoncreds" : Str) ++ slash :: (("v0" : Str) ++
      slash :: (kind ++ slash :: (first ++ slash :: second)))) := by
    simp only [List.mem_append, List.mem_cons, not_or]
    exact ⟨issuer.noColon, hslash, hword.1, hslash, hversion.1, hslash, hkind.1, hslash, hfirst,
      hslash, hsecond⟩
  rw [idPieces, qualifiedForm, lastPiece_append_cons, lastPiece_of_not_mem hcolon,
    splitOn_cons_piece issuer.noSlash, splitOn_cons_piece hword.2, splitOn_cons_piece hversion.2,
    splitOn_cons_piece hkind.2, splitOn_cons_piece hfirst', List.splitOn_eq_singleton hsecond']

/-- A colon in a part hides the issuer's id, and a slash divides the part. -/
theorem convert_qualifiedForm_iff (hkind : colon ∉ kind ∧ slash ∉ kind)
    (hmiddle : slash ∉ middle) :
    convert middle (qualifiedForm issuer kind first second) =
        .ok (legacyForm issuer middle first second) ↔
      ∀ part ∈ [first, second], colon ∉ part ∧ slash ∉ part := by
  constructor
  · intro h
    have hslash := slash_not_mem_of_convert hmiddle h
    simp only [legacyForm, List.mem_append, List.mem_cons, not_or] at hslash
    obtain ⟨-, -, -, -, hfirst, -, hsecond⟩ := hslash
    have hcolon : colon ∉ first ++ slash :: second := by
      intro hmem
      have hcount := count_of_convert h
      have hform : qualifiedForm issuer kind first second = (("did:" : Str) ++ (("indy:" : Str) ++
          issuer.ledger) ++ colon :: (issuer.id ++ slash :: (("anoncreds" : Str) ++ slash ::
            (("v0" : Str) ++ slash :: (kind ++ [slash]))))) ++ (first ++ slash :: second) := by
        simp only [qualifiedForm, List.append_assoc, List.cons_append, List.nil_append]
      have hsub := (lastPiece_suffix colon (first ++ slash :: second)).sublist.count_le slash
      rw [hform, lastPiece_append hmem] at hcount
      rw [List.count_append, List.count_cons_self, List.count_eq_zero_of_not_mem hfirst,
        List.count_eq_zero_of_not_mem hsecond] at hsub
      omega
    simp only [List.mem_append, List.mem_cons, not_or] at hcolon
    exact List.forall_mem_cons.mpr ⟨⟨hcolon.1, hfirst⟩,
      List.forall_mem_singleton.mpr ⟨hcolon.2.2, hsecond⟩⟩
  · intro hparts
    rw [convert, idPieces_qualifiedForm issuer hkind hparts]
    have htext : issuer.id ++ (":" : Str) ++ middle ++ (":" : Str) ++ first ++ (":" : Str) ++
        second = legacyForm issuer middle first second := by
      simp only [legacyForm, List.append_assoc]
      rfl
    exact congrArg Except.ok htext

end Forms

theorem normalised_forms_iff {normalise : Str → Except PyError Str} {issuer : Issuer}
    {kind middle first second : Str} (hkind : colon ∉ kind ∧ slash ∉ kind)
    (hmiddle : slash ∉ middle ∧ ¬ indy <:+: middle)
    (hnormalise : ∀ id, normalise id = if indy <:+: id then convert middle id else .ok id) :
    Normalised normalise (qualifiedForm issuer kind first second)
        (legacyForm issuer middle first second) ↔ Convertible issuer first second := by
  have hlegacy : normalise (legacyForm issuer middle first second) =
      .ok (legacyForm issuer middle first second) ↔
        ∀ part ∈ [issuer.id, first, second], ¬ indy <:+: part := by
    rw [hnormalise]
    by_cases hindy : indy <:+: legacyForm issuer middle first second
    · rw [if_pos hindy]
      refine iff_of_false (convert_ne_self hmiddle.1) fun hparts => ?_
      obtain ⟨part, hpart, hword⟩ := (indy_infix_legacyForm issuer first second hmiddle.2).mp hindy
      exact hparts part hpart hword
    · rw [if_neg hindy]
      refine iff_of_true rfl fun part hpart hword => hindy ?_
      exact (indy_infix_legacyForm issuer first second hmiddle.2).mpr ⟨part, hpart, hword⟩
  have hqualified : normalise (qualifiedForm issuer kind first second) =
      convert middle (qualifiedForm issuer kind first second) := by
    rw [hnormalise, if_pos (indy_infix_qualifiedForm issuer kind first second)]
  rw [Normalised, List.forall_mem_cons, List.forall_mem_singleton, hqualified, hlegacy,
    convert_qualifiedForm_iff issuer hkind hmiddle.1, Convertible]

/-- Exactly the ids whose parts have neither separators nor the word are normalised alike. -/
theorem normalised_iff (issuer : Issuer) :
    (∀ name version, Normalised normalisedSchemaId (qualifiedSchemaId issuer.did name version)
      (legacySchemaId issuer.id name version) ↔ Convertible issuer name version) ∧
    ∀ seqNo tag, Normalised normalisedCredDefId (qualifiedCredDefId issuer.did seqNo tag)
      (legacyCredDefId issuer.id seqNo tag) ↔ Convertible issuer seqNo tag := by
  constructor
  · intro name version
    rw [qualifiedSchemaId_eq, legacySchemaId_eq]
    exact normalised_forms_iff (by decide) (by decide) fun _ => rfl
  · intro seqNo tag
    rw [qualifiedCredDefId_eq, legacyCredDefId_eq]
    exact normalised_forms_iff (by decide) (by decide) fun _ => rfl

def bcovrin : Issuer := ⟨"bcovrin:test", "PDTK22oZnNyDSEn3XedwMq", by decide, by decide⟩

/-- The legacy id of a schema with "indy" in its name is converted, and has no slashes. -/
theorem legacy_id_raises :
    ¬ ∀ (issuer : Issuer) (name version : Str),
      Normalised normalisedSchemaId (qualifiedSchemaId issuer.did name version)
        (legacySchemaId issuer.id name version) := by
  intro h
  have hlegacy := h bcovrin "indy_degree" "1.0" _ (List.mem_cons_of_mem _ List.mem_cons_self)
  revert hlegacy
  decide +kernel

end AgentTestHarness.LegacyIds
