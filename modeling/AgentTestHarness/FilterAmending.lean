import AgentTestHarness.JsonPaths

/-! The filters of a credential, in which the steps put what is only known at runtime: the ids of
the schema and of the credential definition, the DID of the issuer, the proof type and the date. -/
namespace AgentTestHarness.FilterAmending
open PyText OrderedDict PyJson JsonPaths

abbrev replaceMe : Json := .str "replace_me"

structure Context where
  anoncreds : Json
  schema : Json
  issuerDidDict : List (Str × Json)
  issuerCredentialDefinitionDict : List (Str × Json)
  issuerSchemaDict : List (Str × Json)
  proofType : Json

def getSchemaName (context : Context) : Except PyError Json :=
  if context.anoncreds.truthy then do (← context.schema.item "schema").item "name"
  else context.schema.item "schema_name"

/-- `j.get(k1)...get(kn)` -/
def getAt (path : Path) (j : Json) : Except PyError Json := path.foldlM Json.get j

/-! The two formats of an indy ledger. -/

def replaceId (format field : Str) (value : Except PyError Json) (filters : Json) :
    Except PyError Json := do
  let ids ← filters.item format
  if ← ids.contains field then
    let given ← ids.item field
    if given = replaceMe then value >>= fun v => setItem [format] field v filters
    else pure filters
  else pure filters

def amendIds (context : Context) (schemaName : Json) (format : Str) (filters : Json) :
    Except PyError Json := do
  if ← filters.contains format then
    let filters ← replaceId format "schema_issuer_did" (itemOf context.issuerDidDict schemaName)
      filters
    let filters ← replaceId format "issuer_did" (itemOf context.issuerDidDict schemaName) filters
    let filters ← replaceId format "cred_def_id" (itemOf context.issuerCredentialDefinitionDict
      schemaName >>= fun definition => definition.item "id") filters
    replaceId format "schema_id" (itemOf context.issuerSchemaDict schemaName >>= fun schema =>
      schema.item "id") filters
  else pure filters

/-! Linked data. -/

/-- The issuer is a DID, or an object with the DID as its id. -/
def amendIssuer (issuer filters : Json) : Except PyError Json := do
  let credential ← getAt ["json-ld", "credential"] filters
  if ← credential.contains "issuer" then
    let given ← credential.get "issuer"
    if given = replaceMe then setItem ["json-ld", "credential"] "issuer" issuer filters
    else do
      let id ← given.get "id"
      if id = replaceMe then setItem ["json-ld", "credential", "issuer"] "id" issuer filters
      else pure filters
  else pure filters

def amendProofType (proofType filters : Json) : Except PyError Json := do
  let options ← getAt ["json-ld", "options"] filters
  let given ← options.get "proofType"
  if given = replaceMe then setItem ["json-ld", "options"] "proofType" proofType filters
  else pure filters

/-- `created` is the time of the call in seconds. -/
def amendIssuanceDate (created : Str) (filters : Json) : Except PyError Json := do
  let credential ← getAt ["json-ld", "credential"] filters
  if ← credential.contains "issuanceDate" then
    setItem ["json-ld", "credential"] "issuanceDate" (.str (created ++ ("Z" : Str))) filters
  else pure filters

def amendSubject (didForId filters : Json) : Except PyError Json := do
  if didForId.truthy then
    let credential ← getAt ["json-ld", "credential"] filters
    if ← credential.contains "credentialSubject" then
      let subject ← credential.item "credentialSubject"
      if ← subject.contains "id" then pure filters
      else setItem ["json-ld", "credential", "credentialSubject"] "id" didForId filters
    else pure filters
  else pure filters

def amendJsonLd (context : Context) (schemaName didForId : Json) (created : Str) (filters : Json) :
    Except PyError Json := do
  if ← filters.contains "json-ld" then
    let issuer ← itemOf context.issuerDidDict schemaName
    let filters ← amendIssuer issuer filters
    let filters ← amendProofType context.proofType filters
    let filters ← amendIssuanceDate created filters
    amendSubject didForId filters
  else pure filters

def amendFiltersWithRuntimeData (context : Context) (didForId : Json) (created : Str)
    (filters : Json) : Except PyError Json := do
  let schemaName ← getSchemaName context
  let filters ← amendIds context schemaName "indy" filters
  let filters ← amendIds context schemaName "anoncreds" filters
  amendJsonLd context schemaName didForId created filters

/-! What the steps rely on. -/

abbrev credentialPath : Path := ["json-ld", "credential"]

abbrev optionsPath : Path := ["json-ld", "options"]

abbrev issuerPath : Path := ["json-ld", "credential", "issuer"]

abbrev issuerIdPath : Path := ["json-ld", "credential", "issuer", "id"]

abbrev proofTypePath : Path := ["json-ld", "options", "proofType"]

abbrev issuanceDatePath : Path := ["json-ld", "credential", "issuanceDate"]

abbrev subjectPath : Path := ["json-ld", "credential", "credentialSubject"]

abbrev subjectIdPath : Path := ["json-ld", "credential", "credentialSubject", "id"]

def idFields : List Str := ["schema_issuer_did", "issuer_did", "cred_def_id", "schema_id"]

def idPaths (format : Str) : List Path := idFields.map fun field => [format, field]

def placeholders : List Path :=
  idPaths "indy" ++ idPaths "anoncreds" ++ [issuerPath, issuerIdPath, proofTypePath]

/-- The filters of a scenario: each format has an object, and linked data have a credential and
options. -/
structure IsFilters (j : Json) : Prop where
  object : IsObjectAt [] j
  ids : ∀ format ∈ [("indy" : Str), "anoncreds"], headAt [format] j = none ∨ IsObjectAt [format] j
  jsonLd : headAt ["json-ld"] j = none ∨ IsObjectAt credentialPath j ∧ IsObjectAt optionsPath j
  subject : headAt subjectPath j = none ∨ IsObjectAt subjectPath j

structure Filters where
  json : Json
  isFilters : IsFilters json
  issuer : headAt issuerPath json = none ∨ IsObjectAt issuerPath json ∨
    ∃ s, valueAt issuerPath json = some (.str s)

/-- A context with the ids of a schema, its issuer's DID and the proof type. -/
structure Prepared extends Context where
  name : Str
  did : Str
  credDefId : Str
  schemaId : Str
  proof : Str
  hasName : getSchemaName toContext = .ok (.str name)
  hasDid : lookup name issuerDidDict = some (.str did)
  hasCredDefId : ∃ definition, lookup name issuerCredentialDefinitionDict = some definition ∧
    definition.item "id" = .ok (.str credDefId)
  hasSchemaId : ∃ schema, lookup name issuerSchemaDict = some schema ∧
    schema.item "id" = .ok (.str schemaId)
  hasProof : proofType = .str proof
  known : ∀ text ∈ [did, credDefId, schemaId, proof], Json.str text ≠ replaceMe

/-- What may become different: the placeholders, the date, and the subject's id if it has none. -/
def changeable (filters : Json) : List Path :=
  placeholders ++ issuanceDatePath ::
    (if valueAt subjectIdPath filters = none then [subjectIdPath] else [])

/-- The filters are amended, and those are amended again without a difference but the date. -/
def Amended (context : Context) (didForId : Json) (created created' : Str) (filters : Json) :
    Prop :=
  ∃ amended, amendFiltersWithRuntimeData context didForId created filters = .ok amended ∧
    (∀ path ∈ placeholders, valueAt path amended ≠ some replaceMe) ∧
    SameExcept (changeable filters) filters amended ∧
    ∃ again, amendFiltersWithRuntimeData context didForId created' amended = .ok again ∧
      SameExcept [issuanceDatePath] amended again

/-! One amendment after the other. -/

/-- A step that changes no more than some paths, and nothing but the date if they are settled. -/
structure Amends (valid : Json → Prop) (run : Str → Json → Except PyError Json)
    (paths : List Path) (settled : Json → Prop) : Prop where
  first : ∀ created j, valid j →
    ∃ j', run created j = .ok j' ∧ SameExcept paths j j' ∧ settled j'
  again : ∀ created j, valid j → settled j →
    ∃ j', run created j = .ok j' ∧ SameExcept [issuanceDatePath] j j'

/-- A property that does not read what is at the paths or below. -/
def Stable (paths : List Path) (P : Json → Prop) : Prop :=
  ∀ j j', SameExcept paths j j' → P j → P j'

theorem Stable.mono {paths paths' : List Path} {P : Json → Prop} (h : Stable paths' P)
    (hsub : paths ⊆ paths') : Stable paths P := fun j j' hsame => h j j' (hsame.mono hsub)

/-- A property of the heads at some paths, none of them at or below a path that is changed. -/
theorem stable_of_heads {paths : List Path} {P : Json → Prop} (reads : List Path)
    (hreads : ∀ p ∈ paths, ∀ r ∈ reads, ¬ p <+: r)
    (hP : ∀ j j', (∀ r ∈ reads, headAt r j = headAt r j') → P j → P j') : Stable paths P :=
  fun j j' hsame => hP j j' fun r hr => hsame r fun p hp => hreads p hp r hr

theorem stable_isObjectAt {paths : List Path} {path : Path} (h : ∀ p ∈ paths, ¬ p <+: path) :
    Stable paths (IsObjectAt path) := by
  refine stable_of_heads [path] (by simpa using h) fun j j' hheads hobject => ?_
  exact (hheads path List.mem_cons_self).symm.trans hobject

theorem stable_there {paths : List Path} {path : Path} (h : ∀ p ∈ paths, ¬ p <+: path) :
    Stable paths fun j => headAt path j ≠ none := by
  refine stable_of_heads [path] (by simpa using h) fun j j' hheads hthere => ?_
  rwa [← hheads path List.mem_cons_self]

theorem stable_notPlaceholder {paths : List Path} {path : Path} (h : ∀ p ∈ paths, ¬ p <+: path) :
    Stable paths fun j => valueAt path j ≠ some replaceMe := fun _ _ hsame hsettled hplace =>
  hsettled ((hsame.str_iff h).mpr hplace)

theorem stable_notPlaceholders {paths places : List Path}
    (h : ∀ p ∈ paths, ∀ path ∈ places, ¬ p <+: path) :
    Stable paths fun j => ∀ path ∈ places, valueAt path j ≠ some replaceMe :=
  fun j j' hsame hj path hpath =>
    stable_notPlaceholder (fun p hp => h p hp path hpath) j j' hsame (hj path hpath)

theorem stable_and {paths : List Path} {P Q : Json → Prop} (hP : Stable paths P)
    (hQ : Stable paths Q) : Stable paths fun j => P j ∧ Q j :=
  fun j j' hsame hj => ⟨hP j j' hsame hj.1, hQ j j' hsame hj.2⟩

theorem Amends.weaken {valid valid' : Json → Prop} {run : Str → Json → Except PyError Json}
    {paths : List Path} {settled settled' : Json → Prop} (h : Amends valid run paths settled)
    (hvalid : ∀ j, valid' j → valid j) (hsettled : ∀ j, settled j ↔ settled' j) :
    Amends valid' run paths settled' where
  first created j hj := by
    obtain ⟨j', hrun, hsame, hdone⟩ := h.first created j (hvalid j hj)
    exact ⟨j', hrun, hsame, (hsettled j').mp hdone⟩
  again created j hj hdone := h.again created j (hvalid j hj) ((hsettled j).mpr hdone)

theorem Amends.andThen {valid : Json → Prop} {run run' : Str → Json → Except PyError Json}
    {paths paths' : List Path} {settled settled' : Json → Prop}
    (h : Amends valid run paths settled) (h' : Amends valid run' paths' settled')
    (hvalid : Stable paths valid) (hvalid' : Stable [issuanceDatePath] valid)
    (hsettled : Stable paths' settled) (hsettled' : Stable [issuanceDatePath] settled') :
    Amends valid (fun created j => run created j >>= run' created) (paths ++ paths')
      fun j => settled j ∧ settled' j where
  first created j hj := by
    obtain ⟨j₁, hrun, hsame, hdone⟩ := h.first created j hj
    obtain ⟨j₂, hrun', hsame', hdone'⟩ := h'.first created j₁ (hvalid j j₁ hsame hj)
    exact ⟨j₂, by rw [hrun]; exact hrun', hsame.trans hsame', hsettled j₁ j₂ hsame' hdone, hdone'⟩
  again created j hj hdone := by
    obtain ⟨j₁, hrun, hsame⟩ := h.again created j hj hdone.1
    obtain ⟨j₂, hrun', hsame'⟩ := h'.again created j₁ (hvalid' j j₁ hsame hj)
      (hsettled' j j₁ hsame hdone.2)
    exact ⟨j₂, by rw [hrun]; exact hrun', (hsame.trans hsame').mono (by simp)⟩

theorem ifPresent_eq (format : Str) (run : Json → Except PyError Json) {j : Json}
    (hj : IsObjectAt [] j) : (do
      if ← j.contains format then run j else pure j : Except PyError Json) =
        if headAt [format] j = none then .ok j else run j := by
  obtain ⟨ms, hms⟩ := isObjectAt_iff.mp hj
  obtain rfl := Option.some.inj hms
  have hlookup : headAt [format] (.obj ms) = (lookup format ms).map head := by
    rw [headAt_cons]
    cases lookup format ms <;> rfl
  rw [hlookup]
  simp only [Json.contains]
  cases lookup format ms <;> rfl

/-- A step that is made only for a format that is there. -/
theorem Amends.ifPresent (format : Str) {valid valid' : Json → Prop}
    {run : Str → Json → Except PyError Json} {paths : List Path} {settled : Json → Prop}
    (h : Amends valid run paths settled) (hobject : ∀ j, valid' j → IsObjectAt [] j)
    (hvalid : ∀ j, valid' j → headAt [format] j ≠ none → valid j)
    (hsettled : ∀ j, headAt [format] j = none → settled j) :
    Amends valid' (fun created j => do
      if ← j.contains format then run created j else pure j) paths settled := by
  constructor
  · intro created j hj
    rw [ifPresent_eq format (run created) (hobject j hj)]
    by_cases hnone : headAt [format] j = none
    · rw [if_pos hnone]
      exact ⟨j, rfl, .refl _ _, hsettled j hnone⟩
    · rw [if_neg hnone]
      exact h.first created j (hvalid j hj hnone)
  · intro created j hj hdone
    rw [ifPresent_eq format (run created) (hobject j hj)]
    by_cases hnone : headAt [format] j = none
    · rw [if_pos hnone]
      exact ⟨j, rfl, .refl _ _⟩
    · rw [if_neg hnone]
      exact h.again created j (hvalid j hj hnone) hdone

/-! The steps. -/

theorem getAt_of_valueAt {path : Path} {j v : Json} (h : valueAt path j = some v) :
    getAt path j = .ok v := by
  induction path generalizing j with
  | nil =>
    obtain rfl := Option.some.inj h
    rfl
  | cons key path ih =>
    cases j with
    | obj ms =>
      rw [valueAt] at h
      obtain ⟨inner, hinner, h⟩ := Option.bind_eq_some_iff.mp h
      have hget : (Json.obj ms).get key = .ok inner := by rw [Json.get, hinner, Option.getD_some]
      rw [getAt, List.foldlM_cons, hget]
      exact ih h
    | _ => cases h

/-- A step that puts a value in the place of a placeholder. -/
theorem amends_place (path : Path) (field : Str) {valid : Json → Prop}
    {run : Json → Except PyError Json} {value : Json} (hvalue : value ≠ replaceMe)
    (hrun : ∀ j, valid j → run j = if valueAt (path ++ [field]) j = some replaceMe then
      setItem path field value j else .ok j) :
    Amends valid (fun _ => run) [path ++ [field]]
      fun j => valueAt (path ++ [field]) j ≠ some replaceMe where
  first _ j hj := by
    rw [hrun j hj]
    split
    · next hplace =>
      obtain ⟨j', hset, hsame, hvalueAt⟩ :=
        setItem_eq_ok (isObjectAt_of_valueAt_concat hplace) field value
      exact ⟨j', hset, hsame, by rw [hvalueAt]; simpa using hvalue⟩
    · next hplace => exact ⟨j, rfl, .refl _ _, hplace⟩
  again _ j hj hdone := ⟨j, by rw [hrun j hj, if_neg hdone], .refl _ _⟩

theorem amends_replaceId {format field : Str} {value : Except PyError Json} {v : Json}
    (hvalue : value = .ok v) (hv : v ≠ replaceMe) :
    Amends (IsObjectAt [format]) (fun _ => replaceId format field value) [[format, field]]
      fun j => valueAt [format, field] j ≠ some replaceMe := by
  refine amends_place [format] field hv fun j hj => ?_
  obtain ⟨ms, hms⟩ := isObjectAt_iff.mp hj
  have hitem : j.item format = .ok (.obj ms) := by
    cases j with
    | obj ns =>
      rw [valueAt] at hms
      obtain ⟨inner, hinner, h⟩ := Option.bind_eq_some_iff.mp hms
      obtain rfl := Option.some.inj h
      exact Json.item_of_lookup hinner
    | _ => cases hms
  rw [valueAt_concat hms, replaceId, hitem, hvalue]
  simp only [bind, Except.bind, Json.contains, Json.item]
  cases hlookup : lookup field ms with
  | none => rfl
  | some given =>
    simp only [Option.isSome_some, if_true, Option.some.injEq]
    rfl

theorem amends_proofType {proofType : Json} (hproof : proofType ≠ replaceMe) :
    Amends (IsObjectAt optionsPath) (fun _ => amendProofType proofType) [proofTypePath]
      fun j => valueAt proofTypePath j ≠ some replaceMe := by
  refine amends_place optionsPath "proofType" hproof fun j hj => ?_
  obtain ⟨ms, hms⟩ := isObjectAt_iff.mp hj
  rw [valueAt_concat hms, amendProofType, getAt_of_valueAt hms]
  simp only [bind, Except.bind, Json.get]
  cases hlookup : lookup ("proofType" : Str) ms with
  | none => rfl
  | some given =>
    simp only [Option.getD_some, Option.some.injEq]
    rfl

/-- An issuer that is an object has a place for the DID. -/
theorem amends_issuer {did : Json} (hdid : did ≠ replaceMe) :
    Amends (fun j => IsObjectAt credentialPath j ∧
        (headAt issuerPath j = none ∨ IsObjectAt issuerPath j))
      (fun _ => amendIssuer did) [issuerIdPath]
      fun j => valueAt issuerIdPath j ≠ some replaceMe := by
  refine amends_place issuerPath "id" hdid fun j hj => ?_
  obtain ⟨ms, hms⟩ := isObjectAt_iff.mp hj.1
  have hissuer : valueAt issuerPath j = lookup ("issuer" : Str) ms := valueAt_concat hms
  rw [amendIssuer, getAt_of_valueAt hms]
  simp only [bind, Except.bind, Json.contains, Json.get]
  rcases hj.2 with hnone | hobject
  · rw [valueAt_append_of_absent hnone, ← hissuer, headAt_eq_none.mp hnone]
    rfl
  · obtain ⟨ns, hns⟩ := isObjectAt_iff.mp hobject
    rw [valueAt_concat hns, ← hissuer, hns]
    simp only [Option.isSome_some, if_true, Option.getD_some, reduceCtorEq, if_false]
    cases hlookup : lookup ("id" : Str) ns with
    | none => rfl
    | some given =>
      simp only [Option.getD_some, Option.some.injEq]
      rfl

/-- The date is put in whatever it was. -/
theorem amends_issuanceDate : Amends (IsObjectAt credentialPath) amendIssuanceDate
    [issuanceDatePath] fun _ => True := by
  have hdate : ∀ created j, IsObjectAt credentialPath j →
      ∃ j', amendIssuanceDate created j = .ok j' ∧ SameExcept [issuanceDatePath] j j' := by
    intro created j hj
    obtain ⟨ms, hms⟩ := isObjectAt_iff.mp hj
    rw [amendIssuanceDate, getAt_of_valueAt hms]
    simp only [bind, Except.bind, Json.contains]
    cases lookup ("issuanceDate" : Str) ms with
    | none => exact ⟨j, rfl, .refl _ _⟩
    | some given =>
      obtain ⟨j', hset, hsame, -⟩ := setItem_eq_ok hj "issuanceDate"
        (.str (created ++ ("Z" : Str)))
      exact ⟨j', hset, hsame⟩
  constructor
  · intro created j hj
    obtain ⟨j', hrun, hsame⟩ := hdate created j hj
    exact ⟨j', hrun, hsame, trivial⟩
  · exact fun created j hj _ => hdate created j hj

/-- Either no id is asked for, or the subject has one, or there is none. -/
def HasSubjectId (didForId j : Json) : Prop :=
  didForId.truthy = true → headAt subjectPath j ≠ none → headAt subjectIdPath j ≠ none

theorem amendSubject_eq {didForId j : Json} (hj : IsObjectAt credentialPath j)
    (hsubject : headAt subjectPath j = none ∨ IsObjectAt subjectPath j) :
    amendSubject didForId j = if didForId.truthy = true ∧ headAt subjectPath j ≠ none ∧
      headAt subjectIdPath j = none then setItem subjectPath "id" didForId j else .ok j := by
  obtain ⟨ms, hms⟩ := isObjectAt_iff.mp hj
  have hlookup : valueAt subjectPath j = lookup ("credentialSubject" : Str) ms := valueAt_concat hms
  rw [amendSubject, getAt_of_valueAt hms]
  cases didForId.truthy with
  | false => rfl
  | true =>
    simp only [if_true, bind, Except.bind, Json.contains]
    rcases hsubject with hnone | hobject
    · rw [← hlookup, headAt_eq_none.mp hnone]
      exact (if_neg fun h => h.2.1 hnone).symm
    · obtain ⟨ns, hns⟩ := isObjectAt_iff.mp hobject
      have hid : valueAt subjectIdPath j = lookup ("id" : Str) ns := valueAt_concat hns
      have hitem : (Json.obj ms).item "credentialSubject" = .ok (.obj ns) :=
        Json.item_of_lookup (hlookup.symm.trans hns)
      have hthere : headAt subjectPath j ≠ none := by
        rw [headAt, hns]
        simp
      rw [← hlookup, hns, hitem]
      simp only [Option.isSome_some, if_true]
      cases hlookupId : lookup ("id" : Str) ns with
      | none =>
        have hnone := headAt_eq_none.mpr (hid.trans hlookupId)
        exact (if_pos ⟨trivial, hthere, hnone⟩).symm
      | some given =>
        have hsome : headAt subjectIdPath j ≠ none := by
          rw [headAt, hid, hlookupId]
          simp
        exact (if_neg fun h => hsome h.2.2).symm

theorem amends_subject (didForId : Json) :
    Amends (fun j => IsObjectAt credentialPath j ∧
        (headAt subjectPath j = none ∨ IsObjectAt subjectPath j))
      (fun _ => amendSubject didForId) [subjectIdPath] (HasSubjectId didForId) where
  first _ j hj := by
    rw [amendSubject_eq hj.1 hj.2]
    split
    · next h =>
      have hobject : IsObjectAt subjectPath j := hj.2.resolve_left h.2.1
      obtain ⟨j', hset, hsame, hvalue⟩ := setItem_eq_ok hobject "id" didForId
      refine ⟨j', hset, hsame, fun _ _ hnone => ?_⟩
      rw [headAt_eq_none] at hnone
      cases hvalue.symm.trans hnone
    · next h =>
      refine ⟨j, rfl, .refl _ _, fun htrue hthere hnone => h ⟨htrue, hthere, hnone⟩⟩
  again _ j hj hdone := by
    rw [amendSubject_eq hj.1 hj.2, if_neg fun h => hdone h.1 h.2.1 h.2.2]
    exact ⟨j, rfl, .refl _ _⟩

theorem amends_subject_with_id (didForId : Json) {valid : Json → Prop}
    (hvalid : ∀ j, valid j → IsObjectAt credentialPath j ∧
      (headAt subjectPath j = none ∨ IsObjectAt subjectPath j) ∧ headAt subjectIdPath j ≠ none) :
    Amends valid (fun _ => amendSubject didForId) [] (HasSubjectId didForId) := by
  have hrun : ∀ j, valid j → amendSubject didForId j = .ok j := by
    intro j hj
    obtain ⟨hcredential, hsubject, hid⟩ := hvalid j hj
    rw [amendSubject_eq hcredential hsubject, if_neg fun h => hid h.2.2]
  constructor
  · exact fun _ j hj => ⟨j, hrun j hj, .refl _ _, fun _ _ => (hvalid j hj).2.2⟩
  · exact fun _ j hj _ => ⟨j, hrun j hj, .refl _ _⟩

/-! All steps. -/

section Steps

variable (context : Prepared) (didForId : Json)

theorem itemOf_did : itemOf context.issuerDidDict (.str context.name) = .ok (.str context.did) :=
  itemOf_str context.hasDid

theorem itemOf_credDefId : (itemOf context.issuerCredentialDefinitionDict (.str context.name) >>=
    fun definition => definition.item "id") = .ok (.str context.credDefId) := by
  obtain ⟨definition, hlookup, hid⟩ := context.hasCredDefId
  rw [itemOf_str hlookup]
  exact hid

theorem itemOf_schemaId : (itemOf context.issuerSchemaDict (.str context.name) >>=
    fun schema => schema.item "id") = .ok (.str context.schemaId) := by
  obtain ⟨schema, hlookup, hid⟩ := context.hasSchemaId
  rw [itemOf_str hlookup]
  exact hid

theorem not_above_of_not_mem {format field : Str} {fields : List Str} (h : field ∉ fields) :
    ∀ p ∈ fields.map fun other => [format, other], ¬ p <+: [format, field] := by
  intro p hp hprefix
  obtain ⟨other, hother, rfl⟩ := List.mem_map.mp hp
  obtain ⟨-, hprefix⟩ := List.cons_prefix_cons.mp hprefix
  obtain ⟨rfl, -⟩ := List.cons_prefix_cons.mp hprefix
  exact h hother

/-- An id is replaced in front of others, each in its own place. -/
theorem amends_replaceId_cons {format field : Str} {fields : List Str} {value : Except PyError Json}
    {v : Json} {others : Json → Except PyError Json} (hvalue : value = .ok v) (hv : v ≠ replaceMe)
    (hnot : field ∉ fields)
    (hothers : Amends (IsObjectAt [format]) (fun _ => others)
      (fields.map fun other => [format, other])
      fun j => ∀ path ∈ fields.map fun other => [format, other], valueAt path j ≠ some replaceMe) :
    Amends (IsObjectAt [format]) (fun _ j => replaceId format field value j >>= others)
      ((field :: fields).map fun other => [format, other])
      fun j => ∀ path ∈ (field :: fields).map fun other => [format, other],
        valueAt path j ≠ some replaceMe := by
  have hobject : Stable [[format, field]] (IsObjectAt [format]) := stable_isObjectAt (by simp)
  have hdatedObject : Stable [issuanceDatePath] (IsObjectAt [format]) :=
    stable_isObjectAt (by simp)
  have hkept : Stable (fields.map fun other => [format, other])
      fun j => valueAt [format, field] j ≠ some replaceMe :=
    stable_notPlaceholder (not_above_of_not_mem hnot)
  have hdated : Stable [issuanceDatePath] fun j => ∀ path ∈ fields.map fun other => [format, other],
      valueAt path j ≠ some replaceMe := stable_notPlaceholders (by simp)
  refine ((amends_replaceId hvalue hv).andThen hothers hobject hdatedObject hkept hdated).weaken
    (fun _ h => h) fun j => ?_
  rw [List.map_cons, List.forall_mem_cons]

/-- The four ids are replaced one after the other. -/
theorem amends_ids (format : Str) :
    Amends (fun j => IsObjectAt [] j ∧ (headAt [format] j = none ∨ IsObjectAt [format] j))
      (fun _ => amendIds context.toContext (.str context.name) format) (idPaths format)
      fun j => ∀ path ∈ idPaths format, valueAt path j ≠ some replaceMe := by
  obtain ⟨hdid, hcredDefId, hschemaId, -⟩ : Json.str context.did ≠ replaceMe ∧
      Json.str context.credDefId ≠ replaceMe ∧ Json.str context.schemaId ≠ replaceMe ∧
      Json.str context.proof ≠ replaceMe := by simpa using context.known
  have hlast := (@amends_replaceId format "schema_id" _ _ (itemOf_schemaId context)
    hschemaId).weaken (fun _ h => h) fun j => (List.forall_mem_singleton
      (p := fun path => valueAt path j ≠ some replaceMe)).symm
  have hcredDef := @amends_replaceId_cons format "cred_def_id" ["schema_id"] _ _ _
    (itemOf_credDefId context) hcredDefId (by decide) hlast
  have hissuer := @amends_replaceId_cons format "issuer_did" ["cred_def_id", "schema_id"] _ _ _
    (itemOf_did context) hdid (by decide) hcredDef
  have hall := @amends_replaceId_cons format "schema_issuer_did"
    ["issuer_did", "cred_def_id", "schema_id"] _ _ _ (itemOf_did context) hdid (by decide) hissuer
  have habsent : ∀ j, headAt [format] j = none → ∀ path ∈ idPaths format,
      valueAt path j ≠ some replaceMe := by
    intro j hnone path hpath
    obtain ⟨field, -, rfl⟩ := List.mem_map.mp hpath
    rw [show [format, field] = [format] ++ [field] from rfl, valueAt_append_of_absent hnone]
    simp
  exact hall.ifPresent format (fun j hj => hj.1) (fun j hj hsome => hj.2.resolve_left hsome)
    habsent

theorem amendJsonLd_eq (created : Str) (j : Json) :
    amendJsonLd context.toContext (.str context.name) didForId created j = (do
      if ← j.contains "json-ld" then
        amendIssuer (.str context.did) j >>= fun j => amendProofType (.str context.proof) j >>=
          fun j => amendIssuanceDate created j >>= amendSubject didForId
      else pure j) := by
  unfold amendJsonLd
  rw [itemOf_did context, context.hasProof]
  rfl

theorem amendFilters_eq (created : Str) (j : Json) :
    amendFiltersWithRuntimeData context.toContext didForId created j =
      (amendIds context.toContext (.str context.name) "indy" j >>=
        amendIds context.toContext (.str context.name) "anoncreds") >>=
          amendJsonLd context.toContext (.str context.name) didForId created := by
  rw [amendFiltersWithRuntimeData, context.hasName]
  show (amendIds context.toContext (.str context.name) "indy" j >>= fun j => _) = _
  cases amendIds context.toContext (.str context.name) "indy" j <;> rfl

/-- The paths of linked data, without the subject's id. -/
def linkedPaths : List Path := [issuerIdPath, proofTypePath, issuanceDatePath]

def LinkedSettled (j : Json) : Prop :=
  valueAt issuerIdPath j ≠ some replaceMe ∧ valueAt proofTypePath j ≠ some replaceMe ∧ True ∧
    HasSubjectId didForId j

variable {didForId} in
theorem stable_hasSubjectId {paths : List Path}
    (h : ∀ p ∈ paths, ∀ r ∈ [subjectPath, subjectIdPath], ¬ p <+: r) :
    Stable paths (HasSubjectId didForId) := by
  refine stable_of_heads [subjectPath, subjectIdPath] h fun j j' hheads hdone => ?_
  rw [HasSubjectId, ← hheads subjectPath (by simp), ← hheads subjectIdPath (by simp)]
  exact hdone

/-- The steps on both formats of ids. -/
theorem amends_bothIds {valid : Json → Prop} (hvalid : ∀ j, valid j → IsFilters j)
    (hstable : Stable (idPaths "indy" ++ idPaths "anoncreds" ++ [issuanceDatePath]) valid) :
    Amends valid (fun _ j => amendIds context.toContext (.str context.name) "indy" j >>=
        amendIds context.toContext (.str context.name) "anoncreds")
      (idPaths "indy" ++ idPaths "anoncreds")
      fun j => (∀ path ∈ idPaths "indy", valueAt path j ≠ some replaceMe) ∧
        ∀ path ∈ idPaths "anoncreds", valueAt path j ≠ some replaceMe := by
  have hids : ∀ format ∈ [("indy" : Str), "anoncreds"], ∀ j, valid j →
      IsObjectAt [] j ∧ (headAt [format] j = none ∨ IsObjectAt [format] j) :=
    fun format hformat j hj => ⟨(hvalid j hj).object, (hvalid j hj).ids format hformat⟩
  have hindy := (amends_ids context "indy").weaken (hids _ (by simp)) fun _ => Iff.rfl
  have hanoncreds := (amends_ids context "anoncreds").weaken (hids _ (by simp)) fun _ => Iff.rfl
  exact hindy.andThen hanoncreds (hstable.mono (by simp)) (hstable.mono (by simp))
    (stable_notPlaceholders (by decide +kernel)) (stable_notPlaceholders (by decide +kernel))

section Linked

variable {didForId} {valid : Json → Prop} {subjectPaths : List Path}
  (hsubjectPaths : subjectPaths ⊆ [subjectIdPath])
include hsubjectPaths

theorem append_subjectPaths (paths : List Path) :
    paths ++ subjectPaths ⊆ paths ++ [subjectIdPath] :=
  List.append_subset.mpr ⟨List.subset_append_left _ _,
    List.Subset.trans hsubjectPaths (List.subset_append_right _ _)⟩

/-- The steps on linked data behind the one on the issuer. -/
theorem amends_rest (hvalid : ∀ j, valid j → IsObjectAt credentialPath j ∧ IsObjectAt optionsPath j)
    (hstable : Stable [proofTypePath, issuanceDatePath] valid)
    (hsubject : Amends valid (fun _ => amendSubject didForId) subjectPaths
      (HasSubjectId didForId)) :
    Amends valid (fun created j => amendProofType (.str context.proof) j >>= fun j =>
        amendIssuanceDate created j >>= amendSubject didForId)
      ([proofTypePath] ++ ([issuanceDatePath] ++ subjectPaths))
      fun j => valueAt proofTypePath j ≠ some replaceMe ∧ True ∧ HasSubjectId didForId j := by
  have hproof : Json.str context.proof ≠ replaceMe := context.known _ (by simp)
  have hdateKept : Stable [issuanceDatePath] valid := hstable.mono (by simp)
  have hsubjectDone : Stable [issuanceDatePath] (HasSubjectId didForId) :=
    stable_hasSubjectId (by decide +kernel)
  have hproofDone : Stable ([issuanceDatePath] ++ [subjectIdPath])
      fun j => valueAt proofTypePath j ≠ some replaceMe := stable_notPlaceholder (by decide +kernel)
  have hdate := (amends_issuanceDate.weaken (fun j hj => (hvalid j hj).1) fun _ => Iff.rfl).andThen
    hsubject hdateKept hdateKept (fun _ _ _ _ => trivial) hsubjectDone
  exact ((amends_proofType hproof).weaken (fun j hj => (hvalid j hj).2) fun _ => Iff.rfl).andThen
    hdate (hstable.mono (by simp)) hdateKept
    (hproofDone.mono (append_subjectPaths hsubjectPaths _))
    (stable_and (fun _ _ _ _ => trivial) hsubjectDone)

/-- No placeholder is left, and the subject has its id. -/
def Settled (didForId j : Json) : Prop :=
  ((∀ path ∈ idPaths "indy", valueAt path j ≠ some replaceMe) ∧
    ∀ path ∈ idPaths "anoncreds", valueAt path j ≠ some replaceMe) ∧ LinkedSettled didForId j

variable (hvalid : ∀ j, valid j → IsFilters j ∧
    (headAt issuerPath j = none ∨ IsObjectAt issuerPath j))
  (hstable : Stable (idPaths "indy" ++ idPaths "anoncreds" ++ linkedPaths ++ subjectPaths) valid)
  (hsubject : Amends (fun j => valid j ∧ headAt ["json-ld"] j ≠ none)
    (fun _ => amendSubject didForId) subjectPaths (HasSubjectId didForId))
include hvalid hstable hsubject

theorem amends_jsonLd : Amends valid
    (amendJsonLd context.toContext (.str context.name) didForId) (linkedPaths ++ subjectPaths)
    (LinkedSettled didForId) := by
  have hdid : Json.str context.did ≠ replaceMe := context.known _ (by simp)
  have hlinked : ∀ j, valid j ∧ headAt ["json-ld"] j ≠ none →
      IsObjectAt credentialPath j ∧ IsObjectAt optionsPath j := fun j hj =>
    (hvalid j hj.1).1.jsonLd.resolve_left hj.2
  have hthere : Stable linkedPaths fun j => headAt ["json-ld"] j ≠ none :=
    stable_there (by decide +kernel)
  have hkept : Stable linkedPaths fun j => valid j ∧ headAt ["json-ld"] j ≠ none :=
    stable_and (hstable.mono fun p hp => by simp [hp]) hthere
  have hissuerDone : Stable ([proofTypePath, issuanceDatePath] ++ [subjectIdPath])
      fun j => valueAt issuerIdPath j ≠ some replaceMe := stable_notPlaceholder (by decide +kernel)
  have hproofDone : Stable [issuanceDatePath] fun j => valueAt proofTypePath j ≠ some replaceMe :=
    stable_notPlaceholder (by decide +kernel)
  have hsubjectDone : Stable [issuanceDatePath] (HasSubjectId didForId) :=
    stable_hasSubjectId (by decide +kernel)
  have hrest := amends_rest context hsubjectPaths hlinked (hkept.mono (by simp [linkedPaths]))
    hsubject
  have hall := ((amends_issuer hdid).weaken (fun j hj => ⟨(hlinked j hj).1, (hvalid j hj.1).2⟩)
    fun _ => Iff.rfl).andThen hrest (hkept.mono (by simp [linkedPaths]))
    (hkept.mono (by simp [linkedPaths]))
    (hissuerDone.mono (append_subjectPaths hsubjectPaths [proofTypePath, issuanceDatePath]))
    (stable_and hproofDone (stable_and (fun _ _ _ _ => trivial) hsubjectDone))
  have habsent : ∀ j, headAt ["json-ld"] j = none → LinkedSettled didForId j := by
    intro j hnone
    have hbehind := fun rest => valueAt_append_of_absent hnone rest
    refine ⟨?_, ?_, trivial, fun _ hsubject => absurd (headAt_eq_none.mpr ?_) hsubject⟩
    · rw [show valueAt issuerIdPath j = none from hbehind ["credential", "issuer", "id"]]
      simp
    · rw [show valueAt proofTypePath j = none from hbehind ["options", "proofType"]]
      simp
    · exact hbehind ["credential", "credentialSubject"]
  rw [funext₂ (amendJsonLd_eq context didForId)]
  exact hall.ifPresent "json-ld" (fun j hj => (hvalid j hj).1.object)
    (fun j hj hsome => ⟨hj, hsome⟩) habsent

theorem amends_filters : Amends valid (amendFiltersWithRuntimeData context.toContext didForId)
    ((idPaths "indy" ++ idPaths "anoncreds") ++ (linkedPaths ++ subjectPaths))
    (Settled didForId) := by
  have hidsDone : ∀ {paths}, paths ⊆ linkedPaths ++ [subjectIdPath] → Stable paths fun j =>
      (∀ path ∈ idPaths "indy", valueAt path j ≠ some replaceMe) ∧
        ∀ path ∈ idPaths "anoncreds", valueAt path j ≠ some replaceMe := fun hsub =>
    stable_and ((stable_notPlaceholders (by decide +kernel)).mono hsub)
      ((stable_notPlaceholders (by decide +kernel)).mono hsub)
  have hlinkedDone : Stable [issuanceDatePath] (LinkedSettled didForId) :=
    stable_and (stable_notPlaceholder (by decide +kernel)) (stable_and
      (stable_notPlaceholder (by decide +kernel)) (stable_and (fun _ _ _ _ => trivial)
        (stable_hasSubjectId (by decide +kernel))))
  have hboth := amends_bothIds context (fun j hj => (hvalid j hj).1)
    (hstable.mono (by simp [linkedPaths]))
  have hall := hboth.andThen (amends_jsonLd context hsubjectPaths hvalid hstable hsubject)
    (hstable.mono (by simp)) (hstable.mono (by simp [linkedPaths]))
    (hidsDone (append_subjectPaths hsubjectPaths _)) hlinkedDone
  rw [funext₂ (amendFilters_eq context didForId)]
  exact hall

end Linked

/-! Issuers. -/

/-- The paths whose heads tell whether filters are well formed. -/
def formPaths : List Path :=
  [[], ["indy"], ["anoncreds"], ["json-ld"], credentialPath, optionsPath, subjectPath]

theorem stable_isFilters {paths : List Path} (h : ∀ p ∈ paths, ∀ r ∈ formPaths, ¬ p <+: r) :
    Stable paths IsFilters := by
  refine stable_of_heads formPaths h fun j j' hheads hj => ?_
  have hids : ∀ format ∈ [("indy" : Str), "anoncreds"], [format] ∈ formPaths := by decide +kernel
  constructor
  · rw [IsObjectAt, ← hheads [] (by decide +kernel)]
    exact hj.object
  · intro format hformat
    rw [IsObjectAt, ← hheads [format] (hids format hformat)]
    exact hj.ids format hformat
  · rw [IsObjectAt, IsObjectAt, ← hheads ["json-ld"] (by decide +kernel),
      ← hheads credentialPath (by decide +kernel), ← hheads optionsPath (by decide +kernel)]
    exact hj.jsonLd
  · rw [IsObjectAt, ← hheads subjectPath (by decide +kernel)]
    exact hj.subject

theorem credential_of_issuer {j issuer : Json} (h : valueAt issuerPath j = some issuer) :
    ∃ ms, valueAt credentialPath j = some (.obj ms) ∧
      lookup ("issuer" : Str) ms = some issuer := by
  have hobject : IsObjectAt credentialPath j :=
    isObjectAt_of_valueAt_concat (show valueAt (credentialPath ++ [("issuer" : Str)]) j = _ from h)
  obtain ⟨ms, hms⟩ := isObjectAt_iff.mp hobject
  exact ⟨ms, hms, (valueAt_concat hms).symm.trans h⟩

theorem jsonLd_of_issuer {j issuer : Json} (h : valueAt issuerPath j = some issuer) :
    headAt ["json-ld"] j ≠ none := fun hnone => by
  cases (valueAt_append_of_absent hnone ["credential", "issuer"]).symm.trans h

theorem amendIssuer_text {did j : Json} {s : Str} (hs : Json.str s ≠ replaceMe)
    (h : valueAt issuerPath j = some (.str s)) : amendIssuer did j = .error .attributeError := by
  obtain ⟨ms, hms, hissuer⟩ := credential_of_issuer h
  rw [amendIssuer, getAt_of_valueAt hms]
  simp only [bind, Except.bind, Json.contains, Json.get, hissuer, Option.isSome_some, if_true,
    Option.getD_some, hs, if_false]

theorem amendIssuer_placeholder (did : Json) {j : Json}
    (h : valueAt issuerPath j = some replaceMe) :
    ∃ j', amendIssuer did j = .ok j' ∧ SameExcept [issuerPath] j j' ∧
      valueAt issuerPath j' = some did := by
  obtain ⟨ms, hms, hissuer⟩ := credential_of_issuer h
  obtain ⟨j', hset, hsame, hvalue⟩ := setItem_eq_ok (isObjectAt_iff.mpr ⟨ms, hms⟩) "issuer" did
  refine ⟨j', ?_, hsame, hvalue⟩
  rw [amendIssuer, getAt_of_valueAt hms]
  simp only [bind, Except.bind, Json.contains, Json.get, hissuer, Option.isSome_some, if_true,
    Option.getD_some]
  exact hset

/-- An issuer that is a text is not touched before its step. -/
theorem amendFilters_of_text {j : Json} {s : Str} (hj : IsFilters j)
    (h : valueAt issuerPath j = some (.str s)) (created : Str) :
    ∃ j', IsFilters j' ∧ valueAt issuerPath j' = some (.str s) ∧
      amendFiltersWithRuntimeData context.toContext didForId created j =
        amendIssuer (.str context.did) j' >>= fun j => amendProofType (.str context.proof) j >>=
          fun j => amendIssuanceDate created j >>= amendSubject didForId := by
  have hboth := amends_bothIds context (fun _ hj => hj) (stable_isFilters (by decide +kernel))
  obtain ⟨j', hrun, hsame, -⟩ := hboth.first created j hj
  have hj' : IsFilters j' := stable_isFilters (by decide +kernel) j j' hsame hj
  have hissuer : valueAt issuerPath j' = some (.str s) :=
    (hsame.str_iff (by decide +kernel)).mp h
  refine ⟨j', hj', hissuer, ?_⟩
  rw [amendFilters_eq, hrun]
  refine (amendJsonLd_eq context didForId created j').trans ?_
  rw [ifPresent_eq "json-ld" (fun j => amendIssuer (.str context.did) j >>= fun j =>
    amendProofType (.str context.proof) j >>= fun j => amendIssuanceDate created j >>=
      amendSubject didForId) hj'.object, if_neg (jsonLd_of_issuer hissuer)]

/-- A DID is taken for an object. -/
theorem amend_text {j : Json} {s : Str} (hj : IsFilters j) (hs : Json.str s ≠ replaceMe)
    (h : valueAt issuerPath j = some (.str s)) (created : Str) :
    amendFiltersWithRuntimeData context.toContext didForId created j = .error .attributeError := by
  obtain ⟨j', -, hissuer, hrun⟩ := amendFilters_of_text context didForId hj h created
  rw [hrun, amendIssuer_text hs hissuer]
  rfl

/-- The placeholder is replaced by a DID. -/
theorem amend_placeholder {j : Json} (hj : IsFilters j)
    (h : valueAt issuerPath j = some replaceMe) (created : Str) :
    ∃ j', amendFiltersWithRuntimeData context.toContext didForId created j = .ok j' ∧
      IsFilters j' ∧ valueAt issuerPath j' = some (.str context.did) := by
  obtain ⟨j₁, hj₁, hissuer, hrun⟩ := amendFilters_of_text context didForId hj h created
  obtain ⟨j₂, hput, hsame, hdid⟩ := amendIssuer_placeholder (.str context.did) hissuer
  have hj₂ : IsFilters j₂ := stable_isFilters (by decide +kernel) j₁ j₂ hsame hj₁
  have hlinked : ∀ j, IsFilters j ∧ headAt ["json-ld"] j ≠ none →
      IsObjectAt credentialPath j ∧ IsObjectAt optionsPath j := fun j hj =>
    hj.1.jsonLd.resolve_left hj.2
  have hkept : Stable [proofTypePath, issuanceDatePath]
      fun j => IsFilters j ∧ headAt ["json-ld"] j ≠ none :=
    stable_and (stable_isFilters (by decide +kernel)) (stable_there (by decide +kernel))
  have hrest := amends_rest context (List.Subset.refl [subjectIdPath]) hlinked hkept
    ((amends_subject didForId).weaken (fun j hj => ⟨(hlinked j hj).1, hj.1.subject⟩)
      fun _ => Iff.rfl)
  obtain ⟨j₃, hdone, hsame', -⟩ := hrest.first created j₂ ⟨hj₂, jsonLd_of_issuer hdid⟩
  refine ⟨j₃, ?_, stable_isFilters (by decide +kernel) j₂ j₃ hsame' hj₂,
    (hsame'.str_iff (by decide +kernel)).mp hdid⟩
  rw [hrun, hput]
  exact hdone

/-- Filters with an issuer that is an object, or without one. -/
def IsPlain (j : Json) : Prop :=
  IsFilters j ∧ (headAt issuerPath j = none ∨ IsObjectAt issuerPath j)

theorem stable_isPlain {paths : List Path}
    (h : ∀ p ∈ paths, ∀ r ∈ issuerPath :: formPaths, ¬ p <+: r) : Stable paths IsPlain := by
  refine stable_and (stable_isFilters fun p hp r hr => h p hp r (List.mem_cons_of_mem _ hr)) ?_
  refine stable_of_heads [issuerPath] (fun p hp r hr => ?_) fun j j' hheads hj => ?_
  · exact h p hp r (List.mem_singleton.mp hr ▸ List.mem_cons_self)
  · rwa [IsObjectAt, ← hheads issuerPath List.mem_cons_self]

theorem not_text_of_isPlain {j : Json} {s : Str} (h : IsPlain j) :
    valueAt issuerPath j ≠ some (.str s) := by
  intro htext
  have hhead := headAt_eq_str.mpr htext
  rcases h.2 with hnone | hobject
  · cases hnone.symm.trans hhead
  · cases hobject.symm.trans hhead

theorem amended_of_amends {valid : Json → Prop} {subjectPaths : List Path} {filters : Json}
    (hvalid : ∀ j, valid j → IsPlain j)
    (hstable : Stable (idPaths "indy" ++ idPaths "anoncreds" ++ linkedPaths ++ subjectPaths) valid)
    (hsubjectPaths : subjectPaths ⊆ [subjectIdPath])
    (hsubject : Amends (fun j => valid j ∧ headAt ["json-ld"] j ≠ none)
      (fun _ => amendSubject didForId) subjectPaths (HasSubjectId didForId))
    (hchangeable : subjectPaths ⊆ changeable filters) (hfilters : valid filters)
    (created created' : Str) : Amended context.toContext didForId created created' filters := by
  have hamends := amends_filters context hsubjectPaths hvalid hstable hsubject
  obtain ⟨amended, hrun, hsame, hdone⟩ := hamends.first created filters hfilters
  have hkept : valid amended :=
    hstable.mono (by simp [List.append_assoc]) filters amended hsame hfilters
  obtain ⟨again, hrun', hsame'⟩ := hamends.again created' amended hkept hdone
  refine ⟨amended, hrun, ?_, hsame.mono ?_, again, hrun', hsame'⟩
  · obtain ⟨⟨hindy, hanoncreds⟩, hissuerId, hproofType, -⟩ := hdone
    have hissuer : valueAt issuerPath amended ≠ some replaceMe :=
      not_text_of_isPlain (hvalid amended hkept)
    have hlinked : ∀ path ∈ [issuerPath, issuerIdPath, proofTypePath],
        valueAt path amended ≠ some replaceMe := by
      simpa using ⟨hissuer, hissuerId, hproofType⟩
    exact List.forall_mem_append.mpr ⟨List.forall_mem_append.mpr ⟨hindy, hanoncreds⟩, hlinked⟩
  · have hlinked : linkedPaths ⊆ changeable filters := by
      simp [linkedPaths, changeable, placeholders]
    have hids : idPaths "indy" ++ idPaths "anoncreds" ⊆ changeable filters :=
      List.Subset.trans (List.subset_append_left _ _) (List.subset_append_left _ _)
    exact List.append_subset.mpr ⟨hids, List.append_subset.mpr ⟨hlinked, hchangeable⟩⟩

/-- Filters are amended, and amended again without a difference, exactly if the issuer is not given
as a text. -/
theorem filters_amended_iff (filters : Filters) (created created' : Str) :
    Amended context.toContext didForId created created' filters.json ↔
      ∀ s, valueAt issuerPath filters.json ≠ some (.str s) := by
  constructor
  · rintro ⟨amended, hrun, -, -, again, hrun', -⟩ s hissuer
    by_cases hs : Json.str s = replaceMe
    · rw [hs] at hissuer
      obtain ⟨j', hj', hok, hdid⟩ := amend_placeholder context didForId filters.isFilters hissuer
        created
      obtain rfl := Except.ok.inj (hrun.symm.trans hj')
      have hknown : Json.str context.did ≠ replaceMe := context.known _ (by simp)
      cases hrun'.symm.trans (amend_text context didForId hok hknown hdid created')
    · cases hrun.symm.trans (amend_text context didForId filters.isFilters hs hissuer created)
  · intro hnotText
    have hplain : IsPlain filters.json := by
      refine ⟨filters.isFilters, filters.issuer.imp_right fun h => ?_⟩
      exact h.resolve_right fun ⟨s, hs⟩ => hnotText s hs
    have hlinked : ∀ j, IsPlain j ∧ headAt ["json-ld"] j ≠ none → IsObjectAt credentialPath j :=
      fun j hj => (hj.1.1.jsonLd.resolve_left hj.2).1
    by_cases hid : valueAt subjectIdPath filters.json = none
    · refine @amended_of_amends context didForId IsPlain [subjectIdPath] _ (fun _ hj => hj)
        (stable_isPlain (by decide +kernel)) (List.Subset.refl _) ?_ ?_ hplain created created'
      · exact (amends_subject didForId).weaken (fun j hj => ⟨hlinked j hj, hj.1.1.subject⟩)
          fun _ => Iff.rfl
      · simp [changeable, hid]
    · -- the subject keeps the id that it has
      refine @amended_of_amends context didForId
        (fun j => IsPlain j ∧ headAt subjectIdPath j ≠ none) [] _ (fun _ hj => hj.1)
        (stable_and (stable_isPlain (by decide +kernel)) (stable_there (by decide +kernel)))
        (List.nil_subset _) ?_ (List.nil_subset _) ⟨hplain, fun hnone => hid
          (headAt_eq_none.mp hnone)⟩ created created'
      exact amends_subject_with_id didForId fun j hj =>
        ⟨hlinked j ⟨hj.1.1, hj.2⟩, hj.1.1.1.subject, hj.1.2⟩

end Steps

def citizenship : Prepared where
  anoncreds := .bool false
  schema := .obj [("schema_name", .str "Schema_Citizenship")]
  issuerDidDict := [("Schema_Citizenship", .str "did:key:z6Mk")]
  issuerCredentialDefinitionDict := [("Schema_Citizenship", .obj [("id", .str "V4SG:3:CL:1:t")])]
  issuerSchemaDict := [("Schema_Citizenship", .obj [("id", .str "V4SG:2:s:1.0")])]
  proofType := .str "Ed25519Signature2018"
  name := "Schema_Citizenship"
  did := "did:key:z6Mk"
  credDefId := "V4SG:3:CL:1:t"
  schemaId := "V4SG:2:s:1.0"
  proof := "Ed25519Signature2018"
  hasName := by decide +kernel
  hasDid := by decide +kernel
  hasCredDefId := ⟨_, rfl, by decide +kernel⟩
  hasSchemaId := ⟨_, rfl, by decide +kernel⟩
  hasProof := rfl
  known := by decide +kernel

def linkedDataFilters (issuer : Str) : Json :=
  .obj [("json-ld", .obj [("credential", .obj [("issuer", .str issuer)]),
    ("options", .obj [("proofType", .str "Ed25519Signature2018")])])]

def newFilters : Filters where
  json := linkedDataFilters "replace_me"
  isFilters := ⟨by decide +kernel, by decide +kernel, .inr (by decide +kernel), by decide +kernel⟩
  issuer := .inr (.inr ⟨"replace_me", by decide +kernel⟩)

/-- The second time, the DID that was put in is asked for its id. -/
theorem second_amendment_raises :
    ¬ ∀ (context : Prepared) didForId created created' (filters : Filters),
      Amended context.toContext didForId created created' filters.json := by
  intro h
  obtain ⟨amended, hrun, -, -, again, hrun', -⟩ := h citizenship .null [] [] newFilters
  have honce : amendFiltersWithRuntimeData citizenship.toContext .null [] newFilters.json =
      .ok (linkedDataFilters "did:key:z6Mk") := by decide +kernel
  have htwice : amendFiltersWithRuntimeData citizenship.toContext .null []
      (linkedDataFilters "did:key:z6Mk") = .error .attributeError := by decide +kernel
  obtain rfl := Except.ok.inj (hrun.symm.trans honce)
  cases hrun'.symm.trans htwice

end AgentTestHarness.FilterAmending
