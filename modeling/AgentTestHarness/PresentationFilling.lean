import AgentTestHarness.OrderedDict
import AgentTestHarness.RelativeTimes

/-! The ids that the steps fill into presentations and proposals: in each section every entry names
a type of credential, and gets the id that was recorded for it. A KeyError ends the loop over a
section. -/
namespace AgentTestHarness.PresentationFilling
open PyText OrderedDict PyJson RelativeTimes

abbrev credTypeName : Str := "cred_type_name"

abbrev timestamp : Str := "timestamp"

/-! The loops. -/

/-- What is filled into an entry: where the id of a type is found, under which name it is put, and
whether a timestamp is resolved. -/
structure Filling where
  find : Json → Except PyError Json
  field : Str
  resolves : Bool
  distinct : field ≠ credTypeName ∧ field ≠ timestamp

/-- The ids of the credentials of each type in the order of their issuance. A type without any has
an empty list. -/
def latestId (credentialIdDict : Str → List Json) (name : Json) : Except PyError Json := do
  let ids := match ← name.asKey with
    | .str s => credentialIdDict s
    | _ => []
  match ids.getLast? with
  | some id => .ok id
  | none => .error .indexError

def ofPresentation (credentialIdDict : Str → List Json) : Filling :=
  ⟨latestId credentialIdDict, "cred_id", true, by decide⟩

def ofProposal (credentialDefinitionIdDict : List (Str × Json)) : Filling :=
  ⟨itemOf credentialDefinitionIdDict, "cred_def_id", false, by decide⟩

/-- The entries of a section, and the section with others in their places. -/
structure View where
  split : Json → Except PyError (List Json × (List Json → Json))
  split_put : ∀ {section' entries put values}, split section' = .ok (entries, put) →
    values.length = entries.length → ∃ put', split (put values) = .ok (values, put')

/-- `section.values()` -/
def valuesOf : View where
  split
    | .obj ms => .ok (ms.map Prod.snd, fun values => .obj ((ms.map Prod.fst).zip values))
    | _ => .error .attributeError
  split_put := by
    intro section' entries put values h hlength
    cases section' with
    | obj ms =>
      obtain ⟨rfl, rfl⟩ := Prod.mk.inj (Except.ok.inj h)
      have hvalues : ((ms.map Prod.fst).zip values).map Prod.snd = values := by
        rw [List.map_snd_zip]
        simp only [hlength, List.length_map, le_refl]
      exact ⟨_, congrArg (fun vs => Except.ok (vs, _)) hvalues⟩
    | _ => cases h

/-- What an iteration goes over. The keys of a dictionary and the characters of a text are no
entries. -/
def itemsOf : View where
  split
    | .arr xs => .ok (xs, .arr)
    | .obj [] => .ok ([], fun _ => .obj [])
    | .str [] => .ok ([], fun _ => .str [])
    | _ => .error .typeError
  split_put := by
    intro section' entries put values h hlength
    split at h
    · obtain ⟨rfl, rfl⟩ := Prod.mk.inj (Except.ok.inj h)
      exact ⟨_, rfl⟩
    · obtain ⟨rfl, rfl⟩ := Prod.mk.inj (Except.ok.inj h)
      obtain rfl := List.eq_nil_of_length_eq_zero hlength
      exact ⟨_, rfl⟩
    · obtain ⟨rfl, rfl⟩ := Prod.mk.inj (Except.ok.inj h)
      obtain rfl := List.eq_nil_of_length_eq_zero hlength
      exact ⟨_, rfl⟩
    · cases h

section Loops

variable (truncated : Text → Except PyError ℤ) (clock : Clock) (F : Filling)

def resolveTimestamp (ms : List (Str × Json)) :
    StateT ℕ (Except PyError) (List (Str × Json)) :=
  match lookup timestamp ms with
  | some relative => do
    return assign timestamp (.int (← getRelativeTimestampToEpoch truncated clock relative)) ms
  | none => return ms

/-- A proposal has no timestamps to resolve. -/
def update (ms : List (Str × Json)) : StateT ℕ (Except PyError) (List (Str × Json)) :=
  if F.resolves then resolveTimestamp truncated clock ms else return ms

def fillEntry : Json → StateT ℕ (Except PyError) Json
  | .obj ms => do
    let name ← (Json.obj ms).item credTypeName
    let id ← F.find name
    let ms ← update truncated clock F (assign F.field id ms)
    return .obj (remove credTypeName ms)
  | _ => throw .typeError

/-- The entries are changed in their places, up to the first without the name of its type. -/
def fillEntries : List Json → StateT ℕ (Except PyError) (List Json)
  | [] => return []
  | entry :: entries => fun n =>
    match fillEntry truncated clock F entry n with
    | .ok (entry, n) => (fun filled => (entry :: filled.1, filled.2)) <$> fillEntries entries n
    | .error .keyError => .ok (entry :: entries, n)
    | .error e => .error e

/-- A section that is absent is passed over. -/
def fillSection (view : View) (name : Str) : Json → StateT ℕ (Except PyError) Json
  | .obj ms => match lookup name ms with
    | none => return .obj ms
    | some entries => do
      let (entries, put) ← view.split entries
      return .obj (assign name (put (← fillEntries truncated clock F entries)) ms)
  | _ => throw .typeError

def fillSections (view : View) : List Str → Json → StateT ℕ (Except PyError) Json
  | [], document => return document
  | name :: names, document => do
    fillSections view names (← fillSection truncated clock F view name document)

end Loops

def presentationSections : List Str := ["requested_attributes", "requested_predicates"]

def proposalSections : List Str := ["attributes", "predicates"]

/-- Both versions of the step fill a presentation so, the later one for indy and anoncreds. -/
def makesThePresentation (truncated : Text → Except PyError ℤ) (clock : Clock)
    (credentialIdDict : Str → List Json) (presentation : Json) : Except PyError Json :=
  Prod.fst <$> fillSections truncated clock (ofPresentation credentialIdDict) valuesOf
    presentationSections presentation 0

def makesAProposal (truncated : Text → Except PyError ℤ) (clock : Clock)
    (credentialDefinitionIdDict : List (Str × Json)) (presentationProposal : Json) :
    Except PyError Json :=
  Prod.fst <$> fillSections truncated clock (ofProposal credentialDefinitionIdDict) itemsOf
    proposalSections presentationProposal 0

/-! What is to be filled. -/

section Filled

variable (clock : Clock) (F : Filling)

/-- An entry of a file: if it is resolved, its timestamp is relative to now. -/
def IsEntry (entry : Json) : Prop :=
  ∃ ms, entry = .obj ms ∧ (ms.map Prod.fst).Nodup ∧ (F.resolves = true →
    ∀ t, lookup timestamp ms = some t → ∃ (part : Part) (d : ℤ), part.offset? = some d ∧
      t = .str part.text)

/-- The entry names a type for which there is an id. -/
def Issued (entry : Json) : Prop :=
  ∃ name id, entry.item credTypeName = .ok name ∧ F.find name = .ok id

/-- The loop ends here: the entry names no type, or one that is not in the record. -/
def Ends (entry : Json) : Prop :=
  entry.item credTypeName = .error .keyError ∨
    ∃ name, entry.item credTypeName = .ok name ∧ F.find name = .error .keyError

/-- The entry with the id of its type, its timestamp resolved, and without the name of the type. -/
def Filled (entry entry' : Json) : Prop :=
  ∀ name id, entry.item credTypeName = .ok name → F.find name = .ok id →
    ∃ ms, entry' = .obj ms ∧ lookup F.field ms = some id ∧ lookup credTypeName ms = none ∧
      (F.resolves = true → ∀ (part : Part) (d : ℤ), part.offset? = some d →
        entry.item timestamp = .ok (.str part.text) →
        ∃ k, lookup timestamp ms = some (.int (clock.seconds k + d)))

/-- Up to the entry that ends the loop there is an id for each, and behind it for none. -/
def Fillable : List Json → Prop
  | [] => True
  | entry :: entries =>
    Issued F entry ∧ Fillable entries ∨ Ends F entry ∧ ∀ other ∈ entries, ¬ Issued F other

variable (view : View)

/-- A section that is there is filled. -/
def SectionFilled (before after : List (Str × Json)) (name : Str) : Prop :=
  ∀ section' r, lookup name before = some section' → view.split section' = .ok r →
    ∃ filled r', lookup name after = some filled ∧ view.split filled = .ok r' ∧
      List.Forall₂ (Filled clock F) r.1 r'.1

def SectionFillable (members : List (Str × Json)) (name : Str) : Prop :=
  ∀ section' r, lookup name members = some section' → view.split section' = .ok r → Fillable F r.1

/-- A section that is there has entries. -/
def IsSection (members : List (Str × Json)) (name : Str) : Prop :=
  ∀ section', lookup name members = some section' →
    ∃ r, view.split section' = .ok r ∧ ∀ entry ∈ r.1, IsEntry F entry

/-- A presentation or a proposal of a file. -/
structure Document (names : List Str) where
  members : List (Str × Json)
  isSection : ∀ name ∈ names, IsSection F view members name

/-- The step comes to an end, and every entry with an id has got it. -/
def Document.Filled {names : List Str} (document : Document F view names)
    (result : Except PyError Json) : Prop :=
  ∃ members, result = .ok (.obj members) ∧
    ∀ name ∈ names, SectionFilled clock F view document.members members name

end Filled

/-! One entry. -/

theorem lift_of_ok {α β : Type} {x : Except PyError α} {a : α} (h : x = .ok a)
    (f : α → StateT ℕ (Except PyError) β) (n : ℕ) :
    ((liftM x : StateT ℕ (Except PyError) α) >>= f) n = f a n := by
  subst h
  rfl

theorem lift_of_error {α β : Type} {x : Except PyError α} {e : PyError} (h : x = .error e)
    (f : α → StateT ℕ (Except PyError) β) (n : ℕ) :
    ((liftM x : StateT ℕ (Except PyError) α) >>= f) n = .error e := by
  subst h
  rfl

section Entry

variable {truncated : Text → Except PyError ℤ} {clock : Clock} {F : Filling} {entry : Json}

theorem filled_of_not_issued (h : ¬ Issued F entry) (entry' : Json) :
    Filled clock F entry entry' := fun name id hname hid => absurd ⟨name, id, hname, hid⟩ h

/-- An entry that is left as it was still has the name of its type. -/
theorem not_filled_self (h : Issued F entry) : ¬ Filled clock F entry entry := by
  obtain ⟨name, id, hname, hid⟩ := h
  intro hfilled
  obtain ⟨ms, rfl, -, hnone, -⟩ := hfilled name id hname hid
  rw [Json.item_obj, hnone] at hname
  cases hname

theorem fillEntry_of_find {ms : List (Str × Json)} {name id : Json}
    (hname : (Json.obj ms).item credTypeName = .ok name) (hid : F.find name = .ok id) (n : ℕ) :
    fillEntry truncated clock F (.obj ms) n = update truncated clock F (assign F.field id ms) n >>=
      fun (ms, n) => .ok (.obj (remove credTypeName ms), n) := by
  rw [fillEntry, lift_of_ok hname, lift_of_ok hid]
  rfl

theorem fillEntry_of_ends (h : Ends F entry) (hentry : IsEntry F entry) (n : ℕ) :
    fillEntry truncated clock F entry n = .error .keyError := by
  obtain ⟨ms, rfl, -⟩ := hentry
  rcases h with hname | ⟨name, hname, hid⟩
  · rw [fillEntry, lift_of_error hname]
  · rw [fillEntry, lift_of_ok hname, lift_of_error hid]

/-- An error other than a KeyError leaves the step. -/
theorem fillEntry_of_error (hissued : ¬ Issued F entry) (hends : ¬ Ends F entry)
    (hentry : IsEntry F entry) (n : ℕ) :
    ∃ e, e ≠ .keyError ∧ fillEntry truncated clock F entry n = .error e := by
  obtain ⟨ms, rfl, -⟩ := hentry
  cases hname : (Json.obj ms).item credTypeName with
  | error e =>
    refine ⟨e, fun heq => hends (.inl (heq ▸ hname)), ?_⟩
    rw [fillEntry, lift_of_error hname]
  | ok name =>
    cases hid : F.find name with
    | ok id => exact absurd ⟨name, id, hname, hid⟩ hissued
    | error e =>
      refine ⟨e, fun heq => hends (.inr ⟨name, hname, heq ▸ hid⟩), ?_⟩
      rw [fillEntry, lift_of_ok hname, lift_of_error hid]

/-- What the update of an entry with its id leads to. -/
theorem update_of_entry {ms : List (Str × Json)} {id : Json} (hentry : IsEntry F (.obj ms))
    (n : ℕ) : ∃ ms' n', update truncated clock F (assign F.field id ms) n = .ok (ms', n') ∧
      (ms'.map Prod.fst).Nodup ∧ lookup F.field ms' = some id ∧
      (F.resolves = true → ∀ (part : Part) (d : ℤ), part.offset? = some d →
        lookup timestamp ms = some (.str part.text) →
        ∃ k, lookup timestamp ms' = some (.int (clock.seconds k + d))) := by
  obtain ⟨_, heq, hnodup, htimestamp⟩ := hentry
  obtain rfl := Json.obj.inj heq
  have hassigned := nodup_assign (k := F.field) (v := id) hnodup
  have hid := lookup_assign_self F.field id ms
  have hkept : lookup timestamp (assign F.field id ms) = lookup timestamp ms :=
    lookup_assign_ne F.distinct.2.symm id ms
  unfold update
  cases hresolves : F.resolves with
  | false => exact ⟨_, n, rfl, hassigned, hid, fun h => nomatch h⟩
  | true =>
    rw [if_pos rfl, resolveTimestamp, hkept]
    cases ht : lookup timestamp ms with
    | none => exact ⟨_, n, rfl, hassigned, hid, fun _ part d _ h => nomatch h⟩
    | some t =>
      obtain ⟨part, d, hd, rfl⟩ := htimestamp hresolves t ht
      have hrun := getRelativeTimestampToEpoch_eq clock n truncated hd
      refine ⟨assign timestamp (.int (clock.seconds n + d)) (assign F.field id ms), n + 1, ?_,
        nodup_assign hassigned, ?_, fun _ other d' hd' htext => ⟨n, ?_⟩⟩
      · show (getRelativeTimestampToEpoch truncated clock (.str part.text) n >>= fun (seconds, n) =>
          Except.ok (assign timestamp (.int seconds) (assign F.field id ms), n)) = _
        rw [hrun]
        rfl
      · rw [lookup_assign_ne F.distinct.2, hid]
      · -- the same text is the same offset
        have hother := getRelativeTimestampToEpoch_eq clock n truncated hd'
        rw [← Option.some.inj htext, hrun] at hother
        have hsame := (Prod.mk.inj (Except.ok.inj hother)).1
        rw [lookup_assign_self, hsame]

theorem fillEntry_of_issued (h : Issued F entry) (hentry : IsEntry F entry) (n : ℕ) :
    ∃ entry' n', fillEntry truncated clock F entry n = .ok (entry', n') ∧
      Filled clock F entry entry' := by
  obtain ⟨ms, rfl, -⟩ := id hentry
  obtain ⟨name, id, hname, hid⟩ := h
  obtain ⟨ms', n', hrun, hnodup, hfield, hresolved⟩ := update_of_entry hentry n
  rw [fillEntry_of_find hname hid, hrun]
  refine ⟨_, n', rfl, fun name' id' hname' hid' => ⟨_, rfl, ?_, ?_, ?_⟩⟩
  · obtain rfl := Except.ok.inj (hname.symm.trans hname')
    obtain rfl := Except.ok.inj (hid.symm.trans hid')
    rw [lookup_remove hnodup, if_neg F.distinct.1, hfield]
  · rw [lookup_remove hnodup, if_pos rfl]
  · intro hresolves part d hd htimestamp
    obtain ⟨k, hk⟩ := hresolved hresolves part d hd (Json.item_obj.mp htimestamp)
    exact ⟨k, by rw [lookup_remove hnodup, if_neg (by decide), hk]⟩

end Entry

/-! A section, and a document. -/

section Document

variable {truncated : Text → Except PyError ℤ} {clock : Clock} {F : Filling}

theorem forall₂_filled_self {entries : List Json} (h : ∀ entry ∈ entries, ¬ Issued F entry) :
    List.Forall₂ (Filled clock F) entries entries := by
  induction entries with
  | nil => exact .nil
  | cons entry entries ih =>
    obtain ⟨hentry, hentries⟩ := List.forall_mem_cons.mp h
    exact .cons (filled_of_not_issued hentry entry) (ih hentries)

theorem not_issued_of_forall₂ {entries : List Json}
    (h : List.Forall₂ (Filled clock F) entries entries) : ∀ entry ∈ entries, ¬ Issued F entry := by
  intro entry hmem hissued
  obtain ⟨i, hi, rfl⟩ := List.getElem_of_mem hmem
  exact not_filled_self hissued (h.get hi hi)

theorem not_ends_of_issued {entry : Json} (h : Issued F entry) : ¬ Ends F entry := by
  obtain ⟨name, id, hname, hid⟩ := h
  rintro (hnone | ⟨other, hother, hmissing⟩)
  · cases hname.symm.trans hnone
  · obtain rfl := Except.ok.inj (hname.symm.trans hother)
    cases hid.symm.trans hmissing

theorem fillEntries_of_ok {entry entry' : Json} {n n' : ℕ}
    (h : fillEntry truncated clock F entry n = .ok (entry', n')) (entries : List Json) :
    fillEntries truncated clock F (entry :: entries) n =
      (fun filled => (entry' :: filled.1, filled.2)) <$>
        fillEntries truncated clock F entries n' := by
  rw [fillEntries]
  dsimp only
  rw [h]

theorem fillEntries_of_keyError {entry : Json} {n : ℕ}
    (h : fillEntry truncated clock F entry n = .error .keyError) (entries : List Json) :
    fillEntries truncated clock F (entry :: entries) n = .ok (entry :: entries, n) := by
  rw [fillEntries]
  dsimp only
  rw [h]

theorem fillEntries_of_error {entry : Json} {n : ℕ} {e : PyError} (hne : e ≠ .keyError)
    (h : fillEntry truncated clock F entry n = .error e) (entries : List Json) :
    fillEntries truncated clock F (entry :: entries) n = .error e := by
  rw [fillEntries]
  dsimp only
  rw [h]
  cases e <;> first | rfl | exact absurd rfl hne

/-- The loop over a section fills what it should exactly if no entry in front ends it too early. -/
theorem fillEntries_iff {entries : List Json} (h : ∀ entry ∈ entries, IsEntry F entry) (n : ℕ) :
    (∃ values n', fillEntries truncated clock F entries n = .ok (values, n') ∧
      List.Forall₂ (Filled clock F) entries values) ↔ Fillable F entries := by
  induction entries generalizing n with
  | nil => exact iff_of_true ⟨[], n, rfl, .nil⟩ trivial
  | cons entry entries ih =>
    obtain ⟨hentry, hentries⟩ := List.forall_mem_cons.mp h
    by_cases hissued : Issued F entry
    · obtain ⟨entry', n', hrun, hfilled⟩ := @fillEntry_of_issued truncated clock F _ hissued hentry n
      have hends := not_ends_of_issued hissued
      simp only [Fillable, hissued, hends, true_and, false_and, or_false]
      rw [← ih hentries n', fillEntries_of_ok hrun]
      constructor
      · rintro ⟨values, m, hvalues, hall⟩
        cases hrest : fillEntries truncated clock F entries n' with
        | error e =>
          rw [hrest] at hvalues
          cases hvalues
        | ok filled =>
          rw [hrest] at hvalues
          obtain ⟨rfl, rfl⟩ := Prod.mk.inj (Except.ok.inj hvalues)
          exact ⟨filled.1, filled.2, rfl, (List.forall₂_cons.mp hall).2⟩
      · rintro ⟨values, m, hvalues, hall⟩
        rw [hvalues]
        exact ⟨entry' :: values, m, rfl, .cons hfilled hall⟩
    · by_cases hends : Ends F entry
      · simp only [Fillable, hissued, hends, true_and, false_and, false_or]
        rw [fillEntries_of_keyError (fillEntry_of_ends hends hentry n)]
        constructor
        · rintro ⟨values, m, hvalues, hall⟩
          obtain ⟨rfl, rfl⟩ := Prod.mk.inj (Except.ok.inj hvalues)
          exact not_issued_of_forall₂ (List.forall₂_cons.mp hall).2
        · intro hnone
          exact ⟨_, n, rfl, forall₂_filled_self (List.forall_mem_cons.mpr ⟨hissued, hnone⟩)⟩
      · obtain ⟨e, hne, hrun⟩ :=
          @fillEntry_of_error truncated clock F _ hissued hends hentry n
        simp only [Fillable, hissued, hends, false_and, false_or, iff_false]
        rw [fillEntries_of_error hne hrun]
        rintro ⟨values, m, hvalues, -⟩
        cases hvalues

theorem length_of_fillEntries {entries values : List Json} {n n' : ℕ}
    (h : fillEntries truncated clock F entries n = .ok (values, n')) :
    values.length = entries.length := by
  induction entries generalizing n values with
  | nil =>
    obtain ⟨rfl, -⟩ := Prod.mk.inj (Except.ok.inj h)
    rfl
  | cons entry entries ih =>
    cases hrun : fillEntry truncated clock F entry n with
    | ok filled =>
      obtain ⟨entry', n₁⟩ := filled
      rw [fillEntries_of_ok hrun] at h
      cases hrest : fillEntries truncated clock F entries n₁ with
      | error e =>
        rw [hrest] at h
        cases h
      | ok rest =>
        rw [hrest] at h
        obtain ⟨rfl, rfl⟩ := Prod.mk.inj (Except.ok.inj h)
        exact congrArg Nat.succ (ih hrest)
    | error e =>
      by_cases hkey : e = .keyError
      · subst hkey
        rw [fillEntries_of_keyError hrun] at h
        obtain ⟨rfl, -⟩ := Prod.mk.inj (Except.ok.inj h)
        rfl
      · rw [fillEntries_of_error hkey hrun] at h
        cases h

variable {view : View}

theorem fillSection_of_absent {ms : List (Str × Json)} {name : Str} (h : lookup name ms = none)
    (n : ℕ) : fillSection truncated clock F view name (.obj ms) n = .ok (.obj ms, n) := by
  rw [fillSection, h]
  rfl

theorem fillSection_of_split {ms : List (Str × Json)} {name : Str} {s : Json}
    {r : List Json × (List Json → Json)} (h : lookup name ms = some s) (hr : view.split s = .ok r)
    (n : ℕ) : fillSection truncated clock F view name (.obj ms) n =
      fillEntries truncated clock F r.1 n >>= fun filled =>
        .ok (.obj (assign name (r.2 filled.1) ms), filled.2) := by
  rw [fillSection, h]
  dsimp only
  rw [lift_of_ok hr]
  rfl

theorem fillSection_of_error {ms : List (Str × Json)} {name : Str} {s : Json} {e : PyError}
    (h : lookup name ms = some s) (he : view.split s = .error e) (n : ℕ) :
    fillSection truncated clock F view name (.obj ms) n = .error e := by
  rw [fillSection, h]
  dsimp only
  rw [lift_of_error he]

theorem fillSections_cons (name : Str) (names : List Str) (document : Json) (n : ℕ) :
    fillSections truncated clock F view (name :: names) document n =
      fillSection truncated clock F view name document n >>= fun r =>
        fillSections truncated clock F view names r.1 r.2 := rfl

theorem fillSection_frame {name : Str} {ms : List (Str × Json)} {document : Json} {n n' : ℕ}
    (h : fillSection truncated clock F view name (.obj ms) n = .ok (document, n')) :
    ∃ ms', document = .obj ms' ∧ ∀ other ≠ name, lookup other ms' = lookup other ms := by
  cases hs : lookup name ms with
  | none =>
    rw [fillSection_of_absent hs] at h
    obtain ⟨rfl, -⟩ := Prod.mk.inj (Except.ok.inj h)
    exact ⟨ms, rfl, fun _ _ => rfl⟩
  | some s =>
    cases hr : view.split s with
    | error e =>
      rw [fillSection_of_error hs hr] at h
      cases h
    | ok r =>
      rw [fillSection_of_split hs hr] at h
      obtain ⟨filled, -, hfilled⟩ := bind_eq_ok h
      obtain ⟨rfl, -⟩ := Prod.mk.inj (Except.ok.inj hfilled)
      exact ⟨_, rfl, fun other hother => lookup_assign_ne hother _ _⟩

/-- The other members stay as they are. -/
theorem fillSections_frame {names : List Str} {ms : List (Str × Json)} {document : Json}
    {n n' : ℕ} (h : fillSections truncated clock F view names (.obj ms) n = .ok (document, n')) :
    ∃ ms', document = .obj ms' ∧ ∀ name ∉ names, lookup name ms' = lookup name ms := by
  induction names generalizing ms n with
  | nil =>
    obtain ⟨rfl, -⟩ := Prod.mk.inj (Except.ok.inj h)
    exact ⟨ms, rfl, fun _ _ => rfl⟩
  | cons name names ih =>
    rw [fillSections_cons] at h
    obtain ⟨⟨between, n₁⟩, hsection, hrest⟩ := bind_eq_ok h
    obtain ⟨ms₁, rfl, hkept⟩ := fillSection_frame hsection
    obtain ⟨ms', rfl, hframe⟩ := ih hrest
    refine ⟨ms', rfl, fun other hother => ?_⟩
    rw [hframe other (List.not_mem_of_not_mem_cons hother),
      hkept other (List.ne_of_not_mem_cons hother)]

/-- A section keeps what it was filled with while the others are. -/
theorem lookup_of_fillSections {names : List Str} {name : Str} (hnot : name ∉ names)
    {ms ms' : List (Str × Json)} {section' : Json} {n n' : ℕ}
    (h : fillSections truncated clock F view names (.obj (assign name section' ms)) n =
      .ok (.obj ms', n')) : lookup name ms' = some section' := by
  obtain ⟨_, heq, hframe⟩ := fillSections_frame h
  obtain rfl := Json.obj.inj heq
  rw [hframe name hnot, lookup_assign_self]

theorem sectionFilled_congr {before before' after : List (Str × Json)} {name : Str}
    (h : lookup name before = lookup name before') :
    SectionFilled clock F view before after name ↔
      SectionFilled clock F view before' after name := by
  rw [SectionFilled, SectionFilled, h]

theorem sectionFillable_congr {members members' : List (Str × Json)} {name : Str}
    (h : lookup name members = lookup name members') :
    SectionFillable F view members name ↔ SectionFillable F view members' name := by
  rw [SectionFillable, SectionFillable, h]

theorem isSection_congr {members members' : List (Str × Json)} {name : Str}
    (h : lookup name members = lookup name members') :
    IsSection F view members name ↔ IsSection F view members' name := by
  rw [IsSection, IsSection, h]

theorem sectionFillable_iff {members : List (Str × Json)} {name : Str} {s : Json}
    {r : List Json × (List Json → Json)} (hs : lookup name members = some s)
    (hr : view.split s = .ok r) : SectionFillable F view members name ↔ Fillable F r.1 := by
  refine ⟨fun h => h s r hs hr, fun h s' r' hs' hr' => ?_⟩
  obtain rfl := Option.some.inj (hs.symm.trans hs')
  obtain rfl := Except.ok.inj (hr.symm.trans hr')
  exact h

theorem sectionFilled_iff {before after : List (Str × Json)} {name : Str} {s : Json}
    {r : List Json × (List Json → Json)} {values : List Json} (hs : lookup name before = some s)
    (hr : view.split s = .ok r) (hlength : values.length = r.1.length)
    (hafter : lookup name after = some (r.2 values)) :
    SectionFilled clock F view before after name ↔ List.Forall₂ (Filled clock F) r.1 values := by
  obtain ⟨put, hput⟩ := view.split_put (show view.split s = .ok (r.1, r.2) from hr) hlength
  constructor
  · intro h
    obtain ⟨filled, r', hfilled, hr', hall⟩ := h s r hs hr
    obtain rfl := Option.some.inj (hafter.symm.trans hfilled)
    obtain rfl := Except.ok.inj (hput.symm.trans hr')
    exact hall
  · intro hall s' r' hs' hr'
    obtain rfl := Option.some.inj (hs.symm.trans hs')
    obtain rfl := Except.ok.inj (hr.symm.trans hr')
    exact ⟨_, _, hafter, hput, hall⟩

/-- The sections are filled one after the other, each by itself. -/
theorem fillSections_iff {names : List Str} (hnodup : names.Nodup) {ms : List (Str × Json)}
    (hsections : ∀ name ∈ names, IsSection F view ms name) (n : ℕ) :
    (∃ ms' n', fillSections truncated clock F view names (.obj ms) n = .ok (.obj ms', n') ∧
        ∀ name ∈ names, SectionFilled clock F view ms ms' name) ↔
      ∀ name ∈ names, SectionFillable F view ms name := by
  induction names generalizing ms n with
  | nil => exact iff_of_true ⟨ms, n, rfl, by simp⟩ (by simp)
  | cons name names ih =>
    obtain ⟨hnot, hnodup⟩ := List.nodup_cons.mp hnodup
    obtain ⟨hsection, hsections⟩ := List.forall_mem_cons.mp hsections
    simp only [fillSections_cons, List.forall_mem_cons]
    cases hs : lookup name ms with
    | none =>
      have hfilled : ∀ ms', SectionFilled clock F view ms ms' name := fun ms' s r h =>
        nomatch hs.symm.trans h
      have hfillable : SectionFillable F view ms name := fun s r h => nomatch hs.symm.trans h
      have hrest := ih hnodup hsections n
      simp only [fillSection_of_absent hs, hfilled, hfillable, true_and]
      exact hrest
    | some s =>
      obtain ⟨r, hr, hentries⟩ := hsection s hs
      rw [sectionFillable_iff hs hr, ← @fillEntries_iff truncated clock F r.1 hentries n]
      simp only [fillSection_of_split hs hr]
      cases hrun : fillEntries truncated clock F r.1 n with
      | error e =>
        refine iff_of_false ?_ ?_
        · rintro ⟨_, _, h, -⟩
          cases h
        · rintro ⟨⟨_, _, h, -⟩, -⟩
          cases h
      | ok filled =>
        obtain ⟨values, n₁⟩ := filled
        have hlength := length_of_fillEntries hrun
        have hkept : ∀ other ∈ names,
            lookup other ms = lookup other (assign name (r.2 values) ms) := fun other hother =>
          (lookup_assign_ne (fun heq : other = name => hnot (heq ▸ hother)) _ _).symm
        have hrest := ih hnodup (fun other hother =>
          (isSection_congr (hkept other hother)).mp (hsections other hother)) n₁
        constructor
        · rintro ⟨ms', n', h, hname, hothers⟩
          have hafter := lookup_of_fillSections hnot h
          have hdone := (sectionFilled_iff hs hr hlength hafter).mp hname
          refine ⟨⟨values, n₁, rfl, hdone⟩, fun other hother => ?_⟩
          rw [sectionFillable_congr (hkept other hother)]
          refine hrest.mp ⟨ms', n', h, fun other hother => ?_⟩ other hother
          exact (sectionFilled_congr (hkept other hother)).mp (hothers other hother)
        · rintro ⟨⟨_, _, h, hall⟩, hothers⟩
          obtain ⟨rfl, rfl⟩ := Prod.mk.inj (Except.ok.inj h)
          obtain ⟨ms', n', h, hfilled⟩ := hrest.mpr fun other hother =>
            (sectionFillable_congr (hkept other hother)).mp (hothers other hother)
          have hafter := lookup_of_fillSections hnot h
          refine ⟨ms', n', h, (sectionFilled_iff hs hr hlength hafter).mpr hall, ?_⟩
          exact fun other hother =>
            (sectionFilled_congr (hkept other hother)).mpr (hfilled other hother)

end Document

theorem document_filled_iff (truncated : Text → Except PyError ℤ) (clock : Clock) (F : Filling)
    (view : View) {names : List Str} (hnodup : names.Nodup) (document : Document F view names) :
    document.Filled clock F view (Prod.fst <$> fillSections truncated clock F view names
        (.obj document.members) 0) ↔
      ∀ name ∈ names, SectionFillable F view document.members name := by
  rw [← @fillSections_iff truncated clock F view names hnodup _ document.isSection 0]
  constructor
  · rintro ⟨ms', h, hfilled⟩
    cases hrun : fillSections truncated clock F view names (.obj document.members) 0 with
    | error e =>
      rw [hrun] at h
      cases h
    | ok r =>
      rw [hrun] at h
      obtain ⟨result, n'⟩ := r
      obtain rfl : result = .obj ms' := Except.ok.inj h
      exact ⟨ms', n', rfl, hfilled⟩
  · rintro ⟨ms', n', h, hfilled⟩
    exact ⟨ms', by rw [h]; rfl, hfilled⟩

/-- A presentation or a proposal gets its ids exactly if in each of its sections no entry with an id
stands behind one without, and the first without ends the loop and not the step. -/
theorem ids_filled_iff (truncated : Text → Except PyError ℤ) (clock : Clock)
    (credentialIdDict : Str → List Json) (credentialDefinitionIdDict : List (Str × Json)) :
    (∀ presentation : Document (ofPresentation credentialIdDict) valuesOf presentationSections,
      presentation.Filled clock _ _ (makesThePresentation truncated clock credentialIdDict
          (.obj presentation.members)) ↔
        ∀ name ∈ presentationSections, SectionFillable (ofPresentation credentialIdDict) valuesOf
          presentation.members name) ∧
    ∀ proposal : Document (ofProposal credentialDefinitionIdDict) itemsOf proposalSections,
      proposal.Filled clock _ _ (makesAProposal truncated clock credentialDefinitionIdDict
          (.obj proposal.members)) ↔
        ∀ name ∈ proposalSections, SectionFillable (ofProposal credentialDefinitionIdDict) itemsOf
          proposal.members name :=
  ⟨document_filled_iff truncated clock _ _ (by decide),
    document_filled_iff truncated clock _ _ (by decide)⟩

def oneLicense (name : Str) : List Json :=
  if name = ("Schema_DriversLicense_v2" : Str) then [.str "799519c6"] else []

/-- A presentation of a file in which only the second attribute is to come from a credential. -/
def secondFromLicense : Document (ofPresentation oneLicense) valuesOf presentationSections where
  members := [("requested_attributes", .obj [
    ("attribute_1", .obj [("revealed", .bool true)]),
    ("attribute_2", .obj [("cred_type_name", .str "Schema_DriversLicense_v2")])])]
  isSection := by
    intro name hname section' hsection
    obtain rfl | rfl : name = "requested_attributes" ∨ name = "requested_predicates" := by
      simpa [presentationSections] using hname
    · obtain rfl := Option.some.inj hsection
      refine ⟨_, rfl, fun entry hentry => ?_⟩
      obtain rfl | rfl : entry = .obj [("revealed", .bool true)] ∨
          entry = .obj [("cred_type_name", .str "Schema_DriversLicense_v2")] := by
        simpa using hentry
      · exact ⟨_, rfl, by decide, fun _ t ht => nomatch ht⟩
      · exact ⟨_, rfl, by decide, fun _ t ht => nomatch ht⟩
    · cases hsection

theorem nameless_entry_ends_filling :
    ¬ ∀ truncated clock credentialIdDict
      (presentation : Document (ofPresentation credentialIdDict) valuesOf presentationSections),
      presentation.Filled clock _ _ (makesThePresentation truncated clock credentialIdDict
        (.obj presentation.members)) := by
  intro h
  have hfillable := (document_filled_iff (fun _ => .error .typeError) noon _ _ (by decide)
    secondFromLicense).mp (h _ _ _ _) "requested_attributes" (by decide) _ _ rfl rfl
  rcases hfillable with ⟨⟨name, id, hname, -⟩, -⟩ | ⟨-, hnone⟩
  · cases hname
  · exact hnone _ (List.mem_singleton_self _) ⟨_, .str "799519c6", rfl, by decide⟩

end AgentTestHarness.PresentationFilling
