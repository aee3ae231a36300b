import AgentTestHarness.JsonOrder

/-! The payloads as `request_log` writes them. The members of an object are sorted at every level
but not inside arrays, and a string that begins and ends like an object is taken for its text. -/
namespace AgentTestHarness.SortedPayloads
open PyText OrderedDict PyJson JsonWriting JsonRoundTrip JsonOrder

mutual
/-- Each float as `repr` writes it. -/
def withReprs (floatRepr : Text → Text) : Json → Json
  | .float w => .float (floatRepr w)
  | .arr xs => .arr (withReprsItems floatRepr xs)
  | .obj ms => .obj (withReprsMembers floatRepr ms)
  | x => x
def withReprsItems (floatRepr : Text → Text) : List Json → List Json
  | [] => []
  | x :: xs => withReprs floatRepr x :: withReprsItems floatRepr xs
def withReprsMembers (floatRepr : Text → Text) : List (Str × Json) → List (Str × Json)
  | [] => []
  | (k, v) :: ms => (k, withReprs floatRepr v) :: withReprsMembers floatRepr ms
end

/-- A value as Python holds it, in which a float is as `repr` writes it. -/
def IsValue (floatRepr : Text → Text) (v : Json) : Prop := Loadable v ∧ withReprs floatRepr v = v

/-- `repr` of the float that a literal stands for, and `json.loads` of a string, which may hold
lone surrogates. -/
structure Python where
  floatRepr : Text → Text
  loads : Str → Except PyError Json
  loads_text : ∀ t, loads (ofText t) = (JsonReading.loads t).map (withReprs floatRepr)
  value_loads : ∀ s v, loads s = .ok v → IsValue floatRepr v

def looksLikeObject (val : Str) : Bool :=
  decide (1 < val.length) && decide (val.head? = some (.ch '{')) &&
    decide (val.getLast? = some (.ch '}'))

section Sorting

variable (py : Python)

/-- The dictionary of a value that is one or looks like its text; without one it is empty. -/
def valdict : Json → Except PyError (List (Str × Json))
  | .str val =>
    if looksLikeObject val then do
      match ← py.loads val with
      | .obj ms => pure ms
      | _ => throw .typeError
    else pure []
  | .obj ms => pure ms
  | _ => pure []

mutual
/-- The value below the top level. Its members are sorted when their values are done, since the
order is that of the keys alone. -/
def sortedValue (sortedText : Str → Except PyError Json) : Json → Except PyError Json
  | .str val => sortedText val
  | .obj ms => do
    let values ← sortedMembers sortedText ms
    pure (.obj (sortMembers values))
  | val => pure val
def sortedMembers (sortedText : Str → Except PyError Json) :
    List (Str × Json) → Except PyError (List (Str × Json))
  | [] => pure []
  | (k, v) :: ms => do
    let value ← sortedValue sortedText v
    let values ← sortedMembers sortedText ms
    pure ((k, value) :: values)
end

/-- A string below the top level; the texts in it are looked into as deep as Python recurses. -/
def sortedText : (depth : ℕ) → Str → Except PyError Json
  | 0, _ => .error (.exception "maximum recursion depth exceeded")
  | depth + 1, val => do
    let ms ← valdict py (.str val)
    if ms = [] then pure (.str val) else sortedValue (sortedText depth) (.obj ms)

def sortedPayload (depth : ℕ) (val : Json) : Except PyError Json := do
  let ms ← valdict py val
  if ms = [] then pure val
  else do
    let value ← sortedValue (sortedText py depth) (.obj ms)
    pure (.str (ofText (dumps value)))

/-- What is printed of a value; the only dictionary among these is the empty one. -/
def format : Json → Str
  | .str s => s
  | val => ofText (dumps val)

def printed (depth : ℕ) (val : Json) : Except PyError Str := (sortedPayload py depth val).map format

end Sorting

/-! The payloads. -/

inductive Payload (py : Python)
  | dict (ms : List (Str × Json)) (value : IsValue py.floatRepr (.obj ms))
  | text (t : Text) (ms : List (Str × Json)) (object : py.loads (ofText t) = .ok (.obj ms))

namespace Payload

variable {py : Python}

def given : Payload py → Json
  | .dict ms _ => .obj ms
  | .text t _ _ => .str (ofText t)

def members : Payload py → List (Str × Json)
  | .dict ms _ => ms
  | .text _ ms _ => ms

def value (p : Payload py) : Json := .obj p.members

/-- The text itself, and that of a dictionary. -/
def asText (p : Payload py) : Str := format p.given

/-- The payload is not empty, and has no space around it where it is a text. -/
def LookedInto (p : Payload py) : Prop :=
  p.members ≠ [] ∧ match p with
    | .dict _ _ => True
    | .text t _ _ => looksLikeObject (ofText t) = true

end Payload

/-- Both payloads are printed as one text, which is read back as their value. -/
def PrintedAlike {py : Python} (p q : Payload py) : Prop :=
  ∃ least, ∀ depth ≥ least, ∃ s v, printed py depth p.given = .ok s ∧
    printed py depth q.given = .ok s ∧ py.loads s = .ok v ∧ Equal true v p.value

/-! When they are. -/

section Plain

variable (py : Python)

/-- A string that is left as it is. -/
def PlainStr (s : Str) : Prop := looksLikeObject s = true → py.loads s = .ok (.obj [])

mutual
/-- No string outside the arrays is taken for the text of an object. -/
def Plain : Json → Prop
  | .str s => PlainStr py s
  | .obj ms => PlainMembers ms
  | _ => True
def PlainMembers : List (Str × Json) → Prop
  | [] => True
  | (_, v) :: ms => Plain v ∧ PlainMembers ms
end

end Plain

/-- Both payloads are looked into, no string in them is, and they differ at most in the order of
members outside arrays; or neither is looked into and they are the same text. -/
def Sortable {py : Python} (p q : Payload py) : Prop :=
  (p.LookedInto ∧ q.LookedInto ∧ Plain py p.value ∧ Plain py q.value ∧
    Equal false p.value q.value) ∨
  (¬ p.LookedInto ∧ ¬ q.LookedInto ∧ p.asText = q.asText)

section Values

variable {f : Text → Text}

theorem withReprsMembers_eq (ms : List (Str × Json)) :
    withReprsMembers f ms = ms.map fun m => (m.1, withReprs f m.2) := by
  induction ms with
  | nil => rfl
  | cons m ms ih => rw [withReprsMembers, ih, List.map_cons]

/-- An object is a value if its keys are distinct and its members are values. -/
theorem isValue_obj_iff {ms : List (Str × Json)} : IsValue f (.obj ms) ↔
    (ms.map Prod.fst).Nodup ∧ ∀ m ∈ ms, Unpaired m.1 ∧ IsValue f m.2 := by
  have hreprs : withReprs f (.obj ms) = .obj ms ↔ ∀ m ∈ ms, withReprs f m.2 = m.2 := by
    rw [withReprs, Json.obj.injEq, withReprsMembers_eq]
    induction ms with
    | nil => simp
    | cons m ms ih =>
      rw [List.map_cons, List.cons.injEq, ih, List.forall_mem_cons, Prod.ext_iff]
      simp
  rw [IsValue, hreprs, Loadable, loadableMembers_iff, and_assoc]
  refine and_congr_right fun _ => ?_
  simp only [IsValue]
  exact ⟨fun h m hm => ⟨(h.1 m hm).1, (h.1 m hm).2, h.2 m hm⟩,
    fun h => ⟨fun m hm => ⟨(h m hm).1, (h m hm).2.1⟩, fun m hm => (h m hm).2.2⟩⟩

theorem isValue_sortMembers {ms : List (Str × Json)} (h : IsValue f (.obj ms)) :
    IsValue f (.obj (sortMembers ms)) := by
  rw [isValue_obj_iff] at h ⊢
  have hperm := sortMembers_perm ms
  exact ⟨(hperm.map Prod.fst).nodup_iff.mpr h.1, fun m hm => h.2 m (hperm.mem_iff.mp hm)⟩

end Values

section

variable {py : Python}

/-- A value is read back from what is written of it. -/
theorem loads_dumps_value {v : Json} (h : IsValue py.floatRepr v) :
    py.loads (ofText (dumps v)) = .ok v := by
  rw [py.loads_text, loads_dumps h.1]
  exact congrArg Except.ok h.2

theorem Payload.isValue (p : Payload py) : IsValue py.floatRepr p.value := by
  cases p with
  | dict ms value => exact value
  | text t ms object => exact py.value_loads _ _ object

/-! Strings below the top level. -/

/-- A string is left as it is, or an object is made of it. -/
theorem sortedText_cases {depth : ℕ} {s : Str} {r : Json} (h : sortedText py depth s = .ok r) :
    PlainStr py s ∧ r = .str s ∨ ∃ depth' ms, depth = depth' + 1 ∧ ms ≠ [] ∧
      py.loads s = .ok (.obj ms) ∧ sortedValue (sortedText py depth') (.obj ms) = .ok r := by
  cases depth with
  | zero => cases h
  | succ depth =>
    obtain ⟨ms, hms, h⟩ := bind_eq_ok h
    by_cases hlooks : looksLikeObject s = true
    · rw [valdict, if_pos hlooks] at hms
      obtain ⟨v, hloads, hms⟩ := bind_eq_ok hms
      cases v with
      | obj ns =>
        obtain rfl := Except.ok.inj hms
        by_cases hempty : ns = []
        · rw [if_pos hempty] at h
          exact .inl ⟨fun _ => hempty ▸ hloads, (Except.ok.inj h).symm⟩
        · rw [if_neg hempty] at h
          exact .inr ⟨depth, ns, rfl, hempty, hloads, h⟩
      | null | bool _ | int _ | float _ | str _ | arr _ => cases hms
    · rw [valdict, if_neg hlooks] at hms
      obtain rfl := Except.ok.inj hms
      rw [if_pos rfl] at h
      exact .inl ⟨fun hc => absurd hc hlooks, (Except.ok.inj h).symm⟩

theorem sortedText_of_plain {s : Str} (h : PlainStr py s) (depth : ℕ) :
    sortedText py (depth + 1) s = .ok (.str s) := by
  have hvaldict : valdict py (.str s) = .ok [] := by
    rw [valdict]
    split
    · next hlooks => rw [h hlooks]; rfl
    · rfl
  rw [sortedText, hvaldict]
  rfl

theorem sortedMembers_keys {g : Str → Except PyError Json} {ms values : List (Str × Json)}
    (h : sortedMembers g ms = .ok values) : values.map Prod.fst = ms.map Prod.fst := by
  induction ms generalizing values with
  | nil =>
    obtain rfl := Except.ok.inj h
    rfl
  | cons m ms ih =>
    obtain ⟨value, -, h⟩ := bind_eq_ok h
    obtain ⟨rest, hrest, h⟩ := bind_eq_ok h
    obtain rfl := Except.ok.inj h
    rw [List.map_cons, List.map_cons, ih hrest]

mutual
theorem sortedValue_of_plain (depth : ℕ) : (v : Json) → Plain py v →
    sortedValue (sortedText py (depth + 1)) v = .ok (normal false v)
  | .null, _ | .bool _, _ | .int _, _ | .float _, _ | .arr _, _ => rfl
  | .str s, h => sortedText_of_plain h depth
  | .obj ms, h => by
    rw [sortedValue, sortedMembers_of_plain depth ms h]
    rfl
theorem sortedMembers_of_plain (depth : ℕ) : (ms : List (Str × Json)) → PlainMembers py ms →
    sortedMembers (sortedText py (depth + 1)) ms = .ok (normalMembers false ms)
  | [], _ => rfl
  | (k, v) :: ms, h => by
    rw [sortedMembers, sortedValue_of_plain depth v h.1, sortedMembers_of_plain depth ms h.2]
    rfl
end

/-! What comes of a value that is not plain. -/

mutual
/-- A string that is taken for an object adds one. -/
theorem sortedValue_cases {g : Str → Except PyError Json}
    (hg : ∀ s r, g s = .ok r → PlainStr py s ∧ r = .str s ∨ 0 < objects r) :
    (v : Json) → ∀ {r : Json}, sortedValue g v = .ok r →
      Plain py v ∧ r = normal false v ∨ objects v < objects r
  | .null, _, h | .bool _, _, h | .int _, _, h | .float _, _, h | .arr _, _, h =>
    .inl ⟨trivial, (Except.ok.inj h).symm⟩
  | .str s, r, h => hg s r h
  | .obj ms, r, h => by
    obtain ⟨values, hvalues, h⟩ := bind_eq_ok h
    obtain rfl := Except.ok.inj h
    rcases sortedMembers_cases hg ms hvalues with ⟨hplain, rfl⟩ | hmore
    · exact .inl ⟨hplain, rfl⟩
    · refine .inr ?_
      rw [objects, objects, objectsMembers_sortMembers]
      exact Nat.succ_lt_succ hmore
theorem sortedMembers_cases {g : Str → Except PyError Json}
    (hg : ∀ s r, g s = .ok r → PlainStr py s ∧ r = .str s ∨ 0 < objects r) :
    (ms : List (Str × Json)) → ∀ {values : List (Str × Json)}, sortedMembers g ms = .ok values →
      PlainMembers py ms ∧ values = normalMembers false ms ∨
        objectsMembers ms < objectsMembers values
  | [], _, h => .inl ⟨trivial, (Except.ok.inj h).symm⟩
  | (k, v) :: ms, _, h => by
    obtain ⟨value, hvalue, h⟩ := bind_eq_ok h
    obtain ⟨rest, hrest, h⟩ := bind_eq_ok h
    obtain rfl := Except.ok.inj h
    have hv := sortedValue_cases hg v hvalue
    have hms := sortedMembers_cases hg ms hrest
    rw [objectsMembers, objectsMembers]
    rcases hv with ⟨hplain, rfl⟩ | hmore
    · rcases hms with ⟨hplains, rfl⟩ | hmores
      · exact .inl ⟨⟨hplain, hplains⟩, rfl⟩
      · rw [objects_normal]
        exact .inr (by omega)
    · rcases hms with ⟨hplains, rfl⟩ | hmores
      · rw [objectsMembers_normalMembers]
        exact .inr (by omega)
      · exact .inr (by omega)
end

theorem sortedText_objects {depth : ℕ} {s : Str} {r : Json} (h : sortedText py depth s = .ok r) :
    PlainStr py s ∧ r = .str s ∨ 0 < objects r := by
  rcases sortedText_cases h with hplain | ⟨depth', ms, -, -, -, hsorted⟩
  · exact .inl hplain
  · obtain ⟨values, -, hsorted⟩ := bind_eq_ok hsorted
    obtain rfl := Except.ok.inj hsorted
    exact .inr (Nat.succ_pos _)

mutual
theorem sortedValue_value {g : Str → Except PyError Json}
    (hg : ∀ s r, IsValue py.floatRepr (.str s) → g s = .ok r → IsValue py.floatRepr r) :
    (v : Json) → ∀ {r : Json}, IsValue py.floatRepr v → sortedValue g v = .ok r →
      IsValue py.floatRepr r
  | .null, _, hv, h | .bool _, _, hv, h | .int _, _, hv, h | .float _, _, hv, h
  | .arr _, _, hv, h => Except.ok.inj h ▸ hv
  | .str s, r, hv, h => hg s r hv h
  | .obj ms, r, hv, h => by
    obtain ⟨values, hvalues, h⟩ := bind_eq_ok h
    obtain rfl := Except.ok.inj h
    rw [isValue_obj_iff] at hv
    refine isValue_sortMembers (isValue_obj_iff.mpr ⟨?_, ?_⟩)
    · rw [sortedMembers_keys hvalues]
      exact hv.1
    · exact sortedMembers_value hg ms hv.2 hvalues
theorem sortedMembers_value {g : Str → Except PyError Json}
    (hg : ∀ s r, IsValue py.floatRepr (.str s) → g s = .ok r → IsValue py.floatRepr r) :
    (ms : List (Str × Json)) → ∀ {values : List (Str × Json)},
      (∀ m ∈ ms, Unpaired m.1 ∧ IsValue py.floatRepr m.2) → sortedMembers g ms = .ok values →
      ∀ m ∈ values, Unpaired m.1 ∧ IsValue py.floatRepr m.2
  | [], _, _, h => by
    obtain rfl := Except.ok.inj h
    exact fun m hm => absurd hm List.not_mem_nil
  | (k, v) :: ms, _, hms, h => by
    obtain ⟨value, hvalue, h⟩ := bind_eq_ok h
    obtain ⟨rest, hrest, h⟩ := bind_eq_ok h
    obtain rfl := Except.ok.inj h
    rw [List.forall_mem_cons] at hms
    rw [List.forall_mem_cons]
    exact ⟨⟨hms.1.1, sortedValue_value hg v hms.1.2 hvalue⟩,
      sortedMembers_value hg ms hms.2 hrest⟩
end

theorem sortedText_value {depth : ℕ} {s : Str} {r : Json} (hs : IsValue py.floatRepr (.str s))
    (h : sortedText py depth s = .ok r) : IsValue py.floatRepr r := by
  induction depth generalizing s r with
  | zero => cases h
  | succ depth ih =>
    rcases sortedText_cases h with ⟨-, rfl⟩ | ⟨depth', ms, hdepth, -, hloads, hsorted⟩
    · exact hs
    · obtain rfl := Nat.succ.inj hdepth
      exact sortedValue_value (fun _ _ => ih) (.obj ms) (py.value_loads s _ hloads) hsorted

/-! Whole payloads. -/

theorem printed_of_lookedInto {p : Payload py} (h : p.LookedInto) (depth : ℕ) :
    printed py depth p.given =
      (sortedValue (sortedText py depth) p.value).map fun v => ofText (dumps v) := by
  obtain ⟨hne, hlooks⟩ := h
  have hvaldict : valdict py p.given = .ok p.members := by
    cases p with
    | dict ms value => rfl
    | text t ms object =>
      rw [Payload.given, valdict, if_pos hlooks, object]
      rfl
  rw [printed, sortedPayload, hvaldict]
  change Except.map format (if p.members = [] then _ else _) = _
  rw [if_neg hne, Payload.value]
  cases sortedValue (sortedText py depth) (.obj p.members) <;> rfl

theorem printed_of_not_lookedInto {p : Payload py} (h : ¬ p.LookedInto) (depth : ℕ) :
    printed py depth p.given = .ok p.asText := by
  have hvaldict : valdict py p.given = .ok [] := by
    cases p with
    | dict ms value =>
      have hempty : ms = [] := by
        by_contra hne
        exact h ⟨hne, trivial⟩
      rw [Payload.given, valdict, hempty]
      rfl
    | text t ms object =>
      rw [Payload.given, valdict]
      split
      · next hlooks =>
        have hempty : ms = [] := by
          by_contra hne
          exact h ⟨hne, hlooks⟩
        rw [object, hempty]
        rfl
      · rfl
  rw [printed, sortedPayload, hvaldict]
  rfl

/-- The text of an object that is not empty looks like one. -/
theorem looksLikeObject_dumps {ms : List (Str × Json)} (h : ms ≠ []) :
    looksLikeObject (ofText (dumps (.obj ms))) = true := by
  obtain ⟨⟨k, v⟩, ms, rfl⟩ := List.exists_cons_of_ne_nil h
  have hlast : ∃ inner, dumps (.obj ((k, v) :: ms)) = '{' :: inner ++ ['}'] :=
    ⟨_, by simp only [dumps]; rfl⟩
  obtain ⟨inner, hdumps⟩ := hlast
  have htext : ofText ('{' :: inner ++ ['}']) = (.ch '{' :: ofText inner) ++ [.ch '}'] := by
    simp [ofText]
  rw [hdumps, htext, looksLikeObject, List.getLast?_concat]
  simp

theorem sortedValue_obj {g : Str → Except PyError Json} {ms : List (Str × Json)} {r : Json}
    (hne : ms ≠ []) (h : sortedValue g (.obj ms) = .ok r) : ∃ rs, r = .obj rs ∧ rs ≠ [] := by
  obtain ⟨values, hvalues, h⟩ := bind_eq_ok h
  refine ⟨_, (Except.ok.inj h).symm, fun hempty => hne ?_⟩
  have hkeys := sortedMembers_keys hvalues
  have hvalues : values = [] := by
    have hperm := sortMembers_perm values
    rw [hempty] at hperm
    exact List.nil_perm.mp hperm
  rw [hvalues] at hkeys
  exact List.map_eq_nil_iff.mp hkeys.symm

/-- What is printed is read back as the sorted value. -/
theorem printed_eq_ok {p : Payload py} {depth : ℕ} {s : Str} (hp : p.LookedInto)
    (h : printed py depth p.given = .ok s) : ∃ r,
      sortedValue (sortedText py depth) p.value = .ok r ∧ s = ofText (dumps r) ∧
        py.loads s = .ok r := by
  rw [printed_of_lookedInto hp] at h
  cases hsorted : sortedValue (sortedText py depth) p.value with
  | error e => rw [hsorted] at h; cases h
  | ok r =>
    rw [hsorted] at h
    obtain rfl := Except.ok.inj h
    have hvalue := sortedValue_value (fun _ _ => sortedText_value) p.value p.isValue hsorted
    exact ⟨r, rfl, rfl, loads_dumps_value hvalue⟩

/-- If the sorted value is the value itself, no string of it was taken for an object. -/
theorem plain_of_sortedValue {p : Payload py} {depth : ℕ} {r : Json}
    (h : sortedValue (sortedText py depth) p.value = .ok r) (hobjects : objects r = objects p.value) :
    Plain py p.value ∧ r = normal false p.value := by
  rcases sortedValue_cases (fun _ _ => sortedText_objects) p.value h with hplain | hmore
  · exact hplain
  · omega

theorem equal_refl (p : Payload py) : Equal true p.value p.value :=
  (equal_iff p.value p.isValue.1 p.isValue.1).mpr rfl

/-- What is printed as a payload that is looked into was looked into. -/
theorem lookedInto_of_printed {p q : Payload py} {depth : ℕ} {s : Str}
    (hlength : p.members.length = q.members.length) (hp : p.LookedInto)
    (hprinted : printed py depth p.given = .ok s) (hprinted' : printed py depth q.given = .ok s) :
    q.LookedInto := by
  by_contra hq
  rw [printed_of_not_lookedInto hq] at hprinted'
  obtain ⟨r, hsorted, rfl, -⟩ := printed_eq_ok hp hprinted
  obtain ⟨rs, rfl, hrs⟩ := sortedValue_obj hp.1 hsorted
  have htext : q.asText = ofText (dumps (.obj rs)) := Except.ok.inj hprinted'
  have hne : q.members ≠ [] := by
    rw [← List.length_pos_iff, ← hlength, List.length_pos_iff]
    exact hp.1
  cases q with
  | dict ms value => exact hq ⟨hne, trivial⟩
  | text t ms object =>
    refine hq ⟨hne, ?_⟩
    have hlooks := looksLikeObject_dumps hrs
    rw [← htext] at hlooks
    exact hlooks

/-- A result that is read back as the value leaves every string as it is. -/
theorem sortable_of_lookedInto {p q : Payload py} (hequal : Equal true p.value q.value)
    (hlooked : p.LookedInto) (h : PrintedAlike p q) : Sortable p q := by
  obtain ⟨least, h⟩ := h
  obtain ⟨s, v, hs, hs', hloads, hv⟩ := h least le_rfl
  have hlooked' := lookedInto_of_printed hequal.1 hlooked hs hs'
  have hp := p.isValue.1
  have hq := q.isValue.1
  obtain ⟨r, hsorted, -, hr⟩ := printed_eq_ok hlooked hs
  obtain ⟨r', hsorted', -, hr'⟩ := printed_eq_ok hlooked' hs'
  obtain rfl : r = v := Except.ok.inj (hr.symm.trans hloads)
  obtain rfl : r = r' := Except.ok.inj (hr.symm.trans hr')
  have hobjects : objects r = objects p.value :=
    objects_eq_of_equal (py.value_loads s r hloads).1 hp hv
  have hobjects' : objects r = objects q.value :=
    hobjects.trans (objects_eq_of_equal hp hq hequal)
  obtain ⟨hplain, hnormal⟩ := plain_of_sortedValue hsorted hobjects
  obtain ⟨hplain', hnormal'⟩ := plain_of_sortedValue hsorted' hobjects'
  exact .inl ⟨hlooked, hlooked', hplain, hplain',
    (equal_iff p.value hp hq).mpr (hnormal.symm.trans hnormal')⟩

/-- A plain payload is printed as its normal form. -/
theorem printed_of_plain {p : Payload py} (hlooked : p.LookedInto) (hplain : Plain py p.value)
    (depth : ℕ) : printed py (depth + 1) p.given = .ok (ofText (dumps (normal false p.value))) := by
  rw [printed_of_lookedInto hlooked, sortedValue_of_plain depth p.value hplain]
  rfl

theorem loads_asText {p : Payload py} : py.loads p.asText = .ok p.value := by
  cases p with
  | dict ms value => exact loads_dumps_value value
  | text t ms object => exact object

/-- Payloads of one value are printed alike just if they are sortable. -/
theorem printed_alike_iff {p q : Payload py} (hequal : Equal true p.value q.value) :
    PrintedAlike p q ↔ Sortable p q := by
  have hp := p.isValue.1
  have hq := q.isValue.1
  constructor
  · intro h
    by_cases hlooked : p.LookedInto
    · exact sortable_of_lookedInto hequal hlooked h
    · obtain ⟨least, h⟩ := h
      obtain ⟨s, v, hs, hs', -⟩ := h least le_rfl
      have hlooked' : ¬ q.LookedInto :=
        fun hc => hlooked (lookedInto_of_printed hequal.1.symm hc hs' hs)
      rw [printed_of_not_lookedInto hlooked] at hs
      rw [printed_of_not_lookedInto hlooked'] at hs'
      exact .inr ⟨hlooked, hlooked', Except.ok.inj (hs.trans hs'.symm)⟩
  · rintro (⟨hlooked, hlooked', hplain, hplain', hagree⟩ | ⟨hlooked, hlooked', htext⟩)
    · refine ⟨1, fun depth hdepth => ?_⟩
      obtain ⟨depth, rfl⟩ := Nat.exists_eq_add_of_le' hdepth
      have hprinted := printed_of_plain hlooked hplain depth
      have hprinted' := printed_of_plain hlooked' hplain' depth
      rw [← (equal_iff p.value hp hq).mp hagree] at hprinted'
      obtain ⟨r, hsorted, -, hloads⟩ := printed_eq_ok hlooked hprinted
      obtain rfl : normal false p.value = r :=
        Except.ok.inj ((sortedValue_of_plain depth p.value hplain).symm.trans hsorted)
      refine ⟨_, _, hprinted, hprinted', hloads, ?_⟩
      exact (equal_iff _ (loadable_normal _ hp) hp).mpr (normal_normal p.value hp)
    · refine ⟨0, fun depth _ => ⟨p.asText, p.value, ?_, ?_, loads_asText, equal_refl p⟩⟩
      · exact printed_of_not_lookedInto hlooked depth
      · rw [printed_of_not_lookedInto hlooked', htext]

end

/-! A Python that reads texts without lone surrogates, and floats as they are written. -/

mutual
theorem withReprs_id : (v : Json) → withReprs id v = v
  | .null | .bool _ | .int _ | .float _ | .str _ => rfl
  | .arr xs => congrArg Json.arr (withReprsItems_id xs)
  | .obj ms => congrArg Json.obj (withReprsMembers_id ms)
theorem withReprsItems_id : (xs : List Json) → withReprsItems id xs = xs
  | [] => rfl
  | x :: xs => by rw [withReprsItems, withReprs_id x, withReprsItems_id xs]
theorem withReprsMembers_id : (ms : List (Str × Json)) → withReprsMembers id ms = ms
  | [] => rfl
  | (k, v) :: ms => by rw [withReprsMembers, withReprs_id v, withReprsMembers_id ms]
end

def toText? : Str → Option Text
  | [] => some []
  | .ch c :: s => (toText? s).map (c :: ·)
  | .surrogate _ :: _ => none

theorem toText?_ofText (t : Text) : toText? (ofText t) = some t := by
  induction t with
  | nil => rfl
  | cons c t ih =>
    have hcons : ofText (c :: t) = .ch c :: ofText t := rfl
    rw [hcons, toText?, ih, Option.map_some]

def plainPython : Python where
  floatRepr := id
  loads s := (toText? s).elim (.error .jsonDecodeError) JsonReading.loads
  loads_text t := by
    rw [toText?_ofText, Option.elim_some]
    cases JsonReading.loads t with
    | error e => rfl
    | ok v => exact congrArg Except.ok (withReprs_id v).symm
  value_loads s v h := by
    refine ⟨?_, withReprs_id v⟩
    cases htext : toText? s with
    | none => rw [htext] at h; cases h
    | some t =>
      rw [htext] at h
      exact loadable_of_loads h

def twoMembers : List (Str × Json) := [("b", .int 1), ("a", .int 2)]

theorem isValue_twoMembers : IsValue id (.obj twoMembers) :=
  ⟨⟨by decide, ⟨unpaired_ofText _, trivial⟩, ⟨unpaired_ofText _, trivial⟩, trivial⟩, rfl⟩

def twoPayload : Payload plainPython := .dict twoMembers isValue_twoMembers

def sortedPair : Payload plainPython := .dict (sortMembers twoMembers)
  (isValue_sortMembers isValue_twoMembers)

theorem two_printed_alike : PrintedAlike twoPayload sortedPair ↔ Sortable twoPayload sortedPair :=
  printed_alike_iff ⟨rfl, ⟨.int 1, by decide, rfl⟩, ⟨.int 2, by decide, rfl⟩, trivial⟩

def bracesMembers : List (Str × Json) := [("a", .str "\x7bx\x7d")]

theorem isValue_bracesMembers : IsValue id (.obj bracesMembers) :=
  ⟨⟨by decide, ⟨unpaired_ofText _, unpaired_ofText _⟩, trivial⟩, rfl⟩

/-- A string in braces that is no JSON text. -/
def bracesPayload : Payload plainPython := .dict bracesMembers isValue_bracesMembers

theorem braces_not_printed : ¬ ∀ (py : Python) (p q : Payload py),
    Equal true p.value q.value → PrintedAlike p q := by
  intro h
  obtain ⟨least, hprinted⟩ := h _ bracesPayload bracesPayload (equal_refl bracesPayload)
  obtain ⟨s, v, hs, -, hloads, hv⟩ := hprinted least le_rfl
  have hlooked : bracesPayload.LookedInto := ⟨by decide, trivial⟩
  obtain ⟨r, hsorted, -, hr⟩ := printed_eq_ok hlooked hs
  obtain rfl : r = v := Except.ok.inj (hr.symm.trans hloads)
  have hobjects := objects_eq_of_equal (plainPython.value_loads s r hloads).1
    isValue_bracesMembers.1 hv
  have hplain := (plain_of_sortedValue hsorted hobjects).1
  exact absurd (hplain.1 (by decide)) (by decide +kernel)

end AgentTestHarness.SortedPayloads
