import AgentTestHarness.PercentEncoding
import AgentTestHarness.PyJson
import Mathlib.Data.List.Count
import Mathlib.Data.List.TakeWhile

/-! The HTTP requests of the test harness and the routes of the backchannel that decode
them into commands. -/
namespace AgentTestHarness.CommandRequests
open PyText OrderedDict PyJson PercentEncoding

inductive Method
  | get
  | post
  | delete
  deriving DecidableEq

/-- A request as the client library gets it: a URL without its host, query parameters and
the value for a JSON body. -/
structure Request where
  method : Method
  url : Text
  params : List (Text × Text)
  json : Option Json
  deriving DecidableEq

structure BackchannelCommand where
  topic : Option Text
  operation : Option Text
  recordId : Json
  method : Method
  data : Json
  anoncreds : Json
  deriving DecidableEq

/-! The client. -/

/-- An argument that is the empty string counts as absent. -/
def given (argument : Option Text) : Option Text := argument.filter (· ≠ [])

def anoncredsParams (anoncreds : Bool) : List (Text × Text) :=
  if anoncreds then [("anoncreds".toList, "True".toList)] else []

def withOperation (agentUrl : Text) (operation : Option Text) : Text :=
  match given operation with
  | some operation => agentUrl ++ operation ++ ['/']
  | none => agentUrl

/-- An id with a '/' in it is quoted, other ids are not. -/
def agentBackchannelGET (url topic : Text) (operation id : Option Text) (anoncreds : Bool) :
    Request :=
  let agentUrl := withOperation (url ++ topic ++ ['/']) operation
  let agentUrl := match given id with
    | some id => agentUrl ++ (if '/' ∈ id then quote id else id)
    | none => agentUrl
  ⟨.get, agentUrl, anoncredsParams anoncreds, none⟩

/-- The id and the data go into the payload, if they are truthy. -/
def payloadOf (topic : Text) (id : Option Text) (data : Json) : List (Str × Json) :=
  let payload := if data.truthy then [(("data" : Str), data)] else []
  match given id with
  | some id =>
      if topic = "credential".toList then assign "cred_ex_id" (.str (ofText id)) payload
      else assign "id" (.str (ofText id)) payload
  | none => payload

def agentBackchannelPOST (url topic : Text) (operation id : Option Text) (data : Json)
    (anoncreds : Bool) : Request :=
  ⟨.post, withOperation (url ++ topic ++ ['/']) operation, anoncredsParams anoncreds,
    some (.obj (payloadOf topic id data))⟩

/-- The data are not sent. -/
def agentBackchannelDELETE (url topic : Text) (id : Option Text) (_data : Json) : Request :=
  let agentUrl := url ++ topic ++ ['/']
  let agentUrl := match given id with
    | some id => agentUrl ++ id
    | none => agentUrl
  ⟨.delete, agentUrl, [], none⟩

/-! The URL handling of aiohttp and yarl. -/

/-- A segment that names the place it stands at, or the one above it. -/
def IsDot (s : Text) : Prop := s = ['.'] ∨ s = ['.', '.']

instance : DecidablePred IsDot := fun _ => inferInstanceAs (Decidable (_ ∨ _))

/-- The segments that a route can find in a path. -/
def IsNamed (s : Text) : Prop := s ≠ [] ∧ ¬ IsDot s

instance : DecidablePred IsNamed := fun _ => inferInstanceAs (Decidable (_ ∧ _))

/-- The path goes over the wire requoted and without dot segments, a path variable is unquoted once.
The removal of dot segments may take away other segments, but adds and renames none. -/
structure Yarl where
  requote : Text → Text
  normalize : List Text → List Text
  unquote : Text → Text
  parseQuery : Text → List (Text × Text)
  splitOn_requote : ∀ p, (requote p).splitOn '/' = (p.splitOn '/').map requote
  requote_eq_nil : ∀ s, requote s = [] ↔ s = []
  requote_of_unreserved : ∀ s, (∀ c ∈ s, isUnreserved c = true) → requote s = s
  unquote_requote : ∀ s, unquote (requote s) = unquote s
  unquote_quote : ∀ s, unquote (quote s) = s
  length_unquote_le : ∀ s, (unquote s).length ≤ s.length
  parseQuery_nil : parseQuery [] = []
  normalize_eq_self : ∀ segs, (∀ s ∈ segs, ¬ IsDot s) → normalize segs = segs
  normalize_sublist : ∀ segs,
    ((normalize segs).filter (· ≠ [])).Sublist (segs.filter fun s => IsNamed s)

/-! A URL handling that finds nothing to requote and no query. -/

/-- One segment more; two dots take back the last one. -/
def climb (resolved : List Text) (s : Text) : List Text :=
  if s = ['.', '.'] then resolved.dropLast else if s = ['.'] then resolved else resolved ++ [s]

/-- A path that ends with a dot segment gets a trailing '/'. -/
def removeDots (segs : List Text) : List Text :=
  segs.foldl climb [] ++ if ∃ s ∈ segs.getLast?, IsDot s then [[]] else []

theorem foldl_climb (segs resolved : List Text) (h : ∀ s ∈ segs, ¬ IsDot s) :
    segs.foldl climb resolved = resolved ++ segs := by
  induction segs generalizing resolved with
  | nil => simp
  | cons s segs ih =>
    have hs : ¬ IsDot s := h s List.mem_cons_self
    have hclimb : climb resolved s = resolved ++ [s] := by
      rw [climb, if_neg fun hdots => hs (.inr hdots), if_neg fun hdot => hs (.inl hdot)]
    rw [List.foldl_cons, hclimb, ih _ fun t ht => h t (List.mem_cons_of_mem _ ht),
      List.append_assoc, List.singleton_append]

theorem foldl_climb_sublist (segs resolved : List Text) :
    (segs.foldl climb resolved).Sublist (resolved ++ segs.filter fun s => ¬ IsDot s) := by
  induction segs generalizing resolved with
  | nil => simp
  | cons s segs ih =>
    rw [List.foldl_cons]
    refine (ih (climb resolved s)).trans ?_
    unfold climb
    split_ifs with hdots hdot
    · have hs : IsDot s := .inr hdots
      rw [List.filter_cons_of_neg (by simpa using hs)]
      exact (List.dropLast_sublist resolved).append (List.Sublist.refl _)
    · have hs : IsDot s := .inl hdot
      rw [List.filter_cons_of_neg (by simpa using hs)]
    · have hs : ¬ IsDot s := fun hs => hs.elim hdot hdots
      rw [List.filter_cons_of_pos (by simpa using hs), List.append_assoc, List.singleton_append]

theorem removeDots_eq_self {segs : List Text} (h : ∀ s ∈ segs, ¬ IsDot s) :
    removeDots segs = segs := by
  have hlast : ¬ ∃ s ∈ segs.getLast?, IsDot s := by
    rintro ⟨s, hs, hdot⟩
    exact h s (List.mem_of_getLast? hs) hdot
  rw [removeDots, foldl_climb segs [] h, if_neg hlast, List.nil_append, List.append_nil]

theorem removeDots_sublist (segs : List Text) :
    ((removeDots segs).filter (· ≠ [])).Sublist (segs.filter fun s => IsNamed s) := by
  have hempty : ∀ p : Prop, ∀ [Decidable p],
      (if p then [([] : Text)] else []).filter (· ≠ []) = [] := by
    intro p _
    split <;> rfl
  have hnamed : (segs.filter fun s => IsNamed s) =
      (segs.filter fun s => ¬ IsDot s).filter (· ≠ []) := by
    rw [List.filter_filter]
    exact List.filter_congr fun s _ => Bool.decide_and _ _
  have hsub := (foldl_climb_sublist segs []).filter (· ≠ [])
  rwa [removeDots, List.filter_append, hempty, List.append_nil, hnamed]

/-- The first segment is what stands before the first '/'. -/
def normalizePath : List Text → List Text
  | [] :: segs => [] :: removeDots segs
  | segs => removeDots segs

def plainYarl : Yarl where
  requote := id
  normalize := normalizePath
  unquote := PercentEncoding.unquote
  parseQuery _ := []
  splitOn_requote := by simp
  requote_eq_nil := by simp
  requote_of_unreserved _ _ := rfl
  unquote_requote _ := rfl
  unquote_quote := PercentEncoding.unquote_quote
  length_unquote_le := PercentEncoding.length_unquote_le
  parseQuery_nil := rfl
  normalize_eq_self segs h := by
    unfold normalizePath
    split
    · next segs => rw [removeDots_eq_self fun s hs => h s (List.mem_cons_of_mem _ hs)]
    · exact removeDots_eq_self h
  normalize_sublist segs := by
    unfold normalizePath
    split
    · next segs =>
      rw [List.filter_cons_of_neg (by simp), List.filter_cons_of_neg (by simp [IsNamed])]
      exact removeDots_sublist segs
    · exact removeDots_sublist segs

def endsPath (c : Char) : Bool := c == '?' || c == '#'

def pathOf (url : Text) : Text := url.takeWhile fun c => !endsPath c

def queryOf (url : Text) : Text :=
  match url.dropWhile fun c => !endsPath c with
  | '?' :: rest => rest.takeWhile (· != '#')
  | _ => []

/-! The backchannel. -/

inductive Site
  | command
  | response
  deriving DecidableEq

def Site.name : Site → Text
  | .command => "command".toList
  | .response => "response".toList

def Site.url (site : Site) : Text := "/agent/".toList ++ site.name ++ ['/']

/-- A segment of a route: fixed, or a variable for a nonempty segment. -/
inductive Part
  | lit (s : Text)
  | topic
  | operation
  | id
  deriving DecidableEq

structure MatchInfo where
  topic : Option Text
  operation : Option Text
  id : Option Text
  deriving DecidableEq

def matchParts : List Part → List Text → Option MatchInfo
  | [], [] => some ⟨none, none, none⟩
  | .lit s :: parts, seg :: segs => if seg = s then matchParts parts segs else none
  | .topic :: parts, seg :: segs =>
      if seg = [] then none else (matchParts parts segs).map ({ · with topic := some seg })
  | .operation :: parts, seg :: segs =>
      if seg = [] then none else (matchParts parts segs).map ({ · with operation := some seg })
  | .id :: parts, seg :: segs =>
      if seg = [] then none else (matchParts parts segs).map ({ · with id := some seg })
  | _, _ => none

/-- The empty last segment is a trailing '/'. -/
def routes : List (Method × Site × List Part) :=
  [(.post, .command, [.topic, .lit []]),
    (.post, .command, [.topic]),
    (.post, .command, [.topic, .operation, .lit []]),
    (.post, .command, [.topic, .operation]),
    (.get, .command, [.topic, .lit []]),
    (.get, .command, [.topic]),
    (.get, .command, [.topic, .id, .lit []]),
    (.get, .command, [.topic, .id]),
    (.get, .command, [.topic, .operation, .id, .lit []]),
    (.get, .command, [.topic, .operation, .id]),
    (.delete, .command, [.topic, .id, .lit []]),
    (.delete, .command, [.topic, .id]),
    (.get, .response, [.topic, .lit []]),
    (.get, .response, [.topic]),
    (.get, .response, [.topic, .id, .lit []]),
    (.get, .response, [.topic, .id])]

/-- The first route that fits. -/
def resolve (method : Method) (segs : List Text) : Option MatchInfo :=
  routes.findSome? fun (m, site, parts) =>
    if m = method then matchParts (.lit [] :: .lit "agent".toList :: .lit site.name :: parts) segs
    else none

/-- The value of the first query parameter of a name. -/
def anoncredsValue (query : List (Text × Text)) : Json :=
  match lookup "anoncreds".toList query with
  | none => .bool false
  | some value => if value = "True".toList then .bool true else .str (ofText value)

def strOrNone : Option Text → Json
  | none => .null
  | some s => .str (ofText s)

/-- A POST may carry data and an id in its payload. -/
def parseRequest (topic operation recordId : Option Text) (method : Method)
    (query : List (Text × Text)) (body : Option Json) : Except PyError BackchannelCommand :=
  if (topic.getD []) = [] then .error (.exception "Topic must be provided") else
  let command : BackchannelCommand :=
    ⟨topic, operation, strOrNone recordId, method, .null, anoncredsValue query⟩
  match body with
  | none => .ok command
  | some payload =>
    if method ≠ .post then .ok command else do
    let data ← if ← payload.contains "data" then payload.item "data" else pure .null
    let recordId ← if ← payload.contains "id" then payload.item "id"
      else if ← payload.contains "cred_ex_id" then payload.item "cred_ex_id"
      else pure command.recordId
    pure { command with data, recordId }

/-- What the backchannel makes of a request; none when no route fits. -/
def receive (y : Yarl) (r : Request) : Option (Except PyError BackchannelCommand) :=
  (resolve r.method (y.normalize ((y.requote (pathOf r.url)).splitOn '/'))).map fun info =>
    parseRequest (info.topic.map y.unquote) (info.operation.map y.unquote)
      (info.id.map y.unquote) r.method (y.parseQuery (queryOf r.url) ++ r.params) r.json

/-! The calls of the test steps. -/

/-- A topic or an operation: a nonempty text of unreserved characters. -/
structure Name where
  text : Text
  nonempty : text ≠ []
  unreserved : ∀ c ∈ text, isUnreserved c = true

structure RecordId where
  text : Text
  nonempty : text ≠ []

/-- A GET names an operation only together with an id. -/
inductive Call
  | get (site : Site) (topic : Name) (target : Option (Option Name × RecordId)) (anoncreds : Bool)
  | post (topic : Name) (operation : Option Name) (id : Option RecordId)
      (data : Option (List (Str × Json))) (anoncreds : Bool)
  | delete (topic : Name) (id : RecordId) (data : Option (List (Str × Json)))

def objOrNone : Option (List (Str × Json)) → Json
  | none => .null
  | some members => .obj members

def Call.request : Call → Request
  | .get site topic none anoncreds =>
      agentBackchannelGET site.url topic.text none none anoncreds
  | .get site topic (some (operation, id)) anoncreds =>
      agentBackchannelGET site.url topic.text (operation.map (·.text)) (some id.text) anoncreds
  | .post topic operation id data anoncreds =>
      agentBackchannelPOST Site.command.url topic.text (operation.map (·.text)) (id.map (·.text))
        (objOrNone data) anoncreds
  | .delete topic id data =>
      agentBackchannelDELETE Site.command.url topic.text (some id.text) (objOrNone data)

/-- The command a call means. -/
def Call.command : Call → BackchannelCommand
  | .get _ topic none anoncreds => ⟨some topic.text, none, .null, .get, .null, .bool anoncreds⟩
  | .get _ topic (some (operation, id)) anoncreds =>
      ⟨some topic.text, operation.map (·.text), .str (ofText id.text), .get, .null,
        .bool anoncreds⟩
  | .post topic operation id data anoncreds =>
      ⟨some topic.text, operation.map (·.text), strOrNone (id.map (·.text)), .post,
        objOrNone data, .bool anoncreds⟩
  | .delete topic id data =>
      ⟨some topic.text, none, .str (ofText id.text), .delete, objOrNone data, .bool false⟩

def Decoded (y : Yarl) (call : Call) : Prop := receive y call.request = some (.ok call.command)

/-- An id that survives the way through a URL unquoted: nothing in it ends the path or the
segment, it is no dot segment, and decoding leaves it as it is. -/
structure UrlSafe (y : Yarl) (id : Text) : Prop where
  noSlash : '/' ∉ id
  noQuery : '?' ∉ id
  noFragment : '#' ∉ id
  noDot : ¬ IsDot id
  unescaped : y.unquote id = id

/-- What stands in the path as it is. -/
def Call.names : Call → List Name
  | .get _ topic none _ => [topic]
  | .get _ topic (some (operation, _)) _ => topic :: operation.toList
  | .post topic operation _ _ _ => topic :: operation.toList
  | .delete topic _ _ => [topic]

/-- What is asked of the id and the data. -/
def PartsEncodable (y : Yarl) : Call → Prop
  | .get _ _ none _ => True
  | .get site _ (some (operation, id)) _ =>
      (site = .response → operation = none) ∧ ('/' ∈ id.text ∨ UrlSafe y id.text)
  | .post _ _ _ data _ => data ≠ some []
  | .delete _ id data => data = none ∧ UrlSafe y id.text

def Encodable (y : Yarl) (call : Call) : Prop :=
  (∀ name ∈ call.names, ¬ IsDot name.text) ∧ PartsEncodable y call

theorem given_some {s : Text} (h : s ≠ []) : given (some s) = some s := by
  simp [given, h]

theorem given_id (id : RecordId) : given (some id.text) = some id.text := given_some id.nonempty

theorem given_none : given none = none := rfl

theorem not_endsPath_of_unreserved {c : Char} (h : isUnreserved c = true) :
    endsPath c = false := by
  unfold endsPath
  simp only [Bool.or_eq_false_iff, beq_eq_false_iff_ne]
  constructor
  · rintro rfl
    exact absurd h (by decide)
  · rintro rfl
    exact absurd h (by decide)

theorem pathOf_append {s : Text} (h : ∀ c ∈ s, endsPath c = false) (t : Text) :
    pathOf (s ++ t) = s ++ pathOf t := by
  unfold pathOf
  exact List.takeWhile_append_of_pos (by simpa using h)

theorem queryOf_append {s : Text} (h : ∀ c ∈ s, endsPath c = false) (t : Text) :
    queryOf (s ++ t) = queryOf t := by
  unfold queryOf
  rw [List.dropWhile_append_of_pos (by simpa using h)]

theorem pathOf_eq_self_iff (s : Text) : pathOf s = s ↔ '?' ∉ s ∧ '#' ∉ s := by
  unfold pathOf
  rw [List.takeWhile_eq_self_iff]
  constructor
  · intro h
    exact ⟨fun hm => absurd (h _ hm) (by decide), fun hm => absurd (h _ hm) (by decide)⟩
  · rintro ⟨hq, hf⟩ c hc
    have hne : c ≠ '?' ∧ c ≠ '#' := ⟨fun he => hq (he ▸ hc), fun he => hf (he ▸ hc)⟩
    simp [endsPath, hne.1, hne.2]

theorem pathOf_isPrefix (s : Text) : pathOf s <+: s := List.takeWhile_prefix _

theorem queryOf_of_pathOf_eq {s : Text} (h : pathOf s = s) : queryOf s = [] := by
  unfold queryOf
  have := List.takeWhile_append_dropWhile (p := fun c => !endsPath c) (l := s)
  rw [show s.takeWhile (fun c => !endsPath c) = s from h] at this
  rw [List.append_right_eq_self.mp this]

/-- The part of the path every call begins with. -/
def stem (site : Site) (topic : Name) : Text := site.url ++ topic.text ++ ['/']

theorem url_not_endsPath (site : Site) : ∀ c ∈ site.url, endsPath c = false := by
  cases site <;> decide

theorem stem_not_endsPath (site : Site) (topic : Name) :
    ∀ c ∈ stem site topic, endsPath c = false := by
  intro c hc
  unfold stem at hc
  rcases List.mem_append.mp hc with hc | hc
  · rcases List.mem_append.mp hc with hc | hc
    · exact url_not_endsPath site c hc
    · exact not_endsPath_of_unreserved (topic.unreserved c hc)
  · rw [List.mem_singleton.mp hc]
    decide

theorem slash_not_mem (name : Name) : '/' ∉ name.text :=
  fun h => absurd (name.unreserved _ h) (by decide)

/-- The segments of a path on the wire. -/
theorem segments_stem (y : Yarl) (site : Site) (topic : Name) (tail : Text) :
    (y.requote (stem site topic ++ tail)).splitOn '/' =
      [] :: "agent".toList :: site.name :: topic.text :: (tail.splitOn '/').map y.requote := by
  have hnil : '/' ∉ ([] : Text) := List.not_mem_nil
  have hagent : '/' ∉ "agent".toList := by decide
  have hsite : '/' ∉ site.name := by cases site <;> decide
  have hsplit : (stem site topic ++ tail).splitOn '/' =
      [] :: "agent".toList :: site.name :: topic.text :: tail.splitOn '/' := by
    have hbase : site.url = [] ++ '/' :: ("agent".toList ++ '/' :: (site.name ++ ['/'])) := by
      cases site <;> rfl
    have hurl : stem site topic ++ tail = [] ++ '/' :: ("agent".toList ++ '/' :: (site.name ++
        '/' :: (topic.text ++ '/' :: tail))) := by
      simp only [stem, hbase, List.append_assoc, List.cons_append, List.nil_append]
    rw [hurl, List.splitOn_append_cons_self_of_not_mem hnil,
      List.splitOn_append_cons_self_of_not_mem hagent,
      List.splitOn_append_cons_self_of_not_mem hsite,
      List.splitOn_append_cons_self_of_not_mem (slash_not_mem topic)]
  have hname : y.requote site.name = site.name :=
    y.requote_of_unreserved _ (by cases site <;> decide)
  rw [y.splitOn_requote, hsplit]
  simp only [List.map_cons, hname, y.requote_of_unreserved _ topic.unreserved,
    (y.requote_eq_nil _).mpr, y.requote_of_unreserved "agent".toList (by decide)]

/-! Which route fits. -/

/-- The segments behind the stem of a path. -/
def behindStem (site : Site) (topic : Text) (rest : List Text) : List Text :=
  [] :: "agent".toList :: site.name :: topic :: rest

theorem site_name_inj {a b : Site} : a.name = b.name ↔ a = b := by
  cases a <;> cases b <;> decide

/-- Only the routes of the site and the method count. -/
theorem resolve_behindStem (method : Method) (site : Site) (topic : Text)
    (rest : List Text) :
    resolve method (behindStem site topic rest) =
      routes.findSome? fun (m, s, parts) =>
        if m = method ∧ s = site then matchParts parts (topic :: rest) else none := by
  unfold resolve behindStem
  congr 1
  funext ⟨m, s, parts⟩
  simp only [matchParts, if_true, site_name_inj, eq_comm (a := site)]
  split_ifs <;> simp_all

section Resolve

attribute [local simp] routes matchParts

variable {topic o x : Text} (ht : topic ≠ [])
include ht

theorem resolve_get_topic (site : Site) :
    resolve .get (behindStem site topic [[]]) = some ⟨some topic, none, none⟩ := by
  rw [resolve_behindStem]
  cases site <;> simp [ht]

theorem resolve_get_id (site : Site) (hx : x ≠ []) :
    resolve .get (behindStem site topic [x]) = some ⟨some topic, none, some x⟩ := by
  rw [resolve_behindStem]
  cases site <;> simp [ht, hx]

theorem resolve_get_operation (ho : o ≠ []) (hx : x ≠ []) :
    resolve .get (behindStem .command topic [o, x]) = some ⟨some topic, some o, some x⟩ := by
  rw [resolve_behindStem]
  simp [ht, ho, hx]

theorem resolve_get_response_operation (hx : x ≠ []) :
    resolve .get (behindStem .response topic [o, x]) = none := by
  rw [resolve_behindStem]
  simp [ht, hx]

theorem resolve_get_trailing (site : Site) (ho : o ≠ []) :
    resolve .get (behindStem site topic [o, []]) = some ⟨some topic, none, some o⟩ := by
  rw [resolve_behindStem]
  cases site <;> simp [ht, ho]

theorem resolve_post_topic :
    resolve .post (behindStem .command topic [[]]) = some ⟨some topic, none, none⟩ := by
  rw [resolve_behindStem]
  simp [ht]

theorem resolve_post_operation (ho : o ≠ []) :
    resolve .post (behindStem .command topic [o, []]) = some ⟨some topic, some o, none⟩ := by
  rw [resolve_behindStem]
  simp [ht, ho]

theorem resolve_delete_id (hx : x ≠ []) :
    resolve .delete (behindStem .command topic [x]) = some ⟨some topic, none, some x⟩ := by
  rw [resolve_behindStem]
  simp [ht, hx]

end Resolve

/-! What is decoded. -/

section Decode

variable (y : Yarl) (site : Site) (topic : Name)

theorem unquote_of_unreserved {s : Text} (h : ∀ c ∈ s, isUnreserved c = true) :
    y.unquote s = s := by
  have hquote := y.unquote_quote s
  rwa [quote_of_unreserved h] at hquote

theorem unquote_name (name : Name) : y.unquote name.text = name.text :=
  unquote_of_unreserved y name.unreserved

/-- What stands behind the topic on the wire. -/
def rest (tail : Text) : List Text := ((pathOf tail).splitOn '/').map y.requote

theorem receive_wire (method : Method) (tail : Text) (params : List (Text × Text))
    (body : Option Json) :
    receive y ⟨method, stem site topic ++ tail, params, body⟩ =
      (resolve method (y.normalize (behindStem site topic.text (rest y tail)))).map
        fun info => parseRequest (info.topic.map y.unquote) (info.operation.map y.unquote)
          (info.id.map y.unquote) method (y.parseQuery (queryOf tail) ++ params) body := by
  rw [receive, pathOf_append (stem_not_endsPath site topic),
    queryOf_append (stem_not_endsPath site topic), segments_stem]
  rfl

theorem receive_stem {tail : Text} (hdots : ∀ s ∈ topic.text :: rest y tail, ¬ IsDot s)
    (method : Method) (params : List (Text × Text)) (body : Option Json) :
    receive y ⟨method, stem site topic ++ tail, params, body⟩ =
      (resolve method (behindStem site topic.text (rest y tail))).map
        fun info => parseRequest (info.topic.map y.unquote) (info.operation.map y.unquote)
          (info.id.map y.unquote) method (y.parseQuery (queryOf tail) ++ params) body := by
  have hall : ∀ s ∈ behindStem site topic.text (rest y tail), ¬ IsDot s := by
    have hbase : ∀ s ∈ [[], "agent".toList, site.name], ¬ IsDot s := by cases site <;> decide
    intro s hs
    rcases List.mem_append.mp (show s ∈ [[], "agent".toList, site.name] ++
      (topic.text :: rest y tail) from hs) with hs | hs
    · exact hbase s hs
    · exact hdots s hs
  rw [receive_wire, y.normalize_eq_self _ hall]

/-! Dot segments. -/

/-- How many variables of a route got a value. -/
def MatchInfo.count (info : MatchInfo) : ℕ :=
  info.topic.toList.length + info.operation.toList.length + info.id.toList.length

/-- A variable takes a segment that is not empty. -/
theorem count_le_of_variable {seg : Text} {segs : List Text} {found : Option MatchInfo}
    {f : MatchInfo → MatchInfo} {info : MatchInfo} (hf : ∀ info, (f info).count ≤ info.count + 1)
    (hfound : ∀ info, found = some info → info.count ≤ segs.countP (· ≠ []))
    (h : (if seg = [] then none else found.map f) = some info) :
    info.count ≤ (seg :: segs).countP (· ≠ []) := by
  split at h
  · exact absurd h (by simp)
  · next hseg =>
    obtain ⟨info', hinfo', rfl⟩ := Option.map_eq_some_iff.mp h
    rw [List.countP_cons_of_pos (by simpa using hseg)]
    exact (hf info').trans (Nat.succ_le_succ (hfound info' hinfo'))

theorem count_le_of_matchParts {parts : List Part} {segs : List Text} {info : MatchInfo}
    (h : matchParts parts segs = some info) : info.count ≤ segs.countP (· ≠ []) := by
  induction parts generalizing segs info with
  | nil =>
    cases segs with
    | nil => obtain rfl := Option.some.inj h; exact Nat.zero_le _
    | cons seg segs => exact absurd h (by simp [matchParts])
  | cons part parts ih =>
    cases segs with
    | nil => exact absurd h (by cases part <;> simp [matchParts])
    | cons seg segs =>
      cases part with
      | lit s =>
        rw [matchParts] at h
        split at h
        · exact (ih h).trans ((List.sublist_cons_self seg segs).countP_le)
        · exact absurd h (by simp)
      | topic =>
        refine count_le_of_variable (fun info => ?_) (fun info => ih) h
        simp only [MatchInfo.count, Option.toList_some, List.length_singleton]
        omega
      | operation =>
        refine count_le_of_variable (fun info => ?_) (fun info => ih) h
        simp only [MatchInfo.count, Option.toList_some, List.length_singleton]
        omega
      | id =>
        refine count_le_of_variable (fun info => ?_) (fun info => ih) h
        simp only [MatchInfo.count, Option.toList_some, List.length_singleton]
        omega

theorem matchParts_lit {s : Text} {parts : List Part} {segs : List Text} {info : MatchInfo}
    (h : matchParts (.lit s :: parts) segs = some info) :
    ∃ found, segs = s :: found ∧ matchParts parts found = some info := by
  cases segs with
  | nil => exact absurd h (by simp [matchParts])
  | cons seg segs =>
    rw [matchParts] at h
    split at h
    · next heq => exact ⟨segs, by rw [heq], h⟩
    · exact absurd h (by simp)

theorem resolve_cases {method : Method} {segs : List Text} {info : MatchInfo}
    (h : resolve method segs = some info) : ∃ site parts found,
      segs = [] :: "agent".toList :: Site.name site :: found ∧
        matchParts parts found = some info := by
  obtain ⟨⟨m, site, parts⟩, -, hroute⟩ := List.exists_of_findSome?_eq_some h
  simp only at hroute
  split at hroute
  · obtain ⟨agent, hsegs, hagent⟩ := matchParts_lit hroute
    obtain ⟨name, hname, hsite⟩ := matchParts_lit hagent
    obtain ⟨found, hfound, hparts⟩ := matchParts_lit hsite
    exact ⟨site, parts, found, by rw [hsegs, hname, hfound], hparts⟩
  · exact absurd hroute (by simp)

/-- Behind the empty first segment the stem has two more. -/
theorem countP_stem {p : Text → Bool} (hnil : p [] = false) (hagent : p "agent".toList = true)
    {site : Site} (hsite : p site.name = true) (segs : List Text) :
    ([] :: "agent".toList :: site.name :: segs).countP p = segs.countP p + 2 := by
  rw [List.countP_cons_of_neg (by simp [hnil]), List.countP_cons_of_pos hagent,
    List.countP_cons_of_pos hsite]

/-- A route finds its values among the segments behind the stem that are named. -/
theorem count_le_of_resolve {method : Method} {site : Site} {topic : Text} {segs : List Text}
    {info : MatchInfo} (h : resolve method (y.normalize (behindStem site topic segs)) = some info) :
    info.count ≤ (topic :: segs).countP fun s => IsNamed s := by
  obtain ⟨site', parts, found, hwire, hfound⟩ := resolve_cases h
  have hlength := (y.normalize_sublist (behindStem site topic segs)).length_le
  rw [← List.countP_eq_length_filter, ← List.countP_eq_length_filter, hwire, behindStem,
    countP_stem (by decide) (by decide) (by cases site' <;> decide),
    countP_stem (by decide) (by decide) (by cases site <;> decide)] at hlength
  exact (count_le_of_matchParts hfound).trans (Nat.le_of_add_le_add_right hlength)

/-- The topic and the operation of a command are those of the path, and so is the id of a request
without a payload. -/
theorem parseRequest_keeps {topic operation recordId : Option Text} {method : Method}
    {query : List (Text × Text)} {body : Option Json} {command : BackchannelCommand}
    (h : parseRequest topic operation recordId method query body = .ok command) :
    command.topic = topic ∧ command.operation = operation ∧
      (body = none → command.recordId = strOrNone recordId ∧ command.data = .null) := by
  unfold parseRequest at h
  split at h
  · exact absurd h (by simp)
  cases body with
  | none =>
    obtain rfl := Except.ok.inj h
    exact ⟨rfl, rfl, fun _ => ⟨rfl, rfl⟩⟩
  | some payload =>
    suffices command.topic = topic ∧ command.operation = operation from
      ⟨this.1, this.2, fun hbody => absurd hbody (by simp)⟩
    simp only at h
    split at h
    · obtain rfl := Except.ok.inj h
      exact ⟨rfl, rfl⟩
    · obtain ⟨hasData, -, h⟩ := bind_eq_ok h
      split at h <;> obtain ⟨data, -, h⟩ := bind_eq_ok h <;>
        obtain ⟨hasId, -, h⟩ := bind_eq_ok h <;> obtain ⟨hasCredExId, -, h⟩ := bind_eq_ok h <;>
        split_ifs at h <;> obtain ⟨recordId, -, h⟩ := bind_eq_ok h <;>
        obtain rfl := Except.ok.inj h <;> exact ⟨rfl, rfl⟩

/-- What a command says that came with a request. -/
theorem resolved_of_received {method : Method} {tail : Text} {params : List (Text × Text)}
    {body : Option Json} {command : BackchannelCommand}
    (h : receive y ⟨method, stem site topic ++ tail, params, body⟩ = some (.ok command)) :
    ∃ info, resolve method (y.normalize (behindStem site topic.text (rest y tail))) = some info ∧
      command.topic = info.topic.map y.unquote ∧
      command.operation = info.operation.map y.unquote ∧
      (body = none → command.recordId = strOrNone (info.id.map y.unquote) ∧
        command.data = .null) := by
  rw [receive_wire] at h
  obtain ⟨info, hinfo, hcommand⟩ := Option.map_eq_some_iff.mp h
  obtain ⟨htopic, hoperation, hid⟩ := parseRequest_keeps hcommand
  exact ⟨info, hinfo, htopic, hoperation, hid⟩

/-- A command with more values than named segments behind the stem does not come out. -/
theorem not_received {method : Method} {tail : Text} {params : List (Text × Text)}
    {body : Option Json} {command : BackchannelCommand}
    (h : ((topic.text :: rest y tail).countP fun s => IsNamed s) <
      command.topic.toList.length + command.operation.toList.length +
        if body = none ∧ command.recordId ≠ .null then 1 else 0) :
    receive y ⟨method, stem site topic ++ tail, params, body⟩ ≠ some (.ok command) := by
  intro hreceived
  obtain ⟨info, hinfo, htopic, hoperation, hid⟩ := resolved_of_received y site topic hreceived
  have hcount := count_le_of_resolve y hinfo
  have hid' : (if body = none ∧ command.recordId ≠ .null then 1 else 0) ≤ info.id.toList.length := by
    split
    · next hgiven =>
      have hrecord := (hid hgiven.1).1
      cases hinfoid : info.id with
      | none => exact absurd (by rw [hrecord, hinfoid]; rfl) hgiven.2
      | some x => exact le_rfl
    · exact Nat.zero_le _
  rw [htopic, hoperation, Option.length_toList, Option.length_toList] at h
  simp only [MatchInfo.count, Option.length_toList, Option.isSome_map] at hcount h hid'
  omega

/-- A dot segment is not named. -/
theorem countP_isNamed_lt (segs : List Text) (h : ∃ s ∈ segs, IsDot s) :
    (segs.countP fun s => IsNamed s) < segs.length := by
  obtain ⟨s, hs, hdot⟩ := h
  exact List.countP_lt_length_iff.mpr ⟨s, hs, decide_eq_false fun hnamed => hnamed.2 hdot⟩

theorem anoncredsValue_params (anoncreds : Bool) :
    anoncredsValue (anoncredsParams anoncreds) = .bool anoncreds := by
  cases anoncreds <;> decide

theorem parseRequest_bodyless (operation recordId : Option Text) (method : Method)
    (query : List (Text × Text)) :
    parseRequest (some topic.text) operation recordId method query none =
      .ok ⟨some topic.text, operation, strOrNone recordId, method, .null,
        anoncredsValue query⟩ := by
  simp [parseRequest, topic.nonempty]

/-- The rest of a path that is one segment. -/
theorem rest_single {s : Text} (h : '/' ∉ s) : rest y s = [y.requote (pathOf s)] := by
  rw [rest, List.splitOn_eq_singleton fun hm => h ((pathOf_isPrefix s).subset hm)]
  rfl

theorem rest_nil : rest y [] = [[]] := by
  simp [rest, pathOf, y.requote_eq_nil []]

theorem name_not_endsPath (name : Name) : ∀ c ∈ name.text ++ ['/'], endsPath c = false := by
  intro c hc
  rcases List.mem_append.mp hc with hc | hc
  · exact not_endsPath_of_unreserved (name.unreserved c hc)
  · rw [List.mem_singleton.mp hc]
    decide

theorem pathOf_name_append (name : Name) (s : Text) :
    pathOf (name.text ++ '/' :: s) = name.text ++ '/' :: pathOf s := by
  have hpath := pathOf_append (name_not_endsPath name) s
  simpa using hpath

theorem queryOf_name_append (name : Name) (s : Text) :
    queryOf (name.text ++ '/' :: s) = queryOf s := by
  have hquery := queryOf_append (name_not_endsPath name) s
  simpa using hquery

theorem rest_operation (operation : Name) {s : Text} (h : '/' ∉ s) :
    rest y (operation.text ++ '/' :: s) = [operation.text, y.requote (pathOf s)] := by
  rw [rest, pathOf_name_append, List.splitOn_append_cons_self_of_not_mem (slash_not_mem operation),
    List.map_cons, y.requote_of_unreserved _ operation.unreserved]
  exact congrArg (operation.text :: ·) (rest_single y h)

theorem rest_operation_nil (operation : Name) :
    rest y (operation.text ++ '/' :: []) = [operation.text, []] := by
  rw [rest_operation y operation List.not_mem_nil, show pathOf [] = [] from rfl,
    (y.requote_eq_nil _).mpr rfl]

theorem strOrNone_eq_str (s : Option Text) (t : Text) :
    strOrNone s = .str (ofText t) ↔ s = some t := by
  cases s <;> simp [strOrNone]

theorem forall_not_isDot_iff {s t : Text} :
    (∀ x ∈ [s, t], ¬ IsDot x) ↔ ¬ IsDot s ∧ ¬ IsDot t := by simp

/-- What a text at the end of a GET must be to be decoded as the id: the id is what precedes its
first '?' or '#', and what follows there leaves the flag as it is. -/
def DecodesTo (s id : Text) (anoncreds : Bool) : Prop :=
  ¬ IsDot (y.requote (pathOf s)) ∧ pathOf s ≠ [] ∧ y.unquote (pathOf s) = id ∧
    anoncredsValue (y.parseQuery (queryOf s) ++ anoncredsParams anoncreds) = .bool anoncreds

theorem decoded_get_id (htopic : ¬ IsDot topic.text) {s : Text} (hs : '/' ∉ s) (id : RecordId)
    (anoncreds : Bool) :
    receive y ⟨.get, stem site topic ++ s, anoncredsParams anoncreds, none⟩ =
        some (.ok ⟨some topic.text, none, .str (ofText id.text), .get, .null, .bool anoncreds⟩) ↔
      DecodesTo y s id.text anoncreds := by
  rw [DecodesTo]
  by_cases hdot : IsDot (y.requote (pathOf s))
  · have hlt := countP_isNamed_lt [topic.text, y.requote (pathOf s)] ⟨_, by simp, hdot⟩
    simp only [hdot, not_true_eq_false, false_and, iff_false]
    exact not_received y site topic (by rw [rest_single y hs]; exact hlt)
  have hdots : ∀ x ∈ topic.text :: rest y s, ¬ IsDot x := by
    rw [rest_single y hs]
    exact forall_not_isDot_iff.mpr ⟨htopic, hdot⟩
  rw [receive_stem y site topic hdots, rest_single y hs]
  rcases eq_or_ne (pathOf s) [] with hp | hp
  · rw [(y.requote_eq_nil _).mpr hp, resolve_get_topic topic.nonempty]
    simp [unquote_name, parseRequest_bodyless, strOrNone, hp]
  · rw [resolve_get_id topic.nonempty site fun h => hp ((y.requote_eq_nil _).mp h)]
    simp [unquote_name, parseRequest_bodyless, y.unquote_requote, strOrNone, hp, hdot]

theorem decoded_get_operation (htopic : ¬ IsDot topic.text) {operation : Name}
    (hoperation : ¬ IsDot operation.text) {s : Text} (hs : '/' ∉ s) (id : RecordId)
    (anoncreds : Bool) :
    receive y ⟨.get, stem .command topic ++ (operation.text ++ '/' :: s),
        anoncredsParams anoncreds, none⟩ =
        some (.ok ⟨some topic.text, some operation.text, .str (ofText id.text), .get, .null,
          .bool anoncreds⟩) ↔
      DecodesTo y s id.text anoncreds := by
  rw [DecodesTo]
  by_cases hdot : IsDot (y.requote (pathOf s))
  · have hlt := countP_isNamed_lt [topic.text, operation.text, y.requote (pathOf s)]
      ⟨_, by simp, hdot⟩
    simp only [hdot, not_true_eq_false, false_and, iff_false]
    exact not_received y .command topic (by rw [rest_operation y operation hs]; exact hlt)
  have hdots : ∀ x ∈ topic.text :: rest y (operation.text ++ '/' :: s), ¬ IsDot x := by
    rw [rest_operation y operation hs]
    exact List.forall_mem_cons.mpr ⟨htopic, forall_not_isDot_iff.mpr ⟨hoperation, hdot⟩⟩
  rw [receive_stem y .command topic hdots, rest_operation y operation hs, queryOf_name_append]
  rcases eq_or_ne (pathOf s) [] with hp | hp
  · rw [(y.requote_eq_nil _).mpr hp, resolve_get_trailing topic.nonempty _ operation.nonempty]
    simp [unquote_name, parseRequest_bodyless, hp]
  · rw [resolve_get_operation topic.nonempty operation.nonempty
      fun h => hp ((y.requote_eq_nil _).mp h)]
    simp [unquote_name, parseRequest_bodyless, y.unquote_requote, strOrNone, hp, hdot]

/-- The response routes know no operation. -/
theorem not_decoded_response_operation (htopic : ¬ IsDot topic.text) {operation : Name}
    (hoperation : ¬ IsDot operation.text) {s : Text} (hs : '/' ∉ s) (anoncreds : Bool)
    (command : BackchannelCommand) (htopic' : command.topic ≠ none) (h : command.operation ≠ none)
    (hid : command.recordId ≠ .null) :
    receive y ⟨.get, stem .response topic ++ (operation.text ++ '/' :: s),
        anoncredsParams anoncreds, none⟩ ≠ some (.ok command) := by
  by_cases hdot : IsDot (y.requote (pathOf s))
  · have hlt := countP_isNamed_lt [topic.text, operation.text, y.requote (pathOf s)]
      ⟨_, by simp, hdot⟩
    refine not_received y .response topic ?_
    obtain ⟨t, ht⟩ := Option.ne_none_iff_exists'.mp htopic'
    obtain ⟨o, ho⟩ := Option.ne_none_iff_exists'.mp h
    rw [rest_operation y operation hs, ht, ho, if_pos ⟨rfl, hid⟩]
    exact hlt
  have hdots : ∀ x ∈ topic.text :: rest y (operation.text ++ '/' :: s), ¬ IsDot x := by
    rw [rest_operation y operation hs]
    exact List.forall_mem_cons.mpr ⟨htopic, forall_not_isDot_iff.mpr ⟨hoperation, hdot⟩⟩
  rw [receive_stem y .response topic hdots, rest_operation y operation hs]
  rcases eq_or_ne (pathOf s) [] with hp | hp
  · rw [(y.requote_eq_nil _).mpr hp, resolve_get_trailing topic.nonempty _ operation.nonempty]
    intro hc
    simp only [Option.map_some, unquote_name, parseRequest_bodyless, Option.some.injEq,
      Except.ok.injEq, Option.map_none] at hc
    exact h (hc ▸ rfl)
  · rw [resolve_get_response_operation topic.nonempty fun h => hp ((y.requote_eq_nil _).mp h)]
    simp

/-- Nothing shorter than an id is unquoted to it. -/
theorem pathOf_eq_of_unquote {id : Text} (h : y.unquote (pathOf id) = id) : pathOf id = id := by
  have hle := y.length_unquote_le (pathOf id)
  rw [h] at hle
  exact (pathOf_isPrefix id).eq_of_length_le hle

theorem isUnreserved_of_isDot {s : Text} (h : IsDot s) : ∀ c ∈ s, isUnreserved c = true := by
  rcases h with rfl | rfl <;> decide

theorem unquote_of_isDot {s : Text} (h : IsDot s) : y.unquote s = s :=
  unquote_of_unreserved y (isUnreserved_of_isDot h)

/-- Requoting makes no dot segment of an id that decoding leaves as it is. -/
theorem isDot_requote_iff {s : Text} (h : y.unquote s = s) : IsDot (y.requote s) ↔ IsDot s := by
  constructor
  · intro hdot
    have hunquote := unquote_of_isDot y hdot
    rw [y.unquote_requote, h] at hunquote
    rwa [hunquote]
  · intro hdot
    rwa [y.requote_of_unreserved s (isUnreserved_of_isDot hdot)]

/-- For an id sent as it is, being decoded is being safe in a URL. -/
theorem decoded_raw_iff {id : RecordId} (hs : '/' ∉ id.text) (anoncreds : Bool) :
    DecodesTo y id.text id.text anoncreds ↔ UrlSafe y id.text := by
  constructor
  · rintro ⟨hdot, -, h, -⟩
    have hp := pathOf_eq_of_unquote y h
    obtain ⟨hq, hf⟩ := (pathOf_eq_self_iff _).mp hp
    rw [hp] at h hdot
    exact ⟨hs, hq, hf, fun hid => hdot ((isDot_requote_iff y h).mpr hid), h⟩
  · intro safe
    have hp := (pathOf_eq_self_iff _).mpr ⟨safe.noQuery, safe.noFragment⟩
    rw [DecodesTo, hp, queryOf_of_pathOf_eq hp, y.parseQuery_nil, List.nil_append,
      anoncredsValue_params, isDot_requote_iff y safe.unescaped]
    exact ⟨safe.noDot, id.nonempty, safe.unescaped, rfl⟩

/-- A quoted id is always decoded. -/
theorem decoded_quoted {id : RecordId} (hs : '/' ∈ id.text) (anoncreds : Bool) :
    DecodesTo y (quote id.text) id.text anoncreds := by
  have hp : pathOf (quote id.text) = quote id.text :=
    (pathOf_eq_self_iff _).mpr ⟨not_mem_quote (by decide) (by decide) _,
      not_mem_quote (by decide) (by decide) _⟩
  have hne : quote id.text ≠ [] := by
    intro h
    have := length_le_length_quote id.text
    rw [h, List.length_nil, Nat.le_zero, List.length_eq_zero_iff] at this
    exact id.nonempty this
  have hdot : ¬ IsDot (y.requote (quote id.text)) := by
    intro hdot
    have hunquote := unquote_of_isDot y hdot
    rw [y.unquote_requote, y.unquote_quote] at hunquote
    rw [hunquote] at hs
    rcases hdot with h | h <;> rw [h] at hs <;> exact absurd hs (by decide)
  rw [DecodesTo, hp, queryOf_of_pathOf_eq hp, y.parseQuery_nil, List.nil_append,
    anoncredsValue_params]
  exact ⟨hdot, hne, y.unquote_quote _, rfl⟩

/-- What is read from the payload of a POST. -/
theorem parseRequest_payload (operation : Option Text) (query : List (Text × Text))
    (payload : List (Str × Json)) :
    parseRequest (some topic.text) operation none .post query (some (.obj payload)) =
      .ok ⟨some topic.text, operation,
        (lookup ("id" : Str) payload).getD ((lookup ("cred_ex_id" : Str) payload).getD .null),
        .post, (lookup ("data" : Str) payload).getD .null, anoncredsValue query⟩ := by
  simp only [parseRequest, Option.getD_some, topic.nonempty, if_false, Json.contains, Json.item]
  cases hdata : lookup ("data" : Str) payload <;> cases hid : lookup ("id" : Str) payload <;>
    cases hcred : lookup ("cred_ex_id" : Str) payload <;>
    simp [bind, Except.bind, pure, Except.pure, strOrNone]

theorem lookup_payload (topic : Text) (id : Option RecordId) (data : Json) :
    (lookup ("id" : Str) (payloadOf topic (id.map (·.text)) data)).getD
        ((lookup ("cred_ex_id" : Str) (payloadOf topic (id.map (·.text)) data)).getD .null) =
        strOrNone (id.map (·.text)) ∧
      (lookup ("data" : Str) (payloadOf topic (id.map (·.text)) data)).getD .null =
        if data.truthy then data else .null := by
  have hdi : ("data" : Str) ≠ ("id" : Str) := by decide
  have hdc : ("data" : Str) ≠ ("cred_ex_id" : Str) := by decide
  have hic : ("id" : Str) ≠ ("cred_ex_id" : Str) := by decide
  unfold payloadOf
  generalize ("data" : Str) = d at *
  generalize ("id" : Str) = i at *
  generalize ("cred_ex_id" : Str) = c at *
  cases id with
  | none => cases data.truthy <;> simp [given_none, lookup, hdi, hdc, strOrNone]
  | some id =>
    simp only [Option.map_some, given_id, strOrNone]
    split_ifs <;> simp [lookup_assign, lookup, hdi, hdc, hic]

theorem mem_of_matchParts {parts : List Part} {segs : List Text} {info : MatchInfo} {x : Text}
    (h : matchParts parts segs = some info) (hx : info.id = some x) : x ∈ segs ∧ x ≠ [] := by
  induction parts generalizing segs info with
  | nil =>
    cases segs with
    | nil => obtain rfl := Option.some.inj h; exact absurd hx (by simp)
    | cons seg segs => exact absurd h (by simp [matchParts])
  | cons part parts ih =>
    cases segs with
    | nil => exact absurd h (by cases part <;> simp [matchParts])
    | cons seg segs =>
      have later : ∀ {info' : MatchInfo}, matchParts parts segs = some info' →
          info'.id = some x → x ∈ seg :: segs ∧ x ≠ [] := by
        intro info' hinfo' hid
        obtain ⟨hmem, hne⟩ := ih hinfo' hid
        exact ⟨List.mem_cons_of_mem _ hmem, hne⟩
      cases part with
      | lit s =>
        obtain ⟨found, hfound, hparts⟩ := matchParts_lit h
        exact later ((List.cons.inj hfound).2 ▸ hparts) hx
      | topic =>
        rw [matchParts] at h
        split at h
        · exact absurd h (by simp)
        · obtain ⟨info', hinfo', rfl⟩ := Option.map_eq_some_iff.mp h
          exact later hinfo' hx
      | operation =>
        rw [matchParts] at h
        split at h
        · exact absurd h (by simp)
        · obtain ⟨info', hinfo', rfl⟩ := Option.map_eq_some_iff.mp h
          exact later hinfo' hx
      | id =>
        rw [matchParts] at h
        split at h
        · exact absurd h (by simp)
        · next hseg =>
          obtain ⟨info', -, rfl⟩ := Option.map_eq_some_iff.mp h
          obtain rfl := Option.some.inj hx
          exact ⟨List.mem_cons_self, hseg⟩

/-- The id that a route finds is a named segment of the path. -/
theorem named_of_resolve {method : Method} {segs : List Text} {info : MatchInfo} {x : Text}
    (h : resolve method (y.normalize segs) = some info) (hx : info.id = some x) :
    x ∈ segs ∧ IsNamed x := by
  obtain ⟨site, parts, found, hwire, hfound⟩ := resolve_cases h
  obtain ⟨hmem, hne⟩ := mem_of_matchParts hfound hx
  have hfilter : x ∈ (y.normalize segs).filter (· ≠ []) := by
    refine List.mem_filter.mpr ⟨?_, by simpa using hne⟩
    rw [hwire]
    exact List.mem_cons_of_mem _ (List.mem_cons_of_mem _ (List.mem_cons_of_mem _ hmem))
  obtain ⟨hin, hnamed⟩ := List.mem_filter.mp ((y.normalize_sublist segs).subset hfilter)
  exact ⟨hin, of_decide_eq_true hnamed⟩

theorem infix_of_mem_intercalate {sep piece : Text} {pieces : List Text} (h : piece ∈ pieces) :
    piece <:+: sep.intercalate pieces := by
  induction pieces with
  | nil => exact absurd h List.not_mem_nil
  | cons first pieces ih =>
    cases pieces with
    | nil =>
      rw [List.mem_singleton.mp h, List.intercalate_singleton]
    | cons second pieces =>
      rw [List.intercalate_cons_cons]
      rcases List.mem_cons.mp h with rfl | h
      · rw [List.append_assoc]
        exact (List.prefix_append piece _).isInfix
      · exact (ih h).trans (List.suffix_append _ _).isInfix

theorem infix_of_mem_splitOn {t piece : Text} (h : piece ∈ t.splitOn '/') : piece <:+: t := by
  have hinfix : piece <:+: ['/'].intercalate (t.splitOn '/') := infix_of_mem_intercalate h
  rwa [List.intercalate_splitOn] at hinfix

/-- A segment of a path that is unquoted to the id at its end is that id. -/
theorem safe_of_segment {id x : Text} {site : Site}
    (hx : x ∈ behindStem site topic.text (rest y id)) (hnamed : IsNamed x)
    (hid : y.unquote x = id) : UrlSafe y id ∧ y.requote id = x := by
  have hfixed : ∀ t : Text, (∀ c ∈ t, isUnreserved c = true) → x = t →
      UrlSafe y id ∧ y.requote id = x := by
    rintro t hunreserved rfl
    obtain rfl : x = id := (unquote_of_unreserved y hunreserved).symm.trans hid
    have hno : ∀ c : Char, isUnreserved c = false → c ∉ x :=
      fun c hc hmem => absurd (hunreserved c hmem) (by simp [hc])
    exact ⟨⟨hno '/' (by decide), hno '?' (by decide), hno '#' (by decide), hnamed.2, hid⟩,
      y.requote_of_unreserved x hunreserved⟩
  rcases List.mem_cons.mp hx with hnil | hx
  · exact absurd hnil hnamed.1
  rcases List.mem_cons.mp hx with hagent | hx
  · exact hfixed _ (by decide) hagent
  rcases List.mem_cons.mp hx with hsite | hx
  · exact hfixed _ (by cases site <;> decide) hsite
  rcases List.mem_cons.mp hx with htopic | hx
  · exact hfixed _ topic.unreserved htopic
  · obtain ⟨piece, hpiece, rfl⟩ := List.mem_map.mp hx
    rw [y.unquote_requote] at hid
    have hinfix := infix_of_mem_splitOn hpiece
    have hle := y.length_unquote_le piece
    have hprefix := pathOf_isPrefix id
    rw [hid] at hle
    have hpath : pathOf id = id := hprefix.eq_of_length_le (hle.trans hinfix.length_le)
    rw [hpath] at hinfix hpiece
    obtain rfl : piece = id := hinfix.eq_of_length_le hle
    obtain ⟨hq, hf⟩ := (pathOf_eq_self_iff _).mp hpath
    exact ⟨⟨not_mem_of_mem_splitOn hpiece, hq, hf,
      fun hdot => hnamed.2 ((isDot_requote_iff y hid).mpr hdot), hid⟩, rfl⟩

/-- A DELETE is decoded to its id only if the id is safe and the topic is no dot segment. -/
theorem safe_of_received {id : RecordId} {command : BackchannelCommand}
    (h : receive y ⟨.delete, stem .command topic ++ id.text, [], none⟩ = some (.ok command))
    (htopic : command.topic ≠ none) (hid : command.recordId = .str (ofText id.text)) :
    UrlSafe y id.text ∧ ¬ IsDot topic.text := by
  obtain ⟨info, hinfo, -, -, hrecord⟩ := resolved_of_received y .command topic h
  obtain ⟨x, hx, hunquote⟩ : ∃ x, info.id = some x ∧ y.unquote x = id.text := by
    have hstr := (hrecord rfl).1.symm.trans hid
    rw [strOrNone_eq_str] at hstr
    exact Option.map_eq_some_iff.mp hstr
  obtain ⟨hmem, hnamed⟩ := named_of_resolve y hinfo hx
  obtain ⟨safe, hrequote⟩ := safe_of_segment y topic hmem hnamed hunquote
  refine ⟨safe, fun hdot => ?_⟩
  have hp := (pathOf_eq_self_iff _).mpr ⟨safe.noQuery, safe.noFragment⟩
  have hlt := countP_isNamed_lt [topic.text, y.requote id.text] ⟨_, by simp, hdot⟩
  refine not_received y .command topic ?_ h
  obtain ⟨t, ht⟩ := Option.ne_none_iff_exists'.mp htopic
  rw [rest_single y safe.noSlash, hp, ht, if_pos ⟨rfl, by simp [hid]⟩]
  simp only [List.length_cons, List.length_nil, Option.toList_some] at hlt ⊢
  omega

theorem truthy_or_none (data : Option (List (Str × Json))) :
    (if (objOrNone data).truthy then objOrNone data else .null) = objOrNone data ↔
      data ≠ some [] := by
  cases data with
  | none => simp [objOrNone, Json.truthy]
  | some members => cases members <;> simp [objOrNone, Json.truthy]

end Decode

/-! The calls as requests. -/

theorem request_get (site : Site) (topic : Name) (anoncreds : Bool) :
    Call.request (.get site topic none anoncreds) =
      ⟨.get, stem site topic ++ [], anoncredsParams anoncreds, none⟩ := by
  simp [Call.request, agentBackchannelGET, withOperation, stem, given_none]

/-- The id as it stands in the URL. -/
def sent (id : RecordId) : Text := if '/' ∈ id.text then quote id.text else id.text

theorem request_get_id (site : Site) (topic : Name) (id : RecordId) (anoncreds : Bool) :
    Call.request (.get site topic (some (none, id)) anoncreds) =
      ⟨.get, stem site topic ++ sent id, anoncredsParams anoncreds, none⟩ := by
  simp [Call.request, agentBackchannelGET, withOperation, stem, sent, given_none, given_id]

theorem request_get_operation (site : Site) (topic operation : Name) (id : RecordId)
    (anoncreds : Bool) : Call.request (.get site topic (some (some operation, id)) anoncreds) =
      ⟨.get, stem site topic ++ (operation.text ++ '/' :: sent id), anoncredsParams anoncreds,
        none⟩ := by
  simp [Call.request, agentBackchannelGET, withOperation, stem, sent, given_id,
    given_some operation.nonempty]

theorem request_post (topic : Name) (id : Option RecordId) (data : Option (List (Str × Json)))
    (anoncreds : Bool) : Call.request (.post topic none id data anoncreds) =
      ⟨.post, stem .command topic ++ [], anoncredsParams anoncreds,
        some (.obj (payloadOf topic.text (id.map (·.text)) (objOrNone data)))⟩ := by
  simp [Call.request, agentBackchannelPOST, withOperation, stem, given_none]

theorem request_post_operation (topic operation : Name) (id : Option RecordId)
    (data : Option (List (Str × Json))) (anoncreds : Bool) :
    Call.request (.post topic (some operation) id data anoncreds) =
      ⟨.post, stem .command topic ++ (operation.text ++ '/' :: []), anoncredsParams anoncreds,
        some (.obj (payloadOf topic.text (id.map (·.text)) (objOrNone data)))⟩ := by
  simp [Call.request, agentBackchannelPOST, withOperation, stem, given_some operation.nonempty]

theorem request_delete (topic : Name) (id : RecordId) (data : Option (List (Str × Json))) :
    Call.request (.delete topic id data) = ⟨.delete, stem .command topic ++ id.text, [], none⟩ := by
  simp [Call.request, agentBackchannelDELETE, stem, given_id]

theorem slash_not_mem_sent (id : RecordId) : '/' ∉ sent id := by
  unfold sent
  split
  · exact not_mem_quote (by decide) (by decide) id.text
  · next hs => exact hs

/-- A sent id is decoded if it was quoted or is safe. -/
theorem decoded_sent_iff (y : Yarl) (id : RecordId) (anoncreds : Bool) :
    DecodesTo y (sent id) id.text anoncreds ↔ '/' ∈ id.text ∨ UrlSafe y id.text := by
  unfold sent
  split
  · next hs => exact iff_of_true (decoded_quoted y hs anoncreds) (.inl hs)
  · next hs => exact (decoded_raw_iff y hs anoncreds).trans (or_iff_right hs).symm

/-- A name that is a dot segment is lost on the way. -/
theorem names_of_decoded (y : Yarl) {call : Call} (h : Decoded y call) :
    ∀ name ∈ call.names, ¬ IsDot name.text := by
  intro name hname hdot
  -- without the dot segment there are fewer segments than the command has values
  have hlast : ∀ names : List Name, name ∈ names →
      ((names.map Name.text ++ [[]]).countP fun s => IsNamed s) < names.length := by
    intro names hmem
    have hlt := countP_isNamed_lt (names.map (·.text)) ⟨name.text, List.mem_map_of_mem hmem, hdot⟩
    rw [List.length_map] at hlt
    rw [List.countP_append]
    exact hlt
  have hsegment : ∀ (names : List Name) (s : Text), name ∈ names →
      ((names.map Name.text ++ [s]).countP fun s => IsNamed s) < names.length + 1 := by
    intro names s hmem
    have hlt := countP_isNamed_lt (names.map Name.text ++ [s])
      ⟨name.text, List.mem_append_left _ (List.mem_map_of_mem hmem), hdot⟩
    rwa [List.length_append, List.length_map] at hlt
  match call with
  | .get site topic none anoncreds =>
    rw [Decoded, request_get] at h
    refine not_received y site topic ?_ h
    rw [rest_nil]
    exact hlast [topic] hname
  | .get site topic (some (none, id)) anoncreds =>
    rw [Decoded, request_get_id] at h
    refine not_received y site topic ?_ h
    rw [rest_single y (slash_not_mem_sent id), if_pos ⟨rfl, by simp [Call.command]⟩]
    exact hsegment [topic] _ hname
  | .get site topic (some (some operation, id)) anoncreds =>
    rw [Decoded, request_get_operation] at h
    refine not_received y site topic ?_ h
    rw [rest_operation y operation (slash_not_mem_sent id), if_pos ⟨rfl, by simp [Call.command]⟩]
    exact hsegment [topic, operation] _ hname
  | .post topic none id data anoncreds =>
    rw [Decoded, request_post] at h
    refine not_received y .command topic ?_ h
    rw [rest_nil]
    exact hlast [topic] hname
  | .post topic (some operation) id data anoncreds =>
    rw [Decoded, request_post_operation] at h
    refine not_received y .command topic ?_ h
    rw [rest_operation_nil]
    exact hlast [topic, operation] hname
  | .delete topic id data =>
    rw [Decoded, request_delete] at h
    obtain rfl := List.mem_singleton.mp hname
    exact (safe_of_received y name h (by simp [Call.command]) rfl).2 hdot

theorem decoded_get (y : Yarl) (site : Site) (topic : Name)
    (target : Option (Option Name × RecordId)) (anoncreds : Bool)
    (hnames : ∀ name ∈ (Call.get site topic target anoncreds).names, ¬ IsDot name.text) :
    Decoded y (.get site topic target anoncreds) ↔
      PartsEncodable y (.get site topic target anoncreds) := by
  have htopic : ¬ IsDot topic.text := hnames topic (by
    match target with
    | none => exact List.mem_singleton_self topic
    | some (_, _) => exact List.mem_cons_self)
  match target with
  | none =>
    have hdots : ∀ s ∈ topic.text :: rest y [], ¬ IsDot s := by
      rw [rest_nil]
      exact forall_not_isDot_iff.mpr ⟨htopic, by decide⟩
    rw [Decoded, request_get, receive_stem y site topic hdots, rest_nil,
      resolve_get_topic topic.nonempty]
    simp [unquote_name, parseRequest_bodyless, Call.command, PartsEncodable, queryOf,
      y.parseQuery_nil, anoncredsValue_params, strOrNone]
  | some (none, id) =>
    rw [Decoded, request_get_id]
    have hdecoded := (decoded_get_id y site topic htopic (slash_not_mem_sent id) id anoncreds).trans
      (decoded_sent_iff y id anoncreds)
    simpa [PartsEncodable, Call.command] using hdecoded
  | some (some operation, id) =>
    have hoperation : ¬ IsDot operation.text :=
      hnames operation (List.mem_cons_of_mem _ (List.mem_singleton_self operation))
    rw [Decoded, request_get_operation]
    cases site with
    | response =>
      have hno := not_decoded_response_operation y topic htopic hoperation (slash_not_mem_sent id)
        anoncreds (Call.command (.get .response topic (some (some operation, id)) anoncreds))
        (by simp [Call.command]) (by simp [Call.command]) (by simp [Call.command])
      simpa [PartsEncodable] using hno
    | command =>
      have hdecoded := (decoded_get_operation y topic htopic hoperation (slash_not_mem_sent id) id
        anoncreds).trans (decoded_sent_iff y id anoncreds)
      simpa [PartsEncodable, Call.command] using hdecoded

theorem decoded_post (y : Yarl) (topic : Name) (operation : Option Name) (id : Option RecordId)
    (data : Option (List (Str × Json))) (anoncreds : Bool)
    (hnames : ∀ name ∈ (Call.post topic operation id data anoncreds).names, ¬ IsDot name.text) :
    Decoded y (.post topic operation id data anoncreds) ↔
      PartsEncodable y (.post topic operation id data anoncreds) := by
  obtain ⟨hid, hdata⟩ := lookup_payload topic.text id (objOrNone data)
  have htopic : ¬ IsDot topic.text := hnames topic List.mem_cons_self
  have hquery : ∀ b, anoncredsValue (y.parseQuery (queryOf []) ++ anoncredsParams b) = .bool b := by
    intro b
    rw [show queryOf [] = [] from rfl, y.parseQuery_nil, List.nil_append, anoncredsValue_params]
  match operation with
  | none =>
    have hdots : ∀ s ∈ topic.text :: rest y [], ¬ IsDot s := by
      rw [rest_nil]
      exact forall_not_isDot_iff.mpr ⟨htopic, by decide⟩
    rw [Decoded, request_post, receive_stem y .command topic hdots, rest_nil,
      resolve_post_topic topic.nonempty]
    simp only [Option.map_some, Option.map_none, unquote_name, parseRequest_payload, hid, hdata,
      hquery, Option.some.injEq, Except.ok.injEq, Call.command, BackchannelCommand.mk.injEq,
      true_and, and_true, truthy_or_none, PartsEncodable]
  | some operation =>
    have hoperation : ¬ IsDot operation.text :=
      hnames operation (List.mem_cons_of_mem _ (List.mem_singleton_self operation))
    have hrest := rest_operation_nil y operation
    have hdots : ∀ s ∈ topic.text :: rest y (operation.text ++ '/' :: []), ¬ IsDot s := by
      rw [hrest]
      exact List.forall_mem_cons.mpr
        ⟨htopic, forall_not_isDot_iff.mpr ⟨hoperation, by decide⟩⟩
    rw [Decoded, request_post_operation, receive_stem y .command topic hdots, hrest,
      queryOf_name_append, resolve_post_operation topic.nonempty operation.nonempty]
    simp only [Option.map_some, Option.map_none, unquote_name, parseRequest_payload, hid, hdata,
      hquery, Option.some.injEq, Except.ok.injEq, Call.command, BackchannelCommand.mk.injEq,
      true_and, and_true, truthy_or_none, PartsEncodable]

theorem decoded_delete (y : Yarl) (topic : Name) (id : RecordId)
    (data : Option (List (Str × Json)))
    (hnames : ∀ name ∈ (Call.delete topic id data).names, ¬ IsDot name.text) :
    Decoded y (.delete topic id data) ↔ PartsEncodable y (.delete topic id data) := by
  have htopic : ¬ IsDot topic.text := hnames topic (List.mem_singleton_self topic)
  rw [Decoded, request_delete]
  constructor
  · intro h
    obtain ⟨_, -, -, -, hbody⟩ := resolved_of_received y .command topic h
    refine ⟨?_, (safe_of_received y topic h (by simp [Call.command]) rfl).1⟩
    cases data with
    | none => rfl
    | some members => exact absurd (hbody rfl).2 (by simp [Call.command, objOrNone])
  · rintro ⟨rfl, safe⟩
    have hp := (pathOf_eq_self_iff _).mpr ⟨safe.noQuery, safe.noFragment⟩
    have hrest : rest y id.text = [y.requote id.text] := by rw [rest_single y safe.noSlash, hp]
    have hdots : ∀ s ∈ topic.text :: rest y id.text, ¬ IsDot s := by
      rw [hrest]
      exact forall_not_isDot_iff.mpr
        ⟨htopic, fun hdot => safe.noDot ((isDot_requote_iff y safe.unescaped).mp hdot)⟩
    rw [receive_stem y .command topic hdots, hrest, queryOf_of_pathOf_eq hp, y.parseQuery_nil,
      resolve_delete_id topic.nonempty fun h => id.nonempty ((y.requote_eq_nil _).mp h)]
    simp [unquote_name, parseRequest_bodyless, y.unquote_requote, safe.unescaped, strOrNone,
      Call.command, objOrNone, anoncredsValue]

end AgentTestHarness.CommandRequests
