import AgentTestHarness.AdminPosts

/-! `map_test_json_to_admin_api_json` of the ACA-Py backchannel: the data of a proof command in the
form that the admin API expects. -/
namespace AgentTestHarness.PresentationMapping
open PyText OrderedDict PyJson

/-- `value.get(key, default)` -/
def getOr (j : Json) (key : Str) (default : Json) : Except PyError Json :=
  match j with
  | .obj ms => .ok ((lookup key ms).getD default)
  | _ => .error .attributeError

abbrev empty : Json := .obj []

def withConnection (connectionId : Json) (adminData : List (Str × Json)) : List (Str × Json) :=
  if connectionId.truthy then assign "connection_id" connectionId adminData else adminData

/-- The request for an indy proof, from its name to the interval of non-revocation. -/
def proofRequest (requestData : Json) : Except PyError Json := do
  let requestedAttributes ← getOr requestData "requested_attributes" empty
  let requestedPredicates ← getOr requestData "requested_predicates" empty
  let proofRequestName ← getOr requestData "name" (.str "test proof")
  let proofRequestVersion ← getOr requestData "version" (.str "1.0")
  let nonRevoked ← requestData.get "non_revoked"
  let members : List (Str × Json) := [("name", proofRequestName), ("version", proofRequestVersion),
    ("requested_attributes", requestedAttributes), ("requested_predicates", requestedPredicates)]
  pure (.obj (if nonRevoked = .null then members else assign "non_revoked" nonRevoked members))

/-- What is presented, for a format of credentials with attributes. -/
def presented (data : Json) : Except PyError (List (Str × Json)) := do
  let requestedAttributes ← getOr data "requested_attributes" empty
  let requestedPredicates ← getOr data "requested_predicates" empty
  let selfAttestedAttributes ← getOr data "self_attested_attributes" empty
  pure [("requested_attributes", requestedAttributes),
    ("requested_predicates", requestedPredicates),
    ("self_attested_attributes", selfAttestedAttributes)]

namespace Proof

def mapRequest (data : Json) : Except PyError Json := do
  let presentationRequest ← getOr data "presentation_request" empty
  let request ← getOr presentationRequest "proof_request" empty
  let requestData ← getOr request "data" empty
  let request ← proofRequest requestData
  let connectionId ← data.get "connection_id"
  let comment ← (← data.item "presentation_request").item "comment"
  pure (.obj (withConnection connectionId
    [("comment", comment), ("trace", .bool false), ("proof_request", request)]))

/-- The names of a proposal are not those of a request. -/
def mapProposal (data : Json) : Except PyError Json := do
  let proposalData ← getOr data "presentation_proposal" empty
  let attributes ← getOr proposalData "attributes" (.arr [])
  let predicates ← getOr proposalData "predicates" (.arr [])
  let connectionId ← data.get "connection_id"
  let comment ← (← data.item "presentation_proposal").item "comment"
  pure (.obj (withConnection connectionId
    [("comment", comment), ("trace", .bool false),
      ("presentation_proposal", .obj [("attributes", attributes), ("predicates", predicates)])]))

def mapPresentation (data : Json) : Except PyError Json := do
  let presented ← presented data
  let comment ← data.item "comment"
  pure (.obj (("comment", comment) :: presented))

def mapTestJson (operation : Option Text) (data : Json) : Except PyError Json :=
  if operation = some "send-request".toList ∨ operation = some "create-request".toList then
    mapRequest data
  else if operation = some "send-proposal".toList then mapProposal data
  else if operation = some "send-presentation".toList then mapPresentation data
  else .ok data

end Proof

namespace ProofV2

def isIndy (credFormat : Json) : Prop := credFormat = .str "indy" ∨ credFormat = .str "anoncreds"

instance (credFormat : Json) : Decidable (isIndy credFormat) := inferInstanceAs (Decidable (_ ∨ _))

def notSpecified : PyError := .exception "Credential format not specified for presentation"

/-- The text of the exception names the format; nothing reads it. -/
def unknownFormat : PyError := .exception "Unknown credential format"

/-- The value under the name of a format; `credFormat` is a text here. -/
def underFormat (credFormat value : Json) : List (Str × Json) :=
  match credFormat with
  | .str name => [(name, value)]
  | _ => []

def mapFormats (credFormat presRequestData : Json) : Except PyError Json :=
  if credFormat = .null then .error notSpecified
  else if isIndy credFormat then
    (proofRequest presRequestData).map fun request => .obj (underFormat credFormat request)
  else if credFormat = .str "json-ld" then .ok (.obj [("dif", presRequestData)])
  else .error unknownFormat

def mapRequest (data : Json) : Except PyError Json := do
  let presentationRequestOrig ← getOr data "presentation_request" empty
  let presRequestData ← getOr presentationRequestOrig "data" empty
  let credFormat ← presentationRequestOrig.get "format"
  let presentationRequest ← mapFormats credFormat presRequestData
  let comment ← presentationRequestOrig.item "comment"
  let connectionId ← presentationRequestOrig.get "connection_id"
  pure (.obj (withConnection connectionId
    [("comment", comment), ("trace", .bool false), ("presentation_request", presentationRequest)]))

/-- `presentation.pop("format")` of a copy. -/
def withoutFormat : Json → Json
  | .obj ms => .obj (remove "format" ms)
  | data => data

def mapPresentation (data : Json) : Except PyError Json := do
  let credFormat ← data.get "format"
  let presentationData ←
    if credFormat = .null then Except.error notSpecified
    else if isIndy credFormat then
      (presented data).map fun presented => underFormat credFormat (.obj presented)
    else if credFormat = .str "json-ld" then .ok [(("dif" : Str), withoutFormat data)]
    else .error unknownFormat
  let comment ← getOr data "comment" (.str "some comment")
  pure (.obj (assign "comment" comment presentationData))

def mapTestJson (operation : Option Text) (data : Json) : Except PyError Json :=
  if operation = some "send-request".toList ∨ operation = some "create-request".toList then
    mapRequest data
  else if operation = some "send-presentation".toList then mapPresentation data
  else .ok data

end ProofV2

end AgentTestHarness.PresentationMapping
