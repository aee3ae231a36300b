import AgentTestHarness.JsonReading
import AgentTestHarness.JsonWriting

/-! `agent_state_translation` of the ACA-Py and the AFGO backchannel: the state in a JSON
text is replaced by textual replacement over the whole text. -/
namespace AgentTestHarness.StateTranslation
open PyText OrderedDict PyJson JsonReading JsonWriting

abbrev Table := List (Text × Text)

def table (entries : List (String × String)) : Table :=
  entries.map fun e => (e.1.toList, e.2.toList)

/-- The state alone is replaced, or `"state": "..."` in just this spelling. -/
inductive Style
  | bare
  | stateValue
  deriving DecidableEq

def pattern (style : Style) (state : Text) : Text :=
  match style with
  | .bare => state
  | .stateValue => "\"state\": \"".toList ++ state ++ ['"']

theorem pattern_stateValue (s : Text) :
    pattern .stateValue s = '"' :: "state".toList ++ ['"', ':', ' ', '"'] ++ s ++ ['"'] :=
  congrArg (fun t : Text => t ++ s ++ ['"'])
    (by decide +kernel : "\"state\": \"".toList = '"' :: "state".toList ++ ['"', ':', ' ', '"'])

/-- `replace_state_values` or `data.replace`. -/
def replaceState (style : Style) (oldState newState data : Text) : Text :=
  replace (pattern style oldState) (pattern style newState) data

/-- `table[agent_state]`, with the state as a text. -/
def tableEntry (t : Table) (agentState : Json) : Except PyError (Text × Text) :=
  match agentState with
  | .arr _ => .error .typeError
  | .obj _ => .error .typeError
  | .str s => match t.find? fun e => ofText e.1 = s with
    | some e => .ok e
    | none => .error .keyError
  | _ => .error .keyError

def isIn (part data : Text) : Bool := decide (part <:+: data)

namespace Acapy

def connectionStateTranslationDict : Table :=
  table [("invitation", "invited"), ("request", "requested"), ("response", "responded"),
    ("active", "complete")]

def issueCredentialStateTranslationDict : Table :=
  table [("proposal_sent", "proposal-sent"), ("proposal_received", "proposal-received"),
    ("offer_sent", "offer-sent"), ("offer_received", "offer-received"),
    ("request_sent", "request-sent"), ("request_received", "request-received"),
    ("credential_issued", "credential-issued"), ("credential_received", "credential-received"),
    ("credential_acked", "done"), ("deleted", "done")]

def presentProofStateTranslationDict : Table :=
  table [("request_sent", "request-sent"), ("request_received", "request-received"),
    ("proposal_sent", "proposal-sent"), ("proposal_received", "proposal-received"),
    ("presentation_sent", "presentation-sent"),
    ("presentation_received", "presentation-received"), ("reject_sent", "reject-sent"),
    ("verified", "done"), ("presentation_acked", "done")]

def didExchangeResponderStateTranslationDict : Table :=
  table [("initial", "invitation-sent"), ("invitation", "invitation-sent"),
    ("request", "request-received"), ("response", "response-sent"), ("?", "abandoned"),
    ("active", "completed"), ("completed", "completed")]

def didExchangeRequesterStateTranslationDict : Table :=
  table [("initial", "invitation-sent"), ("invitation", "invitation-received"),
    ("request", "request-sent"), ("response", "response-received"), ("?", "abandoned"),
    ("active", "completed")]

/-- The role is found by its text anywhere in the data; without one the variable stays unbound
although a role is given. -/
def deStateTransMethod (data : Text) : Option Table :=
  if isIn "their_role".toList data then
    if isIn "invitee".toList data then some didExchangeResponderStateTranslationDict
    else if isIn "inviter".toList data then some didExchangeRequesterStateTranslationDict
    else none
  else some didExchangeResponderStateTranslationDict

/-- How a topic is translated, if it is; the table may be unbound. -/
def method (topic data : Text) : Option (Style × Option Table) :=
  if topic = "connection".toList then
    if isIn "didexchange/1.0".toList data || isIn "didexchange/1.1".toList data then
      some (.stateValue, deStateTransMethod data)
    else some (.bare, some connectionStateTranslationDict)
  else if topic = "issue-credential".toList then
    some (.bare, some issueCredentialStateTranslationDict)
  else if topic = "proof".toList then some (.stateValue, some presentProofStateTranslationDict)
  else if topic = "out-of-band".toList ∨ topic = "did-exchange".toList then
    some (.stateValue, deStateTransMethod data)
  else none

def agentStateTranslation (topic data : Text) : Except PyError Text := do
  let respJson ← loads data
  if ← respJson.contains "state" then
    let agentState ← respJson.item "state"
    match method topic data with
    | none => pure data
    | some (_, none) => throw .unboundLocalError
    | some (style, some t) =>
      let (oldState, newState) ← tableEntry t agentState
      pure (replaceState style oldState newState data)
  else pure data

end Acapy

namespace Afgo

def connectionResponderStateTranslationDict : Table :=
  table [("invited", "invitation-received"), ("invitation", "invited"),
    ("requested", "request-received"), ("responded", "response-sent"),
    ("response", "responded"), ("invitation-sent", "invitation-sent"),
    ("completed", "completed")]

def connectionRequesterStateTranslationDict : Table :=
  table [("invited", "invitation-received"), ("invitation", "invited"),
    ("requested", "request-sent"), ("response", "responded"), ("completed", "completed")]

def issueCredentialStateTranslationDict : Table :=
  table [("proposal_sent", "proposal-sent"), ("proposal_received", "proposal-received"),
    ("offer_sent", "offer-sent"), ("offer_received", "offer-received"),
    ("request_sent", "request-sent"), ("request_received", "request-received"),
    ("credential-issued", "credential-issued"), ("credential-received", "credential-received"),
    ("done", "done")]

def presentProofStateTranslationDict : Table :=
  table [("request-sent", "request-sent"), ("request-received", "request-received"),
    ("proposal-sent", "proposal-sent"), ("proposal-received", "proposal-received"),
    ("presentation-sent", "presentation-sent"),
    ("presentation-received", "presentation-received"), ("done", "done"),
    ("abandoned", "abandoned")]

def isConnection (topic : Text) : Bool :=
  topic = "connection".toList ∨ topic = "did-exchange".toList

def isProof (topic : Text) : Bool := topic = "proof".toList ∨ topic = "proof-v2".toList

def method (topic : Text) (operation : Option Text) : Option (Style × Table) :=
  if isConnection topic then
    if operation = some "send-request".toList then
      some (.bare, connectionRequesterStateTranslationDict)
    else some (.bare, connectionResponderStateTranslationDict)
  else if topic = "issue-credential".toList ∨ topic = "issue-credential-v2".toList ∨
      topic = "issue-credential-v3".toList then
    some (.bare, issueCredentialStateTranslationDict)
  else if isProof topic then some (.stateValue, presentProofStateTranslationDict)
  else if topic = "out-of-band".toList then
    some (.stateValue, connectionResponderStateTranslationDict)
  else none

/-- The send-response quickly goes to the completed state: wherever the data speak of it, it
is swapped, whatever the state is. -/
def swapsCompleted (topic : Text) (operation : Option Text) (data : Text) : Bool :=
  isConnection topic && operation = some "send-response".toList && isIn "completed".toList data

def agentStateTranslation (topic : Text) (operation : Option Text) (data : Text) :
    Except PyError Text := do
  let respJson ← loads data
  if ← respJson.contains "state" then
    let agentState ← respJson.item "state"
    if swapsCompleted topic operation data then
      pure (replace "completed".toList "response-sent".toList data)
    else match method topic operation with
      | none => pure data
      | some (style, t) =>
        let (oldState, newState) ← tableEntry t agentState
        pure (replaceState style oldState newState data)
  else if topic = "out-of-band".toList then
    if operation = some "send-invitation-message".toList then
      match respJson with
      | .obj ms => pure (dumps (.obj (assign "service"
          (.str ("[\"did:sov:BzCbsNYhMrjHiqZDTUASHg;spec/didexchange/v1.0\"]" : Str))
          (assign "state" (.str ("invitation-sent" : Str)) ms))))
      | _ => throw .typeError
    else pure data
  else if isProof topic ∧ (operation = some "send-request".toList ∨
      operation = some "send-presentation".toList) then
    pure (dumps respJson)
  else pure data

end Afgo

end AgentTestHarness.StateTranslation
