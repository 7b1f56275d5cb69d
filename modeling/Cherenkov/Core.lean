import Cherenkov.Protocol

/-! The traits of `cherenkov-core` as records of functions. Kinds and brokers are stateful and get
their state explicitly. The authenticator, the ACL checker and the schema validator are arbitrary
functions of their arguments and of an environment value that each call is handed anew, so two calls
with equal arguments may still answer differently. A clock reading is an argument of the kind
operation that takes it. Of an ACL with rules, the first rule that matches decides; a compiled glob
is the predicate it denotes. -/

namespace Cherenkov

structure ChannelCursor where
  epoch : Nat
  offset : Nat
  deriving DecidableEq, Repr

inductive ChannelError where
  | invalidChannel (channel : String)
  | rejectedPublication (reason : String)
  | other (message : String)
  deriving DecidableEq, Repr

inductive BrokerError where
  | publishRejected (topic reason : String)
  | unavailable (message : String)
  | other (message : String)
  deriving DecidableEq, Repr

inductive SchemaError where
  | payloadRejected (channel reason : String)
  | other (message : String)
  deriving DecidableEq, Repr

inductive AuthError where
  | invalidToken (reason : String)
  | other (message : String)
  deriving DecidableEq, Repr

structure SessionClaims where
  subject : String
  permissions : List String
  expiresAt : Nat
  deriving DecidableEq, Repr

def SessionClaims.anonymous : SessionClaims := ⟨"anonymous", [], 0⟩

inductive AclAction where
  | subscribe
  | publish
  deriving DecidableEq, Repr

def AclAction.asStr : AclAction → String
  | .subscribe => "subscribe"
  | .publish => "publish"

inductive AclDecision where
  | allow
  | deny
  deriving DecidableEq, Repr

inductive AclError where
  | denied (subject action channel reason : String)
  | other (message : String)
  deriving DecidableEq, Repr

inductive HubError where
  | sessionGone (sessionId : Nat)
  | unknownChannel (channel : String)
  | alreadySubscribed (sessionId : Nat) (channel : String)
  | notSubscribed (sessionId : Nat) (channel : String)
  | channel (e : ChannelError)
  | broker (e : BrokerError)
  | schema (e : SchemaError)
  | auth (e : AuthError)
  | acl (e : AclError)
  | notConnected (sessionId : Nat)
  | alreadyConnected (sessionId : Nat)
  deriving DecidableEq, Repr

def ChannelError.display : ChannelError → String
  | .invalidChannel channel => "invalid channel name: " ++ channel
  | .rejectedPublication reason => "publication rejected by channel kind: " ++ reason
  | .other message => "channel kind error: " ++ message

def BrokerError.display : BrokerError → String
  | .publishRejected topic reason => "broker rejected publish on `" ++ topic ++ "`: " ++ reason
  | .unavailable message => "broker backend unavailable: " ++ message
  | .other message => "broker error: " ++ message

def SchemaError.display : SchemaError → String
  | .payloadRejected channel reason =>
      "payload rejected by schema for `" ++ channel ++ "`: " ++ reason
  | .other message => "schema validator error: " ++ message

def AuthError.display : AuthError → String
  | .invalidToken reason => "invalid token: " ++ reason
  | .other message => "authenticator error: " ++ message

def AclError.display : AclError → String
  | .denied subject action channel reason =>
      "session `" ++ subject ++ "` denied " ++ action ++ " on `" ++ channel ++ "`: " ++ reason
  | .other message => "acl checker error: " ++ message

def HubError.display : HubError → String
  | .sessionGone sessionId =>
      "session " ++ toString sessionId ++ " is not registered or has been closed"
  | .unknownChannel name => "no channel kind registered for `" ++ name ++ "`"
  | .alreadySubscribed sessionId name =>
      "session " ++ toString sessionId ++ " is already subscribed to `" ++ name ++ "`"
  | .notSubscribed sessionId name =>
      "session " ++ toString sessionId ++ " is not subscribed to `" ++ name ++ "`"
  | .channel e => "channel kind error: " ++ e.display
  | .broker e => "broker error: " ++ e.display
  | .schema e => "schema validation failed: " ++ e.display
  | .auth e => "authentication failed: " ++ e.display
  | .acl e => "acl check failed: " ++ e.display
  | .notConnected sessionId => "session " ++ toString sessionId ++ " has not connected"
  | .alreadyConnected sessionId => "session " ++ toString sessionId ++ " is already connected"

/-- A class of channels over states `κ`. -/
structure ChannelKind (κ : Type*) where
  onSubscribe : κ → Nat → String → κ × Except ChannelError ChannelCursor
  onUnsubscribe : κ → Nat → String → κ × Except ChannelError Unit
  onPublish : κ → Nat → String → Bytes → κ × Except ChannelError Publication
  replaySince : κ → Nat → String → Nat → κ × Except ChannelError (List Publication)

/-- Outcome of polling a broker stream once. A lagged poll yields no item and is
followed by another poll of the same stream. -/
inductive Poll where
  | ready (p : Publication)
  | lagged (skipped : Nat)
  | pending
  | finished

/-- A propagation layer over states `β` whose subscriptions are streams `τ`. -/
structure Broker (β τ : Type*) where
  subscribe : β → String → β × Except BrokerError τ
  publish : β → String → Publication → β × Except BrokerError Unit
  next : β → τ → β × Poll
  dropStream : β → τ → β

/-- The authenticator, ACL checker and schema validator plugged into a hub. -/
structure Gate (ε : Type*) where
  allowAnonymous : Bool
  authenticate : ε → String → Except AuthError SessionClaims
  check : ε → SessionClaims → AclAction → String → Except AclError AclDecision
  validate : ε → String → Bytes → Except SchemaError Unit

/-- The defaults of the builder: `AllowAllAuthenticator`, `AllowAllAcl`, `AllowAllValidator`. -/
def Gate.allowAll : Gate Unit where
  allowAnonymous := true
  authenticate _ _ := .ok .anonymous
  check _ _ _ _ := .ok .allow
  validate _ _ _ := .ok ()

/-- The part of a channel name before the first `.`, or the whole name. -/
def namespaceOf (channel : String) : String :=
  String.ofList (channel.toList.takeWhile (· ≠ '.'))

/-- A built hub. Kind instances are numbered, so that several namespaces may share one. -/
structure Hub (κ β τ ε : Type*) where
  gate : Gate ε
  kinds : ChannelKind κ
  broker : Broker β τ
  kind : Nat
  namespaceKinds : String → Option Nat

def Hub.kindFor {κ β τ ε : Type*} (H : Hub κ β τ ε) (channel : String) : Nat :=
  (H.namespaceKinds (namespaceOf channel)).getD H.kind

end Cherenkov

namespace Cherenkov

inductive AclMatch where
  | subscribe
  | publish
  | any
  deriving DecidableEq, Repr

def AclMatch.covers : AclMatch → AclAction → Bool
  | .any, _ => true
  | .subscribe, .subscribe => true
  | .publish, .publish => true
  | _, _ => false

inductive Effect where
  | allow
  | deny
  deriving DecidableEq, Repr

structure AclRule where
  effect : Effect
  channel : String → Bool
  subject : Option (String → Bool)
  action : AclMatch

def AclRule.allow (channel : String → Bool) (action : AclMatch) : AclRule :=
  ⟨.allow, channel, none, action⟩

def AclRule.deny (channel : String → Bool) (action : AclMatch) : AclRule :=
  ⟨.deny, channel, none, action⟩

def AclRule.matches (rule : AclRule) (claims : SessionClaims) (action : AclAction)
    (channel : String) : Bool :=
  if !rule.action.covers action then false
  else if rule.subject.any fun glob => !glob claims.subject then false
  else rule.channel channel

structure NamespaceAcl where
  rules : List AclRule
  defaultAllow : Bool

def NamespaceAcl.check (acl : NamespaceAcl) (claims : SessionClaims) (action : AclAction)
    (channel : String) : AclDecision :=
  match acl.rules.find? fun rule => rule.matches claims action channel with
  | some rule =>
      match rule.effect with
      | .allow => .allow
      | .deny => .deny
  | none => if acl.defaultAllow then .allow else .deny

/-- A gate with this ACL that is open otherwise. -/
def NamespaceAcl.gate (acl : NamespaceAcl) : Gate Unit :=
  { Gate.allowAll with check := fun _ claims action channel => .ok (acl.check claims action channel) }

end Cherenkov
