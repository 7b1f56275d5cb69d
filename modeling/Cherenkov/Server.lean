import Mathlib.Order.Defs.LinearOrder
import Cherenkov.Library.Message
import Cherenkov.Crdt
import Cherenkov.Jwt
import Cherenkov.Core
import Cherenkov.Schema
import Cherenkov.MemoryBroker
import Cherenkov.Hub.Course

/-! `build_hub` composes kinds, broker, validator, authenticator and ACL from a `ServerConfig`. What
it takes from outside the process is a `Host`: files, globs, JSON, the document engines, token
parsing and the broker clients. Kind instances are numbered in the order in which they are
registered, the default kind first; durations are in seconds. -/

namespace Cherenkov

open Fallible

variable {ν ω δ υ δ' β τ ε κ α : Type}

/-- A `BTreeMap` from a configuration file: its entries in the order of their keys. -/
structure ConfigMap (α : Type) where
  entries : List (String × α)
  sorted : (entries.map Prod.fst).Pairwise (· < ·)

def ConfigMap.empty {α : Type} : ConfigMap α := ⟨[], List.Pairwise.nil⟩

def ConfigMap.keys (m : ConfigMap α) : List String := m.entries.map Prod.fst

structure NamespaceConfig (ν : Type) where
  schema : Option ν
  schemaPath : Option String

inductive ChannelKindName where
  | pubsub
  | crdtYjs
  | crdtAutomerge
  deriving DecidableEq, Repr

structure ChannelPubSubConfig where
  historySize : Nat
  historyTtlSeconds : Nat

inductive BrokerBackend where
  | memory
  | redis
  | nats
  deriving DecidableEq, Repr

structure BrokerConfig where
  backend : BrokerBackend
  capacity : Nat
  redisUrl : Option String
  natsUrl : Option String

structure AuthConfig where
  hmacSecret : String
  audiences : List String
  issuer : Option String

inductive AclActionConfig where
  | subscribe
  | publish
  | any
  deriving DecidableEq, Repr

structure AclRuleConfig where
  effect : Effect
  channel : String
  subject : Option String
  action : AclActionConfig

structure AclConfig where
  rules : List AclRuleConfig
  defaultAllow : Bool

structure ServerConfig (ν : Type) where
  broker : BrokerConfig
  channelPubsub : ChannelPubSubConfig
  namespaces : ConfigMap (NamespaceConfig ν)
  auth : Option AuthConfig
  acl : Option AclConfig
  channelKinds : ConfigMap ChannelKindName

inductive ServerError where
  | hub (message : String)
  | schema (message : String)
  | auth (message : String)
  | acl (message : String)
  | broker (message : String)
  deriving DecidableEq, Repr

def NamespaceConfig.validateSchemaSource (cfg : NamespaceConfig ν) : Except String Unit :=
  match cfg.schema, cfg.schemaPath with
  | none, none => .error "one of `schema` or `schema_path` must be set"
  | some _, some _ => .error "`schema` and `schema_path` are mutually exclusive"
  | _, _ => .ok ()

/-- What the process finds around it. -/
structure Host (ν ω δ υ δ' β τ : Type) where
  json : JsonSchema ν ω
  jws : Jws
  yrs : Yrs δ υ
  automerge : Automerge δ'
  read : String → Except String Bytes
  glob : String → Except String (String → Bool)
  memory : Nat → Broker β τ × β
  redis : String → Except BrokerError (Broker β τ × β)
  nats : String → Except BrokerError (Broker β τ × β)

inductive AnyKind (δ δ' : Type) where
  | pubsub (k : PubSubChannel)
  | yjs (k : CrdtChannel δ)
  | automerge (k : CrdtChannel δ')

namespace AnyKind

def name : AnyKind δ δ' → ChannelKindName
  | .pubsub _ => .pubsub
  | .yjs _ => .crdtYjs
  | .automerge _ => .crdtAutomerge

/-- The CRDT kinds keep the default `replay_since`, which replays nothing. -/
def kinds (Y : Yrs δ υ) (A : Automerge δ') : ChannelKind (AnyKind δ δ') where
  onSubscribe
    | .pubsub k, _, channel => (.pubsub k, k.onSubscribe channel)
    | .yjs k, _, channel =>
        ((YjsChannel.ops Y).onSubscribe k channel).map .yjs id
    | .automerge k, _, channel =>
        ((AutomergeChannel.ops A).onSubscribe k channel).map .automerge id
  onUnsubscribe
    | .pubsub k, _, _ => (.pubsub k, .ok ())
    | .yjs k, _, channel => (k.onUnsubscribe channel).map .yjs id
    | .automerge k, _, channel => (k.onUnsubscribe channel).map .automerge id
  onPublish
    | .pubsub k, now, channel, data => (k.onPublish now channel data).map .pubsub id
    | .yjs k, _, channel, data => ((YjsChannel.ops Y).onPublish k channel data).map .yjs id
    | .automerge k, _, channel, data =>
        ((AutomergeChannel.ops A).onPublish k channel data).map .automerge id
  replaySince
    | .pubsub k, now, channel, since => (k.replaySince now channel since).map .pubsub id
    | .yjs k, _, _, _ => (.yjs k, .ok [])
    | .automerge k, _, _, _ => (.automerge k, .ok [])

theorem kinds_keep_name (Y : Yrs δ υ) (A : Automerge δ') (name : ChannelKindName) :
    (kinds Y A).Keeps fun k => k.name = name where
  onSubscribe k _ _ named := by cases k <;> exact named
  onUnsubscribe k _ _ named := by cases k <;> exact named
  onPublish k _ _ _ named := by cases k <;> exact named
  replaySince k _ _ _ named := by cases k <;> exact named

end AnyKind

structure Authenticator (ε : Type) where
  allowAnonymous : Bool
  authenticate : ε → String → Except AuthError SessionClaims

structure HubBuilder (κ β τ ε : Type) where
  instances : List κ
  kind : Option (Nat × κ)
  namespaceKinds : DashMap String Nat
  broker : Option (Broker β τ × β)
  validator : Option (String → Bytes → Except SchemaError Unit)
  authenticator : Option (Authenticator ε)
  acl : Option (SessionClaims → AclAction → String → Except AclError AclDecision)

structure HubBuilt (κ β τ ε : Type) where
  hub : Hub κ β τ ε
  kinds : Nat → κ
  broker : β

def HubBuilt.boot (built : HubBuilt κ β τ ε) : State κ β τ := .initial built.kinds built.broker

namespace HubBuilder

def new : HubBuilder κ β τ ε := ⟨[], none, ∅, none, none, none, none⟩

def withChannelKind (b : HubBuilder κ β τ ε) (kind : κ) : HubBuilder κ β τ ε :=
  { b with instances := b.instances ++ [kind], kind := some (b.instances.length, kind) }

def withChannelKindFor (b : HubBuilder κ β τ ε) (name : String) (kind : κ) : HubBuilder κ β τ ε :=
  { b with
    instances := b.instances ++ [kind]
    namespaceKinds := b.namespaceKinds.put name b.instances.length }

/-- The loop of `build_hub` over the kinds of the namespaces. -/
def withChannelKinds (b : HubBuilder κ β τ ε) (l : List (String × κ)) : HubBuilder κ β τ ε :=
  l.foldl (fun b entry => b.withChannelKindFor entry.1 entry.2) b

def withBroker (b : HubBuilder κ β τ ε) (broker : Broker β τ × β) : HubBuilder κ β τ ε :=
  { b with broker := some broker }

def withSchemaValidator (b : HubBuilder κ β τ ε)
    (validator : String → Bytes → Except SchemaError Unit) : HubBuilder κ β τ ε :=
  { b with validator := some validator }

def withAuthenticator (b : HubBuilder κ β τ ε) (auth : Authenticator ε) : HubBuilder κ β τ ε :=
  { b with authenticator := some auth }

def withAclChecker (b : HubBuilder κ β τ ε)
    (acl : SessionClaims → AclAction → String → Except AclError AclDecision) :
    HubBuilder κ β τ ε := { b with acl := some acl }

def build (K : ChannelKind κ) (b : HubBuilder κ β τ ε) : Except String (HubBuilt κ β τ ε) :=
  match b.kind, b.broker with
  | none, _ => .error "no channel kind registered"
  | some _, none => .error "no broker registered"
  | some (kind, state), some (broker, start) =>
      let authenticator := b.authenticator.getD ⟨true, fun _ _ => .ok .anonymous⟩
      .ok
        { hub :=
            { gate :=
                { allowAnonymous := authenticator.allowAnonymous
                  authenticate := authenticator.authenticate
                  check := fun _ => b.acl.getD fun _ _ _ => .ok .allow
                  validate := fun _ => b.validator.getD fun _ _ => .ok () }
              kinds := K
              broker := broker
              kind := kind
              namespaceKinds := b.namespaceKinds.get }
          kinds := fun k => b.instances[k]?.getD state
          broker := start }

end HubBuilder

def buildBroker (host : Host ν ω δ υ δ' β τ) (cfg : BrokerConfig) :
    Except ServerError (Broker β τ × β) :=
  match cfg.backend with
  | .memory => .ok (host.memory cfg.capacity)
  | .redis =>
      match cfg.redisUrl with
      | none => .error (.broker "broker.backend = redis requires broker.redis_url")
      | some url => (host.redis url).mapError fun e => .broker e.display
  | .nats =>
      match cfg.natsUrl with
      | none => .error (.broker "broker.backend = nats requires broker.nats_url")
      | some url => (host.nats url).mapError fun e => .broker e.display

/-- The schema document of a declaration; the last branch is unreachable. -/
def schemaValue (host : Host ν ω δ υ δ' β τ) (name : String) (cfg : NamespaceConfig ν) :
    Except ServerError ν := do
  cfg.validateSchemaSource.mapError fun reason => .schema ("namespace `" ++ name ++ "`: " ++ reason)
  match cfg.schema, cfg.schemaPath with
  | some value, none => .ok value
  | none, some path =>
      let bytes ← (host.read path).mapError fun e =>
        .schema ("namespace `" ++ name ++ "`: cannot read schema file " ++ path ++ ": " ++ e)
      (host.json.fromSlice bytes).mapError fun e =>
        .schema ("namespace `" ++ name ++ "`: schema file " ++ path ++ " is not valid JSON: " ++ e)
  | _, _ => .error (.schema "validate_schema_source rejected invalid combinations")

def declare (host : Host ν ω δ υ δ' β τ) (r : JsonSchemaRegistry ω)
    (entry : String × NamespaceConfig ν) : Except ServerError (JsonSchemaRegistry ω) := do
  let schema ← schemaValue host entry.1 entry.2
  (r.withNamespace host.json entry.1 schema).mapError fun e => .schema e.display

def buildSchemaRegistry (host : Host ν ω δ υ δ' β τ) (namespaces : ConfigMap (NamespaceConfig ν)) :
    Except ServerError (JsonSchemaRegistry ω) :=
  namespaces.entries.foldlM (declare host) .empty

/-- The builder has a secret, so that `build` does not panic. -/
def buildAuthenticator (J : Jws) : Option AuthConfig → Except ServerError (Authenticator Nat)
  | none => .ok ⟨true, fun _ _ => .ok .anonymous⟩
  | some cfg =>
      if cfg.hmacSecret.isEmpty then .error (.auth "auth.hmac_secret must not be empty")
      else
        let builder := JwtAuthBuilder.new.withHmacSecret (Wire.utf8 cfg.hmacSecret)
        let builder := cfg.audiences.foldl JwtAuthBuilder.withAudience builder
        let builder := cfg.issuer.elim builder builder.withIssuer
        match builder.build with
        | some auth => .ok ⟨false, auth.authenticate J⟩
        | none => .error (.auth "JwtAuthBuilder requires an HMAC secret via with_hmac_secret")

def AclActionConfig.toMatch : AclActionConfig → AclMatch
  | .subscribe => .subscribe
  | .publish => .publish
  | .any => .any

def compileRule (host : Host ν ω δ υ δ' β τ) (rule : AclRuleConfig) : Except ServerError AclRule := do
  let channel ← (host.glob rule.channel).mapError fun e =>
    .acl ("invalid channel glob `" ++ rule.channel ++ "`: " ++ e)
  let compiled : AclRule := ⟨rule.effect, channel, none, rule.action.toMatch⟩
  match rule.subject with
  | none => .ok compiled
  | some subject =>
      let glob ← (host.glob subject).mapError fun e =>
        .acl ("invalid subject glob `" ++ subject ++ "`: " ++ e)
      .ok { compiled with subject := some glob }

def buildAcl (host : Host ν ω δ υ δ' β τ) : Option AclConfig →
    Except ServerError (SessionClaims → AclAction → String → Except AclError AclDecision)
  | none => .ok fun _ _ _ => .ok .allow
  | some cfg => do
      let rules ← cfg.rules.mapM (compileRule host)
      .ok fun claims action channel =>
        .ok (NamespaceAcl.check ⟨rules, cfg.defaultAllow⟩ claims action channel)

def ChannelKindName.new : ChannelKindName → AnyKind δ δ'
  | .pubsub => .pubsub (.withBounds 256 300)
  | .crdtYjs => .yjs .new
  | .crdtAutomerge => .automerge .new

def buildNamespaceKinds (cfg : ConfigMap ChannelKindName) : List (String × AnyKind δ δ') :=
  cfg.entries.map fun entry => (entry.1, entry.2.new)

def buildHub (host : Host ν ω δ υ δ' β τ) (config : ServerConfig ν) :
    Except ServerError (HubBuilt (AnyKind δ δ') β τ Nat) := do
  let kind := AnyKind.pubsub
    (.withBounds config.channelPubsub.historySize config.channelPubsub.historyTtlSeconds)
  let broker ← buildBroker host config.broker
  let validator ← buildSchemaRegistry host config.namespaces
  let authenticator ← buildAuthenticator host.jws config.auth
  let acl ← buildAcl host config.acl
  let builder := ((((HubBuilder.new.withChannelKind kind).withBroker broker).withSchemaValidator
    (validator.validate host.json)).withAuthenticator authenticator).withAclChecker acl
  let builder := builder.withChannelKinds (buildNamespaceKinds config.channelKinds)
  (builder.build (AnyKind.kinds host.yrs host.automerge)).mapError .hub

theorem ConfigMap.nodup (m : ConfigMap α) : m.keys.Nodup := by
  apply m.sorted.imp
  rintro key _ less rfl
  exact String.lt_irrefl key less

theorem declare_eq_ok {host : Host ν ω δ υ δ' β τ} {r r' : JsonSchemaRegistry ω}
    {entry : String × NamespaceConfig ν} (declared : declare host r entry = .ok r') :
    ∃ schema validator, schemaValue host entry.1 entry.2 = .ok schema ∧
      host.json.validatorFor schema = .ok validator ∧
      r' = ⟨r.schemas.put entry.1 validator⟩ := by
  simp only [declare, bind_eq_ok, mapError_eq_ok, JsonSchemaRegistry.withNamespace_eq_ok] at declared
  obtain ⟨schema, found, validator, compiled, rfl⟩ := declared
  exact ⟨schema, validator, found, compiled, rfl⟩

theorem foldlM_declare {host : Host ν ω δ υ δ' β τ} {entries : List (String × NamespaceConfig ν)}
    {r r' : JsonSchemaRegistry ω} (distinct : (entries.map Prod.fst).Nodup)
    (built : entries.foldlM (declare host) r = .ok r') :
    (∀ entry ∈ entries, ∃ schema validator, schemaValue host entry.1 entry.2 = .ok schema ∧
        host.json.validatorFor schema = .ok validator ∧
        r'.schemas.get entry.1 = some validator) ∧
      ∀ key, key ∉ entries.map Prod.fst → r'.schemas.get key = r.schemas.get key := by
  induction entries generalizing r with
  | nil =>
      cases built
      exact ⟨fun _ member => absurd member (List.not_mem_nil), fun _ _ => rfl⟩
  | cons first rest ih =>
      rw [List.foldlM_cons, bind_eq_ok] at built
      obtain ⟨mid, declared, others⟩ := built
      obtain ⟨fresh, distinct⟩ := List.nodup_cons.mp distinct
      obtain ⟨schema, validator, found, compiled, rfl⟩ := declare_eq_ok declared
      obtain ⟨all, same⟩ := ih distinct others
      constructor
      · intro entry member
        rcases List.mem_cons.mp member with rfl | later
        · refine ⟨schema, validator, found, compiled, ?_⟩
          rw [same _ fresh, DashMap.get_put_self]
        · exact all entry later
      · intro key absent
        obtain ⟨other, absent⟩ := not_or.mp (List.mem_cons.not.mp absent)
        rw [same key absent, DashMap.get_put_ne _ _ other]

namespace HubBuilder

variable (b : HubBuilder κ β τ ε)

/-- Each instance goes by the key it was registered for. -/
structure Registers (l : List (String × κ)) : Prop where
  instances : (b.withChannelKinds l).instances = b.instances ++ l.map Prod.snd
  listed : ∀ i entry, l[i]? = some entry →
    (b.withChannelKinds l).namespaceKinds.get entry.1 = some (b.instances.length + i)
  others : ∀ key, key ∉ l.map Prod.fst →
    (b.withChannelKinds l).namespaceKinds.get key = b.namespaceKinds.get key
  fields : b.withChannelKinds l =
    { b with
      instances := (b.withChannelKinds l).instances
      namespaceKinds := (b.withChannelKinds l).namespaceKinds }

theorem registers (l : List (String × κ)) (distinct : (l.map Prod.fst).Nodup) : b.Registers l := by
  induction l generalizing b with
  | nil => exact ⟨(List.append_nil _).symm, fun _ _ found => absurd found (by simp), fun _ _ => rfl, rfl⟩
  | cons first rest ih =>
      obtain ⟨fresh, distinct⟩ := List.nodup_cons.mp distinct
      have later := ih (b.withChannelKindFor first.1 first.2) distinct
      constructor
      · exact later.instances.trans (List.append_assoc _ _ _)
      · intro i entry found
        cases i with
        | zero =>
            cases found
            exact (later.others _ fresh).trans (DashMap.get_put_self _ _ _)
        | succ i =>
            have next := later.listed i entry found
            rw [withChannelKindFor, List.length_append, List.length_singleton] at next
            rw [Nat.add_comm i 1, ← Nat.add_assoc]
            exact next
      · intro key absent
        obtain ⟨other, absent⟩ := not_or.mp (List.mem_cons.not.mp absent)
        exact (later.others key absent).trans (DashMap.get_put_ne _ _ other)
      · exact later.fields

theorem build_eq_ok {K : ChannelKind κ} {b : HubBuilder κ β τ ε} {built : HubBuilt κ β τ ε}
    (composed : b.build K = .ok built) :
    built.hub.kinds = K ∧ built.hub.namespaceKinds = b.namespaceKinds.get ∧
      (∀ v, b.validator = some v → built.hub.gate.validate = fun _ => v) ∧
      ∀ k state, b.instances[k]? = some state → built.kinds k = state := by
  unfold build at composed
  split at composed
  · cases composed
  · cases composed
  · cases composed
    refine ⟨rfl, rfl, ?_, ?_⟩
    · intro v validates
      rw [validates, Option.getD_some]
    · intro k state found
      exact (congrArg (Option.getD · _) found).trans Option.getD_some

theorem build_withChannelKinds {K : ChannelKind κ} {b : HubBuilder κ β τ ε}
    {built : HubBuilt κ β τ ε} {v : String → Bytes → Except SchemaError Unit}
    {l : List (String × κ)} (one : b.instances.length = 1) (validator : b.validator = some v)
    (distinct : (l.map Prod.fst).Nodup) (composed : (b.withChannelKinds l).build K = .ok built) :
    built.hub.kinds = K ∧ built.hub.gate.validate = (fun _ => v) ∧
      ∀ i entry, l[i]? = some entry →
        built.hub.namespaceKinds entry.1 = some (i + 1) ∧ built.kinds (i + 1) = entry.2 := by
  have registers := b.registers l distinct
  obtain ⟨kinds, named, validates, states⟩ := build_eq_ok composed
  refine ⟨kinds, validates v (by rw [registers.fields]; exact validator), ?_⟩
  intro i entry found
  constructor
  · rw [named, registers.listed i entry found, one, Nat.add_comm]
  · apply states
    rw [registers.instances, List.getElem?_append_right (by omega), one, Nat.add_sub_cancel,
      List.getElem?_map, found]
    rfl

end HubBuilder

/-- What `build_hub` makes of the declarations, whatever else it is given. -/
structure Composed (host : Host ν ω δ υ δ' β τ) (config : ServerConfig ν)
    (built : HubBuilt (AnyKind δ δ') β τ Nat) : Prop where
  kinds : built.hub.kinds = AnyKind.kinds host.yrs host.automerge
  schemas : ∃ registry, buildSchemaRegistry host config.namespaces = .ok registry ∧
    built.hub.gate.validate = fun _ => registry.validate host.json
  instances : ∀ i key name, config.channelKinds.entries[i]? = some (key, name) →
    built.hub.namespaceKinds key = some (i + 1) ∧ built.kinds (i + 1) = name.new

theorem buildHub_composed {host : Host ν ω δ υ δ' β τ} {config : ServerConfig ν}
    {built : HubBuilt (AnyKind δ δ') β τ Nat} (accepted : buildHub host config = .ok built) :
    Composed host config built := by
  simp only [buildHub, bind_eq_ok, mapError_eq_ok] at accepted
  obtain ⟨⟨broker, start⟩, -, registry, declared, authenticator, -, acl, -, composed⟩ := accepted
  have distinct : ((buildNamespaceKinds config.channelKinds : List (String × AnyKind δ δ')).map
      Prod.fst).Nodup := by
    have nodup := config.channelKinds.nodup
    rw [ConfigMap.keys] at nodup
    simpa only [buildNamespaceKinds, List.map_map, Function.comp_def] using nodup
  obtain ⟨kinds, validates, instances⟩ := HubBuilder.build_withChannelKinds rfl rfl distinct composed
  refine ⟨kinds, ⟨registry, declared, validates⟩, ?_⟩
  intro i key name found
  apply instances i (key, name.new)
  rw [buildNamespaceKinds, List.getElem?_map, found]
  rfl

/-- What the loop over the namespaces leaves alone, and the instances it adds. -/
theorem HubBuilder.withChannelKinds_eq (b : HubBuilder κ β τ ε) (l : List (String × κ)) :
    (b.withChannelKinds l).broker = b.broker ∧ (b.withChannelKinds l).kind = b.kind ∧
      (b.withChannelKinds l).instances = b.instances ++ l.map Prod.snd := by
  induction l generalizing b with
  | nil => exact ⟨rfl, rfl, (List.append_nil _).symm⟩
  | cons first rest ih =>
      obtain ⟨broker, kind, instances⟩ := ih (b.withChannelKindFor first.1 first.2)
      exact ⟨broker, kind, instances.trans (List.append_assoc _ _ _)⟩

theorem HubBuilder.build_starts {K : ChannelKind κ} {b : HubBuilder κ β τ ε}
    {built : HubBuilt κ β τ ε} (composed : b.build K = .ok built) :
    b.broker = some (built.hub.broker, built.broker) ∧
      ∀ k, built.kinds k ∈ b.instances ∨ ∃ i, b.kind = some (i, built.kinds k) := by
  unfold build at composed
  split at composed
  · cases composed
  · cases composed
  · next kind broker =>
      cases composed
      refine ⟨broker, ?_⟩
      intro k
      cases found : b.instances[k]? with
      | none =>
          simp only [found, Option.getD_none]
          exact .inr ⟨_, kind⟩
      | some state =>
          simp only [found, Option.getD_some]
          exact .inl (List.mem_of_getElem? found)

theorem buildHub_starts {host : Host ν ω δ υ δ' β τ} {config : ServerConfig ν}
    {built : HubBuilt (AnyKind δ δ') β τ Nat} (accepted : buildHub host config = .ok built) :
    buildBroker host config.broker = .ok (built.hub.broker, built.broker) ∧
      ∀ k, (∃ size ttl, built.kinds k = .pubsub (.withBounds size ttl)) ∨
        ∃ name : ChannelKindName, built.kinds k = name.new := by
  simp only [buildHub, bind_eq_ok, mapError_eq_ok] at accepted
  obtain ⟨broker, connected, _, -, _, -, _, -, composed⟩ := accepted
  obtain ⟨same, starts⟩ := HubBuilder.build_starts composed
  obtain ⟨unchanged, default, instances⟩ := HubBuilder.withChannelKinds_eq (ε := Nat)
    (κ := AnyKind δ δ') _ _
  rw [unchanged] at same
  cases same
  refine ⟨connected, ?_⟩
  intro k
  rcases starts k with listed | ⟨i, kind⟩
  · rw [instances] at listed
    rcases List.mem_append.mp listed with first | named
    · exact .inl ⟨_, _, List.mem_singleton.mp first⟩
    · simp only [buildNamespaceKinds, List.map_map, List.mem_map] at named
      obtain ⟨entry, -, own⟩ := named
      exact .inr ⟨entry.2, own.symm⟩
  · rw [default] at kind
    exact .inl ⟨_, _, (congrArg Prod.snd (Option.some.inj kind)).symm⟩

theorem foldl_withAudience (audiences : List String) (b : JwtAuthBuilder) :
    audiences.foldl JwtAuthBuilder.withAudience b =
      { b with audiences := b.audiences ++ audiences } := by
  induction audiences generalizing b with
  | nil => rw [List.foldl_nil, List.append_nil]
  | cons audience rest ih =>
      rw [List.foldl_cons, ih]
      simp only [JwtAuthBuilder.withAudience, List.append_assoc, List.singleton_append]

/-- With an `auth` section the hub asks a JWT authenticator of the configured secret, audiences
and issuer, and lets nobody in without a token. -/
theorem buildAuthenticator_jwt {J : Jws} {cfg : AuthConfig} {auth : Authenticator Nat}
    (accepted : buildAuthenticator J (some cfg) = .ok auth) :
    ∃ jwt, JwtAuthBuilder.build ⟨some (Wire.utf8 cfg.hmacSecret), .hs256, cfg.audiences,
      cfg.issuer⟩ = some jwt ∧ auth = ⟨false, jwt.authenticate J⟩ := by
  simp only [buildAuthenticator, foldl_withAudience] at accepted
  split at accepted
  · cases accepted
  · cases named : cfg.issuer <;> rw [named] at accepted <;> cases accepted <;>
      exact ⟨_, rfl, rfl⟩

/-- Publishes on the channel succeed only with data that the schema accepts. -/
def HubBuilt.Enforces (built : HubBuilt κ β τ ε) (J : JsonSchema ν ω) (schema : ν)
    (channel : String) : Prop :=
  ∀ s t a ls p, built.hub.machine.Run Machine.free built.boot s →
    built.hub.machine.exec s (.start (.publish a) :: ls) = some t → a.channel = channel →
    .returned s.nextCall (.ok (.published p)) ∈ t.log → J.Accepts schema a.data

/-- The channel's calls go to the instance, which is of the named kind throughout. -/
def HubBuilt.Routes (built : HubBuilt (AnyKind δ δ') β τ ε) (number : Nat) (name : ChannelKindName)
    (channel : String) : Prop :=
  built.hub.kindFor channel = number ∧
    ∀ s, built.hub.machine.Run Machine.free built.boot s → (s.shared.kinds number).name = name

/-- Every declaration governs the channels of its key, and some channel consults it. -/
structure Effective (host : Host ν ω δ υ δ' β τ) (config : ServerConfig ν)
    (built : HubBuilt (AnyKind δ δ') β τ Nat) : Prop where
  enforced : ∀ key decl, (key, decl) ∈ config.namespaces.entries →
    ∃ schema, schemaValue host key decl = .ok schema ∧
      ∀ channel, Under key channel → built.Enforces host.json schema channel
  routed : ∀ i key name, config.channelKinds.entries[i]? = some (key, name) →
    ∀ channel, Under key channel → built.Routes (i + 1) name channel
  consulted : ∀ key, key ∈ config.namespaces.keys ∨ key ∈ config.channelKinds.keys →
    ∃ channel, namespaceOf channel = key

section Declared

variable {host : Host ν ω δ υ δ' β τ} {config : ServerConfig ν}
  {built : HubBuilt (AnyKind δ δ') β τ Nat}

theorem Composed.enforces (composed : Composed host config built) {key : String}
    {decl : NamespaceConfig ν} (declared : (key, decl) ∈ config.namespaces.entries)
    (dotless : Dotless key) :
    ∃ schema, schemaValue host key decl = .ok schema ∧
      ∀ channel, Under key channel → built.Enforces host.json schema channel := by
  obtain ⟨registry, registered, validate⟩ := composed.schemas
  obtain ⟨schema, validator, found, compiled, listed⟩ :=
    (foldlM_declare config.namespaces.nodup registered).1 _ declared
  refine ⟨schema, found, ?_⟩
  rintro channel under s t a ls p run ran rfl returned
  obtain ⟨env, valid⟩ := published_validated run ran returned
  rw [validate, JsonSchemaRegistry.validate_eq_ok, namespaceOf_under dotless under] at valid
  obtain ⟨value, parsed, accepted⟩ := valid validator listed
  exact ⟨validator, value, compiled, parsed, accepted⟩

theorem Composed.routes (composed : Composed host config built) {i : Nat} {key : String}
    {name : ChannelKindName} (declared : config.channelKinds.entries[i]? = some (key, name))
    (dotless : Dotless key) {channel : String} (under : Under key channel) :
    built.Routes (i + 1) name channel := by
  obtain ⟨named, state⟩ := composed.instances i key name declared
  constructor
  · rw [Hub.kindFor, namespaceOf_under dotless under, named, Option.getD_some]
  · intro s run
    have kept : ∀ k, (s.shared.kinds k).name = (built.kinds k).name := by
      refine run.invariant (I := fun s => ∀ k, (s.shared.kinds k).name = (built.kinds k).name)
        (fun _ => rfl) ?_
      intro s l t same _ h
      refine step_keeps (P := fun k kind => kind.name = (built.kinds k).name) ?_ same h
      intro k
      rw [composed.kinds]
      exact AnyKind.kinds_keep_name _ _ _
    rw [kept, state]
    cases name <;> rfl

end Declared

/-- The declarations of an accepted configuration all take effect exactly if no key has a dot. -/
theorem declarations_effective {host : Host ν ω δ υ δ' β τ} {config : ServerConfig ν}
    {built : HubBuilt (AnyKind δ δ') β τ Nat} (accepted : buildHub host config = .ok built) :
    Effective host config built ↔
      ∀ key, key ∈ config.namespaces.keys ∨ key ∈ config.channelKinds.keys → Dotless key := by
  have composed := buildHub_composed accepted
  constructor
  · intro effective key declared
    exact dotless_iff_consulted.mpr (effective.consulted key declared)
  · intro dotless
    constructor
    · intro key decl declared
      apply composed.enforces declared
      exact dotless key (.inl (List.mem_map_of_mem declared))
    · intro i key name declared channel under
      refine composed.routes declared (dotless key (.inr ?_)) under
      exact List.mem_map_of_mem (List.mem_of_getElem? declared)
    · intro key declared
      exact dotless_iff_consulted.mp (dotless key declared)

/-- A process in which the JSON documents are the bytes 0 and 1, and a schema is the least of the
two that it accepts. -/
def binary : Host Bool Bool Nat Nat Nat MemoryBroker MemoryStream where
  json :=
    { fromSlice := fun data =>
        match data with
        | [0] => .ok false
        | [1] => .ok true
        | _ => .error "expected value"
      validatorFor := .ok
      validate := fun least value => if least && !value then .error "too small" else .ok () }
  jws := lenient
  yrs := longestShort
  automerge := longest
  read _ := .error "No such file or directory"
  glob _ := .ok fun _ => true
  memory capacity := (MemoryBroker.broker, .withCapacity capacity)
  redis _ := .error (.unavailable "connection refused")
  nats _ := .error (.unavailable "connection refused")

/-- One schema, which accepts 1, and one namespace of Y.js documents. -/
def declaring (schemaKey kindKey : String) : ServerConfig Bool where
  broker := ⟨.memory, 1024, none, none⟩
  channelPubsub := ⟨256, 300⟩
  namespaces := ⟨[(schemaKey, ⟨some true, none⟩)], List.pairwise_singleton _ _⟩
  auth := none
  acl := none
  channelKinds := ⟨[(kindKey, .crdtYjs)], List.pairwise_singleton _ _⟩

theorem declarations_effective_dotless :
    ∃ built, buildHub binary (declaring "orders" "docs") = .ok built ∧
      Effective binary (declaring "orders" "docs") built := by
  refine ⟨_, rfl, (declarations_effective rfl).mpr ?_⟩
  intro key declared
  rcases declared with schema | kind
  · rw [List.mem_singleton.mp schema]
    decide
  · rw [List.mem_singleton.mp kind]
    decide

/-- A schema declared for `orders.eu` lets bytes through that are no JSON, and channels under
`docs.private` are left to the default kind. -/
theorem declarations_dead :
    ∃ built, buildHub binary (declaring "orders.eu" "docs.private") = .ok built ∧
      (∃ t, built.hub.machine.exec built.boot
          (.start (.openSession 16) :: List.replicate 5 (.advance 0 0 0) ++
            .start (.publish ⟨0, "orders.eu", [255]⟩) :: List.replicate 6 (.advance 1 0 0)) = some t ∧
        built.hub.machine.Run Machine.free built.boot t ∧
        .returned 1 (.ok (.published ⟨"orders.eu", 0, [255]⟩)) ∈ t.log) ∧
      ¬binary.json.Accepts true [255] ∧
      built.hub.kindFor "docs.private" = 0 ∧ built.hub.kindFor "docs.private.alpha" = 0 := by
  refine ⟨_, rfl, Machine.exec_witness _ _ (by decide +kernel), ?_, by decide +kernel,
    by decide +kernel⟩
  rintro ⟨validator, value, -, parsed, -⟩
  cases parsed

end Cherenkov
