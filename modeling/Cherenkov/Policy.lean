import Cherenkov.Hub.Course
import Cherenkov.Hub.Provenance
import Cherenkov.AclPolicy

/-! What the `auth`, `acl` and `namespaces` sections say about a token, a request and a payload, and
that the hub which `build_hub` makes of them asks for exactly this, in this order, whatever the
clients do: nothing reaches a kind, the broker or an outbox except for claims that a token was
answered with, for a request that the first applicable rule allows, and with data that the schema of
the namespace accepts. -/

namespace Cherenkov

open Fallible History

variable {ν ω δ υ δ' β τ κ ε : Type} {host : Host ν ω δ υ δ' β τ} {config : ServerConfig ν}

/-- The builder that an `auth` section describes. -/
def AuthConfig.jwt (cfg : AuthConfig) : JwtAuthBuilder :=
  ⟨some (Wire.utf8 cfg.hmacSecret), .hs256, cfg.audiences, cfg.issuer⟩

namespace ServerConfig

/-- The token stands for the claims at a reading of the clock. -/
def Vouches (host : Host ν ω δ υ δ' β τ) (config : ServerConfig ν) (now : Nat) (token : String)
    (claims : SessionClaims) : Prop :=
  match config.auth with
  | none => claims = .anonymous
  | some cfg => ∃ secret body sub, cfg.jwt.Admits host.jws now token secret body sub ∧
      claims = ⟨sub, body.permissions.getD [], body.exp.getD 0⟩

def Permits (host : Host ν ω δ υ δ' β τ) (config : ServerConfig ν) (claims : SessionClaims)
    (action : AclAction) (channel : String) : Prop :=
  ∀ acl, config.acl = some acl → acl.Allows host claims action channel

def Conforms (host : Host ν ω δ υ δ' β τ) (config : ServerConfig ν) (channel : String)
    (data : Bytes) : Prop :=
  ∀ decl, (namespaceOf channel, decl) ∈ config.namespaces.entries →
    ∃ schema, schemaValue host (namespaceOf channel) decl = .ok schema ∧
      host.json.Accepts schema data

/-- A plugin decided as its section says, neither for more nor for less; a token at the clock
reading of the step that checked it. -/
def Decides (host : Host ν ω δ υ δ' β τ) (config : ServerConfig ν) (clock : Nat → Option Nat) :
    Event → Prop
  | .authenticated n _ token result => ∃ now, clock n = some now ∧
      ∀ claims, result = .ok claims ↔ config.Vouches host now token claims
  | .checked _ _ claims action channel result =>
      ∃ decision, result = .ok decision ∧
        (decision = .allow ↔ config.Permits host claims action channel)
  | .validated _ _ channel data result => result = .ok () ↔ config.Conforms host channel data
  | _ => True

/-- The session was answered with these claims, or the server does not ask who it is. -/
def Identifies (host : Host ν ω δ υ δ' β τ) (config : ServerConfig ν) (clock : Nat → Option Nat)
    (past : List Event) (ref : Nat) (claims : SessionClaims) : Prop :=
  (∃ n token now, .authenticated n ref token (.ok claims) ∈ past ∧ clock n = some now ∧
      config.Vouches host now token claims) ∨
    config.auth = none ∧ claims = .anonymous

/-- Call `n` was checked for claims of its session that may do this. -/
def Clears (host : Host ν ω δ υ δ' β τ) (config : ServerConfig ν) (clock : Nat → Option Nat)
    (past : List Event) (n ref : Nat) (action : AclAction) (channel : String) : Prop :=
  ∃ claims, .checked n ref claims action channel (.ok .allow) ∈ past ∧
    config.Identifies host clock past ref claims ∧ config.Permits host claims action channel

/-- What has to lie behind an event. -/
def Requires (host : Host ν ω δ υ δ' β τ) (config : ServerConfig ν) (clock : Nat → Option Nat)
    (past : List Event) : Event → Prop
  | .checked _ ref claims _ _ _ => config.Identifies host clock past ref claims
  | .validated n ref channel _ _ => config.Clears host clock past n ref .publish channel
  | .onPublish n ref channel data _ =>
      config.Clears host clock past n ref .publish channel ∧ config.Conforms host channel data
  | .brokerPublish n ref channel p _ =>
      ∃ data, .onPublish n ref channel data (.ok p) ∈ past ∧
        config.Clears host clock past n ref .publish channel ∧ config.Conforms host channel data
  | .onSubscribe n ref channel _ | .brokerSubscribe n ref channel _
  | .replaySince n ref channel _ _ => config.Clears host clock past n ref .subscribe channel
  | .onUnsubscribe _ ref channel _ => ∃ m, config.Clears host clock past m ref .subscribe channel
  | .enqueued n ref _ _ =>
      ∃ channel, Opened past n ref channel ∧ config.Clears host clock past n ref .subscribe channel
  | .authenticated _ _ _ _ | .lagged _ _ | .removed _ _ | .returned _ _ => True

def Governs (host : Host ν ω δ υ δ' β τ) (config : ServerConfig ν) (clock : Nat → Option Nat)
    (past : List Event) (e : Event) : Prop := config.Decides host clock e ∧ config.Requires host clock past e

end ServerConfig

/-- The reading of the clock in the step in which call `n` has its token checked. -/
def authReading (n : Nat) (p : Machine.Transition (State κ β τ) (Label ε)) : Option ε :=
  match p.label, p.before.calls n with
  | .advance m env _, some (.connectAuth _ _) => if m = n then some env else none
  | _, _ => none

def readings (path : List (Machine.Transition (State κ β τ) (Label ε))) (n : Nat) : Option ε :=
  path.findSome? (authReading n)

def Gate.Answers (G : Gate ε) (clock : Nat → Option ε) : Event → Prop
  | .authenticated n _ token result => ∃ env, clock n = some env ∧ G.authenticate env token = result
  | .checked _ _ claims action channel result => ∃ env, G.check env claims action channel = result
  | .validated _ _ channel data result => ∃ env, G.validate env channel data = result
  | _ => True

def Call.authenticated : Call τ → Prop
  | .connectSet _ _ _ => True
  | _ => False

/-- A call that has been given a reading is past its authentication, and every answer of the
authenticator was given at the reading of its call. -/
structure Timed (H : Hub κ β τ ε) (past : List (Machine.Transition (State κ β τ) (Label ε)))
    (s : State κ β τ) : Prop where
  staged : s.Staged
  passed : ∀ n env, readings past n = some env → s.Course n Call.authenticated fun _ => True
  answers : ∀ e ∈ s.log, H.gate.Answers (readings past) e

section Answers

variable {H : Hub κ β τ ε} {s t : State κ β τ} {l : Label ε} {n : Nat}
  {past : List (Machine.Transition (State κ β τ) (Label ε))}

theorem readings_snoc (past : List (Machine.Transition (State κ β τ) (Label ε)))
    (p : Machine.Transition (State κ β τ) (Label ε)) (n : Nat) :
    readings (past ++ [p]) n = (readings past n).or (authReading n p) := by
  simp only [readings, List.findSome?_append, List.findSome?_singleton]

theorem authReading_some {env : ε} (reads : authReading n ⟨s, l, t⟩ = some env) :
    ∃ now a ref, l = .advance n env now ∧ s.calls n = some (.connectAuth a ref) := by
  unfold authReading at reads
  split at reads
  · next m env' now a ref label called =>
      split at reads
      · next same =>
          cases reads
          exact ⟨now, a, ref, same ▸ label, called⟩
      · cases reads
  · cases reads

theorem authReading_advance {a : ConnectArgs} {ref : Nat} {env : ε} {now : Nat}
    (called : s.calls n = some (.connectAuth a ref)) :
    authReading n ⟨s, .advance n env now, t⟩ = some env := by
  simp only [authReading, called, if_true]

/-- A call has its token checked once, so a reading that is there stays. -/
theorem Timed.unread (g : Timed H past s) {a : ConnectArgs} {ref : Nat}
    (called : s.calls n = some (.connectAuth a ref)) : readings past n = none := by
  cases known : readings past n with
  | none => rfl
  | some env => exact False.elim ((g.passed n env known).called _ called)

theorem step_timed (g : Timed H past s) (h : H.step s l = some t) :
    Timed H (past ++ [⟨s, l, t⟩]) t := by
  refine ⟨step_staged g.staged h, ?_, ?_⟩
  · intro n env reads
    rw [readings_snoc] at reads
    cases known : readings past n with
    | some before =>
        refine step_course ?_ (fun _ _ _ _ _ _ _ => trivial) (g.passed n before known) h
        intro x env now c next passed goes
        cases goes <;> cases passed
    | none =>
        rw [known, Option.none_or] at reads
        obtain ⟨now, a, ref, rfl, called⟩ := authReading_some reads
        refine ⟨Nat.lt_of_lt_of_le (g.staged.calls n _ called) (step_nextCall_le h), ?_,
          fun _ _ => trivial⟩
        intro next moved
        obtain ⟨c, before, goes⟩ := step_own h moved
        cases called.symm.trans before
        cases goes
        trivial
  · intro e member
    rcases step_logs h member with old | ⟨n, env, now, c, rfl, called, logs | ⟨result, rfl⟩⟩ |
      ⟨f, move, w, -, -, delivered⟩
    · have before := g.answers e old
      cases e with
      | authenticated n ref token result =>
          obtain ⟨env, known, answer⟩ := before
          exact ⟨env, by rw [readings_snoc, known, Option.some_or], answer⟩
      | _ => exact before
    · cases logs with
      | authenticated a ref answer =>
          refine ⟨env, ?_, answer⟩
          rw [readings_snoc, g.unread called, Option.none_or]
          exact authReading_advance called
      | checked g ref claims answer => exact ⟨env, answer⟩
      | validated a ref answer => exact ⟨env, answer⟩
      | _ => trivial
    · trivial
    · cases e with
      | enqueued | lagged => trivial
      | _ => cases delivered

theorem exec_answers {kinds : Nat → κ} {broker : β} {ls : List (Label ε)}
    (ran : H.machine.exec (State.initial kinds broker) ls = some s) :
    ∀ e ∈ s.log, H.gate.Answers (readings (H.machine.path (State.initial kinds broker) ls)) e := by
  have start : Timed H [] (State.initial kinds broker) :=
    ⟨initial_staged kinds broker, fun _ _ => nofun, fun _ => nofun⟩
  exact (Machine.path_invariant (fun _ _ _ _ g _ h => step_timed g h) start
    (Machine.along_free _ ls) ran).answers

end Answers

theorem HubBuilder.withChannelKinds_plugins (b : HubBuilder κ β τ ε) (l : List (String × κ)) :
    (b.withChannelKinds l).authenticator = b.authenticator ∧
      (b.withChannelKinds l).acl = b.acl := by
  induction l generalizing b with
  | nil => exact ⟨rfl, rfl⟩
  | cons first rest ih => exact ih (b.withChannelKindFor first.1 first.2)

theorem HubBuilder.build_gate {K : ChannelKind κ} {b : HubBuilder κ β τ ε}
    {built : HubBuilt κ β τ ε} {auth : Authenticator ε}
    {check : SessionClaims → AclAction → String → Except AclError AclDecision}
    (composed : b.build K = .ok built) (authenticator : b.authenticator = some auth)
    (acl : b.acl = some check) :
    built.hub.gate.allowAnonymous = auth.allowAnonymous ∧
      built.hub.gate.authenticate = auth.authenticate ∧
      built.hub.gate.check = fun _ => check := by
  unfold build at composed
  split at composed
  · cases composed
  · cases composed
  · cases composed
    simp only [authenticator, acl, Option.getD_some, and_self]

theorem buildHub_gate {built : HubBuilt (AnyKind δ δ') β τ Nat}
    (accepted : buildHub host config = .ok built) :
    ∃ auth check, buildAuthenticator host.jws config.auth = .ok auth ∧
      buildAcl host config.acl = .ok check ∧
      built.hub.gate.allowAnonymous = auth.allowAnonymous ∧
      built.hub.gate.authenticate = auth.authenticate ∧
      built.hub.gate.check = fun _ => check := by
  simp only [buildHub, bind_eq_ok, mapError_eq_ok] at accepted
  obtain ⟨_, -, _, -, auth, authenticates, check, checks, composed⟩ := accepted
  obtain ⟨authenticator, acl⟩ := HubBuilder.withChannelKinds_plugins (ε := Nat)
    (κ := AnyKind δ δ') _ _
  exact ⟨auth, check, authenticates, checks, HubBuilder.build_gate composed authenticator acl⟩

theorem buildAuthenticator_iff {auth : Authenticator Nat}
    (accepted : buildAuthenticator host.jws config.auth = .ok auth) (now : Nat) (token : String)
    (claims : SessionClaims) :
    auth.authenticate now token = .ok claims ↔ config.Vouches host now token claims := by
  unfold ServerConfig.Vouches
  cases configured : config.auth with
  | none =>
      rw [configured] at accepted
      cases accepted
      constructor
      · rintro ⟨⟩
        rfl
      · rintro rfl
        rfl
  | some cfg =>
      rw [configured] at accepted
      obtain ⟨jwt, built, rfl⟩ := buildAuthenticator_jwt accepted
      refine Iff.trans ?_ JwtAuthBuilder.authenticate_eq_ok
      constructor
      · intro answered
        exact ⟨jwt, built, answered⟩
      · rintro ⟨jwt', built', answered⟩
        cases built.symm.trans built'
        exact answered

theorem buildAuthenticator_anonymous {J : Jws} {section_ : Option AuthConfig}
    {auth : Authenticator Nat} (accepted : buildAuthenticator J section_ = .ok auth) :
    auth.allowAnonymous = true ↔ section_ = none := by
  cases section_ with
  | none =>
      cases accepted
      exact ⟨fun _ => rfl, fun _ => rfl⟩
  | some cfg =>
      obtain ⟨jwt, -, rfl⟩ := buildAuthenticator_jwt accepted
      constructor
      · intro free
        cases free
      · intro absent
        cases absent

theorem buildAcl_iff {check : SessionClaims → AclAction → String → Except AclError AclDecision}
    (accepted : buildAcl host config.acl = .ok check) (claims : SessionClaims)
    (action : AclAction) (channel : String) :
    ∃ decision, check claims action channel = .ok decision ∧
      (decision = .allow ↔ config.Permits host claims action channel) := by
  unfold ServerConfig.Permits
  cases configured : config.acl with
  | none =>
      rw [configured] at accepted
      cases accepted
      exact ⟨.allow, rfl, by simp⟩
  | some cfg =>
      rw [configured] at accepted
      obtain ⟨decision, decided, allows⟩ := buildAcl_eq_ok accepted claims action channel
      refine ⟨decision, decided, allows.trans ?_⟩
      simp only [Option.some.injEq, forall_eq']

theorem buildSchemaRegistry_iff {registry : JsonSchemaRegistry ω}
    (accepted : buildSchemaRegistry host config.namespaces = .ok registry) (channel : String)
    (data : Bytes) :
    registry.validate host.json channel data = .ok () ↔ config.Conforms host channel data := by
  obtain ⟨declared, others⟩ := foldlM_declare config.namespaces.nodup accepted
  rw [JsonSchemaRegistry.validate_eq_ok]
  constructor
  · intro valid decl member
    obtain ⟨schema, validator, found, compiled, listed⟩ := declared _ member
    obtain ⟨value, parsed, fits⟩ := valid validator listed
    exact ⟨schema, found, validator, value, compiled, parsed, fits⟩
  · intro conforms validator listed
    have key : namespaceOf channel ∈ config.namespaces.entries.map Prod.fst := by
      by_contra absent
      rw [others _ absent] at listed
      cases listed
    obtain ⟨⟨_, decl⟩, member, rfl⟩ := List.mem_map.mp key
    obtain ⟨schema, validator', found, compiled, listed'⟩ := declared _ member
    obtain ⟨schema', found', validator'', value, compiled', parsed, fits⟩ := conforms decl member
    cases listed.symm.trans listed'
    cases found.symm.trans found'
    cases compiled.symm.trans compiled'
    exact ⟨value, parsed, fits⟩

theorem buildHub_decides {built : HubBuilt (AnyKind δ δ') β τ Nat}
    (accepted : buildHub host config = .ok built) {clock : Nat → Option Nat} {e : Event}
    (answers : built.hub.gate.Answers clock e) : config.Decides host clock e := by
  obtain ⟨auth, check, authenticates, checks, -, authenticate, checker⟩ := buildHub_gate accepted
  cases e with
  | authenticated n ref token result =>
      obtain ⟨now, reading, rfl⟩ := answers
      rw [authenticate]
      exact ⟨now, reading, buildAuthenticator_iff authenticates now token⟩
  | checked n ref claims action channel result =>
      obtain ⟨env, rfl⟩ := answers
      rw [checker]
      exact buildAcl_iff checks claims action channel
  | validated n ref channel data result =>
      obtain ⟨env, rfl⟩ := answers
      obtain ⟨registry, registered, validate⟩ := (buildHub_composed accepted).schemas
      rw [validate]
      exact buildSchemaRegistry_iff registered channel data
  | _ => trivial

namespace ServerConfig

/-- A history that the hub has grounded and its plugins have answered. -/
structure Observed (host : Host ν ω δ υ δ' β τ) (config : ServerConfig ν)
    (clock : Nat → Option Nat) (anonymous : Bool) (log : List Event) : Prop where
  closed : anonymous = true ↔ config.auth = none
  decided : ∀ e ∈ log, config.Decides host clock e
  history : Justified (Grounds anonymous) log

variable {clock : Nat → Option Nat} {anonymous : Bool} {log : List Event}

theorem Observed.past (post : List Event) {past : List Event}
    (observed : config.Observed host clock anonymous (post ++ past)) :
    config.Observed host clock anonymous past where
  closed := observed.closed
  decided := fun e member => observed.decided e (List.mem_append_right _ member)
  history := observed.history.past

theorem Identifies.append {past : List Event} {ref : Nat} {claims : SessionClaims}
    (identified : config.Identifies host clock past ref claims) (new : List Event) :
    config.Identifies host clock (new ++ past) ref claims := by
  rcases identified with ⟨n, token, now, member, reading, vouched⟩ | free
  · exact .inl ⟨n, token, now, List.mem_append_right _ member, reading, vouched⟩
  · exact .inr free

theorem Observed.identifies (observed : config.Observed host clock anonymous log) {ref : Nat}
    {claims : SessionClaims} (claimed : Claimed anonymous log ref claims) :
    config.Identifies host clock log ref claims := by
  rcases claimed with ⟨n, token, member⟩ | ⟨free, rfl⟩
  · obtain ⟨now, reading, vouched⟩ := observed.decided _ member
    exact .inl ⟨n, token, now, member, reading, (vouched claims).mp rfl⟩
  · exact .inr ⟨observed.closed.mp free, rfl⟩

theorem Observed.clears (observed : config.Observed host clock anonymous log) {n ref : Nat}
    {action : AclAction} {channel : String} (allowed : Allowed log n ref action channel) :
    config.Clears host clock log n ref action channel := by
  obtain ⟨claims, later, earlier, rfl, claimed⟩ := allowed.admitted observed.history
  have member : .checked n ref claims action channel (.ok .allow) ∈
      later ++ .checked n ref claims action channel (.ok .allow) :: earlier := by simp
  obtain ⟨decision, ⟨⟩, permitted⟩ := observed.decided _ member
  have before : config.Observed host clock anonymous earlier := (observed.past later).past [_]
  have identified := before.identifies claimed
  exact ⟨claims, member, (identified.append [_]).append later, permitted.mp rfl⟩

theorem Observed.conforms (observed : config.Observed host clock anonymous log) {n ref : Nat}
    {channel : String} {data : Bytes} (validated : .validated n ref channel data (.ok ()) ∈ log) :
    config.Clears host clock log n ref .publish channel ∧ config.Conforms host channel data := by
  constructor
  · exact observed.clears (validated_allowed validated observed.history)
  · exact (observed.decided _ validated).mp rfl

theorem Observed.requires (observed : config.Observed host clock anonymous log) {e : Event}
    (grounds : Grounds anonymous log e) : config.Requires host clock log e := by
  cases e with
  | checked n ref claims action channel result => exact observed.identifies grounds
  | validated n ref channel data result => exact observed.clears grounds
  | onSubscribe n ref channel result => exact observed.clears grounds
  | brokerSubscribe n ref channel ok => exact observed.clears grounds
  | replaySince n ref channel since result => exact observed.clears grounds
  | onUnsubscribe n ref channel result =>
      obtain ⟨m, allowed⟩ := grounds
      exact ⟨m, observed.clears allowed⟩
  | onPublish n ref channel data result => exact observed.conforms grounds
  | brokerPublish n ref channel p result =>
      obtain ⟨data, member⟩ := grounds
      obtain ⟨later, earlier, split, validated, -⟩ := observed.history.of_mem member
      have kept : .validated n ref channel data (.ok ()) ∈ log := by
        rw [split]
        exact List.mem_append_right _ (List.mem_cons_of_mem _ validated)
      exact ⟨data, member, observed.conforms kept⟩
  | enqueued n ref origin p =>
      obtain ⟨channel, opened⟩ := grounds
      exact ⟨channel, opened, observed.clears (opened.allowed observed.history)⟩
  | _ => trivial

theorem Observed.governs (observed : config.Observed host clock anonymous log) :
    Justified (config.Governs host clock) log := by
  induction log with
  | nil => trivial
  | cons e past ih =>
      have before : config.Observed host clock anonymous past := observed.past [e]
      exact ⟨⟨observed.decided e List.mem_cons_self, before.requires observed.history.1⟩, ih before⟩

end ServerConfig

theorem buildHub_observed {built : HubBuilt (AnyKind δ δ') β τ Nat}
    (accepted : buildHub host config = .ok built) {s : State (AnyKind δ δ') β τ}
    {ls : List (Label Nat)} (ran : built.hub.machine.exec built.boot ls = some s) :
    config.Observed host (readings (built.hub.machine.path built.boot ls))
      built.hub.gate.allowAnonymous s.log where
  closed := by
    obtain ⟨auth, check, authenticates, -, anonymous, -⟩ := buildHub_gate accepted
    rw [anonymous]
    exact buildAuthenticator_anonymous authenticates
  decided := fun e member => buildHub_decides accepted (exec_answers ran e member)
  history := (run_grounded (Machine.exec_run ran)).history

/-- Whatever configuration is accepted and whatever its clients then do: each plugin decides as
its section says, every event has behind it what the sections ask for, and every forwarder works
for a session that was cleared to subscribe to its channel. -/
theorem configured_policy {built : HubBuilt (AnyKind δ δ') β τ Nat}
    (accepted : buildHub host config = .ok built) {s : State (AnyKind δ δ') β τ}
    {ls : List (Label Nat)} (ran : built.hub.machine.exec built.boot ls = some s)
    {clock : Nat → Option Nat} (read : clock = readings (built.hub.machine.path built.boot ls)) :
    Justified (config.Governs host clock) s.log ∧
      ∀ f w, s.shared.forwarders f = some w →
        config.Clears host clock s.log f w.session .subscribe w.channel := by
  subst read
  have observed := buildHub_observed accepted ran
  refine ⟨observed.governs, ?_⟩
  intro f w task
  have grounded := run_grounded (Machine.exec_run ran)
  exact observed.clears ((grounded.forwarders f w task).allowed observed.history)

/-- All three sections: tokens are asked for, only `alice` may do anything and only on `orders`,
and what is published there has to be 1. -/
def sectioned : ServerConfig Bool :=
  { declaring "orders" "docs" with
    auth := some ⟨"secret", [], none⟩
    acl := some ⟨[⟨.allow, "orders", some "alice", .any⟩], false⟩ }

def sectionedRun : List (Label Nat) :=
  .start (.openSession 16) :: List.replicate 5 (.advance 0 1000 0) ++
  .start (.connect ⟨0, 1, "bare"⟩) :: List.replicate 4 (.advance 1 1000 0) ++
  .start (.subscribe ⟨0, 2, "orders", 0⟩) :: List.replicate 9 (.advance 2 1000 0) ++
  .start (.publish ⟨0, "orders", [1]⟩) :: List.replicate 6 (.advance 3 1000 0) ++
  .start (.publish ⟨0, "orders", [0]⟩) :: List.replicate 4 (.advance 4 1000 0)

theorem configured_policy_sectioned :
    ∃ built s, buildHub naming sectioned = .ok built ∧
      built.hub.machine.exec built.boot sectionedRun = some s ∧
      readings (built.hub.machine.path built.boot sectionedRun) 1 = some 1000 ∧
      .brokerPublish 3 0 "orders" ⟨"orders", 0, [1]⟩ (.ok ()) ∈ s.log ∧
      .returned 4 (.error (.schema (.payloadRejected "orders" "too small"))) ∈ s.log ∧
      Justified (sectioned.Governs naming
        (readings (built.hub.machine.path built.boot sectionedRun))) s.log := by
  have ran : ∃ built, buildHub naming sectioned = .ok built ∧
      ∃ s, built.hub.machine.exec built.boot sectionedRun = some s ∧
        built.hub.machine.Run Machine.free built.boot s ∧
        readings (built.hub.machine.path built.boot sectionedRun) 1 = some 1000 ∧
        .brokerPublish 3 0 "orders" ⟨"orders", 0, [1]⟩ (.ok ()) ∈ s.log ∧
        .returned 4 (.error (.schema (.payloadRejected "orders" "too small"))) ∈ s.log :=
    ⟨_, rfl, Machine.exec_witness _ _ (by decide +kernel)⟩
  obtain ⟨built, accepted, s, ran, -, reading, published, refused⟩ := ran
  exact ⟨built, s, accepted, ran, reading, published, refused,
    (configured_policy accepted ran rfl).1⟩

end Cherenkov
