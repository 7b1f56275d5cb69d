import Cherenkov.Hub.Alone
import Cherenkov.Hub.Gate
import Cherenkov.Hub.Stages
import Cherenkov.Core
import Cherenkov.NatsBroker
import Cherenkov.PubSub

/-! The hub itself never looks at the channel of a publication that comes out of a broker stream. So
what a subscription receives is decided by the broker: if every item of a stream for topic `c`
stands in some relation to `c`, so does everything the hub enqueues. Over NATS that relation is the
covering of subjects, and isolation holds exactly for the channel names that are not patterns. -/

namespace Cherenkov

variable {κ β τ ε : Type}

/-- What a kind publishes and replays carries the name of its channel. -/
structure ChannelKind.Labels (K : ChannelKind κ) : Prop where
  onPublish : ∀ k now channel data p, (K.onPublish k now channel data).2 = .ok p →
    p.channel = channel
  replaySince : ∀ k now channel since replayed,
    (K.replaySince k now channel since).2 = .ok replayed → ∀ p ∈ replayed, p.channel = channel

/-- Streams yield only publications that are related to the topic they were opened for, as
long as publications are published under their own channel. -/
structure Broker.Yields (B : Broker β τ) (R : String → Publication → Prop) (topicOf : τ → String)
    (wf : β → Prop) : Prop where
  own : ∀ p, R p.channel p
  opened : ∀ b topic stream, (B.subscribe b topic).2 = .ok stream → topicOf stream = topic
  ready : ∀ b stream p, wf b → (B.next b stream).2 = .ready p → R (topicOf stream) p
  subscribe : ∀ b topic, wf b → wf (B.subscribe b topic).1
  publish : ∀ b topic p, wf b → p.channel = topic → wf (B.publish b topic p).1
  next : ∀ b stream, wf b → wf (B.next b stream).1
  dropStream : ∀ b stream, wf b → wf (B.dropStream b stream)

/-- A call's stream is for its channel, and the publications it carries are labelled so. -/
def Call.Routed (topicOf : τ → String) : Call τ → Prop
  | .subscribeReplay a _ _ stream | .subscribeSpawn a _ _ stream => topicOf stream = a.channel
  | .subscribeSend a _ _ stream replayed =>
      topicOf stream = a.channel ∧ ∀ p ∈ replayed, p.channel = a.channel
  | .publishBroker a _ p => p.channel = a.channel
  | _ => True

structure State.Routed (R : String → Publication → Prop) (topicOf : τ → String) (wf : β → Prop)
    (s : State κ β τ) : Prop where
  broker : wf s.shared.broker
  calls : ∀ n c, s.calls n = some c → c.Routed topicOf
  forwarders : ∀ f w, s.shared.forwarders f = some w → topicOf w.stream = w.channel ∧
    ∀ p, w.inHand = some p → R w.channel p
  log : ∀ n ref origin p, .enqueued n ref origin p ∈ s.log →
    ∃ channel, Opened s.log n ref channel ∧ R channel p

theorem entry_routed (topicOf : τ → String) (r : Request) : (r.entry : Call τ).Routed topicOf := by
  cases r <;> trivial

section Step

variable {H : Hub κ β τ ε} {R : String → Publication → Prop} {topicOf : τ → String}
  {wf : β → Prop} {s t : State κ β τ} {n : Nat} {env : ε} {now : Nat} {c next : Call τ}
  {o : Outcome κ β τ}

theorem act_routed (labels : H.kinds.Labels) (yields : H.broker.Yields R topicOf wf)
    {x : Shared κ β τ} (here : c.Routed topicOf) (acts : H.act x n env now c = some o)
    (goes : o.next = some next) : next.Routed topicOf := by
  cases Hub.goes acts goes with
  | streamed a ref cursor opens since | attached a ref cursor opens since =>
      exact yields.opened _ _ _ opens
  | replayed a ref cursor stream reads => exact ⟨here, labels.replaySince _ _ _ _ _ reads⟩
  | caughtUp a ref cursor stream => exact here.1
  | sent a ref cursor stream p rest room =>
      exact ⟨here.1, fun q member => here.2 q (List.mem_cons_of_mem _ member)⟩
  | stamped a ref accepts => exact labels.onPublish _ _ _ _ _ accepts
  | _ => trivial

theorem brokerAfter_wf (yields : H.broker.Yields R topicOf wf) {x : Shared κ β τ}
    (here : c.Routed topicOf) (good : wf x.broker) : wf (H.brokerAfter x c) := by
  cases c with
  | subscribeBroker a ref cursor => exact yields.subscribe _ _ good
  | subscribeUnwind a ref stream error =>
      cases stream with
      | none => exact good
      | some stream => exact yields.dropStream _ _ good
  | publishBroker a ref p => exact yields.publish _ _ _ good here
  | _ => exact good

theorem advance_routed (labels : H.kinds.Labels) (yields : H.broker.Yields R topicOf wf)
    (grounded : s.Grounded H.gate.allowAnonymous) (g : s.Routed R topicOf wf)
    (at_ : s.calls n = some c) (acts : H.act s.shared n env now c = some o) :
    (s.after n c o).Routed R topicOf wf := by
  have acted := Hub.acted acts
  have here := g.calls n c at_
  refine ⟨?_, ?_, ?_, ?_⟩
  · rw [(quiet_after s n c o).broker, acted.broker]
    exact brokerAfter_wf yields here g.broker
  · intro m d found
    rw [after_calls, Function.update_apply] at found
    split at found
    · exact act_routed labels yields here acts found
    · exact g.calls m d found
  · intro f w' found
    rcases after_forwarder_some acts found with ⟨a, ref, cursor, stream, rfl, rfl, rfl | rfl⟩ |
      ⟨w, older, rfl | rfl⟩
    · exact ⟨here, fun p none_ => by cases none_⟩
    · exact ⟨here, fun p none_ => by cases none_⟩
    · exact g.forwarders f w' older
    · exact g.forwarders f w older
  · have grown : ∀ e, H.eventOf s.shared n env now c = some e → ∀ m ref origin p,
        e = .enqueued m ref origin p → ∃ channel, Opened s.log m ref channel ∧ R channel p := by
      rintro e logs m ref origin p rfl
      obtain ⟨rfl, a, cursor, stream, rest, rfl⟩ := eventOf_enqueued logs
      refine ⟨a.channel, grounded.calls m _ at_, ?_⟩
      rw [← here.2 p (List.mem_cons_self ..)]
      exact yields.own p
    intro m ref origin p member
    rw [after_log] at member ⊢
    rcases List.mem_append.mp member with new | old
    · have logged : .enqueued m ref origin p ∈ (H.eventOf s.shared n env now c).toList := by
        rcases acted.logged with ⟨_, _, events⟩ | ⟨_, _, events⟩
        · rwa [events] at new
        · rw [events] at new
          exact (List.mem_cons.mp new).resolve_left nofun
      obtain ⟨channel, opened, related⟩ :=
        grown _ (Option.mem_toList.mp logged) m ref origin p rfl
      exact ⟨channel, opened.append _, related⟩
    · obtain ⟨channel, opened, related⟩ := g.log m ref origin p old
      exact ⟨channel, opened.append _, related⟩

theorem forward_routed (yields : H.broker.Yields R topicOf wf)
    (grounded : s.Grounded H.gate.allowAnonymous) (g : s.Routed R topicOf wf) {f : Nat}
    {w : Forwarder τ} {x' : Shared κ β τ} {events : List Event}
    (task : s.shared.forwarders f = some w) (moved : H.Forwarded s.shared f w x' events) :
    State.Routed R topicOf wf { s with shared := x', log := events ++ s.log } := by
  obtain ⟨topic, hand⟩ := g.forwarders f w task
  have opened := grounded.forwarders f w task
  have others := (moved.frame task).others
  have good : wf x'.broker ∧ ∀ w', x'.forwarders f = some w' →
      topicOf w'.stream = w'.channel ∧ ∀ p, w'.inHand = some p → R w'.channel p := by
    cases moved with
    | scheduled polled admitted =>
        refine ⟨g.broker, fun w' found => ?_⟩
        cases (Function.update_self ..).symm.trans found
        exact ⟨topic, hand⟩
    | @took b p polled free ready =>
        have broker : wf (H.broker.next s.shared.broker w.stream).1 := yields.next _ _ g.broker
        have item := yields.ready _ _ _ g.broker (congrArg Prod.snd ready)
        rw [ready] at broker
        refine ⟨broker, fun w' found => ?_⟩
        cases (Function.update_self ..).symm.trans found
        refine ⟨topic, fun q holding => ?_⟩
        cases holding
        exact topic ▸ item
    | lagged polled free skipped =>
        have broker : wf (H.broker.next s.shared.broker w.stream).1 := yields.next _ _ g.broker
        rw [skipped] at broker
        exact ⟨broker, g.forwarders f⟩
    | waited polled free pending =>
        have broker : wf (H.broker.next s.shared.broker w.stream).1 := yields.next _ _ g.broker
        rw [pending] at broker
        refine ⟨broker, fun w' found => ?_⟩
        cases (Function.update_self ..).symm.trans found
        exact ⟨topic, hand⟩
    | exhausted polled free finished =>
        have broker : wf (H.broker.next s.shared.broker w.stream).1 := yields.next _ _ g.broker
        rw [finished] at broker
        refine ⟨yields.dropStream _ _ broker, fun w' found => ?_⟩
        cases (Function.update_self ..).symm.trans found
    | sent polled holding room =>
        refine ⟨g.broker, fun w' found => ?_⟩
        cases (Function.update_self ..).symm.trans found
        exact ⟨topic, fun q none_ => by cases none_⟩
    | ended why =>
        refine ⟨yields.dropStream _ _ g.broker, fun w' found => ?_⟩
        cases (Function.update_self ..).symm.trans found
  refine ⟨good.1, g.calls, ?_, ?_⟩
  · intro f' w' found
    by_cases same : f' = f
    · subst same
      exact good.2 w' found
    · rw [others f' same] at found
      exact g.forwarders f' w' found
  · intro n ref origin p member
    rcases List.mem_append.mp member with new | old
    · cases moved with
      | sent polled holding room =>
          cases List.mem_singleton.mp new
          exact ⟨w.channel, opened.append _, hand p holding⟩
      | lagged => cases List.mem_singleton.mp new
      | _ => cases new
    · obtain ⟨channel, opened', related⟩ := g.log n ref origin p old
      exact ⟨channel, opened'.append _, related⟩

theorem step_routed (labels : H.kinds.Labels) (yields : H.broker.Yields R topicOf wf)
    (grounded : s.Grounded H.gate.allowAnonymous) (g : s.Routed R topicOf wf) {l : Label ε}
    (h : H.step s l = some t) : t.Routed R topicOf wf := by
  cases Hub.stepped h with
  | start r =>
      refine ⟨g.broker, ?_, g.forwarders, g.log⟩
      intro m d found
      simp only [Function.update_apply] at found
      split at found
      · cases found
        exact entry_routed topicOf r
      · exact g.calls m d found
  | advance at_ acts => exact advance_routed labels yields grounded g at_ acts
  | forward task moves => exact forward_routed yields grounded g task (Hub.forwarded moves)
  | transport quiet sheds =>
      refine ⟨?_, g.calls, ?_, g.log⟩
      · rw [quiet.broker]
        exact g.broker
      · intro f w' found
        obtain ⟨w, older, rfl | rfl⟩ := quiet.forwarder_some found
        · exact g.forwarders f w' older
        · exact g.forwarders f w older

/-- Whatever the hub enqueues for a call is related to the channel that call subscribed to. -/
theorem enqueued_related (labels : H.kinds.Labels) (yields : H.broker.Yields R topicOf wf)
    {kinds : Nat → κ} {broker : β} (good : wf broker)
    (run : H.machine.Run Machine.free (State.initial kinds broker) s) {n ref : Nat}
    {channel : String} {origin : Origin} {p : Publication} (opened : Opened s.log n ref channel)
    (member : .enqueued n ref origin p ∈ s.log) : R channel p := by
  have kept := run.invariant
    (I := fun s => s.Grounded H.gate.allowAnonymous ∧ s.Staged ∧ s.Routed R topicOf wf)
    ⟨initial_grounded _ kinds broker, initial_staged kinds broker, good,
      fun _ _ found => (by cases found), fun _ _ found => (by cases found),
      fun _ _ _ _ found => (by cases found)⟩
    fun s l t before _ h => ⟨step_grounded before.1 h, step_staged before.2.1 h,
      step_routed labels yields before.1 before.2.2 h⟩
  obtain ⟨channel', opened', related⟩ := kept.2.2.log n ref origin p member
  have same := (kept.2.1.opened n _ _ _ _ _ _ opened opened').2
  rw [same]
  exact related

end Step

theorem PubSubChannel.channelKind_labels : PubSubChannel.channelKind.Labels := by
  refine ⟨?_, ?_⟩
  · intro ps now channel data p accepted
    have accepts := onPublish_accepts (Prod.ext rfl accepted)
    rw [accepts.publication]
  · intro ps now channel since replayed read p member
    obtain ⟨result, same, replays⟩ := replaySince_replays ps now channel since
    cases Except.ok.inj (same.symm.trans read)
    rw [replays.result_eq] at member
    exact retained_channel (List.mem_of_mem_filter member)

theorem NatsBroker.broker_yields :
    NatsBroker.broker.Yields (fun topic p => subjectCovers topic p.channel = true)
      NatsStream.subject NatsBroker.Wf where
  own p := subjectCovers_self p.channel
  opened _ _ _ := subscribe_subject
  ready _ _ _ wf yielded := next_covered wf yielded
  subscribe _ topic wf := subscribe_wf wf topic
  publish _ _ _ wf labelled := publish_wf wf labelled
  next _ stream wf := next_wf wf stream
  dropStream _ stream wf := dropStream_wf wf stream

/-- Configuration of a hub over `PubSubChannel` kinds and a `NatsBroker`. -/
structure OverNats (ε : Type) where
  gate : Gate ε
  kind : Nat
  namespaceKinds : String → Option Nat
  historySize : Nat → Nat
  historyTtl : Nat → Nat
  subscriptionCapacity : Nat
  subscribeError : String → Option String
  publishError : String → Bytes → Option String

namespace OverNats

def hub (cfg : OverNats ε) : Hub PubSubChannel NatsBroker NatsStream ε where
  gate := cfg.gate
  kinds := PubSubChannel.channelKind
  broker := NatsBroker.broker
  kind := cfg.kind
  namespaceKinds := cfg.namespaceKinds

def boot (cfg : OverNats ε) : State PubSubChannel NatsBroker NatsStream :=
  State.initial (fun k => .withBounds (cfg.historySize k) (cfg.historyTtl k))
    (.connect cfg.subscriptionCapacity cfg.subscribeError cfg.publishError)

def standard (gate : Gate ε) : OverNats ε where
  gate := gate
  kind := 0
  namespaceKinds := fun _ => none
  historySize := fun _ => 256
  historyTtl := fun _ => 300
  subscriptionCapacity := 65536
  subscribeError := fun _ => none
  publishError := fun _ _ => none

end OverNats

abbrev NatsState := State PubSubChannel NatsBroker NatsStream

/-- Session 0 is subscribed to the pattern and nothing else has happened. -/
structure Listening (pattern : String) (s : NatsState) : Prop where
  registered : s.shared.registry.get 0 = some 0
  id : (s.shared.heap 0).id = 0
  claims : (s.shared.heap 0).claims = some .anonymous
  outbox : (s.shared.heap 0).outbox = ⟨16, [], false⟩
  task : s.shared.forwarders 1 = some ⟨0, pattern, ⟨0, pattern⟩, none, false, false⟩
  kind : s.shared.kinds 0 = .withBounds 256 300
  broker : s.shared.broker = { NatsBroker.connect 65536 (fun _ => none) fun _ _ => none with
    subscriptions := [⟨0, pattern⟩], nextSid := 1 }
  nextCall : s.nextCall = 2
  returned : .returned 1 (.ok (.subscribeOk ⟨7, pattern, 1, 0⟩)) ∈ s.log
  opened : Opened s.log 1 0 pattern

section Leak

variable (acl : NamespaceAcl) {pattern channel : String}

theorem pattern_listening (filled : pattern.isEmpty = false)
    (subscribable : acl.check .anonymous .subscribe pattern = .allow) :
    ∃ s, (OverNats.standard acl.gate).hub.machine.Run Machine.free
      (OverNats.standard acl.gate).boot s ∧ Listening pattern s := by
  generalize config : OverNats.standard acl.gate = cfg
  obtain ⟨x, _, opening, opens⟩ := open_alone (H := cfg.hub) (n := 0) (x := cfg.boot.shared) 16 ()
    (by rw [← config]; rfl)
  obtain ⟨s₁, run₁, rfl, calls₁, _⟩ := Alone.call (s := cfg.boot) (r := .openSession 16) opening
  have session : s₁.shared.heap 0 =
      { Session.new 0 16 with claims := some .anonymous, handles := 1 } := by
    rw [opens.heap, ← config]
    rfl
  have registered : s₁.shared.registry.get 0 = some 0 := opens.registered
  have kind : s₁.shared.kinds 0 = .withBounds 256 300 := by
    rw [opens.kinds, ← config]
    rfl
  have broker : s₁.shared.broker = .connect 65536 (fun _ => none) fun _ _ => none := by
    rw [opens.broker, ← config]
    rfl
  have asked : cfg.hub.kinds.onSubscribe (s₁.shared.kinds (cfg.hub.kindFor pattern)) 0 pattern =
      (.withBounds 256 300, .ok ⟨1, 0⟩) := by
    rw [← config]
    change (s₁.shared.kinds 0, (s₁.shared.kinds 0).onSubscribe pattern) = _
    rw [kind, PubSubChannel.onSubscribe, filled]
    rfl
  have opened : cfg.hub.broker.subscribe s₁.shared.broker pattern =
      ({ s₁.shared.broker with subscriptions := [⟨0, pattern⟩], nextSid := 1 },
        .ok ⟨0, pattern⟩) := by
    rw [← config, broker]
    rfl
  have subscribed := subscribe_alone_live (n := 1) (a := ⟨0, 7, pattern, 0⟩)
    (by rw [session]; exact registered) (by rw [session]; rfl) rfl asked opened ()
  have allowed : cfg.hub.gate.check () .anonymous .subscribe pattern = .ok .allow := by
    rw [← config]
    exact congrArg _ subscribable
  have subscribing := enter_alone (g := .subscribe ⟨0, 7, pattern, 0⟩) registered
    (by rw [session]; rfl) (by rw [session]) allowed subscribed
  obtain ⟨s₂, run₂, shared₂, calls₂, log₂⟩ := Alone.call (s := s₁)
    (r := .subscribe ⟨0, 7, pattern, 0⟩) (by rw [calls₁]; exact subscribing)
  have session₂ : s₂.shared.heap 0 = { s₁.shared.heap 0 with
      subscriptions := (s₁.shared.heap 0).subscriptions.put pattern 1 } := by
    rw [shared₂]
    simp [Shared.setSubscriptions, Shared.setSession, Shared.setForwarder, Shared.setKind]
  refine ⟨s₂, run₁.trans run₂, ?_, ?_, ?_, ?_, ?_, ?_, ?_, ?_, ?_, ?_⟩
  · rw [shared₂]
    exact registered
  · rw [session₂, session]
    rfl
  · rw [session₂, session]
  · rw [session₂, session]
    rfl
  · rw [shared₂]
    simp [Shared.setSubscriptions, Shared.setSession, Shared.setForwarder]
  · rw [shared₂, ← config]
    exact Function.update_self (0 : Nat) (PubSubChannel.withBounds 256 300) s₁.shared.kinds
  · rw [shared₂]
    simp [Shared.setSubscriptions, Shared.setSession, Shared.setForwarder, broker]
  · rw [calls₂, calls₁]
    rfl
  · rw [log₂]
    simp
  · rw [log₂]
    simp [Opened]

theorem covered_delivered {s : NatsState} (listening : Listening pattern s)
    (filled : channel.isEmpty = false) (covers : subjectCovers pattern channel = true)
    (fits : (⟨channel, 0, []⟩ : Publication).Fits)
    (publishable : acl.check .anonymous .publish channel = .allow) :
    ∃ t, (OverNats.standard acl.gate).hub.machine.Run Machine.free s t ∧ s.log <:+ t.log ∧
      .enqueued 1 0 .live ⟨channel, 0, []⟩ ∈ t.log := by
  generalize config : OverNats.standard acl.gate = cfg
  have accepted : cfg.hub.kinds.onPublish (s.shared.kinds (cfg.hub.kindFor channel)) 0 channel [] =
      (((PubSubChannel.withBounds 256 300).onPublish 0 channel []).1, .ok ⟨channel, 0, []⟩) := by
    rw [← config]
    change (s.shared.kinds 0).onPublish 0 channel [] = _
    rw [listening.kind]
    refine Prod.ext rfl ?_
    simp [PubSubChannel.onPublish, filled, PubSubChannel.withBounds]
  have sent : cfg.hub.broker.publish s.shared.broker channel ⟨channel, 0, []⟩ =
      (s.shared.broker.deliver channel (encodePublication ⟨channel, 0, []⟩), .ok ()) := by
    rw [← config, listening.broker]
    rfl
  have valid : cfg.hub.gate.validate () channel [] = .ok () := by
    rw [← config]
    rfl
  have allowed : cfg.hub.gate.check () .anonymous .publish channel = .ok .allow := by
    rw [← config]
    exact congrArg _ publishable
  have published := publish_alone (n := 2) (a := ⟨0, channel, []⟩)
    (by rw [listening.id]; exact listening.registered) valid accepted sent
  have publishing := enter_alone (g := .publish ⟨0, channel, []⟩) listening.registered
    listening.id listening.claims allowed published
  obtain ⟨u, run, shared, _, log⟩ := Alone.call (s := s)
    (r := .publish ⟨0, channel, []⟩) (by rw [listening.nextCall]; exact publishing)
  have session : (u.shared.heap 0).outbox = ⟨16, [], false⟩ := by
    rw [shared]
    exact listening.outbox
  have task : u.shared.forwarders 1 = some ⟨0, pattern, ⟨0, pattern⟩, none, false, false⟩ := by
    rw [shared]
    exact listening.task
  obtain ⟨b, ready⟩ := NatsBroker.next_delivered (b := s.shared.broker) (p := ⟨channel, 0, []⟩)
    ⟨0, pattern⟩ (by rw [listening.broker]; simp) (by rw [listening.broker]; rfl)
    (by rw [listening.broker]; exact Nat.succ_pos _) covers fits
  have next : cfg.hub.broker.next u.shared.broker ⟨0, pattern⟩ = (b, .ready ⟨channel, 0, []⟩) := by
    rw [shared, ← config]
    exact ready
  obtain ⟨t, run', delivered⟩ := forward_delivers task rfl rfl rfl next (by rw [session]; rfl)
  refine ⟨t, run.trans run', ?_, ?_⟩
  · rw [delivered, log]
    exact (List.suffix_append _ _).trans (List.suffix_cons _ _)
  · rw [delivered]
    exact List.mem_cons_self ..

end Leak

/-- Whatever the gate, the kinds' bounds and the client's refusals are: everything a
subscription to `c` is sent is on `c`, for which the ACL has allowed the call to subscribe. -/
def Isolated (c : String) : Prop :=
  ∀ (ε : Type) (cfg : OverNats ε) (s : NatsState), cfg.hub.machine.Run Machine.free cfg.boot s →
    ∀ n ref origin p, Opened s.log n ref c → .enqueued n ref origin p ∈ s.log →
      p.channel = c ∧ Allowed s.log n ref .subscribe p.channel

/-- Names longer than an allocation can be are left out. -/
theorem nats_isolation {c : String} (sized : c.utf8ByteSize < 2 ^ 64) :
    Isolated c ↔ hasWildcard c = false := by
  constructor
  · intro isolated
    apply Bool.eq_false_iff.mpr
    intro wild
    have filled : c.isEmpty = false := by
      apply Bool.eq_false_iff.mpr
      intro empty
      rw [String.isEmpty_iff.mp empty] at wild
      exact absurd wild (by decide)
    have size := wildcardInstance_size c
    have filled' : (wildcardInstance c).isEmpty = false := by
      apply Bool.eq_false_iff.mpr
      intro empty
      rw [String.isEmpty_iff.mp empty] at size
      rw [String.utf8ByteSize_eq_zero_iff.mp size.symm] at filled
      cases filled
    have fits : (⟨wildcardInstance c, 0, []⟩ : Publication).Fits := by
      refine ⟨?_, Nat.two_pow_pos 64, Nat.two_pow_pos 64⟩
      rw [Wire.utf8_length, size]
      exact sized
    obtain ⟨s, run, listening⟩ := pattern_listening ⟨[], true⟩ filled rfl
    obtain ⟨t, run', grown, delivered⟩ := covered_delivered ⟨[], true⟩ listening filled'
      (subjectCovers_wildcardInstance c) fits rfl
    have opened : Opened t.log 1 0 c := grown.subset listening.opened
    exact wildcardInstance_ne wild
      (isolated Unit _ t (run.trans run') 1 0 .live _ opened delivered).1
  · intro plain ε cfg s run n ref origin p opened member
    have related := enqueued_related (H := cfg.hub) PubSubChannel.channelKind_labels
      NatsBroker.broker_yields (NatsBroker.connect_wf _ _ _) run opened member
    have same := subjectCovers_eq plain related
    refine ⟨same, ?_⟩
    rw [same]
    exact opened.allowed (run_grounded run).history

/-- An ordinary name is isolated, a pattern is not. -/
theorem nats_isolation_rooms : Isolated "rooms.lobby" ∧ ¬ Isolated "rooms.*" := by
  refine ⟨(nats_isolation (by decide)).mpr (by decide), ?_⟩
  intro isolated
  have plain := (nats_isolation (by decide)).mp isolated
  revert plain
  decide

/-- Nobody may subscribe to `rooms.private`; everything else is allowed. -/
def privateRoom : NamespaceAcl :=
  ⟨[.deny (· = "rooms.private") .subscribe, .allow (fun _ => true) .any], false⟩

/-- Subscribed to `rooms.*`, which the ACL allows, a session is sent what is published on the
channel that the ACL denies it. -/
theorem denied_channel_received :
    ∃ s, (OverNats.standard privateRoom.gate).hub.machine.Run Machine.free
        (OverNats.standard privateRoom.gate).boot s ∧
      .returned 1 (.ok (.subscribeOk ⟨7, "rooms.*", 1, 0⟩)) ∈ s.log ∧
      Opened s.log 1 0 "rooms.*" ∧ .enqueued 1 0 .live ⟨"rooms.private", 0, []⟩ ∈ s.log ∧
      privateRoom.check .anonymous .subscribe "rooms.private" = .deny := by
  obtain ⟨s, run, listening⟩ := pattern_listening privateRoom
    (show "rooms.*".isEmpty = false by decide) (by decide)
  obtain ⟨t, run', grown, delivered⟩ := covered_delivered privateRoom listening
    (show "rooms.private".isEmpty = false by decide) (by decide) ⟨by decide, by decide, by decide⟩ (by decide)
  exact ⟨t, run.trans run', grown.subset listening.returned, grown.subset listening.opened,
    delivered, by decide⟩

end Cherenkov
