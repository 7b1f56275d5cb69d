import Cherenkov.PubSub
import Cherenkov.MemoryBroker
import Cherenkov.Hub.Stages

/-! A hub over the in-process broker and kinds of any sort, seen as what publications pass through:
the kinds, the publishes between `on_publish` and `broker.publish`, the broker, and one subscription
per subscribe call. A subscription is in the hands of its call until the forwarder is spawned and of
the forwarder afterwards; the view does not see the hand-over. Every step of the hub is one step of
this view. -/

namespace Cherenkov

variable {κ ε : Type}

/-- Configuration of a hub over `PubSubChannel` kinds and a `MemoryBroker`. -/
structure InMemory (ε : Type) where
  gate : Gate ε
  kind : Nat
  namespaceKinds : String → Option Nat
  historySize : Nat → Nat
  historyTtl : Nat → Nat
  capacity : Nat

abbrev MemoryState (κ : Type) := State κ MemoryBroker MemoryStream

abbrev HubState := MemoryState PubSubChannel

namespace InMemory

def hub (cfg : InMemory ε) : Hub PubSubChannel MemoryBroker MemoryStream ε where
  gate := cfg.gate
  kinds := PubSubChannel.channelKind
  broker := MemoryBroker.broker
  kind := cfg.kind
  namespaceKinds := cfg.namespaceKinds

def boot (cfg : InMemory ε) : HubState :=
  State.initial (fun k => .withBounds (cfg.historySize k) (cfg.historyTtl k))
    (.withCapacity cfg.capacity)

/-- One kind and one broker with their default bounds; durations in seconds. -/
def standard (gate : Gate ε) : InMemory ε where
  gate := gate
  kind := 0
  namespaceKinds := fun _ => none
  historySize := fun _ => 256
  historyTtl := fun _ => 300
  capacity := 1024

end InMemory

def defaults : InMemory Unit := .standard .allowAll

/-- A subscription that is unwinding keeps its stream but delivers nothing more. -/
structure Subscription where
  channel : String
  stream : MemoryStream
  replay : List Publication
  inHand : Option Publication
  active : Bool

def Call.subscription : Call MemoryStream → Option Subscription
  | .subscribeReplay a _ _ stream => some ⟨a.channel, stream, [], none, true⟩
  | .subscribeSend a _ _ stream rest => some ⟨a.channel, stream, rest, none, true⟩
  | .subscribeSpawn a _ _ stream => some ⟨a.channel, stream, [], none, true⟩
  | .subscribeUnwind a _ (some stream) _ => some ⟨a.channel, stream, [], none, false⟩
  | _ => none

def Forwarder.subscription (w : Forwarder MemoryStream) : Subscription :=
  ⟨w.channel, w.stream, [], w.inHand, true⟩

def State.subscription (s : MemoryState κ) (n : Nat) : Option Subscription :=
  ((s.calls n).bind Call.subscription).or ((s.shared.forwarders n).map Forwarder.subscription)

def Call.flight : Call MemoryStream → Option (String × Publication)
  | .publishBroker a _ p => some (a.channel, p)
  | _ => none

def Event.moves : Event → Bool
  | .onPublish _ _ _ _ (.ok _) | .brokerPublish _ _ _ _ _ | .enqueued _ _ _ _ | .lagged _ _ => true
  | _ => false

/-- What reads only events that move a publication may forget the others. -/
theorem filterMap_moves {α : Type} {f : Event → Option α}
    (reads : ∀ e : Event, e.moves = false → f e = none) (log : List Event) :
    (log.filter Event.moves).filterMap f = log.filterMap f := by
  rw [List.filterMap_filter]
  congr 1
  funext e
  cases moved : e.moves with
  | false => rw [reads e moved, if_neg Bool.false_ne_true]
  | true => rw [if_pos rfl]

@[ext] structure Flow (κ : Type) where
  subs : Nat → Option Subscription
  broker : MemoryBroker
  flight : Nat → Option (String × Publication)
  kinds : Nat → κ
  log : List Event

def State.flow (s : MemoryState κ) : Flow κ where
  subs := s.subscription
  broker := s.shared.broker
  flight n := (s.calls n).bind Call.flight
  kinds := s.shared.kinds
  log := s.log.filter Event.moves

/-- Calls of a kind that accept nothing and read nothing. -/
inductive ChannelKind.Turns (K : ChannelKind κ) (kindFor : String → Nat) (kinds : Nat → κ) :
    (Nat → κ) → Prop
  | same : Turns K kindFor kinds kinds
  | subscribed (now : Nat) (channel : String) :
      Turns K kindFor kinds (Function.update kinds (kindFor channel)
        (K.onSubscribe (kinds (kindFor channel)) now channel).1)
  | unsubscribed (now : Nat) (channel : String) :
      Turns K kindFor kinds (Function.update kinds (kindFor channel)
        (K.onUnsubscribe (kinds (kindFor channel)) now channel).1)
  | refused (now : Nat) (channel : String) (data : Bytes) (e : ChannelError)
      (refuses : (K.onPublish (kinds (kindFor channel)) now channel data).2 = .error e) :
      Turns K kindFor kinds (Function.update kinds (kindFor channel)
        (K.onPublish (kinds (kindFor channel)) now channel data).1)
  | unread (now : Nat) (channel : String) (since : Nat) (e : ChannelError)
      (fails : (K.replaySince (kinds (kindFor channel)) now channel since).2 = .error e) :
      Turns K kindFor kinds (Function.update kinds (kindFor channel)
        (K.replaySince (kinds (kindFor channel)) now channel since).1)

theorem PubSubChannel.turns_same {kindFor : String → Nat} {kinds kinds' : Nat → PubSubChannel}
    (turns : channelKind.Turns kindFor kinds kinds') : kinds' = kinds := by
  cases turns with
  | same => rfl
  | subscribed now channel => exact Function.update_eq_self _ _
  | unsubscribed now channel => exact Function.update_eq_self _ _
  | refused now channel data e refuses =>
      have same := onPublish_error (Prod.ext rfl refuses)
      exact (congrArg _ same).trans (Function.update_eq_self _ _)
  | unread now channel since e fails =>
      obtain ⟨result, read, _⟩ := (kinds (kindFor channel)).replaySince_replays now channel since
      cases read.symm.trans fails

namespace Flow

def setSub (v : Flow κ) (n : Nat) (sub : Option Subscription) : Flow κ :=
  { v with subs := Function.update v.subs n sub }

/-- Steps that neither open a stream nor read the history. -/
inductive Step (K : ChannelKind κ) (kindFor : String → Nat) (v : Flow κ) : Flow κ → Prop
  | idle (kinds : Nat → κ) (turns : K.Turns kindFor v.kinds kinds) :
      Step K kindFor v { v with kinds }
  | accepted (n ref now : Nat) (channel : String) (data : Bytes) (p : Publication)
      (ps : κ) (vacant : v.flight n = none)
      (accepts : K.onPublish (v.kinds (kindFor channel)) now channel data = (ps, .ok p)) :
      Step K kindFor v { v with
        kinds := Function.update v.kinds (kindFor channel) ps
        flight := Function.update v.flight n (some (channel, p))
        log := .onPublish n ref channel data (.ok p) :: v.log }
  | broadcast (n ref : Nat) (channel : String) (p : Publication)
      (flying : v.flight n = some (channel, p)) :
      Step K kindFor v { v with
        flight := Function.update v.flight n none
        broker := (v.broker.publish channel p).1
        log := .brokerPublish n ref channel p (v.broker.publish channel p).2 :: v.log }
  | replayed (n ref : Nat) (sub : Subscription) (p : Publication) (rest : List Publication)
      (due : v.subs n = some sub) (active : sub.active = true) (head : sub.replay = p :: rest) :
      Step K kindFor v { v.setSub n (some { sub with replay := rest }) with
        log := .enqueued n ref .replay p :: v.log }
  | abandoned (n : Nat) (sub : Subscription) (due : v.subs n = some sub) (kinds : Nat → κ)
      (turns : K.Turns kindFor v.kinds kinds) :
      Step K kindFor v { v.setSub n (some { sub with replay := [], active := false }) with kinds }
  | took (n : Nat) (sub : Subscription) (p : Publication) (b : MemoryBroker)
      (due : v.subs n = some sub) (live : sub.replay = []) (free : sub.inHand = none)
      (next : v.broker.next sub.stream = (b, .ready p)) :
      Step K kindFor v { v.setSub n (some { sub with inHand := some p }) with broker := b }
  | lagged (n : Nat) (sub : Subscription) (k : Nat) (b : MemoryBroker)
      (due : v.subs n = some sub) (live : sub.replay = []) (free : sub.inHand = none)
      (next : v.broker.next sub.stream = (b, .lagged k)) :
      Step K kindFor v { v with broker := b, log := .lagged n k :: v.log }
  | sent (n ref : Nat) (sub : Subscription) (p : Publication) (due : v.subs n = some sub)
      (active : sub.active = true) (live : sub.replay = []) (holding : sub.inHand = some p) :
      Step K kindFor v { v.setSub n (some { sub with inHand := none }) with
        log := .enqueued n ref .live p :: v.log }
  | dropped (n : Nat) (sub : Subscription) (due : v.subs n = some sub) (kinds : Nat → κ)
      (turns : K.Turns kindFor v.kinds kinds) :
      Step K kindFor v { v.setSub n none with broker := v.broker.dropStream sub.stream, kinds }

theorem Step.congr {K : ChannelKind κ} {kindFor : String → Nat} {v w w' : Flow κ}
    (h : Step K kindFor v w) (same : w' = w) : Step K kindFor v w' := same ▸ h

structure Opens (v : Flow κ) (n : Nat) (channel : String) (v' : Flow κ) : Prop where
  unopened : v.subs n = none
  unheard : ∀ e ∈ v.log, e.delivery ≠ some n
  result : ∃ stream, (v.broker.subscribe channel).2 = .ok stream ∧
    v' = { v.setSub n (some ⟨channel, stream, [], none, true⟩) with
      broker := (v.broker.subscribe channel).1 }

structure Reads (K : ChannelKind κ) (kindFor : String → Nat) (v : Flow κ) (n : Nat)
    (channel : String) (since : Nat) (v' : Flow κ) : Prop where
  undelivered : ∀ e ∈ v.log, e.delivery ≠ some n
  result : ∃ stream now replayed, v.subs n = some ⟨channel, stream, [], none, true⟩ ∧
    (K.replaySince (v.kinds (kindFor channel)) now channel since).2 = .ok replayed ∧
    v' = { v.setSub n (some ⟨channel, stream, replayed, none, true⟩) with
      kinds := Function.update v.kinds (kindFor channel)
        (K.replaySince (v.kinds (kindFor channel)) now channel since).1 }

end Flow

def Call.spawns : Call MemoryStream → Option Subscription
  | .subscribeSpawn a _ _ stream => some ⟨a.channel, stream, [], none, true⟩
  | _ => none

theorem Quiet.subscription {x x' : Shared κ MemoryBroker MemoryStream} (q : Quiet x x')
    (m : Nat) : (x'.forwarders m).map Forwarder.subscription =
      (x.forwarders m).map Forwarder.subscription := by
  rcases q.forwarders m with same | aborted
  · rw [same]
  · rw [aborted, Option.map_map]
    rfl

theorem abort_subscription (x : Shared κ MemoryBroker MemoryStream) (fs : List Nat)
    (m : Nat) : ((x.abort fs).forwarders m).map Forwarder.subscription =
      (x.forwarders m).map Forwarder.subscription := by
  simp only [Shared.abort]
  split
  · rw [Option.map_map]
    rfl
  · rfl

theorem forwardersAfter_subscription (x : Shared κ MemoryBroker MemoryStream) (n : Nat)
    (c : Call MemoryStream) (m : Nat) :
    (x.forwardersAfter n c m).map Forwarder.subscription =
      if m = n then c.spawns.or ((x.forwarders m).map Forwarder.subscription)
      else (x.forwarders m).map Forwarder.subscription := by
  cases c with
  | subscribeSpawn a ref cursor stream =>
      simp only [Shared.forwardersAfter, Function.update_apply]
      split
      · rfl
      · rfl
  | subscribeStray a ref =>
      simp only [Shared.forwardersAfter, abort_subscription, Call.spawns, Option.none_or, ite_self]
  | unsubscribeAbort a ref forwarder =>
      simp only [Shared.forwardersAfter, abort_subscription, Call.spawns, Option.none_or, ite_self]
  | _ => simp only [Shared.forwardersAfter, Call.spawns, Option.none_or, ite_self]

section Advance

variable {H : Hub κ MemoryBroker MemoryStream ε} {s : MemoryState κ} {n : Nat} {env : ε} {now : Nat}
  {c : Call MemoryStream} {o : Outcome κ MemoryBroker MemoryStream}

theorem flow_after (acts : H.act s.shared n env now c = some o) :
    (s.after n c o).flow =
      { subs := Function.update s.flow.subs n ((o.next.bind Call.subscription).or
          (c.spawns.or ((s.shared.forwarders n).map Forwarder.subscription)))
        broker := H.brokerAfter s.shared c
        flight := Function.update s.flow.flight n (o.next.bind Call.flight)
        kinds := H.kindsAfter s.shared now c
        log := ((H.eventOf s.shared n env now c).filter Event.moves).toList ++ s.flow.log } := by
  have acted := Hub.acted acts
  have quiet := quiet_after s n c o
  refine Flow.ext ?_ ?_ ?_ ?_ ?_
  · funext m
    have tasks : ((s.after n c o).shared.forwarders m).map Forwarder.subscription = _ :=
      quiet.subscription m
    rw [acted.forwarders, forwardersAfter_subscription] at tasks
    simp only [State.flow, State.subscription, after_calls, tasks]
    by_cases same : m = n
    · subst same
      simp only [Function.update_self, if_pos]
    · simp only [Function.update_of_ne same, if_neg same, State.subscription]
  · exact quiet.broker.trans acted.broker
  · funext m
    simp only [State.flow, after_calls]
    by_cases same : m = n
    · subst same
      simp only [Function.update_self]
    · simp only [Function.update_of_ne same]
  · exact quiet.kinds.trans acted.kinds
  · have own : o.events.filter Event.moves =
        ((H.eventOf s.shared n env now c).filter Event.moves).toList := by
      have event : ∀ e : Option Event, e.toList.filter Event.moves = (e.filter Event.moves).toList := by
        intro e
        cases e with
        | none => rfl
        | some e => cases moved : e.moves <;> simp [moved, Option.filter]
      rcases acted.logged with ⟨_, _, logged⟩ | ⟨_, _, logged⟩
      · rw [logged, event]
      · rw [logged, ← event]
        rfl
    simp only [State.flow, after_log, List.filter_append, own]

/-- The calls whose answer from a kind is more than a yes or no. -/
def Call.asks : Call MemoryStream → Bool
  | .publishKind _ _ | .subscribeReplay _ _ _ _ => true
  | _ => false

theorem kindsAfter_turns (H : Hub κ MemoryBroker MemoryStream ε)
    (x : Shared κ MemoryBroker MemoryStream) (now : Nat) {c : Call MemoryStream}
    (asks : c.asks = false) : H.kinds.Turns H.kindFor x.kinds (H.kindsAfter x now c) := by
  cases c with
  | subscribeKind a ref => exact .subscribed now a.channel
  | subscribeUnwind a ref stream error => exact .unsubscribed now a.channel
  | unsubscribeKind a ref => exact .unsubscribed now a.channel
  | publishKind a ref => cases asks
  | subscribeReplay a ref cursor stream => cases asks
  | _ => exact .same

theorem flow_after_idle (at_ : s.calls n = some c) (acts : H.act s.shared n env now c = some o)
    (subscription : (o.next.bind Call.subscription).or c.spawns = c.subscription)
    (flight : o.next.bind Call.flight = c.flight)
    (broker : H.brokerAfter s.shared c = s.shared.broker)
    (log : (H.eventOf s.shared n env now c).filter Event.moves = none) :
    (s.after n c o).flow = { s.flow with kinds := H.kindsAfter s.shared now c } := by
  rw [flow_after acts, flight, broker, log, ← Option.or_assoc, subscription]
  have subs : s.flow.subs n =
      c.subscription.or ((s.shared.forwarders n).map Forwarder.subscription) := by
    simp only [State.flow, State.subscription, at_, Option.bind_some]
  have flights : s.flow.flight n = c.flight := by
    simp only [State.flow, at_, Option.bind_some]
  rw [← subs, ← flights, Function.update_eq_self, Function.update_eq_self]
  rfl

theorem idle_flow (at_ : s.calls n = some c) (acts : H.act s.shared n env now c = some o)
    (asks : c.asks = false)
    (subscription : (o.next.bind Call.subscription).or c.spawns = c.subscription)
    (flight : o.next.bind Call.flight = c.flight)
    (broker : H.brokerAfter s.shared c = s.shared.broker)
    (log : (H.eventOf s.shared n env now c).filter Event.moves = none) :
    Flow.Step H.kinds H.kindFor s.flow (s.after n c o).flow :=
  Flow.Step.congr (.idle _ (kindsAfter_turns H s.shared now asks))
    (flow_after_idle at_ acts subscription flight broker log)

theorem calls_subscription (g : s.Staged) (at_ : s.calls n = some c) (early : c.stage ≤ 2) :
    s.flow.subs n = c.subscription := by
  simp only [State.flow, State.subscription, at_, Option.bind_some, g.unspawned n c at_ early,
    Option.map_none, Option.or_none]

theorem flight_unchanged (at_ : s.calls n = some c) (none_ : c.flight = none) :
    Function.update s.flow.flight n none = s.flow.flight := by
  have held : s.flow.flight n = none := by simp only [State.flow, at_, Option.bind_some, none_]
  rw [← held, Function.update_eq_self]

theorem subs_unchanged (at_ : s.calls n = some c) (none_ : c.subscription = none)
    (spawns : c.spawns = none) :
    Function.update s.flow.subs n
      (c.spawns.or ((s.shared.forwarders n).map Forwarder.subscription)) = s.flow.subs := by
  have held : s.flow.subs n = (s.shared.forwarders n).map Forwarder.subscription := by
    simp only [State.flow, State.subscription, at_, Option.bind_some, none_, Option.none_or]
  rw [spawns, Option.none_or, ← held, Function.update_eq_self]

theorem broker_opens (inProcess : H.broker = MemoryBroker.broker) {a : SubscribeArgs} {ref : Nat}
    {cursor : ChannelCursor} (g : s.Staged)
    (at_ : s.calls n = some (.subscribeBroker a ref cursor))
    (acts : H.act s.shared n env now (.subscribeBroker a ref cursor) = some o) :
    Flow.Opens s.flow n a.channel (s.after n (.subscribeBroker a ref cursor) o).flow := by
  refine ⟨?_, ?_, ?_⟩
  · rw [calls_subscription g at_ (Nat.zero_le _)]
    rfl
  · intro e member
    exact g.undelivered n _ at_ (Nat.zero_le _) e (List.mem_of_mem_filter member)
  · obtain ⟨stream, opened⟩ := s.shared.broker.subscribe_ok a.channel
    refine ⟨stream, opened, ?_⟩
    have view := flow_after acts
    have moved := acts
    simp only [Hub.act, inProcess, MemoryBroker.broker, opened, Option.some.injEq] at moved
    subst moved
    rw [view]
    refine Flow.ext ?_ ?_ ?_ rfl rfl
    · simp only [Flow.setSub]
      congr 1
      simp only [Outcome.after, Shared.goto, Option.bind_some]
      split <;> rfl
    · simp only [Hub.brokerAfter, inProcess]
      rfl
    · simp only [Outcome.after, Shared.goto, Option.bind_some]
      split <;> exact flight_unchanged at_ rfl

theorem replay_reads {a : SubscribeArgs} {ref : Nat} {cursor : ChannelCursor} {stream : MemoryStream}
    {replayed : List Publication} (g : s.Staged)
    (at_ : s.calls n = some (.subscribeReplay a ref cursor stream))
    (acts : H.act s.shared n env now (.subscribeReplay a ref cursor stream) = some o)
    (read : (H.kinds.replaySince (s.shared.kinds (H.kindFor a.channel)) now a.channel
      a.sinceOffset).2 = .ok replayed) :
    Flow.Reads H.kinds H.kindFor s.flow n a.channel a.sinceOffset
      (s.after n (.subscribeReplay a ref cursor stream) o).flow := by
  refine ⟨?_, stream, now, replayed, calls_subscription g at_ (by simp [Call.stage]), read, ?_⟩
  · intro e member
    exact g.undelivered n _ at_ (Nat.le_refl _) e (List.mem_of_mem_filter member)
  · have view := flow_after acts
    simp only [Hub.act, read] at acts
    cases acts
    rw [view]
    exact Flow.ext rfl rfl (flight_unchanged at_ rfl) rfl rfl

theorem replay_abandons {a : SubscribeArgs} {ref : Nat} {cursor : ChannelCursor}
    {stream : MemoryStream} {e : ChannelError} (g : s.Staged)
    (at_ : s.calls n = some (.subscribeReplay a ref cursor stream))
    (acts : H.act s.shared n env now (.subscribeReplay a ref cursor stream) = some o)
    (fails : (H.kinds.replaySince (s.shared.kinds (H.kindFor a.channel)) now a.channel
      a.sinceOffset).2 = .error e) :
    Flow.Step H.kinds H.kindFor s.flow
      (s.after n (.subscribeReplay a ref cursor stream) o).flow := by
  have held := calls_subscription g at_ (by simp [Call.stage])
  have view := flow_after acts
  simp only [Hub.act, fails] at acts
  cases acts
  refine Flow.Step.congr (.abandoned n _ held _ (.unread now a.channel a.sinceOffset e fails))
    (view.trans ?_)
  exact Flow.ext rfl rfl (flight_unchanged at_ rfl) rfl rfl

/-- Every step of a call is a step of the view; opening a stream and reading the history
are told apart. -/
theorem advance_flow (inProcess : H.broker = MemoryBroker.broker) (g : s.Staged)
    (at_ : s.calls n = some c) (acts : H.act s.shared n env now c = some o) :
    Flow.Step H.kinds H.kindFor s.flow (s.after n c o).flow ∨
      (∃ a ref cursor, c = .subscribeBroker a ref cursor ∧
        Flow.Opens s.flow n a.channel (s.after n c o).flow) ∨
      (∃ a ref cursor stream, c = .subscribeReplay a ref cursor stream ∧
        Flow.Reads H.kinds H.kindFor s.flow n a.channel a.sinceOffset (s.after n c o).flow) := by
  cases c with
  | subscribeBroker a ref cursor =>
      exact .inr (.inl ⟨a, ref, cursor, rfl, broker_opens inProcess g at_ acts⟩)
  | subscribeReplay a ref cursor stream =>
      cases read : (H.kinds.replaySince (s.shared.kinds (H.kindFor a.channel)) now a.channel
          a.sinceOffset).2 with
      | ok replayed => exact .inr (.inr ⟨a, ref, cursor, stream, rfl, replay_reads g at_ acts read⟩)
      | error e => exact .inl (replay_abandons g at_ acts read)
  | subscribeSend a ref cursor stream rest =>
      left
      have view := flow_after acts
      have held := calls_subscription g at_ (Nat.le_refl _)
      cases rest with
      | nil =>
          have moved := acts
          cases moved
          exact idle_flow at_ acts rfl rfl rfl rfl rfl
      | cons p rest =>
          have moved := acts
          simp only [Hub.act] at moved
          split at moved
          · cases moved
          · next closed =>
              cases moved
              refine Flow.Step.congr (.abandoned n _ held _ .same) (view.trans ?_)
              refine Flow.ext rfl rfl (flight_unchanged at_ rfl) rfl ?_
              simp only [Hub.eventOf, closed]
              rfl
          · next outbox room =>
              cases moved
              refine Flow.Step.congr (.replayed n ref _ p rest held rfl rfl) (view.trans ?_)
              refine Flow.ext rfl rfl (flight_unchanged at_ rfl) rfl ?_
              simp only [Hub.eventOf, room]
              rfl
  | subscribeSpawn a ref cursor stream =>
      left
      have moved := acts
      cases moved
      exact idle_flow at_ acts rfl rfl rfl rfl rfl
  | subscribeUnwind a ref stream error =>
      left
      have view := flow_after acts
      cases stream with
      | none =>
          have moved := acts
          cases moved
          exact idle_flow at_ acts rfl rfl rfl rfl rfl
      | some stream =>
          have held := calls_subscription g at_ (Nat.le_refl _)
          have unspawned := g.unspawned n _ at_ (Nat.le_refl _)
          cases acts
          rw [unspawned] at view
          refine Flow.Step.congr (.dropped n _ held _ (.unsubscribed now a.channel)) (view.trans ?_)
          refine Flow.ext rfl ?_ (flight_unchanged at_ rfl) rfl rfl
          simp only [Hub.brokerAfter, Hub.closeStream, inProcess]
          rfl
  | publishKind a ref =>
      left
      have view := flow_after acts
      have held : s.flow.flight n = none := by simp only [State.flow, at_]; rfl
      have moved := acts
      simp only [Hub.act] at moved
      split at moved
      · next p accepted =>
          cases moved
          refine Flow.Step.congr (.accepted n ref now a.channel a.data p _ held
            (Prod.ext rfl accepted)) (view.trans ?_)
          refine Flow.ext (subs_unchanged at_ rfl rfl) rfl rfl rfl ?_
          simp only [Hub.eventOf, accepted]
          rfl
      · next e rejected =>
          cases moved
          refine Flow.Step.congr (.idle _ (.refused now a.channel a.data e rejected))
            (flow_after_idle at_ acts rfl rfl rfl ?_)
          simp only [Hub.eventOf, rejected]
          rfl
  | publishBroker a ref p =>
      left
      have view := flow_after acts
      have held : s.flow.flight n = some (a.channel, p) := by simp only [State.flow, at_]; rfl
      have moved := acts
      simp only [Hub.eventOf, Hub.brokerAfter, inProcess] at view
      simp only [Hub.act] at moved
      split at moved <;>
        · cases moved
          exact Flow.Step.congr (.broadcast n ref a.channel p held)
            (view.trans (Flow.ext (subs_unchanged at_ rfl rfl) rfl rfl rfl rfl))
  | enforceAcl gated ref claims =>
      left
      have moved := acts
      simp only [Hub.act] at moved
      cases gated <;> split at moved <;> cases moved <;>
        exact idle_flow at_ acts rfl rfl rfl rfl rfl
  | deregister who id =>
      left
      have moved := acts
      simp only [Hub.act] at moved
      split at moved <;> next found =>
        cases moved
        exact idle_flow at_ acts rfl rfl rfl rfl (by simp [Hub.eventOf, found, Event.moves])
  | _ =>
      left
      have moved := acts
      simp only [Hub.act] at moved
      (repeat' split at moved) <;> cases moved <;> exact idle_flow at_ acts rfl rfl rfl rfl rfl

end Advance

section Forward

variable {H : Hub κ MemoryBroker MemoryStream ε} {s : MemoryState κ} {f : Nat}
  {w : Forwarder MemoryStream}

theorem spawned_calls (g : s.Staged) (task : s.shared.forwarders f = some w) :
    (s.calls f).bind Call.subscription = none := by
  cases found : s.calls f with
  | none => rfl
  | some c =>
      have late : ¬c.stage ≤ 2 := by
        intro early
        rw [g.unspawned f c found early] at task
        cases task
      cases c with
      | subscribeUnwind a ref stream error =>
          cases stream with
          | none => rfl
          | some stream => exact absurd (Nat.le_refl _) late
      | _ => first | rfl | exact absurd (by simp [Call.stage]) late

theorem forwarder_subscription (g : s.Staged) (task : s.shared.forwarders f = some w) :
    s.flow.subs f = some w.subscription := by
  simp only [State.flow, State.subscription, spawned_calls g task, task, Option.none_or,
    Option.map_some]

theorem flow_forward (g : s.Staged) (task : s.shared.forwarders f = some w)
    {x' : Shared κ MemoryBroker MemoryStream} (frame : ForwardFrame s.shared f w x')
    (events : List Event) :
    State.flow { s with shared := x', log := events ++ s.log } =
      { s.flow.setSub f ((x'.forwarders f).map Forwarder.subscription) with
        broker := x'.broker
        log := events.filter Event.moves ++ s.flow.log } := by
  refine Flow.ext ?_ rfl rfl frame.kinds (List.filter_append ..)
  funext m
  simp only [State.flow, State.subscription, Flow.setSub]
  by_cases same : m = f
  · subst same
    rw [Function.update_self, spawned_calls g task, Option.none_or]
  · rw [Function.update_of_ne same, frame.others m same]
    rfl

theorem forward_flow (inProcess : H.broker = MemoryBroker.broker) (g : s.Staged)
    (task : s.shared.forwarders f = some w) {x' : Shared κ MemoryBroker MemoryStream}
    {events : List Event} (moved : H.Forwarded s.shared f w x' events) :
    Flow.Step H.kinds H.kindFor s.flow
      (State.flow { s with shared := x', log := events ++ s.log }) := by
  have view := flow_forward g task (moved.frame task) events
  have held := forwarder_subscription g task
  have idle : s.flow.setSub f (some w.subscription) = s.flow := by
    simp only [Flow.setSub, ← held, Function.update_eq_self]
  cases moved with
  | scheduled polled admitted =>
      refine Flow.Step.congr (.idle _ .same) (view.trans ?_)
      simp only [Shared.setForwarder, Function.update_self, Option.map_some]
      exact (Flow.ext rfl rfl rfl rfl rfl : _ = s.flow.setSub f (some w.subscription)).trans idle
  | took polled free next =>
      rw [inProcess] at next
      refine Flow.Step.congr (.took f _ _ _ held rfl free next) (view.trans ?_)
      simp only [Shared.setForwarder, Function.update_self, Option.map_some]
      rfl
  | lagged polled free next =>
      rw [inProcess] at next
      refine Flow.Step.congr (.lagged f _ _ _ held rfl free next) (view.trans ?_)
      simp only [task, Option.map_some, idle]
      rfl
  | waited polled free next =>
      rw [inProcess] at next
      refine Flow.Step.congr (.idle _ .same) (view.trans ?_)
      cases MemoryBroker.next_still next (.inl rfl)
      simp only [Shared.setForwarder, Function.update_self, Option.map_some]
      exact (Flow.ext rfl rfl rfl rfl rfl : _ = s.flow.setSub f (some w.subscription)).trans idle
  | exhausted polled free next =>
      rw [inProcess] at next
      refine Flow.Step.congr (.dropped f _ held _ .same) (view.trans ?_)
      cases MemoryBroker.next_still next (.inr rfl)
      simp only [Hub.finish, inProcess, Shared.setForwarder, Function.update_self, Option.map_none]
      rfl
  | sent polled holding room =>
      refine Flow.Step.congr (.sent f w.session _ _ held rfl rfl holding) (view.trans ?_)
      simp only [Shared.setForwarder, Function.update_self, Option.map_some]
      rfl
  | ended =>
      refine Flow.Step.congr (.dropped f _ held _ .same) (view.trans ?_)
      simp only [Hub.finish, inProcess, Shared.setForwarder, Function.update_self, Option.map_none]
      rfl

end Forward

/-- Every step of the hub is one step of the view. -/
theorem step_flow {H : Hub κ MemoryBroker MemoryStream ε} (inProcess : H.broker = MemoryBroker.broker)
    {s t : MemoryState κ} {l : Label ε} (g : s.Staged) (h : H.step s l = some t) :
    Flow.Step H.kinds H.kindFor s.flow t.flow ∨
      (∃ n env now a ref cursor, l = .advance n env now ∧
        s.calls n = some (.subscribeBroker a ref cursor) ∧ Flow.Opens s.flow n a.channel t.flow) ∨
      (∃ n env now a ref cursor stream, l = .advance n env now ∧
        s.calls n = some (.subscribeReplay a ref cursor stream) ∧
        Flow.Reads H.kinds H.kindFor s.flow n a.channel a.sinceOffset t.flow) := by
  cases Hub.stepped h with
  | start r =>
      refine .inl (Flow.Step.congr (.idle _ .same) (Flow.ext ?_ rfl ?_ rfl rfl)) <;> funext m <;>
        by_cases same : m = s.nextCall
      · subst same
        have fresh : s.calls s.nextCall = none :=
          Option.eq_none_iff_forall_ne_some.mpr fun c found => Nat.lt_irrefl _ (g.calls _ c found)
        have entry : (r.entry : Call MemoryStream).subscription = none := by cases r <;> rfl
        simp only [State.flow, State.subscription, Function.update_self, Option.bind_some, entry,
          fresh, Option.bind_none]
      · simp only [State.flow, State.subscription, Function.update_of_ne same]
      · subst same
        have fresh : s.calls s.nextCall = none :=
          Option.eq_none_iff_forall_ne_some.mpr fun c found => Nat.lt_irrefl _ (g.calls _ c found)
        have entry : (r.entry : Call MemoryStream).flight = none := by cases r <;> rfl
        simp only [State.flow, Function.update_self, Option.bind_some, entry, fresh, Option.bind_none]
      · simp only [State.flow, Function.update_of_ne same]
  | advance at_ acts =>
      rcases advance_flow inProcess g at_ acts with step | ⟨a, ref, cursor, rfl, opens⟩ |
        ⟨a, ref, cursor, stream, rfl, reads⟩
      · exact .inl step
      · exact .inr (.inl ⟨_, _, _, a, ref, cursor, rfl, at_, opens⟩)
      · exact .inr (.inr ⟨_, _, _, a, ref, cursor, stream, rfl, at_, reads⟩)
  | forward task moves => exact .inl (forward_flow inProcess g task (Hub.forwarded moves))
  | transport quiet sheds =>
      refine .inl (Flow.Step.congr (.idle _ .same) (Flow.ext ?_ quiet.broker rfl quiet.kinds rfl))
      funext m
      simp only [State.flow, State.subscription, quiet.subscription m]

end Cherenkov
