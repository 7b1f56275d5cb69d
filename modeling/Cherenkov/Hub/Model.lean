import Mathlib.Logic.Function.Basic
import Cherenkov.Library.Machine
import Cherenkov.Session

/-! Every entry point of `Hub` is a call with a program counter. One step of a call is one operation
on a shared object: a `DashMap` call, a kind call, a broker call, a plugin call, an outbox send, an
abort. Calls of any number of sessions and the forwarder tasks they spawn interleave freely. `log`
is history: newest event first, read by no step. References are counted by their holders. A session
object is dropped, and its forwarders aborted, when the registry, the transports and the calls in
flight have all let go of it. A forwarder is either being polled or suspended; an abort takes effect
when it is suspended, and `reap` is the runtime dropping it. -/

namespace Cherenkov

structure ConnectArgs where
  sessionId : Nat
  requestId : Nat
  token : String

structure SubscribeArgs where
  sessionId : Nat
  requestId : Nat
  channel : String
  sinceOffset : Nat
  deriving DecidableEq

structure UnsubscribeArgs where
  sessionId : Nat
  requestId : Nat
  channel : String

structure PublishArgs where
  sessionId : Nat
  channel : String
  data : Bytes

/-- The two requests that pass `require_claims` and `enforce_acl`. -/
inductive Gated where
  | subscribe (a : SubscribeArgs)
  | publish (a : PublishArgs)

namespace Gated

def sessionId : Gated → Nat
  | .subscribe a => a.sessionId
  | .publish a => a.sessionId

def channel : Gated → String
  | .subscribe a => a.channel
  | .publish a => a.channel

def action : Gated → AclAction
  | .subscribe _ => .subscribe
  | .publish _ => .publish

end Gated

/-- Who runs `deregister`: a close, or a kick that holds its own reference. -/
inductive Closing where
  | close
  | kick (own : Nat)

/-- Whose counters are being updated; an open and a kick still hold a reference. -/
inductive Meter where
  | opened (ref : Nat)
  | closed
  | kicked (own : Nat)

/-- Program counters of all entry points, with the locals still needed. -/
inductive Call (τ : Type) where
  | openSession (capacity : Nat)
  | openRegister (ref : Nat)
  | count (m : Meter)
  | measure (m : Meter)
  | gauge (m : Meter) (len : Nat)
  | connect (a : ConnectArgs)
  | connectClaims (a : ConnectArgs) (ref : Nat)
  | connectAuth (a : ConnectArgs) (ref : Nat)
  | connectSet (a : ConnectArgs) (ref : Nat) (claims : SessionClaims)
  | enter (g : Gated)
  | requireClaims (g : Gated) (ref : Nat)
  | seedClaims (g : Gated) (ref : Nat)
  | enforceAcl (g : Gated) (ref : Nat) (claims : SessionClaims)
  | subscribeHas (a : SubscribeArgs) (ref : Nat)
  | subscribeKind (a : SubscribeArgs) (ref : Nat)
  | subscribeBroker (a : SubscribeArgs) (ref : Nat) (cursor : ChannelCursor)
  | subscribeReplay (a : SubscribeArgs) (ref : Nat) (cursor : ChannelCursor) (stream : τ)
  | subscribeSend (a : SubscribeArgs) (ref : Nat) (cursor : ChannelCursor) (stream : τ)
      (rest : List Publication)
  | subscribeSpawn (a : SubscribeArgs) (ref : Nat) (cursor : ChannelCursor) (stream : τ)
  | subscribeInsert (a : SubscribeArgs) (ref : Nat) (cursor : ChannelCursor)
  | subscribeIndex (a : SubscribeArgs) (ref : Nat) (cursor : ChannelCursor)
  | subscribeStray (a : SubscribeArgs) (ref : Nat)
  | subscribeUnwind (a : SubscribeArgs) (ref : Nat) (stream : Option τ) (error : HubError)
  | unsubscribe (a : UnsubscribeArgs)
  | unsubscribeRemove (a : UnsubscribeArgs) (ref : Nat)
  | unsubscribeAbort (a : UnsubscribeArgs) (ref : Nat) (forwarder : Nat)
  | unsubscribeScrub (a : UnsubscribeArgs) (ref : Nat)
  | unsubscribeReap (a : UnsubscribeArgs) (ref : Nat)
  | unsubscribeKind (a : UnsubscribeArgs) (ref : Nat)
  | publishValidate (a : PublishArgs) (ref : Nat)
  | publishKind (a : PublishArgs) (ref : Nat)
  | publishBroker (a : PublishArgs) (ref : Nat) (p : Publication)
  | kick (id : Nat)
  | kickSignal (id : Nat) (ref : Nat)
  | deregister (who : Closing) (id : Nat)
  | deregisterScrub (who : Closing) (id : Nat) (ref : Nat)
  | deregisterDrop (who : Closing) (id : Nat) (ref : Nat)

def Closing.holds : Closing → List Nat
  | .close => []
  | .kick own => [own]

def Meter.holds : Meter → List Nat
  | .opened ref => [ref]
  | .closed => []
  | .kicked own => [own]

def Closing.meter : Closing → Meter
  | .close => .closed
  | .kick own => .kicked own

/-- The `Arc<Session>` locals that are alive at a program counter. -/
def Call.holds {τ : Type} : Call τ → List Nat
  | .openSession _ | .connect _ | .enter _ | .unsubscribe _ | .kick _ => []
  | .count m | .measure m | .gauge m _ => m.holds
  | .deregister who _ => who.holds
  | .deregisterScrub who _ ref | .deregisterDrop who _ ref => ref :: who.holds
  | .openRegister ref | .connectClaims _ ref | .connectAuth _ ref | .connectSet _ ref _
  | .requireClaims _ ref | .seedClaims _ ref | .enforceAcl _ ref _
  | .subscribeHas _ ref | .subscribeKind _ ref | .subscribeBroker _ ref _
  | .subscribeReplay _ ref _ _ | .subscribeSend _ ref _ _ _ | .subscribeSpawn _ ref _ _
  | .subscribeInsert _ ref _ | .subscribeIndex _ ref _ | .subscribeStray _ ref
  | .subscribeUnwind _ ref _ _
  | .unsubscribeRemove _ ref | .unsubscribeAbort _ ref _ | .unsubscribeScrub _ ref
  | .unsubscribeReap _ ref | .unsubscribeKind _ ref
  | .publishValidate _ ref | .publishKind _ ref | .publishBroker _ ref _
  | .kickSignal _ ref => [ref]

inductive Request where
  | openSession (capacity : Nat)
  | connect (a : ConnectArgs)
  | subscribe (a : SubscribeArgs)
  | unsubscribe (a : UnsubscribeArgs)
  | publish (a : PublishArgs)
  | close (id : Nat)
  | kick (id : Nat)

def Request.entry {τ : Type} : Request → Call τ
  | .openSession capacity => .openSession capacity
  | .connect a => .connect a
  | .subscribe a => .enter (.subscribe a)
  | .unsubscribe a => .unsubscribe a
  | .publish a => .enter (.publish a)
  | .close id => .deregister .close id
  | .kick id => .kick id

inductive Response where
  | opened (ref : Nat)
  | connectOk (ok : ConnectOk)
  | subscribeOk (ok : SubscribeOk)
  | unsubscribeOk (ok : UnsubscribeOk)
  | published (p : Publication)
  | closed
  | kicked (removed : Bool)
  deriving DecidableEq

inductive Origin where
  | replay
  | live
  deriving DecidableEq

/-- History. `call` is the call that made the step, `sub` the subscribe call that a
delivery belongs to, `ref` the session object. -/
inductive Event where
  | authenticated (call ref : Nat) (token : String) (result : Except AuthError SessionClaims)
  | checked (call ref : Nat) (claims : SessionClaims) (action : AclAction) (channel : String)
      (result : Except AclError AclDecision)
  | validated (call ref : Nat) (channel : String) (data : Bytes) (result : Except SchemaError Unit)
  | onSubscribe (call ref : Nat) (channel : String) (result : Except ChannelError ChannelCursor)
  | onUnsubscribe (call ref : Nat) (channel : String) (result : Except ChannelError Unit)
  | onPublish (call ref : Nat) (channel : String) (data : Bytes)
      (result : Except ChannelError Publication)
  | replaySince (call ref : Nat) (channel : String) (since : Nat)
      (result : Except ChannelError (List Publication))
  | brokerSubscribe (call ref : Nat) (channel : String) (ok : Bool)
  | brokerPublish (call ref : Nat) (channel : String) (p : Publication)
      (result : Except BrokerError Unit)
  | enqueued (sub ref : Nat) (origin : Origin) (p : Publication)
  | lagged (sub skipped : Nat)
  | removed (call ref : Nat)
  | returned (call : Nat) (result : Except HubError Response)
  deriving DecidableEq

/-- A spawned forwarder task; its identifier is the subscribe call that spawned it. -/
structure Forwarder (τ : Type) where
  session : Nat
  channel : String
  stream : τ
  inHand : Option Publication
  polled : Bool
  aborted : Bool

/-- `JoinHandle::abort`; the flag is read when the task is suspended. -/
def Forwarder.abort {τ : Type} (w : Forwarder τ) : Forwarder τ := { w with aborted := true }

structure Metrics where
  opened : Nat
  closed : Nat
  kicked : Nat
  publications : Nat
  active : Nat

structure Shared (κ β τ : Type) where
  registry : SessionRegistry
  heap : Nat → Session
  nextRef : Nat
  kinds : Nat → κ
  broker : β
  forwarders : Nat → Option (Forwarder τ)
  metrics : Metrics

structure State (κ β τ : Type) where
  shared : Shared κ β τ
  calls : Nat → Option (Call τ)
  nextCall : Nat
  log : List Event

/-- What one step of a call does: the shared state, the events it logs (newest first),
where the call goes, and a session reference it displaced from the registry. -/
structure Outcome (κ β τ : Type) where
  shared : Shared κ β τ
  events : List Event
  next : Option (Call τ)
  displaced : Option Nat

variable {κ β τ ε : Type}

namespace Shared

def goto (x : Shared κ β τ) (c : Call τ) : Outcome κ β τ := ⟨x, [], some c, none⟩

def done (x : Shared κ β τ) (n : Nat) (result : Except HubError Response) : Outcome κ β τ :=
  ⟨x, [.returned n result], none, none⟩

def setSession (x : Shared κ β τ) (ref : Nat) (session : Session) : Shared κ β τ :=
  { x with heap := Function.update x.heap ref session }

def setClaims (x : Shared κ β τ) (ref : Nat) (claims : SessionClaims) : Shared κ β τ :=
  x.setSession ref { x.heap ref with claims := some claims }

def setOutbox (x : Shared κ β τ) (ref : Nat) (outbox : Outbox) : Shared κ β τ :=
  x.setSession ref { x.heap ref with outbox }

def setSubscriptions (x : Shared κ β τ) (ref : Nat) (subscriptions : DashMap String Nat) :
    Shared κ β τ := x.setSession ref { x.heap ref with subscriptions }

def setShutdown (x : Shared κ β τ) (ref : Nat) (shutdown : Notify) : Shared κ β τ :=
  x.setSession ref { x.heap ref with shutdown }

def setKind (x : Shared κ β τ) (k : Nat) (kind : κ) : Shared κ β τ :=
  { x with kinds := Function.update x.kinds k kind }

def setForwarder (x : Shared κ β τ) (f : Nat) (w : Option (Forwarder τ)) : Shared κ β τ :=
  { x with forwarders := Function.update x.forwarders f w }

def abort (x : Shared κ β τ) (fs : List Nat) : Shared κ β τ :=
  { x with
    forwarders := fun f =>
      if f ∈ fs then (x.forwarders f).map Forwarder.abort else x.forwarders f }

/-- `Session::abort_all`, the body of its `Drop`. -/
def abortAll (x : Shared κ β τ) (ref : Nat) : Shared κ β τ :=
  (x.abort (x.heap ref).subscriptions.values).setSubscriptions ref ∅

end Shared

def Outcome.after (o : Outcome κ β τ) (e : Event) : Outcome κ β τ :=
  { o with events := o.events ++ [e] }

def Gated.admitted (ref : Nat) : Gated → Call τ
  | .subscribe a => .subscribeHas a ref
  | .publish a => .publishValidate a ref

/-- The open stream of a subscribe call that is unwinding is dropped at its return. -/
def Hub.closeStream (H : Hub κ β τ ε) (b : β) : Option τ → β
  | none => b
  | some stream => H.broker.dropStream b stream

def Meter.bump (metrics : Metrics) : Meter → Metrics
  | .opened _ => { metrics with opened := metrics.opened + 1 }
  | .closed => { metrics with closed := metrics.closed + 1 }
  | .kicked _ => { metrics with kicked := metrics.kicked + 1 }

def Meter.response : Meter → Response
  | .opened ref => .opened ref
  | .closed => .closed
  | .kicked _ => .kicked true

/-- `open_session` hands its reference to the transport. -/
def Meter.handOver (x : Shared κ β τ) : Meter → Shared κ β τ
  | .opened ref => x.setSession ref { x.heap ref with handles := (x.heap ref).handles + 1 }
  | _ => x

def Closing.refused : Closing → Response
  | .close => .closed
  | .kick _ => .kicked false

/-- One step of call `n`, given the answers of the environment. -/
def Hub.act (H : Hub κ β τ ε) (x : Shared κ β τ) (n : Nat) (env : ε) (now : Nat) :
    Call τ → Option (Outcome κ β τ)
  | .openSession capacity =>
      let fresh := Session.new x.registry.allocate.2 capacity
      let session := if H.gate.allowAnonymous then { fresh with claims := some .anonymous } else fresh
      some (({ x with
        registry := x.registry.allocate.1
        heap := Function.update x.heap x.nextRef session
        nextRef := x.nextRef + 1 } : Shared κ β τ).goto (.openRegister x.nextRef))
  | .openRegister ref =>
      let id := (x.heap ref).id
      some { ({ x with registry := x.registry.register id ref } : Shared κ β τ).goto
          (.count (.opened ref)) with displaced := x.registry.get id }
  | .count m => some (({ x with metrics := m.bump x.metrics } : Shared κ β τ).goto (.measure m))
  | .measure m => some (x.goto (.gauge m x.registry.sessions.len))
  | .gauge m len =>
      some ((m.handOver { x with metrics := { x.metrics with active := len } }).done n (.ok m.response))
  | .connect a =>
      match x.registry.get a.sessionId with
      | none => some (x.done n (.error (.sessionGone a.sessionId)))
      | some ref => some (x.goto (.connectClaims a ref))
  | .connectClaims a ref =>
      if (x.heap ref).claims.isSome && !H.gate.allowAnonymous then
        some (x.done n (.error (.alreadyConnected a.sessionId)))
      else some (x.goto (.connectAuth a ref))
  | .connectAuth a ref =>
      let result := H.gate.authenticate env a.token
      match result with
      | .ok claims =>
          some ((x.goto (.connectSet a ref claims)).after (.authenticated n ref a.token result))
      | .error e =>
          some ((x.done n (.error (.auth e))).after (.authenticated n ref a.token result))
  | .connectSet a ref claims =>
      some ((x.setClaims ref claims).done n
        (.ok (.connectOk ⟨a.requestId, claims.subject, claims.expiresAt⟩)))
  | .enter g =>
      match x.registry.get g.sessionId with
      | none => some (x.done n (.error (.sessionGone g.sessionId)))
      | some ref => some (x.goto (.requireClaims g ref))
  | .requireClaims g ref =>
      match (x.heap ref).claims with
      | some claims => some (x.goto (.enforceAcl g ref claims))
      | none =>
          if H.gate.allowAnonymous then some (x.goto (.seedClaims g ref))
          else some (x.done n (.error (.notConnected (x.heap ref).id)))
  | .seedClaims g ref =>
      some ((x.setClaims ref .anonymous).goto (.enforceAcl g ref .anonymous))
  | .enforceAcl g ref claims =>
      let result := H.gate.check env claims g.action g.channel
      let event := Event.checked n ref claims g.action g.channel result
      match result with
      | .ok .allow => some ((x.goto (g.admitted ref)).after event)
      | .ok .deny =>
          some ((x.done n (.error (.acl
            (.denied claims.subject g.action.asStr g.channel "policy denied")))).after event)
      | .error e => some ((x.done n (.error (.acl e))).after event)
  | .subscribeHas a ref =>
      if (x.heap ref).subscriptions.containsKey a.channel then
        some (x.done n (.error (.alreadySubscribed a.sessionId a.channel)))
      else some (x.goto (.subscribeKind a ref))
  | .subscribeKind a ref =>
      let k := H.kindFor a.channel
      let out := H.kinds.onSubscribe (x.kinds k) now a.channel
      let event := Event.onSubscribe n ref a.channel out.2
      match out.2 with
      | .ok cursor => some (((x.setKind k out.1).goto (.subscribeBroker a ref cursor)).after event)
      | .error e => some (((x.setKind k out.1).done n (.error (.channel e))).after event)
  | .subscribeBroker a ref cursor =>
      let out := H.broker.subscribe x.broker a.channel
      match out.2 with
      | .ok stream =>
          some ((({ x with broker := out.1 } : Shared κ β τ).goto
            (if 0 < a.sinceOffset then .subscribeReplay a ref cursor stream
              else .subscribeSpawn a ref cursor stream)).after
            (.brokerSubscribe n ref a.channel true))
      | .error e =>
          some ((({ x with broker := out.1 } : Shared κ β τ).goto
            (.subscribeUnwind a ref none (.broker e))).after (.brokerSubscribe n ref a.channel false))
  | .subscribeReplay a ref cursor stream =>
      let k := H.kindFor a.channel
      let out := H.kinds.replaySince (x.kinds k) now a.channel a.sinceOffset
      let event := Event.replaySince n ref a.channel a.sinceOffset out.2
      match out.2 with
      | .ok replayed =>
          some (((x.setKind k out.1).goto (.subscribeSend a ref cursor stream replayed)).after event)
      | .error e =>
          some (((x.setKind k out.1).goto
            (.subscribeUnwind a ref (some stream) (.channel e))).after event)
  | .subscribeSend a ref cursor stream [] => some (x.goto (.subscribeSpawn a ref cursor stream))
  | .subscribeSend a ref cursor stream (p :: rest) =>
      match (x.heap ref).outbox.send (.publication p) with
      | .full => none
      | .closed => some (x.goto (.subscribeUnwind a ref (some stream) (.sessionGone a.sessionId)))
      | .sent outbox =>
          some (((x.setOutbox ref outbox).goto (.subscribeSend a ref cursor stream rest)).after
            (.enqueued n ref .replay p))
  | .subscribeSpawn a ref cursor stream =>
      some ((x.setForwarder n (some ⟨ref, a.channel, stream, none, false, false⟩)).goto
        (.subscribeInsert a ref cursor))
  | .subscribeInsert a ref cursor =>
      if (x.heap ref).subscriptions.containsKey a.channel then some (x.goto (.subscribeStray a ref))
      else
        some ((x.setSubscriptions ref ((x.heap ref).subscriptions.put a.channel n)).goto
          (.subscribeIndex a ref cursor))
  | .subscribeIndex a _ cursor =>
      some (({ x with registry := x.registry.addSubscription a.sessionId a.channel } :
        Shared κ β τ).done n
        (.ok (.subscribeOk ⟨a.requestId, a.channel, cursor.epoch, cursor.offset⟩)))
  | .subscribeStray a ref =>
      some ((x.abort [n]).goto
        (.subscribeUnwind a ref none (.alreadySubscribed a.sessionId a.channel)))
  | .subscribeUnwind a ref stream error =>
      let k := H.kindFor a.channel
      let out := H.kinds.onUnsubscribe (x.kinds k) now a.channel
      some ((({ x.setKind k out.1 with broker := H.closeStream x.broker stream } :
        Shared κ β τ).done n (.error error)).after (.onUnsubscribe n ref a.channel out.2))
  | .unsubscribe a =>
      match x.registry.get a.sessionId with
      | none => some (x.done n (.error (.sessionGone a.sessionId)))
      | some ref => some (x.goto (.unsubscribeRemove a ref))
  | .unsubscribeRemove a ref =>
      match (x.heap ref).subscriptions.get a.channel with
      | none => some (x.done n (.error (.notSubscribed a.sessionId a.channel)))
      | some forwarder =>
          some ((x.setSubscriptions ref ((x.heap ref).subscriptions.remove a.channel)).goto
            (.unsubscribeAbort a ref forwarder))
  | .unsubscribeAbort a ref forwarder =>
      some ((x.abort [forwarder]).goto (.unsubscribeScrub a ref))
  | .unsubscribeScrub a ref =>
      let out := x.registry.scrubChannel a.sessionId a.channel
      some (({ x with registry := out.1 } : Shared κ β τ).goto
        (if out.2 then .unsubscribeReap a ref else .unsubscribeKind a ref))
  | .unsubscribeReap a ref =>
      some (({ x with registry := x.registry.removeChannel a.channel } : Shared κ β τ).goto
        (.unsubscribeKind a ref))
  | .unsubscribeKind a ref =>
      let k := H.kindFor a.channel
      let out := H.kinds.onUnsubscribe (x.kinds k) now a.channel
      let event := Event.onUnsubscribe n ref a.channel out.2
      match out.2 with
      | .ok _ =>
          some (((x.setKind k out.1).done n
            (.ok (.unsubscribeOk ⟨a.requestId, a.channel⟩))).after event)
      | .error e => some (((x.setKind k out.1).done n (.error (.channel e))).after event)
  | .publishValidate a ref =>
      let result := H.gate.validate env a.channel a.data
      let event := Event.validated n ref a.channel a.data result
      match result with
      | .ok _ => some ((x.goto (.publishKind a ref)).after event)
      | .error e => some ((x.done n (.error (.schema e))).after event)
  | .publishKind a ref =>
      let k := H.kindFor a.channel
      let out := H.kinds.onPublish (x.kinds k) now a.channel a.data
      let event := Event.onPublish n ref a.channel a.data out.2
      match out.2 with
      | .ok p => some (((x.setKind k out.1).goto (.publishBroker a ref p)).after event)
      | .error e => some (((x.setKind k out.1).done n (.error (.channel e))).after event)
  | .publishBroker a ref p =>
      let out := H.broker.publish x.broker a.channel p
      let event := Event.brokerPublish n ref a.channel p out.2
      match out.2 with
      | .ok _ =>
          some ((({ x with
            broker := out.1
            metrics := { x.metrics with publications := x.metrics.publications + 1 } } :
            Shared κ β τ).done n (.ok (.published p))).after event)
      | .error e =>
          some ((({ x with broker := out.1 } : Shared κ β τ).done n (.error (.broker e))).after event)
  | .kick id =>
      match x.registry.get id with
      | none => some (x.done n (.ok (.kicked false)))
      | some ref => some (x.goto (.kickSignal id ref))
  | .kickSignal id ref =>
      some ((x.setShutdown ref (x.heap ref).shutdown.notifyWaiters).goto (.deregister (.kick ref) id))
  | .deregister who id =>
      match x.registry.get id with
      | none => some (x.done n (.ok who.refused))
      | some ref =>
          some ((({ x with registry := x.registry.removeSession id } : Shared κ β τ).goto
            (.deregisterScrub who id ref)).after (.removed n ref))
  | .deregisterScrub who id ref =>
      some (({ x with registry := x.registry.scrub id } : Shared κ β τ).goto
        (.deregisterDrop who id ref))
  | .deregisterDrop who _ _ => some (x.goto (.count who.meter))

inductive Move where
  | wake
  | poll
  | yield
  | reap

/-- The task ends: its stream is dropped with it. -/
def Hub.finish (H : Hub κ β τ ε) (x : Shared κ β τ) (f : Nat) (w : Forwarder τ) : Shared κ β τ :=
  { x.setForwarder f none with broker := H.broker.dropStream x.broker w.stream }

/-- One poll of the forwarder loop: `stream.next()` with empty hands, `outbox.send` otherwise. -/
def Hub.pollForwarder (H : Hub κ β τ ε) (x : Shared κ β τ) (f : Nat) (w : Forwarder τ) :
    Shared κ β τ × List Event :=
  match w.inHand with
  | none =>
      let out := H.broker.next x.broker w.stream
      let x' : Shared κ β τ := { x with broker := out.1 }
      match out.2 with
      | .ready p => (x'.setForwarder f (some { w with inHand := some p }), [])
      | .lagged k => (x', [.lagged f k])
      | .pending => (x'.setForwarder f (some { w with polled := false }), [])
      | .finished => (H.finish x' f w, [])
  | some p =>
      match (x.heap w.session).outbox.send (.publication p) with
      | .full => (x.setForwarder f (some { w with polled := false }), [])
      | .closed => (H.finish x f w, [])
      | .sent outbox =>
          ((x.setOutbox w.session outbox).setForwarder f (some { w with inHand := none }),
            [.enqueued f w.session .live p])

def Hub.moveForwarder (H : Hub κ β τ ε) (x : Shared κ β τ) (f : Nat) (w : Forwarder τ) :
    Move → Option (Shared κ β τ × List Event)
  | .wake =>
      if w.polled || w.aborted then none
      else some (x.setForwarder f (some { w with polled := true }), [])
  | .poll => if w.polled then some (H.pollForwarder x f w) else none
  | .yield => if w.polled then some (x.setForwarder f (some { w with polled := false }), []) else none
  | .reap => if w.aborted && !w.polled then some (H.finish x f w, []) else none

namespace State

/-- Some registry entry, transport or call in flight still refers to the object. -/
def held (s : State κ β τ) (ref : Nat) : Bool :=
  s.shared.registry.get (s.shared.heap ref).id == some ref ||
    decide (0 < (s.shared.heap ref).handles) ||
    (List.range s.nextCall).any fun m => (s.calls m).any fun c => c.holds.contains ref

/-- Drop the listed references: an object that nothing holds any more is dropped. -/
def dropArcs (s : State κ β τ) (refs : List Nat) : State κ β τ :=
  { s with
    shared := refs.foldl (fun x ref => if s.held ref then x else x.abortAll ref) s.shared }

def landed (s : State κ β τ) (n : Nat) (o : Outcome κ β τ) : State κ β τ :=
  { s with shared := o.shared, calls := Function.update s.calls n o.next, log := o.events ++ s.log }

/-- A call lands at its next program counter and drops the references it no longer uses. -/
def after (s : State κ β τ) (n : Nat) (c : Call τ) (o : Outcome κ β τ) : State κ β τ :=
  (s.landed n o).dropArcs (c.holds ++ o.displaced.toList)

def letGo (s : State κ β τ) (ref : Nat) : State κ β τ :=
  { s with
    shared := s.shared.setSession ref
      { s.shared.heap ref with handles := (s.shared.heap ref).handles - 1 } }

end State

inductive Label (ε : Type) where
  | start (r : Request)
  | advance (n : Nat) (env : ε) (now : Nat)
  | forward (f : Nat) (move : Move)
  | release (ref : Nat)
  | drain (ref : Nat)
  | hangUp (ref : Nat)
  | deliver (id : Nat) (frame : ServerFrame)
  | send (ref : Nat) (frame : ServerFrame)
  | listen (ref future : Nat)
  | unlisten (ref future : Nat)

/-- From `release` on the labels are the transport's side: it lets go of its reference, writes
the oldest queued frame, drops the receiving half, queues a reply for a session that it looks
up or holds, and creates and drops the futures that wait for the session's shutdown. -/
def Hub.step (H : Hub κ β τ ε) (s : State κ β τ) : Label ε → Option (State κ β τ)
  | .start r =>
      some { s with
        calls := Function.update s.calls s.nextCall (some r.entry)
        nextCall := s.nextCall + 1 }
  | .advance n env now =>
      match s.calls n with
      | none => none
      | some c => (H.act s.shared n env now c).map (s.after n c)
  | .forward f move =>
      match s.shared.forwarders f with
      | none => none
      | some w =>
          (H.moveForwarder s.shared f w move).map fun out =>
            { s with shared := out.1, log := out.2 ++ s.log }
  | .release ref =>
      if (s.shared.heap ref).handles = 0 then none else some ((s.letGo ref).dropArcs [ref])
  | .drain ref =>
      let outbox := (s.shared.heap ref).outbox
      some { s with shared := s.shared.setOutbox ref { outbox with queue := outbox.queue.tail } }
  | .hangUp ref =>
      let outbox := (s.shared.heap ref).outbox
      some { s with shared := s.shared.setOutbox ref { outbox with closed := true } }
  | .deliver id frame =>
      match s.shared.registry.get id with
      | none => some s
      | some ref =>
          match (s.shared.heap ref).outbox.send frame with
          | .full => none
          | .closed => some s
          | .sent outbox =>
              if frame.isReply then some { s with shared := s.shared.setOutbox ref outbox } else none
  | .send ref frame =>
      match (s.shared.heap ref).outbox.send frame with
      | .full => none
      | .closed => some s
      | .sent outbox =>
          if frame.isReply then some { s with shared := s.shared.setOutbox ref outbox } else none
  | .listen ref future =>
      some { s with shared := s.shared.setShutdown ref ((s.shared.heap ref).shutdown.notified future) }
  | .unlisten ref future =>
      some { s with shared := s.shared.setShutdown ref ((s.shared.heap ref).shutdown.forget future) }

def Hub.machine (H : Hub κ β τ ε) : Machine (State κ β τ) (Label ε) := ⟨H.step⟩

def State.answer (s : State κ β τ) (n : Nat) : Option (Except HubError Response) :=
  s.log.findSome? fun e =>
    match e with
    | .returned m result => if m = n then some result else none
    | _ => none

def Request.steps (r : Request) (n k : Nat) : List (Label Unit) :=
  .start r :: List.replicate k (.advance n () 0)

def State.initial (kinds : Nat → κ) (broker : β) : State κ β τ where
  shared :=
    { registry := SessionRegistry.new
      heap := fun _ => Session.new 0 0
      nextRef := 0
      kinds := kinds
      broker := broker
      forwarders := fun _ => none
      metrics := ⟨0, 0, 0, 0, 0⟩ }
  calls := fun _ => none
  nextCall := 0
  log := []

end Cherenkov
