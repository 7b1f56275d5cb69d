import Cherenkov.Hub.Model

/-! `subscribe_handler` opens a session, connects it if the request carries a token, subscribes it
to one channel after another and answers with a stream of events. Each branch on which it fails
closes the session, and so does the stream at its end, which comes when the session is shut down or
nobody can send to it any more. A request may be dropped before it is over: the handler where it
awaits a call of the hub, the stream whenever it is not being polled. Nothing of it runs any more
then. -/

namespace Cherenkov

structure HttpResponse where
  status : Nat
  body : String
  deriving DecidableEq

def intoResponse (err : HubError) : HttpResponse :=
  let status :=
    match err with
    | .auth _ => 401
    | .acl _ | .notConnected _ => 403
    | .schema _ => 422
    | _ => 500
  ⟨status, err.display⟩

structure SseEvent where
  event : String
  data : Option String
  deriving DecidableEq

variable {κ β τ ε : Type}

/-- The transport over a hub. `quote` is how serde_json renders a string, `base64` the standard
engine of the `base64` crate. -/
structure Sse (κ β τ ε : Type) where
  hub : Hub κ β τ ε
  quote : String → String
  base64 : Bytes → String

def Sse.frameToEvent (S : Sse κ β τ ε) : ServerFrame → SseEvent
  | .publication p =>
      ⟨"publication", some ("\x7b\"channel\":" ++ S.quote p.channel ++ ",\"offset\":" ++
        toString p.offset ++ ",\"data\":" ++ S.quote (S.base64 p.data) ++ "\x7d")⟩
  | .error e =>
      ⟨"error", some ("\x7b\"request_id\":" ++ toString e.requestId ++ ",\"code\":" ++
        toString e.code ++ ",\"message\":" ++ S.quote e.message ++ "\x7d")⟩
  | .subscribeOk ok =>
      ⟨"subscribe-ok", some ("\x7b\"request_id\":" ++ toString ok.requestId ++ ",\"channel\":" ++
        S.quote ok.channel ++ "\x7d")⟩
  | .unsubscribeOk ok =>
      ⟨"unsubscribe-ok", some ("\x7b\"request_id\":" ++ toString ok.requestId ++ ",\"channel\":" ++
        S.quote ok.channel ++ "\x7d")⟩
  | .connectOk ok =>
      ⟨"connect-ok", some ("\x7b\"request_id\":" ++ toString ok.requestId ++ ",\"subject\":" ++
        S.quote ok.subject ++ "\x7d")⟩

/-- The channels of the query string and the bearer token of the headers. -/
structure SubscribeQuery where
  channels : List String
  token : Option String

inductive Ending where
  | refused (response : HttpResponse)
  | closed
  | dropped
  deriving DecidableEq

/-- Where a request is that has its session: in the handler up to `refusing`, in the stream from
`responded` on, which is before the first poll. -/
inductive SseStage where
  | authorizing
  | connecting (call : Nat)
  | subscribing (call i : Nat)
  | refusing (call : Nat) (response : HttpResponse)
  | responded
  | streaming
  | ending (call : Nat)
  | finished (how : Ending)
  deriving DecidableEq

structure Exchange where
  query : SubscribeQuery
  session : Nat
  stage : SseStage
  body : List SseEvent

inductive Subscriber where
  | rejected (response : HttpResponse)
  | opening (query : SubscribeQuery) (call : Nat)
  | serving (x : Exchange)

structure SseNet (κ β τ : Type) where
  hub : State κ β τ
  subscribers : Nat → Option Subscriber
  nextSubscriber : Nat

inductive SseMove where
  | opened
  | authorize
  | connected
  | subscribed
  | refused
  | poll
  | shutdown
  | receive
  | exhausted
  | closed

/-- The labels of the hub are the steps of calls in flight and of everybody else. -/
inductive SseLabel (ε : Type) where
  | hub (l : Label ε)
  | request (query : SubscribeQuery)
  | move (c : Nat) (move : SseMove)
  | drop (c : Nat)

def Call.awaits : Call τ → Bool
  | .connectAuth .. | .enforceAcl .. | .subscribeKind .. | .subscribeBroker ..
  | .subscribeReplay .. | .subscribeSend _ _ _ _ (_ :: _) | .subscribeUnwind ..
  | .unsubscribeKind .. | .publishValidate .. | .publishKind .. | .publishBroker .. => true
  | _ => false

/-- The stream that a call has opened and not given to a forwarder. -/
def Call.stream : Call τ → Option τ
  | .subscribeReplay _ _ _ stream | .subscribeSend _ _ _ stream _
  | .subscribeSpawn _ _ _ stream => some stream
  | .subscribeUnwind _ _ stream _ => stream
  | _ => none

/-- The future of call `n` is dropped where it awaits. What it holds is dropped with it. -/
def Hub.cancel (H : Hub κ β τ ε) (s : State κ β τ) (n : Nat) : Option (State κ β τ) :=
  match s.calls n with
  | none => none
  | some c =>
      if c.awaits then
        some (State.dropArcs { s with
          shared := { s.shared with broker := H.closeStream s.shared.broker c.stream }
          calls := Function.update s.calls n none } c.holds)
      else none

/-- Every sending half of the outbox has been dropped: the session's and its forwarders'. -/
def State.sendersGone (s : State κ β τ) (ref : Nat) : Bool :=
  !s.held ref &&
    (List.range s.nextCall).all fun f => (s.shared.forwarders f).all fun w => w.session != ref

namespace Sse

/-- The loop over the channels from the `i`-th on. After the last one the handler returns the
stream and lets go of the session. -/
def subscribeFrom (s : State κ β τ) (x : Exchange) (i : Nat) : List (Label ε) × Exchange :=
  match x.query.channels[i]? with
  | some channel =>
      ([.start (.subscribe ⟨(s.shared.heap x.session).id, i, channel, 0⟩)],
        { x with stage := .subscribing s.nextCall i })
  | none => ([.release x.session], { x with stage := .responded })

def refuse (s : State κ β τ) (x : Exchange) (response : HttpResponse) :
    List (Label ε) × Exchange :=
  ([.start (.close (s.shared.heap x.session).id)],
    { x with stage := .refusing s.nextCall response })

def authorize (S : Sse κ β τ ε) (s : State κ β τ) (x : Exchange) : List (Label ε) × Exchange :=
  match x.query.token with
  | some token =>
      ([.start (.connect ⟨(s.shared.heap x.session).id, 0, token⟩)],
        { x with stage := .connecting s.nextCall })
  | none =>
      if S.hub.gate.allowAnonymous then subscribeFrom s x 0
      else refuse s x ⟨401, "Authorization header required"⟩

/-- The live part of the stream is over: it is dropped, and the chained part closes the
session. -/
def conclude (s : State κ β τ) (c : Nat) (x : Exchange) : List (Label ε) × Exchange :=
  ([.unlisten x.session c, .hangUp x.session, .start (.close (s.shared.heap x.session).id)],
    { x with stage := .ending s.nextCall })

def ready (s : State κ β τ) (c : Nat) (x : Exchange) : Bool :=
  (s.shared.heap x.session).shutdown.ready c

/-- After a call of the handler: on with the loop, or out of it. -/
def answered (s : State κ β τ) (x : Exchange) (call next : Nat) :
    Option (List (Label ε) × Exchange) :=
  match s.answer call with
  | none => none
  | some (.ok _) => some (subscribeFrom s x next)
  | some (.error err) => some (refuse s x (intoResponse err))

/-- One move of request `c`: what it does to the hub, and where it goes. `take_until` asks for
the shutdown before it asks for a frame. -/
def plan (S : Sse κ β τ ε) (s : State κ β τ) (c : Nat) (x : Exchange) :
    SseMove → Option (List (Label ε) × Exchange)
  | .opened => none
  | .authorize =>
      match x.stage with
      | .authorizing => some (S.authorize s x)
      | _ => none
  | .connected =>
      match x.stage with
      | .connecting call => answered s x call 0
      | _ => none
  | .subscribed =>
      match x.stage with
      | .subscribing call i => answered s x call (i + 1)
      | _ => none
  | .refused =>
      match x.stage with
      | .refusing call response =>
          match s.answer call with
          | none => none
          | some _ =>
              some ([.release x.session, .hangUp x.session],
                { x with stage := .finished (.refused response) })
      | _ => none
  | .poll =>
      match x.stage with
      | .responded => some ([.listen x.session c], { x with stage := .streaming })
      | _ => none
  | .shutdown =>
      match x.stage with
      | .streaming => if ready s c x then some (conclude s c x) else none
      | _ => none
  | .receive =>
      match x.stage, (s.shared.heap x.session).outbox.queue with
      | .streaming, frame :: _ =>
          if ready s c x then none
          else some ([.drain x.session], { x with body := x.body ++ [S.frameToEvent frame] })
      | _, _ => none
  | .exhausted =>
      match x.stage, (s.shared.heap x.session).outbox.queue with
      | .streaming, [] =>
          if !ready s c x && s.sendersGone x.session then some (conclude s c x) else none
      | _, _ => none
  | .closed =>
      match x.stage with
      | .ending call =>
          match s.answer call with
          | none => none
          | some _ =>
              some ([], { x with stage := .finished .closed, body := x.body ++ [⟨"close", none⟩] })
      | _ => none

def movePlanned (S : Sse κ β τ ε) (s : State κ β τ) (c : Nat) (move : SseMove) :
    Subscriber → Option (List (Label ε) × Exchange)
  | .rejected _ => none
  | .opening query call =>
      match move, s.answer call with
      | .opened, some (.ok (.opened ref)) => some ([], ⟨query, ref, .authorizing, []⟩)
      | _, _ => none
  | .serving x => S.plan s c x move

/-- What a dropped request lets go of. The handler still has the session and the receiving half,
the stream only the latter and the future. -/
def dropped (S : Sse κ β τ ε) (s : State κ β τ) (c : Nat) (x : Exchange) : Option (State κ β τ) :=
  match x.stage with
  | .connecting call | .subscribing call _ =>
      (S.hub.cancel s call).bind fun s' =>
        S.hub.machine.exec s' [.release x.session, .hangUp x.session]
  | .responded | .streaming =>
      S.hub.machine.exec s [.unlisten x.session c, .hangUp x.session]
  | _ => none

def step (S : Sse κ β τ ε) (s : SseNet κ β τ) : SseLabel ε → Option (SseNet κ β τ)
  | .hub l => (S.hub.step s.hub l).map fun hub => { s with hub }
  | .request query =>
      if query.channels.isEmpty then
        some { s with
          subscribers := Function.update s.subscribers s.nextSubscriber
            (some (.rejected ⟨400, "missing `channel` query parameter"⟩))
          nextSubscriber := s.nextSubscriber + 1 }
      else
        (S.hub.step s.hub (.start (.openSession 1024))).map fun hub =>
          { hub
            subscribers := Function.update s.subscribers s.nextSubscriber
              (some (.opening query s.hub.nextCall))
            nextSubscriber := s.nextSubscriber + 1 }
  | .move c move =>
      ((s.subscribers c).bind (S.movePlanned s.hub c move)).bind fun out =>
        (S.hub.machine.exec s.hub out.1).map fun hub =>
          { s with hub, subscribers := Function.update s.subscribers c (some (.serving out.2)) }
  | .drop c =>
      match s.subscribers c with
      | some (.serving x) =>
          (S.dropped s.hub c x).map fun hub =>
            { s with
              hub
              subscribers := Function.update s.subscribers c
                (some (.serving { x with stage := .finished .dropped })) }
      | _ => none

def machine (S : Sse κ β τ ε) : Machine (SseNet κ β τ) (SseLabel ε) := ⟨S.step⟩

def boot (hub : State κ β τ) : SseNet κ β τ := ⟨hub, fun _ => none, 0⟩

end Sse
end Cherenkov
