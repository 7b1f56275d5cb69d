import Cherenkov.Codec
import Cherenkov.Hub.Model

/-! The connection loops of the WebSocket and the WebTransport carrier, over the hub. A loop
alternates between waiting in `select!`, where a future for the session's shutdown exists, and
handling what it has read, where none exists. The `select!` is biased: a later branch is taken only
if no earlier one is ready. What the loop does to the hub is written as the hub's own labels, so a
step of a connection is a short run of the hub. The writer task of a connection runs beside its loop
and takes the frames off the outbox. Other parties may start any call at any time. -/

namespace Cherenkov

/-- `error_code_for`; `deliver_error` has the same table. -/
def errorCodeFor : HubError → ErrorCode
  | .schema _ => .validationFailed
  | .auth _ => .invalidToken
  | .acl _ => .aclDenied
  | .notConnected _ => .notConnected
  | _ => .internal

def errorFrame (requestId : Nat) (code : ErrorCode) (message : String) : ServerFrame :=
  .error ⟨requestId, code.value, message⟩

namespace ClientFrame

def requestId : ClientFrame → Nat
  | .subscribe s => s.requestId
  | .unsubscribe u => u.requestId
  | .publish p => p.requestId
  | .connect c => c.requestId

def request (sessionId : Nat) : ClientFrame → Request
  | .subscribe s => .subscribe ⟨sessionId, s.requestId, s.channel, s.sinceOffset⟩
  | .unsubscribe u => .unsubscribe ⟨sessionId, u.requestId, u.channel⟩
  | .publish p => .publish ⟨sessionId, p.channel, p.data⟩
  | .connect c => .connect ⟨sessionId, c.requestId, c.token⟩

/-- What is delivered when the call has returned; a publish that went well is not answered. -/
def reply (frame : ClientFrame) : Except HubError Response → Option ServerFrame
  | .error e => some (errorFrame frame.requestId (errorCodeFor e) e.display)
  | .ok (.subscribeOk ok) => some (.subscribeOk ok)
  | .ok (.unsubscribeOk ok) => some (.unsubscribeOk ok)
  | .ok (.connectOk ok) => some (.connectOk ok)
  | .ok _ => none

end ClientFrame

inductive Socket where
  | ws
  | wt
  deriving DecidableEq

inductive WsMessage where
  | binary (bytes : Bytes)
  | text (text : String)
  | ping (data : Bytes)
  | pong (data : Bytes)
  | close

/-- What the reader yields: a WebSocket message, or the body of a length-prefixed frame; nothing
after an error or the end of the stream. -/
inductive Incoming where
  | ws (message : Option WsMessage)
  | wt (body : Option Bytes)

inductive Verdict where
  | again
  | leave
  | refuse (message : String)
  | handle (frame : ClientFrame)

/-- Where the loop is; `looping` is right before `select!`, `leaving` right after the loop. -/
inductive Stage where
  | looping
  | selecting
  | dispatching (call : Nat) (frame : ClientFrame)
  | delivering (reply : ServerFrame) (last : Bool)
  | sending (ref : Nat) (reply : ServerFrame) (last : Bool)
  | leaving
  | closing (call : Nat)
  | closed
  deriving DecidableEq

inductive Writer where
  | running (inHand : Option ServerFrame)
  | finished
  deriving DecidableEq

structure Connection where
  socket : Socket
  session : Nat
  stage : Stage
  writer : Writer
  aborted : Bool
  wire : List ServerFrame

inductive Peer where
  | opening (socket : Socket) (call : Nat)
  | connected (x : Connection)

structure Net (κ β τ : Type) where
  hub : State κ β τ
  peers : Nat → Option Peer
  nextPeer : Nat

inductive LoopMove where
  | opened
  | select
  | writerEnded
  | shutdown
  | receive (input : Incoming)
  | answered
  | lookUp
  | send
  | close
  | closed

inductive WriterMove where
  | recv
  | write
  | fail
  | reap

inductive NetLabel (ε : Type) where
  | hub (l : Label ε)
  | accept (socket : Socket)
  | loop (c : Nat) (move : LoopMove)
  | writer (c : Nat) (move : WriterMove)

/-- The labels of the hub that are not a transport's. -/
def Label.core {ε : Type} : Label ε → Bool
  | .start _ | .advance .. | .forward .. => true
  | _ => false

variable {κ β τ ε : Type}

/-- The two carriers of one hub. `explain` is what prost says about bytes that it cannot
decode. -/
structure Sockets (κ β τ ε : Type) where
  hub : Hub κ β τ ε
  explain : Bytes → String
  outboxCapacity : Socket → Nat

namespace Sockets

def decoded (S : Sockets κ β τ ε) (bytes : Bytes) : Verdict :=
  match decodeClient bytes with
  | .ok frame => .handle frame
  | .error e => .refuse ("invalid frame: " ++ e.display (S.explain bytes))

def wsDispatch (S : Sockets κ β τ ε) : Option WsMessage → Verdict
  | none => .leave
  | some (.binary bytes) => S.decoded bytes
  | some (.text _) | some (.ping _) | some (.pong _) => .again
  | some .close => .leave

def wtDispatch (S : Sockets κ β τ ε) : Option Bytes → Verdict
  | none => .leave
  | some bytes => if 16 * 1024 * 1024 < bytes.length then .leave else S.decoded bytes

def receive (S : Sockets κ β τ ε) : Socket → Incoming → Option Verdict
  | .ws, .ws message => some (S.wsDispatch message)
  | .wt, .wt body => some (S.wtDispatch body)
  | _, _ => none

def ready (s : State κ β τ) (c : Nat) (x : Connection) : Bool :=
  (s.shared.heap x.session).shutdown.ready c

/-- The first branch of the WebSocket `select!`; the WebTransport loop does not have it. -/
def writerReady (x : Connection) : Bool := x.socket == .ws && x.writer == .finished

/-- The loop after a reply: the one to a bad frame is the last. -/
def afterReply (last : Bool) : Stage := if last then .leaving else .looping

/-- One move of the loop of connection `c`: what it does to the hub, and where it goes. -/
def plan (S : Sockets κ β τ ε) (s : State κ β τ) (c : Nat) (x : Connection) :
    LoopMove → Option (List (Label ε) × Connection)
  | .opened => none
  | .select =>
      match x.stage with
      | .looping => some ([.listen x.session c], { x with stage := .selecting })
      | _ => none
  | .writerEnded =>
      match x.stage with
      | .selecting =>
          if writerReady x then some ([.unlisten x.session c], { x with stage := .leaving }) else none
      | _ => none
  | .shutdown =>
      match x.stage with
      | .selecting =>
          if !writerReady x && ready s c x then
            some ([.unlisten x.session c], { x with stage := .leaving })
          else none
      | _ => none
  | .receive input =>
      match x.stage with
      | .selecting =>
          if writerReady x || ready s c x then none
          else
            match S.receive x.socket input with
            | none => none
            | some .again => some ([.unlisten x.session c], { x with stage := .looping })
            | some .leave => some ([.unlisten x.session c], { x with stage := .leaving })
            | some (.refuse message) =>
                some ([.unlisten x.session c],
                  { x with stage := .delivering (errorFrame 0 .invalidFrame message) true })
            | some (.handle frame) =>
                some ([.unlisten x.session c,
                  .start (frame.request (s.shared.heap x.session).id)],
                  { x with stage := .dispatching s.nextCall frame })
      | _ => none
  | .answered =>
      match x.stage with
      | .dispatching call frame =>
          match s.answer call with
          | none => none
          | some result =>
              match frame.reply result with
              | none => some ([], { x with stage := .looping })
              | some reply => some ([], { x with stage := .delivering reply false })
      | _ => none
  | .lookUp =>
      match x.stage with
      | .delivering reply last =>
          match s.shared.registry.get (s.shared.heap x.session).id with
          | none => some ([], { x with stage := afterReply last })
          | some ref => some ([], { x with stage := .sending ref reply last })
      | _ => none
  | .send =>
      match x.stage with
      | .sending ref reply last => some ([.send ref reply], { x with stage := afterReply last })
      | _ => none
  | .close =>
      match x.stage with
      | .leaving =>
          some ([.start (.close (s.shared.heap x.session).id)],
            { x with stage := .closing s.nextCall, aborted := true })
      | _ => none
  | .closed =>
      match x.stage with
      | .closing call =>
          match s.answer call with
          | none => none
          | some _ => some ([.release x.session], { x with stage := .closed })
      | _ => none

/-- One move of the writer task. An abort takes effect when the task is suspended. -/
def write (s : State κ β τ) (x : Connection) : WriterMove → Option (List (Label ε) × Connection)
  | .recv =>
      match x.writer, (s.shared.heap x.session).outbox.queue with
      | .running none, frame :: _ =>
          some ([.drain x.session], { x with writer := .running (some frame) })
      | _, _ => none
  | .write =>
      match x.writer with
      | .running (some frame) =>
          some ([], { x with writer := .running none, wire := x.wire ++ [frame] })
      | _ => none
  | .fail =>
      match x.writer with
      | .running (some _) => some ([.hangUp x.session], { x with writer := .finished })
      | _ => none
  | .reap =>
      match x.writer with
      | .running _ =>
          if x.aborted then some ([.hangUp x.session], { x with writer := .finished }) else none
      | .finished => none

def fresh (socket : Socket) (session : Nat) : Connection :=
  ⟨socket, session, .looping, .running none, false, []⟩

def moveLoop (S : Sockets κ β τ ε) (s : State κ β τ) (c : Nat) (move : LoopMove) :
    Peer → Option (List (Label ε) × Peer)
  | .opening socket call =>
      match move, s.answer call with
      | .opened, some (.ok (.opened ref)) => some ([], .connected (fresh socket ref))
      | _, _ => none
  | .connected x => (S.plan s c x move).map fun out => (out.1, .connected out.2)

def moveWriter (s : State κ β τ) (move : WriterMove) :
    Peer → Option (List (Label ε) × Peer)
  | .opening _ _ => none
  | .connected x => (write s x move).map fun out => (out.1, .connected out.2)

def carryOut (S : Sockets κ β τ ε) (s : Net κ β τ) (c : Nat) (out : List (Label ε) × Peer) :
    Option (Net κ β τ) :=
  (S.hub.machine.exec s.hub out.1).map fun hub =>
    { s with hub, peers := Function.update s.peers c (some out.2) }

def step (S : Sockets κ β τ ε) (s : Net κ β τ) : NetLabel ε → Option (Net κ β τ)
  | .hub l => if l.core then (S.hub.step s.hub l).map fun hub => { s with hub } else none
  | .accept socket =>
      (S.hub.step s.hub (.start (.openSession (max (S.outboxCapacity socket) 1)))).map fun hub =>
        { hub
          peers := Function.update s.peers s.nextPeer (some (.opening socket s.hub.nextCall))
          nextPeer := s.nextPeer + 1 }
  | .loop c move =>
      ((s.peers c).bind (S.moveLoop s.hub c move)).bind (S.carryOut s c)
  | .writer c move => ((s.peers c).bind (moveWriter s.hub move)).bind (S.carryOut s c)

def machine (S : Sockets κ β τ ε) : Machine (Net κ β τ) (NetLabel ε) := ⟨S.step⟩

def boot (hub : State κ β τ) : Net κ β τ := ⟨hub, fun _ => none, 0⟩

inductive Stepped (S : Sockets κ β τ ε) (s : Net κ β τ) : NetLabel ε → Net κ β τ → Prop
  | hub {l : Label ε} {hub : State κ β τ} (core : l.core = true)
      (stepped : S.hub.step s.hub l = some hub) : S.Stepped s (.hub l) { s with hub }
  | accept {socket : Socket} {hub : State κ β τ}
      (started : S.hub.step s.hub (.start (.openSession (max (S.outboxCapacity socket) 1))) =
        some hub) :
      S.Stepped s (.accept socket)
        { hub
          peers := Function.update s.peers s.nextPeer (some (.opening socket s.hub.nextCall))
          nextPeer := s.nextPeer + 1 }
  | opened {c : Nat} {socket : Socket} {call ref : Nat}
      (here : s.peers c = some (.opening socket call))
      (answer : s.hub.answer call = some (.ok (.opened ref))) :
      S.Stepped s (.loop c .opened)
        { s with peers := Function.update s.peers c (some (.connected (fresh socket ref))) }
  | loop {c : Nat} {move : LoopMove} {x x' : Connection} {ls : List (Label ε)} {hub : State κ β τ}
      (here : s.peers c = some (.connected x)) (planned : S.plan s.hub c x move = some (ls, x'))
      (ran : S.hub.machine.exec s.hub ls = some hub) :
      S.Stepped s (.loop c move)
        { s with hub, peers := Function.update s.peers c (some (.connected x')) }
  | writer {c : Nat} {move : WriterMove} {x x' : Connection} {ls : List (Label ε)}
      {hub : State κ β τ} (here : s.peers c = some (.connected x))
      (writes : write s.hub x move = some (ls, x'))
      (ran : S.hub.machine.exec s.hub ls = some hub) :
      S.Stepped s (.writer c move)
        { s with hub, peers := Function.update s.peers c (some (.connected x')) }

theorem stepped {S : Sockets κ β τ ε} {s t : Net κ β τ} {l : NetLabel ε}
    (h : S.step s l = some t) : S.Stepped s l t := by
  cases l with
  | hub l =>
      simp only [step] at h
      split at h
      · next core =>
          obtain ⟨hub, stepped, rfl⟩ := Option.map_eq_some_iff.mp h
          exact .hub core stepped
      · cases h
  | accept socket =>
      simp only [step] at h
      obtain ⟨hub, started, rfl⟩ := Option.map_eq_some_iff.mp h
      exact .accept started
  | loop c move =>
      obtain ⟨⟨ls, peer'⟩, decided, carried⟩ := Option.bind_eq_some_iff.mp h
      obtain ⟨peer, here, moved⟩ := Option.bind_eq_some_iff.mp decided
      obtain ⟨hub, ran, rfl⟩ := Option.map_eq_some_iff.mp carried
      cases peer with
      | opening socket call =>
          simp only [moveLoop] at moved
          split at moved <;> cases moved
          next ref answer =>
            cases ran
            exact .opened here answer
      | connected x =>
          obtain ⟨out, planned, same⟩ := Option.map_eq_some_iff.mp moved
          cases same
          exact .loop here planned ran
  | writer c move =>
      obtain ⟨⟨ls, peer'⟩, decided, carried⟩ := Option.bind_eq_some_iff.mp h
      obtain ⟨peer, here, moved⟩ := Option.bind_eq_some_iff.mp decided
      obtain ⟨hub, ran, rfl⟩ := Option.map_eq_some_iff.mp carried
      cases peer with
      | opening socket call => cases moved
      | connected x =>
          obtain ⟨out, writes, same⟩ := Option.map_eq_some_iff.mp moved
          cases same
          exact .writer here writes ran

end Sockets
end Cherenkov
