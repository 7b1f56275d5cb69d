import Mathlib.Data.List.Sort
import Cherenkov.Library.Http
import Cherenkov.Hub.Model

/-! The handlers of `cherenkov-admin` run next to the hub. They never suspend, but they make several
reads of shared maps: an iteration over a `DashMap` locks one shard after another, and each session
of a listing is read after the listing has been collected. A handler holds the sessions that it has
collected until it has read them. -/

namespace Cherenkov

structure SessionSummary where
  id : Nat
  subject : Option String
  channels : Nat
  deriving DecidableEq

def SessionSummary.Before (a b : SessionSummary) : Prop := a.id ≤ b.id

instance : DecidableRel SessionSummary.Before := fun a b => inferInstanceAs (Decidable (a.id ≤ b.id))

structure SessionDetail where
  id : Nat
  subject : Option String
  channels : List String
  deriving DecidableEq

/-- The routes below the API prefix, with their path parameters. -/
inductive AdminRoute where
  | health
  | sessions
  | session (id : Nat)
  | disconnect (id : Nat)
  | subscribers (channel : String)
  | metrics

structure AdminRequest where
  authorization : Option Bytes
  route : AdminRoute

inductive AdminReply where
  | health (status : String) (sessions : Nat)
  | sessions (list : List SessionSummary)
  | session (detail : SessionDetail)
  | subscribers (channel : String) (subscribers : List Nat)
  | disconnected (id : Nat) (removed : Bool)
  | text (status : Nat) (body : String)
  deriving DecidableEq

/-- A session that is being read: its claims have been loaded, and its channels are collected
from the shards below `shard`. -/
structure SessionReading where
  ref : Nat
  subject : Option String
  shard : Nat
  channels : List String

inductive AdminStage where
  | routed
  | scanning (shard : Nat) (found : List Nat)
  | listing (reading : Option SessionReading) (todo : List Nat) (out : List SessionSummary)
  | detailing (id ref : Nat) (reading : Option SessionReading)
  | kicking (call : Nat)
  | replied (reply : AdminReply)

/-- `call` is history: the kick that the request has started. -/
structure AdminCall where
  request : AdminRequest
  stage : AdminStage
  call : Option Nat

structure AdminNet (κ β τ : Type) where
  hub : State κ β τ
  admins : Nat → Option AdminCall
  nextAdmin : Nat

inductive AdminLabel (ε : Type) where
  | hub (l : Label ε)
  | request (r : AdminRequest)
  | move (c : Nat)

/-- The resources of the router. `kicks` says whether a hub is attached, `render` is the
Prometheus handle, and the rest is how the maps are cut into shards: each has its own hasher. -/
structure Admin (κ β τ ε : Type) where
  hub : Hub κ β τ ε
  kicks : Bool
  render : Option (Metrics → String)
  authToken : Option String
  shards : Nat
  shardOf : Nat → Nat
  channelShard : Nat → String → Nat
  shardOf_lt : ∀ id, shardOf id < shards
  channelShard_lt : ∀ ref channel, channelShard ref channel < shards

variable {κ β τ ε : Type}

def State.keep (s : State κ β τ) (ref : Nat) : State κ β τ :=
  { s with
    shared := s.shared.setSession ref
      { s.shared.heap ref with handles := (s.shared.heap ref).handles + 1 } }

namespace Admin

def requireToken (A : Admin κ β τ ε) (r : AdminRequest) : Bool :=
  match A.authToken with
  | none => true
  | some expected => Http.bearer r.authorization == some expected

def sessionsIn (A : Admin κ β τ ε) (s : State κ β τ) (shard : Nat) : List Nat :=
  (s.shared.registry.sessions.entries.filter fun e => A.shardOf e.1 = shard).map Sigma.snd

def channelsIn (A : Admin κ β τ ε) (s : State κ β τ) (ref shard : Nat) : List String :=
  (s.shared.heap ref).subscriptions.keys.filter fun channel => A.channelShard ref channel = shard

def begin (s : State κ β τ) (ref : Nat) : SessionReading :=
  ⟨ref, (s.shared.heap ref).claims.map SessionClaims.subject, 0, []⟩

def readOn (A : Admin κ β τ ε) (s : State κ β τ) (r : SessionReading) : SessionReading :=
  { r with shard := r.shard + 1, channels := r.channels ++ A.channelsIn s r.ref r.shard }

def summary (s : State κ β τ) (r : SessionReading) : SessionSummary :=
  ⟨(s.shared.heap r.ref).id, r.subject, r.channels.length⟩

def serve (A : Admin κ β τ ε) (s : State κ β τ) :
    AdminRoute → Option (State κ β τ × AdminStage × Option Nat)
  | .health => some (s, .replied (.health "ok" s.shared.registry.sessions.len), none)
  | .sessions => some (s, .scanning 0 [], none)
  | .session id =>
      match s.shared.registry.get id with
      | none => some (s, .replied (.text 404 "session not found"), none)
      | some ref => some (s.keep ref, .detailing id ref none, none)
  | .disconnect id =>
      if A.kicks then
        (A.hub.step s (.start (.kick id))).map fun t => (t, .kicking s.nextCall, some s.nextCall)
      else
        some (s, .replied (.text 404
          "disconnect endpoint not enabled (admin built without hub handle)"), none)
  | .subscribers channel =>
      some (s, .replied (.subscribers channel (s.shared.registry.subscribersOf channel)), none)
  | .metrics =>
      match A.render with
      | some render => some (s, .replied (.text 200 (render s.shared.metrics)), none)
      | none => some (s, .replied (.text 503 "metrics recorder not installed"), none)

def advance (A : Admin κ β τ ε) (s : State κ β τ) (x : AdminCall) :
    Option (State κ β τ × AdminStage × Option Nat) :=
  match x.stage with
  | .routed =>
      if A.requireToken x.request then A.serve s x.request.route
      else
        some (s, .replied (.text 401 "missing or invalid Authorization: Bearer <token>"), none)
  | .scanning shard found =>
      if shard < A.shards then
        some ((A.sessionsIn s shard).foldl State.keep s,
          .scanning (shard + 1) (found ++ A.sessionsIn s shard), x.call)
      else some (s, .listing none found [], x.call)
  | .listing none [] out =>
      some (s, .replied (.sessions (out.insertionSort SessionSummary.Before)), x.call)
  | .listing none (ref :: todo) out => some (s, .listing (some (begin s ref)) todo out, x.call)
  | .listing (some r) todo out =>
      if r.shard < A.shards then some (s, .listing (some (A.readOn s r)) todo out, x.call)
      else
        (A.hub.step s (.release r.ref)).map fun t =>
          (t, .listing none todo (out ++ [summary s r]), x.call)
  | .detailing id ref none => some (s, .detailing id ref (some (begin s ref)), x.call)
  | .detailing id ref (some r) =>
      if r.shard < A.shards then some (s, .detailing id ref (some (A.readOn s r)), x.call)
      else
        (A.hub.step s (.release ref)).map fun t =>
          (t, .replied (.session ⟨id, r.subject, r.channels⟩), x.call)
  | .kicking call =>
      match x.request.route, s.answer call with
      | .disconnect id, some (.ok (.kicked removed)) =>
          some (s, .replied (.disconnected id removed), x.call)
      | _, _ => none
  | .replied _ => none

def step (A : Admin κ β τ ε) (s : AdminNet κ β τ) : AdminLabel ε → Option (AdminNet κ β τ)
  | .hub l => (A.hub.step s.hub l).map fun hub => { s with hub }
  | .request r =>
      some { s with
        admins := Function.update s.admins s.nextAdmin (some ⟨r, .routed, none⟩)
        nextAdmin := s.nextAdmin + 1 }
  | .move c =>
      (s.admins c).bind fun x =>
        (A.advance s.hub x).map fun out =>
          { s with
            hub := out.1
            admins := Function.update s.admins c (some { x with stage := out.2.1, call := out.2.2 }) }

def machine (A : Admin κ β τ ε) : Machine (AdminNet κ β τ) (AdminLabel ε) := ⟨A.step⟩

def boot (hub : State κ β τ) : AdminNet κ β τ := ⟨hub, fun _ => none, 0⟩

end Admin
end Cherenkov
