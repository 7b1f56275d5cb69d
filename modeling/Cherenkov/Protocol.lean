import Mathlib.Algebra.Ring.Nat

/-! The wrapper types of `cherenkov-protocol`. Offsets, epochs and request identifiers are `u64` in
the source; they are natural numbers here, and the one operation that could leave the range
(advancing a channel's next offset) saturates explicitly. -/

namespace Cherenkov

abbrev Bytes := List UInt8

def u64Max : Nat := 2 ^ 64 - 1

/-- `sinceOffset` is the recovery cursor; 0 asks for live publications only. -/
structure Subscribe where
  requestId : Nat
  channel : String
  sinceOffset : Nat
  deriving DecidableEq, Repr

structure Unsubscribe where
  requestId : Nat
  channel : String
  deriving DecidableEq, Repr

structure Publish where
  requestId : Nat
  channel : String
  data : Bytes
  deriving DecidableEq, Repr

structure Connect where
  requestId : Nat
  token : String
  deriving DecidableEq, Repr

inductive ClientFrame where
  | subscribe (s : Subscribe)
  | unsubscribe (u : Unsubscribe)
  | publish (p : Publish)
  | connect (c : Connect)
  deriving DecidableEq, Repr

structure Publication where
  channel : String
  offset : Nat
  data : Bytes
  deriving DecidableEq, Repr

structure ConnectOk where
  requestId : Nat
  subject : String
  expiresAt : Nat
  deriving DecidableEq, Repr

/-- `epoch` and `offset` echo the channel cursor read by the kind's `on_subscribe`. -/
structure SubscribeOk where
  requestId : Nat
  channel : String
  epoch : Nat
  offset : Nat
  deriving DecidableEq, Repr

structure UnsubscribeOk where
  requestId : Nat
  channel : String
  deriving DecidableEq, Repr

structure ProtocolError where
  requestId : Nat
  code : Nat
  message : String
  deriving DecidableEq, Repr

inductive ErrorCode where
  | invalidFrame
  | invalidChannel
  | unauthorized
  | internal
  | validationFailed
  | invalidToken
  | aclDenied
  | notConnected
  deriving DecidableEq, Repr

def ErrorCode.value : ErrorCode → Nat
  | .invalidFrame => 1
  | .invalidChannel => 2
  | .unauthorized => 3
  | .internal => 4
  | .validationFailed => 5
  | .invalidToken => 6
  | .aclDenied => 7
  | .notConnected => 8

inductive ServerFrame where
  | subscribeOk (ok : SubscribeOk)
  | unsubscribeOk (ok : UnsubscribeOk)
  | publication (p : Publication)
  | error (e : ProtocolError)
  | connectOk (ok : ConnectOk)
  deriving DecidableEq, Repr

/-- Replies are the frames that a transport, not the hub, puts into an outbox. -/
def ServerFrame.isReply : ServerFrame → Bool
  | .publication _ => false
  | _ => true

end Cherenkov
