import Cherenkov.Library.Broadcast
import Cherenkov.Core

/-! A session is an object on a heap; the registry maps identifiers to references, as it maps them
to `Arc<Session>` in the source. Every registry operation below is one call on one `DashMap`, except
`removeSubscription` and `deregister`, which are the two functions of the source that make two such
calls. -/

namespace Cherenkov

/-- Bounded queue between the hub and a transport's writer. -/
structure Outbox where
  capacity : Nat
  queue : List ServerFrame
  closed : Bool

inductive SendOutcome where
  | sent (outbox : Outbox)
  | full
  | closed

def Outbox.send (o : Outbox) (frame : ServerFrame) : SendOutcome :=
  if o.closed then .closed
  else if o.queue.length < o.capacity then .sent { o with queue := o.queue ++ [frame] }
  else .full

theorem Outbox.send_sent {o o' : Outbox} {frame : ServerFrame} (h : o.send frame = .sent o') :
    o.closed = false ∧ o'.closed = false := by
  unfold Outbox.send at h
  split at h
  · cases h
  · next open_ =>
      split at h
      · cases h
        exact ⟨Bool.eq_false_iff.mpr open_, Bool.eq_false_iff.mpr open_⟩
      · cases h

theorem Outbox.send_closed {o : Outbox} {frame : ServerFrame} (h : o.send frame = .closed) :
    o.closed = true := by
  unfold Outbox.send at h
  split at h
  · assumption
  · split at h <;> cases h

/-- `handles` counts the references held by transports. -/
structure Session where
  id : Nat
  outbox : Outbox
  subscriptions : DashMap String Nat
  claims : Option SessionClaims
  shutdown : Notify
  handles : Nat

def Session.new (id capacity : Nat) : Session where
  id := id
  outbox := ⟨capacity, [], false⟩
  subscriptions := ∅
  claims := none
  shutdown := Notify.new
  handles := 0

structure SessionRegistry where
  nextId : Nat
  sessions : DashMap Nat Nat
  channels : DashMap String (List Nat)

namespace SessionRegistry

def new : SessionRegistry := ⟨0, ∅, ∅⟩

/-- `next_id`: the counter is an `AtomicU64` and wraps. -/
def allocate (r : SessionRegistry) : SessionRegistry × Nat :=
  ({ r with nextId := (r.nextId + 1) % 2 ^ 64 }, r.nextId)

def register (r : SessionRegistry) (id ref : Nat) : SessionRegistry :=
  { r with sessions := r.sessions.put id ref }

def get (r : SessionRegistry) (id : Nat) : Option Nat := r.sessions.get id

def ids (r : SessionRegistry) : List Nat := r.sessions.keys

def removeSession (r : SessionRegistry) (id : Nat) : SessionRegistry :=
  { r with sessions := r.sessions.remove id }

/-- What one pass of `deregister` makes of a reverse-index entry. -/
def without (id : Nat) (ids : List Nat) : Option (List Nat) :=
  let kept := ids.filter (· ≠ id)
  if kept.isEmpty then none else some kept

def scrub (r : SessionRegistry) (id : Nat) : SessionRegistry :=
  { r with channels := r.channels.retain fun _ ids => without id ids }

def deregister (r : SessionRegistry) (id : Nat) : SessionRegistry × Option Nat :=
  match r.get id with
  | none => (r, none)
  | some ref => ((r.removeSession id).scrub id, some ref)

def subscribersOf (r : SessionRegistry) (channel : String) : List Nat :=
  (r.channels.get channel).getD []

def addSubscription (r : SessionRegistry) (id : Nat) (channel : String) : SessionRegistry :=
  { r with channels := r.channels.put channel (r.subscribersOf channel ++ [id]) }

/-- The `get_mut` section of `remove_subscription`, with its verdict `should_remove`. -/
def scrubChannel (r : SessionRegistry) (id : Nat) (channel : String) : SessionRegistry × Bool :=
  match r.channels.get channel with
  | none => (r, false)
  | some ids =>
      let kept := ids.filter (· ≠ id)
      ({ r with channels := r.channels.put channel kept }, kept.isEmpty)

def removeChannel (r : SessionRegistry) (channel : String) : SessionRegistry :=
  { r with channels := r.channels.remove channel }

def removeSubscription (r : SessionRegistry) (id : Nat) (channel : String) : SessionRegistry :=
  if (r.scrubChannel id channel).2 then (r.scrubChannel id channel).1.removeChannel channel
  else (r.scrubChannel id channel).1

theorem subscribersOf_addSubscription (r : SessionRegistry) (id : Nat) (channel c : String) :
    (r.addSubscription id channel).subscribersOf c =
      if c = channel then r.subscribersOf c ++ [id] else r.subscribersOf c := by
  simp only [addSubscription, subscribersOf, DashMap.get_put]
  split
  · next same => simp [same]
  · rfl

theorem subscribersOf_scrubChannel (r : SessionRegistry) (id : Nat) (channel c : String) :
    (r.scrubChannel id channel).1.subscribersOf c =
      if c = channel then (r.subscribersOf c).filter (· ≠ id) else r.subscribersOf c := by
  cases found : r.channels.get channel with
  | none =>
      by_cases same : c = channel
      · simp [scrubChannel, found, subscribersOf, same]
      · simp [scrubChannel, found, same]
  | some ids =>
      by_cases same : c = channel
      · simp [scrubChannel, found, subscribersOf, same]
      · simp [scrubChannel, found, subscribersOf, same, DashMap.get_put_ne]

/-- The verdict is right about the list it was computed from. -/
theorem scrubChannel_verdict {r : SessionRegistry} {id : Nat} {channel : String}
    (h : (r.scrubChannel id channel).2 = true) :
    (r.scrubChannel id channel).1.subscribersOf channel = [] := by
  rw [subscribersOf_scrubChannel, if_pos rfl]
  unfold scrubChannel at h
  cases found : r.channels.get channel with
  | none => simp [found] at h
  | some ids =>
      simp only [found] at h
      simpa [subscribersOf, found] using h

theorem subscribersOf_removeChannel (r : SessionRegistry) (channel c : String) :
    (r.removeChannel channel).subscribersOf c = if c = channel then [] else r.subscribersOf c := by
  simp only [removeChannel, subscribersOf, DashMap.get_remove]
  split <;> rfl

theorem subscribersOf_scrub (r : SessionRegistry) (id : Nat) (channel : String) :
    (r.scrub id).subscribersOf channel = (r.subscribersOf channel).filter (· ≠ id) := by
  simp only [scrub, subscribersOf, DashMap.get_retain]
  cases found : r.channels.get channel with
  | none => rfl
  | some ids =>
      simp only [Option.bind_some, without, Option.getD_some]
      split
      · next none => simpa using none
      · rfl

end SessionRegistry
end Cherenkov
