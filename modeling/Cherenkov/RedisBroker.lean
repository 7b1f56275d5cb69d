import Cherenkov.Library.Fallible
import Cherenkov.Library.FirstMatch
import Cherenkov.Codec
import Cherenkov.Core

/-! One Redis server and the clients of all the nodes that are connected to it. A node has a single
subscriber client, which stays subscribed to every topic it was ever asked for; each stream is a
receiver of that client's messages and passes on those of its own topic that decode. A `PUBLISH`
reaches, in one step and without loss, every receiver of every client subscribed to the topic. Which
commands fail, and with what, is arbitrary. -/

namespace Cherenkov

structure RedisStream (ι : Type) where
  node : ι
  rid : Nat
  topic : String
  deriving DecidableEq, Repr

/-- The value of a message is its payload; `commands` counts what the server was asked. -/
structure Redis (ι : Type) where
  subscribeError : ι → Nat → Option String
  publishError : ι → Nat → Option String
  commands : Nat
  topics : ι → List String
  receivers : List (RedisStream ι)
  inbox : RedisStream ι → List (String × Bytes)
  nextRid : Nat

namespace Redis

variable {ι : Type} [DecidableEq ι]

def connected (subscribeError publishError : ι → Nat → Option String) : Redis ι where
  subscribeError := subscribeError
  publishError := publishError
  commands := 0
  topics := fun _ => []
  receivers := []
  inbox := fun _ => []
  nextRid := 0

def subscribe (node : ι) (b : Redis ι) (topic : String) :
    Redis ι × Except BrokerError (RedisStream ι) :=
  match b.subscribeError node b.commands with
  | some e =>
      ({ b with commands := b.commands + 1 }, .error (.other ("redis SUBSCRIBE: " ++ e)))
  | none =>
      ({ b with
          commands := b.commands + 1
          topics := Function.update b.topics node (topic :: b.topics node)
          receivers := ⟨node, b.nextRid, topic⟩ :: b.receivers
          nextRid := b.nextRid + 1 }, .ok ⟨node, b.nextRid, topic⟩)

/-- The server's part of a publication, and what the clients make of it. -/
def deliver (b : Redis ι) (topic : String) (payload : Bytes) : Redis ι :=
  { b with
    inbox := fun stream =>
      if stream ∈ b.receivers ∧ topic ∈ b.topics stream.node then b.inbox stream ++ [(topic, payload)]
      else b.inbox stream }

def publish (node : ι) (b : Redis ι) (topic : String) (publication : Publication) :
    Redis ι × Except BrokerError Unit :=
  let bytes := encodePublication publication
  match b.publishError node b.commands with
  | some e =>
      ({ b with commands := b.commands + 1 }, .error (.other ("redis PUBLISH: " ++ e)))
  | none => ({ b.deliver topic bytes with commands := b.commands + 1 }, .ok ())

def passed (topic : String) (message : String × Bytes) : Option Publication :=
  if message.1 = topic then (decodePublication message.2).toOption else none

def firstPassed (topic : String) :
    List (String × Bytes) → Option (Publication × List (String × Bytes)) :=
  firstPassing (passed topic)

def next (b : Redis ι) (stream : RedisStream ι) : Redis ι × Poll :=
  match firstPassed stream.topic (b.inbox stream) with
  | some (p, later) => ({ b with inbox := Function.update b.inbox stream later }, .ready p)
  | none => ({ b with inbox := Function.update b.inbox stream [] }, .pending)

def dropStream (b : Redis ι) (stream : RedisStream ι) : Redis ι :=
  { b with
    receivers := b.receivers.filter (· ≠ stream)
    inbox := Function.update b.inbox stream [] }

def client (node : ι) : Broker (Redis ι) (RedisStream ι) where
  subscribe := subscribe node
  publish := publish node
  next := next
  dropStream := dropStream

/-- Some receiver may still pass the publication on. -/
def Holds (b : Redis ι) (p : Publication) : Prop :=
  ∃ stream, ∃ message ∈ b.inbox stream, decodePublication message.2 = .ok p

variable {b : Redis ι} {p : Publication}

omit [DecidableEq ι] in
theorem not_holds_connected (subscribeError publishError : ι → Nat → Option String)
    (p : Publication) : ¬(connected subscribeError publishError).Holds p := by
  rintro ⟨_, _, member, -⟩
  cases member

theorem subscribe_holds {node : ι} {topic : String} (h : (b.subscribe node topic).1.Holds p) :
    b.Holds p := by
  unfold subscribe at h
  split at h <;> exact h

theorem publish_holds {node : ι} {topic : String} {q : Publication}
    (h : (b.publish node topic q).1.Holds p) : b.Holds p ∨ p = q := by
  simp only [publish] at h
  split at h
  · exact .inl h
  · obtain ⟨stream, message, member, decoded⟩ := h
    simp only [deliver] at member
    split at member
    · rcases List.mem_append.mp member with old | new
      · exact .inl ⟨stream, message, old, decoded⟩
      · rw [List.mem_singleton.mp new] at decoded
        exact .inr (decodePublication_encode_eq decoded)
    · exact .inl ⟨stream, message, member, decoded⟩

theorem passed_some {topic : String} {message : String × Bytes} (h : passed topic message = some p) :
    message.1 = topic ∧ decodePublication message.2 = .ok p := by
  unfold passed at h
  split at h
  · next same => exact ⟨same, Fallible.toOption_eq_some.mp h⟩
  · cases h

theorem Holds.of_update {stream : RedisStream ι} {later : List (String × Bytes)}
    (kept : later ⊆ b.inbox stream)
    (h : ({ b with inbox := Function.update b.inbox stream later } : Redis ι).Holds p) :
    b.Holds p := by
  obtain ⟨t, message, member, decoded⟩ := h
  exact ⟨t, message, mem_of_mem_update kept member, decoded⟩

theorem next_holds {stream : RedisStream ι} (h : (b.next stream).1.Holds p) : b.Holds p := by
  unfold next at h
  split at h
  · next found => exact h.of_update (firstPassing_some found).2
  · exact h.of_update (List.nil_subset _)

theorem next_ready {stream : RedisStream ι} (h : (b.next stream).2 = .ready p) : b.Holds p := by
  unfold next at h
  split at h
  · next found =>
      cases h
      obtain ⟨message, member, passes⟩ := (firstPassing_some found).1
      exact ⟨stream, message, member, (passed_some passes).2⟩
  · cases h

theorem dropStream_holds {stream : RedisStream ι} (h : (b.dropStream stream).Holds p) :
    b.Holds p :=
  Holds.of_update (List.nil_subset _) h

end Redis

end Cherenkov
