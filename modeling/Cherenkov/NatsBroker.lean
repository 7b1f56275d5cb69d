import Cherenkov.Library.Fallible
import Cherenkov.Library.FirstMatch
import Cherenkov.Library.Subject
import Cherenkov.Codec
import Cherenkov.Core

/-! Topics are used as NATS subjects as they are, both to subscribe and to publish. The client
library and the server are taken together: a message reaches, in one step, every subscription whose
subject covers its own and whose buffer has room. What the client library refuses is arbitrary. -/

namespace Cherenkov

structure NatsStream where
  sid : Nat
  subject : String
  deriving DecidableEq, Repr

structure NatsBroker where
  subscriptionCapacity : Nat
  subscribeError : String → Option String
  publishError : String → Bytes → Option String
  subscriptions : List NatsStream
  inbox : NatsStream → List Bytes
  nextSid : Nat

def subjectTokens (subject : String) : List (List Char) := subject.toList.splitOn '.'

def natsWildcards : Wildcards (List Char) := ⟨['*'], ['>']⟩

def subjectCovers (pattern subject : String) : Bool :=
  natsWildcards.covers (subjectTokens pattern) (subjectTokens subject)

/-- Some token is `*`, or the last one is `>`. -/
def hasWildcard (subject : String) : Bool := natsWildcards.wild (subjectTokens subject)

def wildcardInstance (subject : String) : String :=
  String.ofList (['.'].intercalate (natsWildcards.fill ['x'] (subjectTokens subject)))

theorem subjectTokens_injective {a b : String} (h : subjectTokens a = subjectTokens b) : a = b := by
  have joined := congrArg (['.'].intercalate ·) h
  simp only [subjectTokens, List.intercalate_splitOn] at joined
  exact String.toList_injective joined

theorem subjectTokens_wildcardInstance (subject : String) :
    subjectTokens (wildcardInstance subject) =
      natsWildcards.fill ['x'] (subjectTokens subject) := by
  rw [subjectTokens, wildcardInstance, String.toList_ofList]
  apply List.splitOn_intercalate
  · intro token member
    rcases Wildcards.mem_fill member with rfl | old
    · decide
    · exact not_mem_of_mem_splitOn old
  · cases tokens : subjectTokens subject with
    | nil => exact absurd tokens (List.splitOn_ne_nil '.' _)
    | cons first later => exact List.cons_ne_nil _ _

theorem subjectCovers_self (subject : String) : subjectCovers subject subject = true :=
  Wildcards.covers_self _

theorem subjectCovers_eq {pattern subject : String} (plain : hasWildcard pattern = false)
    (h : subjectCovers pattern subject = true) : subject = pattern :=
  subjectTokens_injective (Wildcards.covers_eq plain h)

theorem subjectCovers_wildcardInstance (subject : String) :
    subjectCovers subject (wildcardInstance subject) = true := by
  rw [subjectCovers, subjectTokens_wildcardInstance]
  exact Wildcards.covers_fill _ _

theorem wildcardInstance_ne {subject : String} (wild : hasWildcard subject = true) :
    wildcardInstance subject ≠ subject := by
  intro same
  have tokens := subjectTokens_wildcardInstance subject
  rw [same] at tokens
  exact Wildcards.fill_ne (by decide) (by decide) wild tokens.symm

theorem wildcardInstance_size (subject : String) :
    (wildcardInstance subject).utf8ByteSize = subject.utf8ByteSize := by
  have whole : String.ofList (['.'].intercalate (subjectTokens subject)) = subject := by
    rw [subjectTokens, List.intercalate_splitOn, String.ofList_toList]
  have size : (wildcardInstance subject).utf8ByteSize =
      (String.ofList (['.'].intercalate (subjectTokens subject))).utf8ByteSize := by
    rw [wildcardInstance, utf8ByteSize_ofList, utf8ByteSize_ofList]
    exact sum_intercalate _ _ (Wildcards.map_fill _ (by decide) (by decide) _)
  rw [size, whole]

namespace NatsBroker

def connect (subscriptionCapacity : Nat) (subscribeError : String → Option String)
    (publishError : String → Bytes → Option String) : NatsBroker where
  subscriptionCapacity := subscriptionCapacity
  subscribeError := subscribeError
  publishError := publishError
  subscriptions := []
  inbox := fun _ => []
  nextSid := 0

def subscribe (b : NatsBroker) (topic : String) : NatsBroker × Except BrokerError NatsStream :=
  match b.subscribeError topic with
  | some e => (b, .error (.other ("nats SUB: " ++ e)))
  | none =>
      ({ b with
          subscriptions := ⟨b.nextSid, topic⟩ :: b.subscriptions
          nextSid := b.nextSid + 1 }, .ok ⟨b.nextSid, topic⟩)

/-- The server's part of a publication; a full buffer loses the message. -/
def deliver (b : NatsBroker) (subject : String) (payload : Bytes) : NatsBroker :=
  { b with
    inbox := fun stream =>
      if stream ∈ b.subscriptions ∧ subjectCovers stream.subject subject = true ∧
          (b.inbox stream).length < b.subscriptionCapacity then b.inbox stream ++ [payload]
      else b.inbox stream }

def publish (b : NatsBroker) (topic : String) (publication : Publication) :
    NatsBroker × Except BrokerError Unit :=
  let bytes := encodePublication publication
  match b.publishError topic bytes with
  | some e => (b, .error (.other ("nats PUB: " ++ e)))
  | none => (b.deliver topic bytes, .ok ())

def firstDecoded : List Bytes → Option (Publication × List Bytes) :=
  firstPassing fun payload => (decodePublication payload).toOption

def next (b : NatsBroker) (stream : NatsStream) : NatsBroker × Poll :=
  match firstDecoded (b.inbox stream) with
  | some (p, later) => ({ b with inbox := Function.update b.inbox stream later }, .ready p)
  | none => ({ b with inbox := Function.update b.inbox stream [] }, .pending)

def dropStream (b : NatsBroker) (stream : NatsStream) : NatsBroker :=
  { b with
    subscriptions := b.subscriptions.filter (· ≠ stream)
    inbox := Function.update b.inbox stream [] }

def broker : Broker NatsBroker NatsStream where
  subscribe := subscribe
  publish := publish
  next := next
  dropStream := dropStream

/-- Only publications of covered channels wait in a subscription's buffer. -/
def Wf (b : NatsBroker) : Prop :=
  ∀ stream, ∀ payload ∈ b.inbox stream, ∃ p, payload = encodePublication p ∧
    subjectCovers stream.subject p.channel = true

variable {b : NatsBroker}

theorem connect_wf (capacity : Nat) (subscribeError : String → Option String)
    (publishError : String → Bytes → Option String) :
    (connect capacity subscribeError publishError).Wf := by
  intro stream payload member
  cases member

theorem subscribe_wf (wf : b.Wf) (topic : String) : (b.subscribe topic).1.Wf := by
  unfold subscribe
  split <;> exact wf

theorem subscribe_subject {topic : String} {stream : NatsStream}
    (h : (b.subscribe topic).2 = .ok stream) : stream.subject = topic := by
  unfold subscribe at h
  split at h
  · cases h
  · cases h
    rfl

theorem publish_wf (wf : b.Wf) {topic : String} {p : Publication} (labelled : p.channel = topic) :
    (b.publish topic p).1.Wf := by
  simp only [publish]
  split
  · exact wf
  · intro stream payload member
    simp only [deliver] at member
    split at member
    · next due =>
        rcases List.mem_append.mp member with old | new
        · exact wf stream payload old
        · rw [List.mem_singleton.mp new]
          exact ⟨p, rfl, labelled ▸ due.2.1⟩
    · exact wf stream payload member

theorem next_wf (wf : b.Wf) (stream : NatsStream) : (b.next stream).1.Wf := by
  unfold next
  split
  · next found =>
      exact fun t payload member =>
        wf t payload (mem_of_mem_update (firstPassing_some found).2 member)
  · exact fun t payload member => wf t payload (mem_of_mem_update (List.nil_subset _) member)

theorem next_covered (wf : b.Wf) {stream : NatsStream} {p : Publication}
    (h : (b.next stream).2 = .ready p) : subjectCovers stream.subject p.channel = true := by
  unfold next at h
  split at h
  · next q later found =>
      cases h
      obtain ⟨payload, member, decoded⟩ := (firstPassing_some found).1
      obtain ⟨q, rfl, covered⟩ := wf stream payload member
      rw [decodePublication_encode_eq (Fallible.toOption_eq_some.mp decoded)]
      exact covered
  · cases h

theorem next_delivered {topic : String} {p : Publication} (stream : NatsStream)
    (listed : stream ∈ b.subscriptions) (empty : b.inbox stream = [])
    (room : 0 < b.subscriptionCapacity) (covers : subjectCovers stream.subject topic = true)
    (fits : p.Fits) : ∃ b', (b.deliver topic (encodePublication p)).next stream = (b', .ready p) := by
  have queued : (b.deliver topic (encodePublication p)).inbox stream = [encodePublication p] := by
    simp [deliver, listed, empty, room, covers]
  simp only [next, queued, firstDecoded, firstPassing, decodePublication_encode fits, Except.toOption]
  exact ⟨_, rfl⟩

theorem dropStream_wf (wf : b.Wf) (stream : NatsStream) : (b.dropStream stream).Wf :=
  fun t payload member => wf t payload (mem_of_mem_update (List.nil_subset _) member)

end NatsBroker

end Cherenkov
