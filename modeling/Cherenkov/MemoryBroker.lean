import Mathlib.Logic.Function.Basic
import Cherenkov.Library.Broadcast
import Cherenkov.Core

/-! One broadcast channel per topic, created on demand and reaped by the first publish that finds
nobody listening. Senders live in a heap because a sender can outlive its entry in `topics`; the map
holds references, and a sender records the topic it was created for. The primitives are the
individual map and channel operations of the source (`entry(..).or_insert_with`,
`Sender::subscribe`, `Sender::send` with `none` for its error, `remove_if`). `subscribe` and
`publish` run them back to back, as one call with nothing in between. -/

namespace Cherenkov

/-- How a poll relates the items a stream has to yield before and after it. -/
def Poll.Moves (before after : List Publication) : Poll → Prop
  | .ready p => before = p :: after
  | .lagged k => after = before.drop k
  | .pending => before = [] ∧ after = []
  | .finished => before = [] ∧ after = []

structure Sender where
  topic : String
  queue : Broadcast Publication

structure MemoryStream where
  topicLabel : String
  sender : Nat
  receiver : Nat
  deriving DecidableEq, Repr

structure MemoryBroker where
  capacity : Nat
  topics : DashMap String Nat
  senders : Nat → Sender
  nextSender : Nat
  nextReceiver : Nat
  droppedTotal : String → Nat

namespace MemoryBroker

def withCapacity (capacity : Nat) : MemoryBroker where
  capacity := max capacity 1
  topics := ∅
  senders := fun _ => ⟨"", Broadcast.channel 1⟩
  nextSender := 0
  nextReceiver := 0
  droppedTotal := fun _ => 0

def orInsert (m : MemoryBroker) (topic : String) : MemoryBroker × Nat :=
  match m.topics.get topic with
  | some sender => (m, sender)
  | none =>
      ({ m with
          topics := m.topics.put topic m.nextSender
          senders := Function.update m.senders m.nextSender
            ⟨topic, Broadcast.channel m.capacity⟩
          nextSender := m.nextSender + 1 }, m.nextSender)

def attach (m : MemoryBroker) (sender : Nat) : MemoryBroker × Nat :=
  let old := m.senders sender
  ({ m with
      senders := Function.update m.senders sender
        { old with queue := old.queue.subscribe m.nextReceiver }
      nextReceiver := m.nextReceiver + 1 }, m.nextReceiver)

def send (m : MemoryBroker) (sender : Nat) (p : Publication) : Option MemoryBroker :=
  ((m.senders sender).queue.send p).map fun queue =>
    { m with senders := Function.update m.senders sender { m.senders sender with queue } }

/-- `remove_if(topic, |s| s.receiver_count() == 0)`, looking at the sender stored now. -/
def removeIf (m : MemoryBroker) (topic : String) : MemoryBroker :=
  match m.topics.get topic with
  | none => m
  | some sender =>
      if (m.senders sender).queue.receiverCount = 0 then
        { m with topics := m.topics.remove topic }
      else m

def senderFor (m : MemoryBroker) (topic : String) : MemoryBroker × Nat :=
  match m.topics.get topic with
  | some sender => (m, sender)
  | none => m.orInsert topic

def subscribe (m : MemoryBroker) (topic : String) :
    MemoryBroker × Except BrokerError MemoryStream :=
  let (m, sender) := m.senderFor topic
  let (m, receiver) := m.attach sender
  (m, .ok ⟨topic, sender, receiver⟩)

def publish (m : MemoryBroker) (topic : String) (p : Publication) :
    MemoryBroker × Except BrokerError Unit :=
  match m.topics.get topic with
  | none => (m, .ok ())
  | some sender =>
      match m.send sender p with
      | some m => (m, .ok ())
      | none => (m.removeIf topic, .ok ())

/-- Poll a stream. An exhausted stream ends only if no sender is left, and the
entry in `topics` is the only sender that outlives a call. -/
def next (m : MemoryBroker) (stream : MemoryStream) : MemoryBroker × Poll :=
  let old := m.senders stream.sender
  match old.queue.recv stream.receiver with
  | (queue, .ready p) =>
      ({ m with senders := Function.update m.senders stream.sender { old with queue } }, .ready p)
  | (queue, .lagged k) =>
      ({ m with
          senders := Function.update m.senders stream.sender { old with queue }
          droppedTotal := Function.update m.droppedTotal stream.topicLabel
            (m.droppedTotal stream.topicLabel + k) }, .lagged k)
  | (_, .empty) =>
      if m.topics.get stream.topicLabel = some stream.sender then (m, .pending) else (m, .finished)

def dropStream (m : MemoryBroker) (stream : MemoryStream) : MemoryBroker :=
  let old := m.senders stream.sender
  { m with
    senders := Function.update m.senders stream.sender
      { old with queue := old.queue.detach stream.receiver } }

def unread (m : MemoryBroker) (stream : MemoryStream) : List Publication :=
  (m.senders stream.sender).queue.unread stream.receiver

/-- The stream's receiver is attached to the sender that publishers of its topic find. -/
structure Live (m : MemoryBroker) (stream : MemoryStream) : Prop where
  stored : m.topics.get stream.topicLabel = some stream.sender
  attached : (m.senders stream.sender).queue.attached stream.receiver

/-- Bookkeeping kept by every call: stored senders carry their topic and were
allocated, and so was every attached receiver. -/
structure Wf (m : MemoryBroker) : Prop where
  topic : ∀ t sender, m.topics.get t = some sender → (m.senders sender).topic = t
  allocated : ∀ t sender, m.topics.get t = some sender → sender < m.nextSender
  receivers : ∀ sender r, (m.senders sender).queue.attached r → r < m.nextReceiver

def broker : Broker MemoryBroker MemoryStream where
  subscribe := subscribe
  publish := publish
  next := next
  dropStream := dropStream

theorem withCapacity_wf (capacity : Nat) : (withCapacity capacity).Wf := by
  refine ⟨?_, ?_, ?_⟩
  · intro t sender h
    simp [withCapacity] at h
  · intro t sender h
    simp [withCapacity] at h
  · intro sender r h
    simp [withCapacity, Broadcast.attached, Broadcast.channel] at h

variable {m : MemoryBroker} {stream : MemoryStream}

theorem Live.receiver_lt (wf : m.Wf) (h : m.Live stream) :
    stream.receiver < m.nextReceiver := wf.receivers _ _ h.attached

theorem senderFor_eq_orInsert (m : MemoryBroker) (topic : String) :
    m.senderFor topic = m.orInsert topic := by
  unfold senderFor
  cases found : m.topics.get topic with
  | none => rfl
  | some sender => simp only [orInsert, found]

theorem orInsert_stored (m : MemoryBroker) (topic : String) :
    (m.orInsert topic).1.topics.get topic = some (m.orInsert topic).2 := by
  unfold orInsert
  cases found : m.topics.get topic with
  | none => simp
  | some sender => simpa using found

theorem orInsert_wf (wf : m.Wf) (topic : String) : (m.orInsert topic).1.Wf := by
  unfold orInsert
  cases found : m.topics.get topic with
  | some sender => exact wf
  | none =>
      refine ⟨?_, ?_, ?_⟩
      · intro t sender h
        simp only [DashMap.get_put] at h
        split at h
        · next same =>
            cases h
            simp [same]
        · have old := wf.allocated t sender h
          simp only [Function.update_of_ne (Nat.ne_of_lt old)]
          exact wf.topic t sender h
      · intro t sender h
        simp only [DashMap.get_put] at h
        split at h
        · cases h
          exact Nat.lt_succ_self _
        · exact Nat.lt_succ_of_lt (wf.allocated t sender h)
      · intro sender r h
        by_cases fresh : sender = m.nextSender
        · subst fresh
          simp [Broadcast.attached, Broadcast.channel] at h
        · simp only [Function.update_of_ne fresh] at h
          exact wf.receivers sender r h

theorem orInsert_live (wf : m.Wf) (topic : String) (h : m.Live stream) :
    (m.orInsert topic).1.Live stream ∧ (m.orInsert topic).1.unread stream = m.unread stream := by
  unfold orInsert
  cases found : m.topics.get topic with
  | some sender => exact ⟨h, rfl⟩
  | none =>
      have old := wf.allocated _ _ h.stored
      have other : stream.topicLabel ≠ topic := by
        intro same
        rw [← same, h.stored] at found
        cases found
      refine ⟨⟨?_, ?_⟩, ?_⟩
      · simpa only [DashMap.get_put_ne _ _ other] using h.stored
      · simpa only [Function.update_of_ne (Nat.ne_of_lt old)] using h.attached
      · simp only [unread, Function.update_of_ne (Nat.ne_of_lt old)]

theorem attach_wf (wf : m.Wf) (sender : Nat) : (m.attach sender).1.Wf := by
  refine ⟨?_, ?_, ?_⟩
  · intro t s h
    have same := wf.topic t s h
    by_cases eq : s = sender
    · subst eq
      simpa [attach] using same
    · simpa [attach, Function.update_of_ne eq] using same
  · exact wf.allocated
  · intro s r h
    by_cases eq : s = sender
    · subst eq
      simp only [attach, Function.update_self, Broadcast.subscribe_attached] at h
      rcases h with rfl | old
      · exact Nat.lt_succ_self _
      · exact Nat.lt_succ_of_lt (wf.receivers s r old)
    · simp only [attach, Function.update_of_ne eq] at h
      exact Nat.lt_succ_of_lt (wf.receivers s r h)

theorem attach_live (wf : m.Wf) (sender : Nat) (h : m.Live stream) :
    (m.attach sender).1.Live stream ∧ (m.attach sender).1.unread stream = m.unread stream := by
  have older := Nat.ne_of_lt (h.receiver_lt wf)
  by_cases eq : stream.sender = sender
  · subst eq
    refine ⟨⟨h.stored, ?_⟩, ?_⟩
    · simp only [attach, Function.update_self, Broadcast.subscribe_attached]
      exact Or.inr h.attached
    · simp only [unread, attach, Function.update_self, Broadcast.subscribe_unread_ne _ older]
  · refine ⟨⟨h.stored, ?_⟩, ?_⟩
    · simpa only [attach, Function.update_of_ne eq] using h.attached
    · simp only [unread, attach, Function.update_of_ne eq]

theorem subscribe_ok (m : MemoryBroker) (topic : String) :
    ∃ stream, (m.subscribe topic).2 = .ok stream := ⟨_, rfl⟩

/-- One subscribe call: a live stream with nothing to read, and no other stream moves. -/
structure Subscribes (m : MemoryBroker) (topic : String) (m' : MemoryBroker)
    (stream : MemoryStream) : Prop where
  wf : m'.Wf
  label : stream.topicLabel = topic
  fresh : stream.receiver = m.nextReceiver
  live : m'.Live stream
  empty : m'.unread stream = []
  others : ∀ other, m.Live other → m'.Live other ∧ m'.unread other = m.unread other
  next : m'.nextReceiver = m.nextReceiver + 1

theorem subscribe_subscribes (wf : m.Wf) (topic : String) :
    ∃ stream, (m.subscribe topic).2 = .ok stream ∧
      Subscribes m topic (m.subscribe topic).1 stream := by
  have inserted := orInsert_wf wf topic
  have count : (m.orInsert topic).1.nextReceiver = m.nextReceiver := by
    unfold orInsert
    split <;> rfl
  refine ⟨⟨topic, (m.orInsert topic).2, m.nextReceiver⟩, ?_, ?_, rfl, rfl, ⟨?_, ?_⟩, ?_, ?_, ?_⟩
  · simp only [subscribe, senderFor_eq_orInsert, attach, count]
  · simpa only [subscribe, senderFor_eq_orInsert] using attach_wf inserted _
  · simpa only [subscribe, senderFor_eq_orInsert, attach] using m.orInsert_stored topic
  · simp only [subscribe, senderFor_eq_orInsert, attach, Function.update_self, count,
      Broadcast.subscribe_attached, true_or]
  · simp only [subscribe, senderFor_eq_orInsert, attach, unread, Function.update_self, count,
      Broadcast.subscribe_unread_self]
  · intro other h
    have first := orInsert_live wf topic h
    have second := attach_live inserted (m.orInsert topic).2 first.1
    simp only [subscribe, senderFor_eq_orInsert]
    exact ⟨second.1, second.2.trans first.2⟩
  · simp only [subscribe, senderFor_eq_orInsert, attach, count]

theorem removeIf_wf (wf : m.Wf) (topic : String) : (m.removeIf topic).Wf := by
  unfold removeIf
  split
  · exact wf
  · split
    · refine ⟨?_, ?_, wf.receivers⟩
      · intro t s h
        rw [DashMap.get_remove] at h
        split at h
        · cases h
        · exact wf.topic t s h
      · intro t s h
        rw [DashMap.get_remove] at h
        split at h
        · cases h
        · exact wf.allocated t s h
    · exact wf

/-- Reaping looks at the stored sender, so it never takes the sender of a live stream. -/
theorem removeIf_live (topic : String) (h : m.Live stream) : (m.removeIf topic).Live stream := by
  unfold removeIf
  cases found : m.topics.get topic with
  | none => exact h
  | some sender =>
      dsimp only
      split
      · next idle =>
          refine ⟨?_, h.attached⟩
          have other : stream.topicLabel ≠ topic := by
            intro same
            rw [← same, h.stored] at found
            cases found
            exact Broadcast.receiverCount_ne_zero h.attached idle
          simpa only [DashMap.get_remove_ne _ other] using h.stored
      · exact h

theorem removeIf_senders (m : MemoryBroker) (topic : String) :
    (m.removeIf topic).senders = m.senders ∧
      (m.removeIf topic).nextReceiver = m.nextReceiver := by
  unfold removeIf
  split
  · exact ⟨rfl, rfl⟩
  · split <;> exact ⟨rfl, rfl⟩

def pushAt (m : MemoryBroker) (sender : Nat) (p : Publication) : MemoryBroker :=
  { m with
    senders := Function.update m.senders sender
      { m.senders sender with queue := (m.senders sender).queue.push p } }

theorem send_cases (m : MemoryBroker) (sender : Nat) (p : Publication) :
    m.send sender p = some (m.pushAt sender p) ∧ (m.senders sender).queue.receiverCount ≠ 0 ∨
      m.send sender p = none ∧ (m.senders sender).queue.receiverCount = 0 := by
  by_cases idle : (m.senders sender).queue.receiverCount = 0
  · exact .inr ⟨by simp [send, Broadcast.send, idle], idle⟩
  · exact .inl ⟨by simp [send, Broadcast.send, idle, pushAt], idle⟩

theorem pushAt_wf (wf : m.Wf) (sender : Nat) (p : Publication) :
    (m.pushAt sender p).Wf := by
  refine ⟨?_, wf.allocated, ?_⟩
  · intro t s h
    have same := wf.topic t s h
    by_cases eq : s = sender
    · subst eq
      simpa [pushAt] using same
    · simpa [pushAt, Function.update_of_ne eq] using same
  · intro s r h
    by_cases eq : s = sender
    · subst eq
      simp only [pushAt, Function.update_self, Broadcast.push_attached] at h
      exact wf.receivers s r h
    · simp only [pushAt, Function.update_of_ne eq] at h
      exact wf.receivers s r h

theorem pushAt_live (sender : Nat) (p : Publication) (h : m.Live stream) :
    (m.pushAt sender p).Live stream ∧ (m.pushAt sender p).unread stream =
      m.unread stream ++ (if stream.sender = sender then [p] else []) := by
  by_cases eq : stream.sender = sender
  · subst eq
    refine ⟨⟨h.stored, ?_⟩, ?_⟩
    · simpa only [pushAt, Function.update_self, Broadcast.push_attached] using h.attached
    · simp only [unread, pushAt, Function.update_self, Broadcast.push_unread _ _ h.attached, if_true]
  · refine ⟨⟨h.stored, ?_⟩, ?_⟩
    · simpa only [pushAt, Function.update_of_ne eq] using h.attached
    · simp only [unread, pushAt, Function.update_of_ne eq, if_neg eq, List.append_nil]

structure Publishes (m : MemoryBroker) (topic : String) (p : Publication) (m' : MemoryBroker) :
    Prop where
  wf : m'.Wf
  streams : ∀ stream, m.Live stream → m'.Live stream ∧
    m'.unread stream = m.unread stream ++ (if stream.topicLabel = topic then [p] else [])
  next : m'.nextReceiver = m.nextReceiver

theorem publish_publishes (wf : m.Wf) (topic : String) (p : Publication) :
    (m.publish topic p).2 = .ok () ∧ Publishes m topic p (m.publish topic p).1 := by
  unfold publish
  cases found : m.topics.get topic with
  | none =>
      refine ⟨rfl, wf, ?_, rfl⟩
      intro stream h
      have other : stream.topicLabel ≠ topic := by
        intro same
        rw [← same, h.stored] at found
        cases found
      simp [h, other]
  | some sender =>
      have here : ∀ stream, m.Live stream → (stream.sender = sender ↔ stream.topicLabel = topic) := by
        intro stream h
        constructor
        · intro same
          have first := wf.topic _ _ h.stored
          have second := wf.topic _ _ found
          rw [← first, same, second]
        · intro same
          have stored := h.stored
          rw [same, found] at stored
          exact (Option.some.inj stored).symm
      rcases m.send_cases sender p with ⟨sent, -⟩ | ⟨sent, idle⟩
      · simp only [sent]
        refine ⟨trivial, pushAt_wf wf sender p, ?_, rfl⟩
        intro stream h
        have moved := pushAt_live sender p h
        simpa only [here stream h] using moved
      · simp only [sent]
        refine ⟨trivial, removeIf_wf wf topic, ?_, (m.removeIf_senders topic).2⟩
        intro stream h
        have other : stream.topicLabel ≠ topic := by
          intro same
          have attached := h.attached
          rw [(here stream h).mpr same] at attached
          exact Broadcast.receiverCount_ne_zero attached idle
        refine ⟨removeIf_live topic h, ?_⟩
        simp only [unread, (m.removeIf_senders topic).1, if_neg other, List.append_nil]

structure Polls (m : MemoryBroker) (stream : MemoryStream) (m' : MemoryBroker) : Prop where
  wf : m'.Wf
  live : ∀ other, m.Live other → m'.Live other
  others : ∀ other, other.receiver ≠ stream.receiver → m'.unread other = m.unread other
  next : m'.nextReceiver = m.nextReceiver
  topics : m'.topics = m.topics

theorem setQueue_polls {m m' : MemoryBroker} (wf : m.Wf) {queue : Broadcast Publication}
    (attached : ∀ r, queue.attached r → (m.senders stream.sender).queue.attached r)
    (kept : ∀ r, r ≠ stream.receiver →
      queue.unread r = (m.senders stream.sender).queue.unread r) (senders : m'.senders =
      Function.update m.senders stream.sender { m.senders stream.sender with queue })
    (topics : m'.topics = m.topics) (sender : m'.nextSender = m.nextSender)
    (next : m'.nextReceiver = m.nextReceiver) :
    m'.Wf ∧ ∀ other, other.receiver ≠ stream.receiver → m'.unread other = m.unread other := by
  refine ⟨⟨?_, ?_, ?_⟩, ?_⟩
  · intro t s h
    rw [topics] at h
    have same := wf.topic t s h
    rw [senders]
    by_cases eq : s = stream.sender
    · subst eq
      simpa using same
    · simpa [Function.update_of_ne eq] using same
  · intro t s h
    rw [topics] at h
    rw [sender]
    exact wf.allocated t s h
  · intro s r h
    rw [senders] at h
    rw [next]
    by_cases eq : s = stream.sender
    · subst eq
      simp only [Function.update_self] at h
      exact wf.receivers _ r (attached r h)
    · simp only [Function.update_of_ne eq] at h
      exact wf.receivers s r h
  · intro other different
    simp only [unread, senders]
    by_cases eq : other.sender = stream.sender
    · simp only [eq, Function.update_self]
      exact kept _ different
    · simp only [Function.update_of_ne eq]

def setQueue (m : MemoryBroker) (sender : Nat) (queue : Broadcast Publication) : MemoryBroker :=
  { m with senders := Function.update m.senders sender { m.senders sender with queue } }

/-- What a poll can come to. -/
inductive Polled (m : MemoryBroker) (stream : MemoryStream) : MemoryBroker × Poll → Prop
  | ready {queue : Broadcast Publication} {p : Publication}
      (received : (m.senders stream.sender).queue.recv stream.receiver = (queue, .ready p)) :
      Polled m stream (m.setQueue stream.sender queue, .ready p)
  | lagged {queue : Broadcast Publication} {k : Nat}
      (received : (m.senders stream.sender).queue.recv stream.receiver = (queue, .lagged k)) :
      Polled m stream
        ({ m.setQueue stream.sender queue with
            droppedTotal := Function.update m.droppedTotal stream.topicLabel
              (m.droppedTotal stream.topicLabel + k) }, .lagged k)
  | pending : Polled m stream (m, .pending)
  | finished : Polled m stream (m, .finished)

theorem next_polled (m : MemoryBroker) (stream : MemoryStream) :
    Polled m stream (m.next stream) := by
  rcases received : (m.senders stream.sender).queue.recv stream.receiver with ⟨queue, outcome⟩
  cases outcome with
  | ready p =>
      simp only [next, received]
      exact .ready received
  | lagged k =>
      simp only [next, received]
      exact .lagged received
  | empty =>
      simp only [next, received]
      split
      · exact .pending
      · exact .finished

theorem next_polls (wf : m.Wf) (stream : MemoryStream) :
    Polls m stream (m.next stream).1 := by
  have frame := (m.senders stream.sender).queue.recv_frame stream.receiver
  have moved : ∀ m' : MemoryBroker, m'.topics = m.topics → m'.nextSender = m.nextSender →
      m'.nextReceiver = m.nextReceiver →
      m'.senders = Function.update m.senders stream.sender
        { m.senders stream.sender with
          queue := ((m.senders stream.sender).queue.recv stream.receiver).1 } →
      Polls m stream m' := by
    intro m' topics sender next senders
    have kept := setQueue_polls wf (fun r h => (frame.2.1 r).mp h) frame.2.2 senders topics sender next
    refine ⟨kept.1, ?_, kept.2, next, topics⟩
    intro other h
    refine ⟨by rw [topics]; exact h.stored, ?_⟩
    rw [senders]
    by_cases eq : other.sender = stream.sender
    · rw [eq, Function.update_self]
      exact (frame.2.1 _).mpr (eq ▸ h.attached)
    · rw [Function.update_of_ne eq]
      exact h.attached
  have still : Polls m stream m := ⟨wf, fun _ h => h, fun _ _ => rfl, rfl, rfl⟩
  have polled := m.next_polled stream
  generalize m.next stream = out at polled ⊢
  cases polled with
  | ready received =>
      rw [received] at moved
      exact moved _ rfl rfl rfl rfl
  | lagged received =>
      rw [received] at moved
      exact moved _ rfl rfl rfl rfl
  | pending => exact still
  | finished => exact still

theorem next_moves (m : MemoryBroker) (stream : MemoryStream) :
    (m.next stream).2.Moves (m.unread stream) ((m.next stream).1.unread stream) := by
  have own := (m.senders stream.sender).queue.recv_moves stream.receiver
  rcases received : (m.senders stream.sender).queue.recv stream.receiver with ⟨queue, outcome⟩
  rw [received] at own
  cases outcome with
  | ready p => simpa [next, received, Poll.Moves, unread, Broadcast.Moves] using own
  | lagged k => simpa [next, received, Poll.Moves, unread, Broadcast.Moves] using own
  | empty =>
      simp only [next, received]
      split <;> exact ⟨own.1, own.1⟩

theorem next_still {m b : MemoryBroker} {outcome : Poll} (h : m.next stream = (b, outcome))
    (nothing : outcome = .pending ∨ outcome = .finished) :
    b = m := by
  have polled := m.next_polled stream
  rw [h] at polled
  cases polled with
  | ready received => rcases nothing with same | same <;> cases same
  | lagged received => rcases nothing with same | same <;> cases same
  | pending => rfl
  | finished => rfl

theorem next_not_finished (live : m.Live stream) :
    (m.next stream).2 ≠ .finished := by
  rcases received : (m.senders stream.sender).queue.recv stream.receiver with ⟨queue, outcome⟩
  cases outcome with
  | ready p => simp [next, received]
  | lagged k => simp [next, received]
  | empty => simp [next, received, live.stored]

theorem dropStream_drops (wf : m.Wf) (stream : MemoryStream) :
    (m.dropStream stream).Wf ∧
      (∀ other, other.receiver ≠ stream.receiver → m.Live other →
        (m.dropStream stream).Live other) ∧
      (∀ other, other.receiver ≠ stream.receiver →
        (m.dropStream stream).unread other = m.unread other) ∧
      (m.dropStream stream).nextReceiver = m.nextReceiver := by
  have kept : (m.dropStream stream).Wf ∧ ∀ other, other.receiver ≠ stream.receiver →
      (m.dropStream stream).unread other = m.unread other :=
    setQueue_polls wf (fun r h => ((Broadcast.detach_attached _).mp h).2)
      (fun r different => Broadcast.detach_unread_ne _ different) rfl rfl rfl rfl
  refine ⟨kept.1, ?_, kept.2, rfl⟩
  intro other different h
  refine ⟨h.stored, ?_⟩
  by_cases eq : other.sender = stream.sender
  · simp only [dropStream, eq, Function.update_self, Broadcast.detach_attached]
    exact ⟨different, eq ▸ h.attached⟩
  · simpa only [dropStream, Function.update_of_ne eq] using h.attached

end MemoryBroker
end Cherenkov
