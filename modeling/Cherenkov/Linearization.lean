import Cherenkov.Library.Atomic
import Cherenkov.StreamAccounts
import Cherenkov.ConcurrentBroker

/-! What the in-process broker is for: a bus on which a published item is appended at once to every
stream that is open on its topic. Calls of the broker take several steps on its maps and channels,
and they interleave; but as long as a sender is not reaped while a call is about to subscribe to it,
no client can tell the broker from the bus. A subscribe call takes effect when it attaches its
receiver, a publish call when its send goes through, or when the topic turns out to have nobody on
it: that may be the moment when another call reaps it. -/

namespace Cherenkov

/-- Streams by number, each with its topic and what it has still to yield. -/
structure Bus (θ α : Type) where
  ring : Nat
  streams : Nat → Option (θ × List α)
  next : Nat

inductive BusOp (θ α : Type) where
  | subscribe (topic : θ)
  | publish (topic : θ) (item : α)
  | poll (stream : Nat)
  | drop (stream : Nat)
  deriving DecidableEq

inductive BusAnswer (α : Type) where
  | opened (stream : Nat)
  | done
  | ready (item : α)
  | lagged (skipped : Nat)
  | pending
  | ended
  deriving DecidableEq

namespace Bus

variable {θ α : Type} [DecidableEq θ]

def deliver (topic : θ) (item : α) (queue : θ × List α) : θ × List α :=
  if queue.1 = topic then (queue.1, queue.2 ++ [item]) else queue

/-- Take the oldest item; a stream that is too far behind skips to what the ring still has. -/
def take (ring : Nat) (items : List α) : List α × BusAnswer α :=
  if ring < items.length then (items.drop (items.length - ring), .lagged (items.length - ring))
  else
    match items with
    | [] => ([], .pending)
    | item :: rest => (rest, .ready item)

theorem take_behind {ring : Nat} {items : List α} (far : ring < items.length) :
    take ring items = (items.drop (items.length - ring), .lagged (items.length - ring)) := if_pos far

theorem take_cons {ring : Nat} {item : α} {rest : List α} (near : ¬ring < (item :: rest).length) :
    take ring (item :: rest) = (rest, .ready item) := if_neg near

theorem take_nil (ring : Nat) : take ring ([] : List α) = ([], .pending) :=
  if_neg (Nat.not_lt_zero ring)

def apply (bus : Bus θ α) : BusOp θ α → Bus θ α × BusAnswer α
  | .subscribe topic =>
      ({ bus with
          streams := Function.update bus.streams bus.next (some (topic, []))
          next := bus.next + 1 }, .opened bus.next)
  | .publish topic item =>
      ({ bus with streams := fun r => (bus.streams r).map (deliver topic item) }, .done)
  | .poll r =>
      match bus.streams r with
      | none => (bus, .pending)
      | some (topic, items) =>
          ({ bus with
              streams := Function.update bus.streams r (some (topic, (take bus.ring items).1)) },
            (take bus.ring items).2)
  | .drop r => ({ bus with streams := Function.update bus.streams r none }, .done)

theorem publish_unheard {bus : Bus θ α} {topic : θ}
    (unheard : ∀ r label items, bus.streams r = some (label, items) → label ≠ topic) (item : α) :
    bus.apply (.publish topic item) = (bus, .done) := by
  have same : (fun r => (bus.streams r).map (deliver topic item)) = bus.streams := by
    funext r
    cases found : bus.streams r with
    | none => rfl
    | some queue =>
        obtain ⟨label, items⟩ := queue
        simp [deliver, unheard r label items found]
  simp only [apply, same]

end Bus

abbrev BusEvent := Atomic.Event (BusOp String Publication) (BusAnswer Publication)

abbrev BusState :=
  Atomic.State (Bus String Publication) (BusOp String Publication) (BusAnswer Publication)

def Poll.answer : Poll → BusAnswer Publication
  | .ready p => .ready p
  | .lagged k => .lagged k
  | .pending => .pending
  | .finished => .ended

def BrokerEvent.answered : BrokerEvent → Option BusEvent
  | .subscribed n stream => some (.answered n (.subscribe stream.topicLabel) (.opened stream.receiver))
  | .published n topic p => some (.answered n (.publish topic p) .done)
  | _ => none

namespace ConcurrentBroker

def sees (s : ConcurrentBroker) : BrokerLabel → List BusEvent
  | .subscribe topic => [.asked s.nextCall (.subscribe topic)]
  | .publish topic p => [.asked s.nextCall (.publish topic p)]
  | .advance n =>
      ((s.calls n).bind fun c => (act s.broker n c).2.getRight?.bind BrokerEvent.answered).toList
  | .poll stream => [.instant (.poll stream.receiver) (s.broker.next stream).2.answer]
  | .drop stream => [.instant (.drop stream.receiver) .done]

def queues (s : ConcurrentBroker) (r : Nat) : Option (String × List Publication) :=
  (s.streams.find? fun stream => stream.receiver = r).map fun stream =>
    (stream.topicLabel, s.broker.unread stream)

def bus (s : ConcurrentBroker) : Bus String Publication :=
  ⟨nextPowerOfTwo s.broker.capacity, s.queues, s.broker.nextReceiver⟩

/-- Whether a call has taken effect. A send to a sender that is no longer stored comes after
the topic was found to be empty. -/
def phase (b : MemoryBroker) :
    BrokerCall → Atomic.Call (BusOp String Publication) (BusAnswer Publication)
  | .lookup topic | .insert topic | .attach topic _ => .asked (.subscribe topic)
  | .find topic p => .asked (.publish topic p)
  | .send topic p sender =>
      if b.topics.get topic = some sender then .asked (.publish topic p)
      else .settled (.publish topic p) .done
  | .reap topic p => .settled (.publish topic p) .done

def view (s : ConcurrentBroker) (log : List BusEvent) : BusState :=
  ⟨s.bus, fun n => (s.calls n).map (phase s.broker), s.nextCall, log⟩

variable {s t : ConcurrentBroker} {b : MemoryBroker} {n : Nat} {c d : BrokerCall} {l : BrokerLabel}
  {out : MemoryBroker × (BrokerCall ⊕ BrokerEvent)}

theorem Acts.senders (acts : Acts b n c out) {sender : Nat} (old : sender < b.nextSender) :
    (out.1.senders sender).topic = (b.senders sender).topic ∧
      (out.1.senders sender).queue.ring = (b.senders sender).queue.ring := by
  have updated : ∀ (other : Nat) (queue : Broadcast Publication),
      queue.ring = (b.senders other).queue.ring →
      (Function.update b.senders other { b.senders other with queue } sender).topic =
          (b.senders sender).topic ∧
        (Function.update b.senders other { b.senders other with queue } sender).queue.ring =
          (b.senders sender).queue.ring := by
    intro other queue ring
    by_cases same : sender = other
    · subst same
      rw [Function.update_self]
      exact ⟨rfl, ring⟩
    · rw [Function.update_of_ne same]
      exact ⟨rfl, rfl⟩
  cases acts with
  | inserted topic =>
      simp only [MemoryBroker.orInsert]
      split
      · exact ⟨rfl, rfl⟩
      · simp only [Function.update_of_ne (Nat.ne_of_lt old), and_self]
  | attached topic other => exact updated other _ rfl
  | sent topic p other => exact updated other _ rfl
  | reaped topic p => simp only [(b.removeIf_senders topic).1, and_self]
  | _ => exact ⟨rfl, rfl⟩

theorem Acts.nextSender_le (acts : Acts b n c out) : b.nextSender ≤ out.1.nextSender := by
  cases acts with
  | inserted topic =>
      simp only [MemoryBroker.orInsert]
      split
      · exact Nat.le_refl _
      · exact Nat.le_succ _
  | reaped topic p =>
      simp only [MemoryBroker.removeIf]
      (repeat' split) <;> exact Nat.le_refl _
  | _ => exact Nat.le_refl _

theorem Acts.capacity (acts : Acts b n c out) : out.1.capacity = b.capacity := by
  cases acts with
  | inserted topic | reaped topic p =>
      simp only [MemoryBroker.orInsert, MemoryBroker.removeIf]
      (repeat' split) <;> rfl
  | _ => rfl

theorem Acts.topics (acts : Acts b n c out) {topic : String} {sender : Nat}
    (stored : out.1.topics.get topic = some sender) :
    b.topics.get topic = some sender ∨ sender = b.nextSender ∧
      (out.1.senders sender).queue.ring = nextPowerOfTwo b.capacity := by
  cases acts with
  | inserted t =>
      simp only [MemoryBroker.orInsert] at stored ⊢
      cases found : b.topics.get t with
      | some other =>
          rw [found] at stored
          exact .inl stored
      | none =>
          simp only [found, DashMap.get_put] at stored ⊢
          split at stored
          · cases stored
            rw [Function.update_self]
            exact .inr ⟨rfl, rfl⟩
          · exact .inl stored
  | reaped t p =>
      simp only [MemoryBroker.removeIf] at stored
      (repeat' split at stored)
      · exact .inl stored
      · rw [DashMap.get_remove] at stored
        split at stored
        · cases stored
        · exact .inl stored
      · exact .inl stored
  | _ => exact .inl stored

theorem Acts.listens (acts : Acts b n c out) {sender r : Nat} (listens : out.1.Listens sender r) :
    b.Listens sender r ∨ (∃ topic, c = .attach topic sender) ∧ r = b.nextReceiver := by
  cases acts with
  | inserted topic => exact .inl (MemoryBroker.orInsert_listens b topic listens)
  | attached topic other =>
      rcases MemoryBroker.attach_listens b other listens with ⟨rfl, fresh⟩ | old
      · exact .inr ⟨⟨topic, rfl⟩, fresh⟩
      · exact .inl old
  | sent topic p other =>
      left
      by_cases same : sender = other
      · subst same
        simpa only [MemoryBroker.Listens, MemoryBroker.pushAt, Function.update_self,
          Broadcast.push_attached] using listens
      · simpa only [MemoryBroker.Listens, MemoryBroker.pushAt, Function.update_of_ne same] using
          listens
  | reaped topic p =>
      rw [MemoryBroker.Listens, (b.removeIf_senders topic).1] at listens
      exact .inl listens
  | _ => exact .inl listens

theorem next_senders (b : MemoryBroker) (stream : MemoryStream) :
    (b.next stream).1.topics = b.topics ∧ (b.next stream).1.nextSender = b.nextSender ∧
      (b.next stream).1.capacity = b.capacity ∧ ∀ sender,
        ((b.next stream).1.senders sender).topic = (b.senders sender).topic ∧
          ((b.next stream).1.senders sender).queue.ring = (b.senders sender).queue.ring := by
  have moved : ∀ {queue : Broadcast Publication} {outcome : Recv Publication},
      (b.senders stream.sender).queue.recv stream.receiver = (queue, outcome) → ∀ sender,
      ((b.setQueue stream.sender queue).senders sender).topic = (b.senders sender).topic ∧
        ((b.setQueue stream.sender queue).senders sender).queue.ring =
          (b.senders sender).queue.ring := by
    intro queue outcome received sender
    have ring := (b.senders stream.sender).queue.recv_ring stream.receiver
    rw [received] at ring
    simp only [MemoryBroker.setQueue]
    by_cases same : sender = stream.sender
    · subst same
      rw [Function.update_self]
      exact ⟨rfl, ring⟩
    · rw [Function.update_of_ne same]
      exact ⟨rfl, rfl⟩
  have polled := b.next_polled stream
  generalize b.next stream = out at polled ⊢
  cases polled with
  | ready received => exact ⟨rfl, rfl, rfl, moved received⟩
  | lagged received => exact ⟨rfl, rfl, rfl, moved received⟩
  | pending => exact ⟨rfl, rfl, rfl, fun _ => ⟨rfl, rfl⟩⟩
  | finished => exact ⟨rfl, rfl, rfl, fun _ => ⟨rfl, rfl⟩⟩

structure Linear (s : ConcurrentBroker) : Prop where
  anchored : s.Anchored
  attended : ∀ sender r, s.broker.Listens sender r →
    ∃ stream ∈ s.streams, stream.sender = sender ∧ stream.receiver = r
  sending : ∀ m topic p sender, s.calls m = some (.send topic p sender) →
    sender < s.broker.nextSender ∧ (s.broker.senders sender).topic = topic
  rings : ∀ topic sender, s.broker.topics.get topic = some sender →
    (s.broker.senders sender).queue.ring = nextPowerOfTwo s.broker.capacity

theorem boot_linear (capacity : Nat) : (boot capacity).Linear := by
  refine ⟨boot_anchored capacity, ?_, ?_, ?_⟩
  · intro sender r listens
    simp [boot, MemoryBroker.Listens, MemoryBroker.withCapacity, Broadcast.attached,
      Broadcast.channel] at listens
  · intro m topic p sender called
    cases called
  · intro topic sender stored
    simp [boot, MemoryBroker.withCapacity] at stored

theorem advance_linear (linear : s.Linear) (at_ : s.calls n = some c)
    (apart : ReapApart s (.advance n)) : (s.after n (act s.broker n c)).Linear := by
  have wf := linear.anchored.wf
  refine ⟨act_anchored linear.anchored at_ apart, ?_, ?_, ?_⟩
  · intro sender r listens
    rcases (acts s.broker n c).listens listens with old | ⟨⟨topic, rfl⟩, rfl⟩
    · obtain ⟨stream, opened, here⟩ := linear.attended sender r old
      exact ⟨stream, List.mem_append_right _ opened, here⟩
    · exact ⟨⟨topic, sender, s.broker.nextReceiver⟩, List.mem_cons_self, rfl, rfl⟩
  · intro m topic p sender called
    have issued : sender < s.broker.nextSender ∧ (s.broker.senders sender).topic = topic := by
      rcases after_calls_some called with ⟨-, goes⟩ | ⟨-, old⟩
      · have stored := act_send goes
        exact ⟨wf.allocated topic sender stored, wf.topic topic sender stored⟩
      · exact linear.sending m topic p sender old
    exact ⟨Nat.lt_of_lt_of_le issued.1 (acts s.broker n c).nextSender_le,
      ((acts s.broker n c).senders issued.1).1.trans issued.2⟩
  · intro topic sender stored
    have capacity : (s.after n (act s.broker n c)).broker.capacity = s.broker.capacity :=
      (acts s.broker n c).capacity
    rw [capacity]
    rcases (acts s.broker n c).topics stored with old | ⟨-, ring⟩
    · exact ((acts s.broker n c).senders (wf.allocated topic sender old)).2.trans
        (linear.rings topic sender old)
    · exact ring

theorem step_linear (linear : s.Linear) (apart : ReapApart s l) (h : s.step l = some t) :
    t.Linear := by
  have anchored := step_anchored linear.anchored apart h
  cases l with
  | subscribe topic =>
      cases h
      refine ⟨anchored, linear.attended, ?_, linear.rings⟩
      intro m t p sender called
      simp only [begin, Function.update_apply] at called
      split at called
      · cases called
      · exact linear.sending m t p sender called
  | publish topic q =>
      cases h
      refine ⟨anchored, linear.attended, ?_, linear.rings⟩
      intro m t p sender called
      simp only [begin, Function.update_apply] at called
      split at called
      · cases called
      · exact linear.sending m t p sender called
  | advance n =>
      obtain ⟨c, at_, rfl⟩ := Option.map_eq_some_iff.mp h
      exact advance_linear linear at_ apart
  | poll stream =>
      obtain ⟨-, b, outcome, polled, same, -⟩ := poll_cases h
      have kept := next_senders s.broker stream
      rw [polled] at kept
      obtain ⟨topics, nextSender, capacity, senders⟩ := kept
      dsimp only at topics capacity
      rw [same]
      refine ⟨same ▸ anchored, ?_, ?_, ?_⟩
      · intro sender r listens
        have before : (s.broker.next stream).1.Listens sender r := by
          rw [polled]
          exact listens
        exact linear.attended sender r (MemoryBroker.next_listens before)
      · intro m topic p sender called
        obtain ⟨old, label⟩ := linear.sending m topic p sender called
        exact ⟨Nat.lt_of_lt_of_eq old nextSender.symm, (senders sender).1.trans label⟩
      · intro topic sender stored
        simp only [topics] at stored
        simp only [capacity]
        exact (senders sender).2.trans (linear.rings topic sender stored)
  | drop stream =>
      simp only [step] at h
      split at h
      · cases h
        have kept : ∀ sender, ((s.broker.dropStream stream).senders sender).topic =
            (s.broker.senders sender).topic ∧
            ((s.broker.dropStream stream).senders sender).queue.ring =
              (s.broker.senders sender).queue.ring := by
          intro sender
          simp only [MemoryBroker.dropStream]
          by_cases same : sender = stream.sender
          · subst same
            rw [Function.update_self]
            exact ⟨rfl, rfl⟩
          · rw [Function.update_of_ne same]
            exact ⟨rfl, rfl⟩
        refine ⟨anchored, ?_, ?_, ?_⟩
        · intro sender r listens
          obtain ⟨before, other⟩ := MemoryBroker.dropStream_listens listens
          obtain ⟨x, opened, rfl, rfl⟩ := linear.attended sender r before
          refine ⟨x, List.mem_filter.mpr ⟨opened, decide_eq_true ?_⟩, rfl, rfl⟩
          intro same
          have stored := linear.anchored.apart x opened stream ‹_› same
          exact other (congrArg _ stored) same
        · intro m topic p sender called
          obtain ⟨old, label⟩ := linear.sending m topic p sender called
          exact ⟨old, (kept sender).1.trans label⟩
        · intro topic sender stored
          exact (kept sender).2.trans (linear.rings topic sender stored)
      · cases h

section Streams

variable {stream : MemoryStream} {topic : String} {p : Publication} {sender : Nat}

theorem queues_open (linear : s.Linear) (opened : stream ∈ s.streams) :
    s.queues stream.receiver = some (stream.topicLabel, s.broker.unread stream) := by
  cases found : s.streams.find? fun x => x.receiver = stream.receiver with
  | none =>
      have other := List.find?_eq_none.mp found stream opened
      simp at other
  | some x =>
      have same : x.receiver = stream.receiver := by simpa using List.find?_some found
      have own := linear.anchored.apart x (List.mem_of_find?_eq_some found) stream opened same
      simp only [queues, found, Option.map_some, own]

theorem queues_some {r : Nat} {items : List Publication} (found : s.queues r = some (topic, items)) :
    ∃ stream ∈ s.streams, stream.receiver = r ∧ stream.topicLabel = topic ∧
      s.broker.unread stream = items := by
  obtain ⟨stream, here, same⟩ := Option.map_eq_some_iff.mp found
  cases same
  exact ⟨stream, List.mem_of_find?_eq_some here, by simpa using List.find?_some here, rfl, rfl⟩

/-- What happens to the streams of the broker happens to those of the bus. -/
theorem queues_map {f : String × List Publication → String × List Publication}
    (streams : t.streams = s.streams)
    (moves : ∀ stream ∈ s.streams, (stream.topicLabel, t.broker.unread stream) =
      f (stream.topicLabel, s.broker.unread stream)) (r : Nat) :
    t.queues r = (s.queues r).map f := by
  unfold queues
  rw [streams]
  cases found : s.streams.find? fun stream => stream.receiver = r with
  | none => rfl
  | some stream =>
      simp only [Option.map_some, Option.some.injEq]
      exact moves stream (List.mem_of_find?_eq_some found)

theorem bus_still (streams : t.streams = s.streams) (capacity : t.broker.capacity = s.broker.capacity)
    (next : t.broker.nextReceiver = s.broker.nextReceiver)
    (unread : ∀ stream ∈ s.streams, t.broker.unread stream = s.broker.unread stream) :
    t.bus = s.bus := by
  have same : t.queues = s.queues := by
    funext r
    rw [queues_map (f := id) streams ?_ r, Option.map_id_fun]
    · rfl
    · intro stream opened
      rw [unread stream opened]
      rfl
  rw [bus, bus, same, capacity, next]

theorem unheard_of_idle (linear : s.Linear)
    (idle : ∀ sender, s.broker.topics.get topic = some sender →
      (s.broker.senders sender).queue.receiverCount = 0) (p : Publication) :
    s.bus.apply (.publish topic p) = (s.bus, .done) := by
  apply Bus.publish_unheard
  rintro r label items found rfl
  obtain ⟨stream, opened, -, rfl, -⟩ := queues_some found
  have live := linear.anchored.live stream opened
  exact Broadcast.receiverCount_ne_zero live.attached (idle _ live.stored)

theorem stored_of_busy (linear : s.Linear) (at_ : s.calls n = some (.send topic p sender))
    (busy : (s.broker.senders sender).queue.receiverCount ≠ 0) :
    s.broker.topics.get topic = some sender := by
  obtain ⟨r, attached⟩ := Broadcast.exists_attached busy
  obtain ⟨stream, opened, rfl, -⟩ := linear.attended sender r attached
  have live := linear.anchored.live stream opened
  have label := linear.anchored.wf.topic _ _ live.stored
  rw [(linear.sending n topic p _ at_).2] at label
  rw [label]
  exact live.stored

/-- A send that goes through is the publication of the bus. -/
theorem bus_pushAt (linear : s.Linear) (stored : s.broker.topics.get topic = some sender)
    (p : Publication) (streams : t.streams = s.streams)
    (broker : t.broker = s.broker.pushAt sender p) :
    t.bus = (s.bus.apply (.publish topic p)).1 := by
  have same : t.queues = fun r => (s.queues r).map (Bus.deliver topic p) := by
    funext r
    apply queues_map streams
    intro stream opened
    have live := linear.anchored.live stream opened
    rw [broker, (MemoryBroker.pushAt_live sender p live).2]
    have here : stream.sender = sender ↔ stream.topicLabel = topic := by
      constructor
      · rintro rfl
        rw [← linear.anchored.wf.topic _ _ live.stored, linear.anchored.wf.topic _ _ stored]
      · rintro rfl
        exact Option.some.inj (live.stored.symm.trans stored)
    by_cases listens : stream.topicLabel = topic
    · simp only [Bus.deliver, if_pos listens, if_pos (here.mpr listens)]
    · simp only [Bus.deliver, if_neg listens, if_neg (mt here.mp listens), List.append_nil]
  rw [bus, same, broker]
  rfl

theorem bus_attach (linear : s.Linear)
    (streams : t.streams = ⟨topic, sender, s.broker.nextReceiver⟩ :: s.streams)
    (broker : t.broker = (s.broker.attach sender).1) :
    t.bus = (s.bus.apply (.subscribe topic)).1 := by
  have same : t.queues = Function.update s.queues s.broker.nextReceiver (some (topic, [])) := by
    funext r
    unfold queues
    rw [streams, broker]
    by_cases own : r = s.broker.nextReceiver
    · subst own
      simp [MemoryBroker.unread, MemoryBroker.attach]
    · rw [Function.update_of_ne own, List.find?_cons_of_neg (by simpa using Ne.symm own)]
      cases found : s.streams.find? fun stream => stream.receiver = r with
      | none => rfl
      | some stream =>
          have live := linear.anchored.live stream (List.mem_of_find?_eq_some found)
          rw [Option.map_some, (MemoryBroker.attach_live linear.anchored.wf sender live).2]
          rfl
  rw [bus, same, broker]
  rfl

end Streams

/-- An operation of one call leaves the others where they are, unless it reaps the sender that
they are about to send to. -/
theorem act_phase (linear : s.Linear) {m : Nat} (called : s.calls m = some d)
    (busy : ∀ topic p sender q, d = .send topic p sender → c = .reap topic q →
      s.broker.topics.get topic = some sender → (s.broker.senders sender).queue.receiverCount ≠ 0) :
    phase (act s.broker n c).1 d = phase s.broker d := by
  cases d with
  | send topic p sender =>
      have same : (act s.broker n c).1.topics.get topic = some sender ↔
          s.broker.topics.get topic = some sender := by
        constructor
        · intro stored
          rcases (acts s.broker n _).topics stored with before | ⟨fresh, -⟩
          · exact before
          · exact absurd fresh (Nat.ne_of_lt (linear.sending m topic p sender called).1)
        · intro stored
          refine (acts s.broker n c).stored stored ?_
          rintro q rfl
          exact busy topic p sender q rfl rfl stored
      simp only [phase, same]
  | _ => rfl

theorem view_calls (linear : s.Linear)
    (busy : ∀ topic sender q, c = .reap topic q → s.broker.topics.get topic = some sender →
      (s.broker.senders sender).queue.receiverCount ≠ 0) :
    (fun m => ((s.after n (act s.broker n c)).calls m).map (phase (act s.broker n c).1)) =
      Function.update (fun m => (s.calls m).map (phase s.broker)) n
        ((act s.broker n c).2.getLeft?.map (phase (act s.broker n c).1)) := by
  funext m
  simp only [after]
  by_cases own : m = n
  · subst own
    rw [Function.update_self, Function.update_self]
  · rw [Function.update_of_ne own, Function.update_of_ne own]
    cases called : s.calls m with
    | none => rfl
    | some d =>
        simp only [Option.map_some]
        rw [act_phase linear called]
        intro topic p sender q _ reaps
        exact busy topic sender q reaps

section Advance

variable {log : List BusEvent}

theorem stutter_reaches (linear : s.Linear) {next : BrokerCall} (at_ : s.calls n = some c)
    (busy : ∀ topic sender q, c = .reap topic q → s.broker.topics.get topic = some sender →
      (s.broker.senders sender).queue.receiverCount ≠ 0)
    (goes : (act s.broker n c).2 = .inl next)
    (same : phase (act s.broker n c).1 next = phase s.broker c)
    (bus : (s.after n (act s.broker n c)).bus = s.bus) :
    Atomic.Reaches Bus.apply (s.view log) ((s.after n (act s.broker n c)).view log) := by
  have calls := view_calls (n := n) linear busy
  have still : Function.update (fun m => (s.calls m).map (phase s.broker)) n
      (some (phase s.broker c)) = fun m => (s.calls m).map (phase s.broker) := by
    rw [Function.update_eq_self_iff, at_, Option.map_some]
  rw [goes, Sum.getLeft?_inl, Option.map_some, same, still] at calls
  have equal : (s.after n (act s.broker n c)).view log = s.view log := by
    rw [view, view, bus]
    exact congrArg (fun calls => (⟨s.bus, calls, s.nextCall, log⟩ : BusState)) calls
  rw [equal]
  exact .refl _

theorem serve_reaches (linear : s.Linear) {op : BusOp String Publication} {e : BrokerEvent}
    (at_ : s.calls n = some c)
    (busy : ∀ topic sender q, c = .reap topic q → s.broker.topics.get topic = some sender →
      (s.broker.senders sender).queue.receiverCount ≠ 0)
    (asked : phase s.broker c = .asked op) (returns : (act s.broker n c).2 = .inr e)
    (answers : e.answered = some (.answered n op (s.bus.apply op).2))
    (bus : (s.after n (act s.broker n c)).bus = (s.bus.apply op).1) :
    Atomic.Reaches Bus.apply (s.view log)
      ((s.after n (act s.broker n c)).view (s.sees (.advance n) ++ log)) := by
  have calls := view_calls (n := n) linear busy
  rw [returns, Sum.getLeft?_inr, Option.map_none] at calls
  have seen : s.sees (.advance n) = [.answered n op (s.bus.apply op).2] := by
    simp only [sees, at_, Option.bind_some, returns, Sum.getRight?_inr, answers, Option.toList_some]
  have called : (s.view log).calls n = some (.asked op) := by
    simp only [view, at_, Option.map_some, asked]
  have served := Atomic.serve_reaches (A := Bus.apply) called
  have equal : (s.after n (act s.broker n c)).view (s.sees (.advance n) ++ log) =
      { s.view log with
        object := (s.bus.apply op).1
        calls := Function.update (fun m => (s.calls m).map (phase s.broker)) n none
        log := .answered n op (s.bus.apply op).2 :: log } := by
    rw [view, bus, seen]
    exact congrArg (fun calls => (⟨(s.bus.apply op).1, calls, s.nextCall,
      .answered n op (s.bus.apply op).2 :: log⟩ : BusState)) calls
  rw [equal]
  exact served

/-- A send that finds nobody settles there, unless its topic was reaped before. -/
theorem refused_reaches (linear : s.Linear) {topic : String} {p : Publication} {sender : Nat}
    (at_ : s.calls n = some (.send topic p sender))
    (idle : (s.broker.senders sender).queue.receiverCount = 0) :
    Atomic.Reaches Bus.apply (s.view log)
      ((s.after n (s.broker, .inl (.reap topic p))).view log) := by
  have settled : (s.after n (s.broker, .inl (.reap topic p))).view log =
      { s.view log with
        calls := Function.update (fun m => (s.calls m).map (phase s.broker)) n
          (some (.settled (.publish topic p) .done)) } := by
    have calls : (fun m => (Function.update s.calls n (some (.reap topic p)) m).map (phase s.broker)) =
        Function.update (fun m => (s.calls m).map (phase s.broker)) n
          (some (.settled (.publish topic p) .done)) := by
      funext m
      by_cases own : m = n
      · subst own
        rw [Function.update_self, Function.update_self]
        rfl
      · rw [Function.update_of_ne own, Function.update_of_ne own]
    exact congrArg (fun calls => (⟨s.bus, calls, s.nextCall, log⟩ : BusState)) calls
  rw [settled]
  apply Atomic.settle_unnoticed
  · intro m
    by_cases own : m = n
    · subst own
      rw [Function.update_self]
      by_cases stored : s.broker.topics.get topic = some sender
      · refine .inr ⟨.publish topic p, .done, ?_, rfl, ?_⟩
        · simp only [view, at_, Option.map_some, phase, if_pos stored]
        · apply unheard_of_idle linear
          intro other found
          cases stored.symm.trans found
          exact idle
      · refine .inl ?_
        simp only [view, at_, Option.map_some, phase, if_neg stored]
    · rw [Function.update_of_ne own]
      exact .inl rfl
  · intro m later
    have other : m ≠ n := by
      rintro rfl
      exact absurd (linear.anchored.known m _ at_) (Nat.not_lt.mpr later)
    rw [Function.update_of_ne other]
    rfl

/-- A reap takes away the topic of the sends that have not noticed yet that nobody listens. -/
theorem reap_unnoticed (linear : s.Linear) {topic : String} {p : Publication} {m : Nat}
    (called : s.calls m = some d) :
    Atomic.Unnoticed Bus.apply s.bus (some (phase s.broker d))
      (some (phase (act s.broker n (.reap topic p)).1 d)) := by
  cases d with
  | send t q sender =>
      by_cases before : s.broker.topics.get t = some sender
      · by_cases after : (act s.broker n (.reap topic p)).1.topics.get t = some sender
        · refine .inl ?_
          simp only [phase, if_pos before, if_pos after]
        · refine .inr ⟨.publish t q, .done, ?_, ?_, ?_⟩
          · simp only [phase, if_pos before]
          · simp only [phase, if_neg after]
          · apply unheard_of_idle linear
            intro other found
            cases before.symm.trans found
            by_contra busy
            exact after ((acts s.broker n _).stored before fun _ _ => busy)
      · refine .inl ?_
        have after : (act s.broker n (.reap topic p)).1.topics.get t ≠ some sender := by
          intro stored
          rcases (acts s.broker n _).topics stored with old | ⟨fresh, -⟩
          · exact before old
          · exact absurd fresh (Nat.ne_of_lt (linear.sending m t q sender called).1)
        simp only [phase, if_neg before, if_neg after]
  | _ => exact .inl rfl

theorem reap_reaches (linear : s.Linear) {topic : String} {p : Publication}
    (at_ : s.calls n = some (.reap topic p)) :
    Atomic.Reaches Bus.apply (s.view log)
      ((s.after n (act s.broker n (.reap topic p))).view (.answered n (.publish topic p) .done :: log)) := by
  -- first every send that the reap overtakes, then the answer of the call itself
  have overtaken : Atomic.Reaches Bus.apply (s.view log)
      { s.view log with
        calls := fun m => (s.calls m).map (phase (act s.broker n (.reap topic p)).1) } := by
    apply Atomic.settle_unnoticed
    · intro m
      cases called : s.calls m with
      | none =>
          refine .inl ?_
          simp only [view, called, Option.map_none]
      | some d =>
          simp only [view, called, Option.map_some]
          exact reap_unnoticed linear called
    · intro m later
      cases called : s.calls m with
      | none => simp only [view, called, Option.map_none]
      | some d => exact absurd (linear.anchored.known m d called) (Nat.not_lt.mpr later)
  have settled : ({ s.view log with
      calls := fun m => (s.calls m).map (phase (act s.broker n (.reap topic p)).1) } :
      BusState).calls n = some (.settled (.publish topic p) .done) := by
    simp only [at_, Option.map_some]
    rfl
  have answered := Atomic.answer_reaches (A := Bus.apply) settled
  have bus : (s.after n (act s.broker n (.reap topic p))).bus = s.bus := by
    refine bus_still rfl (acts s.broker n _).capacity (s.broker.removeIf_senders topic).2 ?_
    intro stream _
    simp only [after, act, MemoryBroker.unread, (s.broker.removeIf_senders topic).1]
  have calls : (fun m => ((s.after n (act s.broker n (.reap topic p))).calls m).map
      (phase (act s.broker n (.reap topic p)).1)) =
      Function.update (fun m => (s.calls m).map (phase (act s.broker n (.reap topic p)).1)) n none := by
    funext m
    simp only [after]
    by_cases own : m = n
    · subst own
      rw [Function.update_self, Function.update_self]
      rfl
    · rw [Function.update_of_ne own, Function.update_of_ne own]
  have equal : (s.after n (act s.broker n (.reap topic p))).view
      (.answered n (.publish topic p) .done :: log) =
      { s.view log with
        calls := Function.update (fun m => (s.calls m).map
          (phase (act s.broker n (.reap topic p)).1)) n none
        log := .answered n (.publish topic p) .done :: log } := by
    rw [view, bus]
    exact congrArg (fun calls => (⟨s.bus, calls, s.nextCall,
      .answered n (.publish topic p) .done :: log⟩ : BusState)) calls
  rw [equal]
  exact overtaken.trans answered

theorem advance_reaches (linear : s.Linear) (at_ : s.calls n = some c) :
    Atomic.Reaches Bus.apply (s.view log)
      ((s.after n (act s.broker n c)).view (s.sees (.advance n) ++ log)) := by
  have unseen : ∀ next, (act s.broker n c).2 = .inl next → s.sees (.advance n) ++ log = log := by
    intro next goes
    simp only [sees, at_, Option.bind_some, goes, Sum.getRight?_inl, Option.bind_none,
      Option.toList_none, List.nil_append]
  have acted := acts s.broker n c
  generalize did : act s.broker n c = out at acted
  have goes := congrArg Prod.snd did
  cases acted with
  | found topic sender | missing topic =>
      rw [← did, unseen _ goes]
      refine stutter_reaches linear at_ (by rintro _ _ _ ⟨⟩) goes rfl ?_
      rw [did]
      exact bus_still rfl rfl rfl fun _ _ => rfl
  | inserted topic =>
      rw [← did, unseen _ rfl]
      refine stutter_reaches linear at_ (by rintro _ _ _ ⟨⟩) rfl rfl ?_
      refine bus_still rfl (acts s.broker n _).capacity ?_ ?_
      · simp only [after, act, MemoryBroker.orInsert]
        split <;> rfl
      · intro stream opened
        exact (MemoryBroker.orInsert_live linear.anchored.wf topic
          (linear.anchored.live stream opened)).2
  | attached topic sender =>
      rw [← did]
      exact serve_reaches linear at_ (by rintro _ _ _ ⟨⟩) rfl rfl rfl (bus_attach linear rfl rfl)
  | sends topic p sender stored =>
      rw [← did, unseen _ goes]
      refine stutter_reaches linear at_ (by rintro _ _ _ ⟨⟩) goes ?_ ?_
      · rw [did]
        exact if_pos stored
      · rw [did]
        exact bus_still rfl rfl rfl fun _ _ => rfl
  | unheard topic p absent =>
      have idle : ∀ sender, s.broker.topics.get topic = some sender →
          (s.broker.senders sender).queue.receiverCount = 0 := by
        intro sender stored
        rw [absent] at stored
        cases stored
      have unheard := unheard_of_idle linear idle p
      rw [← did]
      refine serve_reaches linear at_ (by rintro _ _ _ ⟨⟩) rfl goes ?_ ?_
      · rw [unheard]
        rfl
      · rw [did, unheard]
        exact bus_still rfl rfl rfl fun _ _ => rfl
  | sent topic p sender heard =>
      have stored := stored_of_busy linear at_ heard
      rw [← did]
      refine serve_reaches linear at_ (by rintro _ _ _ ⟨⟩) (if_pos stored) goes rfl ?_
      rw [did]
      exact bus_pushAt linear stored p rfl rfl
  | refused topic p sender idle =>
      rw [← did, unseen _ goes, did]
      exact refused_reaches linear at_ idle
  | reaped topic p =>
      have seen : s.sees (.advance n) = [.answered n (.publish topic p) .done] := by
        simp only [sees, at_, Option.bind_some]
        rfl
      rw [seen]
      exact reap_reaches linear at_

end Advance

section Instants

variable {stream : MemoryStream} {log : List BusEvent}

theorem phase_congr {b' : MemoryBroker} (topics : b'.topics = b.topics) : phase b' = phase b := by
  funext c
  cases c with
  | send topic p sender => simp only [phase, topics]
  | _ => rfl

/-- A poll of an open stream takes what the bus takes. -/
theorem next_takes (linear : s.Linear) (opened : stream ∈ s.streams) :
    ((s.broker.next stream).1.unread stream, (s.broker.next stream).2.answer) =
      Bus.take (nextPowerOfTwo s.broker.capacity) (s.broker.unread stream) := by
  have live := linear.anchored.live stream opened
  have ring := linear.rings _ _ live.stored
  have moved := s.broker.next_moves stream
  rcases received : (s.broker.senders stream.sender).queue.recv stream.receiver with ⟨queue, outcome⟩
  have short : (∀ k, outcome ≠ .lagged k) →
      ¬nextPowerOfTwo s.broker.capacity < (s.broker.unread stream).length := by
    intro kept
    rw [← ring, Nat.not_lt]
    apply Broadcast.recv_kept
    rw [received]
    exact kept
  cases outcome with
  | ready p =>
      have here := short (by rintro k ⟨⟩)
      simp only [MemoryBroker.next, received, Poll.Moves] at moved ⊢
      rw [moved] at here ⊢
      rw [Bus.take_cons here]
      rfl
  | lagged k =>
      have behind : nextPowerOfTwo s.broker.capacity < (s.broker.unread stream).length ∧
          k = (s.broker.unread stream).length - nextPowerOfTwo s.broker.capacity := by
        rw [← ring]
        exact Broadcast.recv_lagged (congrArg Prod.snd received)
      obtain ⟨far, rfl⟩ := behind
      simp only [MemoryBroker.next, received, Poll.Moves] at moved ⊢
      rw [Bus.take_behind far, moved]
      rfl
  | empty =>
      simp only [MemoryBroker.next, received, if_pos live.stored, Poll.Moves] at moved ⊢
      rw [moved.1, Bus.take_nil]
      rfl

theorem poll_reaches (linear : s.Linear) (h : s.step (.poll stream) = some t) :
    Atomic.Reaches Bus.apply (s.view log) (t.view (s.sees (.poll stream) ++ log)) := by
  obtain ⟨opened, b, outcome, polled, same, -⟩ := poll_cases h
  have taken := next_takes linear opened
  have polls := MemoryBroker.next_polls linear.anchored.wf stream
  obtain ⟨topics, -, capacity, -⟩ := next_senders s.broker stream
  rw [polled] at taken polls topics capacity
  dsimp only at taken polls topics capacity
  have found := queues_open linear opened
  have applied : s.bus.apply (.poll stream.receiver) =
      ({ s.bus with
          streams := Function.update s.queues stream.receiver
            (some (stream.topicLabel, b.unread stream)) }, outcome.answer) := by
    simp only [Bus.apply, bus, found, ← taken]
  have bus : t.bus = (s.bus.apply (.poll stream.receiver)).1 := by
    have queues : t.queues = Function.update s.queues stream.receiver
        (some (stream.topicLabel, b.unread stream)) := by
      funext r
      rw [same]
      by_cases own : r = stream.receiver
      · subst own
        rw [Function.update_self]
        unfold ConcurrentBroker.queues at found ⊢
        obtain ⟨x, there, -⟩ := Option.map_eq_some_iff.mp found
        have receiver : x.receiver = stream.receiver := by simpa using List.find?_some there
        rw [linear.anchored.apart x (List.mem_of_find?_eq_some there) stream opened receiver] at there
        simp only [there, Option.map_some]
      · rw [Function.update_of_ne own]
        unfold ConcurrentBroker.queues
        cases there : s.streams.find? fun x => x.receiver = r with
        | none => rfl
        | some x =>
            have receiver : x.receiver = r := by simpa using List.find?_some there
            simp only [Option.map_some]
            rw [polls.others x (receiver ▸ own)]
    rw [applied, ConcurrentBroker.bus, queues, same]
    simp only [capacity, polls.next, ConcurrentBroker.bus]
  have instant := Atomic.instant_reaches (A := Bus.apply) (s.view log) (.poll stream.receiver)
  have seen : s.sees (.poll stream) =
      [.instant (.poll stream.receiver) (s.bus.apply (.poll stream.receiver)).2] := by
    rw [applied, sees, polled]
  have equal : t.view (s.sees (.poll stream) ++ log) =
      { s.view log with
        object := (s.bus.apply (.poll stream.receiver)).1
        log := .instant (.poll stream.receiver) (s.bus.apply (.poll stream.receiver)).2 :: log } := by
    rw [view, bus, seen, same]
    simp only [phase_congr topics]
    rfl
  rw [equal]
  exact instant

theorem drop_reaches (linear : s.Linear) (h : s.step (.drop stream) = some t) :
    Atomic.Reaches Bus.apply (s.view log) (t.view (s.sees (.drop stream) ++ log)) := by
  simp only [step] at h
  split at h
  · next opened =>
      cases h
      obtain ⟨-, -, unread, -⟩ := MemoryBroker.dropStream_drops linear.anchored.wf stream
      have queues : ConcurrentBroker.queues { s with
          broker := s.broker.dropStream stream
          streams := s.streams.filter fun other => other.receiver ≠ stream.receiver } =
          Function.update s.queues stream.receiver none := by
        funext r
        simp only [ConcurrentBroker.queues, List.find?_filter]
        by_cases own : r = stream.receiver
        · subst own
          rw [Function.update_self, Option.map_eq_none_iff, List.find?_eq_none]
          intro x _
          simp
        · rw [Function.update_of_ne own]
          have only : ∀ x : MemoryStream, decide (decide (x.receiver ≠ stream.receiver) = true ∧
              decide (x.receiver = r) = true) = decide (x.receiver = r) := by
            intro x
            by_cases here : x.receiver = r
            · simp [here, own]
            · simp [here]
          simp only [only]
          unfold ConcurrentBroker.queues
          cases there : s.streams.find? fun x => x.receiver = r with
          | none => rfl
          | some x =>
              have receiver : x.receiver = r := by simpa using List.find?_some there
              simp only [Option.map_some]
              rw [unread x (receiver ▸ own)]
      have equal : ConcurrentBroker.view { s with
          broker := s.broker.dropStream stream
          streams := s.streams.filter fun other => other.receiver ≠ stream.receiver }
          (s.sees (.drop stream) ++ log) =
          { s.view log with
            object := (s.bus.apply (.drop stream.receiver)).1
            log := .instant (.drop stream.receiver) (s.bus.apply (.drop stream.receiver)).2 :: log } := by
        rw [view, bus, queues]
        rfl
      rw [equal]
      exact Atomic.instant_reaches (A := Bus.apply) (s.view log) (.drop stream.receiver)
  · cases h

theorem begin_reaches {op : BusOp String Publication}
    (asked : phase s.broker c = .asked op) :
    Atomic.Reaches Bus.apply (s.view log) ((s.begin c).view (.asked s.nextCall op :: log)) := by
  have calls : (fun m => ((s.begin c).calls m).map (phase s.broker)) =
      Function.update (fun m => (s.calls m).map (phase s.broker)) s.nextCall (some (.asked op)) := by
    funext m
    simp only [begin]
    by_cases own : m = s.nextCall
    · subst own
      rw [Function.update_self, Function.update_self, Option.map_some, asked]
    · rw [Function.update_of_ne own, Function.update_of_ne own]
  have equal : (s.begin c).view (.asked s.nextCall op :: log) =
      { s.view log with
        calls := Function.update (fun m => (s.calls m).map (phase s.broker)) s.nextCall
          (some (.asked op))
        nextCall := s.nextCall + 1
        log := .asked s.nextCall op :: log } :=
    congrArg (fun calls => (⟨s.bus, calls, s.nextCall + 1, .asked s.nextCall op :: log⟩ : BusState)) calls
  rw [equal]
  exact Atomic.ask_reaches (A := Bus.apply) (s.view log) op

theorem step_reaches (linear : s.Linear) (h : s.step l = some t) :
    Atomic.Reaches Bus.apply (s.view log) (t.view (s.sees l ++ log)) := by
  cases l with
  | subscribe topic =>
      cases h
      exact begin_reaches rfl
  | publish topic p =>
      cases h
      exact begin_reaches rfl
  | advance n =>
      obtain ⟨c, at_, rfl⟩ := Option.map_eq_some_iff.mp h
      exact advance_reaches linear at_
  | poll stream => exact poll_reaches linear h
  | drop stream => exact drop_reaches linear h

end Instants

/-- Whatever a client sees of a broker whose reaps keep apart from its subscribes, it might have
seen of the bus: every call takes effect at one moment between its start and its return. -/
theorem linearizable {capacity : Nat} {s : ConcurrentBroker} {log : List BusEvent}
    (run : (machine.observed sees).Run (fun s l => ReapApart s.1 l) (boot capacity, []) (s, log)) :
    ∃ a : BusState, Atomic.Reaches Bus.apply
        (.initial ⟨nextPowerOfTwo (max capacity 1), fun _ => none, 0⟩) a ∧ a.log = log ∧
      ∀ stream ∈ s.streams, a.object.streams stream.receiver =
        some (stream.topicLabel, s.broker.unread stream) := by
  obtain ⟨linear, reached⟩ := run.atomic (A := Bus.apply) (I := Linear) (boot_linear capacity) view
    (fun _ _ _ linear apart h => step_linear linear apart h)
    fun _ _ _ _ linear _ h => step_reaches linear h
  exact ⟨s.view log, reached, rfl, fun stream opened => queues_open linear opened⟩

/-- Two publishes find the sender of a stream that is then dropped. The second reaps the topic
before the first has sent, and a new stream is opened on it; the first comes too late for both
streams, as if it had settled at the reap. -/
def overtakingRun : List BrokerLabel :=
  [.subscribe "t", .advance 0, .advance 0, .advance 0,
    .publish "t" ⟨"t", 0, [1]⟩, .advance 1, .publish "t" ⟨"t", 1, [2]⟩, .advance 2,
    .drop ⟨"t", 0, 0⟩, .advance 2, .advance 2,
    .subscribe "t", .advance 3, .advance 3, .advance 3, .advance 1, .advance 1,
    .poll ⟨"t", 1, 1⟩]

def overtakingLog : List BusEvent :=
  [.instant (.poll 1) .pending, .answered 1 (.publish "t" ⟨"t", 0, [1]⟩) .done,
    .answered 3 (.subscribe "t") (.opened 1), .asked 3 (.subscribe "t"),
    .answered 2 (.publish "t" ⟨"t", 1, [2]⟩) .done, .instant (.drop 0) .done,
    .asked 2 (.publish "t" ⟨"t", 1, [2]⟩), .asked 1 (.publish "t" ⟨"t", 0, [1]⟩),
    .answered 0 (.subscribe "t") (.opened 0), .asked 0 (.subscribe "t")]

theorem linearizable_overtaken :
    ∃ s, (machine.observed sees).Run (fun s l => ReapApart s.1 l) (boot 16, []) (s, overtakingLog) ∧
      ⟨"t", 1, 1⟩ ∈ s.streams ∧
      ∃ a : BusState, Atomic.Reaches Bus.apply (.initial ⟨16, fun _ => none, 0⟩) a ∧
        a.log = overtakingLog := by
  have sound : ∀ (s : ConcurrentBroker × List BusEvent) (l : BrokerLabel), s.1.Anchored →
      reapApart s.1 l = true → ReapApart s.1 l := fun s l a h => reapApart_sound s.1 l a h
  have kept : ∀ (s : ConcurrentBroker × List BusEvent) (l : BrokerLabel)
      (t : ConcurrentBroker × List BusEvent), s.1.Anchored → ReapApart s.1 l →
      (machine.observed sees).step s l = some t → t.1.Anchored := by
    intro s l t a apart h
    obtain ⟨u, moved, rfl⟩ := Option.map_eq_some_iff.mp h
    exact step_anchored a apart moved
  obtain ⟨⟨s, log⟩, run, opened, history⟩ := Machine.execWithin_witness sound kept
    (s := (boot 16, [])) (boot_anchored 16) overtakingRun
    (fun s => ⟨"t", 1, 1⟩ ∈ s.1.streams ∧ s.2 = overtakingLog) (by decide +kernel)
  cases history
  obtain ⟨a, reached, same, -⟩ := linearizable run
  exact ⟨s, run, opened, a, reached, same⟩

end ConcurrentBroker

end Cherenkov
