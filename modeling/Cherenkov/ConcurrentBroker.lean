import Cherenkov.Library.Machine
import Cherenkov.MemoryBroker

/-! `MemoryBroker::subscribe` and `publish` are calls whose steps are the `DashMap` lookups,
`or_insert_with`, `Sender::subscribe`, `Sender::send` and `remove_if` of the source; polls and drops
of open streams are single steps. A call that holds a cloned sender holds its number. Calls
interleave freely; `log` is history. -/

namespace Cherenkov

inductive BrokerCall where
  | lookup (topic : String)
  | insert (topic : String)
  | attach (topic : String) (sender : Nat)
  | find (topic : String) (p : Publication)
  | send (topic : String) (p : Publication) (sender : Nat)
  | reap (topic : String) (p : Publication)
  deriving DecidableEq

inductive BrokerEvent where
  | subscribed (call : Nat) (stream : MemoryStream)
  | published (call : Nat) (topic : String) (p : Publication)
  | yielded (stream : MemoryStream) (p : Publication)
  | lagged (stream : MemoryStream) (skipped : Nat)
  deriving DecidableEq

def BrokerEvent.stream? : BrokerEvent → Option MemoryStream
  | .subscribed _ stream => some stream
  | _ => none

inductive BrokerLabel where
  | subscribe (topic : String)
  | publish (topic : String) (p : Publication)
  | advance (call : Nat)
  | poll (stream : MemoryStream)
  | drop (stream : MemoryStream)

/-- `streams` are the streams that a subscribe call returned and nobody dropped. -/
structure ConcurrentBroker where
  broker : MemoryBroker
  streams : List MemoryStream
  calls : Nat → Option BrokerCall
  nextCall : Nat
  log : List BrokerEvent

namespace ConcurrentBroker

def boot (capacity : Nat) : ConcurrentBroker :=
  ⟨.withCapacity capacity, [], fun _ => none, 0, []⟩

def begin (s : ConcurrentBroker) (c : BrokerCall) : ConcurrentBroker :=
  { s with calls := Function.update s.calls s.nextCall (some c), nextCall := s.nextCall + 1 }

def act (b : MemoryBroker) (n : Nat) : BrokerCall → MemoryBroker × (BrokerCall ⊕ BrokerEvent)
  | .lookup topic =>
      match b.topics.get topic with
      | some sender => (b, .inl (.attach topic sender))
      | none => (b, .inl (.insert topic))
  | .insert topic =>
      let out := b.orInsert topic
      (out.1, .inl (.attach topic out.2))
  | .attach topic sender =>
      let out := b.attach sender
      (out.1, .inr (.subscribed n ⟨topic, sender, out.2⟩))
  | .find topic p =>
      match b.topics.get topic with
      | some sender => (b, .inl (.send topic p sender))
      | none => (b, .inr (.published n topic p))
  | .send topic p sender =>
      match b.send sender p with
      | some b => (b, .inr (.published n topic p))
      | none => (b, .inl (.reap topic p))
  | .reap topic p => (b.removeIf topic, .inr (.published n topic p))

def after (s : ConcurrentBroker) (n : Nat) (out : MemoryBroker × (BrokerCall ⊕ BrokerEvent)) :
    ConcurrentBroker where
  broker := out.1
  streams := (out.2.getRight?.bind BrokerEvent.stream?).toList ++ s.streams
  calls := Function.update s.calls n out.2.getLeft?
  nextCall := s.nextCall
  log := out.2.getRight?.toList ++ s.log

def step (s : ConcurrentBroker) : BrokerLabel → Option ConcurrentBroker
  | .subscribe topic => some (s.begin (.lookup topic))
  | .publish topic p => some (s.begin (.find topic p))
  | .advance n => (s.calls n).map fun c => s.after n (act s.broker n c)
  | .poll stream =>
      if stream ∈ s.streams then
        match s.broker.next stream with
        | (broker, .ready p) => some { s with broker, log := .yielded stream p :: s.log }
        | (broker, .lagged k) => some { s with broker, log := .lagged stream k :: s.log }
        | (broker, _) => some { s with broker }
      else none
  | .drop stream =>
      if stream ∈ s.streams then
        some { s with
          broker := s.broker.dropStream stream
          streams := s.streams.filter fun other => other.receiver ≠ stream.receiver }
      else none

def machine : Machine ConcurrentBroker BrokerLabel := ⟨step⟩

/-- A `remove_if` that removes does not fall between the `sender_for` and the
`Sender::subscribe` of a call holding the sender it removes. -/
def ReapApart (s : ConcurrentBroker) (l : BrokerLabel) : Prop :=
  ∀ n topic p sender, l = .advance n → s.calls n = some (.reap topic p) →
    s.broker.topics.get topic = some sender → (s.broker.senders sender).queue.receiverCount = 0 →
    ∀ m t, s.calls m ≠ some (.attach t sender)

structure Anchored (s : ConcurrentBroker) : Prop where
  wf : s.broker.Wf
  live : ∀ stream ∈ s.streams, s.broker.Live stream
  apart : ∀ x ∈ s.streams, ∀ y ∈ s.streams, x.receiver = y.receiver → x = y
  holding : ∀ m topic sender, s.calls m = some (.attach topic sender) →
    s.broker.topics.get topic = some sender
  known : ∀ m c, s.calls m = some c → m < s.nextCall
  logged : ∀ m topic p, .published m topic p ∈ s.log → m < s.nextCall

theorem boot_anchored (capacity : Nat) : (boot capacity).Anchored := by
  refine ⟨MemoryBroker.withCapacity_wf capacity, ?_, ?_, ?_, ?_, ?_⟩
  · intro stream member
    cases member
  · intro x member
    cases member
  · intro m topic sender called
    cases called
  · intro m c called
    cases called
  · intro m topic p member
    cases member

variable {s t : ConcurrentBroker} {b : MemoryBroker} {n : Nat} {c : BrokerCall} {l : BrokerLabel}
  {topic : String} {stream : MemoryStream} {p : Publication}

/-- What one operation does to the broker, where its call goes, and when. -/
inductive Acts (b : MemoryBroker) (n : Nat) :
    BrokerCall → MemoryBroker × (BrokerCall ⊕ BrokerEvent) → Prop
  | found (topic : String) (sender : Nat) (stored : b.topics.get topic = some sender) :
      Acts b n (.lookup topic) (b, .inl (.attach topic sender))
  | missing (topic : String) (absent : b.topics.get topic = none) :
      Acts b n (.lookup topic) (b, .inl (.insert topic))
  | inserted (topic : String) : Acts b n (.insert topic)
      ((b.orInsert topic).1, .inl (.attach topic (b.orInsert topic).2))
  | attached (topic : String) (sender : Nat) : Acts b n (.attach topic sender)
      ((b.attach sender).1, .inr (.subscribed n ⟨topic, sender, b.nextReceiver⟩))
  | sends (topic : String) (p : Publication) (sender : Nat)
      (stored : b.topics.get topic = some sender) :
      Acts b n (.find topic p) (b, .inl (.send topic p sender))
  | unheard (topic : String) (p : Publication) (absent : b.topics.get topic = none) :
      Acts b n (.find topic p) (b, .inr (.published n topic p))
  | sent (topic : String) (p : Publication) (sender : Nat)
      (heard : (b.senders sender).queue.receiverCount ≠ 0) :
      Acts b n (.send topic p sender) (b.pushAt sender p, .inr (.published n topic p))
  | refused (topic : String) (p : Publication) (sender : Nat)
      (idle : (b.senders sender).queue.receiverCount = 0) :
      Acts b n (.send topic p sender) (b, .inl (.reap topic p))
  | reaped (topic : String) (p : Publication) :
      Acts b n (.reap topic p) (b.removeIf topic, .inr (.published n topic p))

theorem acts (b : MemoryBroker) (n : Nat) (c : BrokerCall) : Acts b n c (act b n c) := by
  cases c with
  | lookup topic =>
      simp only [act]
      split
      · next sender stored => exact .found topic sender stored
      · next absent => exact .missing topic absent
  | insert topic => exact .inserted topic
  | attach topic sender => exact .attached topic sender
  | find topic p =>
      simp only [act]
      split
      · next sender stored => exact .sends topic p sender stored
      · next absent => exact .unheard topic p absent
  | send topic p sender =>
      rcases b.send_cases sender p with ⟨sent, heard⟩ | ⟨refused, idle⟩
      · simp only [act, sent]
        exact .sent topic p sender heard
      · simp only [act, refused]
        exact .refused topic p sender idle
  | reap topic p => exact .reaped topic p

section Acts

variable {out : MemoryBroker × (BrokerCall ⊕ BrokerEvent)}

theorem Acts.live (acts : Acts b n c out) (wf : b.Wf) (live : b.Live stream) :
    out.1.Live stream ∧ ∃ extra, out.1.unread stream = b.unread stream ++ extra := by
  cases acts with
  | inserted topic =>
      obtain ⟨kept, same⟩ := MemoryBroker.orInsert_live wf topic live
      exact ⟨kept, [], same.trans (List.append_nil _).symm⟩
  | attached topic sender =>
      obtain ⟨kept, same⟩ := MemoryBroker.attach_live wf sender live
      exact ⟨kept, [], same.trans (List.append_nil _).symm⟩
  | sent topic p sender =>
      obtain ⟨kept, pushed⟩ := MemoryBroker.pushAt_live sender p live
      exact ⟨kept, _, pushed⟩
  | reaped topic p =>
      refine ⟨MemoryBroker.removeIf_live topic live, [], ?_⟩
      simp only [MemoryBroker.unread, (b.removeIf_senders topic).1, List.append_nil]
  | _ => exact ⟨live, [], (List.append_nil _).symm⟩

theorem Acts.wf (acts : Acts b n c out) (wf : b.Wf) : out.1.Wf := by
  cases acts with
  | inserted topic => exact MemoryBroker.orInsert_wf wf topic
  | attached topic sender => exact MemoryBroker.attach_wf wf sender
  | sent topic p sender => exact MemoryBroker.pushAt_wf wf sender p
  | reaped topic p => exact MemoryBroker.removeIf_wf wf topic
  | _ => exact wf

/-- The stored sender of a topic is only ever taken out by a reap that finds it idle. -/
theorem Acts.stored (acts : Acts b n c out) {sender : Nat}
    (stored : b.topics.get topic = some sender)
    (busy : ∀ p, c = .reap topic p → (b.senders sender).queue.receiverCount ≠ 0) :
    out.1.topics.get topic = some sender := by
  cases acts with
  | inserted t =>
      simp only [MemoryBroker.orInsert]
      cases found : b.topics.get t with
      | some _ => exact stored
      | none =>
          have other : topic ≠ t := by
            rintro rfl
            rw [stored] at found
            cases found
          simpa only [DashMap.get_put_ne _ _ other] using stored
  | reaped t p =>
      simp only [MemoryBroker.removeIf]
      cases found : b.topics.get t with
      | none => exact stored
      | some other =>
          dsimp only
          split
          · next idle =>
              have apart : topic ≠ t := by
                rintro rfl
                cases stored.symm.trans found
                exact busy p rfl idle
              simpa only [DashMap.get_remove_ne _ apart] using stored
          · exact stored
  | _ => exact stored

theorem Acts.nextReceiver (acts : Acts b n c out) : b.nextReceiver ≤ out.1.nextReceiver := by
  cases acts with
  | inserted topic =>
      simp only [MemoryBroker.orInsert]
      split <;> exact Nat.le_refl _
  | attached topic sender => exact Nat.le_succ _
  | reaped topic p => exact Nat.le_of_eq (b.removeIf_senders topic).2.symm
  | _ => exact Nat.le_refl _

end Acts

theorem act_attach {sender : Nat} (goes : (act b n c).2 = .inl (.attach topic sender)) :
    (act b n c).1.topics.get topic = some sender := by
  have acts := acts b n c
  generalize act b n c = out at acts goes ⊢
  cases acts <;> cases goes
  · assumption
  · exact b.orInsert_stored topic

theorem act_subscribed {m : Nat} (returns : (act b n c).2 = .inr (.subscribed m stream)) :
    c = .attach stream.topicLabel stream.sender ∧ stream.receiver = b.nextReceiver := by
  have acts := acts b n c
  generalize act b n c = out at acts returns
  cases acts <;> cases returns
  exact ⟨rfl, rfl⟩

theorem act_published {m : Nat} (returns : (act b n c).2 = .inr (.published m topic p)) :
    m = n ∧ ((c = .find topic p ∧ b.topics.get topic = none) ∨
      (∃ sender, c = .send topic p sender ∧ (act b n c).1 = b.pushAt sender p) ∨
      c = .reap topic p) := by
  have acts := acts b n c
  generalize act b n c = out at acts returns ⊢
  cases acts <;> cases returns
  · exact ⟨rfl, .inl ⟨rfl, ‹_›⟩⟩
  · exact ⟨rfl, .inr (.inl ⟨_, rfl, rfl⟩)⟩
  · exact ⟨rfl, .inr (.inr rfl)⟩

theorem act_send {sender : Nat} (goes : (act b n c).2 = .inl (.send topic p sender)) :
    b.topics.get topic = some sender := by
  have acts := acts b n c
  generalize act b n c = out at acts goes
  cases acts <;> cases goes
  assumption

theorem act_reap (goes : (act b n c).2 = .inl (.reap topic p)) :
    ∃ sender, c = .send topic p sender ∧ (b.senders sender).queue.receiverCount = 0 := by
  have acts := acts b n c
  generalize act b n c = out at acts goes
  cases acts <;> cases goes
  exact ⟨_, rfl, ‹_›⟩

section After

variable {out : MemoryBroker × (BrokerCall ⊕ BrokerEvent)}

theorem after_calls_some {m : Nat} {c' : BrokerCall} (h : (s.after n out).calls m = some c') :
    (m = n ∧ out.2 = .inl c') ∨ (m ≠ n ∧ s.calls m = some c') := by
  simp only [after, Function.update_apply] at h
  split at h
  · next same => exact .inl ⟨same, Sum.getLeft?_eq_some_iff.mp h⟩
  · next other => exact .inr ⟨other, h⟩

theorem mem_after_log {e : BrokerEvent} (h : e ∈ (s.after n out).log) :
    out.2 = .inr e ∨ e ∈ s.log := by
  rcases List.mem_append.mp h with new | old
  · exact .inl (Sum.getRight?_eq_some_iff.mp (Option.mem_toList.mp new))
  · exact .inr old

theorem mem_after_streams (h : stream ∈ (s.after n out).streams) :
    (∃ m, out.2 = .inr (.subscribed m stream)) ∨ stream ∈ s.streams := by
  rcases List.mem_append.mp h with new | old
  · obtain ⟨e, returned, opened⟩ := Option.bind_eq_some_iff.mp (Option.mem_toList.mp new)
    cases e with
    | subscribed m stream' =>
        cases opened
        exact .inl ⟨m, Sum.getRight?_eq_some_iff.mp returned⟩
    | _ => cases opened
  · exact .inr old

end After

theorem begin_anchored (a : s.Anchored) (entry : ∀ topic sender, c ≠ .attach topic sender) :
    (s.begin c).Anchored := by
  refine ⟨a.wf, a.live, a.apart, ?_, ?_, ?_⟩
  · intro m topic sender called
    simp only [begin, Function.update_apply] at called
    split at called
    · exact absurd (Option.some.inj called) (entry topic sender)
    · exact a.holding m topic sender called
  · intro m c' called
    simp only [begin, Function.update_apply] at called
    split at called
    · next same => exact same ▸ Nat.lt_succ_self _
    · exact Nat.lt_succ_of_lt (a.known m c' called)
  · exact fun m topic p member => Nat.lt_succ_of_lt (a.logged m topic p member)

theorem act_anchored (a : s.Anchored) (at_ : s.calls n = some c)
    (apart : ReapApart s (.advance n)) : (s.after n (act s.broker n c)).Anchored := by
  have stored : ∀ m topic sender, s.calls m = some (.attach topic sender) →
      (act s.broker n c).1.topics.get topic = some sender := by
    intro m topic sender called
    have held := a.holding m topic sender called
    refine (acts s.broker n c).stored held ?_
    rintro p rfl idle
    exact apart n topic p sender rfl at_ held idle m topic called
  have older : ∀ x ∈ s.streams, ∀ y m, (act s.broker n c).2 = .inr (.subscribed m y) →
      x.receiver ≠ y.receiver := by
    intro x opened y m returned
    rw [(act_subscribed returned).2]
    exact Nat.ne_of_lt ((a.live x opened).receiver_lt a.wf)
  refine ⟨(acts s.broker n c).wf a.wf, ?_, ?_, ?_, ?_, ?_⟩
  · intro stream opened
    rcases mem_after_streams opened with ⟨m, returned⟩ | old
    · obtain ⟨rfl, fresh⟩ := act_subscribed returned
      refine ⟨stored n _ _ at_, ?_⟩
      simp only [after, act, MemoryBroker.attach, Function.update_self,
        Broadcast.subscribe_attached, fresh, true_or]
    · exact ((acts s.broker n c).live a.wf (a.live stream old)).1
  · intro x first y second same
    rcases mem_after_streams first with ⟨m, returned⟩ | old <;>
      rcases mem_after_streams second with ⟨m', returned'⟩ | old'
    · cases returned.symm.trans returned'
      rfl
    · exact absurd same.symm (older y old' x m returned)
    · exact absurd same (older x old y m' returned')
    · exact a.apart x old y old' same
  · intro m topic sender called
    rcases after_calls_some called with ⟨_, goes⟩ | ⟨_, old⟩
    · exact act_attach goes
    · exact stored m topic sender old
  · intro m c' called
    rcases after_calls_some called with ⟨rfl, _⟩ | ⟨_, old⟩
    · exact a.known m c at_
    · exact a.known m c' old
  · intro m topic p member
    rcases mem_after_log member with returned | old
    · rw [(act_published returned).1]
      exact a.known n c at_
    · exact a.logged m topic p old

theorem poll_cases (h : s.step (.poll stream) = some t) :
    stream ∈ s.streams ∧ ∃ b outcome, s.broker.next stream = (b, outcome) ∧
      t = { s with broker := b, log := t.log } ∧
      ((∃ p, outcome = .ready p ∧ t.log = .yielded stream p :: s.log) ∨
        (∃ k, outcome = .lagged k ∧ t.log = .lagged stream k :: s.log) ∨
        ((outcome = .pending ∨ outcome = .finished) ∧ t.log = s.log)) := by
  simp only [step] at h
  split at h
  · next opened =>
      refine ⟨opened, ?_⟩
      rcases polled : s.broker.next stream with ⟨b, outcome⟩
      rw [polled] at h
      refine ⟨b, outcome, rfl, ?_⟩
      cases outcome with
      | ready p =>
          cases h
          exact ⟨rfl, .inl ⟨p, rfl, rfl⟩⟩
      | lagged k =>
          cases h
          exact ⟨rfl, .inr (.inl ⟨k, rfl, rfl⟩)⟩
      | pending =>
          cases h
          exact ⟨rfl, .inr (.inr ⟨.inl rfl, rfl⟩)⟩
      | finished =>
          cases h
          exact ⟨rfl, .inr (.inr ⟨.inr rfl, rfl⟩)⟩
  · cases h

theorem step_anchored (a : s.Anchored) (apart : ReapApart s l) (h : s.step l = some t) :
    t.Anchored := by
  cases l with
  | subscribe topic =>
      cases h
      exact begin_anchored a (by simp)
  | publish topic p =>
      cases h
      exact begin_anchored a (by simp)
  | advance n =>
      obtain ⟨c, at_, rfl⟩ := Option.map_eq_some_iff.mp h
      exact act_anchored a at_ apart
  | poll stream =>
      obtain ⟨_, b, outcome, polled, same, logged⟩ := poll_cases h
      have polls := MemoryBroker.next_polls a.wf stream
      rw [polled] at polls
      have topics : b.topics = s.broker.topics := polls.topics
      rw [same]
      refine ⟨polls.wf, fun other opened => polls.live other (a.live other opened), a.apart, ?_,
        a.known, ?_⟩
      · intro m topic sender called
        simp only [topics]
        exact a.holding m topic sender called
      · intro m topic p member
        rcases logged with ⟨q, _, log⟩ | ⟨k, _, log⟩ | ⟨_, log⟩
        · rw [log] at member
          exact a.logged m topic p (by simpa using member)
        · rw [log] at member
          exact a.logged m topic p (by simpa using member)
        · rw [log] at member
          exact a.logged m topic p member
  | drop stream =>
      simp only [step] at h
      split at h
      · cases h
        obtain ⟨wf, live, _⟩ := MemoryBroker.dropStream_drops a.wf stream
        refine ⟨wf, ?_, ?_, a.holding, a.known, a.logged⟩
        · intro other kept
          obtain ⟨opened, different⟩ := List.mem_filter.mp kept
          exact live other (of_decide_eq_true different) (a.live other opened)
        · intro x first y second
          exact a.apart x (List.mem_filter.mp first).1 y (List.mem_filter.mp second).1
      · cases h

/-- The stream holds the publication, has yielded it, or has exceeded its capacity. -/
def Carries (s : ConcurrentBroker) (stream : MemoryStream) (p : Publication) : Prop :=
  p ∈ s.broker.unread stream ∨ .yielded stream p ∈ s.log ∨ ∃ k, .lagged stream k ∈ s.log

/-- What holds of the publish calls numbered from `k` on, on the topic of the stream. -/
structure Followed (stream : MemoryStream) (k : Nat) (s : ConcurrentBroker) : Prop where
  sending : ∀ m p sender, k ≤ m → s.calls m = some (.send stream.topicLabel p sender) →
    sender = stream.sender
  reaping : ∀ m p, k ≤ m → s.calls m ≠ some (.reap stream.topicLabel p)
  published : ∀ m p, k ≤ m → .published m stream.topicLabel p ∈ s.log → s.Carries stream p

variable {k : Nat}

theorem act_followed (a : s.Anchored) (at_ : s.calls n = some c) (opened : stream ∈ s.streams)
    (f : Followed stream k s) : Followed stream k (s.after n (act s.broker n c)) := by
  have live := a.live stream opened
  obtain ⟨_, extra, grown⟩ := (acts s.broker n c).live a.wf live
  refine ⟨?_, ?_, ?_⟩
  · intro m p sender later called
    rcases after_calls_some called with ⟨_, goes⟩ | ⟨_, old⟩
    · exact Option.some.inj ((act_send goes).symm.trans live.stored)
    · exact f.sending m p sender later old
  · intro m p later called
    rcases after_calls_some called with ⟨rfl, goes⟩ | ⟨_, old⟩
    · obtain ⟨sender, rfl, idle⟩ := act_reap goes
      rw [f.sending m p sender later at_] at idle
      exact Broadcast.receiverCount_ne_zero live.attached idle
    · exact f.reaping m p later old
  · intro m p later member
    rcases mem_after_log member with returned | old
    · obtain ⟨rfl, reason⟩ := act_published returned
      rcases reason with ⟨_, absent⟩ | ⟨sender, rfl, pushed⟩ | rfl
      · rw [live.stored] at absent
        cases absent
      · refine .inl ?_
        have arrives := (MemoryBroker.pushAt_live sender p live).2
        rw [if_pos (f.sending m p sender later at_).symm] at arrives
        simp [after, pushed, arrives]
      · exact absurd at_ (f.reaping m p later)
    · rcases f.published m p later old with queued | yielded | ⟨j, lagged⟩
      · refine .inl ?_
        simp only [after, grown]
        exact List.mem_append_left _ queued
      · exact .inr (.inl (List.mem_append_right _ yielded))
      · exact .inr (.inr ⟨j, List.mem_append_right _ lagged⟩)

/-- A poll takes from one stream only, and records what it takes. -/
theorem poll_carries {other : MemoryStream} (a : s.Anchored) (h : s.step (.poll other) = some t)
    (opened : stream ∈ s.streams) (carried : s.Carries stream p) :
    t.Carries stream p := by
  obtain ⟨there, b, outcome, polled, same, logged⟩ := poll_cases h
  have broker : t.broker = b := congrArg ConcurrentBroker.broker same
  have log : ∀ e, e ∈ s.log → e ∈ t.log := by
    intro e member
    rcases logged with ⟨p, _, log⟩ | ⟨j, _, log⟩ | ⟨_, log⟩ <;> rw [log]
    · exact List.mem_cons_of_mem _ member
    · exact List.mem_cons_of_mem _ member
    · exact member
  rcases carried with queued | yielded | ⟨j, lagged⟩
  · by_cases own : stream = other
    · subst own
      have moved := s.broker.next_moves stream
      rw [polled] at moved
      rcases logged with ⟨q, rfl, log⟩ | ⟨j, rfl, log⟩ | ⟨nothing, _⟩
      · have taken : s.broker.unread stream = q :: b.unread stream := moved
        rw [taken] at queued
        rcases List.mem_cons.mp queued with rfl | rest
        · exact .inr (.inl (by simp [log]))
        · exact .inl (by rw [broker]; exact rest)
      · exact .inr (.inr ⟨j, by simp [log]⟩)
      · rw [← MemoryBroker.next_still polled nothing, ← broker] at queued
        exact .inl queued
    · have polls := MemoryBroker.next_polls a.wf other
      rw [polled] at polls
      have unread : b.unread stream = s.broker.unread stream :=
        polls.others stream fun receiver => own (a.apart stream opened other there receiver)
      exact .inl (by rw [broker, unread]; exact queued)
  · exact .inr (.inl (log _ yielded))
  · exact .inr (.inr ⟨j, log _ lagged⟩)

theorem poll_followed {other : MemoryStream} (a : s.Anchored)
    (h : s.step (.poll other) = some t) (opened : stream ∈ s.streams) (f : Followed stream k s) :
    Followed stream k t := by
  obtain ⟨_, b, outcome, _, same, logged⟩ := poll_cases h
  have calls : t.calls = s.calls := by rw [same]
  refine ⟨?_, ?_, ?_⟩
  · rw [calls]
    exact f.sending
  · rw [calls]
    exact f.reaping
  · intro m p later member
    refine poll_carries a h opened (f.published m p later ?_)
    rcases logged with ⟨q, _, log⟩ | ⟨j, _, log⟩ | ⟨_, log⟩ <;> rw [log] at member
    · simpa using member
    · simpa using member
    · exact member

theorem begin_followed (f : Followed stream k s)
    (entry : ∀ topic p sender, c ≠ .send topic p sender ∧ c ≠ .reap topic p) :
    Followed stream k (s.begin c) := by
  refine ⟨?_, ?_, f.published⟩
  · intro m p sender later called
    simp only [begin, Function.update_apply] at called
    split at called
    · exact absurd (Option.some.inj called) (entry _ p sender).1
    · exact f.sending m p sender later called
  · intro m p later called
    simp only [begin, Function.update_apply] at called
    split at called
    · exact (entry _ p 0).2 (Option.some.inj called)
    · exact f.reaping m p later called

theorem step_followed (a : s.Anchored) (h : s.step l = some t) (opened : stream ∈ s.streams)
    (kept : stream ∈ t.streams) (f : Followed stream k s) : Followed stream k t := by
  cases l with
  | subscribe topic =>
      cases h
      exact begin_followed f (by simp)
  | publish topic p =>
      cases h
      exact begin_followed f (by simp)
  | advance n =>
      obtain ⟨c, at_, rfl⟩ := Option.map_eq_some_iff.mp h
      exact act_followed a at_ opened f
  | poll other => exact poll_followed a h opened f
  | drop other =>
      simp only [step] at h
      split at h
      · cases h
        obtain ⟨_, _, unread, _⟩ := MemoryBroker.dropStream_drops a.wf other
        have different := of_decide_eq_true (List.mem_filter.mp kept).2
        refine ⟨f.sending, f.reaping, ?_⟩
        intro m p later member
        rcases f.published m p later member with queued | recorded
        · refine .inl ?_
          simp only [unread stream different]
          exact queued
        · exact .inr recorded
      · cases h

/-- A receiver number is never handed out again, so a dropped stream does not reopen. -/
theorem step_streams (a : s.Anchored) (h : s.step l = some t)
    (issued : stream.receiver < s.broker.nextReceiver) :
    stream.receiver < t.broker.nextReceiver ∧ (stream ∈ t.streams → stream ∈ s.streams) := by
  cases l with
  | subscribe topic =>
      cases h
      exact ⟨issued, id⟩
  | publish topic p =>
      cases h
      exact ⟨issued, id⟩
  | advance n =>
      obtain ⟨c, at_, rfl⟩ := Option.map_eq_some_iff.mp h
      refine ⟨Nat.lt_of_lt_of_le issued (acts s.broker n c).nextReceiver, ?_⟩
      intro opened
      rcases mem_after_streams opened with ⟨m, returned⟩ | old
      · rw [(act_subscribed returned).2] at issued
        exact absurd issued (Nat.lt_irrefl _)
      · exact old
  | poll other =>
      obtain ⟨_, b, outcome, polled, same, _⟩ := poll_cases h
      have polls := MemoryBroker.next_polls a.wf other
      rw [polled] at polls
      rw [same]
      exact ⟨Nat.lt_of_lt_of_eq issued polls.next.symm, id⟩
  | drop other =>
      simp only [step] at h
      split at h
      · cases h
        exact ⟨issued, fun opened => (List.mem_filter.mp opened).1⟩
      · cases h

/-- In every run in which no `remove_if` takes a sender that a subscribe call is about to
use, a stream that is open stays attached to the sender stored for its topic, and every
publish on the topic that starts after the stream was returned puts its item on it. -/
theorem never_stranded (capacity : Nat) {s t : ConcurrentBroker} {stream : MemoryStream}
    (before : machine.Run ReapApart (boot capacity) s) (opened : stream ∈ s.streams)
    (after : machine.Run ReapApart s t) (kept : stream ∈ t.streams) :
    t.broker.topics.get stream.topicLabel = some stream.sender ∧
      (t.broker.senders stream.sender).queue.attached stream.receiver ∧
      ∀ m p, s.nextCall ≤ m → .published m stream.topicLabel p ∈ t.log → t.Carries stream p := by
  have anchored := before.invariant (boot_anchored capacity)
    fun _ _ _ a apart h => step_anchored a apart h
  have unstarted : Followed stream s.nextCall s := by
    refine ⟨?_, ?_, ?_⟩
    · intro m p sender later called
      exact absurd (anchored.known m _ called) (Nat.not_lt.mpr later)
    · intro m p later called
      exact absurd (anchored.known m _ called) (Nat.not_lt.mpr later)
    · intro m p later member
      exact absurd (anchored.logged m _ p member) (Nat.not_lt.mpr later)
  obtain ⟨final, _, followed⟩ := after.invariant (I := fun u => u.Anchored ∧
      stream.receiver < u.broker.nextReceiver ∧
      (stream ∈ u.streams → Followed stream s.nextCall u))
    ⟨anchored, (anchored.live stream opened).receiver_lt anchored.wf, fun _ => unstarted⟩ (by
      rintro u l v ⟨a, issued, f⟩ apart h
      obtain ⟨issued', reopened⟩ := step_streams a h issued
      refine ⟨step_anchored a apart h, issued', ?_⟩
      intro still
      exact step_followed a h (reopened still) still (f (reopened still)))
  have live := final.live stream kept
  exact ⟨live.stored, live.attached, (followed kept).published⟩

/-- The first publish finds the sender that the subscribe call has cloned, fails for want of
a receiver and reaps it; the stream is then attached to a sender nobody finds. -/
def strandingRun : List BrokerLabel :=
  [.subscribe "t", .advance 0, .advance 0,
    .publish "t" ⟨"t", 0, [1]⟩, .advance 1, .advance 1, .advance 1, .advance 0,
    .publish "t" ⟨"t", 1, [2]⟩, .advance 2]

theorem subscriber_stranded :
    ∃ s, machine.exec (boot 16) strandingRun = some s ∧
      machine.Run Machine.free (boot 16) s ∧
      .subscribed 0 ⟨"t", 0, 0⟩ ∈ s.log ∧ ⟨"t", 0, 0⟩ ∈ s.streams ∧
      s.broker.topics.get "t" = none ∧
      .published 2 "t" ⟨"t", 1, [2]⟩ ∈ s.log ∧ ¬s.Carries ⟨"t", 0, 0⟩ ⟨"t", 1, [2]⟩ := by
  obtain ⟨s, reached, run, opened, absent, empty, log⟩ :=
    Machine.exec_witness (M := machine) (s := boot 16) strandingRun (fun s =>
      ⟨"t", 0, 0⟩ ∈ s.streams ∧ s.broker.topics.get "t" = none ∧
        s.broker.unread ⟨"t", 0, 0⟩ = [] ∧
        s.log = [.published 2 "t" ⟨"t", 1, [2]⟩, .subscribed 0 ⟨"t", 0, 0⟩,
          .published 1 "t" ⟨"t", 0, [1]⟩]) (by decide +kernel)
  refine ⟨s, reached, run, by simp [log], opened, absent, by simp [log], ?_⟩
  simp [Carries, empty, log]

def reapApart (s : ConcurrentBroker) : BrokerLabel → Bool
  | .advance n =>
      match s.calls n with
      | some (.reap _ _) => (List.range s.nextCall).all fun m =>
          match s.calls m with
          | some (.attach _ _) => false
          | _ => true
      | _ => true
  | _ => true

theorem reapApart_sound (s : ConcurrentBroker) (l : BrokerLabel) (a : s.Anchored)
    (h : reapApart s l = true) : ReapApart s l := by
  rintro n topic p sender rfl at_ _ _ m t called
  simp only [reapApart, at_, List.all_eq_true, List.mem_range] at h
  have idle := h m (a.known m _ called)
  simp [called] at idle

/-- A stream is opened and dropped, its topic is reaped and opened again; the second stream
gets what is published after it was returned. -/
theorem never_stranded_reopened :
    ∃ s t, machine.Run ReapApart (boot 16) s ∧ machine.Run ReapApart s t ∧
      .subscribed 2 ⟨"t", 1, 1⟩ ∈ s.log ∧ .published 3 "t" ⟨"t", 1, [2]⟩ ∈ t.log ∧
      t.Carries ⟨"t", 1, 1⟩ ⟨"t", 1, [2]⟩ := by
  obtain ⟨s, before, opened, subscribed, calls, later⟩ := Machine.execWithin_witness (M := machine)
    reapApart_sound (fun _ _ _ a apart h => step_anchored a apart h) (boot_anchored 16)
    [.subscribe "t", .advance 0, .advance 0, .advance 0, .drop ⟨"t", 0, 0⟩,
      .publish "t" ⟨"t", 0, [1]⟩, .advance 1, .advance 1, .advance 1,
      .subscribe "t", .advance 2, .advance 2, .advance 2]
    (fun s => ⟨"t", 1, 1⟩ ∈ s.streams ∧ .subscribed 2 ⟨"t", 1, 1⟩ ∈ s.log ∧ s.nextCall = 3 ∧
      (machine.execWithin reapApart s
        [.publish "t" ⟨"t", 1, [2]⟩, .advance 3, .advance 3]).any (fun t =>
          decide (⟨"t", 1, 1⟩ ∈ t.streams ∧ .published 3 "t" ⟨"t", 1, [2]⟩ ∈ t.log)) = true)
    (by decide +kernel)
  have anchored := before.invariant (boot_anchored 16)
    fun _ _ _ a apart h => step_anchored a apart h
  obtain ⟨t, after, kept, published⟩ := Machine.execWithin_witness reapApart_sound
    (fun _ _ _ a apart h => step_anchored a apart h) anchored
    [.publish "t" ⟨"t", 1, [2]⟩, .advance 3, .advance 3]
    (fun t => ⟨"t", 1, 1⟩ ∈ t.streams ∧ .published 3 "t" ⟨"t", 1, [2]⟩ ∈ t.log) later
  have carried := (never_stranded 16 before opened after kept).2.2 3 ⟨"t", 1, [2]⟩
    (Nat.le_of_eq calls) published
  exact ⟨s, t, before, after, subscribed, published, carried⟩

theorem run_act (at_ : s.calls n = some c) :
    machine.Run Machine.free s (s.after n (act s.broker n c)) := by
  refine .tail (l := .advance n) (.refl s) trivial ?_
  simp only [machine, step, at_, Option.map_some]

/-- Run without interruption, the steps of a subscribe call are `MemoryBroker.subscribe`. -/
theorem subscribe_atomic (at_ : s.calls n = some (.lookup topic)) :
    ∃ t stream, machine.Run Machine.free s t ∧ t.calls n = none ∧
      s.broker.subscribe topic = (t.broker, .ok stream) ∧ t.log = .subscribed n stream :: s.log := by
  have attaching : ∀ u sender, machine.Run Machine.free s u → u.log = s.log →
      u.calls n = some (.attach topic sender) → (u.broker, sender) = s.broker.senderFor topic →
      ∃ t stream, machine.Run Machine.free s t ∧ t.calls n = none ∧
        s.broker.subscribe topic = (t.broker, .ok stream) ∧
        t.log = .subscribed n stream :: s.log := by
    intro u sender run log called found
    refine ⟨_, ⟨topic, sender, u.broker.nextReceiver⟩, run.trans (run_act called), ?_, ?_, ?_⟩
    · simp [after, act]
    · simp only [MemoryBroker.subscribe, ← found]
      rfl
    · simp [after, act, log, MemoryBroker.attach]
  have first := run_act at_
  cases found : s.broker.topics.get topic with
  | some sender =>
      refine attaching _ sender first ?_ ?_ ?_
      · simp [after, act, found]
      · simp [after, act, found]
      · simp [after, act, found, MemoryBroker.senderFor]
  | none =>
      have inserting : (s.after n (act s.broker n (.lookup topic))).calls n =
          some (.insert topic) := by
        simp [after, act, found]
      refine attaching _ (s.broker.orInsert topic).2 (first.trans (run_act inserting)) ?_ ?_ ?_
      · simp [after, act, found]
      · simp [after, act, found]
      · simp [after, act, found, MemoryBroker.senderFor]

/-- And those of a publish call are `MemoryBroker.publish`. -/
theorem publish_atomic (at_ : s.calls n = some (.find topic p)) :
    ∃ t, machine.Run Machine.free s t ∧ t.calls n = none ∧
      s.broker.publish topic p = (t.broker, .ok ()) ∧ t.log = .published n topic p :: s.log := by
  have first := run_act at_
  cases found : s.broker.topics.get topic with
  | none =>
      refine ⟨_, first, ?_, ?_, ?_⟩
      · simp [after, act, found]
      · simp [after, act, found, MemoryBroker.publish]
      · simp [after, act, found]
  | some sender =>
      have sending : (s.after n (act s.broker n (.find topic p))).calls n =
          some (.send topic p sender) := by
        simp [after, act, found]
      have second := first.trans (run_act sending)
      rcases s.broker.send_cases sender p with ⟨sent, -⟩ | ⟨refused, -⟩
      · refine ⟨_, second, ?_, ?_, ?_⟩
        · simp [after, act, found, sent]
        · simp [after, act, found, sent, MemoryBroker.publish]
        · simp [after, act, found, sent]
      · have reaping : ((s.after n (act s.broker n (.find topic p))).after n
            (act (s.after n (act s.broker n (.find topic p))).broker n
              (.send topic p sender))).calls n = some (.reap topic p) := by
          simp [after, act, found, refused]
        refine ⟨_, second.trans (run_act reaping), ?_, ?_, ?_⟩
        · simp [after, act]
        · simp [after, act, found, refused, MemoryBroker.publish]
        · simp [after, act, found, refused]

end ConcurrentBroker

end Cherenkov
