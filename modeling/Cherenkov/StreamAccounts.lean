import Cherenkov.Library.Machine
import Cherenkov.MemoryBroker

/-! Subscribes, publishes, receives and drops as single steps, on any topics and streams. `log`
records them, newest first. What was published on a stream's topic since it subscribed is what it
yielded, what it was told to have skipped and what it has still to read. -/

namespace Cherenkov

namespace MemoryBroker

variable {m : MemoryBroker} {stream : MemoryStream} {topic : String} {p : Publication}
  {sender r : Nat}

def Listens (m : MemoryBroker) (sender r : Nat) : Prop := (m.senders sender).queue.attached r

theorem orInsert_listens (m : MemoryBroker) (topic : String)
    (listens : (m.orInsert topic).1.Listens sender r) : m.Listens sender r := by
  unfold orInsert at listens
  cases found : m.topics.get topic with
  | some stored =>
      rw [found] at listens
      exact listens
  | none =>
      rw [found] at listens
      by_cases fresh : sender = m.nextSender
      · subst fresh
        simp [Listens, Broadcast.attached, Broadcast.channel] at listens
      · simpa only [Listens, Function.update_of_ne fresh] using listens

theorem attach_listens (m : MemoryBroker) (target : Nat)
    (listens : (m.attach target).1.Listens sender r) :
    sender = target ∧ r = m.nextReceiver ∨ m.Listens sender r := by
  by_cases same : sender = target
  · subst same
    simp only [Listens, attach, Function.update_self, Broadcast.subscribe_attached] at listens
    rcases listens with new | old
    · exact .inl ⟨rfl, new⟩
    · exact .inr old
  · simp only [Listens, attach, Function.update_of_ne same] at listens
    exact .inr listens

theorem subscribe_listens (opened : (m.subscribe topic).2 = .ok stream)
    (listens : (m.subscribe topic).1.Listens sender r) :
    sender = stream.sender ∧ r = stream.receiver ∨ m.Listens sender r := by
  simp only [subscribe, senderFor_eq_orInsert] at opened listens
  cases opened
  rcases attach_listens _ _ listens with new | old
  · exact .inl new
  · exact .inr (orInsert_listens m topic old)

theorem publish_listens (listens : (m.publish topic p).1.Listens sender r) :
    m.Listens sender r := by
  unfold publish at listens
  cases found : m.topics.get topic with
  | none =>
      rw [found] at listens
      exact listens
  | some stored =>
      rw [found] at listens
      rcases m.send_cases stored p with ⟨sent, -⟩ | ⟨refused, -⟩
      · simp only [sent] at listens
        by_cases same : sender = stored
        · subst same
          simpa only [Listens, pushAt, Function.update_self, Broadcast.push_attached] using listens
        · simpa only [Listens, pushAt, Function.update_of_ne same] using listens
      · simp only [refused] at listens
        rwa [Listens, (m.removeIf_senders topic).1] at listens

theorem setQueue_listens {queue : Broadcast Publication} {outcome : Recv Publication}
    (received : (m.senders stream.sender).queue.recv stream.receiver = (queue, outcome))
    (listens : (m.setQueue stream.sender queue).Listens sender r) : m.Listens sender r := by
  have frame := ((m.senders stream.sender).queue.recv_frame stream.receiver).2.1 r
  rw [received] at frame
  by_cases same : sender = stream.sender
  · subst same
    simp only [Listens, setQueue, Function.update_self] at listens
    exact frame.mp listens
  · simpa only [Listens, setQueue, Function.update_of_ne same] using listens

theorem next_listens (listens : (m.next stream).1.Listens sender r) : m.Listens sender r := by
  have polled := m.next_polled stream
  revert listens
  generalize m.next stream = out at polled
  intro listens
  cases polled with
  | ready received => exact setQueue_listens received listens
  | lagged received => exact setQueue_listens received listens
  | pending => exact listens
  | finished => exact listens

theorem dropStream_listens (listens : (m.dropStream stream).Listens sender r) :
    m.Listens sender r ∧ (sender = stream.sender → r ≠ stream.receiver) := by
  by_cases same : sender = stream.sender
  · subst same
    simp only [Listens, dropStream, Function.update_self, Broadcast.detach_attached] at listens
    exact ⟨listens.2, fun _ => listens.1⟩
  · simp only [Listens, dropStream, Function.update_of_ne same] at listens
    exact ⟨listens, fun here => absurd here same⟩

theorem subscribe_droppedTotal (m : MemoryBroker) (topic : String) :
    (m.subscribe topic).1.droppedTotal = m.droppedTotal := by
  simp only [subscribe, senderFor_eq_orInsert, attach, orInsert]
  split <;> rfl

theorem publish_droppedTotal (m : MemoryBroker) (topic : String) (p : Publication) :
    (m.publish topic p).1.droppedTotal = m.droppedTotal := by
  unfold publish
  cases found : m.topics.get topic with
  | none => rfl
  | some stored =>
      dsimp only
      rcases m.send_cases stored p with ⟨sent, -⟩ | ⟨refused, -⟩
      · simp only [sent]
        rfl
      · simp only [refused, removeIf, found]
        split <;> rfl

theorem next_ready {b : MemoryBroker} (called : m.next stream = (b, .ready p)) :
    b.droppedTotal = m.droppedTotal := by
  have polled := m.next_polled stream
  rw [called] at polled
  cases polled
  rfl

theorem next_lagged {b : MemoryBroker} {k : Nat} (called : m.next stream = (b, .lagged k)) :
    k ≤ (m.unread stream).length ∧
      b.droppedTotal = Function.update m.droppedTotal stream.topicLabel
        (m.droppedTotal stream.topicLabel + k) := by
  have polled := m.next_polled stream
  rw [called] at polled
  cases polled with
  | lagged received =>
      have behind := Broadcast.recv_lagged (congrArg Prod.snd received)
      refine ⟨?_, rfl⟩
      rw [behind.2]
      exact Nat.sub_le _ _

theorem publish_stored (stored : (m.publish topic p).1.topics.get topic = some sender) :
    ∃ r, m.topics.get topic = some sender ∧ m.Listens sender r := by
  unfold publish at stored
  cases found : m.topics.get topic with
  | none =>
      rw [found] at stored
      exact absurd (found.symm.trans stored) (by simp)
  | some target =>
      rw [found] at stored
      rcases m.send_cases target p with ⟨sent, busy⟩ | ⟨refused, idle⟩
      · simp only [sent] at stored
        cases found.symm.trans stored
        obtain ⟨r, attached⟩ := Broadcast.exists_attached busy
        exact ⟨r, rfl, attached⟩
      · simp only [refused, removeIf, found, idle, if_true, DashMap.get_remove_self] at stored
        cases stored

end MemoryBroker

inductive StreamEvent where
  | subscribed (stream : MemoryStream)
  | published (topic : String) (p : Publication)
  | yielded (stream : MemoryStream) (p : Publication)
  | lagged (stream : MemoryStream) (skipped : Nat)
  deriving DecidableEq

def StreamEvent.reader : StreamEvent → Option MemoryStream
  | .yielded stream _ | .lagged stream _ => some stream
  | _ => none

inductive StreamLabel where
  | subscribe (topic : String)
  | publish (topic : String) (p : Publication)
  | receive (stream : MemoryStream)
  | drop (stream : MemoryStream)

/-- `streams` are the streams that were returned and not dropped. -/
structure StreamState where
  broker : MemoryBroker
  streams : List MemoryStream
  log : List StreamEvent

namespace StreamState

def boot (capacity : Nat) : StreamState := ⟨.withCapacity capacity, [], []⟩

def subscribed (s : StreamState) :
    MemoryBroker × Except BrokerError MemoryStream → StreamState
  | (broker, .ok stream) => ⟨broker, stream :: s.streams, .subscribed stream :: s.log⟩
  | (broker, .error _) => { s with broker }

def received (s : StreamState) (stream : MemoryStream) : MemoryBroker × Poll → StreamState
  | (broker, .ready p) => { s with broker, log := .yielded stream p :: s.log }
  | (broker, .lagged k) => { s with broker, log := .lagged stream k :: s.log }
  | (broker, .pending) | (broker, .finished) => { s with broker }

def step (s : StreamState) : StreamLabel → Option StreamState
  | .subscribe topic => some (s.subscribed (s.broker.subscribe topic))
  | .publish topic p =>
      some { s with broker := (s.broker.publish topic p).1, log := .published topic p :: s.log }
  | .receive stream =>
      if stream ∈ s.streams then some (s.received stream (s.broker.next stream)) else none
  | .drop stream =>
      if stream ∈ s.streams then
        some { s with
          broker := s.broker.dropStream stream
          streams := s.streams.filter fun other => other.receiver ≠ stream.receiver }
      else none

def machine : Machine StreamState StreamLabel := ⟨step⟩

def publishedOn (topic : String) : StreamEvent → Option Publication
  | .published t p => if t = topic then some p else none
  | _ => none

def yieldOf (stream : MemoryStream) : StreamEvent → Option Publication
  | .yielded own p => if own = stream then some p else none
  | _ => none

def lagOf (stream : MemoryStream) : StreamEvent → Option Nat
  | .lagged own k => if own = stream then some k else none
  | _ => none

def lagOn (topic : String) : StreamEvent → Option Nat
  | .lagged stream k => if stream.topicLabel = topic then some k else none
  | _ => none

def since (s : StreamState) (stream : MemoryStream) : List Publication :=
  ((s.log.takeWhile (· ≠ .subscribed stream)).filterMap (publishedOn stream.topicLabel)).reverse

def items (s : StreamState) (stream : MemoryStream) : List Publication :=
  (s.log.filterMap (yieldOf stream)).reverse

def skips (s : StreamState) (stream : MemoryStream) : List Nat := s.log.filterMap (lagOf stream)

variable {s t : StreamState} {stream other : MemoryStream} {broker : MemoryBroker}
  {streams : List MemoryStream} {e : StreamEvent}

theorem since_cons (later : e ≠ .subscribed stream) :
    (StreamState.mk broker streams (e :: s.log)).since stream =
      s.since stream ++ (publishedOn stream.topicLabel e).toList := by
  have taken : (e :: s.log).takeWhile (· ≠ .subscribed stream) =
      e :: s.log.takeWhile (· ≠ .subscribed stream) :=
    List.takeWhile_cons_of_pos (decide_eq_true later)
  simp only [since, taken, List.filterMap_cons]
  cases publishedOn stream.topicLabel e <;> simp

theorem items_cons : (StreamState.mk broker streams (e :: s.log)).items stream =
    s.items stream ++ (yieldOf stream e).toList := by
  simp only [items, List.filterMap_cons]
  cases yieldOf stream e <;> simp

theorem skips_cons : (StreamState.mk broker streams (e :: s.log)).skips stream =
    (lagOf stream e).toList ++ s.skips stream := by
  simp only [skips, List.filterMap_cons]
  cases lagOf stream e <;> simp

/-- Its items are in order among what it has read; the rest of that was skipped. -/
def Accounted (s : StreamState) (stream : MemoryStream) : Prop :=
  ∃ read, s.since stream = read ++ s.broker.unread stream ∧ (s.items stream).Sublist read ∧
    read.length = (s.items stream).length + (s.skips stream).sum

theorem Accounted.publish {extra : List Publication} (accounted : s.Accounted stream)
    (unread : t.broker.unread stream = s.broker.unread stream ++ extra)
    (since : t.since stream = s.since stream ++ extra) (items : t.items stream = s.items stream)
    (skips : t.skips stream = s.skips stream) : t.Accounted stream := by
  obtain ⟨read, split, inside, total⟩ := accounted
  refine ⟨read, ?_, ?_, ?_⟩
  · rw [since, unread, split, List.append_assoc]
  · rw [items]
    exact inside
  · rw [items, skips, total]

theorem Accounted.idle (accounted : s.Accounted stream)
    (unread : t.broker.unread stream = s.broker.unread stream)
    (since : t.since stream = s.since stream) (items : t.items stream = s.items stream)
    (skips : t.skips stream = s.skips stream) : t.Accounted stream :=
  accounted.publish (unread.trans (List.append_nil _).symm) (since.trans (List.append_nil _).symm)
    items skips

theorem Accounted.yield {p : Publication} (accounted : s.Accounted stream)
    (unread : s.broker.unread stream = p :: t.broker.unread stream)
    (since : t.since stream = s.since stream) (items : t.items stream = s.items stream ++ [p])
    (skips : t.skips stream = s.skips stream) : t.Accounted stream := by
  obtain ⟨read, split, inside, total⟩ := accounted
  refine ⟨read ++ [p], ?_, ?_, ?_⟩
  · rw [since, split, unread, List.append_assoc]
    rfl
  · rw [items]
    exact inside.append (List.Sublist.refl _)
  · rw [items, skips, List.length_append, List.length_append, total]
    omega

theorem Accounted.lag {k : Nat} (accounted : s.Accounted stream)
    (unread : t.broker.unread stream = (s.broker.unread stream).drop k)
    (enough : k ≤ (s.broker.unread stream).length)
    (since : t.since stream = s.since stream) (items : t.items stream = s.items stream)
    (skips : t.skips stream = k :: s.skips stream) : t.Accounted stream := by
  obtain ⟨read, split, inside, total⟩ := accounted
  refine ⟨read ++ (s.broker.unread stream).take k, ?_, ?_, ?_⟩
  · rw [since, split, unread, List.append_assoc, List.take_append_drop]
  · rw [items]
    exact inside.trans (List.sublist_append_left _ _)
  · rw [items, skips, List.sum_cons, List.length_append, List.length_take, total]
    omega

structure Balanced (s : StreamState) : Prop where
  wf : s.broker.Wf
  live : ∀ stream ∈ s.streams, s.broker.Live stream
  apart : ∀ x ∈ s.streams, ∀ y ∈ s.streams, x.receiver = y.receiver → x = y
  attended : ∀ sender r, s.broker.Listens sender r →
    ∃ stream ∈ s.streams, stream.sender = sender ∧ stream.receiver = r
  known : ∀ e ∈ s.log, ∀ stream ∈ e.reader, stream.receiver < s.broker.nextReceiver
  accounts : ∀ stream ∈ s.streams, s.Accounted stream
  counted : ∀ topic, s.broker.droppedTotal topic = (s.log.filterMap (lagOn topic)).sum

theorem boot_balanced (capacity : Nat) : (boot capacity).Balanced where
  wf := MemoryBroker.withCapacity_wf capacity
  live stream member := by cases member
  apart x member := by cases member
  attended sender r listens := by
    simp [boot, MemoryBroker.Listens, MemoryBroker.withCapacity, Broadcast.attached,
      Broadcast.channel] at listens
  known e member := by cases member
  accounts stream member := by cases member
  counted topic := rfl

theorem Balanced.unread_of_fresh (balanced : s.Balanced)
    (fresh : stream.receiver = s.broker.nextReceiver) : s.items stream = [] ∧ s.skips stream = [] := by
  have none_reads : ∀ e ∈ s.log, yieldOf stream e = none ∧ lagOf stream e = none := by
    intro e member
    have known := balanced.known e member
    cases e with
    | yielded own p =>
        have other : own ≠ stream := by
          rintro rfl
          exact absurd (known own rfl) (by omega)
        simp [yieldOf, lagOf, other]
    | lagged own k =>
        have other : own ≠ stream := by
          rintro rfl
          exact absurd (known own rfl) (by omega)
        simp [yieldOf, lagOf, other]
    | subscribed own => exact ⟨rfl, rfl⟩
    | published topic p => exact ⟨rfl, rfl⟩
  constructor
  · rw [items, List.filterMap_eq_nil_iff.mpr fun e member => (none_reads e member).1]
    rfl
  · exact List.filterMap_eq_nil_iff.mpr fun e member => (none_reads e member).2

theorem Balanced.subscribe (balanced : s.Balanced) (topic : String) :
    (s.subscribed (s.broker.subscribe topic)).Balanced := by
  obtain ⟨stream, opened, subscribes⟩ := MemoryBroker.subscribe_subscribes balanced.wf topic
  have listens : ∀ sender r, (s.broker.subscribe topic).1.Listens sender r → _ :=
    fun _ _ => MemoryBroker.subscribe_listens opened
  have dropped := s.broker.subscribe_droppedTotal topic
  have older : ∀ other ∈ s.streams, other.receiver < stream.receiver := by
    intro other member
    rw [subscribes.fresh]
    exact (balanced.live other member).receiver_lt balanced.wf
  cases called : s.broker.subscribe topic with
  | mk broker result =>
      rw [called] at opened subscribes listens dropped
      cases opened
      refine ⟨subscribes.wf, ?_, ?_, ?_, ?_, ?_, ?_⟩
      · intro other member
        rcases List.mem_cons.mp member with rfl | old
        · exact subscribes.live
        · exact (subscribes.others other (balanced.live other old)).1
      · intro x first y second same
        rcases List.mem_cons.mp first with rfl | old <;> rcases List.mem_cons.mp second with rfl | old'
        · rfl
        · exact absurd same (Nat.ne_of_gt (older y old'))
        · exact absurd same (Nat.ne_of_lt (older x old))
        · exact balanced.apart x old y old' same
      · intro sender r attached
        rcases listens sender r attached with ⟨rfl, rfl⟩ | old
        · exact ⟨stream, List.mem_cons_self, rfl, rfl⟩
        · obtain ⟨other, member, here⟩ := balanced.attended sender r old
          exact ⟨other, List.mem_cons_of_mem _ member, here⟩
      · intro e member own reads
        rcases List.mem_cons.mp member with rfl | old
        · cases reads
        · exact Nat.lt_of_lt_of_eq (Nat.lt_succ_of_lt (balanced.known e old own reads))
            subscribes.next.symm
      · intro other member
        rcases List.mem_cons.mp member with rfl | old
        · obtain ⟨items, skips⟩ := balanced.unread_of_fresh subscribes.fresh
          refine ⟨[], ?_, ?_, ?_⟩
          · simp [subscribed, since, subscribes.empty]
          · rw [subscribed, items_cons, items]
            exact List.Sublist.refl _
          · rw [subscribed, items_cons, skips_cons, items, skips]
            rfl
        · have distinct : StreamEvent.subscribed stream ≠ .subscribed other := by
            intro same
            cases same
            exact absurd (older _ old) (Nat.lt_irrefl _)
          refine (balanced.accounts other old).idle
            (subscribes.others other (balanced.live other old)).2 ?_ ?_ ?_
          · exact (since_cons distinct).trans (List.append_nil _)
          · exact items_cons.trans (List.append_nil _)
          · exact skips_cons
      · intro topic
        exact (congrFun dropped topic).trans (balanced.counted topic)

theorem Balanced.publish (balanced : s.Balanced) (topic : String) (p : Publication) :
    (StreamState.mk (s.broker.publish topic p).1 s.streams (.published topic p :: s.log)).Balanced := by
  obtain ⟨-, publishes⟩ := MemoryBroker.publish_publishes balanced.wf topic p
  refine ⟨publishes.wf, ?_, balanced.apart, ?_, ?_, ?_, ?_⟩
  · intro stream member
    exact (publishes.streams stream (balanced.live stream member)).1
  · intro sender r listens
    exact balanced.attended sender r (MemoryBroker.publish_listens listens)
  · intro e member own reads
    rcases List.mem_cons.mp member with rfl | old
    · cases reads
    · exact Nat.lt_of_lt_of_eq (balanced.known e old own reads) publishes.next.symm
  · intro stream member
    have appended := (publishes.streams stream (balanced.live stream member)).2
    refine (balanced.accounts stream member).publish appended ?_ ?_ ?_
    · rw [since_cons (by simp), publishedOn]
      by_cases here : topic = stream.topicLabel
      · rw [if_pos here, if_pos here.symm]
        rfl
      · rw [if_neg here, if_neg (Ne.symm here)]
        rfl
    · exact items_cons.trans (List.append_nil _)
    · exact skips_cons
  · intro other
    exact (congrFun (s.broker.publish_droppedTotal topic p) other).trans (balanced.counted other)

theorem Balanced.read (balanced : s.Balanced) (opened : stream ∈ s.streams) {e : StreamEvent}
    (reads : ∀ own ∈ e.reader, own = stream)
    (quiet : ∀ other, other ≠ stream → e ≠ .subscribed other ∧
      publishedOn other.topicLabel e = none ∧ yieldOf other e = none ∧ lagOf other e = none)
    (account : (StreamState.mk (s.broker.next stream).1 s.streams (e :: s.log)).Accounted stream)
    (counted : ∀ topic, (s.broker.next stream).1.droppedTotal topic =
      ((e :: s.log).filterMap (lagOn topic)).sum) :
    (StreamState.mk (s.broker.next stream).1 s.streams (e :: s.log)).Balanced := by
  have polls := MemoryBroker.next_polls balanced.wf stream
  refine ⟨polls.wf, ?_, balanced.apart, ?_, ?_, ?_, counted⟩
  · intro other member
    exact polls.live other (balanced.live other member)
  · intro sender r listens
    exact balanced.attended sender r (MemoryBroker.next_listens listens)
  · intro event member own reader
    refine Nat.lt_of_lt_of_eq ?_ polls.next.symm
    rcases List.mem_cons.mp member with rfl | old
    · rw [reads own reader]
      exact (balanced.live stream opened).receiver_lt balanced.wf
    · exact balanced.known event old own reader
  · intro other member
    by_cases same : other = stream
    · subst same
      exact account
    · obtain ⟨later, silent, yields, lags⟩ := quiet other same
      refine (balanced.accounts other member).idle (polls.others other ?_) ?_ ?_ ?_
      · intro sameReceiver
        exact same (balanced.apart other member stream opened sameReceiver)
      · rw [since_cons later, silent]
        exact List.append_nil _
      · rw [items_cons, yields]
        exact List.append_nil _
      · rw [skips_cons, lags]
        rfl

theorem lagOn_cons (topic : String) (e : StreamEvent) (log : List StreamEvent) :
    ((e :: log).filterMap (lagOn topic)).sum =
      (lagOn topic e).getD 0 + (log.filterMap (lagOn topic)).sum := by
  cases lag : lagOn topic e <;> simp [lag]

theorem Balanced.receive (balanced : s.Balanced) (opened : stream ∈ s.streams) :
    (s.received stream (s.broker.next stream)).Balanced := by
  have moves := s.broker.next_moves stream
  have account := balanced.accounts stream opened
  cases called : s.broker.next stream with
  | mk broker outcome =>
      rw [called] at moves
      cases outcome with
      | ready p =>
          have read := balanced.read opened (e := .yielded stream p)
          rw [called] at read
          refine read (fun own reads => (Option.some.inj reads).symm) ?_ ?_ ?_
          · intro other different
            exact ⟨by simp, rfl, if_neg (Ne.symm different), rfl⟩
          · refine account.yield moves ?_ ?_ ?_
            · exact (since_cons (by simp)).trans (List.append_nil _)
            · rw [items_cons, yieldOf, if_pos rfl]
              rfl
            · exact skips_cons
          · intro topic
            rw [lagOn_cons, MemoryBroker.next_ready called, balanced.counted]
            exact (Nat.zero_add _).symm
      | lagged k =>
          have read := balanced.read opened (e := .lagged stream k)
          obtain ⟨enough, dropped⟩ := MemoryBroker.next_lagged called
          rw [called] at read
          refine read (fun own reads => (Option.some.inj reads).symm) ?_ ?_ ?_
          · intro other different
            exact ⟨by simp, rfl, rfl, if_neg (Ne.symm different)⟩
          · refine account.lag moves enough ?_ ?_ ?_
            · exact (since_cons (by simp)).trans (List.append_nil _)
            · exact items_cons.trans (List.append_nil _)
            · rw [skips_cons, lagOf, if_pos rfl]
              rfl
          · intro topic
            rw [lagOn_cons, dropped, ← balanced.counted, lagOn]
            by_cases here : topic = stream.topicLabel
            · subst here
              rw [Function.update_self, if_pos rfl, Nat.add_comm]
              rfl
            · rw [Function.update_of_ne here, if_neg (Ne.symm here)]
              exact (Nat.zero_add _).symm
      | pending =>
          rw [received, MemoryBroker.next_still called (.inl rfl)]
          exact balanced
      | finished =>
          rw [received, MemoryBroker.next_still called (.inr rfl)]
          exact balanced

theorem Balanced.drop (balanced : s.Balanced) (opened : stream ∈ s.streams) :
    (StreamState.mk (s.broker.dropStream stream)
      (s.streams.filter fun other => other.receiver ≠ stream.receiver) s.log).Balanced := by
  obtain ⟨wf, live, unread, next⟩ := MemoryBroker.dropStream_drops balanced.wf stream
  have open_ : ∀ other ∈ s.streams.filter (fun other => other.receiver ≠ stream.receiver),
      other ∈ s.streams ∧ other.receiver ≠ stream.receiver := by
    intro other member
    obtain ⟨inside, apart⟩ := List.mem_filter.mp member
    exact ⟨inside, of_decide_eq_true apart⟩
  refine ⟨wf, ?_, ?_, ?_, ?_, ?_, balanced.counted⟩
  · intro other member
    obtain ⟨inside, apart⟩ := open_ other member
    exact live other apart (balanced.live other inside)
  · intro x first y second same
    exact balanced.apart x (open_ x first).1 y (open_ y second).1 same
  · intro sender r listens
    obtain ⟨before, apart⟩ := MemoryBroker.dropStream_listens listens
    obtain ⟨other, inside, rfl, rfl⟩ := balanced.attended sender r before
    refine ⟨other, List.mem_filter.mpr ⟨inside, decide_eq_true ?_⟩, rfl, rfl⟩
    intro same
    obtain rfl := balanced.apart other inside stream opened same
    exact apart rfl rfl
  · intro e member own reads
    exact Nat.lt_of_lt_of_eq (balanced.known e member own reads) next.symm
  · intro other member
    obtain ⟨inside, apart⟩ := open_ other member
    exact (balanced.accounts other inside).idle (unread other apart) rfl rfl rfl

theorem step_balanced {l : StreamLabel} (balanced : s.Balanced)
    (stepped : machine.step s l = some t) : t.Balanced := by
  cases l with
  | subscribe topic =>
      cases stepped
      exact balanced.subscribe topic
  | publish topic p =>
      cases stepped
      exact balanced.publish topic p
  | receive stream =>
      simp only [machine, step] at stepped
      split at stepped
      · next opened =>
          cases stepped
          exact balanced.receive opened
      · cases stepped
  | drop stream =>
      simp only [machine, step] at stepped
      split at stepped
      · next opened =>
          cases stepped
          exact balanced.drop opened
      · cases stepped

theorem run_balanced {ok : StreamState → StreamLabel → Prop} {capacity : Nat}
    (run : machine.Run ok (boot capacity) s) : s.Balanced :=
  run.invariant (boot_balanced capacity) fun _ _ _ balanced _ stepped =>
    step_balanced balanced stepped

/-- Every publication is yielded in order or counted as dropped, streams keep their topics, and a
publish leaves no topic that nobody has open. -/
theorem broker_accounts {capacity : Nat} (run : machine.Run Machine.free (boot capacity) s) :
    (∀ stream ∈ s.streams,
      (s.items stream).Sublist (s.since stream) ∧
        ((s.broker.next stream).2 = .pending →
          (s.items stream).length + (s.skips stream).sum = (s.since stream).length) ∧
        s.broker.topics.get stream.topicLabel = some stream.sender) ∧
      (∀ topic, s.broker.droppedTotal topic = (s.log.filterMap (lagOn topic)).sum) ∧
      ∀ topic p t, machine.step s (.publish topic p) = some t →
        (t.broker.topics.get topic).isSome = true →
          ∃ stream ∈ t.streams, stream.topicLabel = topic := by
  have balanced := run_balanced run
  refine ⟨?_, balanced.counted, ?_⟩
  · intro stream opened
    obtain ⟨read, split, inside, total⟩ := balanced.accounts stream opened
    refine ⟨?_, ?_, (balanced.live stream opened).stored⟩
    · rw [split]
      exact inside.trans (List.sublist_append_left _ _)
    · intro pending
      have moves := s.broker.next_moves stream
      rw [pending] at moves
      rw [split, moves.1, List.append_nil, total]
  · intro topic p t stepped stored
    cases stepped
    obtain ⟨sender, found⟩ := Option.isSome_iff_exists.mp stored
    obtain ⟨r, before, listens⟩ := MemoryBroker.publish_stored found
    obtain ⟨stream, opened, rfl, -⟩ := balanced.attended sender r listens
    have own := (balanced.live stream opened).stored
    exact ⟨stream, opened, (balanced.wf.topic _ _ own).symm.trans (balanced.wf.topic _ _ before)⟩

def listener : MemoryStream := ⟨"rooms", 0, 0⟩

def behind : List StreamLabel := [
  .subscribe "rooms", .publish "rooms" ⟨"rooms", 0, [1]⟩, .publish "rooms" ⟨"rooms", 1, [2]⟩,
  .publish "rooms" ⟨"rooms", 2, [3]⟩, .publish "news" ⟨"news", 0, [4]⟩,
  .receive listener, .receive listener]

deriving instance DecidableEq for Poll

theorem broker_accounts_behind :
    ∃ s, machine.Run Machine.free (boot 1) s ∧ s.items listener = [⟨"rooms", 2, [3]⟩] ∧
      s.skips listener = [2] ∧ s.broker.droppedTotal "rooms" = 2 ∧
      (s.items listener).length + (s.skips listener).sum = (s.since listener).length := by
  obtain ⟨s, -, run, opened, pending, items, skips, dropped⟩ := Machine.exec_witness (M := machine)
    (s := boot 1) behind (fun s => listener ∈ s.streams ∧
      (s.broker.next listener).2 = .pending ∧ s.items listener = [⟨"rooms", 2, [3]⟩] ∧
      s.skips listener = [2] ∧ s.broker.droppedTotal "rooms" = 2) (by decide +kernel)
  exact ⟨s, run, items, skips, dropped, ((broker_accounts run).1 _ opened).2.1 pending⟩

end StreamState

end Cherenkov
