import Cherenkov.Library.Feed
import Cherenkov.Hub.Flow

/-! Every open subscription reads from the sender that publishers of its channel find, and no two
subscriptions share a receiver. With pub/sub kinds, what is queued for a subscription was published
on its channel. With these facts the data path, restricted to one channel, simulates an abstract
feed: each step of the hub is one step of the feed of every channel. -/

namespace Cherenkov

variable {κ ε : Type}

/-- Everything the subscription still has to put into the outbox, in order. -/
def Subscription.queue (sub : Subscription) (m : MemoryBroker) : List Publication :=
  sub.replay ++ (sub.inHand.toList ++ m.unread sub.stream)

namespace Flow

structure Wf (v : Flow κ) : Prop where
  broker : v.broker.Wf
  live : ∀ n sub, v.subs n = some sub → v.broker.Live sub.stream
  label : ∀ n sub, v.subs n = some sub → sub.stream.topicLabel = sub.channel
  apart : ∀ n m sub sub', v.subs n = some sub → v.subs m = some sub' →
    sub.stream.receiver = sub'.stream.receiver → n = m

/-- A step that edits one subscription and moves the broker for it alone. -/
structure Edits (v : Flow κ) (n : Nat) (sub sub' : Subscription) (b : MemoryBroker) : Prop where
  held : v.subs n = some sub
  channel : sub'.channel = sub.channel
  stream : sub'.stream = sub.stream
  wf : b.Wf
  live : ∀ other, v.broker.Live other → b.Live other
  others : ∀ other, other.receiver ≠ sub.stream.receiver → b.unread other = v.broker.unread other

section

variable {v v' : Flow κ} {n : Nat} {sub sub' : Subscription} {b : MemoryBroker}

theorem Wf.receiver_ne (wf : v.Wf) {m : Nat} (held : v.subs n = some sub)
    (other : v.subs m = some sub') (ne : m ≠ n) : sub'.stream.receiver ≠ sub.stream.receiver :=
  fun same => ne (wf.apart m n sub' sub other held same)

theorem subs_edited {new : Option Subscription} {m : Nat} {x : Subscription}
    (found : Function.update v.subs n new m = some x) :
    (m = n ∧ new = some x) ∨ (m ≠ n ∧ v.subs m = some x) := by
  rw [Function.update_apply] at found
  split at found
  · next same => exact .inl ⟨same, found⟩
  · next other => exact .inr ⟨other, found⟩

theorem Edits.wf_setSub (wf : v.Wf) (edit : v.Edits n sub sub' b)
    (subs : v'.subs = Function.update v.subs n (some sub')) (broker : v'.broker = b) : v'.Wf := by
  refine ⟨broker ▸ edit.wf, ?_, ?_, ?_⟩
  · intro m x found
    rw [subs] at found
    rw [broker]
    rcases subs_edited found with ⟨rfl, same⟩ | ⟨_, old⟩
    · cases same
      rw [edit.stream]
      exact edit.live _ (wf.live _ _ edit.held)
    · exact edit.live _ (wf.live m x old)
  · intro m x found
    rw [subs] at found
    rcases subs_edited found with ⟨rfl, same⟩ | ⟨_, old⟩
    · cases same
      rw [edit.stream, edit.channel]
      exact wf.label _ _ edit.held
    · exact wf.label m x old
  · intro m k x y first second same
    rw [subs] at first second
    rcases subs_edited first with ⟨rfl, edited⟩ | ⟨_, old⟩ <;>
      rcases subs_edited second with ⟨rfl, edited'⟩ | ⟨_, old'⟩
    · rfl
    · cases edited
      rw [edit.stream] at same
      exact wf.apart _ _ _ _ edit.held old' same
    · cases edited'
      rw [edit.stream] at same
      exact wf.apart _ _ _ _ old edit.held same
    · exact wf.apart _ _ _ _ old old' same

theorem edits_local (wf : v.Wf) (held : v.subs n = some sub) (sub' : Subscription)
    (channel : sub'.channel = sub.channel) (stream : sub'.stream = sub.stream) :
    v.Edits n sub sub' v.broker :=
  ⟨held, channel, stream, wf.broker, fun _ h => h, fun _ _ => rfl⟩

theorem edits_poll (wf : v.Wf) {outcome : Poll} (held : v.subs n = some sub) (sub' : Subscription)
    (channel : sub'.channel = sub.channel) (stream : sub'.stream = sub.stream)
    (next : v.broker.next sub.stream = (b, outcome)) : v.Edits n sub sub' b := by
  have polls := MemoryBroker.next_polls wf.broker sub.stream
  rw [next] at polls
  exact ⟨held, channel, stream, polls.wf, polls.live, polls.others⟩

theorem next_unread {m b : MemoryBroker} {stream : MemoryStream} {outcome : Poll}
    (next : m.next stream = (b, outcome)) : outcome.Moves (m.unread stream) (b.unread stream) := by
  have moved := m.next_moves stream
  rw [next] at moved
  exact moved

theorem Step.wf {K : ChannelKind κ} {kindFor : String → Nat} (step : Step K kindFor v v')
    (wf : v.Wf) : v'.Wf := by
  cases step with
  | idle kinds turns => exact ⟨wf.broker, wf.live, wf.label, wf.apart⟩
  | accepted n ref now channel data p ps vacant accepts =>
      exact ⟨wf.broker, wf.live, wf.label, wf.apart⟩
  | broadcast n ref channel p flying =>
      obtain ⟨_, publishes⟩ := MemoryBroker.publish_publishes wf.broker channel p
      refine ⟨publishes.wf, ?_, wf.label, wf.apart⟩
      exact fun m sub found => (publishes.streams _ (wf.live m sub found)).1
  | replayed n ref sub p rest due active head =>
      exact (edits_local wf due { sub with replay := rest } rfl rfl).wf_setSub wf rfl rfl
  | abandoned n sub due kinds turns =>
      exact (edits_local wf due { sub with replay := [], active := false } rfl rfl).wf_setSub wf
        rfl rfl
  | took n sub p b due live free next =>
      exact (edits_poll wf due { sub with inHand := some p } rfl rfl next).wf_setSub wf rfl rfl
  | lagged n sub k b due live free next =>
      refine (edits_poll wf due sub rfl rfl next).wf_setSub wf ?_ rfl
      rw [← due, Function.update_eq_self]
  | sent n ref sub p due active live holding =>
      exact (edits_local wf due { sub with inHand := none } rfl rfl).wf_setSub wf rfl rfl
  | dropped n sub due kinds turns =>
      obtain ⟨broker, live, unread, _⟩ := MemoryBroker.dropStream_drops wf.broker sub.stream
      have old : ∀ m x, Function.update v.subs n none m = some x → m ≠ n ∧ v.subs m = some x := by
        intro m x found
        rcases subs_edited found with ⟨_, gone⟩ | older
        · cases gone
        · exact older
      refine ⟨broker, ?_, ?_, ?_⟩
      · intro m x found
        obtain ⟨ne, before⟩ := old m x found
        exact live _ (wf.receiver_ne due before ne) (wf.live m x before)
      · exact fun m x found => wf.label m x (old m x found).2
      · exact fun m k x y first second => wf.apart m k x y (old m x first).2 (old k y second).2

theorem Opens.wf {channel : String} (step : v.Opens n channel v') (wf : v.Wf) : v'.Wf := by
  obtain ⟨stream, opened, rfl⟩ := step.result
  obtain ⟨same, opened', subscribes⟩ := MemoryBroker.subscribe_subscribes wf.broker channel
  cases opened.symm.trans opened'
  have older : ∀ m x, v.subs m = some x → x.stream.receiver ≠ stream.receiver := by
    intro m x found same
    have bound := (wf.live m x found).receiver_lt wf.broker
    rw [same, subscribes.fresh] at bound
    exact Nat.lt_irrefl _ bound
  refine ⟨subscribes.wf, ?_, ?_, ?_⟩
  · intro m x found
    rcases subs_edited found with ⟨_, same⟩ | ⟨_, old⟩
    · cases same
      exact subscribes.live
    · exact (subscribes.others _ (wf.live m x old)).1
  · intro m x found
    rcases subs_edited found with ⟨_, same⟩ | ⟨_, old⟩
    · cases same
      exact subscribes.label
    · exact wf.label m x old
  · intro m k x y first second same
    rcases subs_edited first with ⟨rfl, opened⟩ | ⟨_, old⟩ <;>
      rcases subs_edited second with ⟨rfl, opened'⟩ | ⟨_, old'⟩
    · rfl
    · cases opened
      exact absurd same.symm (older k y old')
    · cases opened'
      exact absurd same (older m x old)
    · exact wf.apart m k x y old old' same

theorem Reads.wf {K : ChannelKind κ} {kindFor : String → Nat} {channel : String} {since : Nat}
    (step : v.Reads K kindFor n channel since v') (wf : v.Wf) : v'.Wf := by
  obtain ⟨stream, now, replayed, held, read, rfl⟩ := step.result
  exact (edits_local wf held ⟨channel, stream, replayed, none, true⟩ rfl rfl).wf_setSub wf rfl rfl

end

structure Labelled (v : Flow PubSubChannel) : Prop where
  queue : ∀ n sub, v.subs n = some sub → ∀ p ∈ sub.queue v.broker, p.channel = sub.channel
  flight : ∀ n channel p, v.flight n = some (channel, p) → p.channel = channel

section

variable {v v' : Flow PubSubChannel} {n : Nat} {sub sub' : Subscription} {b : MemoryBroker}
  {kindFor : String → Nat}

theorem Edits.labelled (wf : v.Wf) (labelled : v.Labelled) (edit : v.Edits n sub sub' b)
    (queue : ∀ p ∈ sub'.queue b, p.channel = sub.channel)
    (subs : v'.subs = Function.update v.subs n (some sub')) (broker : v'.broker = b)
    (flight : v'.flight = v.flight) : v'.Labelled := by
  refine ⟨?_, ?_⟩
  · intro m x found p member
    rw [subs] at found
    rw [broker] at member
    rcases subs_edited found with ⟨rfl, same⟩ | ⟨ne, old⟩
    · cases same
      rw [edit.channel]
      exact queue p member
    · rw [Subscription.queue, edit.others _ (wf.receiver_ne edit.held old ne)] at member
      exact labelled.queue m x old p member
  · rw [flight]
    exact labelled.flight

theorem Step.labelled (step : Step PubSubChannel.channelKind kindFor v v') (wf : v.Wf)
    (labelled : v.Labelled) : v'.Labelled := by
  cases step with
  | idle kinds turns => exact ⟨labelled.queue, labelled.flight⟩
  | accepted n ref now channel data p ps vacant accepts =>
      refine ⟨labelled.queue, ?_⟩
      intro m c q found
      simp only [Function.update_apply] at found
      split at found
      · cases found
        rw [(PubSubChannel.onPublish_accepts accepts).publication]
      · exact labelled.flight m c q found
  | broadcast n ref channel p flying =>
      obtain ⟨_, publishes⟩ := MemoryBroker.publish_publishes wf.broker channel p
      refine ⟨?_, ?_⟩
      · intro m sub found q member
        rw [Subscription.queue, (publishes.streams _ (wf.live m sub found)).2,
          ← List.append_assoc, ← List.append_assoc] at member
        rcases List.mem_append.mp member with old | new
        · exact labelled.queue m sub found q (by simpa [Subscription.queue] using old)
        · split at new
          · next here =>
              rw [List.mem_singleton.mp new, labelled.flight n channel p flying, ← here]
              exact wf.label m sub found
          · cases new
      · intro m c q found
        simp only [Function.update_apply] at found
        split at found
        · cases found
        · exact labelled.flight m c q found
  | replayed n ref sub p rest due active head =>
      refine (edits_local wf due { sub with replay := rest } rfl rfl).labelled wf labelled ?_
        rfl rfl rfl
      intro q member
      apply labelled.queue n sub due
      rw [Subscription.queue, head]
      exact List.mem_cons_of_mem _ member
  | abandoned n sub due kinds turns =>
      refine (edits_local wf due { sub with replay := [], active := false } rfl rfl).labelled wf
        labelled ?_ rfl rfl rfl
      intro q member
      exact labelled.queue n sub due q (List.mem_append_right _ member)
  | took n sub p b due live free next =>
      refine (edits_poll wf due { sub with inHand := some p } rfl rfl next).labelled wf labelled ?_
        rfl rfl rfl
      intro q member
      have moved : v.broker.unread sub.stream = p :: b.unread sub.stream := next_unread next
      apply labelled.queue n sub due
      rw [Subscription.queue, free, moved]
      exact member
  | lagged n sub k b due live free next =>
      refine (edits_poll wf due sub rfl rfl next).labelled wf labelled ?_ ?_ rfl rfl
      · intro q member
        have moved : b.unread sub.stream = (v.broker.unread sub.stream).drop k := next_unread next
        apply labelled.queue n sub due
        rw [Subscription.queue, moved] at member
        simp only [Subscription.queue, List.mem_append] at member ⊢
        rcases member with old | old | old
        · exact .inl old
        · exact .inr (.inl old)
        · exact .inr (.inr (List.mem_of_mem_drop old))
      · rw [← due, Function.update_eq_self]
  | sent n ref sub p due active live holding =>
      refine (edits_local wf due { sub with inHand := none } rfl rfl).labelled wf labelled ?_
        rfl rfl rfl
      intro q member
      apply labelled.queue n sub due
      rw [Subscription.queue, holding]
      rcases List.mem_append.mp member with old | old
      · exact List.mem_append_left _ old
      · exact List.mem_append_right _ (List.mem_cons_of_mem _ old)
  | dropped n sub due kinds turns =>
      obtain ⟨_, _, unread, _⟩ := MemoryBroker.dropStream_drops wf.broker sub.stream
      refine ⟨?_, labelled.flight⟩
      intro m x found p member
      rcases subs_edited found with ⟨_, gone⟩ | ⟨ne, before⟩
      · cases gone
      · rw [Subscription.queue, unread _ (wf.receiver_ne due before ne)] at member
        exact labelled.queue m x before p member

theorem Opens.labelled {channel : String} (step : v.Opens n channel v') (wf : v.Wf)
    (labelled : v.Labelled) : v'.Labelled := by
  obtain ⟨stream, opened, rfl⟩ := step.result
  obtain ⟨same, opened', subscribes⟩ := MemoryBroker.subscribe_subscribes wf.broker channel
  cases opened.symm.trans opened'
  refine ⟨?_, labelled.flight⟩
  intro m x found p member
  rcases subs_edited found with ⟨_, same⟩ | ⟨_, old⟩
  · cases same
    simp [Subscription.queue, subscribes.empty] at member
  · rw [Subscription.queue, (subscribes.others _ (wf.live m x old)).2] at member
    exact labelled.queue m x old p member

theorem Reads.labelled {channel : String} {since : Nat}
    (step : v.Reads PubSubChannel.channelKind kindFor n channel since v') (wf : v.Wf)
    (labelled : v.Labelled) : v'.Labelled := by
  obtain ⟨stream, now, replayed, held, read, rfl⟩ := step.result
  obtain ⟨result, read', replays⟩ :=
    (v.kinds (kindFor channel)).replaySince_replays now channel since
  cases read.symm.trans read'
  refine (edits_local wf held ⟨channel, stream, replayed, none, true⟩ rfl rfl).labelled wf labelled
    ?_ rfl rfl rfl
  intro p member
  rcases List.mem_append.mp member with old | queued
  · rw [replays.result_eq] at old
    exact PubSubChannel.retained_channel (List.mem_filter.mp old).1
  · exact labelled.queue n _ held p queued

end

end Flow

def Event.acceptedOn (channel : String) : Event → Option Publication
  | .onPublish _ _ c _ (.ok p) => if c = channel then some p else none
  | _ => none

theorem Event.acceptedOn_eq_some {channel : String} {e : Event} {p : Publication} :
    e.acceptedOn channel = some p ↔ ∃ n ref data, e = .onPublish n ref channel data (.ok p) := by
  constructor
  · intro accepted
    cases e with
    | onPublish n ref c data result =>
        cases result with
        | error e => cases accepted
        | ok q =>
            obtain ⟨rfl, found⟩ := Option.ite_none_right_eq_some.mp accepted
            cases found
            exact ⟨n, ref, data, rfl⟩
    | _ => cases accepted
  · rintro ⟨n, ref, data, rfl⟩
    exact if_pos rfl

def Event.sentOn (channel : String) : Event → Option Publication
  | .brokerPublish _ _ c p _ => if c = channel then some p else none
  | _ => none

def Event.deliveredOn (channel : String) (n : Nat) : Event → Option Publication
  | .enqueued m _ _ p => if m = n ∧ p.channel = channel then some p else none
  | _ => none

def Event.laggedBy (n : Nat) : Event → Bool
  | .lagged m _ => m == n
  | _ => false

def Subscription.feed (channel : String) (m : MemoryBroker) (sub : Subscription) :
    Option (Feed.Sub Publication) :=
  if sub.active = true ∧ sub.channel = channel then
    some ⟨sub.replay, sub.inHand.toList ++ m.unread sub.stream⟩
  else none

theorem Subscription.feed_here {m : MemoryBroker} {sub : Subscription} (active : sub.active = true) :
    Subscription.feed sub.channel m sub =
      some ⟨sub.replay, sub.inHand.toList ++ m.unread sub.stream⟩ := by
  simp [Subscription.feed, active]

theorem Subscription.feed_elsewhere {c : String} {sub : Subscription}
    (other : sub.channel ≠ c)
    (m : MemoryBroker) :
    Subscription.feed c m sub = none := by
  simp [Subscription.feed, other]

theorem Event.delivery_ne {c : String} {n : Nat} {e : Event} (h : e.delivery ≠ some n) :
    Event.deliveredOn c n e = none ∧ Event.laggedBy n e = false := by
  cases e with
  | enqueued m ref origin p =>
      have other : m ≠ n := fun same => h (congrArg some same)
      simp [Event.deliveredOn, Event.laggedBy, other]
  | lagged m k =>
      have other : m ≠ n := fun same => h (congrArg some same)
      simp [Event.deliveredOn, Event.laggedBy, other]
  | _ => exact ⟨rfl, rfl⟩

namespace Flow

def feedSubs (channel : String) (v : Flow PubSubChannel) (n : Nat) : Option (Feed.Sub Publication) :=
  (v.subs n).bind (Subscription.feed channel v.broker)

/-- What the data path is for one channel; lists are oldest first. -/
def feed (kindFor : String → Nat) (channel : String) (v : Flow PubSubChannel) : Feed Nat Publication where
  accepted := (v.log.filterMap (Event.acceptedOn channel)).reverse
  retained := (v.kinds (kindFor channel)).retained channel
  flight n := (v.flight n).bind fun f => if f.1 = channel then some f.2 else none
  sent := (v.log.filterMap (Event.sentOn channel)).reverse
  subs := v.feedSubs channel
  delivered n := (v.log.filterMap (Event.deliveredOn channel n)).reverse
  lagged n := v.log.any (Event.laggedBy n)

variable {kindFor : String → Nat} {v v' : Flow PubSubChannel} {c : String}

@[simp] theorem feed_subs : (v.feed kindFor c).subs = v.feedSubs c := rfl

theorem feed_subs_update {b : MemoryBroker} {n : Nat} (new : Option Subscription)
    (others : ∀ m sub, m ≠ n → v.subs m = some sub →
      b.unread sub.stream = v.broker.unread sub.stream) :
    (fun m => (Function.update v.subs n new m).bind (Subscription.feed c b)) =
      Function.update (v.feedSubs c) n (new.bind (Subscription.feed c b)) := by
  funext m
  by_cases same : m = n
  · subst same
    simp only [Function.update_self]
  · simp only [Function.update_of_ne same, feedSubs]
    cases held : v.subs m with
    | none => rfl
    | some sub =>
        simp only [Option.bind_some, Subscription.feed, others m sub same held]

theorem Edits.feed_subs {n : Nat} {sub sub' : Subscription} {b : MemoryBroker}
    (edit : v.Edits n sub sub' b) (wf : v.Wf) (c : String) :
    (fun m => (Function.update v.subs n (some sub') m).bind (Subscription.feed c b)) =
      Function.update (v.feedSubs c) n (Subscription.feed c b sub') :=
  feed_subs_update (some sub') fun _ _ ne held =>
    edit.others _ (wf.receiver_ne edit.held held ne)

theorem feed_subs_held {n : Nat} {sub : Subscription} (held : v.subs n = some sub) :
    v.feedSubs c n = Subscription.feed c v.broker sub := by
  simp only [feedSubs, held, Option.bind_some]

theorem feed_enqueued {n : Nat} {sub sub' : Subscription} (wf : v.Wf) (labelled : v.Labelled)
    (edit : v.Edits n sub sub' v.broker) (active : sub.active = true) (active' : sub'.active = true)
    {p : Publication}
    (pops : Feed.Sub.Pops p ⟨sub.replay, sub.inHand.toList ++ v.broker.unread sub.stream⟩
      ⟨sub'.replay, sub'.inHand.toList ++ v.broker.unread sub'.stream⟩)
    (ref : Nat) (origin : Origin) :
    Feed.Step (v.feed kindFor c)
      (feed kindFor c { v.setSub n (some sub') with log := .enqueued n ref origin p :: v.log }) := by
  have channel : p.channel = sub.channel := by
    apply labelled.queue n sub edit.held
    have head : sub.queue v.broker = p :: sub'.queue v.broker := pops.items
    rw [head]
    exact List.mem_cons_self ..
  have subs := edit.feed_subs wf c
  by_cases here : sub.channel = c
  · subst here
    refine Feed.Step.congr (.delivered n p
      ⟨sub.replay, sub.inHand.toList ++ v.broker.unread sub.stream⟩
      ⟨sub'.replay, sub'.inHand.toList ++ v.broker.unread sub'.stream⟩
      ((feed_subs_held edit.held).trans (Subscription.feed_here active)) pops) ?_
    refine Feed.ext rfl rfl rfl rfl ?_ ?_ rfl
    · refine subs.trans ?_
      rw [← edit.channel, Subscription.feed_here active']
      rfl
    · funext m
      simp only [Flow.feed, Feed.deliver, Feed.setSub, Function.update_apply, List.filterMap_cons,
        Event.deliveredOn, channel]
      by_cases same : m = n
      · simp [same]
      · simp [same, Ne.symm same]
  · refine Feed.Step.congr .idle (Feed.ext rfl rfl rfl rfl ?_ ?_ rfl)
    · have outside := Subscription.feed_elsewhere here v.broker
      have outside' : Subscription.feed c v.broker sub' = none :=
        Subscription.feed_elsewhere (edit.channel ▸ here) _
      refine subs.trans ?_
      rw [outside', ← outside, ← feed_subs_held edit.held, Function.update_eq_self]
      rfl
    · funext m
      simp [Flow.feed, Event.deliveredOn, channel, here]

/-- A subscription leaves the feed: it unwinds or ends. -/
theorem feed_closed {n : Nat} {new : Option Subscription} {b : MemoryBroker}
    (gone : new.bind (Subscription.feed c b) = none)
    (others : ∀ m sub, m ≠ n → v.subs m = some sub →
      b.unread sub.stream = v.broker.unread sub.stream) :
    Feed.Step (v.feed kindFor c) (feed kindFor c { v.setSub n new with broker := b }) := by
  refine Feed.Step.congr (.closed n) (Feed.ext rfl rfl rfl rfl ?_ rfl rfl)
  refine (feed_subs_update new others).trans ?_
  rw [gone]
  rfl

theorem Step.feed (step : Step PubSubChannel.channelKind kindFor v v') (wf : v.Wf)
    (labelled : v.Labelled) : Feed.Step (v.feed kindFor c) (v'.feed kindFor c) := by
  cases step with
  | idle kinds turns =>
      cases PubSubChannel.turns_same turns
      exact .idle
  | accepted n ref now channel data p ps vacant accepts =>
      have accepted := PubSubChannel.onPublish_accepts accepts
      by_cases here : channel = c
      · subst here
        obtain ⟨k, history⟩ := accepted.history
        refine Feed.Step.congr (.accept n p k (by simp [Flow.feed, vacant])) ?_
        refine Feed.ext ?_ ?_ ?_ rfl rfl rfl rfl
        · simp [Flow.feed, Event.acceptedOn]
        · simp [Flow.feed, history]
        · funext m
          simp only [Flow.feed, Function.update_apply]
          split <;> simp
      · refine Feed.Step.congr .idle (Feed.ext ?_ ?_ ?_ rfl rfl rfl rfl)
        · simp [Flow.feed, Event.acceptedOn, here]
        · simp only [Flow.feed, Function.update_apply]
          split
          · next same => rw [accepted.otherHistory c (Ne.symm here), same]
          · rfl
        · funext m
          simp only [Flow.feed, Function.update_apply]
          split
          · next same => simp [same, vacant, here]
          · rfl
  | broadcast n ref channel p flying =>
      obtain ⟨_, publishes⟩ := MemoryBroker.publish_publishes wf.broker channel p
      have moved : ∀ m, (v.subs m).bind (Subscription.feed c (v.broker.publish channel p).1) =
          (v.feedSubs c m).map (if channel = c then Feed.Sub.push p else id) := by
        intro m
        simp only [feedSubs]
        cases held : v.subs m with
        | none => rfl
        | some sub =>
            have label := wf.label m sub held
            simp only [Option.bind_some, Subscription.feed,
              (publishes.streams _ (wf.live m sub held)).2, label]
            split
            · next here =>
                rw [here.2]
                by_cases same : channel = c
                · simp [same, Feed.Sub.push]
                · simp [same, Ne.symm same]
            · rfl
      by_cases here : channel = c
      · subst here
        refine Feed.Step.congr (.broadcast n p (by simp [Flow.feed, flying])) ?_
        refine Feed.ext rfl rfl ?_ ?_ ?_ rfl rfl
        · funext m
          simp only [Flow.feed, Function.update_apply]
          split <;> rfl
        · simp [Flow.feed, Event.sentOn]
        · funext m
          exact (moved m).trans (by simp)
      · refine Feed.Step.congr .idle (Feed.ext rfl rfl ?_ ?_ ?_ rfl rfl)
        · funext m
          simp only [Flow.feed, Function.update_apply]
          split
          · next same => simp [same, flying, here]
          · rfl
        · simp [Flow.feed, Event.sentOn, here]
        · funext m
          exact (moved m).trans (by simp [here])
  | replayed n ref sub p rest due active head =>
      refine feed_enqueued wf labelled (edits_local wf due { sub with replay := rest } rfl rfl)
        active active ?_ ref .replay
      rw [head]
      exact .replayed ..
  | abandoned n sub due kinds turns =>
      cases PubSubChannel.turns_same turns
      refine feed_closed ?_ fun _ _ _ _ => rfl
      simp [Subscription.feed]
  | took n sub p b due live free next =>
      have moved : v.broker.unread sub.stream = p :: b.unread sub.stream := next_unread next
      have polls := MemoryBroker.next_polls wf.broker sub.stream
      rw [next] at polls
      refine Feed.Step.congr .idle (Feed.ext rfl rfl rfl rfl ?_ rfl rfl)
      refine (feed_subs_update _ fun m x ne held =>
        polls.others _ (wf.receiver_ne due held ne)).trans ?_
      have same : (some { sub with inHand := some p }).bind (Subscription.feed c b) =
          v.feedSubs c n := by
        rw [feed_subs_held due]
        simp [Subscription.feed, free, moved]
      rw [same, Function.update_eq_self]
      rfl
  | lagged n sub k b due live free next =>
      have moved : b.unread sub.stream = (v.broker.unread sub.stream).drop k := next_unread next
      have polls := MemoryBroker.next_polls wf.broker sub.stream
      rw [next] at polls
      refine Feed.Step.congr (.lost n k) (Feed.ext rfl rfl rfl rfl ?_ rfl ?_)
      · have subs := feed_subs_update (c := c) (some sub) fun m x ne held =>
          polls.others _ (wf.receiver_ne due held ne)
        rw [← due, Function.update_eq_self, due] at subs
        refine subs.trans (congrArg _ ?_)
        change _ = (v.feedSubs c n).map (Feed.Sub.lose k)
        rw [feed_subs_held due]
        simp only [Option.bind_some, Subscription.feed, free, moved]
        split <;> rfl
      · funext m
        simp only [Flow.feed, List.any_cons, Event.laggedBy, Function.update_apply]
        by_cases same : m = n
        · simp [same]
        · simp [same, Ne.symm same]
  | sent n ref sub p due active live holding =>
      refine feed_enqueued wf labelled (edits_local wf due { sub with inHand := none } rfl rfl)
        active active ?_ ref .live
      rw [live, holding]
      exact .forwarded ..
  | dropped n sub due kinds turns =>
      cases PubSubChannel.turns_same turns
      obtain ⟨_, _, unread, _⟩ := MemoryBroker.dropStream_drops wf.broker sub.stream
      exact feed_closed rfl fun m x ne held => unread _ (wf.receiver_ne due held ne)

theorem feed_delivered_nil {n : Nat} (h : ∀ e ∈ v.log, e.delivery ≠ some n) :
    (v.feed kindFor c).delivered n = [] := by
  simp only [Flow.feed, List.reverse_eq_nil_iff, List.filterMap_eq_nil_iff]
  exact fun e member => (Event.delivery_ne (h e member)).1

theorem Opens.feed {n : Nat} {channel : String} (step : v.Opens n channel v') (wf : v.Wf) :
    if channel = c then Feed.Open (v.feed kindFor c) n (v'.feed kindFor c)
    else Feed.Step (v.feed kindFor c) (v'.feed kindFor c) := by
  obtain ⟨stream, opened, rfl⟩ := step.result
  obtain ⟨_, opened', subscribes⟩ := MemoryBroker.subscribe_subscribes wf.broker channel
  cases opened.symm.trans opened'
  have others : ∀ m sub, m ≠ n → v.subs m = some sub →
      (v.broker.subscribe channel).1.unread sub.stream = v.broker.unread sub.stream :=
    fun m sub _ held => (subscribes.others _ (wf.live m sub held)).2
  have subs := feed_subs_update (c := c)
    (some ⟨channel, stream, [], none, true⟩) others
  have unopened : v.feedSubs c n = none := by
    simp [feedSubs, step.unopened]
  split
  · next here =>
      subst here
      refine ⟨unopened, feed_delivered_nil step.unheard, ?_, ?_⟩
      · simp only [Flow.feed, List.any_eq_false]
        exact fun e member => by simp [(Event.delivery_ne (c := channel) (step.unheard e member)).2]
      · refine Feed.ext rfl rfl rfl rfl (subs.trans ?_) rfl rfl
        simp [Subscription.feed, subscribes.empty, Feed.setSub]
  · next other =>
      refine Feed.Step.congr .idle (Feed.ext rfl rfl rfl rfl (subs.trans ?_) rfl rfl)
      have outside : (some (⟨channel, stream, [], none, true⟩ : Subscription)).bind
          (Subscription.feed c (v.broker.subscribe channel).1) = none :=
        Subscription.feed_elsewhere other _
      rw [outside, ← unopened, Function.update_eq_self]
      rfl

theorem Reads.feed {n : Nat} {channel : String} {since : Nat}
    (step : v.Reads PubSubChannel.channelKind kindFor n channel since v') :
    if channel = c then
      Feed.Snapshot (v.feed kindFor c) n (fun p => since < p.offset) (v'.feed kindFor c)
    else Feed.Step (v.feed kindFor c) (v'.feed kindFor c) := by
  obtain ⟨stream, now, replayed, held, read, rfl⟩ := step.result
  obtain ⟨result, read', replays⟩ :=
    (v.kinds (kindFor channel)).replaySince_replays now channel since
  cases read.symm.trans read'
  have subs := feed_subs_update (c := c) (b := v.broker)
    (some ⟨channel, stream, replayed, none, true⟩) (n := n) fun _ _ _ _ => rfl
  split
  · next here =>
      subst here
      have history : (feed kindFor channel
          { v.setSub n (some ⟨channel, stream, replayed, none, true⟩) with
            kinds := Function.update v.kinds (kindFor channel)
              (PubSubChannel.channelKind.replaySince (v.kinds (kindFor channel)) now channel
                since).1 }).retained =
          ((v.kinds (kindFor channel)).replaySince now channel since).1.retained channel := by
        simp only [Flow.feed, Function.update_self]
        rfl
      refine ⟨?_, feed_delivered_nil step.undelivered, v.broker.unread stream, ?_, ?_⟩
      · rw [history]
        exact replays.history
      · exact (feed_subs_held held).trans (by simp [Subscription.feed])
      · refine Feed.ext rfl rfl rfl rfl (subs.trans ?_) rfl rfl
        rw [history, replays.result_eq]
        simp [Subscription.feed, Feed.setSub]
  · next other =>
      refine Feed.Step.congr .idle (Feed.ext rfl ?_ rfl rfl (subs.trans ?_) rfl rfl)
      · simp only [Flow.feed, Function.update_apply]
        split
        · next same => exact (replays.otherHistory c (Ne.symm other)).trans (by rw [same])
        · rfl
      · have outside : (some (⟨channel, stream, replayed, none, true⟩ : Subscription)).bind
            (Subscription.feed c v.broker) = none := Subscription.feed_elsewhere other _
        have before : v.feedSubs c n = none :=
          (feed_subs_held held).trans (Subscription.feed_elsewhere other _)
        rw [outside, ← before, Function.update_eq_self]
        rfl

end Flow

theorem initial_wf (kinds : Nat → κ) (capacity : Nat) :
    (State.initial kinds (.withCapacity capacity) : MemoryState κ).flow.Wf := by
  refine ⟨MemoryBroker.withCapacity_wf _, ?_, ?_, ?_⟩
  · intro n sub held
    cases held
  · intro n sub held
    cases held
  · intro n m sub sub' held
    cases held

theorem step_wf {H : Hub κ MemoryBroker MemoryStream ε} (inProcess : H.broker = MemoryBroker.broker)
    {s t : MemoryState κ} {l : Label ε} (staged : s.Staged) (wf : s.flow.Wf)
    (h : H.step s l = some t) : t.flow.Wf := by
  rcases step_flow inProcess staged h with step | ⟨_, _, _, _, _, _, _, _, opens⟩ |
    ⟨_, _, _, _, _, _, _, _, _, reads⟩
  · exact step.wf wf
  · exact opens.wf wf
  · exact reads.wf wf

namespace InMemory

variable {cfg : InMemory ε} {s t : HubState} {l : Label ε}

def feed (cfg : InMemory ε) (channel : String) (s : HubState) : Feed Nat Publication :=
  s.flow.feed cfg.hub.kindFor channel

/-- The invariants that every reachable state of an in-memory hub satisfies. -/
structure Sane (cfg : InMemory ε) (s : HubState) : Prop where
  staged : s.Staged
  wf : s.flow.Wf
  labelled : s.flow.Labelled
  sound : ∀ channel, (cfg.feed channel s).Sound

/-- Each step of the hub is a step of the feed of every channel. -/
theorem step_feed (sane : cfg.Sane s) (h : cfg.hub.step s l = some t) (channel : String) :
    Feed.Step (cfg.feed channel s) (cfg.feed channel t) ∨
      (∃ n env now a ref cursor, l = .advance n env now ∧
        s.calls n = some (.subscribeBroker a ref cursor) ∧ a.channel = channel ∧
        Feed.Open (cfg.feed channel s) n (cfg.feed channel t)) ∨
      (∃ n env now a ref cursor stream, l = .advance n env now ∧
        s.calls n = some (.subscribeReplay a ref cursor stream) ∧ a.channel = channel ∧
        Feed.Snapshot (cfg.feed channel s) n (fun p => a.sinceOffset < p.offset)
          (cfg.feed channel t)) := by
  rcases step_flow rfl sane.staged h with step | ⟨n, env, now, a, ref, cursor, label, at_, opens⟩ |
    ⟨n, env, now, a, ref, cursor, stream, label, at_, reads⟩
  · exact .inl (step.feed sane.wf sane.labelled)
  · have projected : if a.channel = channel then
        Feed.Open (cfg.feed channel s) n (cfg.feed channel t)
        else Feed.Step (cfg.feed channel s) (cfg.feed channel t) := opens.feed sane.wf
    split at projected
    · next here => exact .inr (.inl ⟨n, env, now, a, ref, cursor, label, at_, here, projected⟩)
    · exact .inl projected
  · have projected := reads.feed (c := channel)
    split at projected
    · next here => exact .inr (.inr ⟨n, env, now, a, ref, cursor, stream, label, at_, here, projected⟩)
    · exact .inl projected

theorem step_sane (sane : cfg.Sane s) (h : cfg.hub.step s l = some t) : cfg.Sane t := by
  refine ⟨step_staged sane.staged h, step_wf rfl sane.staged sane.wf h, ?_, ?_⟩
  · rcases step_flow rfl sane.staged h with step | ⟨_, _, _, _, _, _, _, _, opens⟩ |
      ⟨_, _, _, _, _, _, _, _, _, reads⟩
    · exact step.labelled sane.wf sane.labelled
    · exact opens.labelled sane.wf sane.labelled
    · exact reads.labelled sane.wf sane.labelled
  · intro channel
    rcases step_feed sane h channel with step | ⟨_, _, _, _, _, _, _, _, _, opens⟩ |
      ⟨_, _, _, _, _, _, _, _, _, _, snapshot⟩
    · exact step.sound (sane.sound channel)
    · exact opens.sound (sane.sound channel)
    · exact snapshot.sound (sane.sound channel)

theorem boot_sane (cfg : InMemory ε) : cfg.Sane cfg.boot := by
  refine ⟨initial_staged _ _, initial_wf _ _, ?_, ?_⟩
  · refine ⟨?_, ?_⟩
    · intro n sub held
      cases held
    · intro n channel p flying
      cases flying
  · intro channel
    refine ⟨?_, ?_, ?_, ?_, ?_, ?_⟩
    · simp [feed, Flow.feed, State.flow, boot, State.initial]
    · intro n p flying
      cases flying
    · intro n sub held
      cases held
    · intro n sub held
      cases held
    · intro n p member
      cases member
    · intro p member
      cases member

theorem run_sane {ok : HubState → Label ε → Prop} (run : cfg.hub.machine.Run ok s t)
    (sane : cfg.Sane s) : cfg.Sane t :=
  run.invariant sane fun _ _ _ sane _ h => step_sane sane h

end InMemory

end Cherenkov
