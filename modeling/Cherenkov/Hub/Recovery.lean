import Cherenkov.Hub.Course
import Cherenkov.Hub.Delivery
import Cherenkov.Hub.Gate
import Cherenkov.Hub.Tasks

/-! A subscribe call reads the cursor, opens its stream, reads the history and only then spawns its
forwarder; a publish call is accepted before it is broadcast. Over the feed of the channel this
order decides what the subscription can miss and what it can see twice. -/

namespace Cherenkov

variable {ε : Type} {cfg : InMemory ε} {s t : HubState} {n ref : Nat} {channel : String}
  {l : Label ε} {env : ε} {now : Nat} {p : Publication} {a : SubscribeArgs} {cursor : ChannelCursor}
  {stream : MemoryStream} {promise : String × Nat}

/-- Nothing accepted on the channel still waits for its broadcast. Subscription `n` is in
the map of its session, has an open outbox, has lost nothing and has drained its stream. -/
structure Quiescent (s : HubState) (n ref : Nat) (channel : String) : Prop where
  settled : ∀ m a r p, s.calls m = some (.publishBroker a r p) → a.channel ≠ channel
  subscribed : (s.shared.heap ref).subscriptions.get channel = some n
  writable : (s.shared.heap ref).outbox.closed = false
  unlagged : ∀ k, .lagged n k ∉ s.log
  drained : ∀ w, s.shared.forwarders n = some w →
    w.inHand = none ∧ s.shared.broker.unread w.stream = []

namespace InMemory

theorem step_tasked_sane (sane : cfg.Sane s) (addressed : s.Addressed)
    (tasked : Tasked s.shared s.calls s.nextCall) (h : cfg.hub.step s l = some t) :
    Tasked t.shared t.calls t.nextCall := by
  refine step_tasked sane.staged addressed ?_ tasked h
  intro f w b task finished
  have live := sane.wf.live f _ (forwarder_subscription sane.staged task)
  exact MemoryBroker.next_not_finished live (congrArg Prod.snd finished)

theorem run_tasked {ok : HubState → Label ε → Prop} (run : cfg.hub.machine.Run ok cfg.boot s) :
    Tasked s.shared s.calls s.nextCall := by
  refine (run.invariant (I := fun s => cfg.Sane s ∧ s.Addressed ∧
    Tasked s.shared s.calls s.nextCall)
    ⟨cfg.boot_sane, initial_addressed _ _, initial_tasked _ _⟩ ?_).2.2
  rintro s l t ⟨sane, addressed, tasked⟩ _ h
  exact ⟨step_sane sane h, step_addressed addressed h, step_tasked_sane sane addressed tasked h⟩

end InMemory

theorem Quiescent.forwarder (q : Quiescent s n ref channel)
    (tasked : Tasked s.shared s.calls s.nextCall) :
    ∃ w, s.shared.forwarders n = some w ∧ w.session = ref ∧ w.channel = channel := by
  rcases tasked.entry ref channel n q.subscribed with closed | ⟨w, task, session, here, _⟩
  · rw [q.writable] at closed
    cases closed
  · exact ⟨w, task, session, here⟩

theorem Quiescent.feed_subs (q : Quiescent s n ref channel) (staged : s.Staged)
    (tasked : Tasked s.shared s.calls s.nextCall) :
    (cfg.feed channel s).subs n = some ⟨[], []⟩ := by
  obtain ⟨w, task, _, rfl⟩ := q.forwarder tasked
  obtain ⟨free, empty⟩ := q.drained w task
  have here := Subscription.feed_here (m := s.flow.broker) (show w.subscription.active = true from rfl)
  refine (Flow.feed_subs_held (forwarder_subscription staged task)).trans (here.trans ?_)
  simp [Forwarder.subscription, free, State.flow, empty]

theorem Quiescent.feed_flight (q : Quiescent s n ref channel) (m : Nat) :
    (cfg.feed channel s).flight m = none := by
  simp only [InMemory.feed, Flow.feed, State.flow]
  cases called : s.calls m with
  | none => rfl
  | some c =>
      cases c with
      | publishBroker a r p => simp [Call.flight, q.settled m a r p called]
      | _ => rfl

theorem feed_unlagged (unlagged : ∀ k, .lagged n k ∉ s.log) :
    (cfg.feed channel s).lagged n = false := by
  simp only [InMemory.feed, Flow.feed, State.flow, List.any_eq_false, List.mem_filter]
  rintro e ⟨member, _⟩ lagged
  cases e with
  | lagged m k =>
      have same : m = n := by simpa [Event.laggedBy] using lagged
      exact unlagged k (same ▸ member)
  | _ => cases lagged

theorem enqueued_ref {anonymous : Bool} (g : s.Grounded anonymous) (staged : s.Staged) {r : Nat}
    {origin : Origin} (opened : Opened s.log n ref channel)
    (member : .enqueued n r origin p ∈ s.log) : r = ref := by
  obtain ⟨later, earlier, split, ⟨c, before⟩, _⟩ := g.history.of_mem member
  have there : .brokerSubscribe n r c true ∈ s.log := by
    rw [split]
    exact List.mem_append_right _ (List.mem_cons_of_mem _ before)
  exact (staged.opened n r ref c channel true true there opened).1

theorem mem_feed_delivered (h : p ∈ (cfg.feed channel s).delivered n) :
    ∃ r origin, .enqueued n r origin p ∈ s.log := by
  simp only [InMemory.feed, Flow.feed, State.flow, List.mem_reverse, List.mem_filterMap,
    List.mem_filter] at h
  obtain ⟨e, ⟨member, _⟩, delivered⟩ := h
  cases e with
  | enqueued m r origin q =>
      simp only [Event.deliveredOn] at delivered
      split at delivered
      · next same =>
          cases delivered
          exact ⟨r, origin, same.1 ▸ member⟩
      · cases delivered
  | _ => cases delivered

/-- In a quiescent state the session has been handed everything it was covered for. -/
theorem Quiescent.arrived (q : Quiescent s n ref channel) {ok : HubState → Label ε → Prop}
    (run : cfg.hub.machine.Run ok cfg.boot s) {since : Nat} {P : Publication → Prop}
    (covered : (cfg.feed channel s).Covered n since P)
    (wanted : p ∈ (cfg.feed channel s).accepted.drop since ∨
      (p ∈ (cfg.feed channel s).accepted ∧ P p)) :
    ∃ origin, .enqueued n ref origin p ∈ s.log := by
  have staged := (InMemory.run_sane run cfg.boot_sane).staged
  have tasked := InMemory.run_tasked run
  have grounded := run_grounded run
  have arrived := covered.arrived (feed_unlagged q.unlagged) (q.feed_subs staged tasked) q.feed_flight wanted
  obtain ⟨r, origin, member⟩ := mem_feed_delivered arrived
  obtain ⟨w, task, session, here⟩ := q.forwarder tasked
  have opened := grounded.forwarders n w task
  rw [session, here] at opened
  exact ⟨origin, enqueued_ref grounded staged opened member ▸ member⟩

def quiesced (s : HubState) (n ref : Nat) (channel : String) : Bool :=
  (List.range s.nextCall).all (fun m => (s.calls m).isNone) &&
    ((s.shared.heap ref).subscriptions.get channel == some n) &&
    !(s.shared.heap ref).outbox.closed && s.log.all (fun e => !e.laggedBy n) &&
    (s.shared.forwarders n).all fun w =>
      w.inHand.isNone && (s.shared.broker.unread w.stream).isEmpty

theorem quiesced_quiescent (staged : s.Staged) (h : quiesced s n ref channel = true) :
    Quiescent s n ref channel := by
  simp only [quiesced, Bool.and_eq_true, List.all_eq_true, List.mem_range, Option.isNone_iff_eq_none,
    beq_iff_eq, Bool.not_eq_true'] at h
  obtain ⟨⟨⟨⟨idle, subscribed⟩, writable⟩, unlagged⟩, drained⟩ := h
  refine ⟨?_, subscribed, writable, ?_, ?_⟩
  · intro m a r p called
    rw [idle m (staged.calls m _ called)] at called
    cases called
  · intro k member
    have other := unlagged _ member
    simp [Event.laggedBy] at other
  · intro w task
    rw [task] at drained
    simpa using drained

namespace InMemory

theorem step_covered {since : Nat} {P : Publication → Prop} (sane : cfg.Sane s)
    (launched : s.Launched n) (covered : (cfg.feed channel s).Covered n since P)
    (h : cfg.hub.step s l = some t) : (cfg.feed channel t).Covered n since P := by
  rcases step_feed sane h channel with step | ⟨m, _, _, a, r, cursor, _, at_, _, opens⟩ |
    ⟨_, _, _, _, _, _, _, _, _, _, snapshot⟩
  · exact step.covered covered
  · refine opens.covered ?_ covered
    rintro rfl
    exact Nat.not_succ_le_zero 0 (launched.stage _ at_)
  · exact snapshot.covered covered

theorem run_covered {ok : HubState → Label ε → Prop} {since : Nat} {P : Publication → Prop}
    (run : cfg.hub.machine.Run ok s t) (sane : cfg.Sane s) (launched : s.Launched n)
    (covered : (cfg.feed channel s).Covered n since P) :
    (cfg.feed channel t).Covered n since P := by
  refine (run.invariant (I := fun s => cfg.Sane s ∧ s.Launched n ∧
    (cfg.feed channel s).Covered n since P) ⟨sane, launched, covered⟩ ?_).2.2
  rintro s l t ⟨sane, launched, covered⟩ _ h
  exact ⟨step_sane sane h, step_launched launched h, step_covered sane launched covered h⟩

end InMemory

theorem mem_feed_accepted {m r : Nat} {data : Bytes} {log : List Event}
    (member : .onPublish m r channel data (.ok p) ∈ log) :
    p ∈ ((log.filter Event.moves).filterMap (Event.acceptedOn channel)).reverse := by
  rw [List.mem_reverse, List.mem_filterMap]
  exact ⟨_, List.mem_filter.mpr ⟨member, rfl⟩, by simp [Event.acceptedOn]⟩

theorem feed_accepted_append {new : List Event} (grown : t.log = new ++ s.log) :
    (cfg.feed channel t).accepted = (cfg.feed channel s).accepted ++
      ((new.filter Event.moves).filterMap (Event.acceptedOn channel)).reverse := by
  simp [InMemory.feed, Flow.feed, State.flow, grown]

theorem replay_snapshot (staged : s.Staged)
    (at_ : s.calls n = some (.subscribeReplay a ref cursor stream))
    (reads : cfg.hub.step s (.advance n env now) = some t) :
    Feed.Snapshot (cfg.feed a.channel s) n (fun p => a.sinceOffset < p.offset)
      (cfg.feed a.channel t) := by
  obtain ⟨c, o, called, acts, rfl⟩ := Hub.step_advance reads
  cases at_.symm.trans called
  obtain ⟨replayed, read, _⟩ :=
    (s.shared.kinds (cfg.hub.kindFor a.channel)).replaySince_replays now a.channel a.sinceOffset
  have projected := (replay_reads staged at_ acts read).feed (c := a.channel)
  rw [if_pos rfl] at projected
  exact projected

/-- The replay step leaves of the history what the TTL does not evict at its clock reading. -/
theorem replay_keeps {gone kept : List HistoryEntry}
    (at_ : s.calls n = some (.subscribeReplay a ref cursor stream))
    (reads : cfg.hub.step s (.advance n env now) = some t)
    (evicts : (s.shared.kinds (cfg.hub.kindFor a.channel)).Evicts now a.channel gone kept) :
    (cfg.feed a.channel t).retained = kept.map (PubSubChannel.toPublication a.channel) := by
  obtain ⟨c, o, called, acts, rfl⟩ := Hub.step_advance reads
  cases at_.symm.trans called
  rw [← evicts.retained a.sinceOffset]
  simp only [InMemory.feed, Flow.feed, congrArg Flow.kinds (flow_after acts)]
  simp [Hub.kindsAfter, InMemory.hub, PubSubChannel.channelKind]

theorem advance_launched {c : Call MemoryStream} (staged : s.Staged) (at_ : s.calls n = some c)
    (stage : 1 ≤ c.stage) (h : cfg.hub.step s (.advance n env now) = some t) : t.Launched n := by
  refine step_launched ⟨staged.calls n c at_, ?_⟩ h
  intro c' found
  cases at_.symm.trans found
  exact stage

/-- A subscribe call with an offset misses nothing beyond it that the history holds when it is
read and the TTL does not evict then, and nothing accepted afterwards. -/
theorem recovery_complete (cfg : InMemory ε) {s₁ s₂ s₃ : HubState} {n ref : Nat} {env : ε}
    {now : Nat} {a : SubscribeArgs} {cursor : ChannelCursor} {stream : MemoryStream}
    {new : List Event} (before : cfg.hub.machine.Run Machine.free cfg.boot s₁)
    (at_ : s₁.calls n = some (.subscribeReplay a ref cursor stream))
    (reads : cfg.hub.step s₁ (.advance n env now) = some s₂)
    (after : cfg.hub.machine.Run Machine.free s₂ s₃) (grown : s₃.log = new ++ s₂.log)
    (quiet : Quiescent s₃ n ref a.channel) {p : Publication} (beyond : a.sinceOffset < p.offset)
    (owed : (∃ gone kept,
        (s₁.shared.kinds (cfg.hub.kindFor a.channel)).Evicts now a.channel gone kept ∧
        p ∈ kept.map (PubSubChannel.toPublication a.channel)) ∨
      ∃ m r data, .onPublish m r a.channel data (.ok p) ∈ new) :
    ∃ origin, .enqueued n ref origin p ∈ s₃.log := by
  have sane := InMemory.run_sane before cfg.boot_sane
  have sane' := InMemory.step_sane sane reads
  have launched := advance_launched sane.staged at_ (Nat.le_refl _) reads
  have covered := InMemory.run_covered after sane' launched
    (replay_snapshot sane.staged at_ reads).covers
  have run : cfg.hub.machine.Run Machine.free cfg.boot s₂ := .tail (l := .advance n env now) before trivial reads
  refine quiet.arrived (run.trans after) covered ?_
  rw [feed_accepted_append grown]
  rcases owed with ⟨gone, left_, evicts, kept⟩ | ⟨m, r, data, accepted⟩
  · right
    rw [← replay_keeps at_ reads evicts] at kept
    refine ⟨List.mem_append_left _ ((sane'.sound a.channel).retained.subset kept), kept, ?_⟩
    exact decide_eq_true beyond
  · left
    rw [List.drop_append_of_le_length (Nat.le_refl _), List.drop_length]
    exact mem_feed_accepted accepted

/-- Two sessions; the first publishes offsets 0 and 1, and has offset 2 accepted but not
broadcast when the second subscribes from offset 1. Call 5 has opened its stream. -/
def overlapOpening : List (Label Unit) :=
  Request.steps (.openSession 16) 0 5 ++ Request.steps (.openSession 16) 1 5 ++
  Request.steps (.publish ⟨0, "rooms.lobby", [1]⟩) 2 6 ++
  Request.steps (.publish ⟨0, "rooms.lobby", [2]⟩) 3 6 ++
  Request.steps (.publish ⟨0, "rooms.lobby", [3]⟩) 4 5 ++
  Request.steps (.subscribe ⟨1, 7, "rooms.lobby", 1⟩) 5 6

/-- Call 5 sends its replay, call 4 broadcasts, a fourth publication is made, and the
forwarder delivers all it has. -/
def overlapClosing : List (Label Unit) :=
  [.advance 5 () 0, .advance 4 () 0] ++ List.replicate 4 (.advance 5 () 0) ++
  Request.steps (.publish ⟨0, "rooms.lobby", [4]⟩) 6 6 ++
  [.forward 5 .wake, .forward 5 .poll, .forward 5 .poll, .forward 5 .poll, .forward 5 .poll]

def Call.reading {τ : Type} : Call τ → Option (SubscribeArgs × Nat)
  | .subscribeReplay a ref _ _ => some (a, ref)
  | _ => none

theorem reading_some {τ : Type} {c : Option (Call τ)} {ref : Nat}
    (h : c.bind Call.reading = some (a, ref)) :
    ∃ cursor stream, c = some (.subscribeReplay a ref cursor stream) := by
  obtain ⟨call, rfl, reading⟩ := Option.bind_eq_some_iff.mp h
  cases call with
  | subscribeReplay a' ref' cursor stream =>
      cases reading
      exact ⟨cursor, stream, rfl⟩
  | _ => cases reading

/-- The schedule reaches the reading of the history, and ends quiescent with the fourth
publication accepted after it. -/
def overlaps (s₁ : HubState) : Bool :=
  ((s₁.calls 5).bind Call.reading == some (⟨1, 7, "rooms.lobby", 1⟩, 1)) &&
    decide (⟨"rooms.lobby", 2, [3]⟩ ∈
      ((s₁.shared.kinds 0).replaySince 0 "rooms.lobby" 1).1.retained "rooms.lobby") &&
    (defaults.hub.step s₁ (.advance 5 () 0)).any fun s₂ =>
        !s₂.log.contains (.onPublish 6 0 "rooms.lobby" [4] (.ok ⟨"rooms.lobby", 3, [4]⟩)) &&
        (defaults.hub.machine.exec s₂ overlapClosing).any fun s₃ =>
          quiesced s₃ 5 1 "rooms.lobby" &&
            s₃.log.contains (.onPublish 6 0 "rooms.lobby" [4] (.ok ⟨"rooms.lobby", 3, [4]⟩))

theorem recovery_complete_overlap :
    ∃ s, defaults.hub.machine.Run Machine.free defaults.boot s ∧ Quiescent s 5 1 "rooms.lobby" ∧
      (∃ origin, .enqueued 5 1 origin ⟨"rooms.lobby", 2, [3]⟩ ∈ s.log) ∧
      ∃ origin, .enqueued 5 1 origin ⟨"rooms.lobby", 3, [4]⟩ ∈ s.log := by
  obtain ⟨s₁, _, before, checked⟩ := Machine.exec_witness (M := defaults.hub.machine)
    (s := defaults.boot) overlapOpening (fun s => overlaps s = true) (by decide +kernel)
  simp only [overlaps, Bool.and_eq_true, beq_iff_eq, Option.any_eq_true, decide_eq_true_eq,
    Bool.not_eq_true', List.contains_iff_mem, ← Bool.not_eq_true] at checked
  obtain ⟨⟨at_, retained⟩, s₂, reads, unpublished, s₃, closing, quiet, published⟩ := checked
  obtain ⟨gone, evicts⟩ := (s₁.shared.kinds 0).replaySince_evicts 0 "rooms.lobby" 1
  obtain ⟨cursor, stream, called⟩ := reading_some at_
  have after := Machine.exec_run closing
  obtain ⟨new, grown⟩ := run_log after
  have run : defaults.hub.machine.Run Machine.free defaults.boot s₂ :=
    .tail (l := .advance 5 () 0) before trivial reads
  have quiescent := quiesced_quiescent
    (InMemory.run_sane (run.trans after) defaults.boot_sane).staged quiet
  have later : .onPublish 6 0 "rooms.lobby" [4] (.ok ⟨"rooms.lobby", 3, [4]⟩) ∈ new := by
    rw [← grown] at published
    exact (List.mem_append.mp published).resolve_right unpublished
  refine ⟨s₃, run.trans after, quiescent, ?_, ?_⟩
  · exact recovery_complete defaults before called reads after grown.symm quiescent
      (by decide) (.inl ⟨gone, _, evicts, retained⟩)
  · exact recovery_complete defaults before called reads after grown.symm quiescent
      (by decide) (.inr ⟨6, 0, [4], later⟩)

/-- The channel and the cursor offset that a call past its broker subscription will return. -/
def Call.promised {τ : Type} : Call τ → Option (String × Nat)
  | .subscribeReplay a _ cursor _ | .subscribeSend a _ cursor _ _ | .subscribeSpawn a _ cursor _
  | .subscribeInsert a _ cursor | .subscribeIndex a _ cursor => some (a.channel, cursor.offset)
  | _ => none

theorem promised_stage {τ : Type} {c : Call τ} (h : c.promised = some promise) : 1 ≤ c.stage := by
  cases c <;> cases h <;> simp [Call.stage]

theorem goes_promised {κ β τ : Type} {H : Hub κ β τ ε} {x : Shared κ β τ} {c next : Call τ}
    (goes : H.Goes x env now c next) (h : next.promised = some promise) :
    c.promised = some promise ∨
      ∃ a r cursor, c = .subscribeBroker a r cursor ∧ promise = (a.channel, cursor.offset) := by
  cases goes with
  | streamed a ref cursor opens since | attached a ref cursor opens since =>
      cases h
      exact .inr ⟨a, ref, cursor, rfl, rfl⟩
  | _ => first | exact .inl h | cases h

theorem ends_promised {κ β τ : Type} {H : Hub κ β τ ε} {x : Shared κ β τ} {c : Call τ}
    {result : Except HubError Response} {ok : SubscribeOk} (ends : H.Ends x env now c result)
    (h : result = .ok (.subscribeOk ok)) :
    c.promised = some (ok.channel, ok.offset) := by
  cases ends with
  | subscribed a ref cursor =>
      cases h
      rfl
  | measured m len => cases m <;> cases h
  | removed who id => cases who <;> cases h
  | _ => cases h

/-- Subscription `n` is covered for whatever lies beyond the offset on the channel. -/
def InMemory.Covers (cfg : InMemory ε) (s : HubState) (n : Nat) (promise : String × Nat) : Prop :=
  ∃ since, (cfg.feed promise.1 s).Covered n since fun p => promise.2 < p.offset

/-- When call `n` opens its stream, nothing beyond its cursor has been broadcast yet. -/
def CursorCurrent (n : Nat) (s : HubState) (l : Label ε) : Prop :=
  ∀ env now a ref cursor, l = .advance n env now →
    s.calls n = some (.subscribeBroker a ref cursor) →
    ∀ m r p result, .brokerPublish m r a.channel p result ∈ s.log → p.offset ≤ cursor.offset

theorem broker_open (sane : cfg.Sane s) (at_ : s.calls n = some (.subscribeBroker a ref cursor))
    (opens : cfg.hub.step s (.advance n env now) = some t) :
    Feed.Open (cfg.feed a.channel s) n (cfg.feed a.channel t) := by
  obtain ⟨c, o, called, acts, rfl⟩ := Hub.step_advance opens
  cases at_.symm.trans called
  have projected : if a.channel = a.channel then
      Feed.Open (cfg.feed a.channel s) n (cfg.feed a.channel (s.after n _ o))
      else Feed.Step (cfg.feed a.channel s) (cfg.feed a.channel (s.after n _ o)) :=
    (broker_opens rfl sane.staged at_ acts).feed sane.wf
  rw [if_pos rfl] at projected
  exact projected

theorem mem_feed_sent (h : p ∈ (cfg.feed channel s).sent) :
    ∃ m r result, .brokerPublish m r channel p result ∈ s.log := by
  simp only [InMemory.feed, Flow.feed, State.flow, List.mem_reverse, List.mem_filterMap,
    List.mem_filter] at h
  obtain ⟨e, ⟨member, _⟩, sent⟩ := h
  cases e with
  | brokerPublish m r c q result =>
      simp only [Event.sentOn] at sent
      split at sent
      · next same =>
          cases sent
          exact ⟨m, r, result, same ▸ member⟩
      · cases sent
  | _ => cases sent

/-- The cursor of call `n` is kept: what it will return, or has returned, is covered. -/
structure CursorKept (cfg : InMemory ε) (n : Nat) (s : HubState) : Prop where
  promised : ∀ c promise, s.calls n = some c → c.promised = some promise →
    cfg.Covers s n promise
  returned : ∀ ok, .returned n (.ok (.subscribeOk ok)) ∈ s.log →
    cfg.Covers s n (ok.channel, ok.offset)

theorem covers_step (sane : cfg.Sane s) (launched : s.Launched n) (covers : cfg.Covers s n promise)
    (h : cfg.hub.step s l = some t) :
    cfg.Covers t n promise := by
  obtain ⟨since, covered⟩ := covers
  exact ⟨since, InMemory.step_covered sane launched covered h⟩

theorem promised_launched {c : Call MemoryStream} (staged : s.Staged) (at_ : s.calls n = some c)
    (h : c.promised = some promise) : s.Launched n := by
  refine ⟨staged.calls n c at_, ?_⟩
  intro c' found
  cases at_.symm.trans found
  exact promised_stage h

theorem returned_launched {result : Except HubError Response} (staged : s.Staged)
    (member : .returned n result ∈ s.log) : s.Launched n := by
  obtain ⟨known, ended⟩ := staged.returned n result member
  refine ⟨known, ?_⟩
  intro c found
  rw [ended] at found
  cases found

theorem step_cursorKept (sane : cfg.Sane s) (current : CursorCurrent n s l)
    (kept : CursorKept cfg n s) (h : cfg.hub.step s l = some t) : CursorKept cfg n t := by
  have holding : ∀ c promise, s.calls n = some c → c.promised = some promise →
      cfg.Covers t n promise := fun c promise at_ promised =>
    covers_step sane (promised_launched sane.staged at_ promised) (kept.promised c promise at_ promised) h
  refine ⟨?_, ?_⟩
  · intro d promise found promised
    rcases step_call h found with old | ⟨r, -, -, rfl⟩ | ⟨env, now, c, rfl, called, goes⟩
    · exact holding d promise old promised
    · cases r <;> cases promised
    · rcases goes_promised goes promised with same | ⟨a, r, cursor, rfl, rfl⟩
      · exact holding c promise called same
      · refine ⟨_, (broker_open sane called h).covers (sane.sound a.channel) ?_⟩
        intro p sent
        obtain ⟨m, r', result, member⟩ := mem_feed_sent sent
        exact Nat.not_lt.mpr (current env now a r cursor rfl called m r' p result member)
  · intro ok member
    rcases step_ends h member with old | ⟨env, now, c, rfl, called, ends⟩
    · exact covers_step sane (returned_launched sane.staged old) (kept.returned ok old) h
    · exact holding c _ called (ends_promised ends rfl)

theorem boot_cursorKept (cfg : InMemory ε) (n : Nat) : CursorKept cfg n cfg.boot := by
  constructor
  · intro c promise found
    cases found
  · intro ok member
    cases member

/-- In every run in which call `n` opens its stream before anything beyond its cursor is
broadcast, the cursor it returns is a true starting point of its stream. -/
theorem cursor_complete (cfg : InMemory ε) {s : HubState} {n ref : Nat} {ok : SubscribeOk}
    (run : cfg.hub.machine.Run (CursorCurrent n) cfg.boot s)
    (returned : .returned n (.ok (.subscribeOk ok)) ∈ s.log)
    (quiet : Quiescent s n ref ok.channel) {m r : Nat} {data : Bytes} {p : Publication}
    (accepted : .onPublish m r ok.channel data (.ok p) ∈ s.log) (beyond : ok.offset < p.offset) :
    ∃ origin, .enqueued n ref origin p ∈ s.log := by
  have kept := (run.invariant (I := fun s => cfg.Sane s ∧ CursorKept cfg n s)
    ⟨cfg.boot_sane, boot_cursorKept cfg n⟩ fun s l t h current stepped =>
      ⟨InMemory.step_sane h.1 stepped, step_cursorKept h.1 current h.2 stepped⟩).2
  obtain ⟨since, covered⟩ := kept.returned ok returned
  exact quiet.arrived run covered (.inr ⟨mem_feed_accepted accepted, beyond⟩)

/-- The second session subscribes while the first publishes once before it starts and
`k` steps of a second publish fall between its `on_subscribe` and its broker subscription. -/
def cursorRun (k : Nat) : List (Label Unit) :=
  Request.steps (.openSession 16) 0 5 ++ Request.steps (.openSession 16) 1 5 ++
  Request.steps (.publish ⟨0, "rooms.lobby", [1]⟩) 2 6 ++
  Request.steps (.subscribe ⟨1, 7, "rooms.lobby", 0⟩) 3 5 ++
  Request.steps (.publish ⟨0, "rooms.lobby", [2]⟩) 4 k ++
  List.replicate 4 (.advance 3 () 0) ++ List.replicate (6 - k) (.advance 4 () 0)

/-- The whole second publish falls into the window: it is beyond the cursor, and lost. -/
theorem cursor_gap :
    ∃ s, defaults.hub.machine.exec defaults.boot (cursorRun 6) = some s ∧
      defaults.hub.machine.Run Machine.free defaults.boot s ∧
      .returned 3 (.ok (.subscribeOk ⟨7, "rooms.lobby", 1, 0⟩)) ∈ s.log ∧
      Quiescent s 3 1 "rooms.lobby" ∧
      .onPublish 4 0 "rooms.lobby" [2] (.ok ⟨"rooms.lobby", 1, [2]⟩) ∈ s.log ∧
      ∀ ref origin, .enqueued 3 ref origin ⟨"rooms.lobby", 1, [2]⟩ ∉ s.log := by
  obtain ⟨s, reached, run, returned, quiet, accepted, undelivered⟩ := Machine.exec_witness
    (M := defaults.hub.machine) (s := defaults.boot) (cursorRun 6) (fun s =>
      .returned 3 (.ok (.subscribeOk ⟨7, "rooms.lobby", 1, 0⟩)) ∈ s.log ∧
        quiesced s 3 1 "rooms.lobby" = true ∧
        .onPublish 4 0 "rooms.lobby" [2] (.ok ⟨"rooms.lobby", 1, [2]⟩) ∈ s.log ∧
        ∀ e ∈ s.log, e.delivery ≠ some 3) (by decide +kernel)
  have staged := (InMemory.run_sane run defaults.boot_sane).staged
  refine ⟨s, reached, run, returned, quiesced_quiescent staged quiet, accepted, ?_⟩
  intro ref origin member
  exact undelivered _ member rfl

def cursorCurrent (n : Nat) (s : HubState) : Label ε → Bool
  | .advance m _ _ =>
      match s.calls n with
      | some (.subscribeBroker a _ cursor) =>
          m != n || s.log.all fun e => (e.sentOn a.channel).all fun p => p.offset ≤ cursor.offset
      | _ => true
  | _ => true

theorem cursorCurrent_sound (n : Nat) (s : HubState) (l : Label ε) (_ : s.Staged)
    (h : cursorCurrent n s l = true) : CursorCurrent n s l := by
  rintro env now a ref cursor rfl at_ m r p result member
  simp only [cursorCurrent, at_, bne_self_eq_false, Bool.false_or, List.all_eq_true] at h
  have bounded := h _ member
  simpa [Event.sentOn] using bounded

/-- With only the broadcast after the subscription, the second publication arrives. -/
theorem cursor_complete_current :
    ∃ s, defaults.hub.machine.Run (CursorCurrent 3) defaults.boot s ∧
      .returned 3 (.ok (.subscribeOk ⟨7, "rooms.lobby", 1, 0⟩)) ∈ s.log ∧
      ∃ origin, .enqueued 3 1 origin ⟨"rooms.lobby", 1, [2]⟩ ∈ s.log := by
  obtain ⟨s, run, returned, quiet, accepted⟩ := Machine.execWithin_witness
    (M := defaults.hub.machine) (cursorCurrent_sound 3)
    (fun _ _ _ staged _ h => step_staged staged h) defaults.boot_sane.staged
    (cursorRun 5 ++ [.forward 3 .wake, .forward 3 .poll, .forward 3 .poll]) (fun s =>
      .returned 3 (.ok (.subscribeOk ⟨7, "rooms.lobby", 1, 0⟩)) ∈ s.log ∧
        quiesced s 3 1 "rooms.lobby" = true ∧
        .onPublish 4 0 "rooms.lobby" [2] (.ok ⟨"rooms.lobby", 1, [2]⟩) ∈ s.log) (by decide +kernel)
  have staged := (InMemory.run_sane run defaults.boot_sane).staged
  exact ⟨s, run, returned, cursor_complete defaults run returned
    (quiesced_quiescent staged quiet) accepted (by decide)⟩

/-- Acceptance numbers the publications of the channel in order. -/
structure Flow.Numbered (kindFor : String → Nat) (channel : String) (v : Flow PubSubChannel) : Prop where
  increasing : (v.feed kindFor channel).accepted.Pairwise fun p q => p.offset < q.offset
  below : ∀ p ∈ (v.feed kindFor channel).accepted,
    p.offset < (v.kinds (kindFor channel)).nextOffset channel

namespace Flow

variable {kindFor : String → Nat} {v v' : Flow PubSubChannel}

/-- What a step accepts on the channel: nothing, or one publication with the next offset. -/
inductive Extends (kindFor : String → Nat) (channel : String) (v v' : Flow PubSubChannel) : Prop
  | same (accepted : (v'.feed kindFor channel).accepted = (v.feed kindFor channel).accepted)
      (next : (v'.kinds (kindFor channel)).nextOffset channel =
        (v.kinds (kindFor channel)).nextOffset channel)
  | accepted (p : Publication)
      (accepted : (v'.feed kindFor channel).accepted = (v.feed kindFor channel).accepted ++ [p])
      (offset : p.offset = (v.kinds (kindFor channel)).nextOffset channel)
      (next : (v'.kinds (kindFor channel)).nextOffset channel =
        (v.kinds (kindFor channel)).nextOffset channel + 1)

theorem Step.extends (step : Step PubSubChannel.channelKind kindFor v v')
    (room : (v.kinds (kindFor channel)).nextOffset channel < u64Max) :
    Extends kindFor channel v v' := by
  cases step with
  | accepted n ref now c data p ps vacant accepts =>
      have accepted := PubSubChannel.onPublish_accepts accepts
      by_cases here : c = channel
      · subst here
        refine .accepted p ?_ ?_ ?_
        · simp [Flow.feed, Event.acceptedOn]
        · rw [accepted.publication]
        · simp only [Function.update_self]
          rw [accepted.next]
          omega
      · refine .same ?_ ?_
        · simp [Flow.feed, Event.acceptedOn, here]
        · simp only [Function.update_apply]
          split
          · next same => rw [accepted.otherNext channel (Ne.symm here), same]
          · rfl
  | idle kinds turns | abandoned n sub due kinds turns | dropped n sub due kinds turns =>
      cases PubSubChannel.turns_same turns
      exact .same rfl rfl
  | _ => exact .same rfl rfl

theorem Opens.extends {n : Nat} {c : String} (step : v.Opens n c v') :
    Extends kindFor channel v v' := by
  obtain ⟨stream, _, rfl⟩ := step.result
  exact .same rfl rfl

theorem Reads.extends {n since : Nat} {c : String}
    (step : v.Reads PubSubChannel.channelKind kindFor n c since v') :
    Extends kindFor channel v v' := by
  obtain ⟨stream, now, replayed, held, read, rfl⟩ := step.result
  obtain ⟨result, _, replays⟩ := (v.kinds (kindFor c)).replaySince_replays now c since
  refine .same rfl ?_
  simp only [Function.update_apply]
  split
  · next same => exact (replays.next channel).trans (by rw [same])
  · rfl

theorem Extends.numbered (more : Extends kindFor channel v v')
    (numbered : v.Numbered kindFor channel) : v'.Numbered kindFor channel := by
  cases more with
  | same accepted next =>
      refine ⟨?_, ?_⟩
      · rw [accepted]
        exact numbered.increasing
      · rw [accepted, next]
        exact numbered.below
  | accepted p accepted offset next =>
      refine ⟨?_, ?_⟩
      · rw [accepted, List.pairwise_append]
        refine ⟨numbered.increasing, List.pairwise_singleton _ _, ?_⟩
        intro q member p' single
        rw [List.mem_singleton.mp single, offset]
        exact numbered.below q member
      · rw [accepted, next]
        intro q member
        rcases List.mem_append.mp member with old | new
        · exact Nat.lt_succ_of_lt (numbered.below q old)
        · rw [List.mem_singleton.mp new, offset]
          exact Nat.lt_succ_self _

end Flow

/-- The channel has offsets left. When call `n` replays, none of what it replays is
already in its stream, or accepted and still to be broadcast. -/
def ReplayApart (cfg : InMemory ε) (channel : String) (n : Nat) (s : HubState) (l : Label ε) :
    Prop :=
  (s.shared.kinds (cfg.hub.kindFor channel)).nextOffset channel < u64Max ∧
    ∀ env now a ref cursor stream replayed, l = .advance n env now →
      s.calls n = some (.subscribeReplay a ref cursor stream) → a.channel = channel →
      ((s.shared.kinds (cfg.hub.kindFor channel)).replaySince now channel a.sinceOffset).2 =
        .ok replayed →
      ∀ p ∈ replayed, p ∉ s.shared.broker.unread stream ∧
        ∀ m b r, s.calls m = some (.publishBroker b r p) → b.channel ≠ channel

/-- What call `n` has to deliver, and has delivered, on the channel is pairwise different. -/
structure Apart (cfg : InMemory ε) (channel : String) (n : Nat) (s : HubState) : Prop where
  sane : cfg.Sane s
  numbered : s.flow.Numbered cfg.hub.kindFor channel
  distinct : (cfg.feed channel s).Distinct n

theorem numbered_nodup {kindFor : String → Nat} {v : Flow PubSubChannel}
    (numbered : v.Numbered kindFor channel) :
    (v.feed kindFor channel).accepted.Nodup := by
  refine numbered.increasing.imp ?_
  intro p q less same
  rw [same] at less
  exact Nat.lt_irrefl _ less

theorem numbered_inj {kindFor : String → Nat} {v : Flow PubSubChannel}
    (numbered : v.Numbered kindFor channel)
    {p q : Publication} (first : p ∈ (v.feed kindFor channel).accepted)
    (second : q ∈ (v.feed kindFor channel).accepted) (same : p.offset = q.offset) : p = q := by
  have offsets : ((v.feed kindFor channel).accepted.map Publication.offset).Nodup :=
    List.pairwise_map.mpr (numbered.increasing.imp Nat.ne_of_lt)
  exact List.inj_on_of_nodup_map offsets first second same

theorem step_extends (staged : s.Staged)
    (room : (s.shared.kinds (cfg.hub.kindFor channel)).nextOffset channel < u64Max)
    (h : cfg.hub.step s l = some t) : Flow.Extends cfg.hub.kindFor channel s.flow t.flow := by
  rcases step_flow rfl staged h with step | ⟨_, _, _, _, _, _, _, _, opens⟩ |
    ⟨_, _, _, _, _, _, _, _, _, reads⟩
  · exact step.extends room
  · exact opens.extends
  · exact reads.extends

/-- What the history retains beyond the offset after the replay step is what it replays. -/
theorem replay_retained (at_ : s.calls n = some (.subscribeReplay a ref cursor stream))
    (reads : cfg.hub.step s (.advance n env now) = some t) :
    ∃ replayed, ((s.shared.kinds (cfg.hub.kindFor a.channel)).replaySince now a.channel
        a.sinceOffset).2 = .ok replayed ∧
      ∀ p ∈ (cfg.feed a.channel t).retained, a.sinceOffset < p.offset → p ∈ replayed := by
  obtain ⟨c, o, called, acts, rfl⟩ := Hub.step_advance reads
  cases at_.symm.trans called
  obtain ⟨replayed, read, replays⟩ :=
    (s.shared.kinds (cfg.hub.kindFor a.channel)).replaySince_replays now a.channel a.sinceOffset
  refine ⟨replayed, read, ?_⟩
  intro p kept beyond
  have kinds := congrArg Flow.kinds (flow_after acts)
  rw [replays.result_eq, List.mem_filter]
  refine ⟨?_, decide_eq_true beyond⟩
  simp only [InMemory.feed, Flow.feed, kinds] at kept
  simpa [Hub.kindsAfter, InMemory.hub, PubSubChannel.channelKind] using kept

theorem feed_flight_some {i : Nat} (flying : (cfg.feed channel s).flight i = some p) :
    ∃ a r, s.calls i = some (.publishBroker a r p) ∧ a.channel = channel := by
  obtain ⟨⟨c, q⟩, found, here⟩ := Option.bind_eq_some_iff.mp flying
  obtain ⟨call, called, flight⟩ := Option.bind_eq_some_iff.mp found
  cases call with
  | publishBroker a r p' =>
      cases flight
      simp only at here
      split at here
      · next same =>
          cases here
          exact ⟨a, r, called, same⟩
      · cases here
  | _ => cases flight

theorem feed_subs_reading (staged : s.Staged)
    (at_ : s.calls n = some (.subscribeReplay a ref cursor stream)) :
    (cfg.feed a.channel s).subs n = some ⟨[], s.shared.broker.unread stream⟩ := by
  have held : s.flow.subs n = some ⟨a.channel, stream, [], none, true⟩ :=
    calls_subscription staged at_ (by simp [Call.stage])
  refine (Flow.feed_subs_held held).trans ?_
  simp [Subscription.feed, State.flow]

theorem step_apart (apart : Apart cfg channel n s) (clear : ReplayApart cfg channel n s l)
    (h : cfg.hub.step s l = some t) :
    Apart cfg channel n t := by
  obtain ⟨sane, numbered, distinct⟩ := apart
  have numbered' := (step_extends sane.staged clear.1 h).numbered numbered
  refine ⟨InMemory.step_sane sane h, numbered', ?_⟩
  rcases InMemory.step_feed sane h channel with step | ⟨_, _, _, _, _, _, _, _, _, opens⟩ |
    ⟨m, env, now, a, ref, cursor, stream, rfl, at_, rfl, snapshot⟩
  · exact step.distinct (sane.sound channel) (numbered_nodup numbered') distinct
  · exact opens.distinct distinct
  · refine snapshot.distinct (sane.sound _) (numbered_nodup numbered) ?_ distinct
    rintro rfl p kept beyond
    obtain ⟨replayed, read, complete⟩ := replay_retained at_ h
    obtain ⟨unread, unsent⟩ := clear.2 env now a ref cursor stream replayed rfl at_ rfl read p
      (complete p kept (of_decide_eq_true beyond))
    refine ⟨?_, ?_⟩
    · intro i flying
      obtain ⟨b, r, called, here⟩ := feed_flight_some flying
      exact unsent i b r called here
    · intro sub held
      rw [feed_subs_reading sane.staged at_] at held
      cases held
      exact unread

theorem boot_apart (cfg : InMemory ε) (channel : String) (n : Nat) :
    Apart cfg channel n cfg.boot := by
  refine ⟨cfg.boot_sane, ⟨List.Pairwise.nil, ?_⟩, ?_, List.nodup_nil, ?_, ?_⟩
  · intro p member
    cases member
  · intro i j p flying
    cases flying
  · intro sub held
    cases held
  · intro sub held
    cases held

theorem deliveries_moves (log : List Event) :
    (log.filter Event.moves).filterMap (Event.deliveredOn channel n) =
      log.filterMap (Event.deliveredOn channel n) := by
  refine filterMap_moves ?_ log
  intro e still
  cases e <;> first | rfl | cases still

/-- In every run in which the replay of call `n` never overlaps its stream, no offset of
the channel is enqueued twice for it. -/
theorem deliveries_distinct (cfg : InMemory ε) {channel : String} {n : Nat} {s : HubState}
    (run : cfg.hub.machine.Run (ReplayApart cfg channel n) cfg.boot s) :
    ((s.log.filterMap (Event.deliveredOn channel n)).map Publication.offset).Nodup := by
  have apart := run.invariant (boot_apart cfg channel n) fun _ _ _ apart clear h =>
    step_apart apart clear h
  have delivered : (cfg.feed channel s).delivered n =
      (s.log.filterMap (Event.deliveredOn channel n)).reverse := by
    simp only [InMemory.feed, Flow.feed, State.flow, deliveries_moves]
  have nodup := apart.distinct.delivered
  have known := (apart.sane.sound channel).delivered n
  rw [delivered] at nodup known
  refine List.Nodup.map_on ?_ (List.nodup_reverse.mp nodup)
  intro p first q second same
  exact numbered_inj apart.numbered (known p (List.mem_reverse.mpr first))
    (known q (List.mem_reverse.mpr second)) same

/-- The replay and the stream both hold offset 2, which was accepted before the replay and
broadcast after the stream was opened. -/
theorem deliveries_overlap :
    ∃ s, defaults.hub.machine.exec defaults.boot
        (overlapOpening ++ .advance 5 () 0 :: overlapClosing) = some s ∧
      defaults.hub.machine.Run Machine.free defaults.boot s ∧
      .enqueued 5 1 .replay ⟨"rooms.lobby", 2, [3]⟩ ∈ s.log ∧
      .enqueued 5 1 .live ⟨"rooms.lobby", 2, [3]⟩ ∈ s.log ∧
      ¬((s.log.filterMap (Event.deliveredOn "rooms.lobby" 5)).map Publication.offset).Nodup := by
  obtain ⟨s, reached, run, replayed, live, twice⟩ := Machine.exec_witness
    (M := defaults.hub.machine) (s := defaults.boot)
    (overlapOpening ++ .advance 5 () 0 :: overlapClosing) (fun s =>
      .enqueued 5 1 .replay ⟨"rooms.lobby", 2, [3]⟩ ∈ s.log ∧
        .enqueued 5 1 .live ⟨"rooms.lobby", 2, [3]⟩ ∈ s.log ∧
        ¬((s.log.filterMap (Event.deliveredOn "rooms.lobby" 5)).map Publication.offset).Nodup)
    (by decide +kernel)
  exact ⟨s, reached, run, replayed, live, twice⟩

def replayApart (cfg : InMemory ε) (channel : String) (n : Nat) (s : HubState) (l : Label ε) :
    Bool :=
  decide ((s.shared.kinds (cfg.hub.kindFor channel)).nextOffset channel < u64Max) &&
    match l, s.calls n with
    | .advance _ _ now, some (.subscribeReplay a _ _ stream) =>
        match ((s.shared.kinds (cfg.hub.kindFor channel)).replaySince now channel a.sinceOffset).2 with
        | .ok replayed => replayed.all fun p => !(s.shared.broker.unread stream).contains p &&
            (List.range s.nextCall).all fun m => (cfg.feed channel s).flight m != some p
        | .error _ => true
    | _, _ => true

theorem replayApart_sound (cfg : InMemory ε) (channel : String) (n : Nat) (s : HubState)
    (l : Label ε) (staged : s.Staged)
    (h : replayApart cfg channel n s l = true) : ReplayApart cfg channel n s l := by
  simp only [replayApart, Bool.and_eq_true, decide_eq_true_eq] at h
  refine ⟨h.1, ?_⟩
  rintro env now a ref cursor stream replayed rfl at_ rfl read p member
  have checked := h.2
  simp only [at_, read, List.all_eq_true, Bool.and_eq_true] at checked
  obtain ⟨unread, unsent⟩ := checked p member
  refine ⟨by simpa using unread, ?_⟩
  intro m b r called here
  have flying : (cfg.feed a.channel s).flight m = some p := by
    simp [InMemory.feed, Flow.feed, State.flow, called, Call.flight, here]
  have other := unsent m (List.mem_range.mpr (staged.calls m _ called))
  simp [flying] at other

/-- The replay of offset 2, completely broadcast before it, and the live offset 3. -/
theorem deliveries_distinct_replayed :
    ∃ s, defaults.hub.machine.Run (ReplayApart defaults "rooms.lobby" 5) defaults.boot s ∧
      .enqueued 5 1 .replay ⟨"rooms.lobby", 2, [3]⟩ ∈ s.log ∧
      .enqueued 5 1 .live ⟨"rooms.lobby", 3, [4]⟩ ∈ s.log ∧
      ((s.log.filterMap (Event.deliveredOn "rooms.lobby" 5)).map Publication.offset).Nodup := by
  obtain ⟨s, run, replayed, live⟩ := Machine.execWithin_witness (M := defaults.hub.machine)
    (replayApart_sound defaults "rooms.lobby" 5) (fun _ _ _ staged _ h => step_staged staged h)
    defaults.boot_sane.staged
    (Request.steps (.openSession 16) 0 5 ++ Request.steps (.openSession 16) 1 5 ++
      Request.steps (.publish ⟨0, "rooms.lobby", [1]⟩) 2 6 ++
      Request.steps (.publish ⟨0, "rooms.lobby", [2]⟩) 3 6 ++
      Request.steps (.publish ⟨0, "rooms.lobby", [3]⟩) 4 6 ++
      Request.steps (.subscribe ⟨1, 7, "rooms.lobby", 1⟩) 5 12 ++
      Request.steps (.publish ⟨0, "rooms.lobby", [4]⟩) 6 6 ++
      [.forward 5 .wake, .forward 5 .poll, .forward 5 .poll]) (fun s =>
      .enqueued 5 1 .replay ⟨"rooms.lobby", 2, [3]⟩ ∈ s.log ∧
        .enqueued 5 1 .live ⟨"rooms.lobby", 3, [4]⟩ ∈ s.log) (by decide +kernel)
  exact ⟨s, run, replayed, live, deliveries_distinct defaults run⟩

end Cherenkov
