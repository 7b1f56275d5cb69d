import Cherenkov.Hub.Turns

/-! A client of one channel that remembers the offset of the latest `SubscribeOk` or `Publication` it
received, disconnects at any point and subscribes again from there, next to everything else the hub
does. The frames of its subscription reach its wire in the order in which they enter the outbox, and
those still on the wire at a disconnection are lost. It misses nothing as long as broadcasts take
turns, no subscription of its own lags, it resumes from an offset other than 0 and the history still
holds what it has missed. -/

namespace Cherenkov

section Sequence

variable {ε : Type} {cfg : InMemory ε} {channel : String} {s t : HubState} {l : Label ε} {n : Nat}

abbrev InMemory.next (cfg : InMemory ε) (channel : String) (s : HubState) : Nat :=
  (s.shared.kinds (cfg.hub.kindFor channel)).nextOffset channel

theorem extends_next (more : Flow.Extends cfg.hub.kindFor channel s.flow t.flow) :
    cfg.next channel s ≤ cfg.next channel t := by
  cases more with
  | same accepted next => exact Nat.le_of_eq next.symm
  | accepted p accepted offset next => exact Nat.le_of_lt (Nat.lt_of_succ_le (Nat.le_of_eq next.symm))

/-- The subscription of call `n` is in sequence, and the cursor it holds or has returned lies
below the offsets that were still to be accepted when it began to be. -/
structure InSequence (cfg : InMemory ε) (channel : String) (n : Nat) (s : HubState) (since : Nat)
    (P : Publication → Prop) (bound : Nat) : Prop where
  feed : (cfg.feed channel s).Sequenced Publication.offset n since P bound
  bounded : bound ≤ cfg.next channel s
  promised : ∀ c promise, s.calls n = some c → c.promised = some promise → promise.2 ≤ bound - 1
  returned : ∀ ok, .returned n (.ok (.subscribeOk ok)) ∈ s.log → ok.offset ≤ bound - 1

theorem sending_subs {a : SubscribeArgs} {ref : Nat} {cursor : ChannelCursor}
    {stream : MemoryStream} {rest : List Publication} (staged : s.Staged)
    (called : s.calls n = some (.subscribeSend a ref cursor stream rest)) :
    (cfg.feed a.channel s).subs n ≠ none := by
  have held := calls_subscription staged called (Nat.le_refl _)
  have here := Subscription.feed_here (m := s.flow.broker)
    (show Subscription.active ⟨a.channel, stream, rest, none, true⟩ = true from rfl)
  rw [InMemory.feed, Flow.feed_subs, Flow.feed_subs_held held, here]
  exact Option.some_ne_none _

theorem rest_sending (left_ : (cfg.feed channel s).rest n ≠ []) :
    ∃ a ref cursor stream p rest,
      s.calls n = some (.subscribeSend a ref cursor stream (p :: rest)) ∧ a.channel = channel := by
  have replaying : ∃ sub, s.subscription n = some sub ∧ sub.replay ≠ [] ∧ sub.channel = channel := by
    simp only [Feed.rest, InMemory.feed, Flow.feed_subs, Flow.feedSubs, State.flow] at left_
    cases held : s.subscription n with
    | none => simp [held] at left_
    | some sub =>
        simp only [held, Option.bind_some, Subscription.feed] at left_
        split at left_
        · next here => exact ⟨sub, rfl, left_, here.2⟩
        · exact absurd rfl left_
  obtain ⟨sub, held, waiting, here⟩ := replaying
  rcases Option.or_eq_some_iff.mp held with calling | ⟨-, tasked⟩
  · obtain ⟨c, called, holds⟩ := Option.bind_eq_some_iff.mp calling
    cases c with
    | subscribeSend a ref cursor stream rest =>
        cases holds
        obtain ⟨p, rest, rfl⟩ := List.exists_cons_of_ne_nil waiting
        exact ⟨a, ref, cursor, stream, p, rest, called, here⟩
    | subscribeUnwind a ref stream error =>
        cases stream <;> cases holds
        exact absurd rfl waiting
    | _ => cases holds <;> exact absurd rfl waiting
  · obtain ⟨w, -, rfl⟩ := Option.map_eq_some_iff.mp tasked
    exact absurd rfl waiting

/-- A subscription that ends in the middle of its replay belongs to a call that unwinds. -/
theorem replay_cut (staged : s.Staged) (left_ : (cfg.feed channel s).rest n ≠ [])
    (gone : (cfg.feed channel t).subs n = none) (h : cfg.hub.step s l = some t) :
    ∃ a ref stream error, t.calls n = some (.subscribeUnwind a ref stream error) := by
  obtain ⟨a, ref, cursor, stream, p, rest, called, rfl⟩ := rest_sending left_
  have staged' := step_staged staged h
  by_cases own : ∃ env now, l = .advance n env now
  · obtain ⟨env, now, rfl⟩ := own
    obtain ⟨c, o, called', acts, rfl⟩ := Hub.step_advance h
    have after : (s.after n c o).calls n = o.next := by rw [after_calls, Function.update_self]
    cases called.symm.trans called'
    cases goes : o.next with
    | none =>
        obtain ⟨answer, -, ends⟩ := Hub.ends_of_none acts goes
        cases ends
    | some d =>
        rw [goes] at after
        cases Hub.goes acts goes with
        | sent => exact absurd gone (sending_subs staged' after)
        | unsent => exact ⟨_, _, _, _, after⟩
  · have kept := step_call_kept staged called (fun env now same => own ⟨env, now, same⟩) h
    exact absurd gone (sending_subs staged' kept)

theorem step_inSequence {since bound : Nat} {P : Publication → Prop}
    (order : InOrder cfg channel s) (turns : TakesTurns cfg channel s l) (known : n < s.nextCall)
    (past : ∀ c, s.calls n = some c → 2 ≤ c.stage)
    (unlagged : (cfg.feed channel s).lagged n = false)
    (g : InSequence cfg channel n s since P bound) (h : cfg.hub.step s l = some t) :
    ∃ bound, InSequence cfg channel n t since P bound := by
  have sane := order.sane
  have more := step_extends sane.staged turns.1 h
  have rising := (more.numbered order.numbered).increasing
  have kept : (cfg.feed channel t).Sequenced Publication.offset n since P bound ∨
      (cfg.feed channel s).rest n ≠ [] ∧ (cfg.feed channel t).subs n = none ∧
        (cfg.feed channel t).Sequenced Publication.offset n since P 0 := by
    rcases InMemory.step_feed sane h channel with step | ⟨m, _, _, _, _, _, _, at_, _, opens⟩ |
      ⟨m, _, _, _, _, _, _, _, at_, _, snapshot⟩
    · refine step.sequenced (sane.sound channel) order.turn rising ?_ unlagged g.feed
      intro p member
      cases more with
      | same accepted next => exact .inl (accepted ▸ member)
      | accepted q accepted offset next =>
          rcases List.mem_append.mp (accepted ▸ member) with old | new
          · exact .inl old
          · rw [List.mem_singleton.mp new, offset]
            exact .inr g.bounded
    · refine .inl (opens.sequenced ?_ g.feed)
      rintro rfl
      exact absurd (past _ at_) (by simp [Call.stage])
    · refine .inl (snapshot.sequenced ?_ g.feed)
      rintro rfl
      exact absurd (past _ at_) (by simp [Call.stage])
  rcases kept with feed | ⟨left_, gone, feed⟩
  · refine ⟨bound, feed, Nat.le_trans g.bounded (extends_next more), ?_, ?_⟩
    · intro d promise found promised
      rcases step_call h found with old | ⟨-, -, rfl, -⟩ | ⟨env, now, c, -, called, goes⟩
      · exact g.promised d promise old promised
      · exact absurd known (Nat.lt_irrefl _)
      · rcases goes_promised goes promised with same | ⟨a, r, cursor, rfl, -⟩
        · exact g.promised c promise called same
        · exact absurd (past _ called) (by simp [Call.stage])
    · intro ok member
      rcases step_ends h member with old | ⟨env, now, c, -, called, ends⟩
      · exact g.returned ok old
      · exact g.promised c _ called (ends_promised ends rfl)
  · obtain ⟨a, ref, stream, error, unwinds⟩ := replay_cut sane.staged left_ gone h
    refine ⟨0, feed, Nat.zero_le _, ?_, ?_⟩
    · intro d promise found promised
      cases unwinds.symm.trans found
      cases promised
    · intro ok member
      have ended := ((step_staged sane.staged h).returned n _ member).2
      rw [unwinds] at ended
      cases ended

def Call.heldCursor {τ : Type} : Call τ → Option ChannelCursor
  | .subscribeBroker _ _ cursor | .subscribeReplay _ _ cursor _ => some cursor
  | _ => none

/-- Call `n` serves the request and has not got beyond reading the history. -/
structure Unread (cfg : InMemory ε) (channel : String) (n : Nat) (a : SubscribeArgs) (s : HubState)
    (c : Call MemoryStream) : Prop where
  called : s.calls n = some c
  early : c.stage ≤ 1
  serves : c.serves = some (.subscribe a)
  cursor : ∀ cursor, c.heldCursor = some cursor → cursor.offset ≤ cfg.next channel s - 1

/-- Call `n` is past reading the history, and in sequence for what it had to read. -/
structure Settles (cfg : InMemory ε) (channel : String) (n : Nat) (a : SubscribeArgs)
    (s t : HubState) (c : Call MemoryStream) (since : Nat) (P : Publication → Prop) (bound : Nat) :
    Prop where
  past : ∀ d, t.calls n = some d → 2 ≤ d.stage
  sequence : InSequence cfg channel n t since P bound
  accepted : (cfg.feed channel t).accepted = (cfg.feed channel s).accepted
  wanted : 0 < a.sinceOffset → ∀ p ∈ (cfg.feed channel s).accepted, a.sinceOffset < p.offset →
    (∀ ref cursor stream, c = .subscribeReplay a ref cursor stream →
      p ∈ (cfg.feed channel t).retained) →
    (cfg.feed channel t).Wanted since P p

theorem subscribe_accepts (channel : String) {a : SubscribeArgs} {c : Call MemoryStream} {env : ε}
    {now : Nat} {o : Outcome PubSubChannel MemoryBroker MemoryStream}
    (serves : c.serves = some (.subscribe a))
    (acts : cfg.hub.act s.shared n env now c = some o) :
    (cfg.feed channel (s.after n c o)).accepted = (cfg.feed channel s).accepted := by
  have silent : ∀ e ∈ o.events, e.acceptedOn channel = none := by
    intro e member
    rcases (Hub.acted acts).event member with logs | ⟨answer, rfl⟩
    · cases logs <;> first | rfl | cases serves
    · rfl
  have none_ : (o.events.filter Event.moves).filterMap (Event.acceptedOn channel) = [] :=
    List.filterMap_eq_nil_iff.mpr fun e member => silent e (List.mem_of_mem_filter member)
  rw [feed_accepted_append (after_log s n c o), none_, List.reverse_nil, List.append_nil]

theorem ends_unopened {c : Call MemoryStream} {env : ε} {now : Nat}
    {answer : Except HubError Response} (ends : cfg.hub.Ends s.shared env now c answer)
    (early : c.stage ≤ 1) : c.subscription = none ∧ c.heldCursor = none ∧ c.promised = none := by
  cases ends with
  | unwound a ref stream error => cases stream <;> simp [Call.stage] at early
  | subscribed => simp [Call.stage] at early
  | _ => exact ⟨rfl, rfl, rfl⟩

theorem fails_settles {a : SubscribeArgs} {c : Call MemoryStream} {env : ε} {now : Nat}
    (order : InOrder cfg channel s) (unread : Unread cfg channel n a s c)
    {o : Outcome PubSubChannel MemoryBroker MemoryStream}
    (acts : cfg.hub.act s.shared n env now c = some o) (ended : o.next = none)
    (h : cfg.hub.step s (.advance n env now) = some (s.after n c o)) :
    Settles cfg channel n a s (s.after n c o) c 0 (fun _ => True) 0 := by
  obtain ⟨answer, -, ends⟩ := Hub.ends_of_none acts ended
  have staged := order.sane.staged
  have accepted := subscribe_accepts channel unread.serves acts
  have after : (s.after n c o).calls n = none := by rw [after_calls, Function.update_self, ended]
  obtain ⟨unopened, plain, unpromised⟩ := ends_unopened ends unread.early
  have closed : (cfg.feed channel s).subs n = none := by
    have held := calls_subscription staged unread.called (Nat.le_succ_of_le unread.early)
    simp [InMemory.feed, Flow.feedSubs, held, unopened]
  have silent : (cfg.feed channel s).delivered n = [] :=
    Flow.feed_delivered_nil fun e member =>
      staged.undelivered n c unread.called unread.early e (List.mem_of_mem_filter member)
  have still : (cfg.feed channel (s.after n c o)).subs n = none ∧
      (cfg.feed channel (s.after n c o)).delivered n = (cfg.feed channel s).delivered n := by
    rcases InMemory.step_feed order.sane h channel with step | ⟨m, _, _, _, _, _, same, at_, _⟩ |
      ⟨m, _, _, _, _, _, _, same, at_, _⟩
    · exact step.unopened closed
    · cases same
      cases unread.called.symm.trans at_
      cases plain
    · cases same
      cases unread.called.symm.trans at_
      cases plain
  refine ⟨?_, ⟨.unopened still.1 (still.2.trans silent), Nat.zero_le _, ?_, ?_⟩, accepted, ?_⟩
  · intro d found
    rw [after] at found
    cases found
  · intro d promise found
    rw [after] at found
    cases found
  · intro ok member
    rcases step_ends h member with old | ⟨_, _, c', -, called, ends⟩
    · cases unread.called.symm.trans (staged.returned n _ old).2
    · cases unread.called.symm.trans called
      rw [ends_promised ends rfl] at unpromised
      cases unpromised
  · intro _ p member _ _
    exact .inr ⟨accepted ▸ member, trivial⟩

theorem enters_inSequence {since bound : Nat} {P : Publication → Prop} {d : Call MemoryStream}
    {promise : String × Nat} (staged : t.Staged) (after : t.calls n = some d)
    (promised : d.promised = some promise) (below : promise.2 ≤ bound - 1)
    (bounded : bound ≤ cfg.next channel t)
    (feed : (cfg.feed channel t).Sequenced Publication.offset n since P bound) :
    InSequence cfg channel n t since P bound := by
  refine ⟨feed, bounded, ?_, ?_⟩
  · intro e other found holds
    cases after.symm.trans found
    cases promised.symm.trans holds
    exact below
  · intro ok member
    cases after.symm.trans (staged.returned n _ member).2

/-- A step leaves the call where it has still to read the history, or settles what it serves. -/
theorem step_unread {a : SubscribeArgs} {c : Call MemoryStream} (order : InOrder cfg channel s)
    (turns : TakesTurns cfg channel s l) (here : a.channel = channel)
    (unread : Unread cfg channel n a s c) (h : cfg.hub.step s l = some t) :
    (∃ d, Unread cfg channel n a t d) ∨
      (∃ env now, l = .advance n env now) ∧
        ∃ since P bound, Settles cfg channel n a s t c since P bound := by
  subst here
  have staged := order.sane.staged
  have le := extends_next (step_extends staged turns.1 h)
  have older : ∀ o : Nat, o ≤ cfg.next a.channel s - 1 → o ≤ cfg.next a.channel t - 1 := by
    intro o known
    omega
  by_cases own : ∃ env now, l = .advance n env now
  · obtain ⟨env, now, rfl⟩ := own
    obtain ⟨c', o, called, acts, rfl⟩ := Hub.step_advance h
    cases unread.called.symm.trans called
    have accepted := subscribe_accepts a.channel unread.serves acts
    have after : (s.after n c o).calls n = o.next := by rw [after_calls, Function.update_self]
    cases goes : o.next with
    | none => exact .inr ⟨⟨env, now, rfl⟩, _, _, _, fails_settles order unread acts goes h⟩
    | some d =>
        rw [goes] at after
        have went := Hub.goes acts goes
        have serves := (goes_serves went).trans unread.serves
        have early := unread.early
        cases went with
        | subscribed a' ref accepts =>
            cases unread.serves
            refine .inl ⟨_, after, Nat.zero_le _, serves, ?_⟩
            rintro cursor ⟨⟩
            have current := PubSubChannel.onSubscribe_cursor accepts
            exact older _ (Nat.le_of_eq (by rw [current, PubSubChannel.cursor_offset]))
        | streamed a' ref cursor opens since =>
            refine .inl ⟨_, after, Nat.le_refl _, serves, ?_⟩
            rintro _ ⟨⟩
            exact older _ (unread.cursor cursor rfl)
        | attached a' ref cursor opens since =>
            cases unread.serves
            have sequence := enters_inSequence (step_staged staged h) after rfl
              (unread.cursor cursor rfl) le
              ((broker_open order.sane called h).sequences (order.sane.sound _) _)
            refine .inr ⟨⟨env, now, rfl⟩, _, _, _, ?_, sequence, accepted, by omega⟩
            intro d found
            cases after.symm.trans found
            exact Nat.le_refl _
        | unattached a' ref cursor refuses =>
            obtain ⟨stream, opened⟩ := s.shared.broker.subscribe_ok a'.channel
            cases opened.symm.trans refuses
        | replayed a' ref cursor stream reads =>
            cases unread.serves
            have sequence := enters_inSequence (step_staged staged h) after rfl
              (unread.cursor cursor rfl) le ((replay_snapshot staged called h).sequences
                (order.sane.sound _) order.numbered.increasing order.numbered.below)
            refine .inr ⟨⟨env, now, rfl⟩, _, _, _, ?_, sequence, accepted, ?_⟩
            · intro d found
              cases after.symm.trans found
              exact Nat.le_refl _
            · intro _ p member beyond kept
              exact .inr ⟨accepted ▸ member, kept _ _ _ rfl, decide_eq_true beyond⟩
        | unreplayed a' ref cursor stream refuses =>
            obtain ⟨result, read, -⟩ := (s.shared.kinds (cfg.hub.kindFor a'.channel)).replaySince_replays
              now a'.channel a'.sinceOffset
            cases read.symm.trans refuses
        | _ =>
            first
            | exact .inl ⟨_, after, Nat.zero_le _, serves, by rintro _ ⟨⟩⟩
            | simp [Call.stage] at early
  · have kept := step_call_kept staged unread.called (fun env now same => own ⟨env, now, same⟩) h
    exact .inl ⟨c, kept, unread.early, unread.serves, fun cursor opening =>
      older _ (unread.cursor cursor opening)⟩

end Sequence

/-- The offset by which a client can resume after this frame. -/
def ServerFrame.offset? : ServerFrame → Option Nat
  | .publication p => some p.offset
  | .subscribeOk ok => some ok.offset
  | _ => none

def ServerFrame.publication? : ServerFrame → Option Publication
  | .publication p => some p
  | _ => none

def ServerFrame.isSubscribeOk : ServerFrame → Bool
  | .subscribeOk _ => true
  | _ => false

/-- A subscription of the client, by its call, and the frames on their way. `marked` is history:
how many publications had been accepted when the `SubscribeOk` was sent. -/
structure Line where
  call : Nat
  wire : List ServerFrame
  marked : Option Nat

/-- `line` is absent while the client is disconnected. `since` is history: how many publications
had been accepted when the first `SubscribeOk` that the client received was sent. -/
structure Resume where
  hub : HubState
  line : Option Line
  last : Option Nat
  received : List Publication
  since : Option Nat

inductive ResumeLabel (ε : Type) where
  | hub (l : Label ε)
  | subscribe (sessionId requestId : Nat)
  | reply
  | receive
  | disconnect

namespace Resume

variable {ε : Type} {cfg : InMemory ε} {channel : String}

def accepted (channel : String) (log : List Event) : List Publication :=
  (log.filterMap (Event.acceptedOn channel)).reverse

def delivered (channel : String) (n : Nat) (log : List Event) : List Publication :=
  (log.filterMap (Event.deliveredOn channel n)).reverse

/-- What the step of the hub has put into the outbox for the subscription follows on the wire. -/
def carry (channel : String) (s t : HubState) (line : Line) : Line :=
  let before := delivered channel line.call s.log
  let sent := (delivered channel line.call t.log).drop before.length
  { line with wire := line.wire ++ sent.map .publication }

def moved (channel : String) (s : Resume) (t : HubState) : Resume :=
  { s with hub := t, line := s.line.map (carry channel s.hub t) }

def began (s : Resume) (t : HubState) : Resume :=
  { s with hub := t, line := some ⟨s.hub.nextCall, [], none⟩ }

def replied (channel : String) (s : Resume) (call : Nat) (wire : List ServerFrame)
    (ok : SubscribeOk) : Resume :=
  let marked := (accepted channel s.hub.log).length
  { s with line := some ⟨call, wire ++ [.subscribeOk ok], some marked⟩ }

def took (s : Resume) (call : Nat) (f : ServerFrame) (wire : List ServerFrame)
    (marked : Option Nat) : Resume where
  hub := s.hub
  line := some ⟨call, wire, marked⟩
  last := f.offset?.or s.last
  received := s.received ++ f.publication?.toList
  since := if f.isSubscribeOk then s.since.or marked else s.since

def boot (cfg : InMemory ε) : Resume := ⟨cfg.boot, none, none, [], none⟩

def step (cfg : InMemory ε) (channel : String) (s : Resume) : ResumeLabel ε → Option Resume
  | .hub l => (cfg.hub.step s.hub l).map (s.moved channel)
  | .subscribe sessionId requestId =>
      match s.line with
      | some _ => none
      | none =>
          let a : SubscribeArgs := ⟨sessionId, requestId, channel, s.last.getD 0⟩
          (cfg.hub.step s.hub (.start (.subscribe a))).map s.began
  | .reply =>
      -- the transport sends the reply once the call has returned
      match s.line with
      | some ⟨call, wire, none⟩ =>
          match s.hub.answer call with
          | some (.ok (.subscribeOk ok)) => some (s.replied channel call wire ok)
          | _ => none
      | _ => none
  | .receive =>
      match s.line with
      | some ⟨call, f :: wire, marked⟩ => some (s.took call f wire marked)
      | _ => none
  | .disconnect => some { s with line := none }

def machine (cfg : InMemory ε) (channel : String) : Machine Resume (ResumeLabel ε) :=
  ⟨step cfg channel⟩

/-- What was accepted since the first `SubscribeOk` that the client received. -/
def owed (channel : String) (s : Resume) : List Publication :=
  s.since.elim [] (accepted channel s.hub.log).drop

/-- Broadcasts take turns, the client's subscription does not lag, and when it reads the history
whatever the client is owed and has not received is there and not evicted by the TTL. -/
structure Spared (cfg : InMemory ε) (channel : String) (s : Resume) (l : Label ε) : Prop where
  turns : TakesTurns cfg channel s.hub l
  unlagged : ∀ line t k, s.line = some line → cfg.hub.step s.hub l = some t →
    .lagged line.call k ∉ t.log
  kept : ∀ line env now a ref cursor stream gone kept, s.line = some line →
    l = .advance line.call env now →
    s.hub.calls line.call = some (.subscribeReplay a ref cursor stream) →
    (s.hub.shared.kinds (cfg.hub.kindFor channel)).Evicts now channel gone kept →
    ∀ p ∈ s.owed channel, p ∈ s.received ∨ p ∈ kept.map (PubSubChannel.toPublication channel)

def Recoverable (cfg : InMemory ε) (channel : String) (s : Resume) : ResumeLabel ε → Prop
  | .hub l => Spared cfg channel s l
  | .subscribe _ _ => cfg.next channel s.hub < u64Max ∧ ∀ last, s.last = some last → 1 ≤ last
  | _ => True

/-- What is owed once the `SubscribeOk` that was sent, if any, has been received. -/
def due (channel : String) (s : Resume) : List Publication :=
  (s.since.or (s.line.bind Line.marked)).elim [] (accepted channel s.hub.log).drop

theorem feed_accepted (cfg : InMemory ε) (channel : String) (s : HubState) :
    (cfg.feed channel s).accepted = accepted channel s.log := by
  refine congrArg List.reverse (filterMap_moves ?_ s.log)
  intro e still
  cases e with
  | onPublish n ref c data result =>
      cases result with
      | ok p => cases still
      | error e => rfl
  | _ => rfl

theorem feed_delivered (cfg : InMemory ε) (channel : String) (n : Nat) (s : HubState) :
    (cfg.feed channel s).delivered n = delivered channel n s.log :=
  congrArg List.reverse (deliveries_moves s.log)

/-- The offset has been given out, and what is due and not among those seen lies above it. -/
structure Reaches (cfg : InMemory ε) (channel : String) (s : Resume) (seen : List Publication)
    (offset : Nat) : Prop where
  known : offset ≤ cfg.next channel s.hub - 1
  ahead : ∀ p ∈ s.due channel, p ∈ seen ∨ offset < p.offset ∨ offset = 0

/-- The call has still to read the history, and asks for all the client has to be sent. -/
structure Facing (cfg : InMemory ε) (channel : String) (s : Resume) (line : Line)
    (a : SubscribeArgs) (c : Call MemoryStream) : Prop where
  unread : Unread cfg channel line.call a s.hub c
  here : a.channel = channel
  unmarked : line.marked = none
  fresh : a.sinceOffset = 0 → s.since = none
  reaches : Reaches cfg channel s s.received a.sinceOffset

structure Serving (cfg : InMemory ε) (channel : String) (s : Resume) (line : Line) (since : Nat)
    (P : Publication → Prop) (bound : Nat) : Prop where
  past : ∀ c, s.hub.calls line.call = some c → 2 ≤ c.stage
  sequence : InSequence cfg channel line.call s.hub since P bound
  wanted : ∀ p ∈ s.due channel, p ∈ s.received ∨ (cfg.feed channel s.hub).Wanted since P p

structure Attached (cfg : InMemory ε) (channel : String) (s : Resume) (line : Line) : Prop where
  known : line.call < s.hub.nextCall
  unlagged : (cfg.feed channel s.hub).lagged line.call = false
  carried : ∃ gone, delivered channel line.call s.hub.log =
    gone ++ line.wire.filterMap ServerFrame.publication? ∧ gone ⊆ s.received
  acked : ∀ front ok back, line.wire = front ++ .subscribeOk ok :: back →
    Reaches cfg channel s (s.received ++ front.filterMap ServerFrame.publication?) ok.offset
  phase : (∃ a c, Facing cfg channel s line a c) ∨
    ∃ since P bound, Serving cfg channel s line since P bound

structure Held (cfg : InMemory ε) (channel : String) (s : Resume) : Prop where
  order : InOrder cfg channel s.hub
  remembered : ∀ last, s.last = some last → Reaches cfg channel s s.received last
  rooted : s.last = none → s.since = none
  attached : ∀ line, s.line = some line → Attached cfg channel s line

theorem boot_held (cfg : InMemory ε) (channel : String) : Held cfg channel (boot cfg) := by
  refine ⟨boot_inOrder cfg channel, ?_, fun _ => rfl, ?_⟩
  · intro last remembered
    cases remembered
  · intro line online
    cases online

theorem append_subset_append {old new : List Publication} (more : old ⊆ new)
    (rest : List Publication) : old ++ rest ⊆ new ++ rest :=
  List.append_subset.mpr
    ⟨List.subset_append_of_subset_left _ more, List.subset_append_right _ _⟩

variable {s u : Resume} {t : HubState} {l : Label ε} {line : Line} {seen : List Publication}
  {offset : Nat}

theorem due_grows (more : Flow.Extends cfg.hub.kindFor channel s.hub.flow t.flow) {p : Publication}
    (member : p ∈ (s.moved channel t).due channel) :
    p ∈ s.due channel ∨
      p.offset = cfg.next channel s.hub ∧ accepted channel t.log = accepted channel s.hub.log ++ [p] := by
  have marked : (s.line.map (carry channel s.hub t)).bind Line.marked = s.line.bind Line.marked := by
    cases s.line <;> rfl
  simp only [due, moved, marked] at member ⊢
  cases from_ : s.since.or (s.line.bind Line.marked) with
  | none =>
      rw [from_] at member
      cases member
  | some since =>
      rw [from_] at member
      have old := feed_accepted cfg channel s.hub
      have new := feed_accepted cfg channel t
      cases more with
      | same accepted next =>
          have same := new.symm.trans (accepted.trans old)
          exact .inl (by simpa [same] using member)
      | accepted q accepted offset next =>
          have grown := new.symm.trans (accepted.trans (congrArg (· ++ [q]) old))
          simp only [Option.elim_some, grown, List.drop_append, List.mem_append] at member ⊢
          rcases member with earlier | later
          · exact .inl earlier
          · cases List.mem_singleton.mp (List.mem_of_mem_drop later)
            exact .inr ⟨offset, rfl⟩

theorem Reaches.moved (more : Flow.Extends cfg.hub.kindFor channel s.hub.flow t.flow)
    (r : Reaches cfg channel s seen offset) :
    Reaches cfg channel (s.moved channel t) seen offset := by
  have known := r.known
  refine ⟨Nat.le_trans known (Nat.sub_le_sub_right (extends_next more) 1), ?_⟩
  intro p member
  rcases due_grows more member with old | ⟨next, -⟩
  · exact r.ahead p old
  · exact .inr (by omega)

theorem Reaches.mono (r : Reaches cfg channel s seen offset) (u : Resume) (hub : u.hub = s.hub)
    (due : u.due channel ⊆ s.due channel) {seen' : List Publication} (more : seen ⊆ seen') :
    Reaches cfg channel u seen' offset :=
  ⟨hub ▸ r.known, fun p member => (r.ahead p (due member)).imp_left fun old => more old⟩

theorem subscribeOk_split {wire front back : List ServerFrame} {sent : List Publication}
    {ok : SubscribeOk}
    (split : wire ++ sent.map .publication = front ++ .subscribeOk ok :: back) :
    ∃ rest, wire = front ++ .subscribeOk ok :: rest := by
  have other : .subscribeOk ok ∉ sent.map ServerFrame.publication := by simp
  rcases List.append_eq_append_iff.mp split with ⟨_, -, sent⟩ | ⟨rest, queued, whole⟩
  · rw [sent] at other
    simp at other
  · cases rest with
    | nil =>
        rw [List.nil_append] at whole
        rw [← whole] at other
        simp at other
    | cons f rest =>
        cases (List.cons.inj whole).1
        exact ⟨rest, queued⟩

/-- A step of the hub that leaves the call before the history, or makes it read the history. -/
theorem facing_step {a : SubscribeArgs} {c : Call MemoryStream} (order : InOrder cfg channel s.hub)
    (online : s.line = some line) (spared : Spared cfg channel s l)
    (f : Facing cfg channel s line a c) (h : cfg.hub.step s.hub l = some t) :
    (∃ a c, Facing cfg channel (s.moved channel t) (carry channel s.hub t line) a c) ∨
      ∃ since P bound,
        Serving cfg channel (s.moved channel t) (carry channel s.hub t line) since P bound := by
  have more := step_extends order.sane.staged spared.turns.1 h
  rcases step_unread order spared.turns f.here f.unread h with ⟨d, unread⟩ |
    ⟨⟨env, now, rfl⟩, since, P, bound, settles⟩
  · exact .inl ⟨a, d, unread, f.here, f.unmarked, f.fresh, f.reaches.moved more⟩
  · refine .inr ⟨since, P, bound, settles.past, settles.sequence, ?_⟩
    intro p member
    rcases due_grows more member with old | ⟨-, grown⟩
    · by_cases received : p ∈ s.received
      · exact .inl received
      have positive : a.sinceOffset ≠ 0 := by
        intro zero
        simp [due, f.fresh zero, online, f.unmarked] at old
      have beyond := ((f.reaches.ahead p old).resolve_left received).resolve_right positive
      have owed : p ∈ s.owed channel := by
        simpa [due, owed, online, f.unmarked] using old
      have known : p ∈ (cfg.feed channel s.hub).accepted := by
        rw [feed_accepted]
        cases from_ : s.since with
        | none => simp [Resume.owed, from_] at owed
        | some since =>
            rw [Resume.owed, from_] at owed
            exact List.mem_of_mem_drop owed
      refine .inr (settles.wanted (Nat.pos_of_ne_zero positive) p known beyond ?_)
      rintro ref cursor stream rfl
      cases f.here
      obtain ⟨gone, evicts⟩ := (s.hub.shared.kinds (cfg.hub.kindFor a.channel)).replaySince_evicts
        now a.channel a.sinceOffset
      rw [replay_keeps f.unread.called h evicts]
      exact (spared.kept line env now a ref cursor stream _ _ online rfl f.unread.called evicts p
        owed).resolve_left received
    · have same := settles.accepted
      rw [feed_accepted, feed_accepted, grown] at same
      simp at same

theorem serving_step {since bound : Nat} {P : Publication → Prop}
    (order : InOrder cfg channel s.hub) (attached : Attached cfg channel s line)
    (spared : Spared cfg channel s l)
    (g : Serving cfg channel s line since P bound) (h : cfg.hub.step s.hub l = some t) :
    ∃ bound, Serving cfg channel (s.moved channel t) (carry channel s.hub t line) since P bound := by
  have more := step_extends order.sane.staged spared.turns.1 h
  obtain ⟨bound, sequence⟩ := step_inSequence order spared.turns attached.known g.past
    attached.unlagged g.sequence h
  refine ⟨bound, ?_, sequence, ?_⟩
  · intro d found
    rcases step_stage h found with fresh | ⟨c, called, le⟩
    · exact absurd attached.known (Nat.not_lt.mpr (Nat.le_of_eq fresh.symm))
    · exact Nat.le_trans (g.past c called) le
  · intro p member
    have since_le := g.sequence.feed.covered.since_le
    simp only [Feed.Wanted, feed_accepted] at since_le ⊢
    have grown : accepted channel s.hub.log <+: accepted channel t.log := by
      obtain ⟨new, grown⟩ := step_log h
      rw [accepted, accepted, ← grown, List.filterMap_append, List.reverse_append]
      exact List.prefix_append _ _
    rcases due_grows more member with old | ⟨-, grows⟩
    · have wanted := g.wanted p old
      simp only [Feed.Wanted, feed_accepted] at wanted
      exact wanted.imp_right (Or.imp (fun later => (grown.drop since).subset later)
        (And.imp_left fun member => grown.subset member))
    · rw [moved, grows, List.drop_append_of_le_length since_le]
      exact .inr (.inl (by simp))

theorem hub_attached (held : Held cfg channel s) (online : s.line = some line)
    (spared : Spared cfg channel s l) (h : cfg.hub.step s.hub l = some t) :
    Attached cfg channel (s.moved channel t) (carry channel s.hub t line) := by
  have attached := held.attached line online
  have more := step_extends held.order.sane.staged spared.turns.1 h
  refine ⟨Nat.lt_of_lt_of_le attached.known (step_nextCall_le h), ?_, ?_, ?_, ?_⟩
  · exact feed_unlagged fun k => spared.unlagged line t k online h
  · obtain ⟨gone, carried, received⟩ := attached.carried
    refine ⟨gone, ?_, received⟩
    obtain ⟨new, grown⟩ := step_log h
    have sent : delivered channel line.call t.log = delivered channel line.call s.hub.log ++
        (delivered channel line.call t.log).drop (delivered channel line.call s.hub.log).length := by
      simp [delivered, ← grown]
    simp only [carry, List.filterMap_append, List.filterMap_map, ← List.append_assoc, ← carried]
    refine sent.trans (congrArg _ ?_)
    exact (List.filterMap_some ..).symm
  · intro front ok back split
    obtain ⟨rest, queued⟩ := subscribeOk_split split
    exact (attached.acked front ok rest queued).moved more
  · rcases attached.phase with ⟨a, c, facing⟩ | ⟨since, P, bound, serving⟩
    · exact facing_step held.order online spared facing h
    · exact .inr ⟨since, P, serving_step held.order attached spared serving h⟩

theorem hub_held (held : Held cfg channel s) (spared : Spared cfg channel s l)
    (h : cfg.hub.step s.hub l = some t) : Held cfg channel (s.moved channel t) := by
  have more := step_extends held.order.sane.staged spared.turns.1 h
  refine ⟨step_inOrder held.order spared.turns h, ?_, held.rooted, ?_⟩
  · exact fun last remembered => (held.remembered last remembered).moved more
  · intro line' online
    obtain ⟨line, before, rfl⟩ := Option.map_eq_some_iff.mp online
    exact hub_attached held before spared h

theorem subscribe_held {sessionId requestId : Nat} (held : Held cfg channel s)
    (offline : s.line = none) (room : cfg.next channel s.hub < u64Max)
    (resumes : ∀ last, s.last = some last → 1 ≤ last)
    (h : cfg.hub.step s.hub
      (.start (.subscribe ⟨sessionId, requestId, channel, s.last.getD 0⟩)) = some t) :
    Held cfg channel (s.began t) := by
  have alone : ∀ line, s.line ≠ some line := by simp [offline]
  have base := hub_held held ⟨⟨room, by rintro n env now a ref p ⟨⟩⟩,
    fun line t k online => absurd online (alone line),
    fun line env now a ref cursor stream gone kept online => absurd online (alone line)⟩ h
  have same : (s.began t).due channel ⊆ (s.moved channel t).due channel := by
    simp [due, began, moved, offline]
  have unheard : ∀ e ∈ s.hub.log, e.subscriber ≠ some s.hub.nextCall := by
    intro e member about
    exact Nat.lt_irrefl _ (held.order.sane.staged.heard e member _ about)
  have remembered := fun last known =>
    (base.remembered last known).mono (s.began t) rfl same (List.Subset.refl _)
  have reaches : Reaches cfg channel (s.began t) s.received (s.last.getD 0) := by
    cases known : s.last with
    | none => exact ⟨Nat.zero_le _, fun _ _ => .inr (.inr rfl)⟩
    | some last => exact remembered last known
  refine ⟨base.order, remembered, base.rooted, ?_⟩
  rintro line ⟨⟩
  cases h
  refine ⟨Nat.lt_succ_self _, ?_, ⟨[], ?_, by simp⟩, by simp,
    .inl ⟨⟨sessionId, requestId, channel, s.last.getD 0⟩, _,
      ⟨Function.update_self .., Nat.zero_le _, rfl, by rintro _ ⟨⟩⟩, rfl, rfl, ?_, reaches⟩⟩
  · exact feed_unlagged fun k member => unheard _ member rfl
  · simp only [delivered, List.filterMap_nil, List.append_nil, List.reverse_eq_nil_iff,
      List.filterMap_eq_nil_iff]
    intro e member
    refine (Event.delivery_ne ?_).1
    intro about
    cases e <;> cases about <;> exact unheard _ member rfl
  · intro zero
    cases known : s.last with
    | none => exact held.rooted known
    | some last =>
        simp only [known, Option.getD_some] at zero
        exact absurd (resumes last known) (by omega)

theorem reply_held {n : Nat} {wire : List ServerFrame} {ok : SubscribeOk}
    (held : Held cfg channel s) (online : s.line = some ⟨n, wire, none⟩)
    (answered : s.hub.answer n = some (.ok (.subscribeOk ok))) :
    Held cfg channel (s.replied channel n wire ok) := by
  have same : (s.replied channel n wire ok).due channel = s.due channel := by
    cases from_ : s.since <;> simp [due, replied, from_, online]
  have attached := held.attached _ online
  have returned := answer_logged answered
  have ended := (held.order.sane.staged.returned n _ returned).2
  obtain ⟨since, P, bound, serving⟩ := attached.phase.resolve_left (by
    rintro ⟨a, c, facing⟩
    cases facing.unread.called.symm.trans ended)
  obtain ⟨gone, carried, received⟩ := attached.carried
  have kept : ∀ {seen offset}, Reaches cfg channel s seen offset →
      Reaches cfg channel (s.replied channel n wire ok) seen offset :=
    fun r => r.mono (s.replied channel n wire ok) rfl (same ▸ List.Subset.refl _) (List.Subset.refl _)
  refine ⟨held.order, fun last known => kept (held.remembered last known), held.rooted, ?_⟩
  rintro line ⟨⟩
  refine ⟨attached.known, attached.unlagged, ⟨gone, ?_, received⟩, ?_,
    .inr ⟨since, P, bound, serving.past, serving.sequence, ?_⟩⟩
  · rw [List.filterMap_append]
    exact carried.trans (congrArg _ (List.append_nil _).symm)
  · intro front other back split
    rcases List.eq_nil_or_concat back with rfl | ⟨rest, f, rfl⟩
    · obtain ⟨rfl, last⟩ := List.append_inj' split rfl
      cases last
      have cursor := serving.sequence.returned ok returned
      refine kept ⟨Nat.le_trans cursor (Nat.sub_le_sub_right serving.sequence.bounded 1), ?_⟩
      intro p member
      rcases serving.wanted p member with known | wanted
      · exact .inl (List.mem_append_left _ known)
      rcases serving.sequence.feed.served p wanted with arrived | waiting | beyond
      · rw [feed_delivered, carried] at arrived
        exact .inl (append_subset_append received _ arrived)
      · obtain ⟨a, ref, cursor, stream, q, rest, called, -⟩ := rest_sending (List.ne_nil_of_mem waiting)
        cases called.symm.trans ended
      · exact .inr (by omega)
    · rw [List.concat_eq_append, ← List.cons_append, ← List.append_assoc] at split
      exact kept (attached.acked front other rest (List.append_inj' split rfl).1)
  · rw [same]
    exact serving.wanted

theorem took_reaches {n : Nat} {f : ServerFrame} {wire : List ServerFrame} {marked : Option Nat}
    (held : Held cfg channel s) (attached : Attached cfg channel s ⟨n, f :: wire, marked⟩)
    (brings : f.offset? = some offset) :
    Reaches cfg channel s (s.received ++ f.publication?.toList) offset := by
  cases f with
  | subscribeOk ok =>
      cases brings
      exact attached.acked [] ok wire rfl
  | publication p =>
      cases brings
      obtain ⟨gone, carried, received⟩ := attached.carried
      have cut : gone ++ [p] <+: (cfg.feed channel s.hub).delivered n := by
        rw [feed_delivered, carried]
        exact ⟨wire.filterMap ServerFrame.publication?, by simp [ServerFrame.publication?]⟩
      obtain ⟨since, P, bound, serving⟩ := attached.phase.resolve_left (by
        rintro ⟨a, c, facing⟩
        have silent : (cfg.feed channel s.hub).delivered n = [] :=
          Flow.feed_delivered_nil fun e member => held.order.sane.staged.undelivered n c
            facing.unread.called facing.unread.early e (List.mem_of_mem_filter member)
        simp [silent] at cut)
      have known := held.order.numbered.below p
        ((held.order.sane.sound channel).delivered n p (cut.subset (by simp)))
      refine ⟨Nat.le_sub_one_of_lt known, ?_⟩
      intro q member
      rcases serving.wanted q member with old | wanted
      · exact .inl (List.mem_append_left _ old)
      · rcases serving.sequence.feed.clear gone p cut q wanted with arrived | above
        · exact .inl (append_subset_append received _ arrived)
        · exact .inr (.inl above)
  | _ => cases brings

theorem receive_held {n : Nat} {f : ServerFrame} {wire : List ServerFrame} {marked : Option Nat}
    (held : Held cfg channel s) (online : s.line = some ⟨n, f :: wire, marked⟩) :
    Held cfg channel (s.took n f wire marked) := by
  have same : (s.took n f wire marked).due channel = s.due channel := by
    simp only [due, took, online, Option.bind_some]
    split
    · rw [Option.or_assoc, Option.or_self]
    · rfl
  have attached := held.attached _ online
  have more : s.received ⊆ s.received ++ f.publication?.toList := List.subset_append_left _ _
  have kept : ∀ {seen seen' offset}, Reaches cfg channel s seen offset → seen ⊆ seen' →
      Reaches cfg channel (s.took n f wire marked) seen' offset :=
    fun r more => r.mono (s.took n f wire marked) rfl (same ▸ List.Subset.refl _) more
  refine ⟨held.order, ?_, ?_, ?_⟩
  · intro last remembered
    cases brings : f.offset? with
    | none =>
        simp only [took, brings, Option.none_or] at remembered
        exact kept (held.remembered last remembered) more
    | some offset =>
        simp only [took, brings, Option.some_or, Option.some.injEq] at remembered
        exact remembered ▸ kept (took_reaches held attached brings) (List.Subset.refl _)
  · cases f with
    | publication p | subscribeOk ok => rintro ⟨⟩
    | _ => exact held.rooted
  · rintro line ⟨⟩
    obtain ⟨gone, carried, received⟩ := attached.carried
    refine ⟨attached.known, attached.unlagged, ⟨gone ++ f.publication?.toList, ?_, ?_⟩, ?_, ?_⟩
    · refine carried.trans ?_
      rw [List.append_assoc]
      cases f <;> rfl
    · exact append_subset_append received _
    · intro front ok back split
      refine kept (attached.acked (f :: front) ok back (congrArg (f :: ·) split)) ?_
      rw [took, List.append_assoc]
      cases f <;> exact List.Subset.refl _
    · rcases attached.phase with ⟨a, c, facing⟩ | ⟨since, P, bound, serving⟩
      · have unmarked : marked = none := facing.unmarked
        refine .inl ⟨a, c, facing.unread, facing.here, unmarked, ?_, kept facing.reaches more⟩
        intro zero
        simp [took, facing.fresh zero, unmarked]
      · refine .inr ⟨since, P, bound, serving.past, serving.sequence, ?_⟩
        rw [same]
        exact fun p member => (serving.wanted p member).imp_left fun old => more old

theorem disconnect_held (held : Held cfg channel s) : Held cfg channel { s with line := none } := by
  refine ⟨held.order, ?_, held.rooted, ?_⟩
  · intro last remembered
    refine (held.remembered last remembered).mono { s with line := none } rfl ?_ (List.Subset.refl _)
    intro p member
    cases from_ : s.since <;> simp_all [due]
  · intro line online
    cases online

theorem step_held {l : ResumeLabel ε} (held : Held cfg channel s)
    (recoverable : Recoverable cfg channel s l) (h : (machine cfg channel).step s l = some u) :
    Held cfg channel u := by
  cases l with
  | hub l =>
      obtain ⟨t, stepped, rfl⟩ := Option.map_eq_some_iff.mp h
      exact hub_held held recoverable stepped
  | subscribe sessionId requestId =>
      simp only [machine, step] at h
      split at h
      · cases h
      · next offline =>
          obtain ⟨t, stepped, rfl⟩ := Option.map_eq_some_iff.mp h
          exact subscribe_held held offline recoverable.1 recoverable.2 stepped
  | reply =>
      simp only [machine, step] at h
      split at h
      · next n wire online =>
          split at h
          · next ok answered =>
              cases h
              exact reply_held held online answered
          · cases h
      · cases h
  | receive =>
      simp only [machine, step] at h
      split at h
      · next n f wire marked online =>
          cases h
          exact receive_held held online
      · cases h
  | disconnect =>
      cases h
      exact disconnect_held held

theorem step_hub {l : ResumeLabel ε} (h : (machine cfg channel).step s l = some u) :
    u.hub = s.hub ∨ ∃ l, cfg.hub.step s.hub l = some u.hub := by
  cases l with
  | hub l =>
      obtain ⟨t, stepped, rfl⟩ := Option.map_eq_some_iff.mp h
      exact .inr ⟨l, stepped⟩
  | subscribe sessionId requestId =>
      simp only [machine, step] at h
      split at h
      · cases h
      · obtain ⟨t, stepped, rfl⟩ := Option.map_eq_some_iff.mp h
        exact .inr ⟨_, stepped⟩
  | reply =>
      simp only [machine, step] at h
      (repeat' split at h) <;> cases h
      exact .inl rfl
  | receive =>
      simp only [machine, step] at h
      split at h <;> cases h
      exact .inl rfl
  | disconnect =>
      cases h
      exact .inl rfl

theorem run_hub {ok : Resume → ResumeLabel ε → Prop}
    (run : (machine cfg channel).Run ok (boot cfg) s) :
    cfg.hub.machine.Run Machine.free cfg.boot s.hub := by
  refine run.invariant (I := fun s => cfg.hub.machine.Run Machine.free cfg.boot s.hub) (.refl _) ?_
  intro s _ u before _ h
  rcases step_hub h with same | ⟨l, stepped⟩
  · exact same ▸ before
  · exact before.tail (l := l) trivial stepped

/-- However often the client disconnects and resumes, each time from an offset other than 0 and
with what it has missed still in the history: once its subscription has been served and it has read
its wire, it has received every publication accepted since its first `SubscribeOk`. -/
theorem resume_complete (cfg : InMemory ε) (channel : String) {s : Resume} {line : Line} {ref : Nat}
    (run : (machine cfg channel).Run (Recoverable cfg channel) (boot cfg) s)
    (online : s.line = some line) (read : line.wire = [])
    (quiet : Quiescent s.hub line.call ref channel) : ∀ p ∈ s.owed channel, p ∈ s.received := by
  have held := run.invariant (boot_held cfg channel) fun _ _ _ held recoverable h =>
    step_held held recoverable h
  have attached := held.attached line online
  have staged := held.order.sane.staged
  have tasked := InMemory.run_tasked (run_hub run)
  obtain ⟨since, P, bound, serving⟩ := attached.phase.resolve_left (by
    rintro ⟨a, c, facing⟩
    obtain ⟨w, task, -⟩ := quiet.forwarder tasked
    rw [staged.unspawned _ c facing.unread.called (Nat.le_succ_of_le facing.unread.early)] at task
    cases task)
  obtain ⟨gone, carried, received⟩ := attached.carried
  intro p owed
  have member : p ∈ s.due channel := by
    cases from_ : s.since <;> simp_all [Resume.owed, due]
  rcases serving.wanted p member with known | wanted
  · exact known
  · have arrived := serving.sequence.feed.covered.arrived attached.unlagged
      (quiet.feed_subs staged tasked) quiet.feed_flight wanted
    rw [feed_delivered, carried, read, List.filterMap_nil, List.append_nil] at arrived
    exact received arrived

def recoverable (cfg : InMemory ε) (channel : String) (s : Resume) : ResumeLabel ε → Bool
  | .hub l => takesTurns cfg channel s.hub l && s.line.all fun line =>
      ((cfg.hub.step s.hub l).all fun t => t.log.all fun e => !e.laggedBy line.call) &&
        match l, s.hub.calls line.call with
        | .advance m _ now, some (.subscribeReplay ..) => m != line.call ||
            (s.owed channel).all fun p => s.received.contains p ||
              (((s.hub.shared.kinds (cfg.hub.kindFor channel)).replaySince now channel
                0).1.retained channel).contains p
        | _, _ => true
  | .subscribe _ _ => decide (cfg.next channel s.hub < u64Max) && s.last.all (1 ≤ ·)
  | _ => true

theorem recoverable_sound (cfg : InMemory ε) (channel : String) (s : Resume) (l : ResumeLabel ε)
    (staged : s.hub.Staged) (h : recoverable cfg channel s l = true) :
    Recoverable cfg channel s l := by
  cases l with
  | hub l =>
      simp only [recoverable, Bool.and_eq_true] at h
      obtain ⟨turns, own⟩ := h
      refine ⟨takesTurns_sound cfg channel s.hub l staged turns, ?_, ?_⟩
      · intro line t k online stepped member
        simp only [online, Option.all_some, stepped, Bool.and_eq_true, List.all_eq_true] at own
        have unlagged := own.1 _ member
        simp [Event.laggedBy] at unlagged
      · rintro line env now a ref cursor stream gone kept online rfl called evicts p member
        simp only [online, Option.all_some, called, bne_self_eq_false, Bool.false_or,
          Bool.and_eq_true, List.all_eq_true, Bool.or_eq_true, List.contains_iff_mem,
          evicts.retained 0] at own
        exact own.2 p member
  | subscribe sessionId requestId =>
      simp only [recoverable, Bool.and_eq_true, decide_eq_true_eq] at h
      refine ⟨h.1, ?_⟩
      intro last remembered
      simpa [remembered] using h.2
  | _ => trivial

def hubSteps (ls : List (Label Unit)) : List (ResumeLabel Unit) := ls.map .hub

def joins : List (ResumeLabel Unit) :=
  hubSteps (Request.steps (.openSession 16) 0 5 ++ Request.steps (.openSession 16) 1 5 ++
    Request.steps (.openSession 16) 2 5) ++
    .subscribe 1 7 :: hubSteps (List.replicate 9 (.advance 3 () 0)) ++ [.reply, .receive]

/-- The client sees offsets 0 and 1, misses 2 and 3, resumes from 1 and sees 4. -/
def returns : List (ResumeLabel Unit) :=
  joins ++ hubSteps (Request.steps (.publish ⟨0, "rooms.lobby", [1]⟩) 4 6 ++
    Request.steps (.publish ⟨0, "rooms.lobby", [2]⟩) 5 6 ++
    .forward 3 .wake :: List.replicate 5 (.forward 3 .poll)) ++ [.receive, .receive, .disconnect] ++
  hubSteps (Request.steps (.publish ⟨0, "rooms.lobby", [3]⟩) 6 6 ++
    Request.steps (.publish ⟨0, "rooms.lobby", [4]⟩) 7 6) ++
  .subscribe 2 8 :: hubSteps (List.replicate 13 (.advance 8 () 0) ++
    Request.steps (.publish ⟨0, "rooms.lobby", [5]⟩) 9 6 ++
    .forward 8 .wake :: List.replicate 3 (.forward 8 .poll)) ++
  .reply :: List.replicate 4 .receive

theorem resume_complete_returns :
    ∃ s line, (machine defaults "rooms.lobby").Run (Recoverable defaults "rooms.lobby")
        (boot defaults) s ∧
      s.line = some line ∧ line.wire = [] ∧ Quiescent s.hub line.call 2 "rooms.lobby" ∧
      (s.owed "rooms.lobby").map Publication.offset = [0, 1, 2, 3, 4] ∧
      ∀ p ∈ s.owed "rooms.lobby", p ∈ s.received := by
  obtain ⟨s, run, online, quiet, owed⟩ := Machine.execWithin_witness
    (M := machine defaults "rooms.lobby") (s := boot defaults)
    (recoverable_sound defaults "rooms.lobby")
    (fun _ _ _ staged _ h => by
      rcases step_hub h with same | ⟨l, stepped⟩
      · exact same ▸ staged
      · exact step_staged staged stepped)
    (initial_staged _ _) returns
    (fun s => s.line.map (fun line => (line.call, line.wire)) = some (8, []) ∧
      quiesced s.hub 8 2 "rooms.lobby" = true ∧
      (s.owed "rooms.lobby").map Publication.offset = [0, 1, 2, 3, 4]) (by decide +kernel)
  obtain ⟨line, online, at_⟩ := Option.map_eq_some_iff.mp online
  obtain ⟨call, read⟩ := Prod.mk.inj at_
  have staged := (InMemory.run_sane (run_hub run) defaults.boot_sane).staged
  have quiescent := quiesced_quiescent staged quiet
  rw [← call] at quiescent
  exact ⟨s, line, run, online, read, quiescent, owed,
    resume_complete defaults "rooms.lobby" run online read quiescent⟩

/-- The client of an empty channel is away while offsets 0 and 1 are published. -/
def awayFromEmpty : List (ResumeLabel Unit) :=
  joins ++ .disconnect :: hubSteps (Request.steps (.publish ⟨0, "rooms.lobby", [1]⟩) 4 6 ++
    Request.steps (.publish ⟨0, "rooms.lobby", [2]⟩) 5 6) ++
  .subscribe 2 8 :: hubSteps (List.replicate 9 (.advance 6 () 0)) ++ [.reply, .receive]

/-- The client receives offset 0, and is away while offset 1 is published. -/
def awayAfterFirst : List (ResumeLabel Unit) :=
  joins ++ hubSteps (Request.steps (.publish ⟨0, "rooms.lobby", [1]⟩) 4 6 ++
    .forward 3 .wake :: List.replicate 2 (.forward 3 .poll)) ++ .receive :: .disconnect ::
  hubSteps (Request.steps (.publish ⟨0, "rooms.lobby", [2]⟩) 5 6) ++
  .subscribe 2 8 :: hubSteps (List.replicate 9 (.advance 6 () 0)) ++ [.reply, .receive]

/-- The client has read its wire and is served, and has missed a publication that it is owed and
that is in the history. -/
def Misses (ls : List (ResumeLabel Unit)) (p : Publication) : Prop :=
  ∃ s line, (machine defaults "rooms.lobby").exec (boot defaults) ls = some s ∧
    s.line = some line ∧ line.wire = [] ∧ Quiescent s.hub line.call 2 "rooms.lobby" ∧
    p ∈ s.owed "rooms.lobby" ∧ p ∈ (s.hub.shared.kinds 0).retained "rooms.lobby" ∧ p ∉ s.received

theorem misses_of_exec {ls : List (ResumeLabel Unit)} {p : Publication} {n : Nat}
    (ran : ((machine defaults "rooms.lobby").exec (boot defaults) ls).any (fun s => decide
      (s.line.map (fun line => (line.call, line.wire)) = some (n, []) ∧
        quiesced s.hub n 2 "rooms.lobby" = true ∧ p ∈ s.owed "rooms.lobby" ∧
        p ∈ (s.hub.shared.kinds 0).retained "rooms.lobby" ∧ p ∉ s.received)) = true) :
    Misses ls p := by
  obtain ⟨s, ran, holds⟩ := (Option.any_eq_true _ _).mp ran
  obtain ⟨online, quiet, missed⟩ := of_decide_eq_true holds
  obtain ⟨line, online, at_⟩ := Option.map_eq_some_iff.mp online
  obtain ⟨call, read⟩ := Prod.mk.inj at_
  have staged := (InMemory.run_sane (run_hub (Machine.exec_run ran)) defaults.boot_sane).staged
  exact ⟨s, line, ran, online, read, call ▸ quiesced_quiescent staged quiet, missed⟩

/-- From offset 0 nothing is replayed. -/
theorem resume_from_zero :
    Misses awayFromEmpty ⟨"rooms.lobby", 1, [2]⟩ ∧ Misses awayAfterFirst ⟨"rooms.lobby", 1, [2]⟩ :=
  ⟨misses_of_exec (n := 6) (by decide +kernel), misses_of_exec (n := 6) (by decide +kernel)⟩

end Resume

end Cherenkov
