import Cherenkov.StreamAccounts
import Cherenkov.Hub.Order

/-! From the moment `broker.subscribe` has answered, a subscription is owed every publication that
the hub broadcasts on its channel. It has put some of them into the outbox, was told how many it has
lost to the ring buffer, and holds or has still to read the others: together they are all of them,
so no broadcast disappears without being counted. -/

namespace Cherenkov

variable {κ ε : Type}

def Event.liveFrameFor (n : Nat) : Event → Option Publication
  | .enqueued m _ .live p => if m = n then some p else none
  | _ => none

def liveFrames (n : Nat) (log : List Event) : List Publication :=
  (log.filterMap (Event.liveFrameFor n)).reverse

def Event.missedBy (n : Nat) : Event → Option Nat
  | .lagged m k => if m = n then some k else none
  | _ => none

def missed (n : Nat) (log : List Event) : Nat := (log.filterMap (Event.missedBy n)).sum

theorem liveFrames_moves (n : Nat) (log : List Event) :
    liveFrames n (log.filter Event.moves) = liveFrames n log := by
  refine congrArg List.reverse (filterMap_moves ?_ log)
  intro e still
  cases e <;> first | rfl | cases still

theorem missed_moves (n : Nat) (log : List Event) :
    missed n (log.filter Event.moves) = missed n log := by
  refine congrArg List.sum (filterMap_moves ?_ log)
  intro e still
  cases e <;> first | rfl | cases still

namespace Flow

variable {v v' : Flow κ} {n : Nat} {channel : String} {old : List (Nat × Publication)}

/-- The account of subscription `n` since the broadcasts `old`. -/
structure Reckons (v : Flow κ) (n : Nat) (channel : String) (old since : List (Nat × Publication))
    (pending : List Publication) : Prop where
  sent : broadcasts channel v.log = old ++ since
  ledger : Ledger (since.map Prod.snd) (liveFrames n v.log) pending (missed n v.log)
  holds : ∀ sub, v.subs n = some sub → sub.channel = channel ∧
    pending = sub.inHand.toList ++ v.broker.unread sub.stream

section

variable {since : List (Nat × Publication)} {pending : List Publication}

theorem Reckons.still (reckons : v.Reckons n channel old since pending)
    (sent : broadcasts channel v'.log = broadcasts channel v.log)
    (passed : liveFrames n v'.log = liveFrames n v.log) (lost : missed n v'.log = missed n v.log)
    (holds : ∀ sub', v'.subs n = some sub' → ∃ sub, v.subs n = some sub ∧
      sub'.channel = sub.channel ∧ sub'.inHand.toList ++ v'.broker.unread sub'.stream =
        sub.inHand.toList ++ v.broker.unread sub.stream) :
    v'.Reckons n channel old since pending := by
  refine ⟨sent.trans reckons.sent, ?_, ?_⟩
  · rw [passed, lost]
    exact reckons.ledger
  · intro sub' found
    obtain ⟨sub, before, here, same⟩ := holds sub' found
    obtain ⟨chan, queue⟩ := reckons.holds sub before
    exact ⟨here.trans chan, queue.trans same.symm⟩

theorem Reckons.elsewhere {m : Nat} {new : Option Subscription}
    (reckons : v.Reckons n channel old since pending) (other : n ≠ m)
    (subs : v'.subs = Function.update v.subs m new)
    (sent : broadcasts channel v'.log = broadcasts channel v.log)
    (passed : liveFrames n v'.log = liveFrames n v.log) (lost : missed n v'.log = missed n v.log)
    (unread : ∀ sub, v.subs n = some sub →
      v'.broker.unread sub.stream = v.broker.unread sub.stream) :
    v'.Reckons n channel old since pending := by
  apply reckons.still sent passed lost
  intro sub found
  rw [subs, Function.update_of_ne other] at found
  exact ⟨sub, found, rfl, by rw [unread sub found]⟩

theorem Reckons.edited {sub sub' : Subscription} (reckons : v.Reckons n channel old since pending)
    (held : v.subs n = some sub) (subs : v'.subs = Function.update v.subs n (some sub'))
    (sent : broadcasts channel v'.log = broadcasts channel v.log)
    (passed : liveFrames n v'.log = liveFrames n v.log) (lost : missed n v'.log = missed n v.log)
    (same : sub'.channel = sub.channel)
    (queue : sub'.inHand.toList ++ v'.broker.unread sub'.stream =
      sub.inHand.toList ++ v.broker.unread sub.stream) :
    v'.Reckons n channel old since pending := by
  apply reckons.still sent passed lost
  intro x found
  rw [subs, Function.update_self] at found
  cases found
  exact ⟨sub, held, same, queue⟩

/-- A broadcast is owed to every subscription of its channel, also to one that is over. -/
theorem Reckons.broadcast {m ref : Nat} {topic : String} {p : Publication}
    {result : Except BrokerError Unit} (reckons : v.Reckons n channel old since pending) (wf : v.Wf)
    (subs : v'.subs = v.subs) (broker : v'.broker = (v.broker.publish topic p).1)
    (log : v'.log = .brokerPublish m ref topic p result :: v.log) :
    ∃ since pending, v'.Reckons n channel old since pending := by
  obtain ⟨_, publishes⟩ := MemoryBroker.publish_publishes wf.broker topic p
  have passed : liveFrames n v'.log = liveFrames n v.log := by
    rw [log]
    rfl
  have lost : missed n v'.log = missed n v.log := by
    rw [log]
    rfl
  by_cases here : topic = channel
  · refine ⟨since ++ [(m, p)], pending ++ [p], ?_, ?_, ?_⟩
    · have order : broadcasts channel v'.log = broadcasts channel v.log ++ [(m, p)] := by
        rw [log]
        simp [broadcasts, Event.broadcastOn, here]
      rw [order, reckons.sent, List.append_assoc]
    · rw [passed, lost, List.map_append]
      exact reckons.ledger.sends p
    · intro sub found
      rw [subs] at found
      obtain ⟨chan, queue⟩ := reckons.holds sub found
      have label : sub.stream.topicLabel = topic := (wf.label n sub found).trans (chan.trans here.symm)
      refine ⟨chan, ?_⟩
      rw [broker, (publishes.streams _ (wf.live n sub found)).2, if_pos label, queue,
        List.append_assoc]
  · refine ⟨since, pending, reckons.still ?_ passed lost ?_⟩
    · rw [log]
      simp [broadcasts, Event.broadcastOn, here]
    · intro sub found
      rw [subs] at found
      have label : sub.stream.topicLabel ≠ topic := by
        rw [wf.label n sub found, (reckons.holds sub found).1]
        exact Ne.symm here
      refine ⟨sub, found, rfl, ?_⟩
      rw [broker, (publishes.streams _ (wf.live n sub found)).2, if_neg label, List.append_nil]

end

theorem liveFrames_enqueued_ne {m : Nat} (other : n ≠ m) (ref : Nat) (p : Publication)
    (log : List Event) : liveFrames n (.enqueued m ref .live p :: log) = liveFrames n log := by
  simp [liveFrames, Event.liveFrameFor, Ne.symm other]

theorem Step.reckons {K : ChannelKind κ} {kindFor : String → Nat} (step : Step K kindFor v v')
    (wf : v.Wf) (reckons : ∃ since pending, v.Reckons n channel old since pending) :
    ∃ since pending, v'.Reckons n channel old since pending := by
  obtain ⟨since, pending, reckons⟩ := reckons
  cases step with
  | idle kinds turns => exact ⟨since, pending, reckons.sent, reckons.ledger, reckons.holds⟩
  | accepted m ref now c data p ps vacant accepts =>
      exact ⟨since, pending, reckons.sent, reckons.ledger, reckons.holds⟩
  | broadcast m ref c p flying => exact reckons.broadcast wf rfl rfl rfl
  | replayed m ref sub p rest due active head =>
      by_cases same : n = m
      · subst same
        exact ⟨since, pending, reckons.edited due rfl rfl rfl rfl rfl rfl⟩
      · exact ⟨since, pending, reckons.elsewhere same rfl rfl rfl rfl fun _ _ => rfl⟩
  | abandoned m sub due kinds turns =>
      by_cases same : n = m
      · subst same
        exact ⟨since, pending, reckons.edited due rfl rfl rfl rfl rfl rfl⟩
      · exact ⟨since, pending, reckons.elsewhere same rfl rfl rfl rfl fun _ _ => rfl⟩
  | took m sub p b due live free next =>
      have moved : v.broker.unread sub.stream = p :: b.unread sub.stream := next_unread next
      have edit := edits_poll wf due { sub with inHand := some p } rfl rfl next
      by_cases same : n = m
      · subst same
        refine ⟨since, pending, reckons.edited due rfl rfl rfl rfl rfl ?_⟩
        rw [free, moved]
        rfl
      · exact ⟨since, pending, reckons.elsewhere same rfl rfl rfl rfl fun x found =>
          edit.others _ (wf.receiver_ne due found same)⟩
  | lagged m sub k b due live free next =>
      have moved : b.unread sub.stream = (v.broker.unread sub.stream).drop k := next_unread next
      have edit := edits_poll wf due sub rfl rfl next
      by_cases same : n = m
      · subst same
        obtain ⟨chan, queue⟩ := reckons.holds sub due
        rw [free] at queue
        refine ⟨since, pending.drop k, reckons.sent, ?_, ?_⟩
        · have lost : missed n (.lagged n k :: v.log) = missed n v.log + k := by
            simp [missed, Event.missedBy, Nat.add_comm]
          rw [lost]
          apply reckons.ledger.skips
          rw [queue]
          exact (MemoryBroker.next_lagged next).1
        · intro x found
          cases due.symm.trans found
          rw [free, moved, queue]
          exact ⟨chan, rfl⟩
      · refine ⟨since, pending, reckons.still rfl rfl ?_ ?_⟩
        · simp [missed, Event.missedBy, Ne.symm same]
        · intro x found
          exact ⟨x, found, rfl, by rw [edit.others _ (wf.receiver_ne due found same)]⟩
  | sent m ref sub p due active live holding =>
      by_cases same : n = m
      · subst same
        obtain ⟨chan, queue⟩ := reckons.holds sub due
        rw [holding] at queue
        subst queue
        refine ⟨since, v.broker.unread sub.stream, reckons.sent, ?_, ?_⟩
        · have passed : liveFrames n (.enqueued n ref .live p :: v.log) = liveFrames n v.log ++ [p] := by
            simp [liveFrames, Event.liveFrameFor]
          rw [passed]
          exact reckons.ledger.passes
        · intro x found
          simp only [setSub, Function.update_self, Option.some.injEq] at found
          subst found
          exact ⟨chan, rfl⟩
      · exact ⟨since, pending, reckons.elsewhere same rfl rfl
          (liveFrames_enqueued_ne same ref p v.log) rfl fun _ _ => rfl⟩
  | dropped m sub due kinds turns =>
      obtain ⟨_, _, unread, _⟩ := MemoryBroker.dropStream_drops wf.broker sub.stream
      by_cases same : n = m
      · subst same
        refine ⟨since, pending, reckons.sent, reckons.ledger, ?_⟩
        intro x found
        simp only [setSub, Function.update_self] at found
        cases found
      · exact ⟨since, pending, reckons.elsewhere same rfl rfl rfl rfl fun x found =>
          unread _ (wf.receiver_ne due found same)⟩

theorem Opens.reckons_own (step : v.Opens n channel v') (wf : v.Wf) :
    v'.Reckons n channel (broadcasts channel v.log) [] [] := by
  have silent : ∀ e ∈ v.log, Event.liveFrameFor n e = none ∧ Event.missedBy n e = none := by
    intro e member
    have other := step.unheard e member
    cases e with
    | enqueued m ref origin p =>
        have distinct : m ≠ n := fun same => other (congrArg some same)
        cases origin <;> simp [Event.liveFrameFor, Event.missedBy, distinct]
    | lagged m k =>
        have distinct : m ≠ n := fun same => other (congrArg some same)
        simp [Event.liveFrameFor, Event.missedBy, distinct]
    | _ => exact ⟨rfl, rfl⟩
  have passed : liveFrames n v.log = [] := by
    rw [liveFrames, List.filterMap_eq_nil_iff.mpr fun e member => (silent e member).1]
    rfl
  have lost : missed n v.log = 0 := by
    rw [missed, List.filterMap_eq_nil_iff.mpr fun e member => (silent e member).2]
    rfl
  obtain ⟨stream, opened, rfl⟩ := step.result
  obtain ⟨_, opened', subscribes⟩ := MemoryBroker.subscribe_subscribes wf.broker channel
  cases opened.symm.trans opened'
  refine ⟨(List.append_nil _).symm, ?_, ?_⟩
  · rw [setSub, passed, lost]
    exact Ledger.nil
  · intro sub found
    simp only [setSub, Function.update_self, Option.some.injEq] at found
    subst found
    exact ⟨rfl, subscribes.empty.symm⟩

theorem Opens.reckons {m : Nat} {c : String} (step : v.Opens m c v') (wf : v.Wf) (other : n ≠ m)
    (reckons : ∃ since pending, v.Reckons n channel old since pending) :
    ∃ since pending, v'.Reckons n channel old since pending := by
  obtain ⟨since, pending, reckons⟩ := reckons
  obtain ⟨stream, opened, rfl⟩ := step.result
  obtain ⟨_, opened', subscribes⟩ := MemoryBroker.subscribe_subscribes wf.broker c
  cases opened.symm.trans opened'
  exact ⟨since, pending, reckons.elsewhere other rfl rfl rfl rfl fun x found =>
    (subscribes.others _ (wf.live n x found)).2⟩

/-- The replay goes before the live deliveries and is not part of the account. -/
theorem Reads.reckons {K : ChannelKind κ} {kindFor : String → Nat} {m from_ : Nat} {c : String}
    (step : v.Reads K kindFor m c from_ v')
    (reckons : ∃ since pending, v.Reckons n channel old since pending) :
    ∃ since pending, v'.Reckons n channel old since pending := by
  obtain ⟨since, pending, reckons⟩ := reckons
  obtain ⟨stream, now, replayed, held, read, rfl⟩ := step.result
  by_cases same : n = m
  · subst same
    exact ⟨since, pending, reckons.edited held rfl rfl rfl rfl rfl rfl⟩
  · exact ⟨since, pending, reckons.elsewhere same rfl rfl rfl rfl fun _ _ => rfl⟩

end Flow

section Runs

variable {H : Hub κ MemoryBroker MemoryStream ε} {s t u : MemoryState κ} {l : Label ε} {n : Nat}
  {channel : String} {old : List (Nat × Publication)}

theorem step_reckons (inProcess : H.broker = MemoryBroker.broker) (staged : s.Staged) (wf : s.flow.Wf)
    (launched : s.Launched n) (h : H.step s l = some t)
    (reckons : ∃ since pending, s.flow.Reckons n channel old since pending) :
    ∃ since pending, t.flow.Reckons n channel old since pending := by
  rcases step_flow inProcess staged h with step | ⟨m, env, now, a, ref, cursor, -, at_, opens⟩ |
    ⟨m, env, now, a, ref, cursor, stream, -, at_, reads⟩
  · exact step.reckons wf reckons
  · apply opens.reckons wf _ reckons
    rintro rfl
    exact Nat.not_succ_le_zero 0 (launched.stage _ at_)
  · exact reads.reckons reckons

theorem run_wf (inProcess : H.broker = MemoryBroker.broker) {ok : MemoryState κ → Label ε → Prop}
    {kinds : Nat → κ} {capacity : Nat}
    (run : H.machine.Run ok (State.initial kinds (.withCapacity capacity)) s) : s.flow.Wf := by
  refine (run.invariant (I := fun s => s.Staged ∧ s.flow.Wf)
    ⟨initial_staged _ _, initial_wf _ _⟩ ?_).2
  rintro s l t ⟨staged, wf⟩ _ h
  exact ⟨step_staged staged h, step_wf inProcess staged wf h⟩

theorem run_reckons (inProcess : H.broker = MemoryBroker.broker) {ok : MemoryState κ → Label ε → Prop}
    (run : H.machine.Run ok s t) (staged : s.Staged) (wf : s.flow.Wf) (launched : s.Launched n)
    (reckons : ∃ since pending, s.flow.Reckons n channel old since pending) :
    ∃ since pending, t.flow.Reckons n channel old since pending := by
  refine (run.invariant (I := fun s => s.Staged ∧ s.flow.Wf ∧ s.Launched n ∧
    ∃ since pending, s.flow.Reckons n channel old since pending)
    ⟨staged, wf, launched, reckons⟩ ?_).2.2.2
  rintro s l t ⟨staged, wf, launched, reckons⟩ _ h
  exact ⟨step_staged staged h, step_wf inProcess staged wf h, step_launched launched h,
    step_reckons inProcess staged wf launched h reckons⟩

theorem opened_launched {a : SubscribeArgs} {ref : Nat} {cursor : ChannelCursor} {env : ε} {now : Nat}
    (staged : s.Staged) (at_ : s.calls n = some (.subscribeBroker a ref cursor))
    (h : H.step s (.advance n env now) = some t) : t.Launched n := by
  refine ⟨Nat.lt_of_lt_of_le (staged.calls n _ at_) (step_nextCall_le h), ?_⟩
  intro c moved
  obtain ⟨c', called, goes⟩ := step_own h moved
  cases at_.symm.trans called
  cases goes with
  | _ => simp [Call.stage]

/-- While subscription `n` lasts, every publication broadcast on the channel since its stream was
opened has been put into the outbox, was reported as lost, is in the forwarder's hand or unread. -/
theorem broadcasts_reckoned (inProcess : H.broker = MemoryBroker.broker) {kinds : Nat → κ}
    {capacity : Nat} {a : SubscribeArgs} {ref : Nat} {cursor : ChannelCursor} {env : ε} {now : Nat}
    (before : H.machine.Run Machine.free (State.initial kinds (.withCapacity capacity)) s)
    (at_ : s.calls n = some (.subscribeBroker a ref cursor))
    (opens : H.step s (.advance n env now) = some t) (after : H.machine.Run Machine.free t u) :
    ∃ since, broadcasts a.channel u.log = broadcasts a.channel s.log ++ since ∧
      (liveFrames n u.log).Sublist (since.map Prod.snd) ∧
      ∀ sub pending, u.subscription n = some sub →
        pending = sub.inHand.toList ++ u.shared.broker.unread sub.stream →
        (liveFrames n u.log ++ pending).Sublist (since.map Prod.snd) ∧
        (liveFrames n u.log).length + missed n u.log + pending.length = since.length ∧
        (missed n u.log = 0 → liveFrames n u.log ++ pending = since.map Prod.snd) := by
  have staged := run_staged before
  have wf := run_wf inProcess before
  obtain ⟨c, o, called, acts, rfl⟩ := H.step_advance opens
  cases at_.symm.trans called
  have opened := broker_opens inProcess staged at_ acts
  obtain ⟨since, pending, reckons⟩ := run_reckons inProcess after (step_staged staged opens)
    (opened.wf wf) (opened_launched staged at_ opens) ⟨_, _, opened.reckons_own wf⟩
  obtain ⟨sent, ledger, holds⟩ := reckons
  simp only [State.flow, broadcasts_moves, liveFrames_moves, missed_moves] at sent ledger holds
  refine ⟨since, sent, (List.sublist_append_left _ pending).trans ledger.order, ?_⟩
  rintro sub _ held rfl
  rw [← (holds sub held).2]
  refine ⟨ledger.order, by simpa using ledger.count, ?_⟩
  intro nothing
  rw [nothing] at ledger
  exact ledger.whole

end Runs

def narrow : InMemory Unit := { defaults with capacity := 1 }

def narrowJoin : List (Label Unit) :=
  Request.steps (.openSession 16) 0 5 ++ Request.steps (.subscribe ⟨0, 7, "rooms.lobby", 0⟩) 1 5

/-- Three publications; the forwarder runs only after the second and has lost the first. -/
def narrowHear : List (Label Unit) :=
  [.advance 1 () 0, .advance 1 () 0, .advance 1 () 0] ++
  Request.steps (.publish ⟨0, "rooms.lobby", [1]⟩) 2 6 ++
  Request.steps (.publish ⟨0, "rooms.lobby", [2]⟩) 3 6 ++
  [.forward 1 .wake, .forward 1 .poll, .forward 1 .poll, .forward 1 .poll] ++
  Request.steps (.publish ⟨0, "rooms.lobby", [3]⟩) 4 6

def Call.opening : Call MemoryStream → Option SubscribeArgs
  | .subscribeBroker a _ _ => some a
  | _ => none

theorem opening_some {c : Option (Call MemoryStream)} {a : SubscribeArgs}
    (opens : c.bind Call.opening = some a) : ∃ ref cursor, c = some (.subscribeBroker a ref cursor) := by
  obtain ⟨c, rfl, opens⟩ := Option.bind_eq_some_iff.mp opens
  cases c with
  | subscribeBroker b ref cursor =>
      cases opens
      exact ⟨ref, cursor, rfl⟩
  | _ => cases opens

theorem broadcasts_reckoned_narrow :
    ∃ s t u, narrow.hub.machine.Run Machine.free narrow.boot s ∧
      narrow.hub.step s (.advance 1 () 0) = some t ∧ narrow.hub.machine.Run Machine.free t u ∧
      liveFrames 1 u.log = [⟨"rooms.lobby", 1, [2]⟩] ∧ missed 1 u.log = 1 ∧
      ∃ since sub, broadcasts "rooms.lobby" u.log = broadcasts "rooms.lobby" s.log ++ since ∧
        u.subscription 1 = some sub ∧
        (liveFrames 1 u.log).length + missed 1 u.log +
          (sub.inHand.toList ++ u.shared.broker.unread sub.stream).length = since.length := by
  obtain ⟨s, -, before, opening, heard⟩ := Machine.exec_witness (M := narrow.hub.machine)
    (s := narrow.boot) narrowJoin
    (fun s => (s.calls 1).bind Call.opening = some ⟨0, 7, "rooms.lobby", 0⟩ ∧
      ((narrow.hub.step s (.advance 1 () 0)).any fun t =>
        (narrow.hub.machine.exec t narrowHear).any fun u =>
          decide (liveFrames 1 u.log = [⟨"rooms.lobby", 1, [2]⟩] ∧ missed 1 u.log = 1 ∧
            (u.subscription 1).isSome = true)) = true)
    (by decide +kernel)
  obtain ⟨t, opens, heard⟩ := Option.any_eq_true _ _ |>.mp heard
  obtain ⟨u, reached, passed⟩ := Option.any_eq_true _ _ |>.mp heard
  obtain ⟨first, lost, lasting⟩ := of_decide_eq_true passed
  have after := Machine.exec_run reached
  obtain ⟨ref, cursor, at_⟩ := opening_some opening
  obtain ⟨sub, held⟩ := Option.isSome_iff_exists.mp lasting
  obtain ⟨since, sent, -, lasts⟩ := broadcasts_reckoned rfl before at_ opens after
  exact ⟨s, t, u, before, opens, after, first, lost, since, sub, sent, held,
    (lasts sub _ held rfl).2.1⟩

end Cherenkov
