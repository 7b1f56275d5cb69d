import Cherenkov.Library.Order
import Cherenkov.Hub.Delivery
import Cherenkov.Hub.Gate

/-! The order of the publications of a channel is the order in which `broker.publish` was called for
them. A subscription that never replays reads it front to back: what it has put into the outbox,
followed by what it still holds, is a subsequence of the order. A broadcast is named by the publish
call that made it, since two of them may be equal as publications. -/

namespace Cherenkov

variable {κ β τ ε : Type}

def Event.broadcastOn (channel : String) : Event → Option (Nat × Publication)
  | .brokerPublish n _ c p _ => if c = channel then some (n, p) else none
  | _ => none

def broadcasts (channel : String) (log : List Event) : List (Nat × Publication) :=
  (log.filterMap (Event.broadcastOn channel)).reverse

def Event.frameFor (n : Nat) : Event → Option Publication
  | .enqueued m _ _ p => if m = n then some p else none
  | _ => none

def frames (n : Nat) (log : List Event) : List Publication :=
  (log.filterMap (Event.frameFor n)).reverse

/-- Call `n` has not asked for a replay. -/
def LiveOnly (log : List Event) (n : Nat) : Prop :=
  ∀ ref channel since result, .replaySince n ref channel since result ∉ log

theorem mem_broadcasts {channel : String} {log : List Event} {n : Nat} {p : Publication} :
    (n, p) ∈ broadcasts channel log ↔ ∃ ref result, .brokerPublish n ref channel p result ∈ log := by
  simp only [broadcasts, List.mem_reverse, List.mem_filterMap]
  constructor
  · rintro ⟨e, logged, about⟩
    cases e with
    | brokerPublish m ref c q result =>
        simp only [Event.broadcastOn] at about
        split at about
        · next here =>
            cases about
            exact ⟨ref, result, here ▸ logged⟩
        · cases about
    | _ => cases about
  · rintro ⟨ref, result, logged⟩
    exact ⟨_, logged, by simp [Event.broadcastOn]⟩

theorem broadcasts_append (channel : String) (new old : List Event) :
    broadcasts channel (new ++ old) = broadcasts channel old ++ broadcasts channel new := by
  simp [broadcasts]

theorem broadcasts_moves (channel : String) (log : List Event) :
    broadcasts channel (log.filter Event.moves) = broadcasts channel log := by
  refine congrArg List.reverse (filterMap_moves ?_ log)
  intro e still
  cases e <;> first | rfl | cases still

theorem frames_moves (n : Nat) (log : List Event) :
    frames n (log.filter Event.moves) = frames n log := by
  refine congrArg List.reverse (filterMap_moves ?_ log)
  intro e still
  cases e <;> first | rfl | cases still

namespace Flow

variable {v v' : Flow κ} {n : Nat} {channel : String}

/-- Subscription `n` reads the order of the channel: `seen` it has passed on, `pending` it
still holds or has to take from its stream. -/
structure Follows (v : Flow κ) (n : Nat) (channel : String)
    (seen pending : List (Nat × Publication)) : Prop where
  order : (seen ++ pending).Sublist (broadcasts channel v.log)
  passed : seen.map Prod.snd = frames n v.log
  holds : ∀ sub, v.subs n = some sub → sub.channel = channel ∧ sub.replay = [] ∧
    pending.map Prod.snd = sub.inHand.toList ++ v.broker.unread sub.stream

theorem Follows.still {seen pending : List (Nat × Publication)}
    (follows : v.Follows n channel seen pending)
    (order : broadcasts channel v'.log = broadcasts channel v.log)
    (passed : frames n v'.log = frames n v.log)
    (holds : ∀ sub', v'.subs n = some sub' → ∃ sub, v.subs n = some sub ∧
      sub'.channel = sub.channel ∧ (sub.replay = [] → sub'.replay = []) ∧
      sub'.inHand.toList ++ v'.broker.unread sub'.stream =
        sub.inHand.toList ++ v.broker.unread sub.stream) :
    v'.Follows n channel seen pending := by
  refine ⟨order ▸ follows.order, passed ▸ follows.passed, ?_⟩
  intro sub' found
  obtain ⟨sub, before, here, live, same⟩ := holds sub' found
  obtain ⟨chan, replay, queue⟩ := follows.holds sub before
  exact ⟨here.trans chan, live replay, queue.trans same.symm⟩

theorem Follows.elsewhere {seen pending : List (Nat × Publication)} {m : Nat}
    {new : Option Subscription} (follows : v.Follows n channel seen pending) (other : n ≠ m)
    (subs : v'.subs = Function.update v.subs m new)
    (order : broadcasts channel v'.log = broadcasts channel v.log)
    (passed : frames n v'.log = frames n v.log)
    (unread : ∀ sub, v.subs n = some sub →
      v'.broker.unread sub.stream = v.broker.unread sub.stream) :
    v'.Follows n channel seen pending := by
  refine follows.still order passed fun sub found => ?_
  rw [subs, Function.update_of_ne other] at found
  exact ⟨sub, found, rfl, fun live => live, by rw [unread sub found]⟩

theorem Follows.edited {seen pending : List (Nat × Publication)} {sub sub' : Subscription}
    (follows : v.Follows n channel seen pending) (held : v.subs n = some sub)
    (subs : v'.subs = Function.update v.subs n (some sub'))
    (order : broadcasts channel v'.log = broadcasts channel v.log)
    (passed : frames n v'.log = frames n v.log) (same : sub'.channel = sub.channel)
    (live : sub.replay = [] → sub'.replay = [])
    (queue : sub'.inHand.toList ++ v'.broker.unread sub'.stream =
      sub.inHand.toList ++ v.broker.unread sub.stream) : v'.Follows n channel seen pending := by
  refine follows.still order passed fun x found => ?_
  rw [subs, Function.update_self] at found
  cases found
  exact ⟨sub, held, same, live, queue⟩

theorem frames_enqueued_ne {m : Nat} (other : n ≠ m) (ref : Nat) (origin : Origin) (p : Publication)
    (log : List Event) : frames n (.enqueued m ref origin p :: log) = frames n log := by
  simp [frames, Event.frameFor, Ne.symm other]

/-- A broadcast reaches the end of every stream of its channel. -/
theorem broadcast_follows {m ref : Nat} {topic : String} {p : Publication}
    {result : Except BrokerError Unit} {seen pending : List (Nat × Publication)} (wf : v.Wf)
    (follows : v.Follows n channel seen pending) (subs : v'.subs = v.subs)
    (broker : v'.broker = (v.broker.publish topic p).1)
    (log : v'.log = .brokerPublish m ref topic p result :: v.log) :
    ∃ pending, v'.Follows n channel seen pending := by
  obtain ⟨_, publishes⟩ := MemoryBroker.publish_publishes wf.broker topic p
  have passed : frames n v'.log = frames n v.log := by
    rw [log]
    rfl
  by_cases here : topic = channel
  · have order : broadcasts channel v'.log = broadcasts channel v.log ++ [(m, p)] := by
      rw [log]
      simp [broadcasts, Event.broadcastOn, here]
    refine ⟨pending ++ [(m, p)], ?_, passed ▸ follows.passed, ?_⟩
    · rw [order, ← List.append_assoc]
      exact follows.order.append (List.Sublist.refl _)
    · intro sub found
      rw [subs] at found
      obtain ⟨chan, replay, queue⟩ := follows.holds sub found
      have label : sub.stream.topicLabel = topic := (wf.label n sub found).trans (chan.trans here.symm)
      refine ⟨chan, replay, ?_⟩
      rw [broker, (publishes.streams _ (wf.live n sub found)).2, if_pos label, List.map_append, queue,
        List.append_assoc]
      rfl
  · have order : broadcasts channel v'.log = broadcasts channel v.log := by
      rw [log]
      simp [broadcasts, Event.broadcastOn, here]
    refine ⟨pending, follows.still order passed fun sub found => ?_⟩
    rw [subs] at found
    obtain ⟨chan, _, _⟩ := follows.holds sub found
    have label : sub.stream.topicLabel ≠ topic := by
      rw [wf.label n sub found, chan]
      exact Ne.symm here
    refine ⟨sub, found, rfl, fun live => live, ?_⟩
    rw [broker, (publishes.streams _ (wf.live n sub found)).2, if_neg label, List.append_nil]

theorem Step.follows {K : ChannelKind κ} {kindFor : String → Nat} (step : Step K kindFor v v')
    (wf : v.Wf) (follows : ∃ seen pending, v.Follows n channel seen pending) :
    ∃ seen pending, v'.Follows n channel seen pending := by
  obtain ⟨seen, pending, follows⟩ := follows
  cases step with
  | idle kinds turns => exact ⟨seen, pending, follows.order, follows.passed, follows.holds⟩
  | accepted m ref now c data p ps vacant accepts =>
      exact ⟨seen, pending, follows.order, follows.passed, follows.holds⟩
  | broadcast m ref c p flying => exact ⟨seen, broadcast_follows wf follows rfl rfl rfl⟩
  | replayed m ref sub p rest due active head =>
      have other : n ≠ m := by
        rintro rfl
        rw [(follows.holds sub due).2.1] at head
        cases head
      exact ⟨seen, pending, follows.elsewhere other rfl rfl
        (frames_enqueued_ne other ref .replay p v.log) fun _ _ => rfl⟩
  | abandoned m sub due kinds turns =>
      by_cases same : n = m
      · subst same
        exact ⟨seen, pending, follows.edited due rfl rfl rfl rfl (fun _ => rfl) rfl⟩
      · exact ⟨seen, pending, follows.elsewhere same rfl rfl rfl fun _ _ => rfl⟩
  | took m sub p b due live free next =>
      have moved : v.broker.unread sub.stream = p :: b.unread sub.stream := next_unread next
      have edit := edits_poll wf due { sub with inHand := some p } rfl rfl next
      by_cases same : n = m
      · subst same
        refine ⟨seen, pending, follows.edited due rfl rfl rfl rfl (fun live => live) ?_⟩
        rw [free, moved]
        rfl
      · exact ⟨seen, pending, follows.elsewhere same rfl rfl rfl fun x found =>
          edit.others _ (wf.receiver_ne due found same)⟩
  | lagged m sub k b due live free next =>
      have moved : b.unread sub.stream = (v.broker.unread sub.stream).drop k := next_unread next
      have edit := edits_poll wf due sub rfl rfl next
      by_cases same : n = m
      · subst same
        refine ⟨seen, pending.drop k, ?_, follows.passed, ?_⟩
        · exact ((List.Sublist.refl seen).append (List.drop_sublist k pending)).trans follows.order
        · intro x found
          cases due.symm.trans found
          obtain ⟨chan, replay, queue⟩ := follows.holds sub due
          refine ⟨chan, replay, ?_⟩
          rw [List.map_drop, queue, free, moved]
          rfl
      · refine ⟨seen, pending, follows.still rfl rfl fun x found => ?_⟩
        refine ⟨x, found, rfl, fun live => live, ?_⟩
        rw [edit.others _ (wf.receiver_ne due found same)]
  | sent m ref sub p due active live holding =>
      by_cases same : n = m
      · subst same
        obtain ⟨chan, replay, queue⟩ := follows.holds sub due
        rw [holding] at queue
        obtain ⟨next, rest, rfl, taken, rest_eq⟩ := List.map_eq_cons_iff.mp queue
        refine ⟨seen ++ [next], rest, ?_, ?_, ?_⟩
        · rw [List.append_assoc]
          exact follows.order
        · rw [List.map_append, follows.passed]
          simp [frames, Event.frameFor, taken]
        · intro x found
          simp only [setSub, Function.update_self, Option.some.injEq] at found
          subst found
          exact ⟨chan, replay, rest_eq⟩
      · exact ⟨seen, pending, follows.elsewhere same rfl rfl
          (frames_enqueued_ne same ref .live p v.log) fun _ _ => rfl⟩
  | dropped m sub due kinds turns =>
      obtain ⟨_, _, unread, _⟩ := MemoryBroker.dropStream_drops wf.broker sub.stream
      by_cases same : n = m
      · subst same
        refine ⟨seen, pending, follows.order, follows.passed, ?_⟩
        intro x found
        simp only [setSub, Function.update_self] at found
        cases found
      · exact ⟨seen, pending, follows.elsewhere same rfl rfl rfl fun x found =>
          unread _ (wf.receiver_ne due found same)⟩

theorem Opens.follows {m : Nat} {c : String} (step : v.Opens m c v') (wf : v.Wf)
    (here : m = n → c = channel) (follows : ∃ seen pending, v.Follows n channel seen pending) :
    ∃ seen pending, v'.Follows n channel seen pending := by
  obtain ⟨seen, pending, follows⟩ := follows
  obtain ⟨stream, opened, rfl⟩ := step.result
  obtain ⟨_, opened', subscribes⟩ := MemoryBroker.subscribe_subscribes wf.broker c
  cases opened.symm.trans opened'
  by_cases same : n = m
  · subst same
    refine ⟨seen, [], ?_, follows.passed, ?_⟩
    · exact ((List.Sublist.refl seen).append (List.nil_sublist pending)).trans follows.order
    · intro x found
      simp only [setSub, Function.update_self, Option.some.injEq] at found
      subst found
      refine ⟨here rfl, rfl, ?_⟩
      simp [subscribes.empty]
  · exact ⟨seen, pending, follows.elsewhere same rfl rfl rfl fun x found =>
      (subscribes.others _ (wf.live n x found)).2⟩

theorem Reads.follows {K : ChannelKind κ} {kindFor : String → Nat} {m since : Nat} {c : String}
    (step : v.Reads K kindFor m c since v') (other : n ≠ m)
    (follows : ∃ seen pending, v.Follows n channel seen pending) :
    ∃ seen pending, v'.Follows n channel seen pending := by
  obtain ⟨seen, pending, follows⟩ := follows
  obtain ⟨stream, now, replayed, held, read, rfl⟩ := step.result
  exact ⟨seen, pending, follows.elsewhere other rfl rfl rfl fun _ _ => rfl⟩

end Flow

section Once

variable {H : Hub κ β τ ε} {s t : State κ β τ} {l : Label ε}

structure State.Spoken (s : State κ β τ) : Prop where
  spent : ∀ n ref channel p result, .brokerPublish n ref channel p result ∈ s.log →
    n < s.nextCall ∧ s.calls n = none
  once : ∀ channel, ((broadcasts channel s.log).map Prod.fst).Nodup

theorem State.Spoken.caller (spoken : s.Spoken) {channel : String} {n : Nat}
    (member : n ∈ (broadcasts channel s.log).map Prod.fst) : n < s.nextCall ∧ s.calls n = none := by
  obtain ⟨⟨m, p⟩, listed, rfl⟩ := List.mem_map.mp member
  obtain ⟨ref, result, logged⟩ := mem_broadcasts.mp listed
  exact spoken.spent m ref channel p result logged

theorem act_broadcasts {n : Nat} {env : ε} {now : Nat} {c : Call τ} {o : Outcome κ β τ}
    (acts : H.act s.shared n env now c = some o) (channel : String) :
    broadcasts channel o.events = [] ∨ ∃ p, broadcasts channel o.events = [(n, p)] := by
  have own : broadcasts channel (H.eventOf s.shared n env now c).toList = [] ∨
      ∃ p, broadcasts channel (H.eventOf s.shared n env now c).toList = [(n, p)] := by
    cases logged : H.eventOf s.shared n env now c with
    | none => exact .inl rfl
    | some e =>
        cases Hub.logs logged with
        | broadcast a ref p answer =>
            by_cases here : a.channel = channel
            · exact .inr ⟨p, by simp [broadcasts, Event.broadcastOn, here]⟩
            · exact .inl (by simp [broadcasts, Event.broadcastOn, here])
        | _ => exact .inl rfl
  rcases (Hub.acted acts).logged with ⟨_, _, logged⟩ | ⟨result, _, logged⟩
  · rw [logged]
    exact own
  · rw [logged, ← List.singleton_append, broadcasts_append]
    have silent : broadcasts channel [.returned n result] = [] := rfl
    rw [silent, List.append_nil]
    exact own

theorem act_brokerPublish {n m ref : Nat} {env : ε} {now : Nat} {c : Call τ} {o : Outcome κ β τ}
    {channel : String} {p : Publication} {result : Except BrokerError Unit}
    (acts : H.act s.shared n env now c = some o)
    (member : .brokerPublish m ref channel p result ∈ o.events) : m = n ∧ o.next = none := by
  rcases (Hub.acted acts).event member with logs | ⟨_, same⟩
  · cases logs with
    | broadcast a _ _ answer =>
        refine ⟨rfl, Option.eq_none_iff_forall_ne_some.mpr fun next goes => ?_⟩
        cases Hub.goes acts goes
  · cases same

theorem forwarded_broadcasts {f : Nat} {w : Forwarder τ} {x' : Shared κ β τ} {events : List Event}
    (moved : H.Forwarded s.shared f w x' events) (channel : String) :
    broadcasts channel events = [] ∧
      ∀ n ref c p result, .brokerPublish n ref c p result ∉ events := by
  cases moved with
  | lagged => exact ⟨rfl, fun _ _ _ _ _ member => by cases List.mem_singleton.mp member⟩
  | sent => exact ⟨rfl, fun _ _ _ _ _ member => by cases List.mem_singleton.mp member⟩
  | _ => exact ⟨rfl, fun _ _ _ _ _ => nofun⟩

theorem step_spoken (staged : s.Staged) (spoken : s.Spoken) (h : H.step s l = some t) : t.Spoken := by
  cases Hub.stepped h with
  | start r =>
      refine ⟨?_, spoken.once⟩
      intro n ref channel p result member
      obtain ⟨known, ended⟩ := spoken.spent n ref channel p result member
      refine ⟨Nat.lt_succ_of_lt known, ?_⟩
      simpa only [Function.update_of_ne (Nat.ne_of_lt known)] using ended
  | @advance n env now c o at_ acts =>
      refine ⟨?_, ?_⟩
      · intro m ref channel p result member
        rw [after_log] at member
        rw [after_calls, after_nextCall]
        rcases List.mem_append.mp member with new | old
        · obtain ⟨rfl, ends⟩ := act_brokerPublish acts new
          exact ⟨staged.calls m c at_, by rw [ends, Function.update_self]⟩
        · obtain ⟨known, ended⟩ := spoken.spent m ref channel p result old
          have other : m ≠ n := by
            rintro rfl
            rw [ended] at at_
            cases at_
          exact ⟨known, by rw [Function.update_of_ne other]; exact ended⟩
      · intro channel
        rw [after_log, broadcasts_append, List.map_append]
        rcases act_broadcasts acts channel with silent | ⟨p, spoke⟩
        · rw [silent]
          simpa using spoken.once channel
        · rw [spoke]
          refine List.nodup_append.mpr ⟨spoken.once channel, List.nodup_singleton n, ?_⟩
          intro m member k single same
          subst same
          rw [List.mem_singleton.mp single] at member
          rw [(spoken.caller member).2] at at_
          cases at_
  | forward task moves =>
      have moved := Hub.forwarded moves
      refine ⟨?_, ?_⟩
      · intro n ref channel p result member
        rcases List.mem_append.mp member with new | old
        · exact absurd new ((forwarded_broadcasts moved channel).2 n ref channel p result)
        · exact spoken.spent n ref channel p result old
      · intro channel
        rw [broadcasts_append, (forwarded_broadcasts moved channel).1, List.append_nil]
        exact spoken.once channel
  | transport quiet sheds => exact ⟨spoken.spent, spoken.once⟩

theorem run_spoken {ok : State κ β τ → Label ε → Prop} {kinds : Nat → κ} {broker : β}
    (run : H.machine.Run ok (State.initial kinds broker) s) : s.Spoken := by
  have both := run.invariant (I := fun s => s.Staged ∧ s.Spoken)
    ⟨initial_staged kinds broker, nofun, fun _ => List.nodup_nil⟩
    fun _ _ _ both _ h => ⟨step_staged both.1 h, step_spoken both.1 both.2 h⟩
  exact both.2

theorem step_ended {n : Nat} (known : n < s.nextCall) (ended : s.calls n = none)
    (h : H.step s l = some t) : n < t.nextCall ∧ t.calls n = none ∧
      ∀ ref channel p result, .brokerPublish n ref channel p result ∈ t.log →
        .brokerPublish n ref channel p result ∈ s.log := by
  obtain ⟨known', ended'⟩ := step_call_over known ended h
  refine ⟨known', ended', ?_⟩
  intro ref channel p result member
  cases Hub.stepped h with
  | start r => exact member
  | @advance m env now c o at_ acts =>
      rw [after_log] at member
      rcases List.mem_append.mp member with new | old
      · cases (act_brokerPublish acts new).1
        rw [ended] at at_
        cases at_
      · exact old
  | forward task moves =>
      rcases List.mem_append.mp member with new | old
      · exact absurd new ((forwarded_broadcasts (Hub.forwarded moves) channel).2 n ref channel p result)
      · exact old
  | transport quiet sheds => exact member

end Once

section Order

variable {H : Hub κ MemoryBroker MemoryStream ε} {s t : MemoryState κ} {l : Label ε} {n : Nat}
  {channel : String}

theorem step_follows (inProcess : H.broker = MemoryBroker.broker) (staged : s.Staged) (wf : s.flow.Wf)
    (h : H.step s l = some t) (live : LiveOnly t.log n)
    (opened : ∀ ref c, Opened t.log n ref c → c = channel)
    (follows : ∃ seen pending, s.flow.Follows n channel seen pending) :
    ∃ seen pending, t.flow.Follows n channel seen pending := by
  rcases step_flow inProcess staged h with step | ⟨m, env, now, a, ref, cursor, rfl, at_, opens⟩ |
    ⟨m, env, now, a, ref, cursor, stream, rfl, at_, reads⟩
  · exact step.follows wf follows
  · refine opens.follows wf ?_ follows
    rintro rfl
    refine opened ref a.channel (advance_logged at_ ?_ h)
    obtain ⟨stream, answer⟩ := s.shared.broker.subscribe_ok a.channel
    simp only [Hub.eventOf, inProcess, MemoryBroker.broker, answer]
    rfl
  · refine reads.follows ?_ follows
    rintro rfl
    exact live ref a.channel a.sinceOffset _ (advance_logged at_ rfl h)

theorem run_follows (inProcess : H.broker = MemoryBroker.broker) {ok : MemoryState κ → Label ε → Prop}
    {kinds : Nat → κ} {capacity : Nat}
    (run : H.machine.Run ok (State.initial kinds (.withCapacity capacity)) s)
    (live : LiveOnly s.log n) (opened : ∀ ref c, Opened s.log n ref c → c = channel) :
    ∃ seen : List (Nat × Publication), seen.Sublist (broadcasts channel s.log) ∧
      seen.map Prod.snd = frames n s.log := by
  have all : s.Staged ∧ s.flow.Wf ∧ (LiveOnly s.log n →
      (∀ ref c, Opened s.log n ref c → c = channel) →
        ∃ seen pending, s.flow.Follows n channel seen pending) := by
    refine run.invariant (I := fun s => s.Staged ∧ s.flow.Wf ∧ (LiveOnly s.log n →
      (∀ ref c, Opened s.log n ref c → c = channel) →
        ∃ seen pending, s.flow.Follows n channel seen pending))
      ⟨initial_staged _ _, initial_wf _ _, ?_⟩ ?_
    · intro _ _
      exact ⟨[], [], List.nil_sublist _, rfl, nofun⟩
    · rintro s l t ⟨staged, wf, follows⟩ _ h
      refine ⟨step_staged staged h, step_wf inProcess staged wf h, ?_⟩
      intro live opened
      have grown := (step_log h).subset
      refine step_follows inProcess staged wf h live opened (follows ?_ ?_)
      · intro ref c since result member
        exact live ref c since result (grown member)
      · intro ref c member
        exact opened ref c (grown member)
  obtain ⟨seen, pending, follows⟩ := all.2.2 live opened
  have order := follows.order
  have passed := follows.passed
  simp only [State.flow, broadcasts_moves, frames_moves] at order passed
  exact ⟨seen, (List.sublist_append_left seen pending).trans order, passed⟩

/-- `n` is a subscription to the channel that asked for no replay. -/
def LiveSubscription (log : List Event) (channel : String) (n : Nat) : Prop :=
  (∃ ref, Opened log n ref channel) ∧ LiveOnly log n

/-- A broadcast of a call that was over is older than one of a call that had not begun. -/
theorem run_ended {ok : MemoryState κ → Label ε → Prop} (run : H.machine.Run ok s t) {i : Nat}
    (known : i < s.nextCall) (ended : s.calls i = none) {p : Publication}
    (member : (i, p) ∈ broadcasts channel t.log) : (i, p) ∈ broadcasts channel s.log := by
  have kept : i < t.nextCall ∧ t.calls i = none ∧ ∀ ref c p result,
      .brokerPublish i ref c p result ∈ t.log → .brokerPublish i ref c p result ∈ s.log := by
    refine run.invariant (I := fun t => i < t.nextCall ∧ t.calls i = none ∧ ∀ ref c p result,
      .brokerPublish i ref c p result ∈ t.log → .brokerPublish i ref c p result ∈ s.log)
      ⟨known, ended, fun _ _ _ _ member => member⟩ ?_
    rintro t l u ⟨known, ended, older⟩ _ h
    obtain ⟨known, ended, newer⟩ := step_ended known ended h
    exact ⟨known, ended, fun ref c p result member => older _ _ _ _ (newer ref c p result member)⟩
  obtain ⟨ref, result, logged⟩ := mem_broadcasts.mp member
  exact mem_broadcasts.mpr ⟨ref, result, kept.2.2 ref channel p result logged⟩

/-- One order of the channel's broadcasts: `seen n` is what subscription `n` was sent. Between
`s` and `t` the order only grows, so a call that was over in `s` comes before one that had not
begun. -/
structure OneOrder (channel : String) (s t : MemoryState κ)
    (seen : Nat → List (Nat × Publication)) : Prop where
  once : ((broadcasts channel t.log).map Prod.fst).Nodup
  grows : broadcasts channel s.log <+: broadcasts channel t.log
  follows : ∀ n, LiveSubscription t.log channel n →
    (seen n).Sublist (broadcasts channel t.log) ∧ (seen n).map Prod.snd = frames n t.log
  agree : ∀ n m, LiveSubscription t.log channel n → LiveSubscription t.log channel m →
    (seen n).filter (· ∈ seen m) = (seen m).filter (· ∈ seen n)
  sequential : ∀ n, LiveSubscription t.log channel n → ∀ i j p q, i < s.nextCall →
    s.calls i = none → s.nextCall ≤ j → (i, p) ∈ seen n → (j, q) ∈ seen n →
      [(i, p), (j, q)].Sublist (seen n)

theorem one_order (inProcess : H.broker = MemoryBroker.broker) {kinds : Nat → κ} {capacity : Nat}
    (before : H.machine.Run Machine.free (State.initial kinds (.withCapacity capacity)) s)
    (after : H.machine.Run Machine.free s t) (channel : String) :
    ∃ seen, OneOrder channel s t seen := by
  have run := before.trans after
  have spoken := run_spoken run
  have nodup : (broadcasts channel t.log).Nodup := (spoken.once channel).of_map _
  obtain ⟨new, grown⟩ := run_log after
  have order : broadcasts channel t.log = broadcasts channel s.log ++ broadcasts channel new := by
    rw [← grown, broadcasts_append]
  have follows : ∀ n, ∃ seen : List (Nat × Publication), LiveSubscription t.log channel n →
      seen.Sublist (broadcasts channel t.log) ∧ seen.map Prod.snd = frames n t.log := by
    intro n
    by_cases subscribed : LiveSubscription t.log channel n
    · obtain ⟨⟨ref, opened⟩, live⟩ := subscribed
      obtain ⟨seen, sub, passed⟩ := run_follows inProcess run live fun ref' c other =>
        ((run_staged run).opened n _ _ _ _ _ _ other opened).2
      exact ⟨seen, fun _ => ⟨sub, passed⟩⟩
    · exact ⟨[], fun subscribed' => absurd subscribed' subscribed⟩
  choose seen sees using follows
  refine ⟨seen, spoken.once channel, ?_, sees, ?_, ?_⟩
  · rw [order]
    exact List.prefix_append _ _
  · intro n m first second
    exact (sees n first).1.common_order (sees m second).1 nodup
  · intro n subscribed i j p q known ended later earlierSeen laterSeen
    have sub := (sees n subscribed).1
    have older := run_ended after known ended (sub.subset earlierSeen)
    rw [order] at sub nodup
    refine sub.pair_of_append earlierSeen laterSeen ?_ ?_
    · intro member
      exact (List.nodup_append.mp nodup).2.2 _ older _ member rfl
    · intro member
      have begun := (run_spoken before).caller (List.mem_map_of_mem member)
      exact absurd begun.1 (Nat.not_lt.mpr later)

end Order

def listenersJoin : List (Label Unit) :=
  Request.steps (.openSession 16) 0 5 ++ Request.steps (.openSession 16) 1 5 ++
  Request.steps (.subscribe ⟨0, 7, "rooms.lobby", 0⟩) 2 9 ++
  Request.steps (.subscribe ⟨1, 8, "rooms.lobby", 0⟩) 3 9 ++
  Request.steps (.publish ⟨0, "rooms.lobby", [1]⟩) 4 6

def listenersHear : List (Label Unit) :=
  Request.steps (.publish ⟨0, "rooms.lobby", [2]⟩) 5 6 ++
  [.forward 3 .wake, .forward 3 .poll, .forward 3 .poll, .forward 3 .poll, .forward 3 .poll,
    .forward 2 .wake, .forward 2 .poll, .forward 2 .poll]

theorem one_order_listeners :
    ∃ s t, defaults.hub.machine.Run Machine.free defaults.boot s ∧
      defaults.hub.machine.Run Machine.free s t ∧
      s.calls 4 = none ∧ s.nextCall = 5 ∧
      frames 2 t.log = [⟨"rooms.lobby", 0, [1]⟩] ∧
      frames 3 t.log = [⟨"rooms.lobby", 0, [1]⟩, ⟨"rooms.lobby", 1, [2]⟩] ∧
      ∃ seen, OneOrder "rooms.lobby" s t seen := by
  obtain ⟨s, -, before, ended, next, heard⟩ := Machine.exec_witness (M := defaults.hub.machine)
    (s := defaults.boot) listenersJoin
    (fun s => (s.calls 4).isNone = true ∧ s.nextCall = 5 ∧
      ((defaults.hub.machine.exec s listenersHear).any fun t =>
        decide (frames 2 t.log = [⟨"rooms.lobby", 0, [1]⟩] ∧
          frames 3 t.log = [⟨"rooms.lobby", 0, [1]⟩, ⟨"rooms.lobby", 1, [2]⟩])) = true)
    (by decide +kernel)
  obtain ⟨t, reached, passed⟩ := Option.any_eq_true _ _ |>.mp heard
  obtain ⟨first, second⟩ := of_decide_eq_true passed
  have after := Machine.exec_run reached
  exact ⟨s, t, before, after, Option.isNone_iff_eq_none.mp ended, next, first, second,
    one_order rfl before after "rooms.lobby"⟩

end Cherenkov
