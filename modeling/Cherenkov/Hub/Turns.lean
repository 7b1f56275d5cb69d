import Cherenkov.Hub.Order
import Cherenkov.Hub.Recovery

/-! `on_publish` hands out the offset and `broker.publish` fixes the order, in two steps of a
publish call. Two calls can pass each other in between, and then a subscriber receives the higher
offset first. Offsets arrive in order as long as every broadcast is the turn of the lowest offset
that is still to be broadcast. -/

namespace Cherenkov

variable {ε : Type} {cfg : InMemory ε} {channel : String} {s t : HubState} {l : Label ε}

/-- The channel has offsets left, and a call that broadcasts on it holds the lowest offset that
was accepted and is still to be broadcast. -/
def TakesTurns (cfg : InMemory ε) (channel : String) (s : HubState) (l : Label ε) : Prop :=
  (s.shared.kinds (cfg.hub.kindFor channel)).nextOffset channel < u64Max ∧
    ∀ n env now a ref p, l = .advance n env now → s.calls n = some (.publishBroker a ref p) →
      a.channel = channel → ∀ m b r q, m ≠ n → s.calls m = some (.publishBroker b r q) →
        b.channel = channel → p.offset < q.offset

/-- Only a step of the call itself takes its publication out of flight. -/
theorem flight_taken (staged : s.Staged) (h : cfg.hub.step s l = some t) {i : Nat} {p : Publication}
    (flying : (cfg.feed channel s).flight i = some p) (landed : (cfg.feed channel t).flight i = none) :
    ∃ env now, l = .advance i env now := by
  obtain ⟨a, r, called, _⟩ := feed_flight_some flying
  by_contra others
  push Not at others
  have kept := step_call_kept staged called others h
  have still : (cfg.feed channel t).flight i = (cfg.feed channel s).flight i := by
    simp only [InMemory.feed, Flow.feed, State.flow, kept, called]
  rw [still, flying] at landed
  cases landed

structure InOrder (cfg : InMemory ε) (channel : String) (s : HubState) : Prop where
  sane : cfg.Sane s
  numbered : s.flow.Numbered cfg.hub.kindFor channel
  turn : (cfg.feed channel s).InTurn Publication.offset

theorem step_inOrder (order : InOrder cfg channel s) (turns : TakesTurns cfg channel s l)
    (h : cfg.hub.step s l = some t) : InOrder cfg channel t := by
  obtain ⟨sane, numbered, turn⟩ := order
  have numbered' := (step_extends sane.staged turns.1 h).numbered numbered
  refine ⟨InMemory.step_sane sane h, numbered', ?_⟩
  rcases InMemory.step_feed sane h channel with step | ⟨_, _, _, _, _, _, _, _, _, opens⟩ |
    ⟨_, _, _, _, _, _, _, _, _, _, snapshot⟩
  · refine step.inTurn (sane.sound channel) turn numbered'.increasing ?_
    intro i p flying landed j q other flying'
    obtain ⟨env, now, rfl⟩ := flight_taken sane.staged h flying landed
    obtain ⟨a, r, called, here⟩ := feed_flight_some flying
    obtain ⟨b, r', called', here'⟩ := feed_flight_some flying'
    exact turns.2 i env now a r p rfl called here j b r' q other called' here'
  · exact opens.inTurn turn
  · exact snapshot.inTurn turn

theorem boot_inOrder (cfg : InMemory ε) (channel : String) : InOrder cfg channel cfg.boot := by
  refine ⟨cfg.boot_sane, (boot_apart cfg channel 0).numbered, ?_, List.Pairwise.nil, ?_⟩
  · intro p member
    cases member
  · intro p member
    cases member

theorem feed_sent (cfg : InMemory ε) (channel : String) (s : HubState) :
    (cfg.feed channel s).sent = (broadcasts channel s.log).map Prod.snd := by
  rw [← broadcasts_moves]
  simp only [InMemory.feed, Flow.feed, State.flow, broadcasts, List.map_reverse, List.map_filterMap]
  congr 2
  funext e
  cases e with
  | brokerPublish n ref c p result =>
      simp only [Event.sentOn, Event.broadcastOn]
      split <;> rfl
  | _ => rfl

theorem frames_ascend (order : InOrder cfg channel s) {n : Nat} {seen : List (Nat × Publication)}
    (sub : seen.Sublist (broadcasts channel s.log)) (passed : seen.map Prod.snd = frames n s.log) :
    (frames n s.log).Pairwise fun p q => p.offset < q.offset := by
  have sent := order.turn.sent
  rw [feed_sent] at sent
  rw [← passed]
  exact sent.sublist (sub.map Prod.snd)

theorem frames_behind (order : InOrder cfg channel s) {n : Nat} {seen : List (Nat × Publication)}
    (sub : seen.Sublist (broadcasts channel s.log)) (passed : seen.map Prod.snd = frames n s.log)
    {p q : Publication} (received : p ∈ frames n s.log) {m : Nat} {a : PublishArgs} {r : Nat}
    (called : s.calls m = some (.publishBroker a r q)) (here : a.channel = channel) :
    p.offset < q.offset := by
  have sent : p ∈ (cfg.feed channel s).sent := by
    rw [feed_sent]
    rw [← passed] at received
    exact (sub.map Prod.snd).subset received
  refine order.turn.ahead p sent m q ?_
  simp [InMemory.feed, Flow.feed, State.flow, Call.flight, called, here]

/-- In every run in which broadcasts take turns, a live subscription receives ascending offsets,
and what was accepted and is still to be broadcast lies above all of them. -/
theorem offsets_ascend (cfg : InMemory ε) {channel : String} {n : Nat} {s : HubState}
    (run : cfg.hub.machine.Run (TakesTurns cfg channel) cfg.boot s)
    (live : LiveSubscription s.log channel n) :
    (frames n s.log).Pairwise (fun p q => p.offset < q.offset) ∧
      ∀ p ∈ frames n s.log, ∀ m a r q, s.calls m = some (.publishBroker a r q) →
        a.channel = channel → p.offset < q.offset := by
  have order := run.invariant (boot_inOrder cfg channel) fun _ _ _ order turns h =>
    step_inOrder order turns h
  obtain ⟨⟨ref, opened⟩, live⟩ := live
  obtain ⟨seen, sub, passed⟩ := run_follows rfl run live fun ref' c other =>
    ((run_staged run).opened n _ _ _ _ _ _ other opened).2
  refine ⟨frames_ascend order sub passed, ?_⟩
  intro p received m a r q called here
  exact frames_behind order sub passed received called here

def takesTurns (cfg : InMemory ε) (channel : String) (s : HubState) (l : Label ε) : Bool :=
  decide ((s.shared.kinds (cfg.hub.kindFor channel)).nextOffset channel < u64Max) &&
    match l with
    | .advance n _ _ =>
        match s.calls n with
        | some (.publishBroker a _ p) => a.channel != channel || (List.range s.nextCall).all fun m =>
            m == n || match s.calls m with
              | some (.publishBroker b _ q) => b.channel != channel || decide (p.offset < q.offset)
              | _ => true
        | _ => true
    | _ => true

theorem takesTurns_sound (cfg : InMemory ε) (channel : String) (s : HubState) (l : Label ε)
    (staged : s.Staged) (h : takesTurns cfg channel s l = true) : TakesTurns cfg channel s l := by
  simp only [takesTurns, Bool.and_eq_true, decide_eq_true_eq] at h
  refine ⟨h.1, ?_⟩
  rintro n env now a ref p rfl called here m b r q other called' here'
  have lowest := h.2
  simp only [called, here, bne_self_eq_false, Bool.false_or, List.all_eq_true,
    List.mem_range] at lowest
  simpa [called', here', other] using lowest m (staged.calls m _ called')

def listenerHears : List (Label Unit) :=
  Request.steps (.openSession 16) 0 5 ++ Request.steps (.openSession 16) 1 5 ++
  Request.steps (.subscribe ⟨1, 7, "rooms.lobby", 0⟩) 2 9 ++
  Request.steps (.publish ⟨0, "rooms.lobby", [1]⟩) 3 6 ++
  Request.steps (.publish ⟨0, "rooms.lobby", [2]⟩) 4 6 ++
  Request.steps (.publish ⟨0, "rooms.lobby", [3]⟩) 5 5 ++
  [.forward 2 .wake, .forward 2 .poll, .forward 2 .poll, .forward 2 .poll, .forward 2 .poll]

/-- The second publish overtakes the first one between `on_publish` and `broker.publish`. -/
def publishersCross : List (Label Unit) :=
  Request.steps (.openSession 16) 0 5 ++ Request.steps (.openSession 16) 1 5 ++
  Request.steps (.subscribe ⟨1, 7, "rooms.lobby", 0⟩) 2 9 ++
  Request.steps (.publish ⟨0, "rooms.lobby", [1]⟩) 3 5 ++
  Request.steps (.publish ⟨1, "rooms.lobby", [2]⟩) 4 6 ++ [.advance 3 () 0] ++
  [.forward 2 .wake, .forward 2 .poll, .forward 2 .poll, .forward 2 .poll, .forward 2 .poll]

def Event.asksReplay : Event → Bool
  | .replaySince .. => true
  | _ => false

theorem liveOnly_of_none {log : List Event} (h : log.any Event.asksReplay = false) (n : Nat) :
    LiveOnly log n := by
  intro ref channel since result asked
  rw [List.any_eq_false] at h
  exact h _ asked rfl

theorem offsets_ascend_listener :
    ∃ s, defaults.hub.machine.Run (TakesTurns defaults "rooms.lobby") defaults.boot s ∧
      LiveSubscription s.log "rooms.lobby" 2 ∧
      frames 2 s.log = [⟨"rooms.lobby", 0, [1]⟩, ⟨"rooms.lobby", 1, [2]⟩] ∧
      (frames 2 s.log).Pairwise (fun p q => p.offset < q.offset) ∧
      ∀ p ∈ frames 2 s.log, ∀ m a r q, s.calls m = some (.publishBroker a r q) →
        a.channel = "rooms.lobby" → p.offset < q.offset := by
  obtain ⟨s, run, opened, live, received⟩ := Machine.execWithin_witness
    (M := defaults.hub.machine) (s := defaults.boot) (takesTurns_sound defaults "rooms.lobby")
    (fun _ _ _ staged _ h => step_staged staged h) (initial_staged _ _) listenerHears
    (fun s => .brokerSubscribe 2 1 "rooms.lobby" true ∈ s.log ∧
      s.log.any Event.asksReplay = false ∧
      frames 2 s.log = [⟨"rooms.lobby", 0, [1]⟩, ⟨"rooms.lobby", 1, [2]⟩]) (by decide +kernel)
  have subscribed : LiveSubscription s.log "rooms.lobby" 2 :=
    ⟨⟨1, opened⟩, liveOnly_of_none live 2⟩
  exact ⟨s, run, subscribed, received, offsets_ascend defaults run subscribed⟩

/-- The subscriber of `publishersCross` receives offset 1 and then offset 0. -/
theorem crossed_offsets_descend :
    ∃ s, defaults.hub.machine.Run Machine.free defaults.boot s ∧
      LiveSubscription s.log "rooms.lobby" 2 ∧
      frames 2 s.log = [⟨"rooms.lobby", 1, [2]⟩, ⟨"rooms.lobby", 0, [1]⟩] := by
  obtain ⟨s, -, run, opened, live, received⟩ := Machine.exec_witness (M := defaults.hub.machine)
    (s := defaults.boot) publishersCross
    (fun s => .brokerSubscribe 2 1 "rooms.lobby" true ∈ s.log ∧
      s.log.any Event.asksReplay = false ∧
      frames 2 s.log = [⟨"rooms.lobby", 1, [2]⟩, ⟨"rooms.lobby", 0, [1]⟩]) (by decide +kernel)
  exact ⟨s, run, ⟨⟨1, opened⟩, liveOnly_of_none live 2⟩, received⟩

end Cherenkov
