import Cherenkov.Hub.Steps

/-! A call whose steps are not interrupted, for a session that stays in the registry, so that no
object is dropped on the way. `Alone` follows such a call on the shared state only; `Alone.run` puts
it back into the machine. -/

namespace Cherenkov

variable {κ β τ ε : Type} {H : Hub κ β τ ε} {s : State κ β τ} {n ref : Nat} {env : ε} {now : Nat}
  {c : Call τ} {o : Outcome κ β τ}

theorem run_step {t : State κ β τ} {l : Label ε} (h : H.step s l = some t) :
    H.machine.Run Machine.free s t := .tail (l := l) (.refl s) trivial h

theorem run_act (at_ : s.calls n = some c) (acts : H.act s.shared n env now c = some o) :
    H.machine.Run Machine.free s (s.after n c o) ∧ (s.after n c o).calls n = o.next ∧
      (s.after n c o).shared.kinds = o.shared.kinds := by
  refine ⟨run_step (Hub.step_act at_ acts), ?_, (quiet_after s n c o).kinds⟩
  rw [after_calls, Function.update_self]

theorem dropArcs_of_held {refs : List Nat} (held : ∀ r ∈ refs, s.held r = true) :
    s.dropArcs refs = s := by
  have kept : refs.foldl (fun x r => if s.held r then x else x.abortAll r) s.shared = s.shared := by
    induction refs with
    | nil => rfl
    | cons r refs ih =>
        rw [List.foldl_cons, if_pos (held r (List.mem_cons_self ..))]
        exact ih fun r' member => held r' (List.mem_cons_of_mem _ member)
  simp only [State.dropArcs, kept]

/-- Every object that the step lets go of is still registered. -/
def Outcome.Keeps (o : Outcome κ β τ) (c : Call τ) : Prop :=
  ∀ r ∈ c.holds ++ o.displaced.toList, o.shared.registry.get (o.shared.heap r).id = some r

theorem Outcome.Keeps.after_eq (keeps : o.Keeps c) (s : State κ β τ) (n : Nat) :
    s.after n c o = s.landed n o := by
  apply dropArcs_of_held
  intro r member
  exact held_of_registered (keeps r member)

theorem keeps_of_registered (own : ∀ r ∈ c.holds ++ o.displaced.toList, r = ref)
    (registered : o.shared.registry.get (o.shared.heap ref).id = some ref) : o.Keeps c := by
  intro r member
  rw [own r member]
  exact registered

/-- Call `n` runs from its program counter to its return: the shared state it leaves and the
events it logs. -/
inductive Alone (H : Hub κ β τ ε) (n : Nat) :
    Shared κ β τ → Call τ → Shared κ β τ → List Event → Prop
  | last {x : Shared κ β τ} {c : Call τ} {env : ε} {now : Nat} {o : Outcome κ β τ}
      (acts : H.act x n env now c = some o) (ends : o.next = none) (keeps : o.Keeps c) :
      Alone H n x c o.shared o.events
  | step {x y : Shared κ β τ} {c next : Call τ} {env : ε} {now : Nat} {o : Outcome κ β τ}
      {later : List Event} (acts : H.act x n env now c = some o) (goes : o.next = some next)
      (keeps : o.Keeps c) (rest : Alone H n o.shared next y later) :
      Alone H n x c y (later ++ o.events)

theorem Alone.run {x y : Shared κ β τ} {events : List Event} (h : Alone H n x c y events)
    (here : s.shared = x) (at_ : s.calls n = some c) :
    ∃ t, H.machine.Run Machine.free s t ∧ t.shared = y ∧
      t.calls = Function.update s.calls n none ∧ t.nextCall = s.nextCall ∧
      t.log = events ++ s.log := by
  induction h generalizing s with
  | last acts ends keeps =>
      rw [← here] at acts
      have run := (run_act at_ acts).1
      rw [keeps.after_eq] at run
      refine ⟨_, run, rfl, ?_, rfl, rfl⟩
      simp only [State.landed, ends]
  | @step x y c next env now o later acts goes keeps rest ih =>
      rw [← here] at acts
      have run := (run_act at_ acts).1
      rw [keeps.after_eq] at run
      have called : (s.landed n o).calls n = some next := by
        simp only [State.landed, Function.update_self, goes]
      obtain ⟨t, run', shared, calls, nextCall, log⟩ := ih rfl called
      refine ⟨t, run.trans run', shared, ?_, nextCall, ?_⟩
      · rw [calls]
        simp only [State.landed, Function.update_idem]
      · rw [log]
        simp only [State.landed, List.append_assoc]

theorem Alone.call {r : Request} {y : Shared κ β τ} {events : List Event}
    (h : Alone H s.nextCall s.shared r.entry y events) :
    ∃ t, H.machine.Run Machine.free s t ∧ t.shared = y ∧ t.nextCall = s.nextCall + 1 ∧
      t.log = events ++ s.log := by
  have starts : H.step s (.start r) = some { s with
      calls := Function.update s.calls s.nextCall (some r.entry)
      nextCall := s.nextCall + 1 } := rfl
  obtain ⟨t, run, shared, _, nextCall, log⟩ := Alone.run (s := { s with
      calls := Function.update s.calls s.nextCall (some r.entry)
      nextCall := s.nextCall + 1 }) h rfl (Function.update_self s.nextCall _ s.calls)
  exact ⟨t, (run_step starts).trans run, shared, nextCall, log⟩

variable {x : Shared κ β τ}

/-- `y` differs from `x` in the registry's sessions, in one session object and in the metrics. -/
structure Shared.Opens (x y : Shared κ β τ) (ref : Nat) (session : Session) : Prop where
  registered : y.registry.get session.id = some ref
  heap : y.heap = Function.update x.heap ref session
  kinds : y.kinds = x.kinds
  broker : y.broker = x.broker
  forwarders : y.forwarders = x.forwarders

theorem meter_alone (registered : x.registry.get (x.heap ref).id = some ref) (env : ε) :
    ∃ y events, Alone H n x (.count (.opened ref)) y events ∧
      x.Opens y ref { x.heap ref with handles := (x.heap ref).handles + 1 } := by
  have own : ∀ r ∈ [ref], r = ref := fun r member => List.mem_singleton.mp member
  have counts : H.act x n env 0 (.count (.opened ref)) =
      some (({ x with metrics := Meter.bump x.metrics (.opened ref) } : Shared κ β τ).goto
        (.measure (.opened ref))) := rfl
  generalize counted : ({ x with metrics := Meter.bump x.metrics (.opened ref) } :
    Shared κ β τ) = y at counts
  have registered' : y.registry.get (y.heap ref).id = some ref := by
    rw [← counted]
    exact registered
  have measures : H.act y n env 0 (.measure (.opened ref)) =
      some (y.goto (.gauge (.opened ref) y.registry.sessions.len)) := rfl
  have gauges : H.act y n env 0 (.gauge (.opened ref) y.registry.sessions.len) =
      some ((Meter.handOver { y with
        metrics := { y.metrics with active := y.registry.sessions.len } } (.opened ref)).done n
        (.ok (.opened ref))) := rfl
  have handed : (Meter.handOver { y with
      metrics := { y.metrics with active := y.registry.sessions.len } }
      (.opened ref)).heap = Function.update x.heap ref
        { x.heap ref with handles := (x.heap ref).handles + 1 } := by
    rw [← counted]
    rfl
  have id : ((Meter.handOver { y with
      metrics := { y.metrics with active := y.registry.sessions.len } }
      (.opened ref)).heap ref).id = (x.heap ref).id := by
    rw [handed, Function.update_self]
  refine ⟨_, _, .step counts rfl (keeps_of_registered own registered')
    (.step measures rfl (keeps_of_registered own registered')
      (.last gauges rfl (keeps_of_registered own ?_))), ?_, handed, ?_, ?_, ?_⟩
  · refine (congrArg y.registry.get id).trans ?_
    rw [← counted]
    exact registered
  all_goals rw [← counted]
  · exact registered
  all_goals rfl

def Hub.openedSession (H : Hub κ β τ ε) (id capacity : Nat) : Session :=
  { Session.new id capacity with
    claims := if H.gate.allowAnonymous then some .anonymous else none
    handles := 1 }

theorem open_alone (capacity : Nat) (env : ε) (fresh : x.registry.get x.registry.nextId = none) :
    ∃ y events, Alone H n x (.openSession capacity) y events ∧
      x.Opens y x.nextRef (H.openedSession x.registry.nextId capacity) := by
  have none_ : ∀ r ∈ ([] : List Nat), r = x.nextRef := fun r member => absurd member List.not_mem_nil
  have own : ∀ r ∈ [x.nextRef], r = x.nextRef := fun r member => List.mem_singleton.mp member
  generalize made : (if H.gate.allowAnonymous then
    { Session.new x.registry.nextId capacity with claims := some .anonymous }
    else Session.new x.registry.nextId capacity) = session
  have id : session.id = x.registry.nextId := by
    rw [← made]
    split <;> rfl
  have opens : H.act x n env 0 (.openSession capacity) =
      some (({ x with
        registry := x.registry.allocate.1
        heap := Function.update x.heap x.nextRef session
        nextRef := x.nextRef + 1 } : Shared κ β τ).goto (.openRegister x.nextRef)) := by
    rw [← made]
    rfl
  generalize allocated : ({ x with
    registry := x.registry.allocate.1
    heap := Function.update x.heap x.nextRef session
    nextRef := x.nextRef + 1 } : Shared κ β τ) = y at opens
  have here : y.heap x.nextRef = session := by
    rw [← allocated]
    exact Function.update_self ..
  have free : y.registry.get x.registry.nextId = none := by
    rw [← allocated]
    exact fresh
  have registers : H.act y n env 0 (.openRegister x.nextRef) =
      some (({ y with registry := y.registry.register x.registry.nextId x.nextRef } :
        Shared κ β τ).goto (.count (.opened x.nextRef))) := by
    simp only [Hub.act, here, id, free, Shared.goto]
  have registered : ({ y with registry := y.registry.register x.registry.nextId x.nextRef } :
      Shared κ β τ).registry.get (y.heap x.nextRef).id = some x.nextRef := by
    rw [here, id]
    exact DashMap.get_put_self ..
  obtain ⟨z, events, metered, done⟩ := meter_alone (H := H) (n := n) registered env
  have empty : (({ x with
      registry := x.registry.allocate.1
      heap := Function.update x.heap x.nextRef session
      nextRef := x.nextRef + 1 } : Shared κ β τ).goto (.openRegister x.nextRef)).Keeps
        (.openSession capacity) := fun r member => absurd member List.not_mem_nil
  refine ⟨z, _, .step opens rfl (by rw [← allocated]; exact empty)
    (.step registers rfl (keeps_of_registered own registered) metered), ?_, ?_, ?_, ?_, ?_⟩
  · have there := done.registered
    simp only [here, id] at there
    exact there
  · have heap := done.heap
    simp only [here] at heap
    rw [heap, ← allocated, Function.update_idem]
    congr 1
    rw [← made, Hub.openedSession]
    split <;> rfl
  · rw [done.kinds, ← allocated]
  · rw [done.broker, ← allocated]
  · rw [done.forwarders, ← allocated]

theorem subscribe_alone_live {a : SubscribeArgs} {kind : κ} {cursor : ChannelCursor} {b : β} {stream : τ}
    (registered : x.registry.get (x.heap ref).id = some ref)
    (absent : (x.heap ref).subscriptions.containsKey a.channel = false)
    (live : a.sinceOffset = 0)
    (asked : H.kinds.onSubscribe (x.kinds (H.kindFor a.channel)) now a.channel = (kind, .ok cursor))
    (opened : H.broker.subscribe x.broker a.channel = (b, .ok stream)) (env : ε) :
    Alone H n x (.subscribeHas a ref)
      { (({ x.setKind (H.kindFor a.channel) kind with broker := b } : Shared κ β τ).setForwarder n
          (some ⟨ref, a.channel, stream, none, false, false⟩)).setSubscriptions ref
          ((x.heap ref).subscriptions.put a.channel n) with
        registry := x.registry.addSubscription a.sessionId a.channel }
      [.returned n (.ok (.subscribeOk ⟨a.requestId, a.channel, cursor.epoch, cursor.offset⟩)),
        .brokerSubscribe n ref a.channel true, .onSubscribe n ref a.channel (.ok cursor)] := by
  have asks : H.act x n env now (.subscribeKind a ref) =
      some (((x.setKind (H.kindFor a.channel) kind).goto (.subscribeBroker a ref cursor)).after
        (.onSubscribe n ref a.channel (.ok cursor))) := by
    simp only [Hub.act, asked]
  have opens : H.act (x.setKind (H.kindFor a.channel) kind) n env now
      (.subscribeBroker a ref cursor) =
      some ((({ x.setKind (H.kindFor a.channel) kind with broker := b } : Shared κ β τ).goto
        (.subscribeSpawn a ref cursor stream)).after (.brokerSubscribe n ref a.channel true)) := by
    simp only [Hub.act, Shared.setKind, opened, live, Nat.lt_irrefl, if_false]
  generalize spawned : (({ x.setKind (H.kindFor a.channel) kind with broker := b } :
    Shared κ β τ).setForwarder n (some ⟨ref, a.channel, stream, none, false, false⟩)) = y
  have heap : y.heap = x.heap := by rw [← spawned]; rfl
  have registry : y.registry = x.registry := by rw [← spawned]; rfl
  have inserts : H.act y n env now (.subscribeInsert a ref cursor) =
      some ((y.setSubscriptions ref ((x.heap ref).subscriptions.put a.channel n)).goto
        (.subscribeIndex a ref cursor)) := by
    simp only [Hub.act, heap, absent, Bool.false_eq_true, if_false]
  have own : ∀ r ∈ [ref], r = ref := fun r member => List.mem_singleton.mp member
  have there : y.registry.get (y.heap ref).id = some ref := by
    rw [registry, heap]
    exact registered
  have mapped : (y.setSubscriptions ref ((x.heap ref).subscriptions.put a.channel n)).registry.get
      ((y.setSubscriptions ref ((x.heap ref).subscriptions.put a.channel n)).heap ref).id =
        some ref := by
    rw [show ((y.setSubscriptions ref ((x.heap ref).subscriptions.put a.channel n)).heap ref).id =
      (y.heap ref).id from setSession_same Session.id (by rfl) ref]
    exact there
  have indexed : Alone H n (y.setSubscriptions ref ((x.heap ref).subscriptions.put a.channel n))
      (.subscribeIndex a ref cursor)
      { y.setSubscriptions ref ((x.heap ref).subscriptions.put a.channel n) with
        registry := x.registry.addSubscription a.sessionId a.channel }
      [.returned n (.ok (.subscribeOk ⟨a.requestId, a.channel, cursor.epoch, cursor.offset⟩))] := by
    rw [← registry]
    have indexes : H.act (y.setSubscriptions ref ((x.heap ref).subscriptions.put a.channel n)) n
        env now (.subscribeIndex a ref cursor) =
        some (({ y.setSubscriptions ref ((x.heap ref).subscriptions.put a.channel n) with
          registry := y.registry.addSubscription a.sessionId a.channel } : Shared κ β τ).done n
          (.ok (.subscribeOk ⟨a.requestId, a.channel, cursor.epoch, cursor.offset⟩))) := rfl
    exact .last indexes rfl (keeps_of_registered own mapped)
  have inserted := Alone.step inserts rfl (keeps_of_registered own mapped) indexed
  have spawns : H.act ({ x.setKind (H.kindFor a.channel) kind with broker := b } : Shared κ β τ) n
      env now (.subscribeSpawn a ref cursor stream) =
      some (y.goto (.subscribeInsert a ref cursor)) := by
    rw [← spawned]
    rfl
  have started := Alone.step spawns rfl (keeps_of_registered own there) inserted
  have looks : H.act x n env now (.subscribeHas a ref) =
      some (x.goto (.subscribeKind a ref)) := by
    simp only [Hub.act, absent, Bool.false_eq_true, if_false]
  exact .step looks rfl (keeps_of_registered own registered) (.step asks rfl (keeps_of_registered own registered)
    (.step opens rfl (keeps_of_registered own registered) started))

/-- A gated call of a session with claims, up to the first step past the ACL check. -/
theorem enter_alone {g : Gated} {claims : SessionClaims} {y : Shared κ β τ} {events : List Event}
    (found : x.registry.get g.sessionId = some ref) (id : (x.heap ref).id = g.sessionId)
    (claimed : (x.heap ref).claims = some claims)
    (allowed : H.gate.check env claims g.action g.channel = .ok .allow)
    (rest : Alone H n x (g.admitted ref) y events) :
    Alone H n x (.enter g) y
      (events ++ [.checked n ref claims g.action g.channel (.ok .allow)]) := by
  have registered : x.registry.get (x.heap ref).id = some ref := by
    rw [id]
    exact found
  have none_ : ∀ r ∈ ([] : List Nat), r = ref := fun r member => absurd member List.not_mem_nil
  have own : ∀ r ∈ [ref], r = ref := fun r member => List.mem_singleton.mp member
  have enters : H.act x n env 0 (.enter g) = some (x.goto (.requireClaims g ref)) := by
    simp only [Hub.act, found]
  have requires : H.act x n env 0 (.requireClaims g ref) =
      some (x.goto (.enforceAcl g ref claims)) := by
    simp only [Hub.act, claimed]
  have checks : H.act x n env 0 (.enforceAcl g ref claims) =
      some ((x.goto (g.admitted ref)).after
        (.checked n ref claims g.action g.channel (.ok .allow))) := by
    simp only [Hub.act, allowed]
  have checked := Alone.step checks rfl (keeps_of_registered own registered) rest
  have required := Alone.step requires rfl (keeps_of_registered own registered) checked
  have entered := Alone.step enters rfl (keeps_of_registered none_ registered) required
  simpa only [Shared.goto, Outcome.after, List.append_nil, List.nil_append] using entered

theorem publish_alone {a : PublishArgs} {kind : κ} {p : Publication} {b : β}
    (registered : x.registry.get (x.heap ref).id = some ref)
    (valid : H.gate.validate env a.channel a.data = .ok ())
    (accepted : H.kinds.onPublish (x.kinds (H.kindFor a.channel)) now a.channel a.data =
      (kind, .ok p))
    (sent : H.broker.publish x.broker a.channel p = (b, .ok ())) :
    Alone H n x (.publishValidate a ref)
      { x.setKind (H.kindFor a.channel) kind with
        broker := b
        metrics := { x.metrics with publications := x.metrics.publications + 1 } }
      [.returned n (.ok (.published p)), .brokerPublish n ref a.channel p (.ok ()),
        .onPublish n ref a.channel a.data (.ok p),
        .validated n ref a.channel a.data (.ok ())] := by
  have own : ∀ r ∈ [ref], r = ref := fun r member => List.mem_singleton.mp member
  have validates : H.act x n env now (.publishValidate a ref) =
      some ((x.goto (.publishKind a ref)).after
        (.validated n ref a.channel a.data (.ok ()))) := by
    simp only [Hub.act, valid]
  have accepts : H.act x n env now (.publishKind a ref) =
      some (((x.setKind (H.kindFor a.channel) kind).goto (.publishBroker a ref p)).after
        (.onPublish n ref a.channel a.data (.ok p))) := by
    simp only [Hub.act, accepted]
  have publishes : H.act (x.setKind (H.kindFor a.channel) kind) n env now (.publishBroker a ref p) =
      some ((({ x.setKind (H.kindFor a.channel) kind with
        broker := b
        metrics := { x.metrics with publications := x.metrics.publications + 1 } } :
        Shared κ β τ).done n (.ok (.published p))).after
        (.brokerPublish n ref a.channel p (.ok ()))) := by
    simp only [Hub.act, Shared.setKind, sent]
  exact .step validates rfl (keeps_of_registered own registered) (.step accepts rfl (keeps_of_registered own registered)
    (.last publishes rfl (keeps_of_registered own registered)))

/-- An idle forwarder with something to read and room in the outbox delivers it. -/
theorem forward_delivers {f : Nat} {w : Forwarder τ} {b : β} {p : Publication} {outbox : Outbox}
    (task : s.shared.forwarders f = some w) (free : w.inHand = none) (idle : w.polled = false)
    (going : w.aborted = false) (ready : H.broker.next s.shared.broker w.stream = (b, .ready p))
    (room : (s.shared.heap w.session).outbox.send (.publication p) = .sent outbox) :
    ∃ t, H.machine.Run Machine.free s t ∧ t.log = .enqueued f w.session .live p :: s.log := by
  have wakes : H.step s (.forward f .wake) =
      some { s with shared := s.shared.setForwarder f (some { w with polled := true }) } := by
    simp [Hub.step, task, Hub.moveForwarder, idle, going]
  have polls : H.step { s with shared := s.shared.setForwarder f (some { w with polled := true }) }
      (.forward f .poll) = some { s with
        shared := ({ s.shared with broker := b } : Shared κ β τ).setForwarder f
          (some { w with polled := true, inHand := some p }) } := by
    simp [Hub.step, Shared.setForwarder, Hub.moveForwarder, Hub.pollForwarder, free, ready]
  have sends : H.step { s with
        shared := ({ s.shared with broker := b } : Shared κ β τ).setForwarder f
          (some { w with polled := true, inHand := some p }) } (.forward f .poll) =
      some { s with
        shared := (({ s.shared with broker := b } : Shared κ β τ).setOutbox w.session
          outbox).setForwarder f (some { w with polled := true, inHand := none })
        log := .enqueued f w.session .live p :: s.log } := by
    simp [Hub.step, Shared.setForwarder, Hub.moveForwarder, Hub.pollForwarder, Shared.setOutbox,
      Shared.setSession, room]
  exact ⟨_, ((run_step wakes).trans (run_step polls)).trans (run_step sends), rfl⟩

end Cherenkov
