import Mathlib.Data.List.Infix
import Cherenkov.Library.Machine
import Cherenkov.Hub.Model

/-! Every invariant of the hub is proved from the inversions of this file, so that
`Hub.moveForwarder` and `State.dropArcs` are taken apart only here. The functions named `...After`
say which program counters touch one component; everywhere else it stays as it was. `Hub.eventOf` is
the event a program counter logs before the call goes on or returns. -/

namespace Cherenkov

variable {κ β τ ε : Type}

/-- Outboxes and handles may change, subscription maps may be emptied, forwarders may be
aborted; nothing else moves. Dropping session objects and all transport steps are quiet. -/
structure Quiet (x x' : Shared κ β τ) : Prop where
  registry : x'.registry = x.registry
  nextRef : x'.nextRef = x.nextRef
  kinds : x'.kinds = x.kinds
  broker : x'.broker = x.broker
  metrics : x'.metrics = x.metrics
  id : ∀ ref, (x'.heap ref).id = (x.heap ref).id
  claims : ∀ ref, (x'.heap ref).claims = (x.heap ref).claims
  closed : ∀ ref, (x.heap ref).outbox.closed = true → (x'.heap ref).outbox.closed = true
  subscriptions : ∀ ref, (x'.heap ref).subscriptions = (x.heap ref).subscriptions ∨
    (x'.heap ref).subscriptions = ∅
  forwarders : ∀ f, x'.forwarders f = x.forwarders f ∨
    x'.forwarders f = (x.forwarders f).map Forwarder.abort

variable {H : Hub κ β τ ε} {s t : State κ β τ} {x x' : Shared κ β τ} {l : Label ε} {n f ref : Nat}
  {env : ε} {now : Nat} {c : Call τ} {o : Outcome κ β τ} {w : Forwarder τ}

theorem Quiet.refl (x : Shared κ β τ) : Quiet x x :=
  ⟨rfl, rfl, rfl, rfl, rfl, fun _ => rfl, fun _ => rfl, fun _ h => h,
    fun _ => .inl rfl, fun _ => .inl rfl⟩

theorem Quiet.trans {x y z : Shared κ β τ} (first : Quiet x y) (second : Quiet y z) :
    Quiet x z := by
  refine ⟨second.registry.trans first.registry, second.nextRef.trans first.nextRef,
    second.kinds.trans first.kinds, second.broker.trans first.broker,
    second.metrics.trans first.metrics, fun r => (second.id r).trans (first.id r),
    fun r => (second.claims r).trans (first.claims r),
    fun r h => second.closed r (first.closed r h), ?_, ?_⟩
  · intro ref
    rcases second.subscriptions ref with same | emptied
    · rw [same]
      exact first.subscriptions ref
    · exact .inr emptied
  · intro f
    rcases second.forwarders f with same | aborted
    · rw [same]
      exact first.forwarders f
    · rcases first.forwarders f with same' | aborted'
      · rw [aborted, same']
        exact .inr rfl
      · rw [aborted, aborted', Option.map_map]
        exact .inr rfl

theorem Quiet.forwarder_some (q : Quiet x x') {w' : Forwarder τ} (h : x'.forwarders f = some w') :
    ∃ w, x.forwarders f = some w ∧ (w' = w ∨ w' = w.abort) := by
  rcases q.forwarders f with same | aborted
  · exact ⟨w', same ▸ h, .inl rfl⟩
  · rw [aborted] at h
    obtain ⟨w, found, rfl⟩ := Option.map_eq_some_iff.mp h
    exact ⟨w, found, .inr rfl⟩

theorem setSession_field {α : Type} (x : Shared κ β τ) (ref : Nat) (session : Session)
    (f : Session → α) (r : Nat) :
    f ((x.setSession ref session).heap r) =
      Function.update (fun r => f (x.heap r)) ref (f session) r :=
  Function.apply_update (fun _ => f) x.heap ref session r

theorem setSession_same {α : Type} {session : Session} (f : Session → α)
    (same : f session = f (x.heap ref)) (r : Nat) :
    f ((x.setSession ref session).heap r) = f (x.heap r) := by
  rw [setSession_field x ref session f r, same, Function.update_eq_self]

theorem quiet_setSession {session : Session} (id : session.id = (x.heap ref).id)
    (claims : session.claims = (x.heap ref).claims)
    (closed : (x.heap ref).outbox.closed = true → session.outbox.closed = true)
    (subscriptions : session.subscriptions = (x.heap ref).subscriptions ∨
      session.subscriptions = ∅) : Quiet x (x.setSession ref session) := by
  refine ⟨rfl, rfl, rfl, rfl, rfl, ?_, ?_, ?_, ?_, fun _ => .inl rfl⟩ <;> intro r <;>
    by_cases same : r = ref
  · subst same; simpa [Shared.setSession] using id
  · simp [Shared.setSession, same]
  · subst same; simpa [Shared.setSession] using claims
  · simp [Shared.setSession, same]
  · subst same; simpa [Shared.setSession] using closed
  · simp [Shared.setSession, same]
  · subst same; simpa [Shared.setSession] using subscriptions
  · simp [Shared.setSession, same]

theorem quiet_abortAll (x : Shared κ β τ) (ref : Nat) : Quiet x (x.abortAll ref) := by
  have aborted : Quiet x (x.abort (x.heap ref).subscriptions.values) := by
    refine ⟨rfl, rfl, rfl, rfl, rfl, fun _ => rfl, fun _ => rfl, fun _ h => h,
      fun _ => .inl rfl, ?_⟩
    intro f
    simp only [Shared.abort]
    split
    · exact .inr rfl
    · exact .inl rfl
  exact aborted.trans (quiet_setSession rfl rfl id (.inr rfl))

theorem quiet_dropArcs (s : State κ β τ) (refs : List Nat) :
    Quiet s.shared (s.dropArcs refs).shared := by
  suffices ∀ x : Shared κ β τ,
      Quiet x (refs.foldl (fun x ref => if s.held ref then x else x.abortAll ref) x) from this _
  induction refs with
  | nil => exact fun x => Quiet.refl x
  | cons ref refs ih =>
      intro x
      refine Quiet.trans ?_ (ih _)
      dsimp only
      split
      · exact Quiet.refl x
      · exact quiet_abortAll x ref

/-- A quiet step, said exactly: outboxes and handles are rewritten, objects are dropped. -/
inductive Sheds (x : Shared κ β τ) : Shared κ β τ → Prop
  | refl : Sheds x x
  | stored {y z : Shared κ β τ} (before : Sheds x y) (forwarders : z.forwarders = y.forwarders)
      (subscriptions : ∀ r, (z.heap r).subscriptions = (y.heap r).subscriptions)
      (closed : ∀ r, (y.heap r).outbox.closed = true → (z.heap r).outbox.closed = true) : Sheds x z
  | dropped {y : Shared κ β τ} (before : Sheds x y) (ref : Nat) : Sheds x (y.abortAll ref)

theorem sheds_dropArcs (before : Sheds x s.shared) (refs : List Nat) :
    Sheds x (s.dropArcs refs).shared := by
  suffices ∀ y : Shared κ β τ, Sheds x y →
      Sheds x (refs.foldl (fun x ref => if s.held ref then x else x.abortAll ref) y) from
    this _ before
  induction refs with
  | nil => exact fun y h => h
  | cons ref refs ih =>
      intro y h
      apply ih
      dsimp only
      split
      · exact h
      · exact .dropped h ref

theorem abortAll_subscriptions (x : Shared κ β τ) {ref r : Nat} (other : r ≠ ref) :
    ((x.abortAll ref).heap r).subscriptions = (x.heap r).subscriptions := by
  simp [Shared.abortAll, Shared.setSubscriptions, Shared.setSession, Shared.abort, other]

/-- What aborting the tasks of an object that nothing holds keeps, letting go of objects keeps. -/
theorem dropArcs_keeps {α : Type} (f : Shared κ β τ → α)
    (kept : ∀ x r, ¬s.held r = true → f (x.abortAll r) = f x) (refs : List Nat) :
    f (s.dropArcs refs).shared = f s.shared := by
  suffices ∀ x, f (refs.foldl (fun x r => if s.held r then x else x.abortAll r) x) = f x from this _
  induction refs with
  | nil => exact fun x => rfl
  | cons r refs ih =>
      intro x
      refine (ih _).trans ?_
      dsimp only
      split
      · rfl
      · next free => exact kept x r free

/-- An object that something still holds keeps its map. -/
theorem dropArcs_subscriptions (held : s.held ref = true) (refs : List Nat) :
    ((s.dropArcs refs).shared.heap ref).subscriptions = (s.shared.heap ref).subscriptions := by
  refine dropArcs_keeps (fun x => (x.heap ref).subscriptions) ?_ refs
  intro x r free
  exact abortAll_subscriptions x fun same => free (same ▸ held)

theorem held_of_registered (h : s.shared.registry.get (s.shared.heap ref).id = some ref) :
    s.held ref = true := by
  simp [State.held, h]

theorem dropArcs_handles (s : State κ β τ) (refs : List Nat) (ref : Nat) :
    ((s.dropArcs refs).shared.heap ref).handles = (s.shared.heap ref).handles := by
  refine dropArcs_keeps (fun x => (x.heap ref).handles) ?_ refs
  intro x r _
  exact setSession_same (x := x.abort (x.heap r).subscriptions.values) Session.handles (by rfl) ref

theorem dropArcs_held (s : State κ β τ) (refs : List Nat) (ref : Nat) :
    (s.dropArcs refs).held ref = s.held ref := by
  have quiet := quiet_dropArcs s refs
  unfold State.held
  rw [quiet.registry, quiet.id, dropArcs_handles]
  rfl

@[simp] theorem dropArcs_calls (s : State κ β τ) (refs : List Nat) :
    (s.dropArcs refs).calls = s.calls := rfl

@[simp] theorem dropArcs_log (s : State κ β τ) (refs : List Nat) :
    (s.dropArcs refs).log = s.log := rfl

@[simp] theorem dropArcs_nextCall (s : State κ β τ) (refs : List Nat) :
    (s.dropArcs refs).nextCall = s.nextCall := rfl

@[simp] theorem after_calls (s : State κ β τ) (n : Nat) (c : Call τ) (o : Outcome κ β τ) :
    (s.after n c o).calls = Function.update s.calls n o.next := rfl

@[simp] theorem after_log (s : State κ β τ) (n : Nat) (c : Call τ) (o : Outcome κ β τ) :
    (s.after n c o).log = o.events ++ s.log := rfl

@[simp] theorem after_nextCall (s : State κ β τ) (n : Nat) (c : Call τ) (o : Outcome κ β τ) :
    (s.after n c o).nextCall = s.nextCall := rfl

theorem sheds_after (s : State κ β τ) (n : Nat) (c : Call τ) (o : Outcome κ β τ) :
    Sheds o.shared (s.after n c o).shared :=
  sheds_dropArcs (s := s.landed n o) .refl (c.holds ++ o.displaced.toList)

theorem quiet_after (s : State κ β τ) (n : Nat) (c : Call τ) (o : Outcome κ β τ) :
    Quiet o.shared (s.after n c o).shared := quiet_dropArcs (s.landed n o) _

inductive Hub.Stepped (H : Hub κ β τ ε) (s : State κ β τ) : Label ε → State κ β τ → Prop
  | start (r : Request) : H.Stepped s (.start r)
      { s with
        calls := Function.update s.calls s.nextCall (some r.entry)
        nextCall := s.nextCall + 1 }
  | advance {n : Nat} {env : ε} {now : Nat} {c : Call τ} {o : Outcome κ β τ}
      (at_ : s.calls n = some c) (acts : H.act s.shared n env now c = some o) :
      H.Stepped s (.advance n env now) (s.after n c o)
  | forward {f : Nat} {move : Move} {w : Forwarder τ} {x' : Shared κ β τ} {events : List Event}
      (task : s.shared.forwarders f = some w)
      (moves : H.moveForwarder s.shared f w move = some (x', events)) :
      H.Stepped s (.forward f move) { s with shared := x', log := events ++ s.log }
  | transport {l : Label ε} {x' : Shared κ β τ} (quiet : Quiet s.shared x')
      (sheds : Sheds s.shared x')
      (kept : ∀ r, s.shared.registry.get (s.shared.heap r).id = some r →
        (x'.heap r).subscriptions = (s.shared.heap r).subscriptions) :
      H.Stepped s l { s with shared := x' }

theorem quiet_setOutbox (x : Shared κ β τ) (ref : Nat) (outbox : Outbox)
    (closed : (x.heap ref).outbox.closed = true → outbox.closed = true) :
    Quiet x (x.setOutbox ref outbox) := quiet_setSession rfl rfl closed (.inl rfl)

theorem setOutbox_subscriptions (x : Shared κ β τ) (ref : Nat) (outbox : Outbox) (r : Nat) :
    ((x.setOutbox ref outbox).heap r).subscriptions = (x.heap r).subscriptions :=
  setSession_same Session.subscriptions (by rfl) r

theorem sheds_setOutbox (x : Shared κ β τ) (ref : Nat) (outbox : Outbox)
    (closed : (x.heap ref).outbox.closed = true → outbox.closed = true) :
    Sheds x (x.setOutbox ref outbox) :=
  .stored .refl rfl (setOutbox_subscriptions x ref outbox)
    (quiet_setOutbox x ref outbox closed).closed

theorem sent_closed {o o' : Outbox} {frame : ServerFrame} (room : o.send frame = .sent o')
    (closed : o.closed = true) : o'.closed = true := by
  rw [(Outbox.send_sent room).1] at closed
  cases closed

theorem quiet_sent {frame : ServerFrame} {outbox : Outbox}
    (room : (x.heap ref).outbox.send frame = .sent outbox) : Quiet x (x.setOutbox ref outbox) :=
  quiet_setOutbox x ref outbox (sent_closed room)

theorem quiet_setShutdown (x : Shared κ β τ) (ref : Nat) (shutdown : Notify) :
    Quiet x (x.setShutdown ref shutdown) := quiet_setSession rfl rfl id (.inl rfl)

theorem setShutdown_subscriptions (x : Shared κ β τ) (ref : Nat) (shutdown : Notify) (r : Nat) :
    ((x.setShutdown ref shutdown).heap r).subscriptions = (x.heap r).subscriptions :=
  setSession_same Session.subscriptions (by rfl) r

theorem sheds_setShutdown (x : Shared κ β τ) (ref : Nat) (shutdown : Notify) :
    Sheds x (x.setShutdown ref shutdown) :=
  .stored .refl rfl (setShutdown_subscriptions x ref shutdown) (quiet_setShutdown x ref shutdown).closed

theorem Hub.step_advance (h : H.step s (.advance n env now) = some t) :
    ∃ c o, s.calls n = some c ∧ H.act s.shared n env now c = some o ∧ t = s.after n c o := by
  simp only [Hub.step] at h
  split at h
  · cases h
  · next c found =>
      obtain ⟨o, acts, rfl⟩ := Option.map_eq_some_iff.mp h
      exact ⟨c, o, found, acts, rfl⟩

theorem Hub.step_act (at_ : s.calls n = some c) (acts : H.act s.shared n env now c = some o) :
    H.step s (.advance n env now) = some (s.after n c o) := by
  simp only [Hub.step, at_, acts, Option.map_some]

theorem Hub.stepped (h : H.step s l = some t) : H.Stepped s l t := by
  cases l with
  | start r =>
      cases h
      exact .start r
  | advance n env now =>
      obtain ⟨c, o, found, acts, rfl⟩ := Hub.step_advance h
      exact .advance found acts
  | forward f move =>
      simp only [Hub.step] at h
      split at h
      · cases h
      · next w found =>
          obtain ⟨out, moves, rfl⟩ := Option.map_eq_some_iff.mp h
          exact .forward found moves
  | release ref =>
      simp only [Hub.step] at h
      split at h
      · cases h
      · cases h
        have decremented : Quiet s.shared (s.letGo ref).shared :=
          quiet_setSession rfl rfl id (.inl rfl)
        have maps : ∀ r, ((s.letGo ref).shared.heap r).subscriptions =
            (s.shared.heap r).subscriptions := setSession_same Session.subscriptions rfl
        have stored : Sheds s.shared (s.letGo ref).shared :=
          .stored .refl rfl maps decremented.closed
        refine .transport (decremented.trans (quiet_dropArcs (s.letGo ref) [ref]))
          (sheds_dropArcs stored [ref]) ?_
        intro r registered
        refine (dropArcs_subscriptions (held_of_registered ?_) [ref]).trans (maps r)
        rw [decremented.registry, decremented.id]
        exact registered
  | drain ref =>
      cases h
      exact .transport (quiet_setOutbox _ _ _ id) (sheds_setOutbox _ _ _ id)
        fun r _ => setOutbox_subscriptions _ _ _ r
  | hangUp ref =>
      cases h
      exact .transport (quiet_setOutbox _ _ _ fun _ => rfl) (sheds_setOutbox _ _ _ fun _ => rfl)
        fun r _ => setOutbox_subscriptions _ _ _ r
  | deliver id frame =>
      simp only [Hub.step] at h
      split at h
      · cases h
        exact .transport (Quiet.refl _) .refl fun _ _ => rfl
      · split at h
        · cases h
        · cases h
          exact .transport (Quiet.refl _) .refl fun _ _ => rfl
        · next outbox room =>
            split at h
            · cases h
              exact .transport (quiet_sent room) (sheds_setOutbox _ _ _ (sent_closed room))
                fun r _ => setOutbox_subscriptions _ _ _ r
            · cases h
  | send ref frame =>
      simp only [Hub.step] at h
      split at h
      · cases h
      · cases h
        exact .transport (Quiet.refl _) .refl fun _ _ => rfl
      · next outbox room =>
          split at h
          · cases h
            exact .transport (quiet_sent room) (sheds_setOutbox _ _ _ (sent_closed room))
              fun r _ => setOutbox_subscriptions _ _ _ r
          · cases h
  | listen ref future =>
      cases h
      exact .transport (quiet_setShutdown _ _ _) (sheds_setShutdown _ _ _)
        fun r _ => setShutdown_subscriptions _ _ _ r
  | unlisten ref future =>
      cases h
      exact .transport (quiet_setShutdown _ _ _) (sheds_setShutdown _ _ _)
        fun r _ => setShutdown_subscriptions _ _ _ r

/-- The moves of a forwarder task, by what they do to the shared state. -/
inductive Hub.Forwarded (H : Hub κ β τ ε) (x : Shared κ β τ) (f : Nat) (w : Forwarder τ) :
    Shared κ β τ → List Event → Prop
  | scheduled (polled : Bool) (admitted : polled = true → w.aborted = false) :
      H.Forwarded x f w (x.setForwarder f (some { w with polled })) []
  | took {b : β} {p : Publication} (polled : w.polled = true) (free : w.inHand = none)
      (next : H.broker.next x.broker w.stream = (b, .ready p)) :
      H.Forwarded x f w
        (({ x with broker := b } : Shared κ β τ).setForwarder f (some { w with inHand := some p })) []
  | lagged {b : β} {k : Nat} (polled : w.polled = true) (free : w.inHand = none)
      (next : H.broker.next x.broker w.stream = (b, .lagged k)) :
      H.Forwarded x f w { x with broker := b } [.lagged f k]
  | waited {b : β} (polled : w.polled = true) (free : w.inHand = none)
      (next : H.broker.next x.broker w.stream = (b, .pending)) :
      H.Forwarded x f w
        (({ x with broker := b } : Shared κ β τ).setForwarder f (some { w with polled := false })) []
  | exhausted {b : β} (polled : w.polled = true) (free : w.inHand = none)
      (next : H.broker.next x.broker w.stream = (b, .finished)) :
      H.Forwarded x f w (H.finish { x with broker := b } f w) []
  | sent {p : Publication} {outbox : Outbox} (polled : w.polled = true)
      (holding : w.inHand = some p)
      (room : (x.heap w.session).outbox.send (.publication p) = .sent outbox) :
      H.Forwarded x f w
        ((x.setOutbox w.session outbox).setForwarder f (some { w with inHand := none }))
        [.enqueued f w.session .live p]
  | ended (why : w.aborted = true ∨ (x.heap w.session).outbox.closed = true) :
      H.Forwarded x f w (H.finish x f w) []

theorem Hub.forwarded {move : Move} {events : List Event}
    (h : H.moveForwarder x f w move = some (x', events)) :
    H.Forwarded x f w x' events := by
  cases move with
  | wake =>
      simp only [Hub.moveForwarder] at h
      split at h
      · cases h
      · next free =>
          cases h
          refine .scheduled true fun _ => ?_
          simp only [Bool.or_eq_true, not_or, Bool.not_eq_true] at free
          exact free.2
  | yield =>
      simp only [Hub.moveForwarder] at h
      split at h
      · cases h
        exact .scheduled false (by simp)
      · cases h
  | reap =>
      simp only [Hub.moveForwarder] at h
      split at h
      · next free =>
          cases h
          simp only [Bool.and_eq_true] at free
          exact .ended (.inl free.1)
      · cases h
  | poll =>
      simp only [Hub.moveForwarder] at h
      split at h
      · next polled =>
          replace h := Option.some.inj h
          simp only [Hub.pollForwarder] at h
          split at h
          · next free =>
              split at h <;> next outcome => cases h; first
                | exact .took polled free (Prod.ext rfl outcome)
                | exact .lagged polled free (Prod.ext rfl outcome)
                | exact .waited polled free (Prod.ext rfl outcome)
                | exact .exhausted polled free (Prod.ext rfl outcome)
          · next p holding =>
              split at h
              · cases h
                exact .scheduled false (by simp)
              · next shut =>
                  cases h
                  exact .ended (.inr (Outbox.send_closed shut))
              · next outbox room =>
                  cases h
                  exact .sent polled holding room
      · cases h

theorem setSession_closed {session : Session}
    (same : session.outbox.closed = (x.heap ref).outbox.closed) (r : Nat)
    (h : (x.heap r).outbox.closed = true) :
    ((x.setSession ref session).heap r).outbox.closed = true :=
  (setSession_same (fun s => s.outbox.closed) same r).trans h

/-- A move of a forwarder touches the broker, its own task and one outbox. -/
structure ForwardFrame (x : Shared κ β τ) (f : Nat) (w : Forwarder τ) (x' : Shared κ β τ) :
    Prop where
  registry : x'.registry = x.registry
  nextRef : x'.nextRef = x.nextRef
  kinds : x'.kinds = x.kinds
  id : ∀ r, (x'.heap r).id = (x.heap r).id
  claims : ∀ r, (x'.heap r).claims = (x.heap r).claims
  shutdown : ∀ r, (x'.heap r).shutdown = (x.heap r).shutdown
  closed : ∀ r, (x.heap r).outbox.closed = true → (x'.heap r).outbox.closed = true
  subscriptions : ∀ r, (x'.heap r).subscriptions = (x.heap r).subscriptions
  others : ∀ g, g ≠ f → x'.forwarders g = x.forwarders g
  own : ∀ w', x'.forwarders f = some w' → w'.session = w.session ∧ w'.channel = w.channel ∧
    w'.stream = w.stream ∧ w'.aborted = w.aborted

theorem setForwarder_frame {x y : Shared κ β τ} {v : Option (Forwarder τ)}
    (quiet : ForwardFrame x f w y) (others : y.forwarders = x.forwarders)
    (own : ∀ w', v = some w' → w'.session = w.session ∧ w'.channel = w.channel ∧
      w'.stream = w.stream ∧ w'.aborted = w.aborted) :
    ForwardFrame x f w (y.setForwarder f v) := by
  refine ⟨quiet.registry, quiet.nextRef, quiet.kinds, quiet.id, quiet.claims, quiet.shutdown,
    quiet.closed, quiet.subscriptions, ?_, ?_⟩
  · intro g other
    simp only [Shared.setForwarder, Function.update_of_ne other, others]
  · intro w' found
    simp only [Shared.setForwarder, Function.update_self] at found
    exact own w' found

theorem Hub.Forwarded.frame {events : List Event} (task : x.forwarders f = some w)
    (moved : H.Forwarded x f w x' events) : ForwardFrame x f w x' := by
  have broker : ∀ b : β, ForwardFrame x f w { x with broker := b } := by
    refine fun b => ⟨rfl, rfl, rfl, fun _ => rfl, fun _ => rfl, fun _ => rfl, fun _ h => h,
      fun _ => rfl, fun _ _ => rfl, ?_⟩
    intro w' found
    cases task.symm.trans found
    exact ⟨rfl, rfl, rfl, rfl⟩
  have edited : ∀ (b : β) (inHand : Option Publication) (polled : Bool),
      ForwardFrame x f w (({ x with broker := b } : Shared κ β τ).setForwarder f
        (some { w with inHand, polled })) := by
    intro b inHand polled
    refine setForwarder_frame (broker b) rfl ?_
    rintro w' ⟨⟩
    exact ⟨rfl, rfl, rfl, rfl⟩
  have finished : ∀ b b' : β, ForwardFrame x f w
      { ({ x with broker := b } : Shared κ β τ).setForwarder f none with broker := b' } :=
    fun b b' => setForwarder_frame (broker b') rfl (by simp)
  cases moved with
  | scheduled polled admitted => exact edited x.broker w.inHand polled
  | took polled free next => exact edited _ _ w.polled
  | lagged polled free next => exact broker _
  | waited polled free next => exact edited _ w.inHand false
  | exhausted polled free next => exact finished _ _
  | ended why => exact finished x.broker _
  | sent polled holding room =>
      have stored := quiet_sent room
      refine setForwarder_frame ⟨rfl, rfl, rfl, stored.id, stored.claims, setSession_same Session.shutdown rfl,
        stored.closed, setSession_same Session.subscriptions rfl, fun _ _ => rfl, ?_⟩ rfl ?_
      · exact (broker x.broker).own
      · rintro w' ⟨⟩
        exact ⟨rfl, rfl, rfl, rfl⟩

/-- A task that was told to stop and has suspended is never scheduled again. -/
def Forwarder.Stopped (w : Forwarder τ) : Prop := w.aborted = true ∧ w.polled = false

theorem Hub.Forwarded.stopped {w w' : Forwarder τ} {events : List Event}
    (moved : H.Forwarded x f w x' events) (task : x.forwarders f = some w) (stopped : w.Stopped)
    (found : x'.forwarders f = some w') :
    w'.Stopped := by
  obtain ⟨aborted, suspended⟩ := stopped
  refine ⟨((moved.frame task).own w' found).2.2.2.trans aborted, ?_⟩
  cases moved with
  | scheduled polled admitted =>
      simp only [Shared.setForwarder, Function.update_self, Option.some.injEq] at found
      subst found
      refine Bool.eq_false_iff.mpr fun awake => ?_
      rw [admitted awake] at aborted
      cases aborted
  | ended why => simp [Hub.finish, Shared.setForwarder] at found
  | took polled | lagged polled | waited polled | exhausted polled | sent polled =>
      rw [suspended] at polled
      cases polled

def Hub.kindsAfter (H : Hub κ β τ ε) (x : Shared κ β τ) (now : Nat) : Call τ → Nat → κ
  | .subscribeKind a _ =>
      Function.update x.kinds (H.kindFor a.channel)
        (H.kinds.onSubscribe (x.kinds (H.kindFor a.channel)) now a.channel).1
  | .subscribeReplay a _ _ _ =>
      Function.update x.kinds (H.kindFor a.channel)
        (H.kinds.replaySince (x.kinds (H.kindFor a.channel)) now a.channel a.sinceOffset).1
  | .subscribeUnwind a _ _ _ =>
      Function.update x.kinds (H.kindFor a.channel)
        (H.kinds.onUnsubscribe (x.kinds (H.kindFor a.channel)) now a.channel).1
  | .unsubscribeKind a _ =>
      Function.update x.kinds (H.kindFor a.channel)
        (H.kinds.onUnsubscribe (x.kinds (H.kindFor a.channel)) now a.channel).1
  | .publishKind a _ =>
      Function.update x.kinds (H.kindFor a.channel)
        (H.kinds.onPublish (x.kinds (H.kindFor a.channel)) now a.channel a.data).1
  | _ => x.kinds

def Hub.brokerAfter (H : Hub κ β τ ε) (x : Shared κ β τ) : Call τ → β
  | .subscribeBroker a _ _ => (H.broker.subscribe x.broker a.channel).1
  | .subscribeUnwind _ _ stream _ => H.closeStream x.broker stream
  | .publishBroker a _ p => (H.broker.publish x.broker a.channel p).1
  | _ => x.broker

def Shared.forwardersAfter (x : Shared κ β τ) (n : Nat) : Call τ → Nat → Option (Forwarder τ)
  | .subscribeSpawn a ref _ stream =>
      Function.update x.forwarders n (some ⟨ref, a.channel, stream, none, false, false⟩)
  | .subscribeStray _ _ => (x.abort [n]).forwarders
  | .unsubscribeAbort _ _ forwarder => (x.abort [forwarder]).forwarders
  | _ => x.forwarders

def Shared.registryAfter (x : Shared κ β τ) : Call τ → SessionRegistry
  | .openSession _ => x.registry.allocate.1
  | .openRegister ref => x.registry.register (x.heap ref).id ref
  | .subscribeIndex a _ _ => x.registry.addSubscription a.sessionId a.channel
  | .unsubscribeScrub a _ => (x.registry.scrubChannel a.sessionId a.channel).1
  | .unsubscribeReap a _ => x.registry.removeChannel a.channel
  | .deregister _ id => if (x.registry.get id).isSome then x.registry.removeSession id else x.registry
  | .deregisterScrub _ id _ => x.registry.scrub id
  | _ => x.registry

def Shared.nextRefAfter (x : Shared κ β τ) : Call τ → Nat
  | .openSession _ => x.nextRef + 1
  | _ => x.nextRef

def Shared.idsAfter (x : Shared κ β τ) : Call τ → Nat → Nat
  | .openSession _ =>
      Function.update (fun r => (x.heap r).id) x.nextRef x.registry.allocate.2
  | _ => fun r => (x.heap r).id

def Hub.claimsAfter (H : Hub κ β τ ε) (x : Shared κ β τ) : Call τ → Nat → Option SessionClaims
  | .openSession _ =>
      Function.update (fun r => (x.heap r).claims) x.nextRef
        (if H.gate.allowAnonymous then some .anonymous else none)
  | .connectSet _ ref claims => Function.update (fun r => (x.heap r).claims) ref (some claims)
  | .seedClaims _ ref => Function.update (fun r => (x.heap r).claims) ref (some .anonymous)
  | _ => fun r => (x.heap r).claims

def Shared.subscriptionsAfter (x : Shared κ β τ) (n : Nat) : Call τ → Nat → DashMap String Nat
  | .openSession _ => Function.update (fun r => (x.heap r).subscriptions) x.nextRef ∅
  | .subscribeInsert a ref _ =>
      Function.update (fun r => (x.heap r).subscriptions) ref
        (if (x.heap ref).subscriptions.containsKey a.channel then (x.heap ref).subscriptions
          else (x.heap ref).subscriptions.put a.channel n)
  | .unsubscribeRemove a ref =>
      Function.update (fun r => (x.heap r).subscriptions) ref
        (if ((x.heap ref).subscriptions.get a.channel).isSome then
          (x.heap ref).subscriptions.remove a.channel else (x.heap ref).subscriptions)
  | _ => fun r => (x.heap r).subscriptions

def Hub.eventOf (H : Hub κ β τ ε) (x : Shared κ β τ) (n : Nat) (env : ε) (now : Nat) :
    Call τ → Option Event
  | .connectAuth a ref => some (.authenticated n ref a.token (H.gate.authenticate env a.token))
  | .enforceAcl g ref claims =>
      some (.checked n ref claims g.action g.channel (H.gate.check env claims g.action g.channel))
  | .subscribeKind a ref =>
      some (.onSubscribe n ref a.channel
        (H.kinds.onSubscribe (x.kinds (H.kindFor a.channel)) now a.channel).2)
  | .subscribeBroker a ref _ =>
      some (.brokerSubscribe n ref a.channel (H.broker.subscribe x.broker a.channel).2.isOk)
  | .subscribeReplay a ref _ _ =>
      some (.replaySince n ref a.channel a.sinceOffset
        (H.kinds.replaySince (x.kinds (H.kindFor a.channel)) now a.channel a.sinceOffset).2)
  | .subscribeSend _ ref _ _ (p :: _) =>
      match (x.heap ref).outbox.send (.publication p) with
      | .sent _ => some (.enqueued n ref .replay p)
      | _ => none
  | .subscribeUnwind a ref _ _ =>
      some (.onUnsubscribe n ref a.channel
        (H.kinds.onUnsubscribe (x.kinds (H.kindFor a.channel)) now a.channel).2)
  | .unsubscribeKind a ref =>
      some (.onUnsubscribe n ref a.channel
        (H.kinds.onUnsubscribe (x.kinds (H.kindFor a.channel)) now a.channel).2)
  | .publishValidate a ref =>
      some (.validated n ref a.channel a.data (H.gate.validate env a.channel a.data))
  | .publishKind a ref =>
      some (.onPublish n ref a.channel a.data
        (H.kinds.onPublish (x.kinds (H.kindFor a.channel)) now a.channel a.data).2)
  | .publishBroker a ref p =>
      some (.brokerPublish n ref a.channel p (H.broker.publish x.broker a.channel p).2)
  | .deregister _ id => (x.registry.get id).map (.removed n)
  | _ => none

/-- Component by component, what one step of call `n` does. -/
structure Hub.Acted (H : Hub κ β τ ε) (x : Shared κ β τ) (n : Nat) (env : ε) (now : Nat)
    (c : Call τ) (o : Outcome κ β τ) : Prop where
  kinds : o.shared.kinds = H.kindsAfter x now c
  broker : o.shared.broker = H.brokerAfter x c
  forwarders : o.shared.forwarders = x.forwardersAfter n c
  registry : o.shared.registry = x.registryAfter c
  nextRef : o.shared.nextRef = x.nextRefAfter c
  id : ∀ r, (o.shared.heap r).id = x.idsAfter c r
  claims : ∀ r, (o.shared.heap r).claims = H.claimsAfter x c r
  subscriptions : ∀ r, (o.shared.heap r).subscriptions = x.subscriptionsAfter n c r
  closed : ∀ r, (r = x.nextRef → x.nextRefAfter c = x.nextRef) →
    (x.heap r).outbox.closed = true → (o.shared.heap r).outbox.closed = true
  logged : (∃ next, o.next = some next ∧ o.events = (H.eventOf x n env now c).toList) ∨
    ∃ result, o.next = none ∧ o.events = .returned n result :: (H.eventOf x n env now c).toList

theorem Hub.acted (h : H.act x n env now c = some o) :
    H.Acted x n env now c o := by
  cases c with
  | openSession capacity =>
      cases h
      refine ⟨rfl, rfl, rfl, rfl, rfl, fun r => ?_, fun r => ?_, fun r => ?_, fun r old h => ?_,
        .inl ⟨_, rfl, rfl⟩⟩
      · exact (setSession_field x _ _ Session.id r).trans (by split <;> rfl)
      · exact (setSession_field x _ _ Session.claims r).trans (by
          simp only [Hub.claimsAfter]; split <;> rfl)
      · exact (setSession_field x _ _ Session.subscriptions r).trans (by split <;> rfl)
      · have other : r ≠ x.nextRef := fun same => Nat.succ_ne_self _ (old same)
        simpa only [Shared.goto, Function.update_of_ne other] using h
  | gauge m len =>
      cases h
      cases m with
      | opened ref =>
          exact ⟨rfl, rfl, rfl, rfl, rfl, setSession_same Session.id rfl,
            setSession_same Session.claims rfl, setSession_same Session.subscriptions rfl,
            fun r _ h => setSession_closed (by rfl) r h, .inr ⟨_, rfl, rfl⟩⟩
      | _ => exact ⟨rfl, rfl, rfl, rfl, rfl, fun _ => rfl, fun _ => rfl, fun _ => rfl,
          fun _ _ h => h, .inr ⟨_, rfl, rfl⟩⟩
  | connectSet a ref claims =>
      cases h
      exact ⟨rfl, rfl, rfl, rfl, rfl, setSession_same Session.id rfl,
        setSession_field x _ _ Session.claims, setSession_same Session.subscriptions rfl,
        fun r _ h => setSession_closed (by rfl) r h, .inr ⟨_, rfl, rfl⟩⟩
  | seedClaims g ref =>
      cases h
      exact ⟨rfl, rfl, rfl, rfl, rfl, setSession_same Session.id rfl,
        setSession_field x _ _ Session.claims, setSession_same Session.subscriptions rfl,
        fun r _ h => setSession_closed (by rfl) r h, .inl ⟨_, rfl, rfl⟩⟩
  | kickSignal id ref =>
      cases h
      exact ⟨rfl, rfl, rfl, rfl, rfl, setSession_same Session.id rfl,
        setSession_same Session.claims rfl, setSession_same Session.subscriptions rfl,
        fun r _ h => setSession_closed (by rfl) r h, .inl ⟨_, rfl, rfl⟩⟩
  | subscribeSend a ref cursor stream rest =>
      cases rest with
      | nil =>
          cases h
          exact ⟨rfl, rfl, rfl, rfl, rfl, fun _ => rfl, fun _ => rfl, fun _ => rfl,
            fun _ _ h => h, .inl ⟨_, rfl, rfl⟩⟩
      | cons p rest =>
          simp only [Hub.act] at h
          split at h
          · cases h
          · next closed =>
              cases h
              exact ⟨rfl, rfl, rfl, rfl, rfl, fun _ => rfl, fun _ => rfl, fun _ => rfl, fun _ _ h => h,
                .inl ⟨_, rfl, by simp [Hub.eventOf, closed, Shared.goto]⟩⟩
          · next outbox room =>
              cases h
              exact ⟨rfl, rfl, rfl, rfl, rfl, setSession_same Session.id rfl,
                setSession_same Session.claims rfl, setSession_same Session.subscriptions rfl,
                fun r _ => (quiet_sent room).closed r,
                .inl ⟨_, rfl, by simp [Hub.eventOf, room, Outcome.after, Shared.goto]⟩⟩
  | subscribeBroker a ref cursor =>
      simp only [Hub.act] at h
      split at h <;> next opened =>
        cases h
        exact ⟨rfl, rfl, rfl, rfl, rfl, fun _ => rfl, fun _ => rfl, fun _ => rfl, fun _ _ h => h,
          .inl ⟨_, rfl, by
            simp [Hub.eventOf, opened, Except.isOk, Except.toBool, Outcome.after, Shared.goto]⟩⟩
  | subscribeInsert a ref cursor =>
      simp only [Hub.act] at h
      split at h
      · next found =>
          cases h
          refine ⟨rfl, rfl, rfl, rfl, rfl, fun _ => rfl, fun _ => rfl, fun r => ?_,
            fun _ _ h => h, .inl ⟨_, rfl, rfl⟩⟩
          simp [Shared.subscriptionsAfter, found, Shared.goto]
      · next vacant =>
          cases h
          refine ⟨rfl, rfl, rfl, rfl, rfl, setSession_same Session.id rfl,
            setSession_same Session.claims rfl, fun r => ?_,
            fun r _ h => setSession_closed (by rfl) r h, .inl ⟨_, rfl, rfl⟩⟩
          exact (setSession_field x _ _ Session.subscriptions r).trans
            (by simp [Shared.subscriptionsAfter, vacant])
  | unsubscribeRemove a ref =>
      simp only [Hub.act] at h
      split at h
      · next found =>
          cases h
          refine ⟨rfl, rfl, rfl, rfl, rfl, fun _ => rfl, fun _ => rfl, fun r => ?_,
            fun _ _ h => h, .inr ⟨_, rfl, rfl⟩⟩
          simp [Shared.subscriptionsAfter, found, Shared.done]
      · next forwarder found =>
          cases h
          refine ⟨rfl, rfl, rfl, rfl, rfl, setSession_same Session.id rfl,
            setSession_same Session.claims rfl, fun r => ?_,
            fun r _ h => setSession_closed (by rfl) r h, .inl ⟨_, rfl, rfl⟩⟩
          exact (setSession_field x _ _ Session.subscriptions r).trans
            (by simp [Shared.subscriptionsAfter, found])
  | deregister who id =>
      simp only [Hub.act] at h
      split at h <;> next found =>
        cases h
        refine ⟨rfl, rfl, rfl, ?_, rfl, fun _ => rfl, fun _ => rfl, fun _ => rfl, fun _ _ h => h, ?_⟩
        · simp [Shared.registryAfter, found, Shared.goto, Shared.done, Outcome.after]
        · simp [Hub.eventOf, found, Outcome.after, Shared.goto, Shared.done]
  | _ =>
      simp only [Hub.act] at h
      (repeat' split at h) <;> cases h <;>
        refine ⟨rfl, rfl, rfl, rfl, rfl, fun _ => rfl, fun _ => rfl, fun _ => rfl, fun _ _ h => h, ?_⟩ <;>
        first | exact .inl ⟨_, rfl, rfl⟩ | exact .inr ⟨_, rfl, rfl⟩

/-- Where a call can go next, and what it has seen when it does. -/
inductive Hub.Goes (H : Hub κ β τ ε) (x : Shared κ β τ) (env : ε) (now : Nat) :
    Call τ → Call τ → Prop
  | allocated (capacity : Nat) : H.Goes x env now (.openSession capacity) (.openRegister x.nextRef)
  | registered (ref : Nat) : H.Goes x env now (.openRegister ref) (.count (.opened ref))
  | counted (m : Meter) : H.Goes x env now (.count m) (.measure m)
  | measured (m : Meter) : H.Goes x env now (.measure m) (.gauge m x.registry.sessions.len)
  | connecting (a : ConnectArgs) {ref : Nat} (found : x.registry.get a.sessionId = some ref) :
      H.Goes x env now (.connect a) (.connectClaims a ref)
  | unconnected (a : ConnectArgs) (ref : Nat)
      (unclaimed : ¬((x.heap ref).claims.isSome && !H.gate.allowAnonymous) = true) :
      H.Goes x env now (.connectClaims a ref) (.connectAuth a ref)
  | authenticated (a : ConnectArgs) (ref : Nat) {claims : SessionClaims}
      (accepts : H.gate.authenticate env a.token = .ok claims) :
      H.Goes x env now (.connectAuth a ref) (.connectSet a ref claims)
  | entered (g : Gated) {ref : Nat} (found : x.registry.get g.sessionId = some ref) :
      H.Goes x env now (.enter g) (.requireClaims g ref)
  | claimed (g : Gated) (ref : Nat) {claims : SessionClaims}
      (has : (x.heap ref).claims = some claims) :
      H.Goes x env now (.requireClaims g ref) (.enforceAcl g ref claims)
  | unclaimed (g : Gated) (ref : Nat) (none_ : (x.heap ref).claims = none)
      (anonymous : H.gate.allowAnonymous = true) :
      H.Goes x env now (.requireClaims g ref) (.seedClaims g ref)
  | seeded (g : Gated) (ref : Nat) :
      H.Goes x env now (.seedClaims g ref) (.enforceAcl g ref .anonymous)
  | subscribable (a : SubscribeArgs) (ref : Nat) (claims : SessionClaims)
      (allows : H.gate.check env claims .subscribe a.channel = .ok .allow) :
      H.Goes x env now (.enforceAcl (.subscribe a) ref claims) (.subscribeHas a ref)
  | publishable (a : PublishArgs) (ref : Nat) (claims : SessionClaims)
      (allows : H.gate.check env claims .publish a.channel = .ok .allow) :
      H.Goes x env now (.enforceAcl (.publish a) ref claims) (.publishValidate a ref)
  | vacant (a : SubscribeArgs) (ref : Nat)
      (absent : (x.heap ref).subscriptions.containsKey a.channel = false) :
      H.Goes x env now (.subscribeHas a ref) (.subscribeKind a ref)
  | subscribed (a : SubscribeArgs) (ref : Nat) {cursor : ChannelCursor}
      (accepts : (H.kinds.onSubscribe (x.kinds (H.kindFor a.channel)) now a.channel).2 =
        .ok cursor) :
      H.Goes x env now (.subscribeKind a ref) (.subscribeBroker a ref cursor)
  | streamed (a : SubscribeArgs) (ref : Nat) (cursor : ChannelCursor) {stream : τ}
      (opens : (H.broker.subscribe x.broker a.channel).2 = .ok stream) (since : 0 < a.sinceOffset) :
      H.Goes x env now (.subscribeBroker a ref cursor) (.subscribeReplay a ref cursor stream)
  | attached (a : SubscribeArgs) (ref : Nat) (cursor : ChannelCursor) {stream : τ}
      (opens : (H.broker.subscribe x.broker a.channel).2 = .ok stream) (since : a.sinceOffset = 0) :
      H.Goes x env now (.subscribeBroker a ref cursor) (.subscribeSpawn a ref cursor stream)
  | unattached (a : SubscribeArgs) (ref : Nat) (cursor : ChannelCursor) {e : BrokerError}
      (refuses : (H.broker.subscribe x.broker a.channel).2 = .error e) :
      H.Goes x env now (.subscribeBroker a ref cursor) (.subscribeUnwind a ref none (.broker e))
  | replayed (a : SubscribeArgs) (ref : Nat) (cursor : ChannelCursor) (stream : τ)
      {rest : List Publication}
      (reads : (H.kinds.replaySince (x.kinds (H.kindFor a.channel)) now a.channel
        a.sinceOffset).2 = .ok rest) :
      H.Goes x env now (.subscribeReplay a ref cursor stream)
        (.subscribeSend a ref cursor stream rest)
  | unreplayed (a : SubscribeArgs) (ref : Nat) (cursor : ChannelCursor) (stream : τ)
      {e : ChannelError}
      (refuses : (H.kinds.replaySince (x.kinds (H.kindFor a.channel)) now a.channel
        a.sinceOffset).2 = .error e) :
      H.Goes x env now (.subscribeReplay a ref cursor stream)
        (.subscribeUnwind a ref (some stream) (.channel e))
  | caughtUp (a : SubscribeArgs) (ref : Nat) (cursor : ChannelCursor) (stream : τ) :
      H.Goes x env now (.subscribeSend a ref cursor stream []) (.subscribeSpawn a ref cursor stream)
  | sent (a : SubscribeArgs) (ref : Nat) (cursor : ChannelCursor) (stream : τ) (p : Publication)
      (rest : List Publication) {outbox : Outbox}
      (room : (x.heap ref).outbox.send (.publication p) = .sent outbox) :
      H.Goes x env now (.subscribeSend a ref cursor stream (p :: rest))
        (.subscribeSend a ref cursor stream rest)
  | unsent (a : SubscribeArgs) (ref : Nat) (cursor : ChannelCursor) (stream : τ) (p : Publication)
      (rest : List Publication)
      (closed : (x.heap ref).outbox.send (.publication p) = .closed) :
      H.Goes x env now (.subscribeSend a ref cursor stream (p :: rest))
        (.subscribeUnwind a ref (some stream) (.sessionGone a.sessionId))
  | spawned (a : SubscribeArgs) (ref : Nat) (cursor : ChannelCursor) (stream : τ) :
      H.Goes x env now (.subscribeSpawn a ref cursor stream) (.subscribeInsert a ref cursor)
  | inserted (a : SubscribeArgs) (ref : Nat) (cursor : ChannelCursor)
      (absent : (x.heap ref).subscriptions.containsKey a.channel = false) :
      H.Goes x env now (.subscribeInsert a ref cursor) (.subscribeIndex a ref cursor)
  | strayed (a : SubscribeArgs) (ref : Nat) (cursor : ChannelCursor)
      (present : (x.heap ref).subscriptions.containsKey a.channel = true) :
      H.Goes x env now (.subscribeInsert a ref cursor) (.subscribeStray a ref)
  | stopped (a : SubscribeArgs) (ref : Nat) :
      H.Goes x env now (.subscribeStray a ref)
        (.subscribeUnwind a ref none (.alreadySubscribed a.sessionId a.channel))
  | unsubscribing (a : UnsubscribeArgs) {ref : Nat}
      (found : x.registry.get a.sessionId = some ref) :
      H.Goes x env now (.unsubscribe a) (.unsubscribeRemove a ref)
  | detached (a : UnsubscribeArgs) (ref : Nat) {forwarder : Nat}
      (found : (x.heap ref).subscriptions.get a.channel = some forwarder) :
      H.Goes x env now (.unsubscribeRemove a ref) (.unsubscribeAbort a ref forwarder)
  | aborted (a : UnsubscribeArgs) (ref forwarder : Nat) :
      H.Goes x env now (.unsubscribeAbort a ref forwarder) (.unsubscribeScrub a ref)
  | emptied (a : UnsubscribeArgs) (ref : Nat)
      (verdict : (x.registry.scrubChannel a.sessionId a.channel).2 = true) :
      H.Goes x env now (.unsubscribeScrub a ref) (.unsubscribeReap a ref)
  | scrubbed (a : UnsubscribeArgs) (ref : Nat)
      (verdict : (x.registry.scrubChannel a.sessionId a.channel).2 = false) :
      H.Goes x env now (.unsubscribeScrub a ref) (.unsubscribeKind a ref)
  | reaped (a : UnsubscribeArgs) (ref : Nat) :
      H.Goes x env now (.unsubscribeReap a ref) (.unsubscribeKind a ref)
  | validated (a : PublishArgs) (ref : Nat)
      (accepts : H.gate.validate env a.channel a.data = .ok ()) :
      H.Goes x env now (.publishValidate a ref) (.publishKind a ref)
  | stamped (a : PublishArgs) (ref : Nat) {p : Publication}
      (accepts : (H.kinds.onPublish (x.kinds (H.kindFor a.channel)) now a.channel a.data).2 =
        .ok p) :
      H.Goes x env now (.publishKind a ref) (.publishBroker a ref p)
  | kicking (id : Nat) {ref : Nat} (found : x.registry.get id = some ref) :
      H.Goes x env now (.kick id) (.kickSignal id ref)
  | signalled (id ref : Nat) : H.Goes x env now (.kickSignal id ref) (.deregister (.kick ref) id)
  | removed (who : Closing) (id : Nat) {ref : Nat} (found : x.registry.get id = some ref) :
      H.Goes x env now (.deregister who id) (.deregisterScrub who id ref)
  | unlisted (who : Closing) (id ref : Nat) :
      H.Goes x env now (.deregisterScrub who id ref) (.deregisterDrop who id ref)
  | dropped (who : Closing) (id ref : Nat) :
      H.Goes x env now (.deregisterDrop who id ref) (.count who.meter)

theorem Hub.goes {c next : Call τ} (h : H.act x n env now c = some o) (goes : o.next = some next) :
    H.Goes x env now c next := by
  cases c with
  | subscribeSend a ref cursor stream rest =>
      cases rest with
      | nil =>
          cases h
          cases goes
          exact .caughtUp a ref cursor stream
      | cons p rest =>
          simp only [Hub.act] at h
          split at h
          · cases h
          · next closed =>
              cases h
              cases goes
              exact .unsent a ref cursor stream p rest closed
          · next outbox room =>
              cases h
              cases goes
              exact .sent a ref cursor stream p rest room
  | subscribeBroker a ref cursor =>
      simp only [Hub.act] at h
      split at h
      · next stream opens =>
          cases h
          simp only [Outcome.after, Shared.goto, Option.some.injEq] at goes
          subst goes
          split
          · next since => exact .streamed a ref cursor opens since
          · next since => exact .attached a ref cursor opens (Nat.eq_zero_of_not_pos since)
      · next refuses =>
          cases h
          cases goes
          exact .unattached a ref cursor refuses
  | unsubscribeScrub a ref =>
      cases h
      simp only [Shared.goto, Option.some.injEq] at goes
      subst goes
      split
      · next verdict => exact .emptied a ref verdict
      · next verdict => exact .scrubbed a ref (Bool.eq_false_iff.mpr verdict)
  | enforceAcl g ref claims =>
      simp only [Hub.act] at h
      split at h
      · next allows =>
          cases h
          cases g with
          | subscribe a =>
              cases goes
              exact .subscribable a ref claims allows
          | publish a =>
              cases goes
              exact .publishable a ref claims allows
      · cases h
        cases goes
      · cases h
        cases goes
  | subscribeHas a ref =>
      simp only [Hub.act] at h
      split at h
      · cases h
        cases goes
      · next absent =>
          cases h
          cases goes
          exact .vacant a ref (Bool.eq_false_iff.mpr absent)
  | subscribeInsert a ref cursor =>
      simp only [Hub.act] at h
      split at h
      · next present =>
          cases h
          cases goes
          exact .strayed a ref cursor present
      · next absent =>
          cases h
          cases goes
          exact .inserted a ref cursor (Bool.eq_false_iff.mpr absent)
  | _ =>
      simp only [Hub.act] at h
      (repeat' split at h) <;> cases h <;> cases goes <;> constructor <;> assumption

/-- Which events a step can log, and on what grounds. -/
inductive Hub.Logs (H : Hub κ β τ ε) (x : Shared κ β τ) (n : Nat) (env : ε) (now : Nat) :
    Call τ → Event → Prop
  | authenticated (a : ConnectArgs) (ref : Nat) {result : Except AuthError SessionClaims}
      (answer : H.gate.authenticate env a.token = result) :
      H.Logs x n env now (.connectAuth a ref) (.authenticated n ref a.token result)
  | checked (g : Gated) (ref : Nat) (claims : SessionClaims) {result : Except AclError AclDecision}
      (answer : H.gate.check env claims g.action g.channel = result) :
      H.Logs x n env now (.enforceAcl g ref claims) (.checked n ref claims g.action g.channel result)
  | subscribed (a : SubscribeArgs) (ref : Nat) {result : Except ChannelError ChannelCursor}
      (answer : (H.kinds.onSubscribe (x.kinds (H.kindFor a.channel)) now a.channel).2 = result) :
      H.Logs x n env now (.subscribeKind a ref) (.onSubscribe n ref a.channel result)
  | opened (a : SubscribeArgs) (ref : Nat) (cursor : ChannelCursor) {ok : Bool}
      (answer : (H.broker.subscribe x.broker a.channel).2.isOk = ok) :
      H.Logs x n env now (.subscribeBroker a ref cursor) (.brokerSubscribe n ref a.channel ok)
  | replayed (a : SubscribeArgs) (ref : Nat) (cursor : ChannelCursor) (stream : τ)
      {result : Except ChannelError (List Publication)}
      (answer : (H.kinds.replaySince (x.kinds (H.kindFor a.channel)) now a.channel
        a.sinceOffset).2 = result) :
      H.Logs x n env now (.subscribeReplay a ref cursor stream)
        (.replaySince n ref a.channel a.sinceOffset result)
  | sent (a : SubscribeArgs) (ref : Nat) (cursor : ChannelCursor) (stream : τ) (p : Publication)
      (rest : List Publication) {outbox : Outbox}
      (room : (x.heap ref).outbox.send (.publication p) = .sent outbox) :
      H.Logs x n env now (.subscribeSend a ref cursor stream (p :: rest))
        (.enqueued n ref .replay p)
  | unwound (a : SubscribeArgs) (ref : Nat) (stream : Option τ) (error : HubError)
      {result : Except ChannelError Unit}
      (answer : (H.kinds.onUnsubscribe (x.kinds (H.kindFor a.channel)) now a.channel).2 = result) :
      H.Logs x n env now (.subscribeUnwind a ref stream error)
        (.onUnsubscribe n ref a.channel result)
  | unsubscribed (a : UnsubscribeArgs) (ref : Nat) {result : Except ChannelError Unit}
      (answer : (H.kinds.onUnsubscribe (x.kinds (H.kindFor a.channel)) now a.channel).2 = result) :
      H.Logs x n env now (.unsubscribeKind a ref) (.onUnsubscribe n ref a.channel result)
  | validated (a : PublishArgs) (ref : Nat) {result : Except SchemaError Unit}
      (answer : H.gate.validate env a.channel a.data = result) :
      H.Logs x n env now (.publishValidate a ref) (.validated n ref a.channel a.data result)
  | accepted (a : PublishArgs) (ref : Nat) {result : Except ChannelError Publication}
      (answer : (H.kinds.onPublish (x.kinds (H.kindFor a.channel)) now a.channel a.data).2 =
        result) :
      H.Logs x n env now (.publishKind a ref) (.onPublish n ref a.channel a.data result)
  | broadcast (a : PublishArgs) (ref : Nat) (p : Publication) {result : Except BrokerError Unit}
      (answer : (H.broker.publish x.broker a.channel p).2 = result) :
      H.Logs x n env now (.publishBroker a ref p) (.brokerPublish n ref a.channel p result)
  | removed (who : Closing) (id : Nat) {ref : Nat} (found : x.registry.get id = some ref) :
      H.Logs x n env now (.deregister who id) (.removed n ref)

theorem Hub.logs {e : Event} (h : H.eventOf x n env now c = some e) : H.Logs x n env now c e := by
  cases c with
  | subscribeSend a ref cursor stream rest =>
      cases rest with
      | nil => cases h
      | cons p rest =>
          simp only [Hub.eventOf] at h
          split at h
          · next room =>
              cases h
              exact .sent a ref cursor stream p rest room
          · cases h
  | deregister who id =>
      obtain ⟨ref, found, rfl⟩ := Option.map_eq_some_iff.mp h
      exact .removed who id found
  | _ => cases h <;> constructor <;> rfl

/-- A step's event is justified by the history, the answer of a call by anything. -/
theorem Hub.Acted.justified {J : List Event → Event → Prop} {log : List Event}
    (acted : H.Acted x n env now c o) (past : History.Justified J log)
    (event : ∀ e, H.Logs x n env now c e → J log e)
    (answer : ∀ past result, J past (.returned n result)) :
    History.Justified J (o.events ++ log) := by
  have logged : History.Justified J ((H.eventOf x n env now c).toList ++ log) := by
    cases logs : H.eventOf x n env now c with
    | none => exact past
    | some e => exact ⟨event e (Hub.logs logs), past⟩
  rcases acted.logged with ⟨_, _, same⟩ | ⟨_, _, same⟩
  · rw [same]
    exact logged
  · rw [same]
    exact ⟨answer _ _, logged⟩

theorem Hub.Acted.event (acted : H.Acted x n env now c o) {e : Event} (member : e ∈ o.events) :
    H.Logs x n env now c e ∨ ∃ result, e = .returned n result := by
  rcases acted.logged with ⟨_, _, same⟩ | ⟨result, _, same⟩
  · rw [same] at member
    exact .inl (Hub.logs (Option.mem_toList.mp member))
  · rw [same] at member
    rcases List.mem_cons.mp member with rfl | logged
    · exact .inr ⟨result, rfl⟩
    · exact .inl (Hub.logs (Option.mem_toList.mp logged))

theorem abort_forwarder_some {fs : List Nat} {w' : Forwarder τ}
    (h : (x.abort fs).forwarders f = some w') :
    ∃ w, x.forwarders f = some w ∧ (w' = w ∨ w' = w.abort) := by
  simp only [Shared.abort] at h
  split at h
  · obtain ⟨w, found, rfl⟩ := Option.map_eq_some_iff.mp h
    exact ⟨w, found, .inr rfl⟩
  · exact ⟨w', h, .inl rfl⟩

theorem after_forwarder_some (acts : H.act s.shared n env now c = some o) {w' : Forwarder τ}
    (found : (s.after n c o).shared.forwarders f = some w') :
    (∃ a ref cursor stream, c = .subscribeSpawn a ref cursor stream ∧ f = n ∧
        (w' = ⟨ref, a.channel, stream, none, false, false⟩ ∨
          w' = ⟨ref, a.channel, stream, none, false, true⟩)) ∨
      ∃ w, s.shared.forwarders f = some w ∧ (w' = w ∨ w' = w.abort) := by
  obtain ⟨v, there, aborted⟩ := (quiet_after s n c o).forwarder_some found
  rw [(Hub.acted acts).forwarders] at there
  have older : (∃ w, s.shared.forwarders f = some w ∧ (v = w ∨ v = w.abort)) →
      ∃ w, s.shared.forwarders f = some w ∧ (w' = w ∨ w' = w.abort) := by
    rintro ⟨w, first, rfl | rfl⟩
    · exact ⟨v, first, aborted⟩
    · rcases aborted with rfl | rfl
      · exact ⟨w, first, .inr rfl⟩
      · exact ⟨w, first, .inr rfl⟩
  cases c with
  | subscribeSpawn a ref cursor stream =>
      simp only [Shared.forwardersAfter] at there
      by_cases same : f = n
      · subst same
        rw [Function.update_self] at there
        cases there
        exact .inl ⟨a, ref, cursor, stream, rfl, rfl, aborted⟩
      · rw [Function.update_of_ne same] at there
        exact .inr ⟨v, there, aborted⟩
  | subscribeStray a ref => exact .inr (older (abort_forwarder_some there))
  | unsubscribeAbort a ref forwarder => exact .inr (older (abort_forwarder_some there))
  | _ => exact .inr ⟨v, there, aborted⟩

/-- What a task is after a step: of the same session and channel, and aborted or stopped if it
was. -/
structure Forwarder.Follows (w w' : Forwarder τ) : Prop where
  session : w'.session = w.session
  channel : w'.channel = w.channel
  aborted : w.aborted = true → w'.aborted = true
  stopped : w.Stopped → w'.Stopped

theorem follows_abort {w w' : Forwarder τ} (same : w' = w ∨ w' = w.abort) : w.Follows w' := by
  rcases same with rfl | rfl
  · exact ⟨rfl, rfl, id, id⟩
  · exact ⟨rfl, rfl, fun _ => rfl, fun stopped => ⟨rfl, stopped.2⟩⟩

theorem step_task (h : H.step s l = some t) {w' : Forwarder τ}
    (found : t.shared.forwarders f = some w') :
    (∃ env now a ref cursor stream, l = .advance f env now ∧
        s.calls f = some (.subscribeSpawn a ref cursor stream) ∧ w'.session = ref ∧
        w'.channel = a.channel) ∨
      ∃ w, s.shared.forwarders f = some w ∧ w.Follows w' := by
  cases Hub.stepped h with
  | start r => exact .inr ⟨w', found, follows_abort (.inl rfl)⟩
  | @advance n env now c o at_ acts =>
      rcases after_forwarder_some acts found with ⟨a, ref, cursor, stream, rfl, rfl, same⟩ |
        ⟨w, older, same⟩
      · refine .inl ⟨env, now, a, ref, cursor, stream, rfl, at_, ?_⟩
        rcases same with rfl | rfl
        · exact ⟨rfl, rfl⟩
        · exact ⟨rfl, rfl⟩
      · exact .inr ⟨w, older, follows_abort same⟩
  | @forward g move w x' events task moves =>
      have moved := Hub.forwarded moves
      by_cases own : f = g
      · subst own
        obtain ⟨session, channel, -, aborted⟩ := (moved.frame task).own w' found
        exact .inr ⟨w, task, session, channel, aborted.trans,
          fun stopped => moved.stopped task stopped found⟩
      · rw [(moved.frame task).others f own] at found
        exact .inr ⟨w', found, follows_abort (.inl rfl)⟩
  | transport quiet sheds =>
      obtain ⟨w, older, same⟩ := quiet.forwarder_some found
      exact .inr ⟨w, older, follows_abort same⟩

theorem subscriptionsAfter_some {ref f : Nat} {channel : String}
    (found : (x.subscriptionsAfter n c ref).get channel = some f) :
    (∃ a cursor, c = .subscribeInsert a ref cursor ∧ f = n ∧ channel = a.channel) ∨
      (x.heap ref).subscriptions.get channel = some f := by
  cases c with
  | openSession capacity =>
      simp only [Shared.subscriptionsAfter, Function.update_apply] at found
      split at found
      · simp at found
      · exact .inr found
  | subscribeInsert a r cursor =>
      simp only [Shared.subscriptionsAfter, Function.update_apply] at found
      split at found
      · next same =>
          subst same
          split at found
          · exact .inr found
          · rw [DashMap.get_put] at found
            split at found
            · next here =>
                cases found
                exact .inl ⟨a, cursor, rfl, rfl, here⟩
            · exact .inr found
      · exact .inr found
  | unsubscribeRemove a r =>
      simp only [Shared.subscriptionsAfter, Function.update_apply] at found
      split at found
      · next same =>
          subst same
          split at found
          · rw [DashMap.get_remove] at found
            split at found
            · cases found
            · exact .inr found
          · exact .inr found
      · exact .inr found
  | _ => exact .inr found

theorem after_held_subscriptions (acts : H.act s.shared n env now c = some o)
    (held : (s.after n c o).held ref = true) :
    ((s.after n c o).shared.heap ref).subscriptions = s.shared.subscriptionsAfter n c ref := by
  rw [State.after, dropArcs_held] at held
  exact (dropArcs_subscriptions held _).trans ((Hub.acted acts).subscriptions ref)

theorem eventOf_enqueued {m ref : Nat} {origin : Origin} {p : Publication}
    (logs : H.eventOf x n env now c = some (.enqueued m ref origin p)) :
    m = n ∧ ∃ a cursor stream rest, c = .subscribeSend a ref cursor stream (p :: rest) := by
  cases Hub.logs logs with
  | sent a _ cursor stream _ rest room => exact ⟨rfl, a, cursor, stream, rest, rfl⟩

theorem step_log (h : H.step s l = some t) :
    s.log <:+ t.log := by
  cases Hub.stepped h with
  | start r => exact List.suffix_refl _
  | advance at_ acts => exact List.suffix_append _ _
  | forward task moves => exact List.suffix_append _ _
  | transport quiet sheds => exact List.suffix_refl _

theorem advance_logged {e : Event} (at_ : s.calls n = some c)
    (logs : H.eventOf s.shared n env now c = some e) (h : H.step s (.advance n env now) = some t) :
    e ∈ t.log := by
  obtain ⟨c', o, called, acts, rfl⟩ := Hub.step_advance h
  cases at_.symm.trans called
  rw [after_log]
  refine List.mem_append_left _ ?_
  rcases (Hub.acted acts).logged with ⟨_, _, logged⟩ | ⟨_, _, logged⟩
  · rw [logged, logs]
    exact List.mem_singleton_self e
  · rw [logged, logs]
    exact List.mem_cons_of_mem _ (List.mem_singleton_self e)

theorem run_log {ok : State κ β τ → Label ε → Prop} (run : H.machine.Run ok s t) :
    s.log <:+ t.log :=
  run.related (R := fun s t => s.log <:+ t.log) (fun _ => List.suffix_refl _)
    (fun _ _ _ => List.IsSuffix.trans) fun _ _ _ _ h => step_log h

end Cherenkov
