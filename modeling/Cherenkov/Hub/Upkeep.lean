import Cherenkov.StreamAccounts
import Cherenkov.Hub.Ownership
import Cherenkov.Hub.Subscribe
import Cherenkov.Hub.Reckoning

/-! Forwarder tasks and receivers of the broker are resources that nobody but the hub knows of. When
no call is in flight, a task that may still run is stored in the map of a session that somebody
refers to, and a receiver of the in-process broker belongs to one task. -/

namespace Cherenkov

variable {κ β τ ε : Type}

namespace Flow

variable {v v' : Flow κ}

/-- Every receiver of the broker is the stream of a subscription. -/
def Attended (v : Flow κ) : Prop :=
  ∀ sender r, v.broker.Listens sender r → ∃ n sub, v.subs n = some sub ∧
    sub.stream.sender = sender ∧ sub.stream.receiver = r

theorem Attended.edited (attended : v.Attended) {n : Nat} {sub sub' : Subscription}
    (held : v.subs n = some sub) (subs : v'.subs = Function.update v.subs n (some sub'))
    (stream : sub'.stream = sub.stream)
    (listens : ∀ sender r, v'.broker.Listens sender r → v.broker.Listens sender r) : v'.Attended := by
  intro sender r listening
  obtain ⟨m, x, found, here⟩ := attended sender r (listens sender r listening)
  rw [subs]
  by_cases own : m = n
  · subst own
    cases held.symm.trans found
    exact ⟨m, sub', Function.update_self .., by rw [stream]; exact here⟩
  · exact ⟨m, x, (Function.update_of_ne own ..).trans found, here⟩

theorem Step.attended {K : ChannelKind κ} {kindFor : String → Nat} (step : Step K kindFor v v')
    (attended : v.Attended) : v'.Attended := by
  cases step with
  | idle kinds turns => exact attended
  | accepted n ref now channel data p ps vacant accepts => exact attended
  | broadcast n ref channel p flying =>
      intro sender r listening
      exact attended sender r (MemoryBroker.publish_listens listening)
  | replayed n ref sub p rest due active head => exact attended.edited due rfl rfl fun _ _ h => h
  | abandoned n sub due kinds turns => exact attended.edited due rfl rfl fun _ _ h => h
  | took n sub p b due live free next =>
      refine attended.edited due rfl rfl ?_
      intro sender r listening
      have polled : (v.broker.next sub.stream).1.Listens sender r := by
        rw [next]
        exact listening
      exact MemoryBroker.next_listens polled
  | lagged n sub k b due live free next =>
      intro sender r listening
      have polled : (v.broker.next sub.stream).1.Listens sender r := by
        rw [next]
        exact listening
      exact attended sender r (MemoryBroker.next_listens polled)
  | sent n ref sub p due active live holding => exact attended.edited due rfl rfl fun _ _ h => h
  | dropped n sub due kinds turns =>
      intro sender r listening
      obtain ⟨before, other⟩ := MemoryBroker.dropStream_listens listening
      obtain ⟨m, x, found, rfl, rfl⟩ := attended sender r before
      have apart : m ≠ n := by
        rintro rfl
        cases due.symm.trans found
        exact other rfl rfl
      exact ⟨m, x, (Function.update_of_ne apart ..).trans found, rfl, rfl⟩

theorem Opens.attended {n : Nat} {channel : String} (step : v.Opens n channel v')
    (attended : v.Attended) : v'.Attended := by
  obtain ⟨stream, opened, rfl⟩ := step.result
  intro sender r listening
  rcases MemoryBroker.subscribe_listens opened listening with ⟨rfl, rfl⟩ | before
  · exact ⟨n, _, Function.update_self .., rfl, rfl⟩
  · obtain ⟨m, x, found, here⟩ := attended sender r before
    have apart : m ≠ n := by
      rintro rfl
      rw [step.unopened] at found
      cases found
    exact ⟨m, x, (Function.update_of_ne apart ..).trans found, here⟩

theorem Reads.attended {K : ChannelKind κ} {kindFor : String → Nat} {n since : Nat}
    {channel : String} (step : v.Reads K kindFor n channel since v') (attended : v.Attended) :
    v'.Attended := by
  obtain ⟨stream, now, replayed, held, read, rfl⟩ := step.result
  exact attended.edited held rfl rfl fun _ _ h => h

end Flow

theorem step_attended {H : Hub κ MemoryBroker MemoryStream ε} {s t : MemoryState κ} {l : Label ε}
    (inProcess : H.broker = MemoryBroker.broker) (staged : s.Staged) (attended : s.flow.Attended)
    (h : H.step s l = some t) : t.flow.Attended := by
  rcases step_flow inProcess staged h with step | ⟨_, _, _, _, _, _, _, _, opens⟩ |
    ⟨_, _, _, _, _, _, _, _, _, reads⟩
  · exact step.attended attended
  · exact opens.attended attended
  · exact reads.attended attended

theorem initial_attended (kinds : Nat → κ) (capacity : Nat) :
    (State.initial kinds (.withCapacity capacity) : MemoryState κ).flow.Attended := by
  intro sender r listening
  simp [State.flow, State.initial, MemoryBroker.Listens, MemoryBroker.withCapacity,
    Broadcast.attached, Broadcast.channel] at listening

/-- What the hub keeps running when no call is in flight. -/
structure State.Tidy (s : MemoryState κ) : Prop where
  stored : ∀ f w, s.shared.forwarders f = some w → w.aborted = false →
    (s.shared.heap w.session).subscriptions.get w.channel = some f
  referred : ∀ f w, s.shared.forwarders f = some w → w.aborted = false →
    s.shared.registry.get (s.shared.heap w.session).id = some w.session ∨
      0 < (s.shared.heap w.session).handles
  receivers : ∀ sender r, s.shared.broker.Listens sender r → ∃ f w,
    s.shared.forwarders f = some w ∧ w.stream.sender = sender ∧ w.stream.receiver = r
  single : ∀ f g w v, s.shared.forwarders f = some w → s.shared.forwarders g = some v →
    w.stream.receiver = v.stream.receiver → f = g

/-- Whatever has happened, when no call is in flight every task that may still run is the
subscription of a session that the registry or a transport refers to, and every receiver of
the broker is the stream of one task. -/
theorem rest_tidy {H : Hub κ MemoryBroker MemoryStream ε} {kinds : Nat → κ} {capacity : Nat}
    {s : MemoryState κ} (inProcess : H.broker = MemoryBroker.broker)
    (run : H.machine.Run Machine.free (State.initial kinds (.withCapacity capacity)) s)
    (rest : ∀ n, s.calls n = none) : s.Tidy := by
  have wf := run_wf inProcess run
  obtain ⟨owned, attended⟩ := run.invariant (I := fun s => s.Owned ∧ s.flow.Attended)
    ⟨initial_owned _ _, initial_attended _ _⟩
    fun _ _ _ g _ h => ⟨step_owned g.1 h, step_attended inProcess g.1.staged g.2 h⟩
  have stored : ∀ f w, s.shared.forwarders f = some w → w.aborted = false →
      (s.shared.heap w.session).subscriptions.get w.channel = some f := by
    exact fun f w task running => owned.sheltered.stored rest task running
  refine ⟨stored, ?_, ?_, ?_⟩
  · intro f w task running
    cases held : s.held w.session with
    | false =>
        have entry := stored f w task running
        rw [owned.emptied.dropped w.session held w.channel] at entry
        cases entry
    | true =>
        rcases held_iff.mp held with registered | handle | ⟨m, d, -, called, -⟩
        · exact .inl registered
        · exact .inr handle
        · rw [rest m] at called
          cases called
  · intro sender r listening
    obtain ⟨f, sub, found, here⟩ := attended sender r listening
    simp only [State.flow, State.subscription, rest f, Option.bind_none, Option.none_or] at found
    obtain ⟨w, task, rfl⟩ := Option.map_eq_some_iff.mp found
    exact ⟨f, w, task, here⟩
  · intro f g w v task task' same
    exact wf.apart f g _ _ (forwarder_subscription owned.staged task)
      (forwarder_subscription owned.staged task') same

/-- Two sessions subscribe. One is kicked while its transport still refers to it; the transport
of the other lets go after the session was closed. -/
def leavers : List (Label Unit) :=
  listenersJoin ++ Request.steps (.kick 0) 5 8 ++ Request.steps (.close 1) 6 6 ++ [.release 1]

theorem rest_tidy_leavers :
    ∃ s, defaults.hub.machine.Run Machine.free defaults.boot s ∧ (∀ n, s.calls n = none) ∧
      (∃ w, s.shared.forwarders 2 = some w ∧ w.aborted = false) ∧
      s.shared.registry.get 0 = none ∧ 0 < (s.shared.heap 0).handles ∧
      (∃ w, s.shared.forwarders 3 = some w ∧ w.aborted = true) ∧ s.Tidy := by
  obtain ⟨s, -, run, quiet, running, absent, handle, stopped⟩ :=
    Machine.exec_witness (M := defaults.hub.machine) (s := defaults.boot) leavers
      (fun s => idle s = true ∧ ((s.shared.forwarders 2).any fun w => !w.aborted) = true ∧
        s.shared.registry.get 0 = none ∧ 0 < (s.shared.heap 0).handles ∧
        ((s.shared.forwarders 3).any fun w => w.aborted) = true)
      (by decide +kernel)
  have rest := idle_sound (run_staged run) quiet
  obtain ⟨w, task, running⟩ := Option.any_eq_true _ _ |>.mp running
  obtain ⟨v, other, stopped⟩ := Option.any_eq_true _ _ |>.mp stopped
  exact ⟨s, run, rest, ⟨w, task, by simpa using running⟩, absent, handle, ⟨v, other, stopped⟩,
    rest_tidy rfl run rest⟩

end Cherenkov
