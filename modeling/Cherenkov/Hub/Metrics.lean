import Cherenkov.Hub.Sequential
import Cherenkov.Library.DashMap

/-! `open_session`, `close_session` and `kick_session` count what they did after they have done it,
and set the gauge of active sessions to a length of the registry that they have read before. The
counters add up as soon as every call has returned. The gauge only does if no session is registered
or removed between some call's read of the length and its set of the gauge. -/

namespace Cherenkov

variable {κ β τ ε : Type}

def Call.enrolled : Call τ → Bool
  | .count (.opened _) => true
  | _ => false

def Call.departing : Call τ → Bool
  | .deregisterScrub _ _ _ | .deregisterDrop _ _ _ => true
  | .count .closed | .count (.kicked _) => true
  | _ => false

def Call.settling : Call τ → Bool
  | .deregisterScrub _ _ _ | .deregisterDrop _ _ _ | .count _ | .measure _ | .gauge _ _ => true
  | _ => false

def Call.managing : Call τ → Bool
  | .openSession _ | .openRegister _ | .kick _ | .kickSignal _ _ | .deregister _ _ => true
  | c => c.settling

def Call.resizes (r : SessionRegistry) : Call τ → Bool
  | .openRegister _ => true
  | .deregister _ id => (r.get id).isSome
  | _ => false

/-- No session is registered under the identifier of another one. The counter that the
identifiers are taken from wraps. -/
def FreshIds (s : State κ β τ) (l : Label ε) : Prop :=
  ∀ n env now ref, l = .advance n env now → s.calls n = some (.openRegister ref) →
    s.shared.registry.get (s.shared.heap ref).id = none

/-- No session is registered or removed while a call stands between its read of the number of
sessions and its set of the gauge. -/
def GaugeApart (s : State κ β τ) (l : Label ε) : Prop :=
  ∀ n env now c, l = .advance n env now → s.calls n = some c →
    c.resizes s.shared.registry = true → ∀ m k len, s.calls m ≠ some (.gauge k len)

structure Metering (s : State κ β τ) (l : Label ε) : Prop where
  fresh : FreshIds s l
  apart : GaugeApart s l

/-- The counters, corrected by what the calls in flight still have to count. -/
def State.Tallied (s : State κ β τ) : Prop :=
  s.shared.metrics.opened + tally s.calls s.nextCall Call.enrolled =
    s.shared.registry.sessions.len + s.shared.metrics.closed + s.shared.metrics.kicked +
      tally s.calls s.nextCall Call.departing

/-- Every length a call is about to set is right, and so is the gauge unless somebody is still
to set it. -/
structure State.Gauged (s : State κ β τ) : Prop where
  measured : ∀ n m len, s.calls n = some (.gauge m len) → len = s.shared.registry.sessions.len
  active : s.shared.metrics.active = s.shared.registry.sessions.len ∨
    ∃ n c, s.calls n = some c ∧ c.settling = true

def Hub.metricsAfter (H : Hub κ β τ ε) (x : Shared κ β τ) : Call τ → Metrics
  | .count m => m.bump x.metrics
  | .gauge _ len => { x.metrics with active := len }
  | .publishBroker a _ p =>
      if (H.broker.publish x.broker a.channel p).2.isOk then
        { x.metrics with publications := x.metrics.publications + 1 }
      else x.metrics
  | _ => x.metrics

section Steps

variable {H : Hub κ β τ ε} {s t : State κ β τ} {l : Label ε} {x : Shared κ β τ} {n : Nat} {env : ε}
  {now : Nat} {c : Call τ} {o : Outcome κ β τ}

theorem act_metrics (acts : H.act x n env now c = some o) :
    o.shared.metrics = H.metricsAfter x c := by
  cases c with
  | subscribeSend a ref cursor stream rest =>
      cases rest with
      | nil =>
          cases acts
          rfl
      | cons p rest =>
          simp only [Hub.act] at acts
          split at acts <;> cases acts <;> rfl
  | gauge m len =>
      cases acts
      cases m <;> rfl
  | publishBroker a ref p =>
      simp only [Hub.act] at acts
      split at acts <;> next answer =>
        cases acts
        simp [Hub.metricsAfter, answer, Except.isOk, Except.toBool, Outcome.after, Shared.done]
  | _ =>
      simp only [Hub.act] at acts
      (repeat' split at acts) <;> cases acts <;> rfl

theorem after_metrics (acts : H.act s.shared n env now c = some o) :
    (s.after n c o).shared.metrics = H.metricsAfter s.shared c :=
  (quiet_after s n c o).metrics.trans (act_metrics acts)

theorem Hub.Forwarded.metrics {x' : Shared κ β τ} {f : Nat} {w : Forwarder τ}
    {events : List Event} (moved : H.Forwarded x f w x' events) : x'.metrics = x.metrics := by
  cases moved <;> rfl

theorem registryAfter_sessions (still : c.resizes x.registry = false) :
    (x.registryAfter c).sessions = x.registry.sessions := by
  cases c with
  | openRegister ref => cases still
  | deregister who id =>
      simp only [Call.resizes] at still
      simp [Shared.registryAfter, still]
  | unsubscribeScrub a ref =>
      simp only [Shared.registryAfter, SessionRegistry.scrubChannel]
      split <;> rfl
  | _ => rfl

theorem after_sessions (acts : H.act s.shared n env now c = some o)
    (still : c.resizes s.shared.registry = false) :
    (s.after n c o).shared.registry.sessions = s.shared.registry.sessions := by
  rw [after_registry acts]
  exact registryAfter_sessions still

def Call.meters : Call τ → Bool
  | .openRegister _ | .deregister _ _ | .count _ => true
  | _ => false

theorem act_pending (acts : H.act x n env now c = some o) (plain : c.meters = false) :
    o.next.any Call.enrolled = c.enrolled ∧ o.next.any Call.departing = c.departing := by
  cases goes : o.next with
  | none =>
      cases c with
      | count m => cases plain
      | deregisterScrub who id ref | deregisterDrop who id ref =>
          cases acts
          cases goes
      | _ => exact ⟨rfl, rfl⟩
  | some next =>
      cases Hub.goes acts goes with
      | registered | counted | removed => cases plain
      | dropped who id ref => cases who <;> exact ⟨rfl, rfl⟩
      | _ => exact ⟨rfl, rfl⟩

theorem metricsAfter_counters (H : Hub κ β τ ε) (x : Shared κ β τ) (plain : c.meters = false) :
    (H.metricsAfter x c).opened = x.metrics.opened ∧
      (H.metricsAfter x c).closed = x.metrics.closed ∧
      (H.metricsAfter x c).kicked = x.metrics.kicked := by
  cases c with
  | count m => cases plain
  | publishBroker a ref p =>
      simp only [Hub.metricsAfter]
      split <;> exact ⟨rfl, rfl, rfl⟩
  | _ => exact ⟨rfl, rfl, rfl⟩

theorem resizes_of_plain {r : SessionRegistry} (plain : c.meters = false) :
    c.resizes r = false := by
  cases c with
  | openRegister ref | deregister who id => cases plain
  | _ => rfl

theorem advance_tallied (known : n < s.nextCall) (at_ : s.calls n = some c)
    (acts : H.act s.shared n env now c = some o) (fresh : FreshIds s (.advance n env now))
    (tallied : s.Tallied) : (s.after n c o).Tallied := by
  have enrolled := tally_update s.calls o.next Call.enrolled known
  have departing := tally_update s.calls o.next Call.departing known
  rw [at_, Option.any_some] at enrolled departing
  unfold State.Tallied at tallied ⊢
  rw [after_metrics acts, after_registry acts, after_calls, after_nextCall]
  by_cases plain : c.meters = false
  · obtain ⟨next, next'⟩ := act_pending acts plain
    obtain ⟨opened, closed, kicked⟩ := metricsAfter_counters H s.shared plain
    rw [next] at enrolled
    rw [next'] at departing
    rw [opened, closed, kicked, registryAfter_sessions (resizes_of_plain plain)]
    omega
  cases c with
  | openRegister ref =>
      have longer := DashMap.len_put_new (fresh n env now ref rfl at_) ref
      cases acts
      simp only [Shared.goto, Option.any_some, Call.enrolled, Call.departing, Bool.toNat_true,
        Bool.toNat_false, Hub.metricsAfter, Shared.registryAfter, SessionRegistry.register]
        at enrolled departing ⊢
      omega
  | deregister who id =>
      cases found : s.shared.registry.get id with
      | none =>
          simp only [Hub.act, found] at acts
          cases acts
          simp only [Shared.done, Option.any_none, Call.enrolled, Call.departing, Bool.toNat_false,
            Hub.metricsAfter, Shared.registryAfter, found, Option.isSome_none, Bool.false_eq_true,
            if_false] at enrolled departing ⊢
          omega
      | some ref =>
          have shorter := DashMap.len_remove found
          simp only [Hub.act, found] at acts
          cases acts
          simp only [Outcome.after, Shared.goto, Option.any_some, Call.enrolled, Call.departing,
            Bool.toNat_true, Bool.toNat_false, Hub.metricsAfter, Shared.registryAfter, found,
            Option.isSome_some, if_true, SessionRegistry.removeSession] at enrolled departing ⊢
          omega
  | count m =>
      cases acts
      cases m <;>
        simp only [Shared.goto, Option.any_some, Call.enrolled, Call.departing, Bool.toNat_true,
          Bool.toNat_false, Hub.metricsAfter, Meter.bump, Shared.registryAfter]
          at enrolled departing ⊢ <;>
        omega
  | _ => exact absurd rfl plain

theorem step_tallied (staged : s.Staged) (fresh : FreshIds s l) (tallied : s.Tallied)
    (h : H.step s l = some t) : t.Tallied := by
  cases Hub.stepped h with
  | start r =>
      have enrolled := tally_push s.calls (some r.entry) s.nextCall Call.enrolled
      have departing := tally_push s.calls (some r.entry) s.nextCall Call.departing
      have neither : (r.entry : Call τ).enrolled = false ∧ (r.entry : Call τ).departing = false := by
        cases r <;> exact ⟨rfl, rfl⟩
      rw [Option.any_some, neither.1] at enrolled
      rw [Option.any_some, neither.2] at departing
      unfold State.Tallied
      rw [enrolled, departing]
      exact tallied
  | advance at_ acts => exact advance_tallied (staged.calls _ _ at_) at_ acts fresh tallied
  | forward task moves =>
      have moved := Hub.forwarded moves
      unfold State.Tallied
      rw [moved.metrics, (moved.frame task).registry]
      exact tallied
  | transport quiet sheds kept =>
      unfold State.Tallied
      rw [quiet.metrics, quiet.registry]
      exact tallied

theorem run_tallied {kinds : Nat → κ} {broker : β}
    (run : H.machine.Run FreshIds (State.initial kinds broker) s) : s.Tallied := by
  have both : s.Staged ∧ s.Tallied := by
    refine run.invariant (I := fun s => s.Staged ∧ s.Tallied)
      ⟨initial_staged kinds broker, rfl⟩ ?_
    rintro s l t ⟨staged, tallied⟩ fresh h
    exact ⟨step_staged staged h, step_tallied staged fresh tallied h⟩
  exact both.2

theorem advance_measured (at_ : s.calls n = some c) (acts : H.act s.shared n env now c = some o)
    (apart : GaugeApart s (.advance n env now)) (g : s.Gauged) {m len : Nat} {k : Meter}
    (found : (s.after n c o).calls m = some (.gauge k len)) :
    len = (s.after n c o).shared.registry.sessions.len := by
  rcases after_call found with ⟨rfl, goes⟩ | ⟨-, old⟩
  · cases Hub.goes acts goes with
    | measured k => rw [after_sessions acts rfl]
  · have still : c.resizes s.shared.registry = false := by
      apply Bool.eq_false_iff.mpr
      intro resizes
      exact apart n env now c rfl at_ resizes m k len old
    rw [after_sessions acts still]
    exact g.measured m k len old

/-- A call that changes the registry, or has changed it, sets the gauge before it returns. -/
theorem act_settling (acts : H.act x n env now c = some o)
    (busy : c.resizes x.registry = true ∨ c.settling = true) :
    (∃ m len, c = .gauge m len) ∨ ∃ next, o.next = some next ∧ next.settling = true := by
  cases c with
  | gauge m len => exact .inl ⟨m, len, rfl⟩
  | openRegister ref | count m | measure m | deregisterScrub who id ref
  | deregisterDrop who id ref =>
      cases acts
      exact .inr ⟨_, rfl, rfl⟩
  | deregister who id =>
      rcases busy with found | settling
      · obtain ⟨ref, found⟩ := Option.isSome_iff_exists.mp found
        simp only [Hub.act, found] at acts
        cases acts
        exact .inr ⟨_, rfl, rfl⟩
      · cases settling
  | _ => rcases busy with resizes | settling <;> contradiction

theorem metricsAfter_active (H : Hub κ β τ ε) (x : Shared κ β τ) (idle : c.settling = false) :
    (H.metricsAfter x c).active = x.metrics.active := by
  cases c with
  | count m | gauge m len => cases idle
  | publishBroker a ref p =>
      simp only [Hub.metricsAfter]
      split <;> rfl
  | _ => rfl

theorem advance_active (at_ : s.calls n = some c) (acts : H.act s.shared n env now c = some o)
    (g : s.Gauged) :
    (s.after n c o).shared.metrics.active = (s.after n c o).shared.registry.sessions.len ∨
      ∃ m d, (s.after n c o).calls m = some d ∧ d.settling = true := by
  by_cases busy : c.resizes s.shared.registry = true ∨ c.settling = true
  · rcases act_settling acts busy with ⟨m, len, rfl⟩ | ⟨next, goes, settling⟩
    · left
      rw [after_metrics acts, after_sessions acts rfl]
      exact g.measured n m len at_
    · right
      refine ⟨n, next, ?_, settling⟩
      rw [after_calls, Function.update_self, goes]
  · simp only [not_or, Bool.not_eq_true] at busy
    obtain ⟨still, idle⟩ := busy
    rcases g.active with same | ⟨m, d, called, settling⟩
    · left
      rw [after_metrics acts, after_sessions acts still, metricsAfter_active H _ idle]
      exact same
    · right
      have other : m ≠ n := by
        rintro rfl
        cases at_.symm.trans called
        rw [idle] at settling
        cases settling
      refine ⟨m, d, ?_, settling⟩
      rw [after_calls, Function.update_of_ne other]
      exact called

theorem step_gauged (staged : s.Staged) (apart : GaugeApart s l) (g : s.Gauged)
    (h : H.step s l = some t) : t.Gauged := by
  cases Hub.stepped h with
  | start r =>
      refine ⟨?_, ?_⟩
      · intro m k len found
        simp only [Function.update_apply] at found
        split at found
        · cases r <;> cases found
        · exact g.measured m k len found
      · rcases g.active with same | ⟨m, d, called, settling⟩
        · exact .inl same
        · have older : m ≠ s.nextCall := Nat.ne_of_lt (staged.calls m d called)
          exact .inr ⟨m, d, (Function.update_of_ne older _ _).trans called, settling⟩
  | advance at_ acts =>
      exact ⟨fun m k len => advance_measured at_ acts apart g, advance_active at_ acts g⟩
  | forward task moves =>
      have moved := Hub.forwarded moves
      have registry := (moved.frame task).registry
      refine ⟨?_, ?_⟩
      · rw [registry]
        exact g.measured
      · rw [registry, moved.metrics]
        exact g.active
  | transport quiet sheds kept =>
      refine ⟨?_, ?_⟩
      · rw [quiet.registry]
        exact g.measured
      · rw [quiet.registry, quiet.metrics]
        exact g.active

theorem initial_gauged (kinds : Nat → κ) (broker : β) :
    (State.initial kinds broker : State κ β τ).Gauged := by
  refine ⟨?_, .inl rfl⟩
  intro n m len found
  cases found

theorem run_gauged {kinds : Nat → κ} {broker : β}
    (run : H.machine.Run GaugeApart (State.initial kinds broker) s) : s.Gauged := by
  have both : s.Staged ∧ s.Gauged := by
    refine run.invariant (I := fun s => s.Staged ∧ s.Gauged)
      ⟨initial_staged kinds broker, initial_gauged kinds broker⟩ ?_
    rintro s l t ⟨staged, g⟩ apart h
    exact ⟨step_staged staged h, step_gauged staged apart g h⟩
  exact both.2

theorem settling_managing (settling : c.settling = true) : c.managing = true := by
  cases c with
  | openSession capacity => rfl
  | _ => first | rfl | exact settling

theorem idle_of_unmanaging (silent : ∀ n c, s.calls n = some c → c.managing = false) {m : Nat}
    {d : Call τ} (called : s.calls m = some d) : d.settling = false := by
  apply Bool.eq_false_iff.mpr
  intro settling
  have busy := settling_managing settling
  rw [silent m d called] at busy
  cases busy

/-- Whenever no open, close or kick is in flight, the sessions opened less those closed and
kicked are the registered ones, and the gauge shows their number. -/
theorem session_metrics {kinds : Nat → κ} {broker : β}
    (run : H.machine.Run Metering (State.initial kinds broker) s)
    (silent : ∀ n c, s.calls n = some c → c.managing = false) :
    (s.shared.metrics.opened : Int) - s.shared.metrics.closed - s.shared.metrics.kicked =
        s.shared.registry.sessions.len ∧
      s.shared.metrics.active = s.shared.registry.sessions.len := by
  have tallied := run_tallied (run.mono fun _ _ metering => metering.fresh)
  have gauged := run_gauged (run.mono fun _ _ metering => metering.apart)
  constructor
  · have enrolled : tally s.calls s.nextCall Call.enrolled = 0 := by
      refine tally_eq_zero ?_ s.nextCall
      intro n c called
      have idle := idle_of_unmanaging silent called
      cases c with
      | count m => cases idle
      | _ => rfl
    have departing : tally s.calls s.nextCall Call.departing = 0 := by
      refine tally_eq_zero ?_ s.nextCall
      intro n c called
      have idle := idle_of_unmanaging silent called
      cases c with
      | count m | deregisterScrub who id ref | deregisterDrop who id ref => cases idle
      | _ => rfl
    unfold State.Tallied at tallied
    omega
  · rcases gauged.active with same | ⟨n, c, called, settling⟩
    · exact same
    · rw [idle_of_unmanaging silent called] at settling
      cases settling

end Steps

def metering (s : State κ β τ) (l : Label ε) : Bool :=
  match l with
  | .advance n _ _ =>
      match s.calls n with
      | some c =>
          (match c with
            | .openRegister ref => (s.shared.registry.get (s.shared.heap ref).id).isNone
            | _ => true) &&
          (!c.resizes s.shared.registry || (List.range s.nextCall).all fun m =>
            match s.calls m with
            | some (.gauge _ _) => false
            | _ => true)
      | none => true
  | _ => true

theorem metering_sound (s : State κ β τ) (l : Label ε) (staged : s.Staged)
    (h : metering s l = true) : Metering s l := by
  refine ⟨?_, ?_⟩
  · rintro n env now ref rfl called
    simp only [metering, called, Bool.and_eq_true, Option.isNone_iff_eq_none] at h
    exact h.1
  · rintro n env now c rfl called resizes m k len found
    simp only [metering, called, resizes, Bool.not_true, Bool.false_or, Bool.and_eq_true,
      List.all_eq_true, List.mem_range] at h
    have other := h.2 m (staged.calls m _ found)
    rw [found] at other
    cases other

/-- Two sessions; the second is kicked and closed at the same time, and the close comes first. -/
theorem session_metrics_contested :
    ∃ s, defaults.hub.machine.Run Metering defaults.boot s ∧
      (∀ n c, s.calls n = some c → c.managing = false) ∧
      .returned 2 (.ok (.kicked false)) ∈ s.log ∧ s.shared.registry.ids = [0] ∧
      (s.shared.metrics.opened : Int) - s.shared.metrics.closed - s.shared.metrics.kicked =
        s.shared.registry.sessions.len ∧
      s.shared.metrics.active = s.shared.registry.sessions.len := by
  obtain ⟨s, run, silent, refused, ids⟩ := Machine.execWithin_witness
    (M := defaults.hub.machine) (s := defaults.boot) metering_sound
    (fun _ _ _ staged _ h => step_staged staged h) (initial_staged _ _)
    (Request.steps (.openSession 16) 0 5 ++ Request.steps (.openSession 16) 1 5 ++
      Request.steps (.kick 1) 2 2 ++ Request.steps (.close 1) 3 6 ++ [.advance 2 () 0])
    (fun s : HubState => idle s = true ∧ .returned 2 (.ok (.kicked false)) ∈ s.log ∧
      s.shared.registry.ids = [0]) (by decide +kernel)
  have none_ : ∀ n c, s.calls n = some c → c.managing = false := by
    intro n c called
    rw [idle_sound (run_staged run) silent n] at called
    cases called
  exact ⟨s, run, none_, refused, ids, session_metrics run none_⟩

/-- The first of two opens reads a length of one, the second sets the gauge to two, and then the
first sets it to one. -/
theorem session_gauge_overtaken :
    ∃ s, defaults.hub.machine.Run Machine.free defaults.boot s ∧ (∀ n, s.calls n = none) ∧
      s.shared.registry.sessions.len = 2 ∧ s.shared.metrics.active = 1 := by
  obtain ⟨s, -, run, silent, len, active⟩ := Machine.exec_witness
    (M := defaults.hub.machine) (s := defaults.boot)
    (Request.steps (.openSession 16) 0 4 ++ Request.steps (.openSession 16) 1 5 ++
      [.advance 0 () 0])
    (fun s : HubState => idle s = true ∧ s.shared.registry.sessions.len = 2 ∧
      s.shared.metrics.active = 1) (by decide +kernel)
  exact ⟨s, run, idle_sound (run_staged run) silent, len, active⟩

end Cherenkov
