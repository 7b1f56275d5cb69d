import Cherenkov.Hub.Gate
import Cherenkov.Hub.Delivery

/-! The gate says which checks preceded each call; the feeds say that whatever is replayed or
forwarded on a channel was accepted on it. Together they trace a publication in an outbox back to a
subscribe and a publish that were both allowed. -/

namespace Cherenkov

open History

variable {ε : Type}

/-- What an enqueued publication goes back to. -/
def Sourced (past : List Event) : Event → Prop
  | .enqueued n ref _ p => Opened past n ref p.channel ∧
      ∃ m ref' data, .onPublish m ref' p.channel data (.ok p) ∈ past
  | .onPublish _ _ channel data (.ok p) => p.channel = channel ∧ p.data = data
  | _ => True

theorem mem_accepted {cfg : InMemory ε} {channel : String} {s : HubState} {p : Publication}
    (h : p ∈ (cfg.feed channel s).accepted) :
    ∃ m ref data, .onPublish m ref channel data (.ok p) ∈ s.log := by
  simp only [InMemory.feed, Flow.feed, State.flow, List.mem_reverse, List.mem_filterMap,
    List.mem_filter] at h
  obtain ⟨e, ⟨member, _⟩, accepted⟩ := h
  obtain ⟨m, ref, data, rfl⟩ := Event.acceptedOn_eq_some.mp accepted
  exact ⟨m, ref, data, member⟩

theorem queue_sourced {cfg : InMemory ε} {s : HubState} (sane : cfg.Sane s) {n : Nat}
    {sub : Subscription} (held : s.flow.subs n = some sub) (active : sub.active = true)
    {p : Publication} (queued : p ∈ sub.queue s.shared.broker) :
    p.channel = sub.channel ∧ ∃ m ref data, .onPublish m ref p.channel data (.ok p) ∈ s.log := by
  have channel := sane.labelled.queue n sub held p queued
  have accepted : p ∈ (cfg.feed sub.channel s).accepted :=
    (sane.sound sub.channel).subs n _
      ((Flow.feed_subs_held held).trans (Subscription.feed_here active)) p queued
  exact ⟨channel, channel ▸ mem_accepted accepted⟩

theorem logs_sourced {cfg : InMemory ε} {s : HubState} {n : Nat} {env : ε} {now : Nat}
    {c : Call MemoryStream} (sane : cfg.Sane s) (g : s.Grounded cfg.gate.allowAnonymous)
    (at_ : s.calls n = some c) {e : Event} (logs : cfg.hub.Logs s.shared n env now c e) :
    Sourced s.log e := by
  cases logs with
  | sent a ref cursor stream p rest room =>
      have held := calls_subscription sane.staged at_ (Nat.le_refl _)
      obtain ⟨channel, source⟩ := queue_sourced sane held rfl
        (List.mem_append_left _ (List.mem_cons_self ..))
      refine ⟨?_, source⟩
      rw [channel]
      exact g.calls n _ at_
  | @accepted a ref result answer =>
      cases result with
      | error e => trivial
      | ok p =>
          have accepts := PubSubChannel.onPublish_accepts (Prod.ext rfl answer)
          rw [accepts.publication]
          exact ⟨rfl, rfl⟩
  | _ => trivial

theorem step_sourced {cfg : InMemory ε} {s t : HubState} {l : Label ε} (sane : cfg.Sane s)
    (g : s.Grounded cfg.gate.allowAnonymous) (h : cfg.hub.step s l = some t)
    (sourced : Justified Sourced s.log) : Justified Sourced t.log := by
  cases Hub.stepped h with
  | start r => exact sourced
  | @advance n env now c o at_ acts =>
      rw [after_log]
      exact (Hub.acted acts).justified sourced (fun e logs => logs_sourced sane g at_ logs)
        fun _ _ => trivial
  | @forward f move w x' events task moves =>
      have moved := Hub.forwarded moves
      cases moved with
      | lagged => exact ⟨trivial, sourced⟩
      | @sent p outbox polled holding room =>
          have held := forwarder_subscription sane.staged task
          have queued : p ∈ w.subscription.queue s.shared.broker := by
            simp [Subscription.queue, Forwarder.subscription, holding]
          obtain ⟨channel, source⟩ := queue_sourced sane held rfl queued
          refine ⟨⟨?_, source⟩, sourced⟩
          rw [channel]
          exact g.forwarders f w task
      | _ => exact sourced
  | transport quiet sheds => exact sourced

theorem run_sourced {cfg : InMemory ε} {ok : HubState → Label ε → Prop} {s : HubState}
    (run : cfg.hub.machine.Run ok cfg.boot s) : Justified Sourced s.log := by
  refine (run.invariant (I := fun s => cfg.Sane s ∧ s.Grounded cfg.gate.allowAnonymous ∧
    Justified Sourced s.log) ⟨cfg.boot_sane, initial_grounded _ _ _, trivial⟩ ?_).2.2
  rintro s l t ⟨sane, g, sourced⟩ _ h
  exact ⟨InMemory.step_sane sane h, step_grounded g h, step_sourced sane g h sourced⟩

/-- Call `n` obtained claims of the session, and its check with them answered `Allow`. -/
def Admitted (anonymous : Bool) (log : List Event) (n ref : Nat) (action : AclAction)
    (channel : String) : Prop :=
  ∃ claims later earlier,
    log = later ++ .checked n ref claims action channel (.ok .allow) :: earlier ∧
      Claimed anonymous earlier ref claims

/-- Some admitted publish had these bytes validated and accepted on the channel. -/
def Published (anonymous : Bool) (log : List Event) (p : Publication) : Prop :=
  ∃ m ref later earlier,
    log = later ++ .onPublish m ref p.channel p.data (.ok p) :: earlier ∧
      .validated m ref p.channel p.data (.ok ()) ∈ earlier ∧
      Admitted anonymous earlier m ref .publish p.channel

def Authenticated (log : List Event) (ref : Nat) : Prop :=
  ∃ n token claims, .authenticated n ref token (.ok claims) ∈ log

/-- The session on whose behalf an ACL, validator, kind or broker call was made. -/
def Event.onBehalfOf : Event → Option Nat
  | .checked _ ref _ _ _ _ | .validated _ ref _ _ _ | .onSubscribe _ ref _ _
  | .onUnsubscribe _ ref _ _ | .onPublish _ ref _ _ _ | .replaySince _ ref _ _ _
  | .brokerSubscribe _ ref _ _ | .brokerPublish _ ref _ _ _ => some ref
  | _ => none

section Chains

variable {anonymous : Bool} {log : List Event}

theorem Allowed.admitted {n ref : Nat} {action : AclAction} {channel : String}
    (h : Allowed log n ref action channel) (history : Justified (Grounds anonymous) log) :
    Admitted anonymous log n ref action channel := by
  obtain ⟨claims, member⟩ := h
  obtain ⟨later, earlier, eq, claimed, _⟩ := history.of_mem member
  exact ⟨claims, later, earlier, eq, claimed⟩

theorem Claimed.authenticated {ref : Nat} {claims : SessionClaims}
    (h : Claimed false log ref claims) : Authenticated log ref := by
  rcases h with ⟨n, token, member⟩ | ⟨never, _⟩
  · exact ⟨n, token, claims, member⟩
  · cases never

theorem Allowed.authenticated {n ref : Nat} {action : AclAction} {channel : String}
    (h : Allowed log n ref action channel) (history : Justified (Grounds false) log) :
    Authenticated log ref := by
  obtain ⟨claims, later, earlier, rfl, claimed⟩ := h.admitted history
  obtain ⟨m, token, claims', member⟩ := claimed.authenticated
  exact ⟨m, token, claims', by simp [member]⟩

theorem validated_allowed {n ref : Nat} {channel : String} {data : Bytes}
    {result : Except SchemaError Unit} (member : .validated n ref channel data result ∈ log)
    (history : Justified (Grounds anonymous) log) : Allowed log n ref .publish channel := by
  obtain ⟨later, earlier, rfl, ⟨claims, checked⟩, _⟩ := history.of_mem member
  exact ⟨claims, by simp [checked]⟩

/-- Without anonymous sessions, every call behind the gate follows an authentication. -/
theorem Grounds.authenticated {e : Event} {ref : Nat} (h : Grounds false log e)
    (history : Justified (Grounds false) log) (about : e.onBehalfOf = some ref) :
    Authenticated log ref := by
  cases e with
  | checked n ref' claims action channel result =>
      cases about
      exact Claimed.authenticated h
  | validated n ref' channel data result =>
      cases about
      exact Allowed.authenticated h history
  | onSubscribe n ref' channel result =>
      cases about
      exact Allowed.authenticated h history
  | brokerSubscribe n ref' channel ok =>
      cases about
      exact Allowed.authenticated h history
  | replaySince n ref' channel since result =>
      cases about
      exact Allowed.authenticated h history
  | onUnsubscribe n ref' channel result =>
      cases about
      obtain ⟨m, allowed⟩ := h
      exact allowed.authenticated history
  | onPublish n ref' channel data result =>
      cases about
      exact (validated_allowed h history).authenticated history
  | brokerPublish n ref' channel p result =>
      cases about
      obtain ⟨data, member⟩ := h
      obtain ⟨later, earlier, rfl, validated, past⟩ := history.of_mem member
      obtain ⟨m, token, claims, member⟩ := (validated_allowed validated past).authenticated past
      exact ⟨m, token, claims, by simp [member]⟩
  | _ => cases about

end Chains

/-- Whatever plugins, sessions and interleaving: a publication in an outbox was subscribed
to by an admitted call and published, byte for byte, by an admitted and validated one;
and where anonymous sessions are off, nothing behind the gate runs unauthenticated. -/
theorem enqueued_admitted (cfg : InMemory ε) {s : HubState}
    (run : cfg.hub.machine.Run Machine.free cfg.boot s) :
    (∀ later n ref origin p earlier, s.log = later ++ .enqueued n ref origin p :: earlier →
        Admitted cfg.gate.allowAnonymous earlier n ref .subscribe p.channel ∧
          Published cfg.gate.allowAnonymous earlier p) ∧
      (cfg.gate.allowAnonymous = false →
        (∀ later e earlier ref, s.log = later ++ e :: earlier → e.onBehalfOf = some ref →
          Authenticated earlier ref) ∧
        ∀ f w, s.shared.forwarders f = some w → Authenticated s.log w.session) := by
  have grounded := run_grounded run
  have history : Justified (Grounds cfg.gate.allowAnonymous) s.log := grounded.history
  have sources := run_sourced run
  constructor
  · intro later n ref origin p earlier split
    obtain ⟨⟨opened, m, ref', data, accepted⟩, sourced⟩ := sources.split split
    obtain ⟨_, past⟩ := history.split split
    refine ⟨(opened.allowed past).admitted past, ?_⟩
    obtain ⟨after, before, eq, validated, older⟩ := past.of_mem accepted
    obtain ⟨⟨_, rfl⟩, _⟩ := sourced.split eq
    exact ⟨m, ref', after, before, eq, validated,
      (validated_allowed validated older).admitted older⟩
  · intro closed
    rw [closed] at history
    constructor
    · intro later e earlier ref split about
      obtain ⟨grounds, past⟩ := history.split split
      exact grounds.authenticated past about
    · intro f w task
      exact ((grounded.forwarders f w task).allowed history).authenticated history

def echoRun : List (Label Unit) :=
  Request.steps (.openSession 16) 0 5 ++ Request.steps (.connect ⟨0, 1, "token"⟩) 1 4 ++
  Request.steps (.subscribe ⟨0, 2, "rooms.lobby", 0⟩) 2 9 ++
  Request.steps (.publish ⟨0, "rooms.lobby", [7]⟩) 3 6 ++
  [.forward 2 .wake, .forward 2 .poll, .forward 2 .poll]

def connected : InMemory Unit := .standard { Gate.allowAll with allowAnonymous := false }

theorem enqueued_admitted_echo :
    ∃ s earlier, connected.hub.machine.Run Machine.free connected.boot s ∧
      s.log = .enqueued 2 0 .live ⟨"rooms.lobby", 0, [7]⟩ :: earlier ∧
      Admitted false earlier 2 0 .subscribe "rooms.lobby" ∧
      Published false earlier ⟨"rooms.lobby", 0, [7]⟩ ∧
      .onPublish 3 0 "rooms.lobby" [7] (.ok ⟨"rooms.lobby", 0, [7]⟩) ∈ s.log ∧
      Authenticated s.log 0 := by
  obtain ⟨s, _, run, delivered, accepted⟩ := Machine.exec_witness (M := connected.hub.machine)
    (s := connected.boot) echoRun (fun s =>
      s.log.head? = some (.enqueued 2 0 .live ⟨"rooms.lobby", 0, [7]⟩) ∧
        .onPublish 3 0 "rooms.lobby" [7] (.ok ⟨"rooms.lobby", 0, [7]⟩) ∈ s.log) (by decide +kernel)
  obtain ⟨earlier, log⟩ := List.head?_eq_some_iff.mp delivered
  have safe := enqueued_admitted connected run
  have admitted := safe.1 [] 2 0 .live ⟨"rooms.lobby", 0, [7]⟩ earlier log
  obtain ⟨later, past, split⟩ := List.append_of_mem accepted
  obtain ⟨n, token, claims, authenticated⟩ := (safe.2 rfl).1 later _ past 0 split rfl
  exact ⟨s, earlier, run, log, admitted.1, admitted.2, accepted, n, token, claims,
    by simp [split, authenticated]⟩

end Cherenkov
