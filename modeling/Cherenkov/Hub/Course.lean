import Cherenkov.Hub.Stages

/-! How a call can end, next to how it can go on, and the rule that follows: what holds at the entry
of a call and at every program counter it can go to holds of the call for as long as it is in
flight, however the steps of other calls and tasks fall in between, and what follows at every exit
holds of its answer. -/

namespace Cherenkov

variable {κ β τ ε : Type}

def Gated.request : Gated → Request
  | .subscribe a => .subscribe a
  | .publish a => .publish a

/-- The client's request that a call in flight serves. -/
def Call.serves : Call τ → Option Request
  | .connect a | .connectClaims a _ | .connectAuth a _ | .connectSet a _ _ => some (.connect a)
  | .enter g | .requireClaims g _ | .seedClaims g _ | .enforceAcl g _ _ => some g.request
  | .subscribeHas a _ | .subscribeKind a _ | .subscribeBroker a _ _ | .subscribeReplay a _ _ _
  | .subscribeSend a _ _ _ _ | .subscribeSpawn a _ _ _ | .subscribeInsert a _ _
  | .subscribeIndex a _ _ | .subscribeStray a _ | .subscribeUnwind a _ _ _ => some (.subscribe a)
  | .unsubscribe a | .unsubscribeRemove a _ | .unsubscribeAbort a _ _ | .unsubscribeScrub a _
  | .unsubscribeReap a _ | .unsubscribeKind a _ => some (.unsubscribe a)
  | .publishValidate a _ | .publishKind a _ | .publishBroker a _ _ => some (.publish a)
  | _ => none

/-- How a call can end, and what it has seen when it does. -/
inductive Hub.Ends (H : Hub κ β τ ε) (x : Shared κ β τ) (env : ε) (now : Nat) :
    Call τ → Except HubError Response → Prop
  | measured (m : Meter) (len : Nat) : H.Ends x env now (.gauge m len) (.ok m.response)
  | strange (a : ConnectArgs) (absent : x.registry.get a.sessionId = none) :
      H.Ends x env now (.connect a) (.error (.sessionGone a.sessionId))
  | reconnecting (a : ConnectArgs) (ref : Nat)
      (claimed : ((x.heap ref).claims.isSome && !H.gate.allowAnonymous) = true) :
      H.Ends x env now (.connectClaims a ref) (.error (.alreadyConnected a.sessionId))
  | unauthenticated (a : ConnectArgs) (ref : Nat) {e : AuthError}
      (refuses : H.gate.authenticate env a.token = .error e) :
      H.Ends x env now (.connectAuth a ref) (.error (.auth e))
  | connected (a : ConnectArgs) (ref : Nat) (claims : SessionClaims) :
      H.Ends x env now (.connectSet a ref claims)
        (.ok (.connectOk ⟨a.requestId, claims.subject, claims.expiresAt⟩))
  | gone (g : Gated) (absent : x.registry.get g.sessionId = none) :
      H.Ends x env now (.enter g) (.error (.sessionGone g.sessionId))
  | unconnected (g : Gated) (ref : Nat) (none_ : (x.heap ref).claims = none)
      (strict : ¬H.gate.allowAnonymous = true) :
      H.Ends x env now (.requireClaims g ref) (.error (.notConnected (x.heap ref).id))
  | denied (g : Gated) (ref : Nat) (claims : SessionClaims)
      (denies : H.gate.check env claims g.action g.channel = .ok .deny) :
      H.Ends x env now (.enforceAcl g ref claims)
        (.error (.acl (.denied claims.subject g.action.asStr g.channel "policy denied")))
  | unchecked (g : Gated) (ref : Nat) (claims : SessionClaims) {e : AclError}
      (fails : H.gate.check env claims g.action g.channel = .error e) :
      H.Ends x env now (.enforceAcl g ref claims) (.error (.acl e))
  | repeated (a : SubscribeArgs) (ref : Nat)
      (present : (x.heap ref).subscriptions.containsKey a.channel = true) :
      H.Ends x env now (.subscribeHas a ref) (.error (.alreadySubscribed a.sessionId a.channel))
  | unsubscribable (a : SubscribeArgs) (ref : Nat) {e : ChannelError}
      (refuses : (H.kinds.onSubscribe (x.kinds (H.kindFor a.channel)) now a.channel).2 =
        .error e) :
      H.Ends x env now (.subscribeKind a ref) (.error (.channel e))
  | subscribed (a : SubscribeArgs) (ref : Nat) (cursor : ChannelCursor) :
      H.Ends x env now (.subscribeIndex a ref cursor)
        (.ok (.subscribeOk ⟨a.requestId, a.channel, cursor.epoch, cursor.offset⟩))
  | unwound (a : SubscribeArgs) (ref : Nat) (stream : Option τ) (error : HubError) :
      H.Ends x env now (.subscribeUnwind a ref stream error) (.error error)
  | unregistered (a : UnsubscribeArgs) (absent : x.registry.get a.sessionId = none) :
      H.Ends x env now (.unsubscribe a) (.error (.sessionGone a.sessionId))
  | notSubscribed (a : UnsubscribeArgs) (ref : Nat)
      (absent : (x.heap ref).subscriptions.get a.channel = none) :
      H.Ends x env now (.unsubscribeRemove a ref) (.error (.notSubscribed a.sessionId a.channel))
  | unsubscribed (a : UnsubscribeArgs) (ref : Nat) {u : Unit}
      (accepts : (H.kinds.onUnsubscribe (x.kinds (H.kindFor a.channel)) now a.channel).2 = .ok u) :
      H.Ends x env now (.unsubscribeKind a ref) (.ok (.unsubscribeOk ⟨a.requestId, a.channel⟩))
  | unreleased (a : UnsubscribeArgs) (ref : Nat) {e : ChannelError}
      (refuses : (H.kinds.onUnsubscribe (x.kinds (H.kindFor a.channel)) now a.channel).2 =
        .error e) :
      H.Ends x env now (.unsubscribeKind a ref) (.error (.channel e))
  | invalid (a : PublishArgs) (ref : Nat) {e : SchemaError}
      (refuses : H.gate.validate env a.channel a.data = .error e) :
      H.Ends x env now (.publishValidate a ref) (.error (.schema e))
  | unstamped (a : PublishArgs) (ref : Nat) {e : ChannelError}
      (refuses : (H.kinds.onPublish (x.kinds (H.kindFor a.channel)) now a.channel a.data).2 =
        .error e) :
      H.Ends x env now (.publishKind a ref) (.error (.channel e))
  | published (a : PublishArgs) (ref : Nat) (p : Publication) {u : Unit}
      (takes : (H.broker.publish x.broker a.channel p).2 = .ok u) :
      H.Ends x env now (.publishBroker a ref p) (.ok (.published p))
  | unpublished (a : PublishArgs) (ref : Nat) (p : Publication) {e : BrokerError}
      (refuses : (H.broker.publish x.broker a.channel p).2 = .error e) :
      H.Ends x env now (.publishBroker a ref p) (.error (.broker e))
  | unknown (id : Nat) (absent : x.registry.get id = none) :
      H.Ends x env now (.kick id) (.ok (.kicked false))
  | removed (who : Closing) (id : Nat) (absent : x.registry.get id = none) :
      H.Ends x env now (.deregister who id) (.ok who.refused)

section Step

variable {H : Hub κ β τ ε} {x : Shared κ β τ} {n : Nat} {env : ε} {now : Nat} {c next : Call τ}
  {o : Outcome κ β τ} {result : Except HubError Response}

theorem Hub.ends_of_none (acts : H.act x n env now c = some o) (ended : o.next = none) :
    ∃ answer, o.events.head? = some (.returned n answer) ∧ H.Ends x env now c answer := by
  cases c with
  | subscribeSend a ref cursor stream rest =>
      cases rest <;> simp only [Hub.act] at acts <;> (repeat' split at acts) <;> cases acts <;>
        cases ended
  | _ =>
      simp only [Hub.act] at acts
      (repeat' split at acts) <;> cases acts <;>
        first | exact ⟨_, rfl, by constructor <;> assumption⟩ | cases ended

theorem Hub.ends (acts : H.act x n env now c = some o) (member : .returned n result ∈ o.events) :
    o.next = none ∧ H.Ends x env now c result := by
  have unlogged : .returned n result ∉ (H.eventOf x n env now c).toList := by
    rw [Option.mem_toList]
    exact eventOf_not_returned H x n env now c n result
  rcases (Hub.acted acts).logged with ⟨_, _, same⟩ | ⟨answer, ended, same⟩
  · rw [same] at member
    exact absurd member unlogged
  · obtain ⟨other, first, ends⟩ := Hub.ends_of_none acts ended
    rw [same] at member first
    cases first
    rcases List.mem_cons.mp member with returns | logged
    · cases returns
      exact ⟨ended, ends⟩
    · exact absurd logged unlogged

theorem goes_serves (goes : H.Goes x env now c next) : next.serves = c.serves := by
  cases goes <;> rfl

end Step

section Adds

variable {H : Hub κ β τ ε} {s t : State κ β τ} {l : Label ε}

theorem step_claims (h : H.step s l = some t) (r : Nat) :
    (t.shared.heap r).claims = (s.shared.heap r).claims ∨
      ∃ n env now c, l = .advance n env now ∧ s.calls n = some c ∧
        (t.shared.heap r).claims = H.claimsAfter s.shared c r := by
  cases Hub.stepped h with
  | start r => exact .inl rfl
  | @advance n env now c o at_ acts =>
      refine .inr ⟨n, env, now, c, rfl, at_, ?_⟩
      rw [(quiet_after s n c o).claims, (Hub.acted acts).claims]
  | forward task moves => exact .inl (((Hub.forwarded moves).frame task).claims r)
  | transport quiet sheds => exact .inl (quiet.claims r)

def Event.caller : Event → Nat
  | .authenticated n _ _ _ | .checked n _ _ _ _ _ | .validated n _ _ _ _ | .onSubscribe n _ _ _
  | .onUnsubscribe n _ _ _ | .onPublish n _ _ _ _ | .replaySince n _ _ _ _
  | .brokerSubscribe n _ _ _ | .brokerPublish n _ _ _ _ | .enqueued n _ _ _ | .lagged n _
  | .removed n _ | .returned n _ => n

/-- Everything in the history was done by a call that has been made. -/
def State.Dated (s : State κ β τ) : Prop := ∀ e ∈ s.log, e.caller < s.nextCall

theorem logs_caller {x : Shared κ β τ} {n : Nat} {env : ε} {now : Nat} {c : Call τ} {e : Event}
    (logs : H.Logs x n env now c e) : e.caller = n := by
  cases logs <;> rfl

theorem Event.caller_of_delivery {e : Event} {f : Nat} (h : e.delivery = some f) : e.caller = f := by
  cases e with
  | enqueued | lagged => exact Option.some.inj h
  | _ => cases h

theorem step_dated (staged : s.Staged) (g : s.Dated) (h : H.step s l = some t) : t.Dated := by
  intro e member
  refine Nat.lt_of_lt_of_le ?_ (step_nextCall_le h)
  rcases step_logs h member with old | ⟨n, env, now, c, -, called, logs | ⟨result, rfl⟩⟩ |
    ⟨f, move, w, -, task, delivers⟩
  · exact g e old
  · rw [logs_caller logs]
    exact staged.calls n c called
  · exact staged.calls n c called
  · rw [Event.caller_of_delivery delivers]
    exact staged.forwarders f w task

theorem run_dated {ok : State κ β τ → Label ε → Prop} {kinds : Nat → κ} {broker : β}
    (run : H.machine.Run ok (State.initial kinds broker) s) : s.Dated := by
  have both : s.Staged ∧ s.Dated := by
    refine run.invariant (I := fun s => s.Staged ∧ s.Dated)
      ⟨initial_staged kinds broker, fun _ => nofun⟩ ?_
    rintro s l t ⟨staged, g⟩ - h
    exact ⟨step_staged staged h, step_dated staged g h⟩
  exact both.2

theorem step_count_others {n : Nat} {p : Event → Bool}
    (own : ∀ e, p e = true → e.caller = n ∧ e.delivery = none)
    (others : ∀ env now, l ≠ .advance n env now) (h : H.step s l = some t) :
    t.log.countP p = s.log.countP p := by
  cases Hub.stepped h with
  | start r => rfl
  | @advance m env now c o at_ acts =>
      rw [after_log, List.countP_append, Nat.add_eq_right, List.countP_eq_zero]
      intro e member counted
      obtain ⟨caller, -⟩ := own e counted
      have same : m = n := by
        rcases (Hub.acted acts).event member with logs | ⟨result, rfl⟩
        · exact (logs_caller logs).symm.trans caller
        · exact caller
      exact others env now (same ▸ rfl)
  | forward task moves =>
      rw [List.countP_append, Nat.add_eq_right, List.countP_eq_zero]
      intro e member counted
      obtain ⟨-, undelivered⟩ := own e counted
      cases Hub.forwarded moves with
      | lagged | sent =>
          cases List.mem_singleton.mp member
          cases undelivered
      | _ => cases member
  | transport quiet sheds => rfl

theorem act_count {x : Shared κ β τ} {n : Nat} {env : ε} {now : Nat} {c : Call τ}
    {o : Outcome κ β τ} {p : Event → Bool} (silent : ∀ m result, p (.returned m result) = false)
    (acts : H.act x n env now c = some o) :
    o.events.countP p = (H.eventOf x n env now c).toList.countP p := by
  rcases (Hub.acted acts).logged with ⟨_, _, same⟩ | ⟨result, _, same⟩
  · rw [same]
  · rw [same, List.countP_cons_of_neg]
    simp [silent]

theorem step_task_others {n : Nat} (others : ∀ env now, l ≠ .advance n env now)
    (h : H.step s l = some t) {w' : Forwarder τ} (found : t.shared.forwarders n = some w') :
    ∃ w, s.shared.forwarders n = some w ∧ w'.session = w.session ∧ w'.channel = w.channel ∧
      (w.aborted = true → w'.aborted = true) := by
  rcases step_task h found with ⟨env, now, _, _, _, _, moved, -⟩ | ⟨w, older, follows⟩
  · exact absurd moved (others env now)
  · exact ⟨w, older, follows.session, follows.channel, follows.aborted⟩

end Adds

section Rule

variable {H : Hub κ β τ ε} {s t : State κ β τ} {l : Label ε} {n : Nat}
  {result : Except HubError Response}

/-- An answer is older than the step, or the step is the last one of the call. -/
theorem step_ends (h : H.step s l = some t) (member : .returned n result ∈ t.log) :
    .returned n result ∈ s.log ∨ ∃ env now c, l = .advance n env now ∧ s.calls n = some c ∧
      H.Ends s.shared env now c result := by
  rcases step_returned h member with old | ⟨env, now, _, rfl, -⟩
  · exact .inl old
  · obtain ⟨c, o, called, acts, rfl⟩ := Hub.step_advance h
    rw [after_log] at member
    rcases List.mem_append.mp member with new | old
    · exact .inr ⟨env, now, c, rfl, called, (Hub.ends acts new).2⟩
    · exact .inl old

/-- The call is known, in flight only where `Q` holds, and answered only as `R` allows. -/
structure State.Course (s : State κ β τ) (n : Nat) (Q : Call τ → Prop)
    (R : Except HubError Response → Prop) : Prop where
  known : n < s.nextCall
  called : ∀ c, s.calls n = some c → Q c
  answered : ∀ result, .returned n result ∈ s.log → R result

variable {Q : Call τ → Prop} {R : Except HubError Response → Prop}

theorem start_course (staged : s.Staged) {r : Request} (entry : Q r.entry)
    (h : H.step s (.start r) = some t) : t.Course s.nextCall Q R := by
  cases h
  refine ⟨Nat.lt_succ_self _, ?_, ?_⟩
  · intro c found
    cases (Function.update_self s.nextCall (some r.entry) s.calls).symm.trans found
    exact entry
  · intro result member
    exact absurd (staged.returned _ _ member).1 (Nat.lt_irrefl _)

theorem step_course (goes : ∀ x env now c next, Q c → H.Goes x env now c next → Q next)
    (ends : ∀ x env now c result, Q c → H.Ends x env now c result → R result)
    (course : s.Course n Q R) (h : H.step s l = some t) : t.Course n Q R := by
  refine ⟨Nat.lt_of_lt_of_le course.known (step_nextCall_le h), ?_, ?_⟩
  · intro c found
    rcases step_call h found with old | ⟨r, -, fresh, -⟩ | ⟨env, now, before, -, called, next⟩
    · exact course.called c old
    · exact absurd course.known (fresh ▸ Nat.lt_irrefl _)
    · exact goes _ _ _ _ _ (course.called before called) next
  · intro result member
    rcases step_ends h member with old | ⟨env, now, c, -, called, ended⟩
    · exact course.answered result old
    · exact ends _ _ _ _ _ (course.called c called) ended

/-- The rule for one call, from its start to the end of any run. -/
theorem run_course {ok : State κ β τ → Label ε → Prop} {kinds : Nat → κ} {broker : β}
    (goes : ∀ x env now c next, Q c → H.Goes x env now c next → Q next)
    (ends : ∀ x env now c result, Q c → H.Ends x env now c result → R result)
    (run : H.machine.Run ok (State.initial kinds broker) s) {r : Request} (entry : Q r.entry)
    {ls : List (Label ε)} (ran : H.machine.exec s (.start r :: ls) = some t) :
    t.Course s.nextCall Q R := by
  obtain ⟨u, started, rest⟩ := Option.bind_eq_some_iff.mp ran
  exact Machine.exec_invariant (P := fun _ => True) (I := fun s' => s'.Course s.nextCall Q R)
    (fun _ _ _ course _ h => step_course goes ends course h)
    (start_course (H := H) (run_staged run) entry started) (fun _ _ => trivial) rest

end Rule

section Validated

variable {H : Hub κ β τ ε} {s t : State κ β τ}

/-- The call publishes `a`, and past the validator it has its consent. -/
def Call.Publishes (H : Hub κ β τ ε) (a : PublishArgs) : Call τ → Prop
  | .enter g | .requireClaims g _ | .seedClaims g _ | .enforceAcl g _ _ => g = .publish a
  | .publishValidate b _ => b = a
  | .publishKind b _ | .publishBroker b _ _ =>
      b = a ∧ ∃ env, H.gate.validate env a.channel a.data = .ok ()
  | _ => False

theorem goes_publishes {a : PublishArgs} {x : Shared κ β τ} {env : ε} {now : Nat} {c next : Call τ}
    (publishes : c.Publishes H a) (goes : H.Goes x env now c next) : next.Publishes H a := by
  cases goes with
  | publishable b ref claims allows => exact Gated.publish.inj publishes
  | subscribable b ref claims allows => cases publishes
  | validated b ref accepts =>
      cases publishes
      exact ⟨rfl, env, accepts⟩
  | _ => exact publishes

theorem published_validated {ok : State κ β τ → Label ε → Prop} {kinds : Nat → κ} {broker : β}
    (run : H.machine.Run ok (State.initial kinds broker) s) {a : PublishArgs}
    {ls : List (Label ε)} (ran : H.machine.exec s (.start (.publish a) :: ls) = some t)
    {p : Publication} (returned : .returned s.nextCall (.ok (.published p)) ∈ t.log) :
    ∃ env, H.gate.validate env a.channel a.data = .ok () := by
  have entry : (Request.publish a).entry.Publishes H a := rfl
  have course := run_course (Q := Call.Publishes H a)
    (R := fun result => ∀ p, result = .ok (.published p) →
      ∃ env, H.gate.validate env a.channel a.data = .ok ())
    (fun _ _ _ _ _ => goes_publishes) ?_ run entry ran
  · exact course.answered _ returned p rfl
  · intro x env now c result publishes ends p same
    cases ends with
    | published b ref q takes => exact publishes.2
    | measured m len => exact publishes.elim
    | removed who id absent => exact publishes.elim
    | _ => cases same

end Validated

section Kinds

variable {H : Hub κ β τ ε} {s t : State κ β τ} {l : Label ε}

/-- Every method of the kind keeps `P`. -/
structure ChannelKind.Keeps (K : ChannelKind κ) (P : κ → Prop) : Prop where
  onSubscribe : ∀ kind now channel, P kind → P (K.onSubscribe kind now channel).1
  onUnsubscribe : ∀ kind now channel, P kind → P (K.onUnsubscribe kind now channel).1
  onPublish : ∀ kind now channel data, P kind → P (K.onPublish kind now channel data).1
  replaySince : ∀ kind now channel since, P kind → P (K.replaySince kind now channel since).1

theorem update_forall {P : Nat → κ → Prop} {kinds : Nat → κ} (all : ∀ k, P k (kinds k)) {i : Nat}
    {kind : κ} (new : P i kind) (k : Nat) : P k (Function.update kinds i kind k) := by
  rw [Function.update_apply]
  split
  · next same =>
      rw [same]
      exact new
  · exact all k

theorem kindsAfter_keeps {P : Nat → κ → Prop} (keeps : ∀ k, H.kinds.Keeps (P k))
    {x : Shared κ β τ} (now : Nat) (c : Call τ) (all : ∀ k, P k (x.kinds k)) (k : Nat) :
    P k (H.kindsAfter x now c k) := by
  cases c with
  | subscribeKind a ref => exact update_forall all ((keeps _).onSubscribe _ _ _ (all _)) k
  | subscribeReplay a ref cursor stream =>
      exact update_forall all ((keeps _).replaySince _ _ _ _ (all _)) k
  | subscribeUnwind a ref stream error =>
      exact update_forall all ((keeps _).onUnsubscribe _ _ _ (all _)) k
  | unsubscribeKind a ref => exact update_forall all ((keeps _).onUnsubscribe _ _ _ (all _)) k
  | publishKind a ref => exact update_forall all ((keeps _).onPublish _ _ _ _ (all _)) k
  | _ => exact all k

theorem after_kinds {n : Nat} {env : ε} {now : Nat} {c : Call τ} {o : Outcome κ β τ}
    (acts : H.act s.shared n env now c = some o) :
    (s.after n c o).shared.kinds = H.kindsAfter s.shared now c :=
  (quiet_after s n c o).kinds.trans (Hub.acted acts).kinds

theorem step_keeps {P : Nat → κ → Prop} (keeps : ∀ k, H.kinds.Keeps (P k))
    (all : ∀ k, P k (s.shared.kinds k)) (h : H.step s l = some t) (k : Nat) :
    P k (t.shared.kinds k) := by
  cases Hub.stepped h with
  | start r => exact all k
  | @advance n env now c o at_ acts =>
      rw [after_kinds acts]
      exact kindsAfter_keeps keeps now c all k
  | forward task moves =>
      rw [((Hub.forwarded moves).frame task).kinds]
      exact all k
  | transport quiet sheds =>
      rw [quiet.kinds]
      exact all k

theorem step_keeps_one {P : κ → Prop} (keeps : H.kinds.Keeps P) {k : Nat}
    (before : P (s.shared.kinds k)) (h : H.step s l = some t) : P (t.shared.kinds k) := by
  refine step_keeps (P := fun j kind => j = k → P kind) ?_ ?_ h k rfl
  · intro j
    exact ⟨fun _ _ _ before here => keeps.onSubscribe _ _ _ (before here),
      fun _ _ _ before here => keeps.onUnsubscribe _ _ _ (before here),
      fun _ _ _ _ before here => keeps.onPublish _ _ _ _ (before here),
      fun _ _ _ _ before here => keeps.replaySince _ _ _ _ (before here)⟩
  · rintro j rfl
    exact before

end Kinds

end Cherenkov
