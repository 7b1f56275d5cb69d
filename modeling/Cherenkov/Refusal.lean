import Cherenkov.Policy

/-! The other half of the configured policy: a client that is refused by the gate was refused for a
reason that the configuration gives. A refusal is traced from the answer of the call to the answer
of the plugin that it reports, and from the step that asked the plugin to the request that the call
serves. -/

namespace Cherenkov

variable {ν ω δ υ δ' β τ κ ε : Type}

/-- The errors of the gate: the other ones come from the registry, a kind or the broker. -/
def HubError.fromGate : HubError → Bool
  | .auth _ | .acl _ | .schema _ | .notConnected _ | .alreadyConnected _ => true
  | _ => false

/-- Call `n`, which serves `r`, has been told by a plugin what it answers with. -/
def Reported (anonymous : Bool) (n : Nat) (r : Request) (log : List Event) : HubError → Prop
  | .auth e => ∃ a ref, r = .connect a ∧ .authenticated n ref a.token (.error e) ∈ log
  | .acl e => ∃ (g : Gated) (ref : Nat) (claims : SessionClaims)
      (result : Except AclError AclDecision), r = g.request ∧
      .checked n ref claims g.action g.channel result ∈ log ∧
      (result = .error e ∨ result = .ok .deny ∧
        e = .denied claims.subject g.action.asStr g.channel "policy denied")
  | .schema e => ∃ a ref, r = .publish a ∧ .validated n ref a.channel a.data (.error e) ∈ log
  | .notConnected _ => anonymous = false ∧ ∃ g : Gated, r = g.request
  | .alreadyConnected _ => anonymous = false ∧ ∃ a, r = .connect a
  | _ => True

section Reports

variable {anonymous : Bool} {n : Nat} {r : Request} {log : List Event} {e : HubError}

theorem Reported.mono {log' : List Event} (reported : Reported anonymous n r log e)
    (grown : log <:+ log') : Reported anonymous n r log' e := by
  cases e with
  | auth e =>
      obtain ⟨a, ref, same, member⟩ := reported
      exact ⟨a, ref, same, grown.subset member⟩
  | acl e =>
      obtain ⟨g, ref, claims, result, same, member, answer⟩ := reported
      exact ⟨g, ref, claims, result, same, grown.subset member, answer⟩
  | schema e =>
      obtain ⟨a, ref, same, member⟩ := reported
      exact ⟨a, ref, same, grown.subset member⟩
  | _ => exact reported

theorem reported_of_elsewhere (elsewhere : e.fromGate = false) :
    Reported anonymous n r log e := by
  cases e <;> trivial

end Reports

/-- What is unwound is not an error of the gate. -/
def Call.Unwinds : Call τ → Prop
  | .subscribeUnwind _ _ _ e => e.fromGate = false
  | _ => True

theorem entry_serves {r r' : Request} (serves : (r.entry : Call τ).serves = some r') : r = r' := by
  cases r <;> cases serves <;> rfl

theorem entry_unwinds (r : Request) : (r.entry : Call τ).Unwinds := by
  cases r <;> trivial

section Step

variable {H : Hub κ β τ ε} {x : Shared κ β τ} {n : Nat} {env : ε} {now : Nat} {c next : Call τ}

theorem Hub.Acted.mem_events {o : Outcome κ β τ} (acted : H.Acted x n env now c o) {event : Event}
    (logged : H.eventOf x n env now c = some event) : event ∈ o.events := by
  have member : event ∈ (H.eventOf x n env now c).toList := Option.mem_toList.mpr logged
  rcases acted.logged with ⟨_, _, same⟩ | ⟨_, _, same⟩
  · rw [same]
    exact member
  · rw [same]
    exact List.mem_cons_of_mem _ member

theorem goes_unwinds (goes : H.Goes x env now c next) : next.Unwinds := by
  cases goes with
  | unattached a ref cursor refuses => rfl
  | unreplayed a ref cursor stream refuses => rfl
  | unsent a ref cursor stream p rest closed => rfl
  | stopped a ref => rfl
  | _ => trivial

/-- A call that ends with an error of the gate has just logged what it was told. -/
theorem ends_reported {r : Request} {e : HubError} {log : List Event}
    (serves : c.serves = (r.entry : Call τ).serves) (unwinds : c.Unwinds)
    (logged : ∀ event, H.eventOf x n env now c = some event → event ∈ log)
    (ends : H.Ends x env now c (.error e)) : Reported H.gate.allowAnonymous n r log e := by
  cases ends with
  | unauthenticated a ref refuses =>
      refine ⟨a, ref, entry_serves serves.symm, logged _ ?_⟩
      rw [← refuses]
      rfl
  | denied g ref claims denies =>
      exact ⟨g, ref, claims, _, entry_serves serves.symm, logged _ rfl, .inr ⟨denies, rfl⟩⟩
  | unchecked g ref claims fails =>
      exact ⟨g, ref, claims, _, entry_serves serves.symm, logged _ rfl, .inl fails⟩
  | invalid a ref refuses =>
      refine ⟨a, ref, entry_serves serves.symm, logged _ ?_⟩
      rw [← refuses]
      rfl
  | unconnected g ref none_ strict =>
      exact ⟨Bool.eq_false_iff.mpr strict, g, entry_serves serves.symm⟩
  | reconnecting a ref claimed =>
      refine ⟨?_, a, entry_serves serves.symm⟩
      exact (Bool.not_eq_true' _).mp (Bool.and_eq_true_iff.mp claimed).2
  | unwound a ref stream error => exact reported_of_elsewhere unwinds
  | _ => trivial

end Step

/-- The call serves the request while it is in flight, and reports what it was told. -/
structure State.Answering (anonymous : Bool) (n : Nat) (r : Request) (s : State κ β τ) : Prop where
  course : s.Course n (fun c => c.serves = (r.entry : Call τ).serves ∧ c.Unwinds) fun _ => True
  answered : ∀ e, .returned n (.error e) ∈ s.log → Reported anonymous n r s.log e

section Run

variable {H : Hub κ β τ ε} {s t : State κ β τ} {l : Label ε} {n : Nat} {r : Request}

theorem start_answering {anonymous : Bool} (staged : s.Staged)
    (h : H.step s (.start r) = some t) : t.Answering anonymous s.nextCall r := by
  constructor
  · exact start_course staged ⟨rfl, entry_unwinds r⟩ h
  · intro e member
    cases h
    exact absurd (staged.returned _ _ member).1 (Nat.lt_irrefl _)

theorem step_answering (answering : s.Answering H.gate.allowAnonymous n r)
    (h : H.step s l = some t) : t.Answering H.gate.allowAnonymous n r := by
  constructor
  · refine step_course ?_ (fun _ _ _ _ _ _ _ => trivial) answering.course h
    intro x env now c next held goes
    exact ⟨(goes_serves goes).trans held.1, goes_unwinds goes⟩
  · intro e member
    rcases step_returned h member with old | ⟨env, now, _, rfl, -⟩
    · exact (answering.answered e old).mono (step_log h)
    · obtain ⟨c, o, called, acts, rfl⟩ := Hub.step_advance h
      rw [after_log] at member ⊢
      rcases List.mem_append.mp member with new | old
      · obtain ⟨serves, unwinds⟩ := answering.course.called c called
        refine ends_reported serves unwinds ?_ (Hub.ends acts new).2
        intro event logged
        exact List.mem_append_left _ ((Hub.acted acts).mem_events logged)
      · exact (answering.answered e old).mono (List.suffix_append _ _)

theorem run_answering {ok : State κ β τ → Label ε → Prop} {kinds : Nat → κ} {broker : β}
    (run : H.machine.Run ok (State.initial kinds broker) s) {ls : List (Label ε)}
    (ran : H.machine.exec s (.start r :: ls) = some t) :
    t.Answering H.gate.allowAnonymous s.nextCall r := by
  obtain ⟨u, started, rest⟩ := Option.bind_eq_some_iff.mp ran
  have begun : u.Answering H.gate.allowAnonymous s.nextCall r :=
    start_answering (H := H) (run_staged run) started
  refine (Machine.exec_run rest).invariant begun ?_
  intro s l t answering _ h
  exact step_answering answering h

end Run

/-- The request that call `n` serves is one that the sections refuse. -/
def ServerConfig.Warrants (host : Host ν ω δ υ δ' β τ) (config : ServerConfig ν)
    (clock : Nat → Option Nat) (log : List Event) (n : Nat) (r : Request) : HubError → Prop
  | .auth _ => ∃ a now, r = .connect a ∧ clock n = some now ∧
      ∀ claims, ¬config.Vouches host now a.token claims
  | .acl e => ∃ (g : Gated) (ref : Nat) (claims : SessionClaims), r = g.request ∧
      .checked n ref claims g.action g.channel (.ok .deny) ∈ log ∧
      config.Identifies host clock log ref claims ∧
      ¬config.Permits host claims g.action g.channel ∧
      e = .denied claims.subject g.action.asStr g.channel "policy denied"
  | .schema _ => ∃ a, r = .publish a ∧ ¬config.Conforms host a.channel a.data
  | .notConnected _ => config.auth ≠ none ∧ ∃ g : Gated, r = g.request
  | .alreadyConnected _ => config.auth ≠ none ∧ ∃ a, r = .connect a
  | _ => True

theorem ServerConfig.Observed.identified {host : Host ν ω δ υ δ' β τ} {config : ServerConfig ν}
    {clock : Nat → Option Nat} {anonymous : Bool} {log : List Event}
    (observed : config.Observed host clock anonymous log) {n ref : Nat} {claims : SessionClaims} {action : AclAction} {channel : String}
    {result : Except AclError AclDecision}
    (member : .checked n ref claims action channel result ∈ log) :
    config.Identifies host clock log ref claims := by
  obtain ⟨later, earlier, rfl, ⟨-, identified⟩, -⟩ := observed.governs.of_mem member
  exact (identified.append [_]).append later

theorem ServerConfig.Observed.warrants {host : Host ν ω δ υ δ' β τ} {config : ServerConfig ν}
    {clock : Nat → Option Nat} {anonymous : Bool} {log : List Event}
    (observed : config.Observed host clock anonymous log) {n : Nat} {r : Request} {e : HubError} (reported : Reported anonymous n r log e) :
    config.Warrants host clock log n r e := by
  have strict (closed : anonymous = false) : config.auth ≠ none := by
    intro absent
    cases closed.symm.trans (observed.closed.mpr absent)
  cases e with
  | auth e =>
      obtain ⟨a, ref, same, member⟩ := reported
      obtain ⟨now, reading, vouched⟩ := observed.decided _ member
      refine ⟨a, now, same, reading, ?_⟩
      intro claims vouches
      cases (vouched claims).mpr vouches
  | acl e =>
      obtain ⟨g, ref, claims, result, same, member, answer⟩ := reported
      obtain ⟨decision, decided, permits⟩ := observed.decided _ member
      rcases answer with rfl | ⟨rfl, rfl⟩
      · cases decided
      · refine ⟨g, ref, claims, same, member, observed.identified member, ?_, rfl⟩
        intro permitted
        rw [permits.mpr permitted] at decided
        cases decided
  | schema e =>
      obtain ⟨a, ref, same, member⟩ := reported
      refine ⟨a, same, ?_⟩
      intro conforms
      cases (observed.decided _ member).mpr conforms
  | notConnected id => exact ⟨strict reported.1, reported.2⟩
  | alreadyConnected id => exact ⟨strict reported.1, reported.2⟩
  | _ => trivial

/-- Whatever configuration is accepted, and whatever happens before and during a call: if its
answer is an error of the gate, the sections refuse this very request, of this token at the
reading at which it was checked, of these claims of the session or of this payload. -/
theorem refusals_warranted {host : Host ν ω δ υ δ' β τ} {config : ServerConfig ν}
    {built : HubBuilt (AnyKind δ δ') β τ Nat} (accepted : buildHub host config = .ok built)
    {s t : State (AnyKind δ δ') β τ} {before ls : List (Label Nat)}
    (reached : built.hub.machine.exec built.boot before = some s) {r : Request}
    (ran : built.hub.machine.exec s (.start r :: ls) = some t) {e : HubError}
    (returned : .returned s.nextCall (.error e) ∈ t.log) :
    config.Warrants host (readings (built.hub.machine.path built.boot (before ++ .start r :: ls)))
      t.log s.nextCall r e := by
  have whole : built.hub.machine.exec built.boot (before ++ .start r :: ls) = some t := by
    rw [Machine.exec_append, reached, Option.bind_some, ran]
  have answering := run_answering (Machine.exec_run reached) ran
  exact (buildHub_observed accepted whole).warrants (answering.answered e returned)

def lateConnect : List (Label Nat) :=
  .start (.connect ⟨0, 1, "bare"⟩) :: List.replicate 3 (.advance 1 3000 0)

/-- A token that is good until 2000 is refused at 3000. `alice`, whose token was good at 1000,
publishes where no rule lets anybody. -/
theorem refusals_warranted_elsewhere :
    ∃ built, buildHub naming sectioned = .ok built ∧
      (∃ s t, built.hub.machine.exec built.boot
          (.start (.openSession 16) :: List.replicate 5 (.advance 0 1000 0)) = some s ∧
        built.hub.machine.exec s lateConnect = some t ∧
        .returned s.nextCall (.error (.auth (.invalidToken "ExpiredSignature"))) ∈ t.log ∧
        sectioned.Warrants naming (readings (built.hub.machine.path built.boot
            ((.start (.openSession 16) :: List.replicate 5 (.advance 0 1000 0)) ++ lateConnect)))
          t.log s.nextCall (.connect ⟨0, 1, "bare"⟩) (.auth (.invalidToken "ExpiredSignature"))) ∧
      ∃ s t, built.hub.machine.exec built.boot sectionedRun = some s ∧
        built.hub.machine.exec s
          (.start (.publish ⟨0, "docs", [1]⟩) :: List.replicate 3 (.advance 5 1000 0)) = some t ∧
        .returned s.nextCall (.error (.acl (.denied "alice" "publish" "docs" "policy denied"))) ∈
          t.log ∧
        sectioned.Warrants naming (readings (built.hub.machine.path built.boot (sectionedRun ++
            .start (.publish ⟨0, "docs", [1]⟩) :: List.replicate 3 (.advance 5 1000 0))))
          t.log s.nextCall (.publish ⟨0, "docs", [1]⟩)
          (.acl (.denied "alice" "publish" "docs" "policy denied")) := by
  have reached : ∃ built, buildHub naming sectioned = .ok built ∧
      (∃ s, built.hub.machine.exec built.boot
          (.start (.openSession 16) :: List.replicate 5 (.advance 0 1000 0)) = some s ∧
        built.hub.machine.Run Machine.free built.boot s ∧
        ((built.hub.machine.exec s lateConnect).any fun t => decide (.returned s.nextCall
            (.error (.auth (.invalidToken "ExpiredSignature"))) ∈ t.log)) = true) ∧
      ∃ s, built.hub.machine.exec built.boot sectionedRun = some s ∧
        built.hub.machine.Run Machine.free built.boot s ∧
        ((built.hub.machine.exec s (.start (.publish ⟨0, "docs", [1]⟩) ::
          List.replicate 3 (.advance 5 1000 0))).any fun t => decide (.returned s.nextCall
            (.error (.acl (.denied "alice" "publish" "docs" "policy denied"))) ∈ t.log)) = true :=
    ⟨_, rfl, Machine.exec_witness _ _ (by decide +kernel),
      Machine.exec_witness _ _ (by decide +kernel)⟩
  obtain ⟨built, accepted, ⟨s, opened, -, answers⟩, s', reached, -, answers'⟩ := reached
  obtain ⟨t, ran, answer⟩ := (Option.any_eq_true _ _).mp answers
  obtain ⟨t', ran', answer'⟩ := (Option.any_eq_true _ _).mp answers'
  have returned := of_decide_eq_true answer
  have returned' := of_decide_eq_true answer'
  exact ⟨built, accepted,
    ⟨s, t, opened, ran, returned, refusals_warranted accepted opened ran returned⟩,
    s', t', reached, ran', returned', refusals_warranted accepted reached ran' returned'⟩

end Cherenkov
