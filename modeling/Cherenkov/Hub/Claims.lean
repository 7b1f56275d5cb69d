import Cherenkov.Hub.Course
import Cherenkov.Hub.Flow

/-! `handle_connect` checks that the session has no claims, waits for the authenticator, and only
then stores the claims. As long as no two calls on one session are between the two at the same time,
claims are stored once, and every ACL decision of a session is taken for the subject that was
authenticated first. -/

namespace Cherenkov

variable {κ β τ ε : Type}

/-- The session of a connect call that has made its check and has not stored claims. -/
def Call.connecting : Call τ → Option Nat
  | .connectAuth _ ref | .connectSet _ ref _ => some ref
  | _ => none

/-- When a connect call makes its check, no other one on the same session is past it. -/
def ConnectsAlone (s : State κ β τ) (l : Label ε) : Prop :=
  ∀ n env now a ref, l = .advance n env now → s.calls n = some (.connectClaims a ref) →
    ∀ m c, s.calls m = some c → c.connecting ≠ some ref

/-- Call `n` was authenticated for the session and returned `ConnectOk`. -/
def State.ConnectedBy (s : State κ β τ) (n ref : Nat) : Prop :=
  (∃ token claims, .authenticated n ref token (.ok claims) ∈ s.log) ∧
    ∃ ok, .returned n (.ok (.connectOk ok)) ∈ s.log

structure State.ClaimedOnce (s : State κ β τ) : Prop where
  unborn : ∀ ref, s.shared.nextRef ≤ ref → (s.shared.heap ref).claims = none
  unseeded : ∀ m g ref, s.calls m ≠ some (.seedClaims g ref)
  pending : ∀ m c ref, s.calls m = some c → c.connecting = some ref →
    (s.shared.heap ref).claims = none
  single : ∀ m m' c c' ref, s.calls m = some c → s.calls m' = some c' →
    c.connecting = some ref → c'.connecting = some ref → m = m'
  asked : ∀ n ref token result, .authenticated n ref token result ∈ s.log →
    n < s.nextCall ∧ ∀ c, s.calls n = some c → ∃ a claims, c = .connectSet a ref claims
  connected : ∀ n ref, s.ConnectedBy n ref → (s.shared.heap ref).claims ≠ none
  once : ∀ n m ref, s.ConnectedBy n ref → s.ConnectedBy m ref → n = m
  acting : ∀ m g ref claims, s.calls m = some (.enforceAcl g ref claims) →
    (s.shared.heap ref).claims = some claims
  decided : ∀ n ref claims action channel result,
    .checked n ref claims action channel result ∈ s.log →
    (s.shared.heap ref).claims = some claims

section Step

variable {H : Hub κ β τ ε} {s t : State κ β τ} {l : Label ε}

/-- Claims change only where a connect call stores them, and there were none before. -/
theorem State.ClaimedOnce.stores (strict : H.gate.allowAnonymous = false) (g : s.ClaimedOnce)
    (h : H.step s l = some t) (r : Nat) :
    (t.shared.heap r).claims = (s.shared.heap r).claims ∨
      ∃ n env now a claims, l = .advance n env now ∧ s.calls n = some (.connectSet a r claims) ∧
        (s.shared.heap r).claims = none ∧ (t.shared.heap r).claims = some claims := by
  rcases step_claims h r with same | ⟨n, env, now, c, rfl, called, changed⟩
  · exact .inl same
  cases c with
  | openSession capacity =>
      left
      simp only [Hub.claimsAfter, strict, Function.update_apply] at changed
      rw [changed]
      split
      · next fresh => rw [g.unborn r (Nat.le_of_eq fresh.symm)]; rfl
      · rfl
  | connectSet a ref claims =>
      simp only [Hub.claimsAfter, Function.update_apply] at changed
      split at changed
      · next same =>
          subst same
          exact .inr ⟨n, env, now, a, claims, rfl, called, g.pending n _ r called rfl, changed⟩
      · exact .inl changed
  | seedClaims gated ref => exact absurd called (g.unseeded n gated ref)
  | _ => exact .inl changed

theorem State.ClaimedOnce.steady (strict : H.gate.allowAnonymous = false) (g : s.ClaimedOnce)
    (h : H.step s l = some t) {r : Nat} {claims : SessionClaims}
    (has : (s.shared.heap r).claims = some claims) : (t.shared.heap r).claims = some claims := by
  rcases g.stores strict h r with same | ⟨n, env, now, a, other, -, -, absent, -⟩
  · rw [same, has]
  · rw [has] at absent
    cases absent

theorem step_connecting (h : H.step s l = some t) {m ref : Nat} {d : Call τ}
    (found : t.calls m = some d) (past : d.connecting = some ref) :
    (∃ c, s.calls m = some c ∧ c.connecting = some ref) ∨
      ∃ env now a, l = .advance m env now ∧ s.calls m = some (.connectClaims a ref) ∧
        ¬((s.shared.heap ref).claims.isSome && !H.gate.allowAnonymous) = true := by
  rcases step_call h found with old | ⟨r, -, -, rfl⟩ | ⟨env, now, c, rfl, called, goes⟩
  · exact .inl ⟨d, old, past⟩
  · cases r <;> cases past
  · cases goes with
    | unconnected a ref' unclaimed =>
        cases past
        exact .inr ⟨env, now, a, rfl, called, unclaimed⟩
    | authenticated a ref' accepts => exact .inl ⟨_, called, past⟩
    | _ => cases past

/-- Who stores claims has returned, so nobody on the session is past the check any more. -/
theorem step_connectSet {n : Nat} {env : ε} {now : Nat} (h : H.step s (.advance n env now) = some t)
    {a : ConnectArgs} {ref : Nat} {claims : SessionClaims}
    (called : s.calls n = some (.connectSet a ref claims)) :
    t.calls n = none ∧ (t.shared.heap ref).claims = some claims := by
  constructor
  · cases found : t.calls n with
    | none => rfl
    | some d =>
        obtain ⟨c, called', goes⟩ := step_own h found
        cases called.symm.trans called'
        cases goes
  · obtain ⟨c, o, called', acts, rfl⟩ := Hub.step_advance h
    cases called.symm.trans called'
    rw [(quiet_after s n _ o).claims, (Hub.acted acts).claims]
    exact Function.update_self ref (some claims) fun r => (s.shared.heap r).claims

theorem State.ClaimedOnce.connects (g : s.ClaimedOnce) (staged : s.Staged) (h : H.step s l = some t)
    {n ref : Nat} (connected : t.ConnectedBy n ref) :
    s.ConnectedBy n ref ∨ ∃ env now a claims, l = .advance n env now ∧
      s.calls n = some (.connectSet a ref claims) := by
  obtain ⟨⟨token, claims, asked⟩, ok, returned⟩ := connected
  have asks : .authenticated n ref token (.ok claims) ∈ s.log ∨
      ∃ a env now, l = .advance n env now ∧ s.calls n = some (.connectAuth a ref) := by
    rcases step_logs h asked with old | ⟨m, env, now, c, own, called, logs | ⟨_, ⟨⟩⟩⟩ | ⟨_, _, _, _, _, ⟨⟩⟩
    · exact .inl old
    · cases logs with
      | authenticated a _ answer => exact .inr ⟨a, env, now, own, called⟩
  rcases step_ends h returned with old | ⟨env, now, c, own, called, ends⟩
  · rcases asks with before | ⟨a, env, now, -, called⟩
    · exact .inl ⟨⟨token, claims, before⟩, ok, old⟩
    · rw [(staged.returned n _ old).2] at called
      cases called
  · rcases asks with before | ⟨a, env', now', -, called'⟩
    · obtain ⟨a, claims', rfl⟩ := (g.asked n ref token _ before).2 c called
      exact .inr ⟨env, now, a, claims', own, called⟩
    · cases called.symm.trans called'
      cases ends

theorem step_claimedOnce (strict : H.gate.allowAnonymous = false) (addressed : s.Addressed)
    (staged : s.Staged) (g : s.ClaimedOnce) (alone : ConnectsAlone s l) (h : H.step s l = some t) :
    t.ClaimedOnce := by
  constructor
  · intro ref fresh
    have unborn : s.shared.nextRef ≤ ref := (step_nextRef_le h).trans fresh
    rcases g.stores strict h ref with same | ⟨n, env, now, a, claims, -, called, -, -⟩
    · rw [same, g.unborn ref unborn]
    · exact absurd (addressed.held n _ called ref (List.mem_singleton_self ref))
        (Nat.not_lt.mpr unborn)
  · intro m gated ref found
    rcases step_call h found with old | ⟨r, -, -, entry⟩ | ⟨env, now, c, -, -, goes⟩
    · exact g.unseeded m gated ref old
    · cases r <;> cases entry
    · cases goes with
      | unclaimed _ _ none_ anonymous =>
          rw [strict] at anonymous
          cases anonymous
  · intro m c ref found past
    have before : (s.shared.heap ref).claims = none := by
      rcases step_connecting h found past with ⟨c', old, past'⟩ | ⟨env, now, a, -, -, unclaimed⟩
      · exact g.pending m c' ref old past'
      · simpa [strict] using unclaimed
    rcases g.stores strict h ref with same | ⟨n, env, now, a, claims, rfl, called, -, -⟩
    · rw [same, before]
    · have ended := (step_connectSet h called).1
      rcases step_connecting h found past with ⟨c', old, past'⟩ | ⟨env', now', a', own, called', -⟩
      · cases g.single m n c' _ ref old called past' rfl
        rw [ended] at found
        cases found
      · cases own
        cases called.symm.trans called'
  · intro m m' c c' ref found found' past past'
    rcases step_connecting h found past with ⟨d, old, was⟩ | ⟨env, now, a, own, called, -⟩
    · rcases step_connecting h found' past' with ⟨d', old', was'⟩ | ⟨env, now, a, own, called, -⟩
      · exact g.single m m' d d' ref old old' was was'
      · exact absurd was (alone m' env now a ref own called m d old)
    · rcases step_connecting h found' past' with ⟨d', old', was'⟩ | ⟨env', now', a', own', called', -⟩
      · exact absurd was' (alone m env now a ref own called m' d' old')
      · cases own.symm.trans own'
        rfl
  · intro n ref token result member
    rcases step_logs h member with old | ⟨m, env, now, c, rfl, called, logs | ⟨_, ⟨⟩⟩⟩ | ⟨_, _, _, _, _, ⟨⟩⟩
    · obtain ⟨known, waiting⟩ := g.asked n ref token result old
      refine ⟨Nat.lt_of_lt_of_le known (step_nextCall_le h), ?_⟩
      intro c found
      rcases step_call h found with same | ⟨r, -, fresh, -⟩ | ⟨env, now, c₀, -, called, goes⟩
      · exact waiting c same
      · exact absurd known (fresh ▸ Nat.lt_irrefl _)
      · obtain ⟨a, claims, rfl⟩ := waiting c₀ called
        cases goes
    · cases logs with
      | authenticated a _ answer =>
          refine ⟨Nat.lt_of_lt_of_le (staged.calls n _ called) (step_nextCall_le h), ?_⟩
          intro d found
          obtain ⟨c₀, called', goes⟩ := step_own h found
          cases called.symm.trans called'
          cases goes with
          | authenticated _ _ accepts => exact ⟨a, _, rfl⟩
  · intro n ref connected absent
    rcases g.connects staged h connected with old | ⟨env, now, a, claims, rfl, called⟩
    · obtain ⟨claims, has⟩ := Option.ne_none_iff_exists'.mp (g.connected n ref old)
      rw [g.steady strict h has] at absent
      cases absent
    · rw [(step_connectSet h called).2] at absent
      cases absent
  · intro n m ref first second
    rcases g.connects staged h first with old | ⟨env, now, a, claims, own, called⟩
    · rcases g.connects staged h second with old' | ⟨env, now, a, claims, -, called⟩
      · exact g.once n m ref old old'
      · exact absurd (g.pending m _ ref called rfl) (g.connected n ref old)
    · rcases g.connects staged h second with old' | ⟨env', now', a', claims', own', -⟩
      · exact absurd (g.pending n _ ref called rfl) (g.connected m ref old')
      · cases own.symm.trans own'
        rfl
  · intro m gated ref claims found
    rcases step_call h found with old | ⟨r, -, -, entry⟩ | ⟨env, now, c, -, called, goes⟩
    · exact g.steady strict h (g.acting m gated ref claims old)
    · cases r <;> cases entry
    · cases goes with
      | claimed _ _ has => exact g.steady strict h has
      | seeded _ _ => exact absurd called (g.unseeded m gated ref)
  · intro n ref claims action channel result member
    rcases step_logs h member with old | ⟨m, env, now, c, -, called, logs | ⟨_, ⟨⟩⟩⟩ | ⟨_, _, _, _, _, ⟨⟩⟩
    · exact g.steady strict h (g.decided n ref claims action channel result old)
    · cases logs with
      | checked gated _ _ answer => exact g.steady strict h (g.acting n gated ref claims called)

theorem initial_claimedOnce (kinds : Nat → κ) (broker : β) :
    (State.initial kinds broker : State κ β τ).ClaimedOnce := by
  constructor
  · intro ref _
    rfl
  · intro m gated ref found
    cases found
  · intro m c ref found
    cases found
  · intro m m' c c' ref found
    cases found
  · intro n ref token result member
    cases member
  · rintro n ref ⟨⟨token, claims, member⟩, -⟩
    cases member
  · rintro n m ref ⟨⟨token, claims, member⟩, -⟩
    cases member
  · intro m gated ref claims found
    cases found
  · intro n ref claims action channel result member
    cases member

theorem run_claimedOnce (strict : H.gate.allowAnonymous = false) {kinds : Nat → κ} {broker : β}
    (run : H.machine.Run ConnectsAlone (State.initial kinds broker) s) : s.ClaimedOnce := by
  have all : s.Addressed ∧ s.Staged ∧ s.ClaimedOnce := by
    refine run.invariant (I := fun s => s.Addressed ∧ s.Staged ∧ s.ClaimedOnce)
      ⟨initial_addressed kinds broker, initial_staged kinds broker,
        initial_claimedOnce kinds broker⟩ ?_
    rintro s l t ⟨addressed, staged, g⟩ alone h
    exact ⟨step_addressed addressed h, step_staged staged h,
      step_claimedOnce strict addressed staged g alone h⟩
  exact all.2.2

/-- No two calls connect one session, its claims never change once it has some, and its ACL
decisions are all taken for these. -/
theorem claims_stored_once (strict : H.gate.allowAnonymous = false) {kinds : Nat → κ} {broker : β}
    (run : H.machine.Run ConnectsAlone (State.initial kinds broker) s)
    (later : H.machine.Run ConnectsAlone s t) :
    (∀ n m ref, t.ConnectedBy n ref → t.ConnectedBy m ref → n = m) ∧
      (∀ ref claims, (s.shared.heap ref).claims = some claims →
        (t.shared.heap ref).claims = some claims) ∧
      ∀ n ref claims action channel result,
        .checked n ref claims action channel result ∈ t.log →
          (t.shared.heap ref).claims = some claims := by
  have after := run_claimedOnce strict (run.trans later)
  refine ⟨after.once, ?_, after.decided⟩
  intro ref claims has
  have kept : H.machine.Run ConnectsAlone (State.initial kinds broker) t ∧
      (t.shared.heap ref).claims = some claims := by
    refine later.invariant (I := fun u => H.machine.Run ConnectsAlone (State.initial kinds broker) u ∧
      (u.shared.heap ref).claims = some claims) ⟨run, has⟩ ?_
    rintro u l v ⟨reached, has⟩ alone h
    exact ⟨.tail reached alone h, (run_claimedOnce strict reached).steady strict h has⟩
  exact kept.2

end Step

def named : InMemory Unit :=
  .standard { Gate.allowAll with
    allowAnonymous := false
    authenticate := fun _ token => .ok ⟨token, [], 0⟩ }

def connectsAlone (s : State κ β τ) (l : Label ε) : Bool :=
  match l with
  | .advance n _ _ =>
      match s.calls n with
      | some (.connectClaims _ ref) =>
          (List.range s.nextCall).all fun m =>
            (s.calls m).all fun c => decide (c.connecting ≠ some ref)
      | _ => true
  | _ => true

theorem connectsAlone_sound (s : State κ β τ) (l : Label ε) (staged : s.Staged)
    (h : connectsAlone s l = true) : ConnectsAlone s l := by
  rintro n env now a ref rfl called m c found
  simp only [connectsAlone, called, List.all_eq_true, List.mem_range] at h
  have other := h m (staged.calls m c found)
  simpa [found] using other

/-- Two connects in turn, of which the second is refused, and a subscribe. -/
theorem claims_stored_once_alice :
    ∃ s, named.hub.machine.Run ConnectsAlone named.boot s ∧
      .returned 2 (.error (.alreadyConnected 0)) ∈ s.log ∧
      (∀ n, s.ConnectedBy n 0 → n = 1) ∧
      (s.shared.heap 0).claims = some ⟨"alice", [], 0⟩ := by
  obtain ⟨s, run, refused, asked, connected, claims⟩ := Machine.execWithin_witness
    (M := named.hub.machine) (s := named.boot) connectsAlone_sound
    (fun _ _ _ staged _ h => step_staged staged h) (initial_staged _ _)
    (Request.steps (.openSession 16) 0 5 ++ Request.steps (.connect ⟨0, 7, "alice"⟩) 1 4 ++
      Request.steps (.connect ⟨0, 8, "bob"⟩) 2 2 ++
      Request.steps (.subscribe ⟨0, 9, "rooms.lobby", 0⟩) 3 9)
    (fun s : HubState => .returned 2 (.error (.alreadyConnected 0)) ∈ s.log ∧
      .authenticated 1 0 "alice" (.ok ⟨"alice", [], 0⟩) ∈ s.log ∧
      .returned 1 (.ok (.connectOk ⟨7, "alice", 0⟩)) ∈ s.log ∧
      (s.shared.heap 0).claims = some ⟨"alice", [], 0⟩) (by decide +kernel)
  refine ⟨s, run, refused, ?_, claims⟩
  intro n other
  exact (claims_stored_once rfl run (.refl s)).1 n 1 0 other ⟨⟨_, _, asked⟩, _, connected⟩

/-- Both calls pass the check before either stores its claims: both return `ConnectOk`, and the
session that was Alice's is Bob's. -/
theorem claims_stored_twice :
    ∃ s t, named.hub.machine.Run Machine.free named.boot s ∧
      named.hub.machine.Run Machine.free s t ∧
      (s.shared.heap 0).claims = some ⟨"alice", [], 0⟩ ∧
      (t.shared.heap 0).claims = some ⟨"bob", [], 0⟩ ∧
      t.ConnectedBy 1 0 ∧ t.ConnectedBy 2 0 := by
  obtain ⟨s, -, run, alice, once⟩ := Machine.exec_witness (M := named.hub.machine) (s := named.boot)
    (Request.steps (.openSession 16) 0 5 ++ Request.steps (.connect ⟨0, 7, "alice"⟩) 1 2 ++
      Request.steps (.connect ⟨0, 8, "bob"⟩) 2 2 ++ List.replicate 2 (.advance 1 () 0))
    (fun s => (s.shared.heap 0).claims = some ⟨"alice", [], 0⟩ ∧
      ((named.hub.machine.exec s (List.replicate 2 (.advance 2 () 0))).any fun t =>
        decide ((t.shared.heap 0).claims = some ⟨"bob", [], 0⟩ ∧
          .authenticated 1 0 "alice" (.ok ⟨"alice", [], 0⟩) ∈ t.log ∧
          .returned 1 (.ok (.connectOk ⟨7, "alice", 0⟩)) ∈ t.log ∧
          .authenticated 2 0 "bob" (.ok ⟨"bob", [], 0⟩) ∈ t.log ∧
          .returned 2 (.ok (.connectOk ⟨8, "bob", 0⟩)) ∈ t.log)) = true)
    (by decide +kernel)
  obtain ⟨t, ran, holds⟩ := Option.any_eq_true _ _ |>.mp once
  obtain ⟨bob, asked, connected, asked', connected'⟩ := of_decide_eq_true holds
  exact ⟨s, t, run, Machine.exec_run ran, alice, bob, ⟨⟨_, _, asked⟩, _, connected⟩,
    ⟨⟨_, _, asked'⟩, _, connected'⟩⟩

end Cherenkov
