import Cherenkov.Hub.References

/-! A subscribe call opens its stream, then replays, then hands the stream to a forwarder that
carries the call's number. The stage of a program counter says how far the call has come; it never
goes down. A call that has not spawned has no forwarder, one that has not opened its stream has left
no trace, and one that has not read the history has delivered nothing. -/

namespace Cherenkov

variable {κ β τ ε : Type}

def Call.stage : Call τ → Nat
  | .subscribeReplay _ _ _ _ => 1
  | .subscribeSend _ _ _ _ _ | .subscribeSpawn _ _ _ _ | .subscribeUnwind _ _ (some _) _ => 2
  | .subscribeInsert _ _ _ | .subscribeIndex _ _ _ | .subscribeStray _ _
  | .subscribeUnwind _ _ none _ => 3
  | _ => 0

def Event.subscriber : Event → Option Nat
  | .brokerSubscribe n _ _ _ | .enqueued n _ _ _ | .lagged n _ => some n
  | _ => none

def Event.delivery : Event → Option Nat
  | .enqueued n _ _ _ | .lagged n _ => some n
  | _ => none

structure State.Staged (s : State κ β τ) : Prop where
  calls : ∀ n c, s.calls n = some c → n < s.nextCall
  forwarders : ∀ f w, s.shared.forwarders f = some w → f < s.nextCall
  heard : ∀ e ∈ s.log, ∀ m, e.subscriber = some m → m < s.nextCall
  unspawned : ∀ n c, s.calls n = some c → c.stage ≤ 2 → s.shared.forwarders n = none
  silent : ∀ n c, s.calls n = some c → c.stage = 0 → ∀ e ∈ s.log, e.subscriber ≠ some n
  undelivered : ∀ n c, s.calls n = some c → c.stage ≤ 1 → ∀ e ∈ s.log, e.delivery ≠ some n
  returned : ∀ n result, .returned n result ∈ s.log → n < s.nextCall ∧ s.calls n = none
  opened : ∀ n ref ref' channel channel' ok ok', .brokerSubscribe n ref channel ok ∈ s.log →
    .brokerSubscribe n ref' channel' ok' ∈ s.log → ref = ref' ∧ channel = channel'

section Advance

variable {H : Hub κ β τ ε} {x : Shared κ β τ} {n : Nat} {env : ε} {now : Nat} {c next : Call τ}

theorem goes_stage (goes : H.Goes x env now c next) : c.stage ≤ next.stage := by
  cases goes <;> simp [Call.stage]

theorem logs_delivery {e : Event} {m : Nat} (logs : H.Logs x n env now c e)
    (about : e.delivery = some m) : m = n ∧ c.stage = 2 := by
  cases logs with
  | sent a ref cursor stream p rest room =>
      cases about
      exact ⟨rfl, rfl⟩
  | _ => cases about

theorem logs_subscriber {e : Event} {m : Nat} (logs : H.Logs x n env now c e)
    (about : e.subscriber = some m) : m = n := by
  cases logs with
  | opened a ref cursor answer | sent a ref cursor stream p rest room =>
      exact (Option.some.inj about).symm
  | _ => cases about

theorem logs_opened {e : Event} {m : Nat} (logs : H.Logs x n env now c e)
    (about : e.subscriber = some m) (goes : H.Goes x env now c next) : 1 ≤ next.stage := by
  cases logs with
  | opened a ref cursor answer => cases goes <;> simp [Call.stage]
  | sent a ref cursor stream p rest room =>
      have later := goes_stage goes
      exact Nat.le_trans (Nat.le_succ 1) later
  | _ => cases about

theorem Event.subscriber_of_delivery {e : Event} {m : Nat} (about : e.delivery = some m) :
    e.subscriber = some m := by
  cases e <;> first | exact about | cases about

theorem eventOf_not_returned (H : Hub κ β τ ε) (x : Shared κ β τ) (n : Nat) (env : ε) (now : Nat)
    (c : Call τ) (m : Nat) (result : Except HubError Response) :
    H.eventOf x n env now c ≠ some (.returned m result) := by
  intro logs
  cases Hub.logs logs

end Advance

section Step

variable {H : Hub κ β τ ε} {s t : State κ β τ} {l : Label ε}

/-- An event is older than the step, or logged by the call or the task that moves. -/
theorem step_logs (h : H.step s l = some t) {e : Event} (member : e ∈ t.log) :
    e ∈ s.log ∨
      (∃ n env now c, l = .advance n env now ∧ s.calls n = some c ∧
        (H.Logs s.shared n env now c e ∨ ∃ result, e = .returned n result)) ∨
      ∃ f move w, l = .forward f move ∧ s.shared.forwarders f = some w ∧ e.delivery = some f := by
  cases Hub.stepped h with
  | start r => exact .inl member
  | @advance n env now c o at_ acts =>
      rw [after_log] at member
      rcases List.mem_append.mp member with new | old
      · exact .inr (.inl ⟨n, env, now, c, rfl, at_, (Hub.acted acts).event new⟩)
      · exact .inl old
  | @forward f move w x' events task moves =>
      rcases List.mem_append.mp member with new | old
      · refine .inr (.inr ⟨f, move, w, rfl, task, ?_⟩)
        cases Hub.forwarded moves with
        | lagged => cases List.mem_singleton.mp new; rfl
        | sent => cases List.mem_singleton.mp new; rfl
        | _ => cases new
      · exact .inl old
  | transport quiet sheds => exact .inl member

theorem step_subscriber (h : H.step s l = some t) {e : Event} (member : e ∈ t.log) {m : Nat}
    (about : e.subscriber = some m) :
    e ∈ s.log ∨
      (∃ env now c, l = .advance m env now ∧ s.calls m = some c ∧
        H.Logs s.shared m env now c e) ∨
      ∃ w, s.shared.forwarders m = some w ∧ e.delivery = some m := by
  rcases step_logs h member with old | ⟨n, env, now, c, moved, called, logs | ⟨result, rfl⟩⟩ |
    ⟨f, move, w, -, task, delivers⟩
  · exact .inl old
  · cases logs_subscriber logs about
    exact .inr (.inl ⟨env, now, c, moved, called, logs⟩)
  · cases about
  · cases (Event.subscriber_of_delivery delivers).symm.trans about
    exact .inr (.inr ⟨w, task, delivers⟩)

theorem step_returned (h : H.step s l = some t) {n : Nat} {result : Except HubError Response}
    (member : .returned n result ∈ t.log) :
    .returned n result ∈ s.log ∨ ∃ env now c, l = .advance n env now ∧ s.calls n = some c ∧
      t.calls n = none := by
  rcases step_logs h member with old | ⟨m, env, now, c, rfl, called, -⟩ | ⟨_, _, _, -, -, delivers⟩
  · exact .inl old
  · obtain ⟨c', o, at_, acts, rfl⟩ := Hub.step_advance h
    rw [after_log] at member
    rcases List.mem_append.mp member with new | old
    · have unlogged : .returned n result ∉ (H.eventOf s.shared m env now c').toList := by
        rw [Option.mem_toList]
        exact eventOf_not_returned H _ _ _ _ _ _ _
      rcases (Hub.acted acts).logged with ⟨_, _, logged⟩ | ⟨_, ends, logged⟩
      · rw [logged] at new
        exact absurd new unlogged
      · rw [logged] at new
        rcases List.mem_cons.mp new with same | own
        · cases same
          exact .inr ⟨env, now, c, rfl, called, by rw [after_calls, ends, Function.update_self]⟩
        · exact absurd own unlogged
    · exact .inl old
  · cases delivers

theorem step_nextCall_le (h : H.step s l = some t) : s.nextCall ≤ t.nextCall := by
  cases Hub.stepped h with
  | start r => exact Nat.le_succ _
  | advance at_ acts =>
      rw [after_nextCall]
  | forward task moves => exact Nat.le_refl _
  | transport quiet sheds => exact Nat.le_refl _

theorem step_call_over {n : Nat} (known : n < s.nextCall) (ended : s.calls n = none)
    (h : H.step s l = some t) : n < t.nextCall ∧ t.calls n = none := by
  refine ⟨Nat.lt_of_lt_of_le known (step_nextCall_le h), ?_⟩
  refine Option.eq_none_iff_forall_ne_some.mpr fun d found => ?_
  rcases step_call h found with old | ⟨r, -, fresh, -⟩ | ⟨env, now, c, -, called, -⟩
  · cases ended.symm.trans old
  · exact absurd known (fresh ▸ Nat.lt_irrefl _)
  · cases ended.symm.trans called

theorem step_stage (h : H.step s l = some t) {m : Nat} {d : Call τ} (found : t.calls m = some d) :
    m = s.nextCall ∨ ∃ c, s.calls m = some c ∧ c.stage ≤ d.stage := by
  rcases step_call h found with old | ⟨r, -, fresh, -⟩ | ⟨env, now, c, -, called, goes⟩
  · exact .inr ⟨d, old, Nat.le_refl _⟩
  · exact .inl fresh
  · exact .inr ⟨c, called, goes_stage goes⟩

theorem step_staged (g : s.Staged) (h : H.step s l = some t) : t.Staged := by
  have grown := step_nextCall_le h
  -- a call that has a forwarder, or an event about its subscription, is neither new nor early
  have tasked : ∀ m w d, s.shared.forwarders m = some w → t.calls m = some d → ¬d.stage ≤ 2 := by
    intro m w d task found early
    rcases step_stage h found with rfl | ⟨c, called, le⟩
    · exact Nat.lt_irrefl _ (g.forwarders _ w task)
    · rw [g.unspawned m c called (Nat.le_trans le early)] at task
      cases task
  refine ⟨?_, ?_, ?_, ?_, ?_, ?_, ?_, ?_⟩
  · intro m d found
    rcases step_call h found with old | ⟨r, rfl, rfl, -⟩ | ⟨env, now, c, -, called, -⟩
    · exact Nat.lt_of_lt_of_le (g.calls m d old) grown
    · cases h
      exact Nat.lt_succ_self _
    · exact Nat.lt_of_lt_of_le (g.calls m c called) grown
  · intro f w' found
    rcases step_task h found with ⟨_, _, _, _, _, _, -, spawning, -⟩ | ⟨w, older, -⟩
    · exact Nat.lt_of_lt_of_le (g.calls f _ spawning) grown
    · exact Nat.lt_of_lt_of_le (g.forwarders f w older) grown
  · intro e member m about
    rcases step_subscriber h member about with old | ⟨_, _, c, -, called, -⟩ | ⟨w, task, -⟩
    · exact Nat.lt_of_lt_of_le (g.heard e old m about) grown
    · exact Nat.lt_of_lt_of_le (g.calls m c called) grown
    · exact Nat.lt_of_lt_of_le (g.forwarders m w task) grown
  · intro m d found early
    refine Option.eq_none_iff_forall_ne_some.mpr fun w' there => ?_
    rcases step_task h there with ⟨_, _, _, _, _, _, rfl, spawning, -⟩ | ⟨w, older, -⟩
    · obtain ⟨c, called, goes⟩ := step_own h found
      cases called.symm.trans spawning
      cases goes with
      | spawned a ref cursor stream => exact absurd early (by simp [Call.stage])
    · exact tasked m w d older found early
  · intro m d found unopened e member about
    rcases step_subscriber h member about with old | ⟨env, now, c, rfl, called, logs⟩ | ⟨w, task, -⟩
    · rcases step_stage h found with rfl | ⟨c, called, le⟩
      · exact Nat.lt_irrefl _ (g.heard e old _ about)
      · exact g.silent m c called (by omega) e old about
    · obtain ⟨c', called', goes⟩ := step_own h found
      cases called.symm.trans called'
      have opened := logs_opened logs about goes
      omega
    · exact tasked m w d task found (by omega)
  · intro m d found unread e member about
    rcases step_subscriber h member (Event.subscriber_of_delivery about) with
      old | ⟨env, now, c, rfl, called, logs⟩ | ⟨w, task, -⟩
    · rcases step_stage h found with rfl | ⟨c, called, le⟩
      · exact Nat.lt_irrefl _ (g.heard e old _ (Event.subscriber_of_delivery about))
      · exact g.undelivered m c called (by omega) e old about
    · obtain ⟨c', called', goes⟩ := step_own h found
      cases called.symm.trans called'
      have before := (logs_delivery logs about).2
      have after := goes_stage goes
      omega
    · exact tasked m w d task found (by omega)
  · intro m result member
    rcases step_returned h member with old | ⟨env, now, c, -, called, over_⟩
    · obtain ⟨known, ended⟩ := g.returned m result old
      exact step_call_over known ended h
    · exact ⟨Nat.lt_of_lt_of_le (g.calls m c called) grown, over_⟩
  · intro m ref ref' channel channel' ok ok' first second
    rcases step_subscriber h first rfl with old | ⟨_, _, c, rfl, called, logs⟩ | ⟨_, -, delivers⟩
    · rcases step_subscriber h second rfl with old' | ⟨_, _, c, -, called, logs⟩ | ⟨_, -, delivers⟩
      · exact g.opened m ref ref' channel channel' ok ok' old old'
      · cases logs
        exact absurd rfl (g.silent m _ called rfl _ old)
      · cases delivers
    · rcases step_subscriber h second rfl with old' | ⟨_, _, c', same, called', logs'⟩ |
        ⟨_, -, delivers⟩
      · cases logs
        exact absurd rfl (g.silent m _ called rfl _ old')
      · cases same
        cases called.symm.trans called'
        cases logs
        cases logs'
        exact ⟨rfl, rfl⟩
      · cases delivers
    · cases delivers

end Step

theorem initial_staged (kinds : Nat → κ) (broker : β) :
    (State.initial kinds broker : State κ β τ).Staged := by
  refine ⟨?_, ?_, ?_, ?_, ?_, ?_, ?_, ?_⟩
  · intro n c found
    cases found
  · intro f w found
    cases found
  · intro e member
    cases member
  · intro n c found
    cases found
  · intro n c found
    cases found
  · intro n c found
    cases found
  · intro n result member
    cases member
  · intro n ref ref' channel channel' ok ok' member
    cases member

theorem run_staged {H : Hub κ β τ ε} {ok : State κ β τ → Label ε → Prop} {kinds : Nat → κ}
    {broker : β} {s : State κ β τ} (run : H.machine.Run ok (State.initial kinds broker) s) :
    s.Staged :=
  run.invariant (initial_staged kinds broker) fun _ _ _ g _ h => step_staged g h

def idle (s : State κ β τ) : Bool := (List.range s.nextCall).all fun n => (s.calls n).isNone

theorem idle_sound {s : State κ β τ} (staged : s.Staged) (h : idle s = true) (n : Nat) :
    s.calls n = none := by
  cases called : s.calls n with
  | none => rfl
  | some c =>
      simp only [idle, List.all_eq_true, List.mem_range] at h
      have none_ := h n (staged.calls n c called)
      rw [called] at none_
      cases none_

theorem answer_logged {s : State κ β τ} {n : Nat} {result : Except HubError Response}
    (h : s.answer n = some result) : .returned n result ∈ s.log := by
  obtain ⟨e, member, about⟩ := List.exists_of_findSome?_eq_some h
  cases e with
  | returned m result' =>
      simp only at about
      split at about
      · next same =>
          cases about
          rwa [same] at member
      · cases about
  | _ => cases about

section Others

variable {H : Hub κ β τ ε} {s t : State κ β τ} {l : Label ε} {n : Nat}

theorem step_call_kept (staged : s.Staged) {c : Call τ} (called : s.calls n = some c)
    (others : ∀ env now, l ≠ .advance n env now) (h : H.step s l = some t) :
    t.calls n = some c := by
  cases Hub.stepped h with
  | start r =>
      have known : n ≠ s.nextCall := Nat.ne_of_lt (staged.calls n c called)
      simpa only [Function.update_of_ne known] using called
  | @advance m env now c' o at_ acts =>
      have other : n ≠ m := by
        rintro rfl
        exact others env now rfl
      rw [after_calls, Function.update_of_ne other]
      exact called
  | forward task moves => exact called
  | transport quiet sheds => exact called

theorem answer_append {events : List Event} (log : t.log = events ++ s.log)
    (silent : ∀ result, .returned n result ∉ events) : t.answer n = s.answer n := by
  have skipped : ({ s with log := events } : State κ β τ).answer n = none := by
    refine List.findSome?_eq_none_iff.mpr ?_
    intro e member
    cases e with
    | returned m result =>
        refine if_neg ?_
        rintro rfl
        exact silent result member
    | _ => rfl
  rw [State.answer, log, List.findSome?_append]
  exact (congrArg (Option.or · (s.answer n)) skipped).trans Option.none_or

theorem step_answer (staged : s.Staged) (h : H.step s l = some t)
    {result : Except HubError Response} (answered : s.answer n = some result) :
    t.answer n = some result := by
  have over_ := (staged.returned n result (answer_logged answered)).2
  cases Hub.stepped h with
  | start r => exact answered
  | @advance m env now c o at_ acts =>
      refine (answer_append (after_log s m c o) ?_).trans answered
      intro other member
      rcases (Hub.acted acts).event member with logs | ⟨_, same⟩
      · cases logs
      · cases same
        rw [over_] at at_
        cases at_
  | forward task moves =>
      refine (answer_append rfl ?_).trans answered
      intro other member
      cases Hub.forwarded moves with
      | lagged => cases List.mem_singleton.mp member
      | sent => cases List.mem_singleton.mp member
      | _ => cases member
  | transport quiet sheds => exact answered

end Others

/-- The call is past the opening of its stream, or has returned. -/
structure State.Launched (s : State κ β τ) (n : Nat) : Prop where
  known : n < s.nextCall
  stage : ∀ c, s.calls n = some c → 1 ≤ c.stage

theorem step_launched {H : Hub κ β τ ε} {s t : State κ β τ} {l : Label ε} {n : Nat}
    (launched : s.Launched n) (h : H.step s l = some t) : t.Launched n := by
  refine ⟨Nat.lt_of_lt_of_le launched.known (step_nextCall_le h), ?_⟩
  intro d found
  rcases step_stage h found with rfl | ⟨c, called, le⟩
  · exact absurd launched.known (Nat.lt_irrefl _)
  · exact Nat.le_trans (launched.stage c called) le

end Cherenkov
