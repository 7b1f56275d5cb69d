import Cherenkov.Hub.Course
import Cherenkov.Hub.Flow
import Cherenkov.Hub.Gate

/-! `handle_unsubscribe` takes the task out of the session's map, aborts it and does not wait for
it. An abort takes effect where the task suspends, so one that is being polled goes on sending after
the answer. When every such task has suspended before the answer, all that the session still
receives on the channel comes from subscribe calls that reach the map after the removal. -/

namespace Cherenkov

open History

variable {κ β τ ε : Type}

def Call.joining : Call τ → Bool
  | .enter (.subscribe _) | .requireClaims (.subscribe _) _ | .seedClaims (.subscribe _) _
  | .enforceAcl (.subscribe _) _ _ | .subscribeHas _ _ | .subscribeKind _ _
  | .subscribeBroker _ _ _ | .subscribeReplay _ _ _ _ | .subscribeSend _ _ _ _ _
  | .subscribeSpawn _ _ _ _ | .subscribeInsert _ _ _ => true
  | _ => false

def State.Joining (s : State κ β τ) (m : Nat) : Prop :=
  ∃ c, s.calls m = some c ∧ c.joining = true

/-- Call `m` reaches the map after this state, if it subscribes at all. -/
def State.Late (s : State κ β τ) (m : Nat) : Prop := s.nextCall ≤ m ∨ s.Joining m

/-- When `handle_unsubscribe` is about to answer, every task of the session on the channel has
been aborted and has suspended, but for one that is in the map again or on its way there. -/
def TasksSuspended (s : State κ β τ) (l : Label ε) : Prop :=
  ∀ n env now a ref, l = .advance n env now → s.calls n = some (.unsubscribeKind a ref) →
    ∀ f w, s.shared.forwarders f = some w → w.session = ref → w.channel = a.channel →
      w.Stopped ∨ (s.shared.heap ref).subscriptions.get a.channel = some f ∨ s.Joining f

/-- Where an unsubscribe call is once it has taken the task out of the map. -/
def Call.Withdraws (a : UnsubscribeArgs) (ref : Nat) : Call τ → Prop
  | .unsubscribeAbort b r _ | .unsubscribeScrub b r | .unsubscribeReap b r
  | .unsubscribeKind b r => b = a ∧ r = ref
  | _ => False

section Step

variable {H : Hub κ β τ ε} {s t : State κ β τ} {l : Label ε} {x : Shared κ β τ} {env : ε}
  {now : Nat} {c next : Call τ}

theorem goes_joining (goes : H.Goes x env now c next) (h : next.joining = true) :
    c.joining = true := by
  cases goes with
  | entered g found | claimed g ref has | unclaimed g ref none_ anonymous | seeded g ref =>
      cases g with
      | subscribe a => rfl
      | publish a => cases h
  | _ => first | rfl | cases h

theorem goes_withdraws {a : UnsubscribeArgs} {ref : Nat} (withdraws : c.Withdraws a ref)
    (goes : H.Goes x env now c next) : next.Withdraws a ref := by
  cases goes with
  | detached b r found => exact withdraws.elim
  | _ => exact withdraws

/-- Whoever is late after a step was late before it. -/
theorem step_late (h : H.step s l = some t) {m : Nat} (late : t.Late m) : s.Late m := by
  rcases late with fresh | ⟨d, found, joining⟩
  · exact .inl (Nat.le_trans (step_nextCall_le h) fresh)
  · rcases step_call h found with old | ⟨r, -, same, -⟩ | ⟨env, now, c, -, called, goes⟩
    · exact .inr ⟨d, old, joining⟩
    · exact .inl (Nat.le_of_eq same.symm)
    · exact .inr ⟨c, called, goes_joining goes joining⟩

theorem step_entry_origin (h : H.step s l = some t) {ref f : Nat} {channel : String}
    (entry : (t.shared.heap ref).subscriptions.get channel = some f) :
    (s.shared.heap ref).subscriptions.get channel = some f ∨ s.Joining f := by
  cases Hub.stepped h with
  | start r => exact .inl entry
  | @advance n env now c o at_ acts =>
      rcases (quiet_after s n c o).subscriptions ref with same | emptied
      · rw [same, (Hub.acted acts).subscriptions] at entry
        rcases subscriptionsAfter_some entry with ⟨a, cursor, rfl, rfl, -⟩ | old
        · exact .inr ⟨_, at_, rfl⟩
        · exact .inl old
      · simp [emptied] at entry
  | forward task moves =>
      rw [((Hub.forwarded moves).frame task).subscriptions] at entry
      exact .inl entry
  | transport quiet sheds =>
      rcases quiet.subscriptions ref with same | emptied
      · exact .inl (same ▸ entry)
      · simp [emptied] at entry

end Step

section Withdrawn

variable {H : Hub κ β τ ε} {q s t : State κ β τ} {l : Label ε} {n : Nat} {a : UnsubscribeArgs}
  {ref : Nat}

/-- Only tasks of calls that came late to `q` can still send to the session on the channel. -/
def State.Hushed (s q : State κ β τ) (ref : Nat) (channel : String) : Prop :=
  ∀ f w, s.shared.forwarders f = some w → w.session = ref → w.channel = channel →
    w.Stopped ∨ q.Late f

/-- Once call `n` has answered, deliveries to the session are those of late calls, or are on
other channels. -/
def Silent (q : State κ β τ) (n ref : Nat) (channel : String) (past : List Event) : Event → Prop
  | .enqueued sub r _ _ => r = ref → (∃ response, .returned n (.ok response) ∈ past) →
      q.Late sub ∨ ∃ other, other ≠ channel ∧ Opened past sub ref other
  | _ => True

/-- Call `n` has taken the session's task out of the map in state `q`. -/
structure State.Withdrawn (s q : State κ β τ) (n : Nat) (a : UnsubscribeArgs) (ref : Nat) :
    Prop where
  course : s.Course n (Call.Withdraws a ref) fun _ => True
  late : ∀ m, s.Late m → q.Late m
  entry : ∀ f, (s.shared.heap ref).subscriptions.get a.channel = some f → q.Late f
  hushed : ∀ response, .returned n (.ok response) ∈ s.log → s.Hushed q ref a.channel
  history : Justified (Silent q n ref a.channel) s.log

theorem State.Hushed.step {channel : String} (late : ∀ m, s.Late m → q.Late m)
    (hushed : s.Hushed q ref channel) (h : H.step s l = some t) : t.Hushed q ref channel := by
  intro f w' found session channel'
  rcases step_task h found with ⟨_, _, _, _, _, _, -, spawning, -⟩ | ⟨w, older, follows⟩
  · exact .inr (late f (.inr ⟨_, spawning, rfl⟩))
  · rw [follows.session] at session
    rw [follows.channel] at channel'
    exact (hushed f w older session channel').imp follows.stopped id

theorem State.Withdrawn.suspended (g : s.Withdrawn q n a ref) {env : ε} {now : Nat}
    (suspended : TasksSuspended s (.advance n env now))
    (at_ : s.calls n = some (.unsubscribeKind a ref)) : s.Hushed q ref a.channel := by
  intro f w task session channel
  rcases suspended n env now a ref rfl at_ f w task session channel with stopped | entry | joining
  · exact .inl stopped
  · exact .inr (g.entry f entry)
  · exact .inr (g.late f (.inr joining))

theorem justified_unanswered {channel : String} {log : List Event}
    (unanswered : ∀ response, .returned n (.ok response) ∉ log) :
    Justified (Silent q n ref channel) log := by
  induction log with
  | nil => trivial
  | cons e past ih =>
      have before : ∀ response, .returned n (.ok response) ∉ past :=
        fun response member => unanswered response (List.mem_cons_of_mem _ member)
      refine ⟨?_, ih before⟩
      cases e with
      | enqueued sub r origin p =>
          rintro - ⟨response, member⟩
          exact absurd member (before response)
      | _ => trivial

/-- `remove_subscription` leaves no task in the map, and the call has not answered yet. -/
theorem removed_withdrawn (staged : q.Staged) (called : q.calls n = some (.unsubscribeRemove a ref))
    {env : ε} {now : Nat} (removes : H.step q (.advance n env now) = some s) :
    s.Withdrawn q n a ref := by
  have unanswered : ∀ response, .returned n (.ok response) ∉ s.log := by
    intro response member
    rcases step_ends removes member with old | ⟨_, _, c, -, at_, ends⟩
    · cases (staged.returned n _ old).2.symm.trans called
    · cases at_.symm.trans called
      cases ends
  refine ⟨⟨?_, ?_, fun _ _ => trivial⟩, fun m => step_late removes, ?_, ?_, ?_⟩
  · exact Nat.lt_of_lt_of_le (staged.calls n _ called) (step_nextCall_le removes)
  · intro d found
    obtain ⟨c, at_, goes⟩ := step_own removes found
    cases at_.symm.trans called
    cases goes with
    | detached b r found => exact ⟨rfl, rfl⟩
  · intro f entry
    obtain ⟨c, o, at_, acts, rfl⟩ := Hub.step_advance removes
    cases at_.symm.trans called
    rcases (quiet_after q n _ o).subscriptions ref with same | emptied
    · rw [same, (Hub.acted acts).subscriptions] at entry
      simp only [Shared.subscriptionsAfter, Function.update_self] at entry
      split at entry
      · rw [DashMap.get_remove, if_pos rfl] at entry
        cases entry
      · next absent =>
          rw [entry] at absent
          exact absurd rfl absent
    · simp [emptied] at entry
  · intro response member
    exact absurd member (unanswered response)
  · exact justified_unanswered unanswered

theorem step_withdrawn (grounded : s.Grounded H.gate.allowAnonymous)
    (suspended : TasksSuspended s l) (g : s.Withdrawn q n a ref) (h : H.step s l = some t) :
    t.Withdrawn q n a ref := by
  refine ⟨step_course (fun _ _ _ _ _ => goes_withdraws) (fun _ _ _ _ _ _ _ => trivial) g.course h,
    fun m late => g.late m (step_late h late), ?_, ?_, ?_⟩
  · intro f entry
    rcases step_entry_origin h entry with old | joining
    · exact g.entry f old
    · exact g.late f (.inr joining)
  · intro response member
    refine State.Hushed.step g.late ?_ h
    rcases step_ends h member with old | ⟨env, now, c, rfl, at_, ends⟩
    · exact g.hushed response old
    · -- of the places past the removal only `on_unsubscribe` is followed by an `Ok`
      have withdraws := g.course.called c at_
      cases ends with
      | unsubscribed b r accepts =>
          obtain ⟨rfl, rfl⟩ := withdraws
          exact g.suspended suspended at_
      | _ => exact withdraws.elim
  · cases Hub.stepped h with
    | start r => exact g.history
    | @advance m env now c o at_ acts =>
        refine (Hub.acted acts).justified g.history ?_ fun _ _ => trivial
        intro e logs
        cases logs with
        | sent b r cursor stream p rest room =>
            exact fun _ _ => .inl (g.late m (.inr ⟨_, at_, rfl⟩))
        | _ => trivial
    | @forward f move w x' events task moves =>
        cases Hub.forwarded moves with
        | @sent p outbox polled holding room =>
            refine ⟨?_, g.history⟩
            rintro session ⟨response, answered⟩
            -- the session's tasks on other channels go on
            by_cases here : w.channel = a.channel
            · rcases g.hushed response answered f w task session here with stopped | late
              · rw [stopped.2] at polled
                cases polled
              · exact .inl late
            · exact .inr ⟨w.channel, here, session ▸ grounded.forwarders f w task⟩
        | lagged => exact ⟨trivial, g.history⟩
        | _ => exact g.history
    | transport quiet sheds => exact g.history

/-- After `UnsubscribeOk` the session receives on the channel only what subscribe calls that
reached its map after the removal send it. -/
theorem unsubscribed_silent {kinds : Nat → κ} {broker : β} {env : ε} {now : Nat}
    (before : H.machine.Run TasksSuspended (State.initial kinds broker) q)
    (called : q.calls n = some (.unsubscribeRemove a ref))
    (removes : H.step q (.advance n env now) = some s) (after : H.machine.Run TasksSuspended s t)
    {later earlier : List Event} {sub : Nat} {origin : Origin} {p : Publication}
    (sent : t.log = later ++ .enqueued sub ref origin p :: earlier) {response : Response}
    (answered : .returned n (.ok response) ∈ earlier) (opened : Opened t.log sub ref a.channel) :
    q.Late sub := by
  have staged := run_staged before
  have all := after.invariant
    (I := fun t => t.Staged ∧ t.Grounded H.gate.allowAnonymous ∧ t.Withdrawn q n a ref)
    ⟨step_staged staged removes, step_grounded (run_grounded before) removes,
      removed_withdrawn staged called removes⟩
    fun _ _ _ g suspended h => ⟨step_staged g.1 h, step_grounded g.2.1 h,
      step_withdrawn g.2.1 suspended g.2.2 h⟩
  rcases (all.2.2.history.split sent).1 rfl ⟨response, answered⟩ with late | ⟨other, apart, there⟩
  · exact late
  · have there : Opened t.log sub ref other := by
      rw [sent]
      exact List.mem_append_right _ (List.mem_cons_of_mem _ there)
    exact absurd (all.1.opened sub ref ref _ _ _ _ there opened).2 apart

end Withdrawn

def tasksSuspended (s : State κ β τ) : Label ε → Bool
  | .advance n _ _ =>
      match s.calls n with
      | some (.unsubscribeKind a ref) => (List.range s.nextCall).all fun f =>
          (s.shared.forwarders f).all fun w =>
            w.session != ref || w.channel != a.channel || (w.aborted && !w.polled) ||
              (s.shared.heap ref).subscriptions.get a.channel == some f ||
              (s.calls f).any Call.joining
      | _ => true
  | _ => true

theorem tasksSuspended_sound (s : State κ β τ) (l : Label ε) (staged : s.Staged)
    (h : tasksSuspended s l = true) : TasksSuspended s l := by
  rintro n env now a ref rfl at_ f w task session channel
  simp only [tasksSuspended, at_, List.all_eq_true, List.mem_range] at h
  have one := h f (staged.forwarders f w task)
  simp only [task, Option.all_some, session, channel, bne_self_eq_false, Bool.false_or,
    Bool.or_eq_true, Bool.and_eq_true, Bool.not_eq_true', beq_iff_eq, Option.any_eq_true,
    or_assoc] at one
  exact one

def lobbyListener : List (Label Unit) :=
  Request.steps (.openSession 16) 0 5 ++ Request.steps (.subscribe ⟨0, 7, "rooms.lobby", 0⟩) 1 9

def State.removing (s : State κ β τ) (n ref : Nat) (channel : String) : Bool :=
  match s.calls n with
  | some (.unsubscribeRemove a r) => a.channel == channel && r == ref
  | _ => false

theorem removing_call {s : State κ β τ} {n ref : Nat} {channel : String}
    (h : s.removing n ref channel = true) :
    ∃ a, a.channel = channel ∧ s.calls n = some (.unsubscribeRemove a ref) := by
  simp only [State.removing] at h
  split at h
  · next a r called =>
      simp only [Bool.and_eq_true, beq_iff_eq] at h
      exact ⟨a, h.1, h.2 ▸ called⟩
  · cases h

/-- The call ends with its task suspended; the session subscribes again and publishes. -/
def lobbyAgain : List (Label Unit) :=
  List.replicate 4 (.advance 2 () 0) ++ Request.steps (.subscribe ⟨0, 9, "rooms.lobby", 0⟩) 3 9 ++
    Request.steps (.publish ⟨0, "rooms.lobby", [7]⟩) 4 6 ++
    [.forward 3 .wake, .forward 3 .poll, .forward 3 .poll]

theorem unsubscribed_silent_again :
    ∃ q s t : HubState, defaults.hub.machine.Run TasksSuspended defaults.boot q ∧
      q.removing 2 0 "rooms.lobby" = true ∧
      defaults.hub.step q (.advance 2 () 0) = some s ∧ defaults.hub.machine.Run TasksSuspended s t ∧
      ∃ earlier, t.log = .enqueued 3 0 .live ⟨"rooms.lobby", 0, [7]⟩ :: earlier ∧
        .returned 2 (.ok (.unsubscribeOk ⟨8, "rooms.lobby"⟩)) ∈ earlier ∧ q.Late 3 := by
  obtain ⟨q, before, removing, rest⟩ := Machine.execWithin_witness
    (M := defaults.hub.machine) (s := defaults.boot) tasksSuspended_sound
    (fun _ _ _ staged _ h => step_staged staged h) (initial_staged _ _)
    (lobbyListener ++ Request.steps (.unsubscribe ⟨0, 8, "rooms.lobby"⟩) 2 1)
    (fun q : HubState => q.removing 2 0 "rooms.lobby" = true ∧
      ((defaults.hub.step q (.advance 2 () 0)).any fun s =>
        (defaults.hub.machine.execWithin tasksSuspended s lobbyAgain).any fun t =>
          decide (t.log.head? = some (.enqueued 3 0 .live ⟨"rooms.lobby", 0, [7]⟩) ∧
            .returned 2 (.ok (.unsubscribeOk ⟨8, "rooms.lobby"⟩)) ∈ t.log.tail ∧
            .brokerSubscribe 3 0 "rooms.lobby" true ∈ t.log)) = true) (by decide +kernel)
  obtain ⟨s, removes, ran⟩ := Option.any_eq_true _ _ |>.mp rest
  obtain ⟨t, ran, holds⟩ := Option.any_eq_true _ _ |>.mp ran
  obtain ⟨sent, answered, opened⟩ := of_decide_eq_true holds
  obtain ⟨a, here, called⟩ := removing_call removing
  have after := Machine.execWithin_run tasksSuspended_sound
    (fun _ _ _ staged _ h => step_staged staged h) (step_staged (run_staged before) removes) ran
  obtain ⟨earlier, log⟩ := List.head?_eq_some_iff.mp sent
  rw [log] at answered
  refine ⟨q, s, t, before, removing, removes, after, earlier, log, answered, ?_⟩
  exact unsubscribed_silent before called removes after (log.trans (List.nil_append _).symm)
    answered (here ▸ opened)

/-- The task is being polled when it is aborted: it takes and sends what is published after
`handle_unsubscribe` has returned. -/
theorem aborted_task_sends :
    ∃ s t : HubState, defaults.hub.machine.Run Machine.free defaults.boot s ∧
      (∀ n, s.calls n = none) ∧
      .returned 2 (.ok (.unsubscribeOk ⟨8, "rooms.lobby"⟩)) ∈ s.log ∧
      defaults.hub.machine.Run Machine.free s t ∧
      ∃ later, t.log = .enqueued 1 0 .live ⟨"rooms.lobby", 0, [7]⟩ :: later ++ s.log ∧
        .brokerPublish 3 0 "rooms.lobby" ⟨"rooms.lobby", 0, [7]⟩ (.ok ()) ∈ later ∧
        ∀ sub ref channel, Opened t.log sub ref channel → sub = 1 := by
  obtain ⟨s, -, before, silent, answered, rest⟩ := Machine.exec_witness
    (M := defaults.hub.machine) (s := defaults.boot)
    (lobbyListener ++ [.forward 1 .wake] ++
      Request.steps (.unsubscribe ⟨0, 8, "rooms.lobby"⟩) 2 6)
    (fun s : HubState => idle s = true ∧
      .returned 2 (.ok (.unsubscribeOk ⟨8, "rooms.lobby"⟩)) ∈ s.log ∧
      ((defaults.hub.machine.exec s (Request.steps (.publish ⟨0, "rooms.lobby", [7]⟩) 3 6 ++
        [.forward 1 .poll, .forward 1 .poll])).any fun t =>
          decide (t.log = .enqueued 1 0 .live ⟨"rooms.lobby", 0, [7]⟩ ::
              (t.log.take (t.log.length - s.log.length)).tail ++ s.log ∧
            .brokerPublish 3 0 "rooms.lobby" ⟨"rooms.lobby", 0, [7]⟩ (.ok ()) ∈
              (t.log.take (t.log.length - s.log.length)).tail ∧
            ∀ e ∈ t.log, e.subscriber = none ∨ e.subscriber = some 1)) = true)
    (by decide +kernel)
  obtain ⟨t, ran, holds⟩ := Option.any_eq_true _ _ |>.mp rest
  obtain ⟨log, published, alone⟩ := of_decide_eq_true holds
  refine ⟨s, t, before, idle_sound (run_staged before) silent, answered, Machine.exec_run ran, _,
    log, published, ?_⟩
  intro sub ref channel opened
  rcases alone _ opened with other | one
  · cases other
  · exact Option.some.inj one

end Cherenkov
