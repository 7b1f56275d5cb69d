import Cherenkov.Hub.Ownership
import Cherenkov.Hub.Flow

/-! `deregister` takes a session out of the registry, then out of the reverse index, and lets go of
the registry's reference. Calls that looked the session up before go on with it, and its forwarders
are aborted by whoever drops the last reference. -/

namespace Cherenkov

open History

variable {κ β τ ε : Type}

/-- The session that a subscribe call is on its way to send to, or to spawn a task for. -/
def Call.courier : Call τ → Option Nat
  | .requireClaims (.subscribe _) ref | .seedClaims (.subscribe _) ref
  | .enforceAcl (.subscribe _) ref _ | .subscribeHas _ ref | .subscribeKind _ ref
  | .subscribeBroker _ ref _ | .subscribeReplay _ ref _ _ | .subscribeSend _ ref _ _ _
  | .subscribeSpawn _ ref _ _ => some ref
  | _ => none

/-- Every forwarder of the session is stopped, and no subscribe call of it is in flight. -/
structure State.Mute (s : State κ β τ) (ref : Nat) : Prop where
  tasks : ∀ f w, s.shared.forwarders f = some w → w.session = ref →
    w.aborted = true ∧ w.polled = false
  couriers : ∀ n c, s.calls n = some c → c.courier ≠ some ref

/-- Nothing can be sent to the session: its transport no longer listens, or nobody sends. -/
def State.Cut (s : State κ β τ) (ref : Nat) : Prop :=
  (s.shared.heap ref).outbox.closed = true ∨ s.Mute ref

def Call.parting : Call τ → Bool
  | .deregister _ _ | .deregisterScrub _ _ _ | .deregisterDrop _ _ _ => true
  | .count m | .measure m | .gauge m _ => match m with
      | .opened _ => false
      | _ => true
  | _ => false

/-- Only call `n`, which closes or kicks the session, refers to it, and its forwarders are
suspended. They are aborted when the call lets go of it. -/
structure State.Leaving (s : State κ β τ) (n ref : Nat) : Prop where
  released : (s.shared.heap ref).handles = 0
  holders : ∀ m c, s.calls m = some c → ref ∈ c.holds → m = n ∧ c.parting = true
  suspended : ∀ f w, s.shared.forwarders f = some w → w.session = ref → w.polled = false

/-- A session that is taken out of the registry has been cut off, or is left by the call that takes
it out, and then none of its forwarders is woken before the call has let go of it. -/
structure CutOff (s : State κ β τ) (l : Label ε) : Prop where
  removal : ∀ n env now who id ref, l = .advance n env now →
    s.calls n = some (.deregister who id) → s.shared.registry.get id = some ref →
    s.Cut ref ∨ s.Leaving n ref
  waking : ∀ f w n c, l = .forward f .wake → s.shared.forwarders f = some w →
    .removed n w.session ∈ s.log → s.calls n = some c → w.session ∈ c.holds → s.Cut w.session

structure State.Gone (s : State κ β τ) (ref : Nat) : Prop where
  known : ref < s.shared.nextRef
  unregistered : ∀ id, s.shared.registry.get id ≠ some ref
  unborn : ∀ n, s.calls n ≠ some (.openRegister ref)

structure State.Severed (s : State κ β τ) (n ref : Nat) : Prop where
  gone : s.Gone ref
  cut : s.Cut ref ∨ s.Leaving n ref

section Severed

variable {H : Hub κ β τ ε} {s t : State κ β τ} {n : Nat} {env : ε} {now : Nat} {c next : Call τ}
  {o : Outcome κ β τ} {ref : Nat} {l : Label ε}

theorem entry_courier (r : Request) : (r.entry : Call τ).courier = none := by
  cases r <;> rfl

theorem goes_courier {x : Shared κ β τ} (goes : H.Goes x env now c next)
    (h : next.courier = some ref) :
    c.courier = some ref ∨ ∃ id, x.registry.get id = some ref := by
  cases goes with
  | entered g found =>
      cases g with
      | subscribe a =>
          cases h
          exact .inr ⟨_, found⟩
      | publish a => cases h
  | claimed g r has | unclaimed g r none_ anonymous | seeded g r =>
      cases g with
      | subscribe a => exact .inl h
      | publish a => cases h
  | _ => first | exact .inl h | cases h

/-- A session stays cut off as long as no call becomes its courier. -/
theorem State.Cut.step (cut : s.Cut ref) (known : ref < s.shared.nextRef) (h : H.step s l = some t)
    (quiet : ∀ n env now c next, s.calls n = some c → H.Goes s.shared env now c next →
      l = .advance n env now → c.courier ≠ some ref → next.courier ≠ some ref) : t.Cut ref := by
  rcases cut with closed | mute
  · exact .inl (step_closed known h closed)
  refine .inr ⟨?_, ?_⟩
  · intro f w' found own
    rcases step_task h found with ⟨_, _, a, r, _, _, -, spawning, session, -⟩ | ⟨w, older, follows⟩
    · exact absurd (congrArg some (session.symm.trans own)) (mute.couriers f _ spawning)
    · exact follows.stopped (mute.tasks f w older (follows.session.symm.trans own))
  · intro m d found
    rcases step_call h found with old | ⟨r, -, -, rfl⟩ | ⟨env, now, c, moved, called, goes⟩
    · exact mute.couriers m d old
    · rw [entry_courier]
      exact nofun
    · exact quiet m env now c d called goes moved (mute.couriers m c called)

theorem step_gone (gone : s.Gone ref) (h : H.step s l = some t) : t.Gone ref := by
  have born := step_born ⟨gone.known, gone.unborn⟩ h
  refine ⟨born.known, ?_, born.entered⟩
  intro i found
  rcases step_registry_get h found with old | ⟨n, env, now, -, opening, -⟩
  · exact gone.unregistered i old
  · exact gone.unborn n opening

theorem goes_parting {x : Shared κ β τ} (goes : H.Goes x env now c next)
    (parting : c.parting = true) : next.parting = true := by
  cases goes with
  | dropped who id r => cases who <;> rfl
  | _ => first | exact parting | rfl

/-- A leaving session stays so while nobody takes a reference to it and none of its forwarders
is woken. -/
theorem State.Leaving.step (leaving : s.Leaving n ref) (known : ref < s.shared.nextRef)
    (h : H.step s l = some t)
    (kept : ∀ m env now c next, s.calls m = some c → H.Goes s.shared env now c next →
      l = .advance m env now → ref ∈ next.holds → m = n ∧ next.parting = true)
    (asleep : ∀ f w, l = .forward f .wake → s.shared.forwarders f = some w → w.session ≠ ref) :
    t.Leaving n ref := by
  refine ⟨?_, ?_, ?_⟩
  · refine (step_released h known leaving.released).resolve_right ?_
    rintro ⟨m, len, opening⟩
    cases (leaving.holders m _ opening List.mem_cons_self).2
  · intro m d found holds
    rcases step_call h found with old | ⟨r, -, -, rfl⟩ | ⟨env, now, c, moved, called, goes⟩
    · exact leaving.holders m d old holds
    · rw [entry_holds] at holds
      cases holds
    · exact kept m env now c d called goes moved holds
  · intro f w' found own
    have aborted : ∀ w, s.shared.forwarders f = some w → w' = w ∨ w' = w.abort →
        w'.polled = false := by
      rintro w task (rfl | rfl)
      · exact leaving.suspended f w' task own
      · exact leaving.suspended f w task own
    cases Hub.stepped h with
    | start r => exact leaving.suspended f w' found own
    | advance at_ acts =>
        rcases after_forwarder_some acts found with ⟨a, r, cursor, stream, -, -, rfl | rfl⟩ |
          ⟨w, older, same⟩
        · rfl
        · rfl
        · exact aborted w older same
    | @forward g move w x' events task moves =>
        have frame := (Hub.forwarded moves).frame task
        by_cases same : f = g
        · subst same
          have mine := (frame.own w' found).1.symm.trans own
          have idle := leaving.suspended f w task mine
          cases move with
          | wake => exact absurd mine (asleep f w rfl task)
          | reap =>
              simp only [Hub.moveForwarder, Option.ite_none_right_eq_some] at moves
              cases moves.2
              simp [Hub.finish, Shared.setForwarder] at found
          | _ => simp [Hub.moveForwarder, idle] at moves
        · rw [frame.others f same] at found
          exact leaving.suspended f w' found own
    | transport quiet sheds =>
        obtain ⟨w, older, same⟩ := quiet.forwarder_some found
        exact aborted w older same

/-- A task of a leaving session that may still run is there because the call still holds the
session. -/
theorem State.Leaving.holder (leaving : s.Leaving n ref) (owned : s.Owned) (gone : s.Gone ref)
    {f : Nat} {w : Forwarder τ} (task : s.shared.forwarders f = some w) (own : w.session = ref)
    (running : w.aborted = false) : ∃ c, s.calls n = some c ∧ ref ∈ c.holds := by
  have of_holder : ∀ m c, s.calls m = some c → ref ∈ c.holds →
      ∃ c, s.calls n = some c ∧ ref ∈ c.holds := by
    intro m c called holds
    obtain ⟨rfl, -⟩ := leaving.holders m c called holds
    exact ⟨c, called, holds⟩
  subst own
  rcases owned.sheltered f w task running with stored | ⟨a, cursor, called, -⟩ | ⟨a, called⟩ |
    ⟨m, a, called⟩
  · cases held : s.held w.session with
    | false =>
        rw [owned.emptied.dropped _ held] at stored
        cases stored
    | true =>
        rcases held_iff.mp held with registered | handle | ⟨m, c, -, called, holds⟩
        · exact absurd registered (gone.unregistered _)
        · exact absurd leaving.released (Nat.ne_of_gt handle)
        · exact of_holder m c called holds
  · exact of_holder f _ called List.mem_cons_self
  · exact of_holder f _ called List.mem_cons_self
  · exact of_holder m _ called List.mem_cons_self

theorem step_severed (owned : s.Owned) (cutOff : CutOff s l) (removed : .removed n ref ∈ s.log)
    (severed : s.Severed n ref) (h : H.step s l = some t) :
    t.Severed n ref := by
  have gone := severed.gone
  have cut_step : s.Cut ref → t.Cut ref := by
    intro cut
    refine cut.step gone.known h ?_
    intro m env now c next called goes moved idle own
    rcases goes_courier goes own with mine | ⟨i, found⟩
    · exact idle mine
    · exact gone.unregistered i found
  refine ⟨step_gone gone h, ?_⟩
  rcases severed.cut with cut | leaving
  · exact .inl (cut_step cut)
  by_cases woken : ∃ f w, l = .forward f .wake ∧ s.shared.forwarders f = some w ∧ w.session = ref
  · obtain ⟨f, w, rfl, task, rfl⟩ := woken
    have running : w.aborted = false := by
      simp only [Hub.step, task] at h
      obtain ⟨out, moves, -⟩ := Option.map_eq_some_iff.mp h
      simp only [Hub.moveForwarder, Option.ite_none_left_eq_some, Bool.or_eq_true, not_or,
        Bool.not_eq_true] at moves
      exact moves.1.2
    obtain ⟨c, called, holds⟩ := leaving.holder owned gone task rfl running
    exact .inl (cut_step (cutOff.waking f w n c rfl task removed called holds))
  · refine .inr (leaving.step gone.known h ?_ fun f w woke task own => woken ⟨f, w, woke, task, own⟩)
    intro m env now c next called goes moved holds
    rcases goes_holds goes holds with mine | ⟨i, found⟩ | ⟨rfl, -⟩
    · obtain ⟨rfl, parting⟩ := leaving.holders m c called mine
      exact ⟨rfl, goes_parting goes parting⟩
    · exact absurd found (gone.unregistered i)
    · exact absurd gone.known (Nat.lt_irrefl _)

end Severed

/-- Nothing is sent to a session once it has been taken out of the registry. -/
def Unparted (past : List Event) : Event → Prop
  | .enqueued _ ref _ _ => ∀ m, .removed m ref ∉ past
  | _ => True

structure State.Parted (s : State κ β τ) : Prop where
  severed : ∀ m ref, .removed m ref ∈ s.log → s.Severed m ref
  history : Justified Unparted s.log

section Parted

variable {H : Hub κ β τ ε} {s t : State κ β τ} {n : Nat} {env : ε} {now : Nat} {c : Call τ}
  {o : Outcome κ β τ}

/-- Nobody is about to send to a session that was taken out of the registry and listens. -/
theorem State.Severed.unsent {ref : Nat} (severed : s.Severed n ref) {frame : ServerFrame}
    {outbox : Outbox} (room : (s.shared.heap ref).outbox.send frame = .sent outbox) :
    (∀ f w, s.shared.forwarders f = some w → w.session = ref → w.polled = false) ∧
      ∀ m a cursor stream rest, s.calls m ≠ some (.subscribeSend a ref cursor stream rest) := by
  rcases severed.cut with (closed | mute) | leaving
  · rw [(Outbox.send_sent room).1] at closed
    cases closed
  · exact ⟨fun f w task own => (mute.tasks f w task own).2,
      fun m a cursor stream rest called => mute.couriers m _ called rfl⟩
  · refine ⟨leaving.suspended, fun m a cursor stream rest called => ?_⟩
    cases (leaving.holders m _ called List.mem_cons_self).2

theorem logs_unparted (g : s.Parted) (at_ : s.calls n = some c) {e : Event}
    (logs : H.Logs s.shared n env now c e) : Unparted s.log e := by
  cases logs with
  | sent a ref cursor stream p rest room =>
      intro m member
      exact ((g.severed m ref member).unsent room).2 n a cursor stream _ at_
  | _ => trivial

theorem step_removed (h : H.step s l = some t) {m ref : Nat} (member : .removed m ref ∈ t.log) :
    .removed m ref ∈ s.log ∨ ∃ env now who id o, l = .advance m env now ∧
      s.calls m = some (.deregister who id) ∧
      H.act s.shared m env now (.deregister who id) = some o ∧
      s.shared.registry.get id = some ref ∧ t = s.after m (.deregister who id) o := by
  cases Hub.stepped h with
  | start r => exact .inl member
  | @advance n env now c o at_ acts =>
      rcases List.mem_append.mp member with new | old
      · rcases (Hub.acted acts).event new with logs | ⟨result, other⟩
        · cases logs with
          | removed who id found => exact .inr ⟨env, now, who, id, o, rfl, at_, acts, found, rfl⟩
        · cases other
      · exact .inl old
  | forward task moves =>
      cases Hub.forwarded moves with
      | lagged | sent =>
          rcases List.mem_cons.mp member with other | old
          · cases other
          · exact .inl old
      | _ => exact .inl member
  | transport quiet sheds => exact .inl member

theorem removed_gone (addressed : s.Addressed) (nascent : s.Nascent) {who : Closing} {id ref : Nat}
    (acts : H.act s.shared n env now (.deregister who id) = some o)
    (found : s.shared.registry.get id = some ref) :
    (s.after n (.deregister who id) o).Gone ref := by
  refine ⟨?_, ?_, ?_⟩
  · rw [(quiet_after s n _ o).nextRef, (Hub.acted acts).nextRef]
    exact (addressed.registry id ref found).1
  · intro id' found'
    rw [after_registry acts] at found'
    simp only [Shared.registryAfter, found, Option.isSome_some, if_true] at found'
    simp only [SessionRegistry.get, SessionRegistry.removeSession, DashMap.get_remove] at found'
    split at found'
    · cases found'
    · next other =>
        refine other ?_
        rw [← (addressed.registry id' ref found').2, (addressed.registry id ref found).2]
  · intro m opening
    rcases after_call opening with ⟨rfl, goes⟩ | ⟨-, old⟩
    · cases Hub.goes acts goes
    · exact nascent.registry m ref id old found

theorem run_gone {ok : State κ β τ → Label ε → Prop} {kinds : Nat → κ} {broker : β}
    (run : H.machine.Run ok (State.initial kinds broker) s) {m ref : Nat}
    (removed : .removed m ref ∈ s.log) : s.Gone ref := by
  have all := run.invariant (I := fun s => s.Addressed ∧ s.Nascent ∧
      ∀ m ref, .removed m ref ∈ s.log → s.Gone ref)
    ⟨initial_addressed kinds broker, initial_nascent kinds broker, fun _ _ => nofun⟩ ?_
  · exact all.2.2 m ref removed
  · rintro s l t ⟨addressed, nascent, gone⟩ _ h
    refine ⟨step_addressed addressed h, step_nascent addressed nascent h, ?_⟩
    intro m ref member
    rcases step_removed h member with old | ⟨env, now, who, id, o, rfl, at_, acts, found, rfl⟩
    · exact step_gone (gone m ref old) h
    · exact removed_gone addressed nascent acts found

theorem removed_severed (owned : s.Owned) (cutOff : CutOff s (.advance n env now)) {who : Closing}
    {id ref : Nat} (at_ : s.calls n = some (.deregister who id))
    (acts : H.act s.shared n env now (.deregister who id) = some o)
    (found : s.shared.registry.get id = some ref) :
    (s.after n (.deregister who id) o).Severed n ref := by
  refine ⟨removed_gone owned.addressed owned.nascent acts found, ?_⟩
  have known := (owned.addressed.registry id ref found).1
  have h := Hub.step_act at_ acts
  refine (cutOff.removal n env now who id ref rfl at_ found).imp (fun cut => cut.step known h ?_)
    fun leaving => leaving.step known h ?_ nofun
  · intro m env' now' c next called goes moved _
    cases moved
    cases called.symm.trans at_
    cases goes with
    | removed who id found => exact nofun
  · intro m env' now' c next called goes moved _
    cases moved
    cases called.symm.trans at_
    exact ⟨rfl, goes_parting goes rfl⟩

theorem step_parted (owned : s.Owned) (cutOff : CutOff s l) (g : s.Parted) (h : H.step s l = some t) :
    t.Parted := by
  refine ⟨?_, ?_⟩
  · intro m ref member
    rcases step_removed h member with old | ⟨env, now, who, id, o, rfl, at_, acts, found, rfl⟩
    · exact step_severed owned cutOff old (g.severed m ref old) h
    · exact removed_severed owned cutOff at_ acts found
  · cases Hub.stepped h with
    | start r => exact g.history
    | advance at_ acts =>
        exact (Hub.acted acts).justified g.history (fun e logs => logs_unparted g at_ logs)
          fun _ _ => trivial
    | @forward f move w x' events task moves =>
        cases Hub.forwarded moves with
        | @sent p outbox polled holding room =>
            refine ⟨?_, g.history⟩
            intro m member
            rw [((g.severed m _ member).unsent room).1 f w task rfl] at polled
            cases polled
        | lagged => exact ⟨trivial, g.history⟩
        | _ => exact g.history
    | transport quiet sheds => exact g.history

/-- Once sessions that were cut off, or that nobody else refers to, have left, they are sent nothing
more. -/
theorem departed_silent {kinds : Nat → κ} {broker : β}
    (run : H.machine.Run CutOff (State.initial kinds broker) s) {later earlier : List Event}
    {sub ref : Nat} {origin : Origin} {p : Publication}
    (sent : s.log = later ++ .enqueued sub ref origin p :: earlier) (m : Nat) :
    .removed m ref ∉ earlier := by
  have all := run.invariant (I := fun s => s.Owned ∧ s.Parted)
    ⟨initial_owned kinds broker, fun _ _ => nofun, trivial⟩
    fun _ _ _ g ok h => ⟨step_owned g.1 h, step_parted g.1 ok g.2 h⟩
  exact (all.2.history.split sent).1 m

end Parted

/-- In a state with finitely many tasks and calls, every one of them passes. -/
def State.everywhere (s : State κ β τ) (tasks : Forwarder τ → Bool) (calls : Nat → Call τ → Bool) :
    Bool :=
  (List.range s.nextCall).all fun m => (s.shared.forwarders m).all tasks && (s.calls m).all (calls m)

theorem everywhere_sound {s : State κ β τ} (staged : s.Staged) {tasks : Forwarder τ → Bool}
    {calls : Nat → Call τ → Bool} (h : s.everywhere tasks calls = true) :
    (∀ f w, s.shared.forwarders f = some w → tasks w = true) ∧
      ∀ m c, s.calls m = some c → calls m c = true := by
  simp only [State.everywhere, List.all_eq_true, List.mem_range, Bool.and_eq_true] at h
  refine ⟨fun f w task => ?_, fun m c called => ?_⟩
  · simpa [task] using (h f (staged.forwarders f w task)).1
  · simpa [called] using (h m (staged.calls m c called)).2

def State.cut (s : State κ β τ) (ref : Nat) : Bool :=
  (s.shared.heap ref).outbox.closed || s.everywhere
    (fun w => w.session != ref || (w.aborted && !w.polled)) fun _ c => c.courier != some ref

theorem cut_sound {s : State κ β τ} {ref : Nat} (staged : s.Staged) (h : s.cut ref = true) :
    s.Cut ref := by
  refine (Bool.or_eq_true_iff.mp h).imp (fun closed => closed) fun all => ?_
  obtain ⟨tasks, calls⟩ := everywhere_sound staged all
  exact ⟨fun f w task own => by simpa [own] using tasks f w task,
    fun m c called => by simpa using calls m c called⟩

def cutOff (s : State κ β τ) : Label ε → Bool
  | .advance n _ _ =>
      match s.calls n with
      | some (.deregister _ id) => (s.shared.registry.get id).all fun ref =>
          s.cut ref || ((s.shared.heap ref).handles == 0 && s.everywhere
            (fun w => w.session != ref || !w.polled)
            fun m c => !c.holds.contains ref || (m == n && c.parting))
      | _ => true
  | .forward f .wake => (s.shared.forwarders f).all fun w =>
      s.cut w.session || s.everywhere (fun _ => true) fun n c =>
        !decide (.removed n w.session ∈ s.log) || !c.holds.contains w.session
  | _ => true

theorem cutOff_sound (s : State κ β τ) (l : Label ε) (staged : s.Staged) (h : cutOff s l = true) :
    CutOff s l := by
  refine ⟨?_, ?_⟩
  · rintro n env now who id ref rfl at_ found
    simp only [cutOff, at_, found, Option.all_some, Bool.or_eq_true, Bool.and_eq_true,
      beq_iff_eq] at h
    refine h.imp (cut_sound staged) fun ⟨released, all⟩ => ?_
    obtain ⟨tasks, calls⟩ := everywhere_sound staged all
    refine ⟨released, fun m c called holds => ?_, fun f w task own => ?_⟩
    · simpa [holds] using calls m c called
    · simpa [own] using tasks f w task
  · rintro f w n c rfl task removed called holds
    simp only [cutOff, task, Option.all_some, Bool.or_eq_true] at h
    refine h.elim (cut_sound staged) fun all => ?_
    have out := (everywhere_sound staged all).2 n c called
    simp [removed, holds] at out

def listenerJoins : List (Label Unit) :=
  Request.steps (.openSession 16) 0 5 ++ Request.steps (.openSession 16) 1 5 ++
    Request.steps (.subscribe ⟨0, 7, "rooms.lobby", 0⟩) 2 9

/-- The session unsubscribes after one delivery and is kicked. The other one publishes, subscribes
and is closed after its transport has let go of it; a third one publishes. -/
def orderlyLeave : List (Label Unit) :=
  listenerJoins ++ Request.steps (.publish ⟨1, "rooms.lobby", [7]⟩) 3 6 ++
    [.forward 2 .wake, .forward 2 .poll, .forward 2 .poll, .forward 2 .poll] ++
    Request.steps (.unsubscribe ⟨0, 8, "rooms.lobby"⟩) 4 6 ++ Request.steps (.kick 0) 5 8 ++
    Request.steps (.publish ⟨1, "rooms.lobby", [8]⟩) 6 6 ++
    Request.steps (.subscribe ⟨1, 7, "rooms.lobby", 0⟩) 7 9 ++
    [.forward 7 .wake, .forward 7 .poll, .release 1] ++ Request.steps (.close 1) 8 6 ++
    Request.steps (.openSession 16) 9 5 ++ Request.steps (.publish ⟨2, "rooms.lobby", [9]⟩) 10 6

theorem departed_silent_orderly :
    ∃ s, defaults.hub.machine.Run CutOff defaults.boot s ∧ .removed 5 0 ∈ s.log ∧
      .returned 6 (.ok (.published ⟨"rooms.lobby", 1, [8]⟩)) ∈ s.log ∧ .removed 8 1 ∈ s.log ∧
      .returned 10 (.ok (.published ⟨"rooms.lobby", 2, [9]⟩)) ∈ s.log ∧
      ∃ later earlier, s.log = later ++ .enqueued 2 0 .live ⟨"rooms.lobby", 0, [7]⟩ :: earlier ∧
        .removed 5 0 ∉ earlier := by
  obtain ⟨s, run, removed, published, closed, again, sent⟩ := Machine.execWithin_witness
    (M := defaults.hub.machine) (s := defaults.boot) cutOff_sound
    (fun _ _ _ staged _ h => step_staged staged h) (initial_staged _ _) orderlyLeave
    (fun s : HubState => .removed 5 0 ∈ s.log ∧
      .returned 6 (.ok (.published ⟨"rooms.lobby", 1, [8]⟩)) ∈ s.log ∧ .removed 8 1 ∈ s.log ∧
      .returned 10 (.ok (.published ⟨"rooms.lobby", 2, [9]⟩)) ∈ s.log ∧
      .enqueued 2 0 .live ⟨"rooms.lobby", 0, [7]⟩ ∈ s.log) (by decide +kernel)
  obtain ⟨later, earlier, split⟩ := List.append_of_mem sent
  exact ⟨s, run, removed, published, closed, again, later, earlier, split,
    departed_silent run split 5⟩

/-- `close_session` has returned, the transport still holds the session: its forwarder goes
on sending. -/
theorem closed_session_receives :
    ∃ s, defaults.hub.machine.Run Machine.free defaults.boot s ∧
      ∃ earlier, s.log = .enqueued 2 0 .live ⟨"rooms.lobby", 0, [7]⟩ :: earlier ∧
        .removed 3 0 ∈ earlier ∧ .returned 3 (.ok .closed) ∈ earlier := by
  obtain ⟨s, -, run, sent⟩ := Machine.exec_witness (M := defaults.hub.machine) (s := defaults.boot)
    (listenerJoins ++ Request.steps (.close 0) 3 6 ++
      Request.steps (.publish ⟨1, "rooms.lobby", [7]⟩) 4 6 ++
      [.forward 2 .wake, .forward 2 .poll, .forward 2 .poll])
    (fun s : HubState => s.log.head? = some (.enqueued 2 0 .live ⟨"rooms.lobby", 0, [7]⟩) ∧
      .removed 3 0 ∈ s.log.tail ∧ .returned 3 (.ok .closed) ∈ s.log.tail) (by decide +kernel)
  obtain ⟨earlier, log⟩ := List.head?_eq_some_iff.mp sent.1
  have before := sent.2
  rw [log] at before
  exact ⟨s, run, earlier, log, before⟩

/-- A subscribe call enters its session in the reverse index while the session is registered,
or while `deregister` still has to scrub it. -/
def EntersPresent (s : State κ β τ) (l : Label ε) : Prop :=
  ∀ n env now a ref cursor, l = .advance n env now →
    s.calls n = some (.subscribeIndex a ref cursor) →
    s.shared.registry.get a.sessionId = some ref ∨
      ∃ m who r, s.calls m = some (.deregisterScrub who a.sessionId r)

/-- Whoever is listed is registered, or is about to be scrubbed. -/
def State.Current (s : State κ β τ) : Prop :=
  ∀ i channel, i ∈ s.shared.registry.subscribersOf channel →
    s.shared.registry.get i ≠ none ∨ ∃ m who r, s.calls m = some (.deregisterScrub who i r)

section Current

variable {H : Hub κ β τ ε} {s t : State κ β τ} {n : Nat} {env : ε} {now : Nat} {c : Call τ}
  {o : Outcome κ β τ}

theorem mem_subscribersOf_after {x : Shared κ β τ} {i : Nat} {channel : String}
    (h : i ∈ (x.registryAfter c).subscribersOf channel) :
    (i ∈ x.registry.subscribersOf channel ∧ ∀ who ref, c ≠ .deregisterScrub who i ref) ∨
      ∃ a ref cursor, c = .subscribeIndex a ref cursor ∧ i = a.sessionId := by
  cases c with
  | subscribeIndex a ref cursor =>
      simp only [Shared.registryAfter, SessionRegistry.subscribersOf_addSubscription] at h
      split at h
      · rcases List.mem_append.mp h with old | new
        · exact .inl ⟨old, by rintro _ _ ⟨⟩⟩
        · exact .inr ⟨a, ref, cursor, rfl, List.mem_singleton.mp new⟩
      · exact .inl ⟨h, by rintro _ _ ⟨⟩⟩
  | unsubscribeScrub a ref =>
      simp only [Shared.registryAfter, SessionRegistry.subscribersOf_scrubChannel] at h
      split at h
      · exact .inl ⟨List.mem_of_mem_filter h, by rintro _ _ ⟨⟩⟩
      · exact .inl ⟨h, by rintro _ _ ⟨⟩⟩
  | unsubscribeReap a ref =>
      simp only [Shared.registryAfter, SessionRegistry.subscribersOf_removeChannel] at h
      split at h
      · cases h
      · exact .inl ⟨h, by rintro _ _ ⟨⟩⟩
  | deregisterScrub who id ref =>
      simp only [Shared.registryAfter, SessionRegistry.subscribersOf_scrub, List.mem_filter] at h
      refine .inl ⟨h.1, ?_⟩
      rintro who' ref' ⟨⟩
      simp at h
  | deregister who id =>
      simp only [Shared.registryAfter] at h
      split at h <;> exact .inl ⟨h, by rintro _ _ ⟨⟩⟩
  | _ => exact .inl ⟨h, by rintro _ _ ⟨⟩⟩

theorem advance_registered_or_scrubbed {i : Nat} (acts : H.act s.shared n env now c = some o)
    (found : s.shared.registry.get i ≠ none) :
    (s.after n c o).shared.registry.get i ≠ none ∨
      ∃ m who r, (s.after n c o).calls m = some (.deregisterScrub who i r) := by
  by_cases absent : (s.after n c o).shared.registry.get i = none
  · rw [after_registry acts] at absent
    rcases registryAfter_none absent with old | ⟨who, rfl⟩
    · exact absurd old found
    · obtain ⟨ref, present⟩ := Option.ne_none_iff_exists'.mp found
      refine .inr ⟨n, who, ref, ?_⟩
      simp only [Hub.act, present, Option.some.injEq] at acts
      subst acts
      simp [Outcome.after, Shared.goto]
  · exact .inl absent

theorem step_current (staged : s.Staged) (enters : EntersPresent s l) (g : s.Current)
    (h : H.step s l = some t) : t.Current := by
  cases Hub.stepped h with
  | start r =>
      intro i channel listed
      refine (g i channel listed).imp id ?_
      rintro ⟨m, who, ref, pending⟩
      have older : m ≠ s.nextCall := Nat.ne_of_lt (staged.calls m _ pending)
      exact ⟨m, who, ref, (Function.update_of_ne older ..).trans pending⟩
  | @advance n env now c o at_ acts =>
      intro i channel listed
      rw [after_registry acts] at listed
      rcases mem_subscribersOf_after listed with ⟨old, unscrubbed⟩ | ⟨a, ref, cursor, rfl, rfl⟩
      · rcases g i channel old with found | ⟨m, who, r, pending⟩
        · exact advance_registered_or_scrubbed acts found
        · refine .inr ⟨m, who, r, ?_⟩
          have other : m ≠ n := by
            rintro rfl
            exact unscrubbed who r (Option.some.inj (at_.symm.trans pending))
          rw [after_calls, Function.update_of_ne other]
          exact pending
      · rcases enters n env now a ref cursor rfl at_ with found | ⟨m, who, r, pending⟩
        · refine advance_registered_or_scrubbed acts ?_
          rw [found]
          nofun
        · refine .inr ⟨m, who, r, ?_⟩
          have other : m ≠ n := by
            rintro rfl
            cases at_.symm.trans pending
          rw [after_calls, Function.update_of_ne other]
          exact pending
  | forward task moves =>
      have frame := (Hub.forwarded moves).frame task
      intro i channel listed
      rw [frame.registry] at listed ⊢
      exact g i channel listed
  | transport quiet sheds =>
      intro i channel listed
      rw [quiet.registry] at listed ⊢
      exact g i channel listed

/-- With no call in flight, every listed session is registered and was never removed. -/
theorem listed_registered {kinds : Nat → κ} {broker : β}
    (run : H.machine.Run EntersPresent (State.initial kinds broker) s)
    (silent : ∀ n, s.calls n = none) {i : Nat} {channel : String}
    (listed : i ∈ s.shared.registry.subscribersOf channel) :
    ∃ ref, s.shared.registry.get i = some ref ∧ ∀ m, .removed m ref ∉ s.log := by
  have current := (run.invariant (I := fun s => s.Staged ∧ s.Current)
    ⟨initial_staged kinds broker, fun _ _ listed => (by cases listed)⟩
    fun _ _ _ g enters h => ⟨step_staged g.1 h, step_current g.1 enters g.2 h⟩).2
  rcases current i channel listed with found | ⟨m, who, r, pending⟩
  · obtain ⟨ref, registered⟩ := Option.ne_none_iff_exists'.mp found
    refine ⟨ref, registered, ?_⟩
    intro m removed
    exact (run_gone run removed).unregistered i registered
  · rw [silent m] at pending
    cases pending

end Current

def entersPresent (s : State κ β τ) : Label ε → Bool
  | .advance n _ _ =>
      match s.calls n with
      | some (.subscribeIndex a ref _) =>
          s.shared.registry.get a.sessionId == some ref ||
            (List.range s.nextCall).any fun m =>
              match s.calls m with
              | some (.deregisterScrub _ id _) => id == a.sessionId
              | _ => false
      | _ => true
  | _ => true

theorem entersPresent_sound (s : State κ β τ) (l : Label ε) (_ : s.Staged)
    (h : entersPresent s l = true) : EntersPresent s l := by
  rintro n env now a ref cursor rfl at_
  simp only [entersPresent, at_, Bool.or_eq_true, beq_iff_eq, List.any_eq_true] at h
  refine h.imp id ?_
  rintro ⟨m, -, pending⟩
  split at pending
  · next who id r called =>
      rw [beq_iff_eq] at pending
      exact ⟨m, who, r, pending ▸ called⟩
  · cases pending

/-- A session that is being kicked subscribes between the removal and the scrub; another one
stays. -/
def lateSubscribe (k rest : Nat) : List (Label Unit) :=
  Request.steps (.openSession 16) 0 5 ++ Request.steps (.openSession 16) 1 5 ++
    Request.steps (.subscribe ⟨1, 7, "rooms.lobby", 0⟩) 2 9 ++
    Request.steps (.subscribe ⟨0, 7, "rooms.lobby", 0⟩) 3 8 ++ Request.steps (.kick 0) 4 k ++
    [.advance 3 () 0] ++ List.replicate rest (.advance 4 () 0)

theorem listed_registered_kicked :
    ∃ s, defaults.hub.machine.Run EntersPresent defaults.boot s ∧ (∀ n, s.calls n = none) ∧
      .removed 4 0 ∈ s.log ∧ s.shared.registry.subscribersOf "rooms.lobby" = [1] ∧
      ∃ ref, s.shared.registry.get 1 = some ref ∧ ∀ m, .removed m ref ∉ s.log := by
  obtain ⟨s, run, silent, removed, listed⟩ := Machine.execWithin_witness
    (M := defaults.hub.machine) (s := defaults.boot) entersPresent_sound
    (fun _ _ _ staged _ h => step_staged staged h) (initial_staged _ _) (lateSubscribe 3 5)
    (fun s => idle s = true ∧ .removed 4 0 ∈ s.log ∧
      s.shared.registry.subscribersOf "rooms.lobby" = [1]) (by decide +kernel)
  have none_ := idle_sound (run_staged run) silent
  have member : 1 ∈ s.shared.registry.subscribersOf "rooms.lobby" := by
    rw [listed]
    exact List.mem_singleton_self _
  exact ⟨s, run, none_, removed, listed, listed_registered run none_ member⟩

/-- The kick is over when the subscribe call writes the index: the session stays listed. -/
theorem kicked_session_listed :
    ∃ s, defaults.hub.machine.Run Machine.free defaults.boot s ∧ (∀ n, s.calls n = none) ∧
      .returned 4 (.ok (.kicked true)) ∈ s.log ∧ s.shared.registry.get 0 = none ∧
      0 ∈ s.shared.registry.subscribersOf "rooms.lobby" := by
  obtain ⟨s, -, run, silent, kicked, absent, listed⟩ := Machine.exec_witness
    (M := defaults.hub.machine) (s := defaults.boot) (lateSubscribe 8 0)
    (fun s => idle s = true ∧ .returned 4 (.ok (.kicked true)) ∈ s.log ∧
      s.shared.registry.get 0 = none ∧ 0 ∈ s.shared.registry.subscribersOf "rooms.lobby")
    (by decide +kernel)
  exact ⟨s, run, idle_sound (run_staged run) silent, kicked, absent, listed⟩

end Cherenkov
