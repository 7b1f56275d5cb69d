import Cherenkov.Hub.References
import Cherenkov.Hub.Stages

/-! Forwarder tasks belong to the sessions whose maps hold them, and sessions to whoever refers to
them. A task that may still run is stored in the map of its session, or a call is about to store it
or to stop it. A session object that nothing refers to has an empty map, because dropping it stops
what the map holds. Calls, tasks and transports interleave as they like. -/

namespace Cherenkov

variable {κ β τ ε : Type}

section Sheds

variable {x y : Shared κ β τ} {r f : Nat} {channel : String} {w : Forwarder τ}

theorem Sheds.stored_before (sheds : Sheds x y)
    (stored : (y.heap r).subscriptions.get channel = some f) :
    (x.heap r).subscriptions.get channel = some f := by
  induction sheds with
  | refl => exact stored
  | stored _ _ subscriptions _ ih =>
      rw [subscriptions r] at stored
      exact ih stored
  | dropped _ ref ih =>
      by_cases own : r = ref
      · subst own
        simp [Shared.abortAll, Shared.setSubscriptions, Shared.setSession] at stored
      · rw [abortAll_subscriptions _ own] at stored
        exact ih stored

/-- A task that may still run after objects were dropped was in none of their maps. -/
theorem Sheds.running_kept (sheds : Sheds x y) (task : y.forwarders f = some w)
    (running : w.aborted = false) : x.forwarders f = some w ∧
      ((x.heap r).subscriptions.get channel = some f →
        (y.heap r).subscriptions.get channel = some f) := by
  induction sheds with
  | refl => exact ⟨task, fun stored => stored⟩
  | stored _ forwarders subscriptions _ ih =>
      rw [forwarders] at task
      obtain ⟨before, kept⟩ := ih task
      exact ⟨before, fun stored => by rw [subscriptions r]; exact kept stored⟩
  | @dropped y _ ref ih =>
      have spared : f ∉ (y.heap ref).subscriptions.values ∧ y.forwarders f = some w := by
        simp only [Shared.abortAll, Shared.setSubscriptions, Shared.setSession, Shared.abort] at task
        split at task
        · obtain ⟨v, -, rfl⟩ := Option.map_eq_some_iff.mp task
          cases running
        · next absent => exact ⟨absent, task⟩
      obtain ⟨before, kept⟩ := ih spared.2
      refine ⟨before, fun stored => ?_⟩
      have here := kept stored
      by_cases own : r = ref
      · subst own
        exact absurd (DashMap.mem_values.mpr ⟨channel, here⟩) spared.1
      · rw [abortAll_subscriptions _ own]
        exact here

end Sheds

/-- A task that may still run is stored in the map of its session, or the call that will store
it or stop it is under way. -/
def State.Sheltered (s : State κ β τ) : Prop :=
  ∀ f w, s.shared.forwarders f = some w → w.aborted = false →
    (s.shared.heap w.session).subscriptions.get w.channel = some f ∨
      (∃ a cursor, s.calls f = some (.subscribeInsert a w.session cursor) ∧
        a.channel = w.channel) ∨
      (∃ a, s.calls f = some (.subscribeStray a w.session)) ∨
      ∃ m a, s.calls m = some (.unsubscribeAbort a w.session f)

section Sheltered

variable {H : Hub κ β τ ε} {s t : State κ β τ} {n : Nat} {env : ε} {now : Nat} {c : Call τ}
  {o : Outcome κ β τ}

theorem after_subscriptions (acts : H.act s.shared n env now c = some o) {ref : Nat}
    (registered : (s.after n c o).shared.registry.get ((s.after n c o).shared.heap ref).id =
      some ref) :
    ((s.after n c o).shared.heap ref).subscriptions = s.shared.subscriptionsAfter n c ref :=
  after_held_subscriptions acts (held_of_registered registered)

theorem after_aborted (acts : H.act s.shared n env now c = some o) {f : Nat} {w : Forwarder τ}
    (stops : s.shared.forwardersAfter n c f = (s.shared.abort [f]).forwarders f)
    (found : (s.after n c o).shared.forwarders f = some w) : w.aborted = true := by
  obtain ⟨v, task, same⟩ := (quiet_after s n c o).forwarder_some found
  rw [(Hub.acted acts).forwarders, stops] at task
  simp only [Shared.abort, List.mem_singleton, if_true] at task
  obtain ⟨u, -, rfl⟩ := Option.map_eq_some_iff.mp task
  rcases same with rfl | rfl <;> rfl

theorem subscriptionsAfter_get {x : Shared κ β τ} {ref f : Nat} {channel : String}
    (old : ref < x.nextRef) (stored : (x.heap ref).subscriptions.get channel = some f) :
    (x.subscriptionsAfter n c ref).get channel = some f ∨
      ∃ a, c = .unsubscribeRemove a ref ∧ a.channel = channel := by
  cases c with
  | openSession capacity =>
      refine .inl ?_
      simp only [Shared.subscriptionsAfter, Function.update_of_ne (Nat.ne_of_lt old)]
      exact stored
  | subscribeInsert a r cursor =>
      refine .inl ?_
      simp only [Shared.subscriptionsAfter]
      by_cases own : ref = r
      · subst own
        rw [Function.update_self]
        split
        · exact stored
        · next absent =>
            have other : channel ≠ a.channel := by
              rintro rfl
              simp [DashMap.containsKey, stored] at absent
            rw [DashMap.get_put_ne _ _ other]
            exact stored
      · rw [Function.update_of_ne own]
        exact stored
  | unsubscribeRemove a r =>
      simp only [Shared.subscriptionsAfter]
      by_cases own : ref = r
      · subst own
        by_cases here : a.channel = channel
        · exact .inr ⟨a, rfl, here⟩
        · refine .inl ?_
          rw [Function.update_self]
          split
          · rw [DashMap.get_remove_ne _ (Ne.symm here)]
            exact stored
          · exact stored
      · refine .inl ?_
        rw [Function.update_of_ne own]
        exact stored
  | _ => exact .inl stored

theorem advance_sheltered (addressed : s.Addressed) (g : s.Sheltered) (at_ : s.calls n = some c)
    (acts : H.act s.shared n env now c = some o) : (s.after n c o).Sheltered := by
  intro f w found running
  have sheds := sheds_after s n c o
  have stores : (s.shared.subscriptionsAfter n c w.session).get w.channel = some f →
      ((s.after n c o).shared.heap w.session).subscriptions.get w.channel = some f := by
    rw [← (Hub.acted acts).subscriptions]
    exact (sheds.running_kept found running).2
  have pending : ∀ m d, m ≠ n → s.calls m = some d → (s.after n c o).calls m = some d :=
    fun m d other called => (Function.update_of_ne other ..).trans called
  rcases after_forwarder_some acts found with ⟨a, ref, cursor, stream, rfl, rfl, same⟩ |
    ⟨v, older, same⟩
  · -- the call has just spawned it
    cases acts
    rcases same with rfl | rfl
    · exact .inr (.inl ⟨a, cursor, by simp [Shared.goto], rfl⟩)
    · cases running
  · obtain rfl : w = v := by
      rcases same with rfl | rfl
      · rfl
      · cases running
    have known := addressed.forwarders f w older
    rcases g f w older running with stored | ⟨a, cursor, inserting, here⟩ | ⟨a, straying⟩ |
      ⟨m, a, aborting⟩
    · rcases subscriptionsAfter_get (n := n) (c := c) known stored with kept | ⟨a, rfl, here⟩
      · exact .inl (stores kept)
      · -- an unsubscribe took it out and is about to abort it
        refine .inr (.inr (.inr ⟨n, a, ?_⟩))
        rw [← here] at stored
        simp only [Hub.act, stored, Option.some.injEq] at acts
        subst acts
        simp [Shared.goto]
    · by_cases own : f = n
      · subst own
        cases at_.symm.trans inserting
        cases present : (s.shared.heap w.session).subscriptions.containsKey a.channel with
        | true =>
            simp only [Hub.act, present, if_true, Option.some.injEq] at acts
            subst acts
            exact .inr (.inr (.inl ⟨a, by simp [Shared.goto]⟩))
        | false =>
            refine .inl (stores ?_)
            rw [← here]
            simp [Shared.subscriptionsAfter, present]
      · exact .inr (.inl ⟨a, cursor, pending f _ own inserting, here⟩)
    · by_cases own : f = n
      · subst own
        cases at_.symm.trans straying
        rw [after_aborted acts rfl found] at running
        cases running
      · exact .inr (.inr (.inl ⟨a, pending f _ own straying⟩))
    · by_cases own : m = n
      · subst own
        cases at_.symm.trans aborting
        rw [after_aborted acts rfl found] at running
        cases running
      · exact .inr (.inr (.inr ⟨m, a, pending m _ own aborting⟩))

theorem step_sheltered {l : Label ε} (staged : s.Staged) (addressed : s.Addressed)
    (g : s.Sheltered) (h : H.step s l = some t) : t.Sheltered := by
  cases Hub.stepped h with
  | start r =>
      have pending : ∀ m d, s.calls m = some d →
          Function.update s.calls s.nextCall (some r.entry) m = some d := fun m d called =>
        (Function.update_of_ne (Nat.ne_of_lt (staged.calls m d called)) ..).trans called
      intro f w found running
      rcases g f w found running with stored | ⟨a, cursor, inserting, here⟩ | ⟨a, straying⟩ |
        ⟨m, a, aborting⟩
      · exact .inl stored
      · exact .inr (.inl ⟨a, cursor, pending f _ inserting, here⟩)
      · exact .inr (.inr (.inl ⟨a, pending f _ straying⟩))
      · exact .inr (.inr (.inr ⟨m, a, pending m _ aborting⟩))
  | advance at_ acts => exact advance_sheltered addressed g at_ acts
  | @forward f move w x' events task moves =>
      have frame := (Hub.forwarded moves).frame task
      intro f' w' found running
      simp only [frame.subscriptions]
      by_cases same : f' = f
      · subst same
        obtain ⟨session, channel, -, aborted⟩ := frame.own w' found
        rw [session, channel]
        exact g f' w task (aborted.symm.trans running)
      · rw [frame.others f' same] at found
        exact g f' w' found running
  | transport quiet sheds =>
      intro f w found running
      obtain ⟨older, kept⟩ := sheds.running_kept found running
      rcases g f w older running with stored | waiting
      · exact .inl (kept stored)
      · exact .inr waiting

theorem initial_sheltered (kinds : Nat → κ) (broker : β) :
    (State.initial kinds broker : State κ β τ).Sheltered := by
  intro f w found
  cases found

/-- With no call under way, a task that may still run is stored. -/
theorem State.Sheltered.stored (g : s.Sheltered) (silent : ∀ n, s.calls n = none) {f : Nat}
    {w : Forwarder τ} (found : s.shared.forwarders f = some w) (running : w.aborted = false) :
    (s.shared.heap w.session).subscriptions.get w.channel = some f := by
  rcases g f w found running with stored | ⟨a, cursor, called, -⟩ | ⟨a, called⟩ | ⟨m, a, called⟩
  · exact stored
  · cases (silent f).symm.trans called
  · cases (silent f).symm.trans called
  · cases (silent m).symm.trans called

end Sheltered

/-- An object that nothing refers to has been dropped, or was not made yet: its map is empty. -/
structure State.Emptied (s : State κ β τ) : Prop where
  unmade : ∀ ref, s.shared.nextRef ≤ ref → ∀ channel,
    (s.shared.heap ref).subscriptions.get channel = none
  dropped : ∀ ref, s.held ref = false → ∀ channel,
    (s.shared.heap ref).subscriptions.get channel = none

section Emptied

variable {H : Hub κ β τ ε} {s t : State κ β τ} {n ref : Nat} {env : ε} {now : Nat} {c : Call τ}
  {o : Outcome κ β τ} {channel : String}

theorem abortAll_empties (x : Shared κ β τ) (ref : Nat) (channel : String) :
    ((x.abortAll ref).heap ref).subscriptions.get channel = none := by
  simp [Shared.abortAll, Shared.setSubscriptions, Shared.setSession]

theorem dropArcs_empties (unheld : s.held ref = false) {refs : List Nat} (listed : ref ∈ refs) :
    ((s.dropArcs refs).shared.heap ref).subscriptions.get channel = none := by
  suffices ∀ x : Shared κ β τ, ref ∈ refs ∨ (x.heap ref).subscriptions.get channel = none →
      ((refs.foldl (fun x r => if s.held r then x else x.abortAll r) x).heap ref).subscriptions.get
        channel = none from this _ (.inl listed)
  clear listed
  induction refs with
  | nil =>
      intro x empty
      exact empty.resolve_left List.not_mem_nil
  | cons r rest ih =>
      intro x empty
      apply ih
      dsimp only
      by_cases own : r = ref
      · subst own
        rw [unheld, if_neg Bool.false_ne_true]
        exact .inr (abortAll_empties x r channel)
      · rcases empty with listed | empty
        · exact .inl ((List.mem_cons.mp listed).resolve_left (Ne.symm own))
        · refine .inr ?_
          split
          · exact empty
          · rw [abortAll_subscriptions x (Ne.symm own)]
            exact empty

theorem act_handles (acts : H.act s.shared n env now c = some o) (old : ref < s.shared.nextRef) :
    (o.shared.heap ref).handles = (s.shared.heap ref).handles ∨
      (o.shared.heap ref).handles = (s.shared.heap ref).handles + 1 ∧
        ∃ len, c = .gauge (.opened ref) len := by
  cases c with
  | openSession capacity =>
      cases acts
      simp [Shared.goto, Function.update_of_ne (Nat.ne_of_lt old)]
  | gauge m len =>
      cases acts
      cases m with
      | opened r =>
          by_cases own : ref = r
          · subst own
            exact .inr ⟨by simp [Shared.done, Meter.handOver, Shared.setSession], len, rfl⟩
          · simp [Shared.done, Meter.handOver, Shared.setSession, own]
      | _ => exact .inl rfl
  | subscribeSend a r cursor stream rest =>
      cases rest with
      | nil =>
          cases acts
          exact .inl rfl
      | cons p rest =>
          simp only [Hub.act] at acts
          split at acts <;> cases acts
          · exact .inl rfl
          · exact .inl (setSession_same Session.handles (by rfl) ref)
  | _ =>
      simp only [Hub.act] at acts
      (repeat' split at acts) <;> cases acts <;>
        first
        | exact .inl rfl
        | exact .inl (setSession_same Session.handles (by rfl) ref)

theorem held_iff : s.held ref = true ↔
    s.shared.registry.get (s.shared.heap ref).id = some ref ∨ 0 < (s.shared.heap ref).handles ∨
      ∃ m d, m < s.nextCall ∧ s.calls m = some d ∧ ref ∈ d.holds := by
  simp only [State.held, Bool.or_eq_true, beq_iff_eq, decide_eq_true_eq, List.any_eq_true,
    List.mem_range, Option.any_eq_true, List.contains_iff_mem, or_assoc]
  constructor
  · rintro (registered | handle | ⟨m, known, d, called, holds⟩)
    · exact .inl registered
    · exact .inr (.inl handle)
    · exact .inr (.inr ⟨m, d, known, called, holds⟩)
  · rintro (registered | handle | ⟨m, d, known, called, holds⟩)
    · exact .inl registered
    · exact .inr (.inl handle)
    · exact .inr (.inr ⟨m, known, d, called, holds⟩)

/-- The step of a call takes references only from the objects that it then drops. -/
theorem landed_held (staged : s.Staged) (at_ : s.calls n = some c)
    (acts : H.act s.shared n env now c = some o) (old : ref < s.shared.nextRef)
    (kept : ref ∉ c.holds ++ o.displaced.toList) (held : s.held ref = true) :
    (s.landed n o).held ref = true := by
  have acted := Hub.acted acts
  have id : (o.shared.heap ref).id = (s.shared.heap ref).id := by
    rw [acted.id, idsAfter_of_lt old]
  rcases held_iff.mp held with registered | handle | ⟨m, d, known, called, holds⟩
  · cases found : (s.shared.registryAfter c).get (s.shared.heap ref).id with
    | none =>
        rcases registryAfter_none found with absent | ⟨who, rfl⟩
        · rw [registered] at absent
          cases absent
        · -- the call that takes the entry out of the registry keeps the reference
          have known := staged.calls n _ at_
          simp only [Hub.act, registered, Option.some.injEq] at acts
          subst acts
          refine held_iff.mpr (.inr (.inr ⟨n, _, known, Function.update_self .., ?_⟩))
          exact List.mem_cons_self
    | some r =>
        by_cases same : r = ref
        · subst same
          refine held_iff.mpr (.inl ?_)
          rw [State.landed, acted.registry, id]
          exact found
        · rcases registryAfter_get found with before | ⟨rfl, there⟩
          · exact absurd (Option.some.inj (before.symm.trans registered)) same
          · cases acts
            refine absurd ?_ kept
            simp [there, registered]
  · refine held_iff.mpr (.inr (.inl ?_))
    have more := act_handles acts old
    simp only [State.landed]
    omega
  · refine held_iff.mpr (.inr (.inr ⟨m, d, known, ?_, holds⟩))
    have other : m ≠ n := by
      rintro rfl
      cases at_.symm.trans called
      exact kept (List.mem_append_left _ holds)
    exact (Function.update_of_ne other ..).trans called

theorem advance_emptied (staged : s.Staged) (addressed : s.Addressed) (g : s.Emptied)
    (at_ : s.calls n = some c) (acts : H.act s.shared n env now c = some o) :
    (s.after n c o).Emptied := by
  -- what a map holds after the step it held before, or an insertion by a holder has put there
  have older : ∀ ref channel f,
      ((s.after n c o).shared.heap ref).subscriptions.get channel = some f →
      ref ∈ c.holds ∨ (s.shared.heap ref).subscriptions.get channel = some f := by
    intro ref channel f stored
    have there := (sheds_after s n c o).stored_before stored
    rw [(Hub.acted acts).subscriptions] at there
    rcases subscriptionsAfter_some there with ⟨a, cursor, rfl, -, -⟩ | before
    · exact .inl List.mem_cons_self
    · exact .inr before
  have made : ∀ ref channel f,
      ((s.after n c o).shared.heap ref).subscriptions.get channel = some f →
      ref < s.shared.nextRef := by
    intro ref channel f stored
    rcases older ref channel f stored with holds | before
    · exact addressed.held n c at_ ref holds
    · refine Nat.lt_of_not_le fun unmade => ?_
      rw [g.unmade ref unmade channel] at before
      cases before
  refine ⟨?_, ?_⟩
  · intro ref unmade channel
    refine Option.eq_none_iff_forall_ne_some.mpr fun f stored => ?_
    have grown : s.shared.nextRef ≤ (s.after n c o).shared.nextRef :=
      step_nextRef_le (Hub.step_act at_ acts)
    exact absurd (made ref channel f stored) (Nat.not_lt.mpr (Nat.le_trans grown unmade))
  · intro ref unheld channel
    rw [State.after, dropArcs_held] at unheld
    by_cases dropped : ref ∈ c.holds ++ o.displaced.toList
    · exact dropArcs_empties unheld dropped
    · refine Option.eq_none_iff_forall_ne_some.mpr fun f stored => ?_
      have before := (older ref channel f stored).resolve_left
        fun holds => dropped (List.mem_append_left _ holds)
      cases held : s.held ref with
      | false =>
          rw [g.dropped ref held channel] at before
          cases before
      | true =>
          rw [landed_held staged at_ acts (made ref channel f stored) dropped held] at unheld
          cases unheld

theorem State.Emptied.still (g : s.Emptied) (registry : t.shared.registry = s.shared.registry)
    (nextRef : t.shared.nextRef = s.shared.nextRef)
    (id : ∀ r, (t.shared.heap r).id = (s.shared.heap r).id)
    (handles : ∀ r, (t.shared.heap r).handles = (s.shared.heap r).handles)
    (subscriptions : ∀ r, (t.shared.heap r).subscriptions = (s.shared.heap r).subscriptions)
    (calls : ∀ m d, s.calls m = some d → m < s.nextCall → t.calls m = some d)
    (nextCall : s.nextCall ≤ t.nextCall) : t.Emptied := by
  refine ⟨?_, ?_⟩
  · intro ref unmade channel
    rw [nextRef] at unmade
    rw [subscriptions]
    exact g.unmade ref unmade channel
  · intro ref unheld channel
    rw [subscriptions]
    apply g.dropped
    cases held : s.held ref with
    | false => rfl
    | true =>
        rw [held_iff.mpr ?_] at unheld
        · cases unheld
        · rw [registry, id, handles]
          rcases held_iff.mp held with registered | handle | ⟨m, d, known, called, holds⟩
          · exact .inl registered
          · exact .inr (.inl handle)
          · exact .inr (.inr ⟨m, d, Nat.lt_of_lt_of_le known nextCall, calls m d called known, holds⟩)

/-- The frames and futures of a session are no references to it. -/
theorem State.Emptied.stored (g : s.Emptied) {session : Session}
    (id : session.id = (s.shared.heap ref).id) (handles : session.handles = (s.shared.heap ref).handles)
    (subscriptions : session.subscriptions = (s.shared.heap ref).subscriptions) :
    ({ s with shared := s.shared.setSession ref session } : State κ β τ).Emptied :=
  g.still rfl rfl (setSession_same Session.id id) (setSession_same Session.handles handles)
    (setSession_same Session.subscriptions subscriptions) (fun _ _ called _ => called) (Nat.le_refl _)

theorem forwarded_handles {f : Nat} {w : Forwarder τ} {x x' : Shared κ β τ} {events : List Event}
    (moved : H.Forwarded x f w x' events) (r : Nat) :
    (x'.heap r).handles = (x.heap r).handles := by
  cases moved with
  | sent polled holding room => exact setSession_same Session.handles (by rfl) r
  | _ => rfl

/-- A transport gets its reference from the call that opens the session. -/
theorem step_released {l : Label ε} (h : H.step s l = some t) (old : ref < s.shared.nextRef)
    (released : (s.shared.heap ref).handles = 0) :
    (t.shared.heap ref).handles = 0 ∨ ∃ n len, s.calls n = some (.gauge (.opened ref) len) := by
  cases l with
  | start r =>
      cases h
      exact .inl released
  | advance n env now =>
      obtain ⟨c, o, at_, acts, rfl⟩ := H.step_advance h
      rw [State.after, dropArcs_handles]
      rcases act_handles acts old with same | ⟨-, len, rfl⟩
      · exact .inl (same.trans released)
      · exact .inr ⟨n, len, at_⟩
  | forward f move =>
      simp only [Hub.step] at h
      split at h
      · cases h
      · obtain ⟨⟨x', events⟩, moves, rfl⟩ := Option.map_eq_some_iff.mp h
        exact .inl ((forwarded_handles (Hub.forwarded moves) ref).trans released)
  | release r =>
      simp only [Hub.step] at h
      split at h <;> cases h
      next held =>
        have other : ref ≠ r := by
          rintro rfl
          exact held released
        rw [dropArcs_handles]
        simp [State.letGo, Shared.setSession, other, released]
  | _ =>
      simp only [Hub.step] at h
      (repeat' split at h) <;> cases h <;>
        first
        | exact .inl released
        | exact .inl ((setSession_same Session.handles (by rfl) ref).trans released)

theorem release_emptied (g : s.Emptied) (ref : Nat) : ((s.letGo ref).dropArcs [ref]).Emptied := by
  have maps : ∀ r, ((s.letGo ref).shared.heap r).subscriptions = (s.shared.heap r).subscriptions :=
    setSession_same Session.subscriptions rfl
  have before : ∀ r channel f,
      (((s.letGo ref).dropArcs [ref]).shared.heap r).subscriptions.get channel = some f →
      (s.shared.heap r).subscriptions.get channel = some f := by
    intro r channel f stored
    have there := (sheds_dropArcs (s := s.letGo ref) .refl [ref]).stored_before stored
    rw [maps] at there
    exact there
  refine ⟨?_, ?_⟩
  · intro r unmade channel
    refine Option.eq_none_iff_forall_ne_some.mpr fun f stored => ?_
    have quiet := quiet_dropArcs (s.letGo ref) [ref]
    rw [quiet.nextRef] at unmade
    have there := before r channel f stored
    rw [g.unmade r unmade channel] at there
    cases there
  · intro r unheld channel
    rw [dropArcs_held] at unheld
    by_cases own : r = ref
    · subst own
      exact dropArcs_empties unheld (List.mem_singleton_self r)
    · refine Option.eq_none_iff_forall_ne_some.mpr fun f stored => ?_
      have free : s.held r = false := by
        have same : (s.letGo ref).shared.heap r = s.shared.heap r := by
          simp [State.letGo, Shared.setSession, own]
        rw [State.held, same] at unheld
        exact unheld
      have there := before r channel f stored
      rw [g.dropped r free channel] at there
      cases there

theorem step_emptied {l : Label ε} (staged : s.Staged) (addressed : s.Addressed) (g : s.Emptied)
    (h : H.step s l = some t) : t.Emptied := by
  cases l with
  | start r =>
      cases h
      refine g.still rfl rfl (fun _ => rfl) (fun _ => rfl) (fun _ => rfl) ?_ (Nat.le_succ _)
      intro m d called known
      exact (Function.update_of_ne (Nat.ne_of_lt known) ..).trans called
  | advance n env now =>
      obtain ⟨c, o, at_, acts, rfl⟩ := H.step_advance h
      exact advance_emptied staged addressed g at_ acts
  | forward f move =>
      simp only [Hub.step] at h
      split at h
      · cases h
      · next w task =>
          obtain ⟨⟨x', events⟩, moves, rfl⟩ := Option.map_eq_some_iff.mp h
          have moved := Hub.forwarded moves
          have frame := moved.frame task
          exact g.still frame.registry frame.nextRef frame.id (forwarded_handles moved)
            frame.subscriptions (fun _ _ called _ => called) (Nat.le_refl _)
  | release ref =>
      simp only [Hub.step] at h
      split at h
      · cases h
      · cases h
        exact release_emptied g ref
  | drain ref =>
      cases h
      exact g.stored rfl rfl rfl
  | hangUp ref =>
      cases h
      exact g.stored rfl rfl rfl
  | deliver id frame =>
      simp only [Hub.step] at h
      (repeat' split at h) <;> cases h <;> first | exact g | exact g.stored rfl rfl rfl
  | send ref frame =>
      simp only [Hub.step] at h
      (repeat' split at h) <;> cases h <;> first | exact g | exact g.stored rfl rfl rfl
  | listen ref future =>
      cases h
      exact g.stored rfl rfl rfl
  | unlisten ref future =>
      cases h
      exact g.stored rfl rfl rfl

theorem initial_emptied (kinds : Nat → κ) (broker : β) :
    (State.initial kinds broker : State κ β τ).Emptied :=
  ⟨fun _ _ _ => rfl, fun _ _ _ => rfl⟩

end Emptied

/-- What every reachable state says about references and tasks. -/
structure State.Owned (s : State κ β τ) : Prop where
  staged : s.Staged
  addressed : s.Addressed
  nascent : s.Nascent
  sheltered : s.Sheltered
  emptied : s.Emptied

theorem step_owned {H : Hub κ β τ ε} {s t : State κ β τ} {l : Label ε} (g : s.Owned)
    (h : H.step s l = some t) : t.Owned where
  staged := step_staged g.staged h
  addressed := step_addressed g.addressed h
  nascent := step_nascent g.addressed g.nascent h
  sheltered := step_sheltered g.staged g.addressed g.sheltered h
  emptied := step_emptied g.staged g.addressed g.emptied h

theorem initial_owned (kinds : Nat → κ) (broker : β) :
    (State.initial kinds broker : State κ β τ).Owned :=
  ⟨initial_staged _ _, initial_addressed _ _, initial_nascent _ _, initial_sheltered _ _,
    initial_emptied _ _⟩

end Cherenkov
