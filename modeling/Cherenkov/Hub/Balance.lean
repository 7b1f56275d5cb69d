import Cherenkov.Hub.Sequential
import Cherenkov.Library.DashMap
import Mathlib.Data.Finset.Card

/-! `handle_subscribe` tells the kind of a channel that a session subscribes, and every way out of
it that fails tells the kind that the session has left; `handle_unsubscribe` does so too. Closing
and kicking a session end its subscriptions without a word to the kind. -/

namespace Cherenkov

variable {κ β τ ε : Type}

def Event.entering (channel : String) : Event → Bool
  | .onSubscribe _ _ c (.ok _) => c == channel
  | _ => false

def Event.exiting (channel : String) : Event → Bool
  | .onUnsubscribe _ _ c _ => c == channel
  | _ => false

def State.subscribed (s : State κ β τ) (channel : String) : Finset Nat :=
  s.shared.registry.ids.toFinset.filter fun i =>
    (s.shared.registry.get i).any fun ref => (s.shared.heap ref).subscriptions.containsKey channel

/-- The channel whose kind a call still has to tell, or whose subscription it still has to
record. -/
def Call.owes : Call τ → Option String
  | .subscribeBroker a _ _ | .subscribeReplay a _ _ _ | .subscribeSend a _ _ _ _
  | .subscribeSpawn a _ _ _ | .subscribeInsert a _ _ | .subscribeStray a _
  | .subscribeUnwind a _ _ _ => some a.channel
  | .unsubscribeAbort a _ _ | .unsubscribeScrub a _ | .unsubscribeReap a _
  | .unsubscribeKind a _ => some a.channel
  | _ => none

def State.debt (s : State κ β τ) (channel : String) : Nat :=
  (List.range s.nextCall).countP fun n => (s.calls n).any fun c => c.owes == some channel

/-- Sessions unsubscribe from everything before they are closed or kicked. -/
structure LeavesEmpty (s : State κ β τ) (l : Label ε) : Prop extends Sequential s l where
  empty : ∀ n env now who id ref, l = .advance n env now →
    s.calls n = some (.deregister who id) → s.shared.registry.get id = some ref →
    (s.shared.heap ref).subscriptions = ∅

def State.Balanced (s : State κ β τ) : Prop :=
  ∀ channel, s.log.countP (Event.entering channel) =
    s.log.countP (Event.exiting channel) + (s.subscribed channel).card + s.debt channel

section Balance

variable {H : Hub κ β τ ε} {s t : State κ β τ} {n : Nat} {env : ε} {now : Nat} {c : Call τ}
  {o : Outcome κ β τ} {channel : String}

theorem mem_subscribed {i : Nat} : i ∈ s.subscribed channel ↔
    ∃ ref, s.shared.registry.get i = some ref ∧
      (s.shared.heap ref).subscriptions.containsKey channel = true := by
  simp only [State.subscribed, Finset.mem_filter, List.mem_toFinset, SessionRegistry.ids]
  constructor
  · rintro ⟨-, held⟩
    cases found : s.shared.registry.get i with
    | none => simp [found] at held
    | some ref => exact ⟨ref, rfl, by simpa [found] using held⟩
  · rintro ⟨ref, found, held⟩
    refine ⟨AList.lookup_isSome.mp ?_, by simpa [found] using held⟩
    exact Option.isSome_iff_exists.mpr ⟨ref, found⟩

theorem mem_subscribed_maps (g : s.Indexed) (addressed : s.Addressed) {i : Nat} :
    i ∈ s.subscribed channel ↔
      s.shared.registry.get i = some i ∧ s.maps i channel = true := by
  rw [mem_subscribed]
  constructor
  · rintro ⟨ref, found, held⟩
    cases g.registered addressed found
    exact ⟨found, held⟩
  · rintro ⟨found, held⟩
    exact ⟨i, found, held⟩

theorem debt_after (o : Outcome κ β τ) (channel : String) (bound : n < s.nextCall)
    (at_ : s.calls n = some c) :
    (s.after n c o).debt channel + (c.owes == some channel).toNat =
      s.debt channel + (o.next.any fun d => d.owes == some channel).toNat := by
  have changed := tally_update s.calls o.next (fun d => d.owes == some channel) bound
  rw [at_] at changed
  exact changed

/-- A call that has told the kind of a subscriber does not end before it has settled it. -/
theorem act_ends_settled {x : Shared κ β τ} (acts : H.act x n env now c = some o)
    (ends : o.next = none) (unwinds : ∀ a ref stream e, c ≠ .subscribeUnwind a ref stream e)
    (tells : ∀ a ref, c ≠ .unsubscribeKind a ref) : c.owes = none := by
  cases c with
  | subscribeSend a ref cursor stream rest =>
      cases rest <;> simp only [Hub.act] at acts <;> (repeat' split at acts) <;> cases acts <;>
        cases ends
  | subscribeBroker a ref cursor | subscribeReplay a ref cursor stream
  | subscribeInsert a ref cursor =>
      simp only [Hub.act] at acts
      split at acts <;> cases acts <;> cases ends
  | subscribeSpawn a ref cursor stream | subscribeStray a ref | unsubscribeAbort a ref f
  | unsubscribeScrub a ref | unsubscribeReap a ref =>
      cases acts
      cases ends
  | subscribeUnwind a ref stream e => exact absurd rfl (unwinds a ref stream e)
  | unsubscribeKind a ref => exact absurd rfl (tells a ref)
  | _ => rfl

/-- The steps of a call that change what is told or recorded about subscribers. -/
def Call.accounts : Call τ → Bool
  | .subscribeKind _ _ | .subscribeInsert _ _ _ | .subscribeUnwind _ _ _ _
  | .unsubscribeRemove _ _ | .unsubscribeKind _ _ => true
  | _ => false

theorem act_owes (acts : H.act s.shared n env now c = some o) (plain : c.accounts = false) :
    (o.next.any fun d => d.owes == some channel) = (c.owes == some channel) := by
  cases goes : o.next with
  | none =>
      have settled : c.owes = none := by
        refine act_ends_settled acts goes ?_ ?_
        · rintro a ref stream e rfl
          cases plain
        · rintro a ref rfl
          cases plain
      simp [settled]
  | some next =>
      have same : next.owes = c.owes := by
        cases Hub.goes acts goes <;> first | rfl | cases plain
      simp [same]

theorem act_unheard (channel : String) (acts : H.act s.shared n env now c = some o) (plain : c.accounts = false) :
    o.events.countP (Event.entering channel) = 0 ∧
      o.events.countP (Event.exiting channel) = 0 := by
  have silent : ∀ e ∈ o.events, e.entering channel = false ∧ e.exiting channel = false := by
    intro e member
    rcases (Hub.acted acts).event member with logs | ⟨result, rfl⟩
    · cases logs with
      | subscribed | unwound | unsubscribed => cases plain
      | _ => exact ⟨rfl, rfl⟩
    · exact ⟨rfl, rfl⟩
  refine ⟨List.countP_eq_zero.mpr fun e member => ?_, List.countP_eq_zero.mpr fun e member => ?_⟩
  · simp [(silent e member).1]
  · simp [(silent e member).2]

section Subscribed

variable (g : s.Indexed) (addressed : s.Addressed) (apart : IndexApart s (.advance n env now))
  (at_ : s.calls n = some c) (acts : H.act s.shared n env now c = some o)

include g addressed apart at_ acts

theorem mem_subscribed_after {i : Nat} : i ∈ (s.after n c o).subscribed channel ↔
    (s.after n c o).shared.registry.get i = some i ∧
      c.mapsAfter i channel (s.maps i channel) = true := by
  rw [mem_subscribed_maps (advance_indexed g addressed apart at_ acts)
    (step_addressed addressed (Hub.step_act at_ acts))]
  refine and_congr_right fun found => ?_
  rw [after_maps g addressed apart at_ acts found]

omit apart in
theorem after_registry_iff {i : Nat} (mapped : s.maps i channel = true)
    (empty : ∀ who id ref, c = .deregister who id → s.shared.registry.get id = some ref →
      (s.shared.heap ref).subscriptions = ∅) :
    (s.after n c o).shared.registry.get i = some i ↔ s.shared.registry.get i = some i := by
  constructor
  · intro found
    rcases after_registered g addressed at_ acts found with old | rfl
    · exact old
    · rw [State.maps, (g.unborn n i at_).2.1] at mapped
      simp [DashMap.containsKey] at mapped
  · intro found
    rw [after_registry acts]
    refine registryAfter_kept found ?_ ?_
    · rintro who rfl
      rw [State.maps, empty who i i rfl found] at mapped
      simp [DashMap.containsKey] at mapped
    · rintro r rfl same
      have known := addressed.held n _ at_ r (List.mem_singleton_self _)
      rw [g.ids r known] at same
      subst same
      rw [(g.unborn n r at_).1] at found
      cases found

theorem subscribed_kept (channel : String)
    (same : ∀ i, c.mapsAfter i channel (s.maps i channel) = s.maps i channel)
    (empty : ∀ who id ref, c = .deregister who id → s.shared.registry.get id = some ref →
      (s.shared.heap ref).subscriptions = ∅) :
    (s.after n c o).subscribed channel = s.subscribed channel := by
  ext i
  rw [mem_subscribed_after g addressed apart at_ acts, mem_subscribed_maps g addressed, same]
  exact and_congr_left fun mapped => after_registry_iff g addressed at_ acts mapped empty

end Subscribed

theorem subscribed_inserted (channel : String) (g : s.Indexed) (addressed : s.Addressed)
    (apart : IndexApart s (.advance n env now)) {a : SubscribeArgs} {ref : Nat}
    {cursor : ChannelCursor} (at_ : s.calls n = some (.subscribeInsert a ref cursor))
    (acts : H.act s.shared n env now (.subscribeInsert a ref cursor) = some o)
    (absent : (s.shared.heap ref).subscriptions.containsKey a.channel = false) :
    ((s.after n (.subscribeInsert a ref cursor) o).subscribed channel).card =
      (s.subscribed channel).card + (a.channel == channel).toNat := by
  have found := g.present n _ a.sessionId ref at_ rfl rfl
  cases g.registered addressed found
  by_cases here : a.channel = channel
  · subst here
    have grown : (s.after n (.subscribeInsert a a.sessionId cursor) o).subscribed a.channel =
        insert a.sessionId (s.subscribed a.channel) := by
      ext i
      rw [mem_subscribed_after g addressed apart at_ acts, Finset.mem_insert,
        mem_subscribed_maps g addressed, after_registry acts]
      by_cases own : i = a.sessionId
      · subst own
        simpa [Call.mapsAfter, Shared.registryAfter] using found
      · simp [Call.mapsAfter, Shared.registryAfter, own]
    have fresh : a.sessionId ∉ s.subscribed a.channel := by
      rw [mem_subscribed_maps g addressed]
      intro both
      rw [State.maps, absent] at both
      cases both.2
    rw [grown, Finset.card_insert_of_notMem fresh]
    simp
  · have same : ∀ i, (Call.subscribeInsert a a.sessionId cursor : Call τ).mapsAfter i channel
        (s.maps i channel) = s.maps i channel := by
      intro i
      simp [Call.mapsAfter, Ne.symm here]
    rw [subscribed_kept g addressed apart at_ acts channel same (by rintro _ _ _ ⟨⟩)]
    simp [here]

theorem subscribed_removed (channel : String) (g : s.Indexed) (addressed : s.Addressed)
    (apart : IndexApart s (.advance n env now)) {a : UnsubscribeArgs} {ref f : Nat}
    (at_ : s.calls n = some (.unsubscribeRemove a ref))
    (acts : H.act s.shared n env now (.unsubscribeRemove a ref) = some o)
    (stored : (s.shared.heap ref).subscriptions.get a.channel = some f) :
    ((s.after n (.unsubscribeRemove a ref) o).subscribed channel).card +
      (a.channel == channel).toNat = (s.subscribed channel).card := by
  have found := g.present n _ a.sessionId ref at_ rfl rfl
  cases g.registered addressed found
  by_cases here : a.channel = channel
  · subst here
    have shrunk : (s.after n (.unsubscribeRemove a a.sessionId) o).subscribed a.channel =
        (s.subscribed a.channel).erase a.sessionId := by
      ext i
      rw [mem_subscribed_after g addressed apart at_ acts, Finset.mem_erase,
        mem_subscribed_maps g addressed, after_registry acts]
      by_cases own : i = a.sessionId
      · simp [Call.mapsAfter, own]
      · simp [Call.mapsAfter, Shared.registryAfter, own]
    have held : a.sessionId ∈ s.subscribed a.channel := by
      rw [mem_subscribed_maps g addressed]
      exact ⟨found, by simp [State.maps, DashMap.containsKey, stored]⟩
    rw [shrunk, beq_self_eq_true]
    exact Finset.card_erase_add_one held
  · have same : ∀ i, (Call.unsubscribeRemove a a.sessionId : Call τ).mapsAfter i channel
        (s.maps i channel) = s.maps i channel := by
      intro i
      simp [Call.mapsAfter, Ne.symm here]
    rw [subscribed_kept g addressed apart at_ acts channel same (by rintro _ _ _ ⟨⟩)]
    simp [here]

theorem countP_one (p : Event → Bool) (e : Event) : [e].countP p = (p e).toNat := by
  cases known : p e <;> simp [known]

theorem countP_two (p : Event → Bool) (e e' : Event) :
    [e, e'].countP p = (p e).toNat + (p e').toNat := by
  cases known : p e <;> cases known' : p e' <;> simp [known, known']

/-- Inserting a channel the map already has, or removing one it has not, changes nothing. -/
theorem mapsAfter_idle {i ref : Nat} {name : String}
    (held : s.maps ref name = true) : (s.maps i channel || (i == ref && channel == name)) =
      s.maps i channel := by
  by_cases own : i = ref ∧ channel = name
  · obtain ⟨rfl, rfl⟩ := own
    simp [held]
  · simp only [beq_eq_decide, ← Bool.decide_and, decide_eq_false own, Bool.or_false]

theorem mapsAfter_absent {i ref : Nat} {name : String}
    (absent : s.maps ref name = false) : (s.maps i channel && !(i == ref && channel == name)) =
      s.maps i channel := by
  by_cases own : i = ref ∧ channel = name
  · obtain ⟨rfl, rfl⟩ := own
    simp [absent]
  · simp only [beq_eq_decide, ← Bool.decide_and, decide_eq_false own, Bool.not_false,
      Bool.and_true]

theorem subscribeInsert_balanced (g : s.Indexed) (addressed : s.Addressed) (staged : s.Staged)
    (apart : IndexApart s (.advance n env now)) (balanced : s.Balanced) {a : SubscribeArgs}
    {ref : Nat} {cursor : ChannelCursor} (at_ : s.calls n = some (.subscribeInsert a ref cursor))
    (acts : H.act s.shared n env now (.subscribeInsert a ref cursor) = some o) :
    (s.after n (.subscribeInsert a ref cursor) o).Balanced := by
  intro channel
  have before := balanced channel
  have owed := debt_after o channel (staged.calls n _ at_) at_
  by_cases present : (s.shared.heap ref).subscriptions.containsKey a.channel = true
  · have kept := subscribed_kept g addressed apart at_ acts channel
      (fun i => mapsAfter_idle present) fun _ _ _ => nofun
    simp only [Hub.act, present, if_true, Option.some.injEq] at acts
    rw [after_log, kept]
    subst acts
    simp only [Shared.goto, List.nil_append, Call.owes, Option.any_some,
      Option.some_beq_some] at owed ⊢
    omega
  · have grown := subscribed_inserted channel g addressed apart at_ acts
      (Bool.eq_false_iff.mpr present)
    simp only [Hub.act, if_neg present, Option.some.injEq] at acts
    rw [after_log, grown]
    subst acts
    simp only [Shared.goto, List.nil_append, Call.owes, Option.any_some, Option.some_beq_some,
      Option.none_beq_some, Bool.toNat_false] at owed ⊢
    omega

theorem unsubscribeRemove_balanced (g : s.Indexed) (addressed : s.Addressed) (staged : s.Staged)
    (apart : IndexApart s (.advance n env now)) (balanced : s.Balanced) {a : UnsubscribeArgs}
    {ref : Nat} (at_ : s.calls n = some (.unsubscribeRemove a ref))
    (acts : H.act s.shared n env now (.unsubscribeRemove a ref) = some o) :
    (s.after n (.unsubscribeRemove a ref) o).Balanced := by
  intro channel
  have before := balanced channel
  have owed := debt_after o channel (staged.calls n _ at_) at_
  cases stored : (s.shared.heap ref).subscriptions.get a.channel with
  | none =>
      have absent : s.maps ref a.channel = false := by
        simp [State.maps, DashMap.containsKey, stored]
      have kept := subscribed_kept g addressed apart at_ acts channel
        (fun i => mapsAfter_absent absent) (by rintro _ _ _ ⟨⟩)
      simp only [Hub.act, stored, Option.some.injEq] at acts
      rw [after_log, kept, List.countP_append, List.countP_append]
      subst acts
      simp only [Shared.done, countP_one, Event.entering, Event.exiting, Call.owes,
        Option.any_none, Option.none_beq_some, Bool.toNat_false] at owed ⊢
      omega
  | some f =>
      have fewer := subscribed_removed channel g addressed apart at_ acts stored
      simp only [Hub.act, stored, Option.some.injEq] at acts
      rw [after_log]
      subst acts
      simp only [Shared.goto, List.nil_append, Call.owes, Option.any_some, Option.some_beq_some,
        Option.none_beq_some, Bool.toNat_false] at owed fewer ⊢
      omega

theorem advance_balanced (g : s.Indexed) (addressed : s.Addressed) (staged : s.Staged)
    (apart : IndexApart s (.advance n env now)) (leaves : LeavesEmpty s (.advance n env now))
    (balanced : s.Balanced) (at_ : s.calls n = some c)
    (acts : H.act s.shared n env now c = some o) : (s.after n c o).Balanced := by
  by_cases inserts : ∃ a ref cursor, c = .subscribeInsert a ref cursor
  · obtain ⟨a, ref, cursor, rfl⟩ := inserts
    exact subscribeInsert_balanced g addressed staged apart balanced at_ acts
  by_cases removes : ∃ a ref, c = .unsubscribeRemove a ref
  · obtain ⟨a, ref, rfl⟩ := removes
    exact unsubscribeRemove_balanced g addressed staged apart balanced at_ acts
  intro channel
  have before := balanced channel
  have owed := debt_after o channel (staged.calls n c at_) at_
  have same : ∀ i, c.mapsAfter i channel (s.maps i channel) = s.maps i channel := by
    intro i
    cases c with
    | subscribeInsert a ref cursor => exact absurd ⟨a, ref, cursor, rfl⟩ inserts
    | unsubscribeRemove a ref => exact absurd ⟨a, ref, rfl⟩ removes
    | _ => rfl
  rw [after_log, List.countP_append, List.countP_append,
    subscribed_kept g addressed apart at_ acts channel same fun who id ref leaving found =>
      leaves.empty n env now who id ref rfl (leaving ▸ at_) found]
  cases c with
  | subscribeInsert a ref cursor => exact absurd ⟨a, ref, cursor, rfl⟩ inserts
  | unsubscribeRemove a ref => exact absurd ⟨a, ref, rfl⟩ removes
  | subscribeKind a ref =>
      simp only [Hub.act] at acts
      split at acts
      · next cursor accepts =>
          cases acts
          simp only [Outcome.after, Shared.goto, accepts, List.nil_append, countP_one,
            Event.entering, Event.exiting, Bool.toNat_false, Call.owes, Option.any_some,
            Option.some_beq_some, Option.none_beq_some] at owed ⊢
          omega
      · next e refuses =>
          cases acts
          simp only [Outcome.after, Shared.done, refuses, List.cons_append, List.nil_append,
            countP_two, Event.entering, Event.exiting, Bool.toNat_false, Call.owes,
            Option.any_none, Option.none_beq_some] at owed ⊢
          omega
  | subscribeUnwind a ref stream e =>
      cases acts
      simp only [Outcome.after, Shared.done, List.cons_append, List.nil_append, countP_two,
        Event.entering, Event.exiting, Bool.toNat_false, Call.owes, Option.any_none,
        Option.some_beq_some] at owed ⊢
      omega
  | unsubscribeKind a ref =>
      simp only [Hub.act] at acts
      split at acts <;>
      · cases acts
        simp only [Outcome.after, Shared.done, List.cons_append, List.nil_append, countP_two,
          Event.entering, Event.exiting, Bool.toNat_false, Call.owes, Option.any_none,
          Option.some_beq_some] at owed ⊢
        omega
  | _ =>
      obtain ⟨entered, exited⟩ := act_unheard channel acts rfl
      rw [act_owes acts rfl] at owed
      rw [entered, exited]
      omega

theorem frame_balanced {x' : Shared κ β τ} {events : List Event} (balanced : s.Balanced)
    (registry : x'.registry = s.shared.registry)
    (kept : ∀ i ref, s.shared.registry.get i = some ref →
      (x'.heap ref).subscriptions = (s.shared.heap ref).subscriptions)
    (silent : ∀ channel, ∀ e ∈ events, e.entering channel = false ∧ e.exiting channel = false) :
    State.Balanced { s with shared := x', log := events ++ s.log } := by
  intro channel
  have same : State.subscribed { s with shared := x', log := events ++ s.log } channel =
      s.subscribed channel := by
    ext i
    simp only [mem_subscribed, registry]
    refine exists_congr fun ref => and_congr_right fun found => ?_
    rw [kept i ref found]
  have entered : events.countP (Event.entering channel) = 0 :=
    List.countP_eq_zero.mpr fun e member => by simp [(silent channel e member).1]
  have exited : events.countP (Event.exiting channel) = 0 :=
    List.countP_eq_zero.mpr fun e member => by simp [(silent channel e member).2]
  rw [same, List.countP_append, List.countP_append, entered, exited, Nat.zero_add, Nat.zero_add]
  exact balanced channel

theorem start_debt (r : Request) (channel : String) :
    State.debt { s with
      calls := Function.update s.calls s.nextCall (some r.entry)
      nextCall := s.nextCall + 1 } channel = s.debt channel := by
  have silent : (r.entry : Call τ).owes = none := by cases r <;> rfl
  have pushed := tally_push s.calls (some r.entry) s.nextCall fun d => d.owes == some channel
  rw [Option.any_some, silent] at pushed
  exact pushed

theorem step_balanced {l : Label ε} (g : s.Indexed) (addressed : s.Addressed) (staged : s.Staged)
    (single : s.Single) (leaves : LeavesEmpty s l) (balanced : s.Balanced)
    (h : H.step s l = some t) : t.Balanced := by
  cases Hub.stepped h with
  | start r =>
      intro channel
      rw [start_debt]
      exact balanced channel
  | advance at_ acts =>
      exact advance_balanced g addressed staged (leaves.toSequential.apart single) leaves balanced
        at_ acts
  | forward task moves =>
      have moved := Hub.forwarded moves
      have frame := moved.frame task
      refine frame_balanced balanced frame.registry (fun _ ref _ => frame.subscriptions ref) ?_
      intro channel e member
      cases moved with
      | lagged | sent =>
          cases List.mem_singleton.mp member
          exact ⟨rfl, rfl⟩
      | _ => cases member
  | transport quiet sheds kept =>
      refine frame_balanced balanced quiet.registry (fun i ref found => kept ref ?_)
        (show ∀ channel : String, ∀ e ∈ ([] : List Event), _ from fun _ _ => nofun)
      rw [(addressed.registry i ref found).2]
      exact found

/-- Whenever no call is in flight, the kind has been told of as many subscribers that came and
did not leave as there are registered sessions subscribed to the channel. -/
theorem kind_balance {kinds : Nat → κ} {broker : β}
    (run : H.machine.Run LeavesEmpty (State.initial kinds broker) s)
    (silent : ∀ n, s.calls n = none) (channel : String) :
    s.log.countP (Event.entering channel) =
      s.log.countP (Event.exiting channel) + (s.subscribed channel).card := by
  have all := run.invariant
    (I := fun s => s.Single ∧ s.Indexed ∧ s.Addressed ∧ s.Staged ∧ s.Balanced)
    ⟨fun _ _ _ _ found => (by cases found), initial_indexed kinds broker,
      initial_addressed kinds broker, initial_staged kinds broker, fun _ => rfl⟩
    fun _ _ _ g leaves h => ⟨step_single leaves.toSequential g.1 h,
      step_indexed g.2.1 g.2.2.1 g.2.2.2.1 (leaves.toSequential.apart g.1) h,
      step_addressed g.2.2.1 h, step_staged g.2.2.2.1 h,
      step_balanced g.2.1 g.2.2.1 g.2.2.2.1 g.1 leaves g.2.2.2.2 h⟩
  have settled : s.debt channel = 0 := by
    refine tally_eq_zero (f := s.calls) ?_ s.nextCall
    intro n c called
    rw [silent n] at called
    cases called
  have balanced := all.2.2.2.2 channel
  rw [settled] at balanced
  exact balanced

end Balance

def leavesEmpty (s : State κ β τ) (l : Label ε) : Bool :=
  sequential s l &&
    match l with
    | .advance n _ _ =>
        match s.calls n with
        | some (.deregister _ id) => (s.shared.registry.get id).all fun ref =>
            (s.shared.heap ref).subscriptions.entries.isEmpty
        | _ => true
    | _ => true

theorem leavesEmpty_sound (s : State κ β τ) (l : Label ε) (staged : s.Staged)
    (h : leavesEmpty s l = true) : LeavesEmpty s l := by
  simp only [leavesEmpty, Bool.and_eq_true] at h
  refine ⟨sequential_sound s l staged h.1, ?_⟩
  rintro n env now who id ref rfl at_ found
  refine AList.ext ?_
  simpa [at_, found] using h.2

/-- A session subscribes to `rooms.lobby`, and another one to two channels; the second is
refused, unsubscribes from the first and is closed. -/
def tidyLeave : List (Label Unit) :=
  Request.steps (.openSession 16) 0 5 ++ Request.steps (.openSession 16) 1 5 ++
    Request.steps (.subscribe ⟨0, 7, "rooms.lobby", 0⟩) 2 9 ++
    Request.steps (.subscribe ⟨1, 7, "rooms.lobby", 0⟩) 3 9 ++
    Request.steps (.subscribe ⟨1, 8, "", 0⟩) 4 5 ++
    Request.steps (.unsubscribe ⟨1, 9, "rooms.lobby"⟩) 5 5 ++ Request.steps (.close 1) 6 6

theorem kind_balance_tidy :
    ∃ s, defaults.hub.machine.Run LeavesEmpty defaults.boot s ∧ (∀ n, s.calls n = none) ∧
      .returned 6 (.ok .closed) ∈ s.log ∧
      s.log.countP (Event.exiting "rooms.lobby") = 1 ∧ s.subscribed "rooms.lobby" = {0} ∧
      s.log.countP (Event.entering "rooms.lobby") =
        s.log.countP (Event.exiting "rooms.lobby") + (s.subscribed "rooms.lobby").card := by
  obtain ⟨s, run, silent, closed, exited, subscribed⟩ := Machine.execWithin_witness
    (M := defaults.hub.machine) (s := defaults.boot) leavesEmpty_sound
    (fun _ _ _ staged _ h => step_staged staged h) (initial_staged _ _) tidyLeave
    (fun s => idle s = true ∧ .returned 6 (.ok .closed) ∈ s.log ∧
      s.log.countP (Event.exiting "rooms.lobby") = 1 ∧ s.subscribed "rooms.lobby" = {0})
    (by decide +kernel)
  have none_ := idle_sound (run_staged run) silent
  exact ⟨s, run, none_, closed, exited, subscribed, kind_balance run none_ "rooms.lobby"⟩

/-- A session that is closed while subscribed leaves the kind with a subscriber for good. -/
theorem closed_subscriber_counted :
    ∃ s, defaults.hub.machine.Run Sequential defaults.boot s ∧ (∀ n, s.calls n = none) ∧
      s.subscribed "rooms.lobby" = ∅ ∧ s.log.countP (Event.entering "rooms.lobby") = 1 ∧
      s.log.countP (Event.exiting "rooms.lobby") = 0 := by
  obtain ⟨s, run, silent, counts⟩ := Machine.execWithin_witness
    (M := defaults.hub.machine) (s := defaults.boot) sequential_sound
    (fun _ _ _ staged _ h => step_staged staged h) (initial_staged _ _)
    (Request.steps (.openSession 16) 0 5 ++
      Request.steps (.subscribe ⟨0, 7, "rooms.lobby", 0⟩) 1 9 ++ Request.steps (.close 0) 2 6)
    (fun s => idle s = true ∧ s.subscribed "rooms.lobby" = ∅ ∧
      s.log.countP (Event.entering "rooms.lobby") = 1 ∧
      s.log.countP (Event.exiting "rooms.lobby") = 0) (by decide +kernel)
  exact ⟨s, run, idle_sound (run_staged run) silent, counts⟩

end Cherenkov
