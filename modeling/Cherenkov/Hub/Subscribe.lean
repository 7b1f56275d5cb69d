import Cherenkov.Hub.Balance
import Cherenkov.Hub.Course
import Cherenkov.Hub.Tasks

/-! `handle_subscribe` can fail at every depth. This file follows one call through the interleaved
steps of everything else: on an exit that fails it has touched neither the subscription maps nor the
reverse index, has told the kind of a subscriber that left if it told it of one that came, and has
aborted the forwarder it spawned. -/

namespace Cherenkov

variable {κ β τ ε : Type}

def Event.joins (n : Nat) : Event → Bool
  | .onSubscribe m _ _ (.ok _) => m == n
  | _ => false

def Event.parts (n : Nat) : Event → Bool
  | .onUnsubscribe m _ _ _ => m == n
  | _ => false

/-- The channel that call `n` speaks of to its kind. -/
def Event.speaksOf (n : Nat) : Event → Option String
  | .onSubscribe m _ channel _ | .onUnsubscribe m _ channel _ => if m = n then some channel else none
  | _ => none

def Label.advances (n : Nat) : Label ε → Bool
  | .advance m _ _ => m == n
  | _ => false

section Steps

variable (p : Machine.Transition (State κ β τ) (Label ε))

/-- The step leaves the registry and the subscription maps alone. An object that nothing holds
after the step is dropped with its map. -/
structure Unmoved : Prop where
  registry : p.after.shared.registry = p.before.shared.registry
  maps : ∀ ref, p.after.held ref = true →
    (p.after.shared.heap ref).subscriptions = (p.before.shared.heap ref).subscriptions

/-- The step enters forwarder `f` for the channel in the one map, which had none. -/
structure Inserts (f ref : Nat) (channel : String) : Prop where
  registry : p.after.shared.registry = p.before.shared.registry
  absent : (p.before.shared.heap ref).subscriptions.get channel = none
  held : p.after.held ref = true
  own : (p.after.shared.heap ref).subscriptions.get channel = some f
  rest : ∀ c, c ≠ channel → (p.after.shared.heap ref).subscriptions.get c =
    (p.before.shared.heap ref).subscriptions.get c
  others : ∀ r, r ≠ ref → p.after.held r = true →
    (p.after.shared.heap r).subscriptions = (p.before.shared.heap r).subscriptions

/-- The step enters the session once in the reverse index of the channel, and nowhere else. -/
structure Lists (id : Nat) (channel : String) : Prop where
  sessions : ∀ i, p.after.shared.registry.get i = p.before.shared.registry.get i
  nextId : p.after.shared.registry.nextId = p.before.shared.registry.nextId
  listed : p.after.shared.registry.subscribersOf channel =
    p.before.shared.registry.subscribersOf channel ++ [id]
  others : ∀ c, c ≠ channel → p.after.shared.registry.subscribersOf c =
    p.before.shared.registry.subscribersOf c
  maps : ∀ ref, p.after.held ref = true →
    (p.after.shared.heap ref).subscriptions = (p.before.shared.heap ref).subscriptions

end Steps

def ownSteps (n : Nat) (past : List (Machine.Transition (State κ β τ) (Label ε))) :
    List (Machine.Transition (State κ β τ) (Label ε)) :=
  past.filter fun p => p.label.advances n

section Standing

variable (n : Nat) (a : SubscribeArgs) (own : List (Machine.Transition (State κ β τ) (Label ε)))
  (s : State κ β τ)

/-- What a subscribe call that failed has left behind. -/
structure SubscribeFailed : Prop where
  unmoved : ∀ p ∈ own, Unmoved p
  balanced : s.log.countP (Event.joins n) = s.log.countP (Event.parts n)
  once : s.log.countP (Event.joins n) ≤ 1
  channel : ∀ e ∈ s.log, ∀ channel, e.speaksOf n = some channel → channel = a.channel
  stopped : ∀ w, s.shared.forwarders n = some w → w.aborted = true

/-- What a subscribe call that succeeded has done: its last two steps entered the channel in the
map of the session it looked up first, and the session in the index of the channel. -/
structure SubscribeSucceeded : Prop where
  joined : s.log.countP (Event.joins n) = 1
  unparted : s.log.countP (Event.parts n) = 0
  channel : ∀ e ∈ s.log, ∀ channel, e.speaksOf n = some channel → channel = a.channel
  entered : ∃ ref first past insert index, own = first :: past ++ [insert, index] ∧
    first.before.shared.registry.get a.sessionId = some ref ∧
    (∀ p ∈ first :: past, Unmoved p) ∧ Inserts insert n ref a.channel ∧
    Lists index a.sessionId a.channel

def Call.told (c : Call τ) : Bool := c.owes.isSome || c.indexing

def Call.tasked : Call τ → Bool
  | .subscribeInsert _ _ _ | .subscribeIndex _ _ _ | .subscribeStray _ _ => true
  | _ => false

/-- Where a subscribe call in flight stands. -/
structure Subscribing (c : Call τ) : Prop where
  serves : c.serves = some (.subscribe a)
  joined : s.log.countP (Event.joins n) = c.told.toNat
  unparted : s.log.countP (Event.parts n) = 0
  entering : c.address = none → own = []
  found : ∀ i ref, c.address = some (i, ref) → ∃ first past, own = first :: past ∧
    first.before.shared.registry.get a.sessionId = some ref
  unmoved : c.indexing = false → ∀ p ∈ own, Unmoved p
  inserted : ∀ ref cursor, c = .subscribeIndex a ref cursor → ∃ past insert,
    own = past ++ [insert] ∧ past ≠ [] ∧ (∀ p ∈ past, Unmoved p) ∧ Inserts insert n ref a.channel
  stopped : c.tasked = false → ∀ w, s.shared.forwarders n = some w → w.aborted = true

/-- The account of one subscribe call, in flight or answered. -/
structure SubscribeAccount : Prop where
  known : n < s.nextCall
  channel : ∀ e ∈ s.log, ∀ channel, e.speaksOf n = some channel → channel = a.channel
  pending : ∀ c, s.calls n = some c → Subscribing n a own s c
  failed : ∀ e, .returned n (.error e) ∈ s.log → SubscribeFailed n a own s
  succeeded : ∀ r, .returned n (.ok r) ∈ s.log → SubscribeSucceeded n a own s

end Standing

section Others

variable {H : Hub κ β τ ε} {s t : State κ β τ} {l : Label ε} {n : Nat} {a : SubscribeArgs}
  {own : List (Machine.Transition (State κ β τ) (Label ε))}

theorem Event.joins_own {e : Event} (h : e.joins n = true) : e.caller = n ∧ e.delivery = none := by
  unfold Event.joins at h
  split at h
  · exact ⟨eq_of_beq h, rfl⟩
  · cases h

theorem Event.parts_own {e : Event} (h : e.parts n = true) : e.caller = n ∧ e.delivery = none := by
  unfold Event.parts at h
  split at h
  · exact ⟨eq_of_beq h, rfl⟩
  · cases h

theorem Event.speaksOf_own {e : Event} {channel : String} (h : e.speaksOf n = some channel) :
    e.caller = n ∧ e.delivery = none := by
  unfold Event.speaksOf at h
  split at h
  · split at h
    · next same => exact ⟨same, rfl⟩
    · cases h
  · split at h
    · next same => exact ⟨same, rfl⟩
    · cases h
  · cases h

theorem step_account_others (others : ∀ env now, l ≠ .advance n env now)
    (g : SubscribeAccount n a own s) (h : H.step s l = some t) : SubscribeAccount n a own t := by
  have joined := step_count_others (fun e => Event.joins_own (n := n) (e := e)) others h
  have parted := step_count_others (fun e => Event.parts_own (n := n) (e := e)) others h
  have spoken : ∀ e ∈ t.log, ∀ channel, e.speaksOf n = some channel → channel = a.channel := by
    intro e member channel speaks
    obtain ⟨caller, undelivered⟩ := Event.speaksOf_own speaks
    rcases step_logs h member with old | ⟨m, env, now, c, rfl, -, logs | ⟨result, rfl⟩⟩ |
      ⟨f, move, w, -, -, delivers⟩
    · exact g.channel e old channel speaks
    · rw [logs_caller logs] at caller
      exact absurd rfl (caller ▸ others env now)
    · cases speaks
    · rw [undelivered] at delivers
      cases delivers
  have stopped : (∀ w, s.shared.forwarders n = some w → w.aborted = true) →
      ∀ w, t.shared.forwarders n = some w → w.aborted = true := by
    intro before w found
    obtain ⟨v, older, -, -, kept⟩ := step_task_others others h found
    exact kept (before v older)
  have returned : ∀ result, .returned n result ∈ t.log → .returned n result ∈ s.log := by
    intro result member
    rcases step_returned h member with old | ⟨env, now, _, same, -⟩
    · exact old
    · exact absurd same (others env now)
  refine ⟨Nat.lt_of_lt_of_le g.known (step_nextCall_le h), spoken, ?_, ?_, ?_⟩
  · intro c found
    have old : s.calls n = some c := by
      rcases step_call h found with old | ⟨r, -, fresh, -⟩ | ⟨env, now, c', same, -, -⟩
      · exact old
      · exact absurd g.known (fresh ▸ Nat.lt_irrefl _)
      · exact absurd same (others env now)
    have before := g.pending c old
    exact { before with
      joined := joined.trans before.joined
      unparted := parted.trans before.unparted
      stopped := fun untasked => stopped (before.stopped untasked) }
  · intro e member
    have before := g.failed e (returned _ member)
    refine ⟨before.unmoved, ?_, ?_, spoken, stopped before.stopped⟩
    · rw [joined, parted]
      exact before.balanced
    · rw [joined]
      exact before.once
  · intro r member
    have before := g.succeeded r (returned _ member)
    exact ⟨joined.trans before.joined, parted.trans before.unparted, spoken, before.entered⟩

end Others

section Own

variable {H : Hub κ β τ ε} {x : Shared κ β τ} {s t : State κ β τ} {l : Label ε} {n : Nat} {env : ε}
  {now : Nat} {a : SubscribeArgs} {c next : Call τ} {o : Outcome κ β τ}
  {own : List (Machine.Transition (State κ β τ) (Label ε))}

theorem goes_joins (serves : c.serves = some (.subscribe a)) (goes : H.Goes x env now c next) :
    (H.eventOf x n env now c).toList.countP (Event.joins n) + c.told.toNat = next.told.toNat := by
  cases goes with
  | subscribable b ref claims allows => rfl
  | publishable b ref claims allows => cases serves
  | subscribed b ref accepts =>
      simp [Hub.eventOf, accepts, Event.joins, Call.told, Call.owes, Call.indexing]
  | sent b ref cursor stream p rest room =>
      simp [Hub.eventOf, room, Event.joins, Call.told, Call.owes]
  | unsent b ref cursor stream p rest closed =>
      simp [Hub.eventOf, closed, Call.told, Call.owes]
  | _ => first | rfl | cases serves

theorem goes_parts (serves : c.serves = some (.subscribe a)) (goes : H.Goes x env now c next) :
    (H.eventOf x n env now c).toList.countP (Event.parts n) = 0 := by
  cases goes with
  | sent b ref cursor stream p rest room => simp [Hub.eventOf, room, Event.parts]
  | unsent b ref cursor stream p rest closed => simp [Hub.eventOf, closed]
  | _ => first | rfl | cases serves

/-- A subscribe call finds its session in its first step and keeps it. -/
theorem goes_address (serves : c.serves = some (.subscribe a)) (goes : H.Goes x env now c next) :
    (∃ place, c.address = some place ∧ next.address = some place) ∨
      (c.address = none ∧ ∃ ref, x.registry.get a.sessionId = some ref ∧
        next.address = some (a.sessionId, ref)) := by
  cases goes with
  | entered b found =>
      cases b with
      | publish b => cases serves
      | subscribe b =>
          cases serves
          exact .inr ⟨rfl, _, found, rfl⟩
  | _ => first | (cases serves; done) | exact .inl ⟨_, rfl, rfl⟩

theorem logs_speaksOf (serves : c.serves = some (.subscribe a)) {e : Event}
    (logs : H.Logs x n env now c e) {channel : String} (speaks : e.speaksOf n = some channel) :
    channel = a.channel := by
  cases logs with
  | subscribed b ref answer | unwound b ref stream error answer =>
      cases serves
      simpa [Event.speaksOf] using speaks.symm
  | unsubscribed b ref answer => cases serves
  | _ => cases speaks

theorem after_unmoved (acts : H.act s.shared n env now c = some o)
    (registry : s.shared.registryAfter c = s.shared.registry)
    (maps : ∀ ref, s.shared.subscriptionsAfter n c ref = (s.shared.heap ref).subscriptions) :
    Unmoved ⟨s, l, s.after n c o⟩ :=
  ⟨(after_registry acts).trans registry,
    fun ref held => (after_held_subscriptions acts held).trans (maps ref)⟩

/-- Apart from the step that inserts and the step that lists, nothing moves. -/
theorem serves_unmoved (serves : c.serves = some (.subscribe a)) (unindexed : c.indexing = false)
    (present : ∀ b ref cursor, c = .subscribeInsert b ref cursor →
      (s.shared.heap ref).subscriptions.containsKey b.channel = true)
    (acts : H.act s.shared n env now c = some o) : Unmoved ⟨s, l, s.after n c o⟩ := by
  cases c with
  | subscribeInsert b ref cursor =>
      refine after_unmoved acts rfl ?_
      intro r
      simp only [Shared.subscriptionsAfter, present b ref cursor rfl, if_true]
      exact congrFun (Function.update_eq_self ref fun r => (s.shared.heap r).subscriptions) r
  | subscribeIndex b ref cursor => cases unindexed
  | _ => first | (cases serves; done) | exact after_unmoved acts rfl fun _ => rfl

theorem held_of_calls {m ref : Nat} {d : Call τ} (known : m < s.nextCall)
    (called : s.calls m = some d) (holds : ref ∈ d.holds) : s.held ref = true := by
  simp only [State.held, Bool.or_eq_true, List.any_eq_true, List.mem_range]
  refine .inr ⟨m, known, ?_⟩
  rw [called]
  exact List.contains_iff_mem.mpr holds

theorem inserted_inserts {ref : Nat} {cursor : ChannelCursor} (known : n < s.nextCall)
    (acts : H.act s.shared n env now (.subscribeInsert a ref cursor) = some o)
    (goes : o.next = some (.subscribeIndex a ref cursor)) :
    Inserts ⟨s, l, s.after n (.subscribeInsert a ref cursor) o⟩ n ref a.channel := by
  have absent : (s.shared.heap ref).subscriptions.containsKey a.channel = false := by
    cases Hub.goes acts goes with
    | inserted _ _ _ absent => exact absent
  have held : (s.after n (.subscribeInsert a ref cursor) o).held ref = true := by
    refine held_of_calls known (d := .subscribeIndex a ref cursor) ?_ (List.mem_singleton_self _)
    rw [after_calls, Function.update_self, goes]
  have entered : ((s.after n (.subscribeInsert a ref cursor) o).shared.heap ref).subscriptions =
      (s.shared.heap ref).subscriptions.put a.channel n := by
    rw [after_held_subscriptions acts held]
    simp [Shared.subscriptionsAfter, absent]
  refine ⟨after_registry acts, ?_, held, ?_, ?_, ?_⟩
  · simpa [DashMap.containsKey] using absent
  · rw [entered, DashMap.get_put_self]
  · intro c other
    rw [entered, DashMap.get_put_ne _ _ other]
  · intro r other kept
    rw [after_held_subscriptions acts kept]
    simp [Shared.subscriptionsAfter, other]

theorem indexed_lists {ref : Nat} {cursor : ChannelCursor}
    (acts : H.act s.shared n env now (.subscribeIndex a ref cursor) = some o) :
    Lists ⟨s, l, s.after n (.subscribeIndex a ref cursor) o⟩ a.sessionId a.channel := by
  have registry : (s.after n (.subscribeIndex a ref cursor) o).shared.registry =
      s.shared.registry.addSubscription a.sessionId a.channel := after_registry acts
  refine ⟨?_, ?_, ?_, ?_, fun r held => after_held_subscriptions acts held⟩
  · intro i
    rw [registry]
    rfl
  · rw [registry]
    rfl
  · rw [registry, SessionRegistry.subscribersOf_addSubscription, if_pos rfl]
  · intro c other
    rw [registry, SessionRegistry.subscribersOf_addSubscription, if_neg other]

theorem after_stopped (spawns : ∀ b ref cursor stream, c ≠ .subscribeSpawn b ref cursor stream)
    (before : (∀ w, s.shared.forwarders n = some w → w.aborted = true) ∨
      ∃ b ref, c = .subscribeStray b ref)
    (acts : H.act s.shared n env now c = some o) (w : Forwarder τ)
    (found : (s.after n c o).shared.forwarders n = some w) : w.aborted = true := by
  rcases before with stopped | ⟨b, ref, rfl⟩
  · rcases after_forwarder_some acts found with ⟨b, ref, cursor, stream, rfl, -, -⟩ |
      ⟨v, older, rfl | rfl⟩
    · exact absurd rfl (spawns b ref cursor stream)
    · exact stopped w older
    · rfl
  · exact after_aborted acts rfl found

theorem Subscribing.goes (known : n < s.nextCall) (g : Subscribing n a own s c)
    (acts : H.act s.shared n env now c = some o) (goes : o.next = some next) :
    Subscribing n a (own ++ [⟨s, l, s.after n c o⟩]) (s.after n c o) next := by
  have moved := Hub.goes acts goes
  have served := (goes_serves moved).trans g.serves
  refine ⟨served, ?_, ?_, ?_, ?_, ?_, ?_, ?_⟩
  · rw [after_log, List.countP_append, act_count (fun _ _ => rfl) acts, g.joined]
    exact goes_joins g.serves moved
  · rw [after_log, List.countP_append, act_count (fun _ _ => rfl) acts, g.unparted, Nat.add_zero]
    exact goes_parts g.serves moved
  · intro unaddressed
    rcases goes_address g.serves moved with ⟨place, -, same⟩ | ⟨-, ref, -, same⟩ <;>
      · rw [same] at unaddressed
        cases unaddressed
  · intro i ref addressed
    rcases goes_address g.serves moved with ⟨place, before, same⟩ | ⟨before, ref', found, same⟩
    · cases addressed.symm.trans same
      obtain ⟨first, past, rfl, found⟩ := g.found i ref before
      exact ⟨first, past ++ [_], rfl, found⟩
    · cases addressed.symm.trans same
      exact ⟨_, [], by rw [g.entering before]; rfl, found⟩
  · intro unindexed p member
    have still : c.indexing = false := by
      cases moved <;> rfl
    rcases List.mem_append.mp member with old | new
    · exact g.unmoved still p old
    · cases List.mem_singleton.mp new
      refine serves_unmoved g.serves still ?_ acts
      rintro b ref cursor rfl
      cases moved with
      | inserted => cases unindexed
      | strayed _ _ _ present => exact present
  · rintro ref cursor rfl
    have inserts : c = .subscribeInsert a ref cursor := by
      cases moved with
      | inserted => rfl
    subst inserts
    obtain ⟨first, past, same, -⟩ := g.found _ _ rfl
    refine ⟨own, _, rfl, ?_, g.unmoved rfl, inserted_inserts known acts goes⟩
    rw [same]
    exact List.cons_ne_nil first past
  · intro untasked
    refine after_stopped ?_ ?_ acts
    · rintro b ref cursor stream rfl
      cases moved with
      | spawned => cases untasked
    · by_cases tasked : c.tasked = true
      · right
        cases moved with
        | stopped b ref => exact ⟨b, ref, rfl⟩
        | inserted | strayed => cases untasked
        | _ => cases tasked
      · exact .inl (g.stopped (Bool.eq_false_iff.mpr tasked))

theorem ends_told (serves : c.serves = some (.subscribe a)) {e : HubError}
    (ends : H.Ends x env now c (.error e)) :
    c.indexing = false ∧ c.tasked = false ∧
      (H.eventOf x n env now c).toList.countP (Event.joins n) = 0 ∧
      (H.eventOf x n env now c).toList.countP (Event.parts n) = c.told.toNat := by
  cases ends with
  | unsubscribable b ref refuses =>
      simp [Hub.eventOf, refuses, Event.joins, Event.parts, Call.told, Call.owes, Call.indexing,
        Call.tasked]
  | unwound b ref stream error =>
      simp [Hub.eventOf, Event.joins, Event.parts, Call.told, Call.owes, Call.indexing, Call.tasked]
  | _ => first | (cases serves; done) | exact ⟨rfl, rfl, rfl, rfl⟩

theorem Subscribing.fails (g : Subscribing n a own s c)
    (channel : ∀ e ∈ (s.after n c o).log, ∀ channel, e.speaksOf n = some channel →
      channel = a.channel)
    (acts : H.act s.shared n env now c = some o) {e : HubError}
    (ends : H.Ends s.shared env now c (.error e)) :
    SubscribeFailed n a (own ++ [⟨s, l, s.after n c o⟩]) (s.after n c o) := by
  obtain ⟨unindexed, untasked, unjoined, parted⟩ := ends_told (n := n) g.serves ends
  have joins : (s.after n c o).log.countP (Event.joins n) = c.told.toNat := by
    rw [after_log, List.countP_append, act_count (fun _ _ => rfl) acts, g.joined, unjoined,
      Nat.zero_add]
  refine ⟨?_, ?_, ?_, channel, ?_⟩
  · intro p member
    rcases List.mem_append.mp member with old | new
    · exact g.unmoved unindexed p old
    · cases List.mem_singleton.mp new
      refine serves_unmoved g.serves unindexed ?_ acts
      rintro b ref cursor rfl
      cases untasked
  · rw [joins, after_log, List.countP_append, act_count (fun _ _ => rfl) acts, g.unparted, parted,
      Nat.add_zero]
  · rw [joins]
    exact Bool.toNat_le _
  · refine after_stopped ?_ (.inl (g.stopped untasked)) acts
    rintro b ref cursor stream rfl
    cases ends

theorem Subscribing.succeeds (g : Subscribing n a own s c)
    (channel : ∀ e ∈ (s.after n c o).log, ∀ channel, e.speaksOf n = some channel →
      channel = a.channel)
    (acts : H.act s.shared n env now c = some o) {r : Response}
    (ends : H.Ends s.shared env now c (.ok r)) :
    SubscribeSucceeded n a (own ++ [⟨s, l, s.after n c o⟩]) (s.after n c o) := by
  cases ends with
  | subscribed b ref cursor =>
      cases g.serves
      refine ⟨?_, ?_, channel, ?_⟩
      · rw [after_log, List.countP_append, act_count (fun _ _ => rfl) acts, g.joined]
        rfl
      · rw [after_log, List.countP_append, act_count (fun _ _ => rfl) acts, g.unparted]
        rfl
      · obtain ⟨first, rest, opens, found⟩ := g.found _ _ rfl
        obtain ⟨past, insert, same, filled, unmoved, inserts⟩ := g.inserted ref cursor rfl
        obtain ⟨head, tail, rfl⟩ := List.exists_cons_of_ne_nil filled
        rw [same] at opens
        cases opens
        refine ⟨ref, first, tail, insert, ⟨s, l, _⟩, ?_, found, unmoved, inserts,
          indexed_lists acts⟩
        rw [same, List.append_assoc]
        rfl
  | _ => cases g.serves

theorem step_account_own (staged : s.Staged) (g : SubscribeAccount n a own s)
    (h : H.step s (.advance n env now) = some t) :
    SubscribeAccount n a (own ++ [⟨s, .advance n env now, t⟩]) t := by
  obtain ⟨c, o, called, acts, rfl⟩ := Hub.step_advance h
  have pending := g.pending c called
  have spoken : ∀ e ∈ (s.after n c o).log, ∀ channel, e.speaksOf n = some channel →
      channel = a.channel := by
    intro e member channel speaks
    rw [after_log] at member
    rcases List.mem_append.mp member with new | old
    · rcases (Hub.acted acts).event new with logs | ⟨result, rfl⟩
      · exact logs_speaksOf pending.serves logs speaks
      · cases speaks
    · exact g.channel e old channel speaks
  have ends : ∀ result, .returned n result ∈ (s.after n c o).log →
      H.Ends s.shared env now c result := by
    intro result member
    rw [after_log] at member
    rcases List.mem_append.mp member with new | old
    · exact (Hub.ends acts new).2
    · cases called.symm.trans (staged.returned n result old).2
  refine ⟨g.known, spoken, ?_, ?_, ?_⟩
  · intro next found
    rw [after_calls, Function.update_self] at found
    exact pending.goes g.known acts found
  · intro e member
    exact pending.fails spoken acts (ends _ member)
  · intro r member
    exact pending.succeeds spoken acts (ends _ member)

end Own

section Whole

variable {H : Hub κ β τ ε} {s t : State κ β τ} {a : SubscribeArgs}

theorem step_account {n : Nat} {l : Label ε}
    {past : List (Machine.Transition (State κ β τ) (Label ε))} (staged : s.Staged)
    (g : SubscribeAccount n a (ownSteps n past) s) (h : H.step s l = some t) :
    SubscribeAccount n a (ownSteps n (past ++ [⟨s, l, t⟩])) t := by
  simp only [ownSteps, List.filter_append]
  by_cases own : ∃ env now, l = .advance n env now
  · obtain ⟨env, now, rfl⟩ := own
    rw [List.filter_cons_of_pos (by simp [Label.advances]), List.filter_nil]
    exact step_account_own staged g h
  · have others : ∀ env now, l ≠ .advance n env now := fun env now same => own ⟨env, now, same⟩
    have skipped : l.advances n = false := by
      cases l with
      | advance m env now =>
          refine beq_false_of_ne ?_
          rintro rfl
          exact others env now rfl
      | _ => rfl
    rw [List.filter_cons_of_neg (by simp [skipped]), List.filter_nil, List.append_nil]
    exact step_account_others others g h

theorem start_account (staged : s.Staged) (dated : s.Dated)
    (h : H.step s (.start (.subscribe a)) = some t) :
    SubscribeAccount (ε := ε) s.nextCall a [] t := by
  cases h
  have fresh : ∀ e ∈ s.log, e.caller ≠ s.nextCall := fun e member => Nat.ne_of_lt (dated e member)
  refine ⟨Nat.lt_succ_self _, ?_, ?_, ?_, ?_⟩
  · intro e member channel speaks
    exact absurd (Event.speaksOf_own speaks).1 (fresh e member)
  · intro c found
    simp only [Function.update_self, Option.some.injEq] at found
    subst found
    refine ⟨rfl, ?_, ?_, fun _ => rfl, fun _ _ => nofun, fun _ _ => nofun, fun _ _ => nofun, ?_⟩
    · refine List.countP_eq_zero.mpr ?_
      exact fun e member joins => fresh e member (Event.joins_own joins).1
    · refine List.countP_eq_zero.mpr ?_
      exact fun e member parts => fresh e member (Event.parts_own parts).1
    · intro _ w found
      exact absurd (staged.forwarders _ w found) (Nat.lt_irrefl _)
  · intro e member
    exact absurd rfl (fresh _ member)
  · intro r member
    exact absurd rfl (fresh _ member)

theorem subscribe_account {kinds : Nat → κ} {broker : β}
    (run : H.machine.Run Machine.free (State.initial kinds broker) s) {ls : List (Label ε)}
    (ran : H.machine.exec s (.start (.subscribe a) :: ls) = some t) :
    SubscribeAccount s.nextCall a
      (ownSteps s.nextCall (H.machine.path s (.start (.subscribe a) :: ls))) t := by
  obtain ⟨u, started, rest⟩ := Option.bind_eq_some_iff.mp ran
  have first : H.step s (.start (.subscribe a)) = some u := started
  have staged := run_staged run
  have opened : u.Staged ∧ SubscribeAccount s.nextCall a
      (ownSteps s.nextCall [⟨s, .start (.subscribe a), u⟩]) u :=
    ⟨step_staged staged first, start_account staged (run_dated run) first⟩
  have both := Machine.path_invariant (M := H.machine)
    (I := fun past s' => s'.Staged ∧ SubscribeAccount s.nextCall a (ownSteps s.nextCall past) s')
    (fun past s' l t' g _ h => ⟨step_staged g.1 h, step_account g.1 g.2 h⟩) opened
    (Machine.along_free u ls) rest
  rw [Machine.path_cons started]
  exact both.2

/-- A subscribe call that returns an error leaves nothing behind, and one that returns Ok exactly
one entry in the map and in the index. -/
theorem subscribe_clean {kinds : Nat → κ} {broker : β}
    (run : H.machine.Run Machine.free (State.initial kinds broker) s) {ls : List (Label ε)}
    (ran : H.machine.exec s (.start (.subscribe a) :: ls) = some t) :
    (∀ e, .returned s.nextCall (.error e) ∈ t.log → SubscribeFailed s.nextCall a
      (ownSteps s.nextCall (H.machine.path s (.start (.subscribe a) :: ls))) t) ∧
    ∀ r, .returned s.nextCall (.ok r) ∈ t.log → SubscribeSucceeded s.nextCall a
      (ownSteps s.nextCall (H.machine.path s (.start (.subscribe a) :: ls))) t := by
  have account := subscribe_account run ran
  exact ⟨account.failed, account.succeeded⟩

end Whole

/-- Two subscribe calls of one session pass the first check together, and the second one finds
the channel taken when it comes to insert its forwarder; another one has the channel to itself. -/
theorem subscribe_clean_raced :
    (∃ s t ls, defaults.hub.machine.Run Machine.free defaults.boot s ∧
      defaults.hub.machine.exec s (.start (.subscribe ⟨0, 8, "rooms.lobby", 0⟩) :: ls) = some t ∧
      .returned s.nextCall (.error (.alreadySubscribed 0 "rooms.lobby")) ∈ t.log ∧
      t.log.countP (Event.parts s.nextCall) = 1 ∧
      SubscribeFailed s.nextCall ⟨0, 8, "rooms.lobby", 0⟩ (ownSteps s.nextCall
        (defaults.hub.machine.path s (.start (.subscribe ⟨0, 8, "rooms.lobby", 0⟩) :: ls))) t) ∧
    ∃ s t ls, defaults.hub.machine.Run Machine.free defaults.boot s ∧
      defaults.hub.machine.exec s (.start (.subscribe ⟨0, 9, "news", 0⟩) :: ls) = some t ∧
      .returned s.nextCall (.ok (.subscribeOk ⟨9, "news", 1, 0⟩)) ∈ t.log ∧
      SubscribeSucceeded s.nextCall ⟨0, 9, "news", 0⟩ (ownSteps s.nextCall
        (defaults.hub.machine.path s (.start (.subscribe ⟨0, 9, "news", 0⟩) :: ls))) t := by
  constructor
  · obtain ⟨s, -, run, raced⟩ := Machine.exec_witness (M := defaults.hub.machine)
      (s := defaults.boot)
      (Request.steps (.openSession 16) 0 5 ++
        Request.steps (.subscribe ⟨0, 7, "rooms.lobby", 0⟩) 1 7)
      (fun s => ((defaults.hub.machine.exec s (.start (.subscribe ⟨0, 8, "rooms.lobby", 0⟩) ::
        (List.replicate 7 (.advance 2 () 0) ++ List.replicate 2 (.advance 1 () 0) ++
          List.replicate 3 (.advance 2 () 0)))).any fun t =>
            decide (.returned s.nextCall (.error (.alreadySubscribed 0 "rooms.lobby")) ∈ t.log ∧
              t.log.countP (Event.parts s.nextCall) = 1)) = true)
      (by decide +kernel)
    obtain ⟨t, ran, holds⟩ := Option.any_eq_true _ _ |>.mp raced
    obtain ⟨refused, parted⟩ := of_decide_eq_true holds
    exact ⟨s, t, _, run, ran, refused, parted, (subscribe_clean run ran).1 _ refused⟩
  · obtain ⟨s, -, run, alone⟩ := Machine.exec_witness (M := defaults.hub.machine)
      (s := defaults.boot) (Request.steps (.openSession 16) 0 5)
      (fun s => ((defaults.hub.machine.exec s (.start (.subscribe ⟨0, 9, "news", 0⟩) ::
        List.replicate 9 (.advance 1 () 0))).any fun t =>
          decide (.returned s.nextCall (.ok (.subscribeOk ⟨9, "news", 1, 0⟩)) ∈ t.log)) = true)
      (by decide +kernel)
    obtain ⟨t, ran, holds⟩ := Option.any_eq_true _ _ |>.mp alone
    have answered := of_decide_eq_true holds
    exact ⟨s, t, _, run, ran, answered, (subscribe_clean run ran).2 _ answered⟩

end Cherenkov
