import Cherenkov.Hub.Subscribe

/-! Any number of `handle_subscribe` calls for one session and one channel may be under way at the
same time. All of them may pass the first duplicate check; the map of the session decides. The call
whose forwarder is in the map is the only one that can return Ok, and as long as nobody takes the
subscription away, map, index, forwarders and kind agree on it when all have returned. -/

namespace Cherenkov

variable {κ β τ ε : Type}

/-- A request that ends subscriptions of the session. -/
def Request.evicts (id : Nat) : Request → Bool
  | .unsubscribe a => a.sessionId == id
  | .close i | .kick i => i == id
  | _ => false

def Call.evicts (id : Nat) : Call τ → Bool
  | .unsubscribe a | .unsubscribeRemove a _ | .unsubscribeAbort a _ _ | .unsubscribeScrub a _
  | .unsubscribeReap a _ | .unsubscribeKind a _ => a.sessionId == id
  | .kick i | .kickSignal i _ | .deregister _ i | .deregisterScrub _ i _
  | .deregisterDrop _ i _ => i == id
  | _ => false

/-- Nobody ends the session's subscriptions, and no other session is registered under its
identifier. -/
structure Unevicted (id : Nat) (s : State κ β τ) (l : Label ε) : Prop where
  stays : ∀ r, l = .start r → r.evicts id = false
  keeps : ∀ n env now r, l = .advance n env now → s.calls n = some (.openRegister r) →
    (s.shared.heap r).id ≠ id

/-- Moreover no call enters a session in the index of the channel while another is about to remove
that channel's emptied list. -/
structure Undisturbed (id : Nat) (channel : String) (s : State κ β τ) (l : Label ε) : Prop
    extends Unevicted id s l where
  apart : ∀ n env now a ref cursor, l = .advance n env now →
    s.calls n = some (.subscribeIndex a ref cursor) → a.channel = channel →
    ∀ m b r, s.calls m = some (.unsubscribeReap b r) → b.channel ≠ channel

/-- The session is registered and not subscribed to the channel, and no call that could change
this is under way. -/
structure State.Unsubscribed (s : State κ β τ) (id ref : Nat) (channel : String) : Prop where
  registered : s.shared.registry.get id = some ref
  unmapped : (s.shared.heap ref).subscriptions.get channel = none
  unlisted : s.listed id channel = 0
  untasked : ∀ f w, s.shared.forwarders f = some w → w.session = ref → w.channel = channel →
    w.aborted = true
  calm : ∀ n c, s.calls n = some c → c.evicts id = false
  alone : ∀ n c a, s.calls n = some c → c.serves = some (.subscribe a) →
    ¬(a.sessionId = id ∧ a.channel = channel)
  settled : ∀ n a r, s.calls n = some (.unsubscribeReap a r) → a.channel ≠ channel

def rival (id : Nat) (channel : String) (p : Machine.Transition (State κ β τ) (Label ε)) :
    Option Nat :=
  match p.label with
  | .start (.subscribe a) =>
      if a.sessionId = id ∧ a.channel = channel then some p.before.nextCall else none
  | _ => none

def rivals (id : Nat) (channel : String)
    (past : List (Machine.Transition (State κ β τ) (Label ε))) : List Nat :=
  past.filterMap (rival id channel)

namespace State

def accepted (s : State κ β τ) (n : Nat) : Bool :=
  s.log.any fun e =>
    match e with
    | .returned m (.ok _) => m == n
    | _ => false

abbrev entry (s : State κ β τ) (ref : Nat) (channel : String) : Option Nat :=
  (s.shared.heap ref).subscriptions.get channel

def entries (s : State κ β τ) (ref : Nat) (channel : String) : Nat :=
  (s.shared.heap ref).subscriptions.keys.count channel

/-- The forwarders of the session on the channel that were not aborted. -/
def forwarding (s : State κ β τ) (ref : Nat) (channel : String) : Nat :=
  (List.range s.nextCall).countP fun f => (s.shared.forwarders f).any fun w =>
    w.session == ref && w.channel == channel && !w.aborted

end State

section Basics

variable {H : Hub κ β τ ε} {s t : State κ β τ} {l : Label ε} {n id ref : Nat} {channel : String}

theorem accepted_iff : s.accepted n = true ↔ ∃ r, .returned n (.ok r) ∈ s.log := by
  simp only [State.accepted, List.any_eq_true]
  constructor
  · rintro ⟨e, member, same⟩
    split at same
    · next m r =>
        cases eq_of_beq same
        exact ⟨r, member⟩
    · cases same
  · rintro ⟨r, member⟩
    exact ⟨_, member, beq_self_eq_true n⟩

theorem step_accepted (h : H.step s l = some t) (accepted : t.accepted n = true) :
    s.accepted n = true ∨ ∃ env now c r, l = .advance n env now ∧ s.calls n = some c ∧
      H.Ends s.shared env now c (.ok r) := by
  obtain ⟨r, member⟩ := accepted_iff.mp accepted
  rcases step_ends h member with old | ⟨env, now, c, own, called, ends⟩
  · exact .inl (accepted_iff.mpr ⟨r, old⟩)
  · exact .inr ⟨env, now, c, r, own, called, ends⟩

theorem step_accepted_kept (h : H.step s l = some t) (accepted : s.accepted n = true) :
    t.accepted n = true := by
  obtain ⟨r, member⟩ := accepted_iff.mp accepted
  exact accepted_iff.mpr ⟨r, (step_log h).subset member⟩

theorem goes_evicts {x : Shared κ β τ} {env : ε} {now : Nat} {c next : Call τ}
    (goes : H.Goes x env now c next) (evicts : next.evicts id = true) : c.evicts id = true := by
  cases goes <;> first | exact evicts | cases evicts

theorem entry_evicts (r : Request) : (r.entry : Call τ).evicts id = r.evicts id := by
  cases r <;> rfl

theorem unsubscribe_evicts (addressed : s.Addressed) (registered : s.shared.registry.get id = some ref)
    {a : UnsubscribeArgs} {c : Call τ} (called : s.calls n = some c)
    (place : c.address = some (a.sessionId, ref)) : a.sessionId = id := by
  rw [← addressed.address n c _ _ called place]
  exact (addressed.registry id ref registered).2

theorem rivals_append (past : List (Machine.Transition (State κ β τ) (Label ε)))
    (p : Machine.Transition (State κ β τ) (Label ε)) :
    rivals id channel (past ++ [p]) = rivals id channel past ++ (rival id channel p).toList := by
  rw [rivals, List.filterMap_append]
  rfl

theorem rival_some {p : Machine.Transition (State κ β τ) (Label ε)}
    (h : rival id channel p = some n) : ∃ a, p.label = .start (.subscribe a) ∧
      a.sessionId = id ∧ a.channel = channel ∧ n = p.before.nextCall := by
  unfold rival at h
  split at h
  · next a label =>
      split at h
      · next both => exact ⟨a, label, both.1, both.2, (Option.some.inj h).symm⟩
      · cases h
  · cases h

end Basics

/-- The session stays, nobody evicts it, and the calls that subscribe it to the channel are the
ones counted, each with its own account. -/
structure Arena (id ref : Nat) (channel : String)
    (past : List (Machine.Transition (State κ β τ) (Label ε))) (s : State κ β τ) : Prop where
  registered : s.shared.registry.get id = some ref
  calm : ∀ n c, s.calls n = some c → c.evicts id = false
  reaping : ∀ n a r, s.calls n = some (.unsubscribeReap a r) → a.channel = channel →
    s.shared.registry.subscribersOf channel = []
  rival : ∀ n c a, s.calls n = some c → c.serves = some (.subscribe a) → a.sessionId = id →
    a.channel = channel → n ∈ rivals id channel past ∧ ∀ place, c.address = some place → place.2 = ref
  account : ∀ n ∈ rivals id channel past, ∃ own a, SubscribeAccount (ε := ε) n a own s ∧
    a.sessionId = id ∧ a.channel = channel
  nodup : (rivals id channel past).Nodup

section Arena

variable {H : Hub κ β τ ε} {s t : State κ β τ} {l : Label ε} {n id ref : Nat} {channel : String}
  {past : List (Machine.Transition (State κ β τ) (Label ε))}

theorem step_registered (g : Arena id ref channel past s) (ok : Undisturbed id channel s l)
    (h : H.step s l = some t) : t.shared.registry.get id = some ref := by
  cases Hub.stepped h with
  | start r => exact g.registered
  | @advance n env now c o at_ acts =>
      rw [after_registry acts]
      refine registryAfter_kept g.registered ?_ ?_
      · rintro who rfl
        have calm := g.calm n _ at_
        simp [Call.evicts] at calm
      · rintro r rfl
        exact ok.keeps n env now r rfl at_
  | forward task moves =>
      rw [((Hub.forwarded moves).frame task).registry]
      exact g.registered
  | transport quiet sheds =>
      rw [quiet.registry]
      exact g.registered

theorem step_calm (g : Arena id ref channel past s) (ok : Undisturbed id channel s l)
    (h : H.step s l = some t) (c : Call τ) (found : t.calls n = some c) : c.evicts id = false := by
  rcases step_call h found with old | ⟨r, start, -, rfl⟩ | ⟨env, now, before, -, called, goes⟩
  · exact g.calm n c old
  · rw [entry_evicts]
    exact ok.stays r start
  · refine Bool.eq_false_iff.mpr ?_
    intro evicts
    have calm := g.calm n before called
    rw [goes_evicts goes evicts] at calm
    cases calm

theorem step_subscribersOf_nil (ok : Undisturbed id channel s l) {m r : Nat} {b : UnsubscribeArgs}
    (reaps : s.calls m = some (.unsubscribeReap b r)) (here : b.channel = channel)
    (empty : s.shared.registry.subscribersOf channel = []) (h : H.step s l = some t) :
    t.shared.registry.subscribersOf channel = [] := by
  cases Hub.stepped h with
  | start r => exact empty
  | @advance n env now c o at_ acts =>
      rw [after_registry acts]
      refine subscribersOf_after_nil empty ?_
      rintro a ref cursor rfl same
      exact ok.apart n env now a ref cursor rfl at_ same.symm m b r reaps here
  | forward task moves =>
      rw [((Hub.forwarded moves).frame task).registry]
      exact empty
  | transport quiet sheds =>
      rw [quiet.registry]
      exact empty

theorem step_reaping (g : Arena id ref channel past s) (ok : Undisturbed id channel s l)
    (h : H.step s l = some t) {a : UnsubscribeArgs} {r : Nat}
    (found : t.calls n = some (.unsubscribeReap a r)) (here : a.channel = channel) :
    t.shared.registry.subscribersOf channel = [] := by
  rcases step_call h found with old | ⟨req, -, -, entry⟩ | ⟨env, now, c, rfl, called, goes⟩
  · exact step_subscribersOf_nil ok old here (g.reaping n a r old here) h
  · cases req <;> cases entry
  · cases goes with
    | emptied _ _ verdict =>
        obtain ⟨c, o, at_, acts, rfl⟩ := Hub.step_advance h
        cases called.symm.trans at_
        rw [after_registry acts, ← here]
        exact SessionRegistry.scrubChannel_verdict verdict

theorem step_rival (g : Arena id ref channel past s) (h : H.step s l = some t) {c : Call τ}
    {a : SubscribeArgs} (found : t.calls n = some c) (serves : c.serves = some (.subscribe a))
    (own : a.sessionId = id) (here : a.channel = channel) :
    n ∈ rivals id channel (past ++ [⟨s, l, t⟩]) ∧ ∀ place, c.address = some place → place.2 = ref := by
  rw [rivals_append]
  rcases step_call h found with old | ⟨r, rfl, rfl, rfl⟩ | ⟨env, now, before, -, called, goes⟩
  · obtain ⟨member, place⟩ := g.rival n c a old serves own here
    exact ⟨List.mem_append_left _ member, place⟩
  · cases r with
    | subscribe b =>
        cases serves
        refine ⟨List.mem_append_right _ ?_, fun place => nofun⟩
        simp [rival, own, here]
    | _ => cases serves
  · have served := (goes_serves goes).symm.trans serves
    obtain ⟨member, place⟩ := g.rival n before a called served own here
    refine ⟨List.mem_append_left _ member, ?_⟩
    intro there address
    rcases goes_address served goes with ⟨same, older, newer⟩ | ⟨-, r, looked, newer⟩
    · cases address.symm.trans newer
      exact place there older
    · cases address.symm.trans newer
      rw [own, g.registered] at looked
      exact (Option.some.inj looked).symm

theorem SubscribeAccount.step {a : SubscribeArgs}
    {own : List (Machine.Transition (State κ β τ) (Label ε))} (staged : s.Staged)
    (g : SubscribeAccount n a own s) (h : H.step s l = some t) :
    ∃ own', SubscribeAccount (ε := ε) n a own' t := by
  by_cases moves : ∃ env now, l = .advance n env now
  · obtain ⟨env, now, rfl⟩ := moves
    exact ⟨_, step_account_own staged g h⟩
  · exact ⟨own, step_account_others (fun env now same => moves ⟨env, now, same⟩) g h⟩

theorem step_arena (staged : s.Staged) (dated : s.Dated) (g : Arena id ref channel past s)
    (ok : Undisturbed id channel s l) (h : H.step s l = some t) :
    Arena id ref channel (past ++ [⟨s, l, t⟩]) t := by
  refine ⟨step_registered g ok h, fun n => step_calm g ok h, fun n a r => step_reaping g ok h,
    fun n c a => step_rival g h, ?_, ?_⟩
  · intro n member
    rw [rivals_append] at member
    rcases List.mem_append.mp member with old | new
    · obtain ⟨own, a, account, place⟩ := g.account n old
      obtain ⟨own', next⟩ := account.step staged h
      exact ⟨own', a, next, place⟩
    · obtain ⟨a, label, own, here, rfl⟩ := rival_some (Option.mem_toList.mp new)
      cases label
      exact ⟨[], a, start_account staged dated h, own, here⟩
  · rw [rivals_append]
    refine g.nodup.append (by cases rival id channel ⟨s, l, t⟩ <;> simp) ?_
    intro n old new
    obtain ⟨a, -, -, -, rfl⟩ := rival_some (Option.mem_toList.mp new)
    obtain ⟨own, a, account, -⟩ := g.account _ old
    exact Nat.lt_irrefl _ account.known

section Entry

variable (addressed : s.Addressed) (arena : Arena id ref channel past s)
  (ok : Undisturbed id channel s l) (h : H.step s l = some t)

include addressed arena ok h

/-- The map's entry for the channel stays as it is, or a rival's forwarder has just been entered. -/
theorem step_entry :
    t.entry ref channel = s.entry ref channel ∨
      ∃ n env now a cursor, l = .advance n env now ∧
        s.calls n = some (.subscribeInsert a ref cursor) ∧ a.channel = channel ∧
        s.entry ref channel = none ∧
        t.entry ref channel = some n ∧
        t.calls n = some (.subscribeIndex a ref cursor) := by
  have stays := step_registered arena ok h
  have named := (addressed.registry id ref arena.registered)
  have named' := (step_addressed addressed h).registry id ref stays
  unfold State.entry
  cases Hub.stepped h with
  | start r => exact .inl rfl
  | @advance n env now c o at_ acts =>
      have map : ((s.after n c o).shared.heap ref).subscriptions =
          s.shared.subscriptionsAfter n c ref :=
        after_subscriptions acts (named'.2.symm ▸ stays)
      rw [map]
      cases c with
      | openSession capacity =>
          left
          simp only [Shared.subscriptionsAfter, Function.update_of_ne (Nat.ne_of_lt named.1)]
      | unsubscribeRemove a r =>
          left
          by_cases own : ref = r
          · subst own
            have evicts := unsubscribe_evicts addressed arena.registered at_ rfl
            have calm := arena.calm n _ at_
            simp [Call.evicts, evicts] at calm
          · simp only [Shared.subscriptionsAfter, Function.update_of_ne own]
      | subscribeInsert a r cursor =>
          by_cases own : ref = r
          · subst own
            simp only [Shared.subscriptionsAfter, Function.update_self]
            split
            · exact .inl rfl
            · next absent =>
                by_cases here : a.channel = channel
                · right
                  refine ⟨n, env, now, a, cursor, rfl, at_, here, ?_, ?_, ?_⟩
                  · rw [← here]
                    simpa [DashMap.containsKey] using absent
                  · rw [← here, DashMap.get_put_self]
                  · simp only [Hub.act, if_neg absent, Option.some.injEq] at acts
                    rw [after_calls, Function.update_self, ← acts]
                    rfl
                · exact .inl (DashMap.get_put_ne _ _ (Ne.symm here))
          · left
            simp only [Shared.subscriptionsAfter, Function.update_of_ne own]
      | _ => exact .inl rfl
  | forward task moves =>
      left
      rw [((Hub.forwarded moves).frame task).subscriptions]
  | transport quiet sheds kept =>
      left
      rw [kept ref (named.2.symm ▸ arena.registered)]

theorem step_entry_kept {f : Nat} (found : s.entry ref channel = some f) :
    t.entry ref channel = some f := by
  rcases step_entry addressed arena ok h with same | ⟨n, env, now, a, cursor, -, -, -, absent, -, -⟩
  · rw [same, found]
  · rw [found] at absent
    cases absent

end Entry

theorem step_indexing (staged : s.Staged) (h : H.step s l = some t) {a : SubscribeArgs} {r : Nat}
    {cursor : ChannelCursor} (called : s.calls n = some (.subscribeIndex a r cursor)) :
    t.calls n = some (.subscribeIndex a r cursor) ∨ t.accepted n = true := by
  by_cases moves : ∃ env now, l = .advance n env now
  · obtain ⟨env, now, rfl⟩ := moves
    right
    obtain ⟨c, o, at_, acts, rfl⟩ := Hub.step_advance h
    cases called.symm.trans at_
    cases acts
    exact accepted_iff.mpr ⟨_, List.mem_append_left _ (List.mem_singleton_self _)⟩
  · exact .inl (step_call_kept staged called (fun env now same => moves ⟨env, now, same⟩) h)

/-- Only the call that is about to enter the index can return Ok. -/
theorem rival_ends_ok (g : Arena id ref channel past s) (member : n ∈ rivals id channel past)
    {env : ε} {now : Nat} {c : Call τ} {r : Response} (called : s.calls n = some c)
    (ends : H.Ends s.shared env now c (.ok r)) :
    ∃ a cursor, c = .subscribeIndex a ref cursor ∧ a.sessionId = id ∧ a.channel = channel := by
  obtain ⟨own, a, account, session, here⟩ := g.account n member
  have serves := (account.pending c called).serves
  cases ends with
  | subscribed b r' cursor =>
      cases serves
      obtain ⟨-, place⟩ := g.rival n _ a called rfl session here
      cases place _ rfl
      exact ⟨a, cursor, rfl, session, here⟩
  | _ => cases serves

end Arena

/-- The call has returned Ok, or will as soon as it has entered the index. -/
def State.Winning (s : State κ β τ) (n : Nat) : Prop :=
  s.accepted n = true ∨ ∃ a ref cursor, s.calls n = some (.subscribeIndex a ref cursor)

/-- The map names the winner, the index follows it, and every other forwarder that was not
aborted belongs to a call that will stop it. -/
structure Contest (id ref : Nat) (channel : String)
    (past : List (Machine.Transition (State κ β τ) (Label ε))) (s : State κ β τ) : Prop where
  holder : ∀ f, s.entry ref channel = some f →
    f ∈ rivals id channel past ∧ s.Winning f
  wins : ∀ n ∈ rivals id channel past, s.Winning n →
    s.entry ref channel = some n
  listed : s.listed id channel =
    (s.entry ref channel).elim 0 fun f => (s.accepted f).toNat
  tasks : ∀ f w, s.shared.forwarders f = some w → w.session = ref → w.channel = channel →
    w.aborted = false → s.entry ref channel = some f ∨
      ∃ c a, s.calls f = some c ∧ c.tasked = true ∧ c.serves = some (.subscribe a) ∧
        a.sessionId = id ∧ a.channel = channel

section Contest

variable {H : Hub κ β τ ε} {s t : State κ β τ} {l : Label ε} {n id ref : Nat} {channel : String}
  {past : List (Machine.Transition (State κ β τ) (Label ε))}

theorem step_winning (staged : s.Staged) (h : H.step s l = some t) (winning : s.Winning n) :
    t.Winning n := by
  rcases winning with accepted | ⟨a, r, cursor, called⟩
  · exact .inl (step_accepted_kept h accepted)
  · rcases step_indexing staged h called with still | accepted
    · exact .inr ⟨a, r, cursor, still⟩
    · exact .inl accepted

theorem Staged.unaccepted {c : Call τ} (staged : s.Staged) (called : s.calls n = some c) :
    s.accepted n = false := by
  refine Bool.eq_false_iff.mpr ?_
  intro accepted
  obtain ⟨r, returned⟩ := accepted_iff.mp accepted
  rw [(staged.returned n _ returned).2] at called
  cases called

section Step

variable (staged : s.Staged) (addressed : s.Addressed) (arena : Arena id ref channel past s)
  (g : Contest id ref channel past s) (ok : Undisturbed id channel s l) (h : H.step s l = some t)

include staged addressed arena g ok h

theorem step_holder {f : Nat} (found : t.entry ref channel = some f) :
    f ∈ rivals id channel (past ++ [⟨s, l, t⟩]) ∧ t.Winning f := by
  rcases step_entry addressed arena ok h with same |
    ⟨n, env, now, a, cursor, rfl, called, here, -, entered, next⟩
  · obtain ⟨member, winning⟩ := g.holder f (same ▸ found)
    rw [rivals_append]
    exact ⟨List.mem_append_left _ member, step_winning staged h winning⟩
  · cases found.symm.trans entered
    have own : a.sessionId = id := by
      rw [← addressed.address f _ _ _ called rfl]
      exact (addressed.registry id ref arena.registered).2
    refine ⟨(step_rival arena h next rfl own here).1, .inr ⟨a, ref, cursor, next⟩⟩

omit staged in
theorem step_wins (dated : s.Dated) (member : n ∈ rivals id channel (past ++ [⟨s, l, t⟩])) (winning : t.Winning n) :
    t.entry ref channel = some n := by
  rw [rivals_append] at member
  rcases List.mem_append.mp member with old | new
  · have kept : s.Winning n → t.entry ref channel = some n :=
      fun before => step_entry_kept addressed arena ok h (g.wins n old before)
    rcases winning with accepted | ⟨a, r, cursor, found⟩
    · rcases step_accepted h accepted with before | ⟨env, now, c, r, -, called, ends⟩
      · exact kept (.inl before)
      · obtain ⟨a, cursor, rfl, -⟩ := rival_ends_ok arena old called ends
        exact kept (.inr ⟨a, ref, cursor, called⟩)
    · rcases step_call h found with before | ⟨req, -, -, entry⟩ | ⟨env, now, c, rfl, called, goes⟩
      · exact kept (.inr ⟨a, r, cursor, before⟩)
      · cases req <;> cases entry
      · cases goes with
        | inserted _ _ _ absent =>
            obtain ⟨own, b, account, session, here⟩ := arena.account n old
            cases (account.pending _ called).serves
            obtain ⟨-, place⟩ := arena.rival n _ a called rfl session here
            cases place _ rfl
            have stays := step_registered arena ok h
            have named := (step_addressed addressed h).registry id r stays
            obtain ⟨c, o, at_, acts, rfl⟩ := Hub.step_advance h
            cases called.symm.trans at_
            rw [State.entry, after_subscriptions acts (named.2.symm ▸ stays)]
            simp only [Shared.subscriptionsAfter, Function.update_self, absent]
            rw [← here]
            exact DashMap.get_put_self ..
  · obtain ⟨a, label, -, -, rfl⟩ := rival_some (Option.mem_toList.mp new)
    cases label
    rcases winning with accepted | ⟨a', r, cursor, found⟩
    · cases h
      obtain ⟨r, returned⟩ := accepted_iff.mp accepted
      exact absurd (dated _ returned) (Nat.lt_irrefl _)
    · cases h
      simp [Request.entry] at found

/-- Unless the winner enters the index, its standing does not change. -/
theorem step_standing
    (idle : ∀ n env now a cursor, l = .advance n env now →
      s.calls n = some (.subscribeIndex a ref cursor) → ¬(a.sessionId = id ∧ a.channel = channel)) :
    ((t.entry ref channel).elim 0 fun f => (t.accepted f).toNat) =
      (s.entry ref channel).elim 0 fun f => (s.accepted f).toNat := by
  rcases step_entry addressed arena ok h with same |
    ⟨n, env, now, a, cursor, -, -, -, absent, entered, next⟩
  · rw [same]
    cases found : s.entry ref channel with
    | none => rfl
    | some f =>
        have unchanged : t.accepted f = s.accepted f := by
          refine Bool.eq_iff_iff.mpr ⟨?_, step_accepted_kept h⟩
          intro accepted
          rcases step_accepted h accepted with before | ⟨env, now, c, r, own, called, ends⟩
          · exact before
          · obtain ⟨a, cursor, rfl, both⟩ := rival_ends_ok arena (g.holder f found).1 called ends
            exact absurd both (idle f env now a cursor own called)
        simp only [Option.elim_some, unchanged]
  · rw [absent, entered]
    simp only [Option.elim_some, Option.elim_none,
      Staged.unaccepted (step_staged staged h) next, Bool.toNat_false]

theorem step_listed : t.listed id channel =
    (t.entry ref channel).elim 0 fun f => (t.accepted f).toNat := by
  have standing := step_standing staged addressed arena g ok h
  by_cases advances : ∃ n env now, l = .advance n env now
  · obtain ⟨n, env, now, rfl⟩ := advances
    obtain ⟨c, o, at_, acts, rfl⟩ := Hub.step_advance h
    have changed : (s.after n c o).listed id channel =
        c.listedAfter id channel (s.listed id channel) := by
      simp only [State.listed, after_registry acts]
      refine listed_after id channel ?_
      rintro a r rfl here
      exact arena.reaping n a r at_ here.symm
    rw [changed]
    by_cases index : ∃ a r cursor, c = .subscribeIndex a r cursor ∧ a.sessionId = id ∧
        a.channel = channel
    · obtain ⟨a, r, cursor, rfl, own, here⟩ := index
      have member := (arena.rival n _ a at_ rfl own here).1
      have held := g.wins n member (.inr ⟨a, r, cursor, at_⟩)
      have accepted : (s.after n (.subscribeIndex a r cursor) o).accepted n = true := by
        cases acts
        exact accepted_iff.mpr ⟨_, List.mem_append_left _ (List.mem_singleton_self _)⟩
      rw [step_entry_kept addressed arena ok h held, g.listed, held]
      simp [Call.listedAfter, own, here, accepted, Staged.unaccepted staged at_]
    · rw [standing ?_, ← g.listed]
      · have calm := arena.calm n c at_
        cases c with
        | subscribeIndex a r cursor =>
            exact if_neg fun both => index ⟨a, r, cursor, rfl, both.2.symm, both.1.symm⟩
        | unsubscribeScrub a r =>
            refine if_neg fun both => ?_
            simp [Call.evicts, both.2] at calm
        | deregisterScrub who i r =>
            refine if_neg fun same => ?_
            simp [Call.evicts, same] at calm
        | _ => rfl
      · rintro m env' now' a cursor ⟨⟩ called both
        cases at_.symm.trans called
        exact index ⟨a, ref, cursor, rfl, both⟩
  · have registry : t.shared.registry = s.shared.registry := by
      cases Hub.stepped h with
      | start r => rfl
      | advance at_ acts => exact absurd ⟨_, _, _, rfl⟩ advances
      | forward task moves => exact ((Hub.forwarded moves).frame task).registry
      | transport quiet sheds => exact quiet.registry
    rw [standing fun n env now _ _ same => absurd ⟨n, env, now, same⟩ advances, ← g.listed]
    simp only [State.listed, registry]

theorem step_tasks {f : Nat} {w : Forwarder τ}
    (found : t.shared.forwarders f = some w) (session : w.session = ref)
    (label : w.channel = channel) (running : w.aborted = false) :
    t.entry ref channel = some f ∨
      ∃ c a, t.calls f = some c ∧ c.tasked = true ∧ c.serves = some (.subscribe a) ∧
        a.sessionId = id ∧ a.channel = channel := by
  by_cases moves : ∃ env now, l = .advance f env now
  · obtain ⟨env, now, rfl⟩ := moves
    obtain ⟨c, o, at_, acts, rfl⟩ := Hub.step_advance h
    rcases after_forwarder_some acts found with ⟨a, r, cursor, stream, rfl, -, new⟩ |
      ⟨v, older, same⟩
    · right
      have own : a.sessionId = id := by
        have place : r = ref := by rcases new with rfl | rfl <;> exact session
        rw [← addressed.address f _ _ _ at_ rfl, place]
        exact (addressed.registry id ref arena.registered).2
      cases acts
      refine ⟨.subscribeInsert a r cursor, a, Function.update_self .., rfl, rfl, own, ?_⟩
      rcases new with rfl | rfl <;> exact label
    · have unchanged : v = w := by
        rcases same with rfl | rfl
        · rfl
        · cases running
      subst unchanged
      rcases g.tasks f v older session label running with held | ⟨d, a, called, tasked, serves, own, here⟩
      · exact .inl (step_entry_kept addressed arena ok h held)
      · cases at_.symm.trans called
        cases c with
        | subscribeInsert b r cursor =>
            right
            simp only [Hub.act] at acts
            split at acts <;> cases acts <;>
              exact ⟨_, a, Function.update_self .., rfl, serves, own, here⟩
        | subscribeIndex b r cursor =>
            left
            have member := (arena.rival f _ a at_ serves own here).1
            exact step_entry_kept addressed arena ok h (g.wins f member (.inr ⟨b, r, cursor, at_⟩))
        | subscribeStray b r =>
            rw [after_aborted acts rfl found] at running
            cases running
        | _ => cases tasked
  · have others : ∀ env now, l ≠ .advance f env now := fun env now same => moves ⟨env, now, same⟩
    obtain ⟨v, older, session', label', aborted⟩ := step_task_others others h found
    have running' : v.aborted = false := by
      refine Bool.eq_false_iff.mpr ?_
      intro stopped
      rw [aborted stopped] at running
      cases running
    rcases g.tasks f v older (session'.symm.trans session) (label'.symm.trans label) running' with
      held | ⟨c, a, called, rest⟩
    · exact .inl (step_entry_kept addressed arena ok h held)
    · exact .inr ⟨c, a, step_call_kept staged called others h, rest⟩

theorem step_contest (dated : s.Dated) : Contest id ref channel (past ++ [⟨s, l, t⟩]) t :=
  ⟨fun _ => step_holder staged addressed arena g ok h,
    fun _ => step_wins addressed arena g ok h dated, step_listed staged addressed arena g ok h,
    fun _ _ => step_tasks staged addressed arena g ok h⟩

end Step

end Contest

/-- A plugin call of call `n` that did not go through. -/
def Event.hinders (n : Nat) : Event → Bool
  | .checked _ _ _ _ _ (.ok .allow) => false
  | .checked m _ _ _ _ _ | .onSubscribe m _ _ (.error _) | .brokerSubscribe m _ _ false
  | .replaySince m _ _ _ (.error _) => m == n
  | _ => false

/-- Call `n` has a reason to fail: the session has a subscription, a plugin call of its own
failed, or the client is gone. -/
def State.Excused (s : State κ β τ) (ref : Nat) (channel : String) (n : Nat) : Prop :=
  s.entry ref channel ≠ none ∨ (∃ e ∈ s.log, e.hinders n = true) ∨
    (s.shared.heap ref).outbox.closed = true

structure Excuses (anonymous : Bool) (ref : Nat) (channel : String) (calls : List Nat)
    (s : State κ β τ) : Prop where
  claimed : anonymous = true ∨ (s.shared.heap ref).claims ≠ none
  straying : ∀ n ∈ calls, ∀ a r, s.calls n = some (.subscribeStray a r) →
    s.entry ref channel ≠ none
  unwinding : ∀ n ∈ calls, ∀ a r stream e, s.calls n = some (.subscribeUnwind a r stream e) →
    s.Excused ref channel n
  refused : ∀ n ∈ calls, ∀ e, .returned n (.error e) ∈ s.log → s.Excused ref channel n

section Excuses

variable {H : Hub κ β τ ε} {s t : State κ β τ} {l : Label ε} {n id ref : Nat} {channel : String}
  {past : List (Machine.Transition (State κ β τ) (Label ε))}

theorem step_claimed (known : ref < s.shared.nextRef) (h : H.step s l = some t)
    (claimed : (s.shared.heap ref).claims ≠ none) : (t.shared.heap ref).claims ≠ none := by
  rcases step_claims h ref with same | ⟨n, env, now, c, -, -, changed⟩
  · rw [same]
    exact claimed
  · rw [changed]
    cases c with
    | openSession capacity =>
        simp only [Hub.claimsAfter, Function.update_of_ne (Nat.ne_of_lt known)]
        exact claimed
    | connectSet a r claims | seedClaims g r =>
        simp only [Hub.claimsAfter, Function.update_apply]
        split
        · exact Option.some_ne_none _
        · exact claimed
    | _ => exact claimed

theorem Arena.place (arena : Arena id ref channel past s) (member : n ∈ rivals id channel past)
    {c : Call τ} (called : s.calls n = some c) :
    ∃ a, c.serves = some (.subscribe a) ∧ a.sessionId = id ∧ a.channel = channel ∧
      ∀ place, c.address = some place → place.2 = ref := by
  obtain ⟨own, a, account, session, here⟩ := arena.account n member
  have serves := (account.pending c called).serves
  exact ⟨a, serves, session, here, (arena.rival n c a called serves session here).2⟩

theorem Arena.holds (arena : Arena id ref channel past s) (member : n ∈ rivals id channel past)
    {c : Call τ} {a : SubscribeArgs} {r : Nat} (called : s.calls n = some c)
    (serves : c.serves = some (.subscribe a)) (address : c.address = some (a.sessionId, r))
    (present : (s.shared.heap r).subscriptions.containsKey a.channel = true) :
    s.entry ref channel ≠ none := by
  obtain ⟨b, served, -, here, place⟩ := arena.place member called
  cases serves.symm.trans served
  cases place _ address
  rw [← here]
  exact Option.isSome_iff_ne_none.mp present

section Step

variable (addressed : s.Addressed) (arena : Arena id ref channel past s)
  (ok : Undisturbed id channel s l) (h : H.step s l = some t)

include addressed arena ok h

theorem step_excused (excused : s.Excused ref channel n) : t.Excused ref channel n := by
  rcases excused with held | ⟨e, member, hinders⟩ | closed
  · obtain ⟨f, found⟩ := Option.ne_none_iff_exists'.mp held
    left
    rw [step_entry_kept addressed arena ok h found]
    exact Option.some_ne_none f
  · exact .inr (.inl ⟨e, (step_log h).subset member, hinders⟩)
  · exact .inr (.inr (step_closed (addressed.registry id ref arena.registered).1 h closed))

variable (g : Excuses H.gate.allowAnonymous ref channel (rivals id channel past) s)

include g

theorem step_straying (member : n ∈ rivals id channel past) {a : SubscribeArgs} {r : Nat}
    (found : t.calls n = some (.subscribeStray a r)) :
    t.entry ref channel ≠ none := by
  have held : s.entry ref channel ≠ none := by
    rcases step_call h found with old | ⟨req, -, -, entry⟩ | ⟨env, now, c, -, called, goes⟩
    · exact g.straying n member a r old
    · cases req <;> cases entry
    · cases goes with
      | strayed _ _ _ present => exact arena.holds member called rfl rfl present
  obtain ⟨f, there⟩ := Option.ne_none_iff_exists'.mp held
  rw [step_entry_kept addressed arena ok h there]
  exact Option.some_ne_none f

theorem step_unwinding (member : n ∈ rivals id channel past) {a : SubscribeArgs} {r : Nat}
    {stream : Option τ} {e : HubError} (found : t.calls n = some (.subscribeUnwind a r stream e)) :
    t.Excused ref channel n := by
  rcases step_call h found with old | ⟨req, -, -, entry⟩ | ⟨env, now, c, rfl, called, goes⟩
  · exact step_excused addressed arena ok h (g.unwinding n member a r stream e old)
  · cases req <;> cases entry
  · cases goes with
    | unattached _ _ cursor refuses =>
        refine .inr (.inl ⟨_, advance_logged called rfl h, ?_⟩)
        simp [refuses, Except.isOk, Except.toBool, Event.hinders]
    | unreplayed _ _ cursor stream refuses =>
        refine .inr (.inl ⟨_, advance_logged called rfl h, ?_⟩)
        simp [refuses, Event.hinders]
    | unsent _ _ cursor stream p rest closed =>
        obtain ⟨b, served, -, -, place⟩ := arena.place member called
        cases place _ rfl
        exact step_excused addressed arena ok h (.inr (.inr (Outbox.send_closed closed)))
    | stopped _ _ =>
        exact step_excused addressed arena ok h (.inl (g.straying n member a r called))

theorem step_refused (member : n ∈ rivals id channel past) {e : HubError}
    (returned : .returned n (.error e) ∈ t.log) : t.Excused ref channel n := by
  rcases step_ends h returned with old | ⟨env, now, c, rfl, called, ends⟩
  · exact step_excused addressed arena ok h (g.refused n member e old)
  · obtain ⟨a, served, session, here, place⟩ := arena.place member called
    cases ends with
    | gone b absent =>
        cases b with
        | publish b => cases served
        | subscribe b =>
            cases served
            rw [Gated.sessionId, session, arena.registered] at absent
            cases absent
    | unconnected b r none_ strict =>
        cases place _ rfl
        rcases g.claimed with anonymous | claimed
        · exact absurd anonymous strict
        · exact absurd none_ claimed
    | denied b r claims denies =>
        refine .inr (.inl ⟨_, advance_logged called rfl h, ?_⟩)
        simp [denies, Event.hinders]
    | unchecked b r claims fails =>
        refine .inr (.inl ⟨_, advance_logged called rfl h, ?_⟩)
        simp [fails, Event.hinders]
    | repeated b r present =>
        exact step_excused addressed arena ok h (.inl (arena.holds member called rfl rfl present))
    | unsubscribable b r refuses =>
        refine .inr (.inl ⟨_, advance_logged called rfl h, ?_⟩)
        simp [refuses, Event.hinders]
    | unwound b r stream error =>
        exact step_excused addressed arena ok h (g.unwinding n member b r stream e called)
    | _ => cases served

theorem step_excuses (dated : s.Dated) : Excuses H.gate.allowAnonymous ref channel (rivals id channel (past ++ [⟨s, l, t⟩])) t := by
  have cases_ : ∀ n ∈ rivals id channel (past ++ [⟨s, l, t⟩]), n ∈ rivals id channel past ∨
      (∃ a, l = .start (.subscribe a)) ∧ n = s.nextCall := by
    intro n member
    rw [rivals_append] at member
    rcases List.mem_append.mp member with old | new
    · exact .inl old
    · obtain ⟨a, label, -, -, same⟩ := rival_some (Option.mem_toList.mp new)
      exact .inr ⟨⟨a, label⟩, same⟩
  refine ⟨?_, ?_, ?_, ?_⟩
  · exact g.claimed.imp_right (step_claimed (addressed.registry id ref arena.registered).1 h)
  · intro n member a r found
    rcases cases_ n member with old | ⟨⟨b, rfl⟩, rfl⟩
    · exact step_straying addressed arena ok h g old found
    · cases h
      simp [Request.entry] at found
  · intro n member a r stream e found
    rcases cases_ n member with old | ⟨⟨b, rfl⟩, rfl⟩
    · exact step_unwinding addressed arena ok h g old found
    · cases h
      simp [Request.entry] at found
  · intro n member e returned
    rcases cases_ n member with old | ⟨⟨b, rfl⟩, rfl⟩
    · exact step_refused addressed arena ok h g old returned
    · cases h
      exact absurd (dated _ returned) (Nat.lt_irrefl _)

end Step

end Excuses

theorem countP_elected {calls : List Nat} {p : Nat → Bool} {winner : Option Nat}
    (nodup : calls.Nodup) (member : ∀ f, winner = some f → f ∈ calls)
    (only : ∀ n ∈ calls, p n = true → winner = some n) :
    calls.countP p = winner.elim 0 fun f => (p f).toNat := by
  cases winner with
  | none =>
      refine List.countP_eq_zero.mpr ?_
      intro n there holds
      cases only n there holds
  | some f =>
      have same : calls.countP p = calls.countP fun n => n == f && p f := by
        refine List.countP_congr ?_
        intro n there
        rw [Bool.and_eq_true, beq_iff_eq]
        constructor
        · intro holds
          cases only n there holds
          exact ⟨rfl, holds⟩
        · rintro ⟨rfl, holds⟩
          exact holds
      rw [same]
      cases holds : p f with
      | false => simp [holds]
      | true =>
          simp only [Bool.and_true, Option.elim_some, holds, Bool.toNat_true]
          exact List.count_eq_one_of_mem nodup (member f rfl)

theorem countP_or_of_apart {p q : Event → Bool} (apart : ∀ e, p e = true → q e = false)
    (log : List Event) :
    (log.countP fun e => p e || q e) = log.countP p + log.countP q := by
  induction log with
  | nil => rfl
  | cons e log ih =>
      simp only [List.countP_cons, ih]
      cases holds : p e with
      | false => simp [Nat.add_assoc]
      | true => simp [apart e holds, Nat.add_right_comm]

theorem countP_any {p : Nat → Event → Bool} (own : ∀ n e, p n e = true → e.caller = n)
    {calls : List Nat} (nodup : calls.Nodup) (log : List Event) :
    (log.countP fun e => calls.any fun n => p n e) = (calls.map fun n => log.countP (p n)).sum := by
  induction calls with
  | nil => simp
  | cons n calls ih =>
      rw [List.nodup_cons] at nodup
      simp only [List.any_cons, List.map_cons, List.sum_cons, ← ih nodup.2]
      refine countP_or_of_apart ?_ log
      intro e holds
      refine List.any_eq_false.mpr ?_
      intro m member other
      exact nodup.1 (((own n e holds).symm.trans (own m e other)) ▸ member)

theorem sum_eq_of_each {calls : List Nat} {f g : Nat → Nat} {p : Nat → Bool}
    (each : ∀ n ∈ calls, f n = g n + (p n).toNat) :
    (calls.map f).sum = (calls.map g).sum + calls.countP p := by
  induction calls with
  | nil => rfl
  | cons n calls ih =>
      have rest := ih fun m member => each m (List.mem_cons_of_mem _ member)
      have first := each n (List.mem_cons_self ..)
      simp only [List.map_cons, List.sum_cons, List.countP_cons]
      cases holds : p n with
      | false =>
          rw [holds, Bool.toNat_false] at first
          simp only [Bool.false_eq_true, if_false]
          omega
      | true =>
          rw [holds, Bool.toNat_true] at first
          simp only [if_true]
          omega

section Final

variable {H : Hub κ β τ ε} {s t : State κ β τ} {n id ref : Nat} {channel : String}
  {past : List (Machine.Transition (State κ β τ) (Label ε))}

theorem Contest.accepted (arena : Arena id ref channel past s) (g : Contest id ref channel past s) :
    (rivals id channel past).countP s.accepted = s.listed id channel := by
  rw [g.listed]
  exact countP_elected arena.nodup (fun f found => (g.holder f found).1)
    fun n member accepted => g.wins n member (.inl accepted)

theorem Contest.settled (staged : s.Staged) (g : Contest id ref channel past s)
    (answered : ∀ n ∈ rivals id channel past, ∃ result, .returned n result ∈ s.log) :
    s.listed id channel = (s.entry ref channel).isSome.toNat := by
  rw [g.listed]
  cases found : s.entry ref channel with
  | none => rfl
  | some f =>
      obtain ⟨member, winning⟩ := g.holder f found
      obtain ⟨result, returned⟩ := answered f member
      rcases winning with accepted | ⟨a, r, cursor, called⟩
      · simp [accepted]
      · rw [(staged.returned f result returned).2] at called
        cases called

theorem SubscribeAccount.answered {a : SubscribeArgs}
    {own : List (Machine.Transition (State κ β τ) (Label ε))} (g : SubscribeAccount n a own s)
    {result : Except HubError Response} (returned : .returned n result ∈ s.log) :
    s.log.countP (Event.joins n) = s.log.countP (Event.parts n) + (s.accepted n).toNat := by
  cases accepted : s.accepted n with
  | true =>
      obtain ⟨r, ok⟩ := accepted_iff.mp accepted
      have done := g.succeeded r ok
      rw [done.joined, done.unparted]
      rfl
  | false =>
      cases result with
      | error e => exact (g.failed e returned).balanced
      | ok r =>
          rw [accepted_iff.mpr ⟨r, returned⟩] at accepted
          cases accepted

theorem entries_eq (s : State κ β τ) (ref : Nat) (channel : String) :
    s.entries ref channel = (s.entry ref channel).isSome.toNat := by
  have member := AList.lookup_isSome (s := (s.shared.heap ref).subscriptions) (a := channel)
  cases found : s.entry ref channel with
  | none =>
      refine List.count_eq_zero_of_not_mem ?_
      intro there
      have some_ : (s.entry ref channel).isSome = true := member.mpr there
      rw [found] at some_
      cases some_
  | some f =>
      refine List.count_eq_one_of_mem (AList.keys_nodup _) (member.mp ?_)
      exact Option.isSome_iff_exists.mpr ⟨f, found⟩

/-- Nobody's stream has come to its end. -/
def Streaming (H : Hub κ β τ ε) (s : State κ β τ) (_ : Label ε) : Prop :=
  ∀ f w b, s.shared.forwarders f = some w → H.broker.next s.shared.broker w.stream ≠ (b, .finished)

theorem run_streaming {kinds : Nat → κ} {broker : β}
    (run : H.machine.Run (Streaming H) (State.initial kinds broker) s) :
    Tasked s.shared s.calls s.nextCall := by
  have all : s.Staged ∧ s.Addressed ∧ Tasked s.shared s.calls s.nextCall := by
    refine run.invariant (I := fun s => s.Staged ∧ s.Addressed ∧
      Tasked s.shared s.calls s.nextCall) ⟨initial_staged kinds broker, initial_addressed kinds broker,
        initial_tasked kinds broker⟩ ?_
    rintro s l t ⟨staged, addressed, g⟩ streaming h
    exact ⟨step_staged staged h, step_addressed addressed h,
      step_tasked staged addressed streaming g h⟩
  exact all.2.2

theorem Contest.forwarding (staged : s.Staged) (arena : Arena id ref channel past s)
    (g : Contest id ref channel past s)
    (answered : ∀ n ∈ rivals id channel past, ∃ result, .returned n result ∈ s.log) :
    s.forwarding ref channel = (s.entry ref channel).elim 0 fun f =>
      ((s.shared.forwarders f).any fun w =>
        w.session == ref && w.channel == channel && !w.aborted).toNat := by
  refine countP_elected List.nodup_range ?_ ?_
  · intro f found
    obtain ⟨own, a, account, -⟩ := arena.account f (g.holder f found).1
    exact List.mem_range.mpr account.known
  · intro f _ live
    obtain ⟨w, task, holds⟩ := Option.any_eq_true _ _ |>.mp live
    simp only [Bool.and_eq_true, beq_iff_eq, Bool.not_eq_true'] at holds
    rcases g.tasks f w task holds.1.1 holds.1.2 holds.2 with held | ⟨c, a, called, -, serves, own, here⟩
    · exact held
    · obtain ⟨result, returned⟩ := answered f (arena.rival f c a called serves own here).1
      rw [(staged.returned f result returned).2] at called
      cases called

theorem State.Unsubscribed.arena (fresh : s.Unsubscribed id ref channel) :
    Arena (ε := ε) id ref channel [] s where
  registered := fresh.registered
  calm := fresh.calm
  reaping n a r reaps here := absurd here (fresh.settled n a r reaps)
  rival n c a called serves own here := absurd ⟨own, here⟩ (fresh.alone n c a called serves)
  account _ := nofun
  nodup := List.nodup_nil

theorem State.Unsubscribed.contest (fresh : s.Unsubscribed id ref channel) :
    Contest (ε := ε) id ref channel [] s where
  holder f found := by cases fresh.unmapped.symm.trans found
  wins _ := nofun
  listed := by
    rw [fresh.unlisted, State.entry, fresh.unmapped]
    rfl
  tasks f w task session label running := by
    rw [fresh.untasked f w task session label] at running
    cases running

/-- What holds of the session and the calls in every state of the contest. -/
structure Contested (id ref : Nat) (channel : String)
    (past : List (Machine.Transition (State κ β τ) (Label ε))) (s : State κ β τ) : Prop where
  staged : s.Staged
  dated : s.Dated
  addressed : s.Addressed
  arena : Arena id ref channel past s
  contest : Contest id ref channel past s

theorem step_contested {l : Label ε} (g : Contested id ref channel past s)
    (ok : Undisturbed id channel s l) (h : H.step s l = some t) :
    Contested id ref channel (past ++ [⟨s, l, t⟩]) t where
  staged := step_staged g.staged h
  dated := step_dated g.staged g.dated h
  addressed := step_addressed g.addressed h
  arena := step_arena g.staged g.dated g.arena ok h
  contest := step_contest g.staged g.addressed g.arena g.contest ok h g.dated

theorem contested_start {kinds : Nat → κ} {broker : β}
    (run : H.machine.Run Machine.free (State.initial kinds broker) s)
    (fresh : s.Unsubscribed id ref channel) : Contested (ε := ε) id ref channel [] s :=
  ⟨run_staged run, run_dated run, run_addressed run, fresh.arena, fresh.contest⟩

theorem exec_contested {ls : List (Label ε)} (start : Contested (ε := ε) id ref channel [] s)
    (undisturbed : H.machine.Along (Undisturbed id channel) s ls)
    (ran : H.machine.exec s ls = some t) :
    Contested id ref channel (H.machine.path s ls) t :=
  Machine.path_invariant (I := fun past s => Contested id ref channel past s)
    (fun _ _ _ _ => step_contested) start undisturbed ran

theorem exec_excuses {ls : List (Label ε)} (start : Contested (ε := ε) id ref channel [] s)
    (connected : H.gate.allowAnonymous = true ∨ (s.shared.heap ref).claims ≠ none)
    (undisturbed : H.machine.Along (Undisturbed id channel) s ls)
    (ran : H.machine.exec s ls = some t) :
    Excuses H.gate.allowAnonymous ref channel (rivals id channel (H.machine.path s ls)) t := by
  have opened : Excuses H.gate.allowAnonymous ref channel
      (rivals id channel ([] : List (Machine.Transition (State κ β τ) (Label ε)))) s :=
    ⟨connected, fun _ => nofun, fun _ => nofun, fun _ => nofun⟩
  have both := Machine.path_invariant (M := H.machine)
    (I := fun past s => Contested id ref channel past s ∧
      Excuses H.gate.allowAnonymous ref channel (rivals id channel past) s)
    (fun past s l t g ok h => ⟨step_contested g.1 ok h,
      step_excuses g.1.addressed g.1.arena ok h g.2 g.1.dated⟩) ⟨start, opened⟩ undisturbed ran
  exact both.2

/-- At most one of the calls returns Ok. When all have returned, the map, the index, the running
forwarders and the kind count as many as returned Ok; and that is one, if there was a call, the
session was connected, every plugin call went through and the client stayed. -/
theorem one_winner {kinds : Nat → κ} {broker : β}
    (run : H.machine.Run Machine.free (State.initial kinds broker) s)
    (fresh : s.Unsubscribed id ref channel) {ls : List (Label ε)}
    (undisturbed : H.machine.Along (Undisturbed id channel) s ls)
    (ran : H.machine.exec s ls = some t) {calls : List Nat}
    (made : calls = rivals id channel (H.machine.path s ls)) :
    calls.countP t.accepted ≤ 1 ∧
      ((∀ n ∈ calls, ∃ result, .returned n result ∈ t.log) →
        t.entries ref channel = calls.countP t.accepted ∧
        t.listed id channel = calls.countP t.accepted ∧
        t.forwarding ref channel ≤ calls.countP t.accepted ∧
        (H.machine.Run (Streaming H) (State.initial kinds broker) t →
          (t.shared.heap ref).outbox.closed = false →
          t.forwarding ref channel = calls.countP t.accepted) ∧
        (t.log.countP fun e => calls.any fun n => e.joins n) =
          (t.log.countP fun e => calls.any fun n => e.parts n) + calls.countP t.accepted ∧
        (calls ≠ [] → (H.gate.allowAnonymous = true ∨ (s.shared.heap ref).claims ≠ none) →
          (∀ n ∈ calls, ∀ e ∈ t.log, e.hinders n = false) →
          (t.shared.heap ref).outbox.closed = false → calls.countP t.accepted = 1)) := by
  have start := contested_start run fresh
  have g := exec_contested start undisturbed ran
  subst made
  rw [g.contest.accepted g.arena]
  constructor
  · rw [g.contest.listed]
    cases t.entry ref channel with
    | none => exact Nat.zero_le 1
    | some f => exact Bool.toNat_le _
  intro answered
  have settled := g.contest.settled g.staged answered
  have forwarding := g.contest.forwarding g.staged g.arena answered
  refine ⟨?_, rfl, ?_, ?_, ?_, ?_⟩
  · rw [entries_eq, settled]
  · rw [forwarding, settled]
    cases t.entry ref channel with
    | none => exact Nat.le_refl 0
    | some f => exact Bool.toNat_le _
  · intro streaming open_
    rw [forwarding, settled]
    cases found : t.entry ref channel with
    | none => rfl
    | some f =>
        rcases (run_streaming streaming).entry ref channel f found with closed |
          ⟨w, task, session, label, running⟩
        · rw [open_] at closed
          cases closed
        · simp [task, session, label, running]
  · rw [countP_any (fun n e joins => (Event.joins_own joins).1) g.arena.nodup,
      countP_any (fun n e parts => (Event.parts_own parts).1) g.arena.nodup,
      ← g.contest.accepted g.arena]
    refine sum_eq_of_each ?_
    intro n member
    obtain ⟨own, a, account, -⟩ := g.arena.account n member
    obtain ⟨result, returned⟩ := answered n member
    exact account.answered returned
  · intro some_ connected smooth open_
    have excuses := exec_excuses start connected undisturbed ran
    obtain ⟨n, member⟩ := List.exists_mem_of_ne_nil _ some_
    obtain ⟨result, returned⟩ := answered n member
    have held : t.entry ref channel ≠ none := by
      cases result with
      | ok r =>
          rw [g.contest.wins n member (.inl (accepted_iff.mpr ⟨r, returned⟩))]
          exact Option.some_ne_none n
      | error e =>
          rcases excuses.refused n member e returned with held | ⟨e, logged, hinders⟩ | closed
          · exact held
          · rw [smooth n member e logged] at hinders
            cases hinders
          · rw [open_] at closed
            cases closed
    rw [settled, Option.isSome_iff_ne_none.mpr held]
    rfl

end Final

def unevicted (id : Nat) (s : State κ β τ) (l : Label ε) : Bool :=
  match l with
  | .start r => !r.evicts id
  | .advance n _ _ =>
      match s.calls n with
      | some (.openRegister r) => decide ((s.shared.heap r).id ≠ id)
      | _ => true
  | _ => true

def undisturbed (id : Nat) (channel : String) (s : State κ β τ) (l : Label ε) : Bool :=
  unevicted id s l &&
    match l with
    | .advance n _ _ =>
        match s.calls n with
        | some (.subscribeIndex _ _ _) => (List.range s.nextCall).all fun m =>
            match s.calls m with
            | some (.unsubscribeReap b _) => decide (b.channel ≠ channel)
            | _ => true
        | _ => true
    | _ => true

theorem unevicted_sound {id : Nat} (s : State κ β τ) (l : Label ε) (_ : s.Staged)
    (h : unevicted id s l = true) : Unevicted id s l := by
  constructor
  · rintro r rfl
    simpa [unevicted] using h
  · rintro n env now r rfl called
    simpa [unevicted, called] using h

theorem undisturbed_sound {id : Nat} {channel : String} (s : State κ β τ) (l : Label ε)
    (staged : s.Staged) (h : undisturbed id channel s l = true) : Undisturbed id channel s l := by
  obtain ⟨stays, apart⟩ := Bool.and_eq_true_iff.mp h
  refine ⟨unevicted_sound s l staged stays, ?_⟩
  rintro n env now a ref cursor rfl called - m b r reaps
  simp only [called, List.all_eq_true, List.mem_range] at apart
  have other := apart m (staged.calls m _ reaps)
  simpa [reaps] using other

theorem idle_unsubscribed {s : State κ β τ} {id ref : Nat} {channel : String}
    (silent : ∀ n, s.calls n = none) (registered : s.shared.registry.get id = some ref)
    (unmapped : s.entry ref channel = none)
    (unlisted : s.listed id channel = 0)
    (elsewhere : ∀ f w, s.shared.forwarders f = some w → w.session ≠ ref) :
    s.Unsubscribed id ref channel where
  registered := registered
  unmapped := unmapped
  unlisted := unlisted
  untasked f w task own _ := absurd own (elsewhere f w task)
  calm n c called := by cases (silent n).symm.trans called
  alone n c a called := by cases (silent n).symm.trans called
  settled n a r called := by cases (silent n).symm.trans called

/-- Two calls race: both pass the first check, the second one is first at the map. -/
def overtaking : List (Label Unit) :=
  Request.steps (.subscribe ⟨0, 7, "rooms.lobby", 0⟩) 1 7 ++
    Request.steps (.subscribe ⟨0, 8, "rooms.lobby", 0⟩) 2 9 ++ List.replicate 3 (.advance 1 () 0)

theorem one_winner_second :
    ∃ s t, defaults.hub.machine.Run Machine.free defaults.boot s ∧
      defaults.hub.machine.exec s overtaking = some t ∧
      rivals 0 "rooms.lobby" (defaults.hub.machine.path s overtaking) = [1, 2] ∧
      .returned 1 (.error (.alreadySubscribed 0 "rooms.lobby")) ∈ t.log ∧
      [1, 2].countP t.accepted = 1 ∧ t.listed 0 "rooms.lobby" = 1 := by
  obtain ⟨s, -, run, still, untasked, registered, unmapped, unlisted, raced⟩ :=
    Machine.exec_witness (M := defaults.hub.machine) (s := defaults.boot)
      (Request.steps (.openSession 16) 0 5)
      (fun s => idle s = true ∧ (List.range s.nextCall).all (fun f => (s.shared.forwarders f).isNone) ∧
        s.shared.registry.get 0 = some 0 ∧
        (s.shared.heap 0).subscriptions.get "rooms.lobby" = none ∧ s.listed 0 "rooms.lobby" = 0 ∧
        ((defaults.hub.machine.execWithin (undisturbed 0 "rooms.lobby") s overtaking).any fun t =>
          decide (rivals 0 "rooms.lobby" (defaults.hub.machine.path s overtaking) = [1, 2] ∧
            .returned 1 (.error (.alreadySubscribed 0 "rooms.lobby")) ∈ t.log ∧
            .returned 2 (.ok (.subscribeOk ⟨8, "rooms.lobby", 1, 0⟩)) ∈ t.log ∧
            [1, 2].all (fun n => t.log.all fun e => !e.hinders n) = true ∧
            (t.shared.heap 0).outbox.closed = false)) = true)
      (by decide +kernel)
  have staged := run_staged run
  have silent := idle_sound staged still
  have fresh : s.Unsubscribed 0 0 "rooms.lobby" := by
    refine idle_unsubscribed silent registered unmapped unlisted ?_
    intro f w task
    have none_ := List.all_eq_true.mp untasked f (List.mem_range.mpr (staged.forwarders f w task))
    simp [task] at none_
  obtain ⟨t, within, holds⟩ := Option.any_eq_true _ _ |>.mp raced
  obtain ⟨made, lost, won, smooth, open_⟩ := of_decide_eq_true holds
  obtain ⟨ran, along⟩ := Machine.execWithin_along undisturbed_sound
    (fun _ _ _ staged _ h => step_staged staged h) staged within
  obtain ⟨-, settles⟩ := one_winner run fresh along ran made.symm
  obtain ⟨-, listed, -, -, -, one⟩ := settles (by
    intro n member
    rcases List.mem_cons.mp member with rfl | last
    · exact ⟨_, lost⟩
    · cases List.mem_singleton.mp last
      exact ⟨_, won⟩)
  have ok := one (by decide) (.inl rfl) (by
    intro n member e logged
    have each := List.all_eq_true.mp (List.all_eq_true.mp smooth n member) e logged
    simpa using each) open_
  exact ⟨s, t, run, ran, made, lost, ok, listed.trans ok⟩

/-- Session 0 has emptied the list of the channel and is about to remove it. Two calls of session 1
race, one of them enters the list, and then the list goes. -/
def reapedBehind : List (Label Unit) :=
  Request.steps (.unsubscribe ⟨0, 8, "rooms.lobby"⟩) 3 4 ++
    Request.steps (.subscribe ⟨1, 9, "rooms.lobby", 0⟩) 4 7 ++
    Request.steps (.subscribe ⟨1, 10, "rooms.lobby", 0⟩) 5 7 ++
    List.replicate 2 (.advance 4 () 0) ++ List.replicate 3 (.advance 5 () 0) ++
    List.replicate 2 (.advance 3 () 0)

/-- One call returned Ok, the session's map has the channel, and the index has not the session. -/
theorem winner_unlisted :
    ∃ s t, defaults.hub.machine.Run Machine.free defaults.boot s ∧
      s.Unsubscribed 1 1 "rooms.lobby" ∧
      defaults.hub.machine.Along (Unevicted 1) s reapedBehind ∧
      defaults.hub.machine.exec s reapedBehind = some t ∧
      rivals 1 "rooms.lobby" (defaults.hub.machine.path s reapedBehind) = [4, 5] ∧
      .returned 4 (.ok (.subscribeOk ⟨9, "rooms.lobby", 1, 0⟩)) ∈ t.log ∧
      .returned 5 (.error (.alreadySubscribed 1 "rooms.lobby")) ∈ t.log ∧
      [4, 5].countP t.accepted = 1 ∧ t.entries 1 "rooms.lobby" = 1 ∧
      t.listed 1 "rooms.lobby" = 0 := by
  obtain ⟨s, -, run, still, elsewhere, registered, unmapped, unlisted, raced⟩ :=
    Machine.exec_witness (M := defaults.hub.machine) (s := defaults.boot)
      (Request.steps (.openSession 16) 0 5 ++ Request.steps (.openSession 16) 1 5 ++
        Request.steps (.subscribe ⟨0, 7, "rooms.lobby", 0⟩) 2 9)
      (fun s => idle s = true ∧
        (List.range s.nextCall).all (fun f => (s.shared.forwarders f).all fun w => w.session != 1) ∧
        s.shared.registry.get 1 = some 1 ∧
        (s.shared.heap 1).subscriptions.get "rooms.lobby" = none ∧ s.listed 1 "rooms.lobby" = 0 ∧
        ((defaults.hub.machine.execWithin (unevicted 1) s reapedBehind).any fun t =>
          decide (rivals 1 "rooms.lobby" (defaults.hub.machine.path s reapedBehind) = [4, 5] ∧
            .returned 4 (.ok (.subscribeOk ⟨9, "rooms.lobby", 1, 0⟩)) ∈ t.log ∧
            .returned 5 (.error (.alreadySubscribed 1 "rooms.lobby")) ∈ t.log ∧
            [4, 5].countP t.accepted = 1 ∧ t.entries 1 "rooms.lobby" = 1 ∧
            t.listed 1 "rooms.lobby" = 0)) = true)
      (by decide +kernel)
  have staged := run_staged run
  have silent := idle_sound staged still
  obtain ⟨t, within, holds⟩ := Option.any_eq_true _ _ |>.mp raced
  obtain ⟨ran, along⟩ := Machine.execWithin_along unevicted_sound
    (fun _ _ _ staged _ h => step_staged staged h) staged within
  refine ⟨s, t, run, idle_unsubscribed silent registered unmapped unlisted ?_, along, ran,
    of_decide_eq_true holds⟩
  intro f w task
  have other := List.all_eq_true.mp elsewhere f (List.mem_range.mpr (staged.forwarders f w task))
  simpa [task] using other

end Cherenkov
