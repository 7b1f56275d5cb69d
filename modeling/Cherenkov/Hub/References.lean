import Cherenkov.Hub.Steps

/-! A call looks its session up once and keeps the reference. References in the registry, in calls
and in forwarders were all allocated, and a call that was made for an identifier keeps referring to
an object with that identifier, whatever happens to the registry meanwhile. -/

namespace Cherenkov

variable {κ β τ ε : Type}

/-- The identifier a call was made for and the object it found under it. -/
def Call.address : Call τ → Option (Nat × Nat)
  | .connectClaims a ref | .connectAuth a ref | .connectSet a ref _ => some (a.sessionId, ref)
  | .requireClaims g ref | .seedClaims g ref | .enforceAcl g ref _ => some (g.sessionId, ref)
  | .subscribeHas a ref | .subscribeKind a ref | .subscribeBroker a ref _
  | .subscribeReplay a ref _ _ | .subscribeSend a ref _ _ _ | .subscribeSpawn a ref _ _
  | .subscribeInsert a ref _ | .subscribeIndex a ref _ | .subscribeStray a ref
  | .subscribeUnwind a ref _ _ => some (a.sessionId, ref)
  | .unsubscribeRemove a ref | .unsubscribeAbort a ref _ | .unsubscribeScrub a ref
  | .unsubscribeReap a ref | .unsubscribeKind a ref => some (a.sessionId, ref)
  | .publishValidate a ref | .publishKind a ref | .publishBroker a ref _ => some (a.sessionId, ref)
  | .kickSignal id ref | .deregister (.kick ref) id | .deregisterScrub _ id ref
  | .deregisterDrop _ id ref => some (id, ref)
  | _ => none

structure State.Addressed (s : State κ β τ) : Prop where
  registry : ∀ id ref, s.shared.registry.get id = some ref →
    ref < s.shared.nextRef ∧ (s.shared.heap ref).id = id
  held : ∀ n c, s.calls n = some c → ∀ ref ∈ c.holds, ref < s.shared.nextRef
  address : ∀ n c id ref, s.calls n = some c → c.address = some (id, ref) →
    (s.shared.heap ref).id = id
  forwarders : ∀ f w, s.shared.forwarders f = some w → w.session < s.shared.nextRef

theorem Call.address_holds {c : Call τ} {id ref : Nat} (h : c.address = some (id, ref)) :
    ref ∈ c.holds := by
  cases c with
  | deregister who id' =>
      cases who with
      | close => cases h
      | kick own =>
          cases h
          exact List.mem_cons_self ..
  | _ => first | (cases h; done) | (cases h; exact List.mem_cons_self ..)

section Advance

variable {H : Hub κ β τ ε} {x : Shared κ β τ} {n : Nat} {env : ε} {now : Nat} {c next : Call τ}
  {o : Outcome κ β τ}

/-- A call only holds what it held, what it looks up, or the object it creates. -/
theorem goes_holds (goes : H.Goes x env now c next) {ref : Nat} (held : ref ∈ next.holds) :
    ref ∈ c.holds ∨ (∃ id, x.registry.get id = some ref) ∨
      (ref = x.nextRef ∧ ∃ capacity, c = .openSession capacity) := by
  cases goes with
  | allocated capacity => exact .inr (.inr ⟨List.mem_singleton.mp held, capacity, rfl⟩)
  | connecting a found | unsubscribing a found =>
      cases List.mem_singleton.mp held
      exact .inr (.inl ⟨a.sessionId, found⟩)
  | entered g found =>
      cases List.mem_singleton.mp held
      exact .inr (.inl ⟨g.sessionId, found⟩)
  | kicking id found =>
      cases List.mem_singleton.mp held
      exact .inr (.inl ⟨id, found⟩)
  | removed who id found =>
      rcases List.mem_cons.mp held with rfl | own
      · exact .inr (.inl ⟨id, found⟩)
      · exact .inl own
  | dropped who id ref' =>
      cases who with
      | close => cases held
      | kick own => exact .inl (List.mem_cons_of_mem _ held)
  | _ => exact .inl held

theorem goes_address_origin (goes : H.Goes x env now c next) {id ref : Nat}
    (at_ : next.address = some (id, ref)) :
    c.address = some (id, ref) ∨ x.registry.get id = some ref := by
  cases goes with
  | connecting a found | unsubscribing a found | entered a found | kicking a found
  | removed who a found =>
      cases at_
      exact .inr found
  | dropped who _ _ => cases at_
  | _ => exact .inl at_

theorem act_openRegister {ref : Nat} (acts : H.act x n env now c = some o)
    (goes : o.next = some (.openRegister ref)) :
    (∃ capacity, c = .openSession capacity) ∧ ref = x.nextRef := by
  cases Hub.goes acts goes with
  | allocated capacity => exact ⟨⟨capacity, rfl⟩, rfl⟩

theorem registryAfter_get {id ref : Nat} (found : (x.registryAfter c).get id = some ref) :
    x.registry.get id = some ref ∨ (c = .openRegister ref ∧ (x.heap ref).id = id) := by
  cases c with
  | openRegister ref' =>
      simp only [Shared.registryAfter, SessionRegistry.get, SessionRegistry.register,
        DashMap.get_put] at found
      split at found
      · next same =>
          cases found
          exact .inr ⟨rfl, same.symm⟩
      · exact .inl found
  | unsubscribeScrub a ref' =>
      simp only [Shared.registryAfter, SessionRegistry.scrubChannel] at found
      split at found <;> exact .inl found
  | deregister who id' =>
      simp only [Shared.registryAfter] at found
      split at found
      · simp only [SessionRegistry.get, SessionRegistry.removeSession, DashMap.get_remove] at found
        split at found
        · cases found
        · exact .inl found
      · exact .inl found
  | _ => exact .inl found

theorem registryAfter_none {i : Nat} (absent : (x.registryAfter c).get i = none) :
    x.registry.get i = none ∨ ∃ who, c = .deregister who i := by
  cases c with
  | openRegister ref =>
      simp only [Shared.registryAfter, SessionRegistry.get, SessionRegistry.register,
        DashMap.get_put] at absent
      split at absent
      · cases absent
      · exact .inl absent
  | unsubscribeScrub a ref =>
      simp only [Shared.registryAfter, SessionRegistry.scrubChannel] at absent
      split at absent <;> exact .inl absent
  | deregister who id =>
      simp only [Shared.registryAfter] at absent
      split at absent
      · simp only [SessionRegistry.get, SessionRegistry.removeSession, DashMap.get_remove] at absent
        split at absent
        · next same => exact .inr ⟨who, by rw [same]⟩
        · exact .inl absent
      · exact .inl absent
  | _ => exact .inl absent

theorem idsAfter_of_lt {ref : Nat} (old : ref < x.nextRef) :
    x.idsAfter c ref = (x.heap ref).id := by
  cases c with
  | openSession capacity =>
      simp only [Shared.idsAfter, Function.update_of_ne (Nat.ne_of_lt old)]
  | _ => rfl

theorem nextRefAfter_le (x : Shared κ β τ) (c : Call τ) : x.nextRef ≤ x.nextRefAfter c := by
  cases c with
  | openSession capacity => exact Nat.le_succ _
  | _ => exact Nat.le_refl _

theorem after_registry {s : State κ β τ} (acts : H.act s.shared n env now c = some o) :
    (s.after n c o).shared.registry = s.shared.registryAfter c :=
  (quiet_after s n c o).registry.trans (Hub.acted acts).registry

theorem after_call {s : State κ β τ} {m : Nat} {d : Call τ} (found : (s.after n c o).calls m = some d) :
    m = n ∧ o.next = some d ∨ m ≠ n ∧ s.calls m = some d := by
  rw [after_calls, Function.update_apply] at found
  split at found
  · next same => exact .inl ⟨same, found⟩
  · next other => exact .inr ⟨other, found⟩

/-- How a call comes to be where it is: it was there, it has just been started, or it went
there. -/
theorem step_call {s t : State κ β τ} {l : Label ε} (h : H.step s l = some t) {m : Nat} {d : Call τ}
    (found : t.calls m = some d) :
    s.calls m = some d ∨ (∃ r : Request, l = .start r ∧ m = s.nextCall ∧ d = r.entry) ∨
      ∃ env now c, l = .advance m env now ∧ s.calls m = some c ∧ H.Goes s.shared env now c d := by
  cases Hub.stepped h with
  | start r =>
      simp only [Function.update_apply] at found
      split at found
      · next same => exact .inr (.inl ⟨r, rfl, same, (Option.some.inj found).symm⟩)
      · exact .inl found
  | @advance n env now c o at_ acts =>
      rcases after_call found with ⟨rfl, goes⟩ | ⟨-, old⟩
      · exact .inr (.inr ⟨env, now, c, rfl, at_, Hub.goes acts goes⟩)
      · exact .inl old
  | forward task moves => exact .inl found
  | transport quiet sheds => exact .inl found

end Advance

section Step

variable {H : Hub κ β τ ε} {s t : State κ β τ} {l : Label ε}

theorem step_own {n : Nat} {env : ε} {now : Nat} (h : H.step s (.advance n env now) = some t)
    {d : Call τ} (found : t.calls n = some d) :
    ∃ c, s.calls n = some c ∧ H.Goes s.shared env now c d := by
  obtain ⟨c, o, called, acts, rfl⟩ := Hub.step_advance h
  rw [after_calls, Function.update_self] at found
  exact ⟨c, called, Hub.goes acts found⟩

theorem step_registry_get (h : H.step s l = some t) {i ref : Nat}
    (found : t.shared.registry.get i = some ref) :
    s.shared.registry.get i = some ref ∨ ∃ n env now, l = .advance n env now ∧
      s.calls n = some (.openRegister ref) ∧ (s.shared.heap ref).id = i := by
  cases Hub.stepped h with
  | start r => exact .inl found
  | @advance n env now c o at_ acts =>
      rw [after_registry acts] at found
      rcases registryAfter_get found with old | ⟨rfl, here⟩
      · exact .inl old
      · exact .inr ⟨n, env, now, rfl, at_, here⟩
  | forward task moves =>
      rw [((Hub.forwarded moves).frame task).registry] at found
      exact .inl found
  | transport quiet sheds =>
      rw [quiet.registry] at found
      exact .inl found

theorem step_nextRef_le (h : H.step s l = some t) : s.shared.nextRef ≤ t.shared.nextRef := by
  cases Hub.stepped h with
  | start r => exact Nat.le_refl _
  | @advance n env now c o at_ acts =>
      rw [(quiet_after s n c o).nextRef, (Hub.acted acts).nextRef]
      exact nextRefAfter_le _ _
  | forward task moves =>
      rw [((Hub.forwarded moves).frame task).nextRef]
  | transport quiet sheds =>
      rw [quiet.nextRef]

theorem step_allocates {n capacity : Nat} {env : ε} {now : Nat}
    (called : s.calls n = some (.openSession capacity))
    (h : H.step s (.advance n env now) = some t) : s.shared.nextRef < t.shared.nextRef := by
  obtain ⟨c, o, at_, acts, rfl⟩ := Hub.step_advance h
  cases called.symm.trans at_
  rw [(quiet_after s n _ o).nextRef, (Hub.acted acts).nextRef]
  exact Nat.lt_succ_self _

theorem step_id (h : H.step s l = some t) {ref : Nat} (known : ref < s.shared.nextRef) :
    (t.shared.heap ref).id = (s.shared.heap ref).id := by
  cases Hub.stepped h with
  | start r => rfl
  | @advance n env now c o at_ acts =>
      rw [(quiet_after s n c o).id, (Hub.acted acts).id, idsAfter_of_lt known]
  | forward task moves => exact ((Hub.forwarded moves).frame task).id ref
  | transport quiet sheds => exact quiet.id ref

theorem step_closed {ref : Nat} (known : ref < s.shared.nextRef) (h : H.step s l = some t)
    (closed : (s.shared.heap ref).outbox.closed = true) :
    (t.shared.heap ref).outbox.closed = true := by
  cases Hub.stepped h with
  | start r => exact closed
  | @advance n env now c o at_ acts =>
      refine (quiet_after s n c o).closed ref ((Hub.acted acts).closed ref ?_ closed)
      intro fresh
      exact absurd known (fresh ▸ Nat.lt_irrefl _)
  | forward task moves => exact ((Hub.forwarded moves).frame task).closed ref closed
  | transport quiet sheds => exact quiet.closed ref closed

theorem entry_holds (r : Request) : (r.entry : Call τ).holds = [] := by
  cases r <;> rfl

theorem step_addressed (g : s.Addressed) (h : H.step s l = some t) : t.Addressed := by
  have grown := step_nextRef_le h
  refine ⟨?_, ?_, ?_, ?_⟩
  · intro id ref found
    have old : ref < s.shared.nextRef ∧ (s.shared.heap ref).id = id := by
      rcases step_registry_get h found with old | ⟨n, env, now, -, opening, here⟩
      · exact g.registry id ref old
      · exact ⟨g.held n _ opening ref (List.mem_singleton_self _), here⟩
    exact ⟨Nat.lt_of_lt_of_le old.1 grown, (step_id h old.1).trans old.2⟩
  · intro m d found ref held
    rcases step_call h found with old | ⟨r, -, -, rfl⟩ | ⟨env, now, c, rfl, called, goes⟩
    · exact Nat.lt_of_lt_of_le (g.held m d old ref held) grown
    · rw [entry_holds] at held
      cases held
    · rcases goes_holds goes held with old | ⟨id, looked⟩ | ⟨rfl, capacity, rfl⟩
      · exact Nat.lt_of_lt_of_le (g.held m c called ref old) grown
      · exact Nat.lt_of_lt_of_le (g.registry id ref looked).1 grown
      · exact step_allocates called h
  · intro m d id ref found address
    rcases step_call h found with old | ⟨r, -, -, rfl⟩ | ⟨env, now, c, rfl, called, goes⟩
    · rw [step_id h (g.held m d old ref (Call.address_holds address))]
      exact g.address m d id ref old address
    · have held := Call.address_holds address
      rw [entry_holds] at held
      cases held
    · rcases goes_address_origin goes address with old | looked
      · rw [step_id h (g.held m c called ref (Call.address_holds old))]
        exact g.address m c id ref called old
      · rw [step_id h (g.registry id ref looked).1]
        exact (g.registry id ref looked).2
  · intro f w' found
    rcases step_task h found with ⟨_, _, a, ref, _, _, -, called, session, -⟩ | ⟨w, older, follows⟩
    · rw [session]
      exact Nat.lt_of_lt_of_le (g.held f _ called ref (List.mem_singleton_self _)) grown
    · rw [follows.session]
      exact Nat.lt_of_lt_of_le (g.forwarders f w older) grown

end Step

theorem initial_addressed (kinds : Nat → κ) (broker : β) :
    (State.initial kinds broker : State κ β τ).Addressed := by
  refine ⟨?_, ?_, ?_, ?_⟩
  · intro id ref found
    simp [State.initial, SessionRegistry.new, SessionRegistry.get] at found
  · intro n c found
    cases found
  · intro n c id ref found
    cases found
  · intro f w found
    cases found

theorem run_addressed {H : Hub κ β τ ε} {ok : State κ β τ → Label ε → Prop} {kinds : Nat → κ}
    {broker : β} {s : State κ β τ} (run : H.machine.Run ok (State.initial kinds broker) s) :
    s.Addressed :=
  run.invariant (initial_addressed kinds broker) fun _ _ _ g _ h => step_addressed g h

/-- An object that is being registered is known only to the call that made it. -/
structure State.Nascent (s : State κ β τ) : Prop where
  held : ∀ n ref m c, s.calls n = some (.openRegister ref) → s.calls m = some c →
    ref ∈ c.holds → m = n
  registry : ∀ n ref id, s.calls n = some (.openRegister ref) →
    s.shared.registry.get id ≠ some ref
  forwarders : ∀ n ref f w, s.calls n = some (.openRegister ref) →
    s.shared.forwarders f = some w → w.session ≠ ref

section Nascent

variable {H : Hub κ β τ ε} {s t : State κ β τ} {l : Label ε}

theorem step_openRegister (h : H.step s l = some t) {m ref : Nat}
    (found : t.calls m = some (.openRegister ref)) :
    s.calls m = some (.openRegister ref) ∨
      ∃ env now, l = .advance m env now ∧ ref = s.shared.nextRef := by
  rcases step_call h found with old | ⟨r, -, -, entry⟩ | ⟨env, now, c, moved, -, goes⟩
  · exact .inl old
  · cases r <;> cases entry
  · cases goes with
    | allocated capacity => exact .inr ⟨env, now, moved, rfl⟩

theorem step_nascent (addressed : s.Addressed) (g : s.Nascent) (h : H.step s l = some t) :
    t.Nascent := by
  have unheld : ∀ m d, s.calls m = some d → s.shared.nextRef ∉ d.holds :=
    fun m d called held => Nat.lt_irrefl _ (addressed.held m d called _ held)
  refine ⟨?_, ?_, ?_⟩
  · intro m ref k d opening found held
    rcases step_openRegister h opening with old | ⟨env, now, rfl, rfl⟩
    · rcases step_call h found with older | ⟨r, -, -, rfl⟩ | ⟨env, now, c, -, called, goes⟩
      · exact g.held m ref k d old older held
      · rw [entry_holds] at held
        cases held
      · rcases goes_holds goes held with mine | ⟨id, looked⟩ | ⟨rfl, -⟩
        · exact g.held m ref k c old called mine
        · exact absurd looked (g.registry m ref id old)
        · exact absurd (List.mem_singleton_self _) (unheld m _ old)
    · rcases step_call h found with older | ⟨r, started, -⟩ | ⟨env', now', c, moved, -⟩
      · exact absurd held (unheld k d older)
      · cases started
      · cases moved
        rfl
  · intro m ref id opening found
    rcases step_openRegister h opening with old | ⟨env, now, rfl, rfl⟩
    · rcases step_registry_get h found with older | ⟨n, env, now, rfl, registering, -⟩
      · exact g.registry m ref id old older
      · cases g.held m ref n _ old registering (List.mem_singleton_self _)
        obtain ⟨c, called, goes⟩ := step_own h opening
        cases called.symm.trans old
        cases goes
    · rcases step_registry_get h found with older | ⟨n, env, now, -, registering, -⟩
      · exact absurd (addressed.registry id _ older).1 (Nat.lt_irrefl _)
      · exact unheld n _ registering (List.mem_singleton_self _)
  · intro m ref f w' opening found
    rcases step_task h found with ⟨_, _, a, r, _, _, -, spawning, session, -⟩ | ⟨w, older, follows⟩
    · rw [session]
      rintro rfl
      rcases step_openRegister h opening with old | ⟨env, now, rfl, rfl⟩
      · cases g.held m r f _ old spawning (List.mem_singleton_self _)
        cases old.symm.trans spawning
      · exact unheld f _ spawning (List.mem_singleton_self _)
    · rw [follows.session]
      rcases step_openRegister h opening with old | ⟨env, now, rfl, rfl⟩
      · exact g.forwarders m ref f w old older
      · exact Nat.ne_of_lt (addressed.forwarders f w older)

theorem initial_nascent (kinds : Nat → κ) (broker : β) :
    (State.initial kinds broker : State κ β τ).Nascent :=
  ⟨fun _ _ _ _ found => (by cases found), fun _ _ _ found => (by cases found),
    fun _ _ _ _ found => (by cases found)⟩

/-- The object has been entered in the registry. -/
structure State.Born (s : State κ β τ) (ref : Nat) : Prop where
  known : ref < s.shared.nextRef
  entered : ∀ n, s.calls n ≠ some (.openRegister ref)

theorem step_born {ref : Nat} (born : s.Born ref) (h : H.step s l = some t) :
    t.Born ref := by
  refine ⟨Nat.lt_of_lt_of_le born.known (step_nextRef_le h), ?_⟩
  intro m found
  rcases step_call h found with old | ⟨r, -, -, entry⟩ | ⟨env, now, c, -, -, goes⟩
  · exact born.entered m old
  · cases r <;> cases entry
  · cases goes with
    | allocated capacity => exact Nat.lt_irrefl _ born.known

end Nascent

section Identifiers

variable {H : Hub κ β τ ε} {s : State κ β τ} {n : Nat} {env : ε} {now : Nat} {c : Call τ} {o : Outcome κ β τ}

theorem after_id (ids : ∀ ref, ref < s.shared.nextRef → (s.shared.heap ref).id = ref)
    (counter : s.shared.registry.nextId = s.shared.nextRef % 2 ^ 64)
    (room : ∀ capacity, c = .openSession capacity → s.shared.nextRef < 2 ^ 64)
    (acts : H.act s.shared n env now c = some o) {ref : Nat}
    (old : ref < (s.after n c o).shared.nextRef) : ((s.after n c o).shared.heap ref).id = ref := by
  have acted := Hub.acted acts
  have quiet := quiet_after s n c o
  rw [quiet.nextRef, acted.nextRef] at old
  rw [quiet.id, acted.id]
  cases c with
  | openSession capacity =>
      simp only [Shared.idsAfter, Function.update_apply]
      split
      · next fresh =>
          rw [fresh]
          exact counter.trans (Nat.mod_eq_of_lt (room capacity rfl))
      · next seen =>
          exact ids ref (Nat.lt_of_le_of_ne (Nat.lt_succ_iff.mp old) seen)
  | _ => exact ids ref old

theorem after_nextId (counter : s.shared.registry.nextId = s.shared.nextRef % 2 ^ 64)
    (acts : H.act s.shared n env now c = some o) :
    (s.after n c o).shared.registry.nextId = (s.after n c o).shared.nextRef % 2 ^ 64 := by
  rw [after_registry acts, (quiet_after s n c o).nextRef, (Hub.acted acts).nextRef]
  cases c with
  | openSession capacity =>
      simp only [Shared.registryAfter, SessionRegistry.allocate, Shared.nextRefAfter, counter]
      omega
  | unsubscribeScrub a ref =>
      simp only [Shared.registryAfter, SessionRegistry.scrubChannel, Shared.nextRefAfter]
      split <;> exact counter
  | deregister who id =>
      simp only [Shared.registryAfter, Shared.nextRefAfter]
      split <;> exact counter
  | _ => exact counter

end Identifiers

end Cherenkov
