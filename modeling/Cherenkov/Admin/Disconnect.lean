import Cherenkov.Admin.Listing

/-! A session is taken out of the registry once, by whichever close or kick comes first. The answer
to a disconnect request says whether it was the request's own kick, and in both cases the session is
out. -/

namespace Cherenkov

variable {κ β τ ε : Type}

/-- A session that has been registered is there or has been removed, and removed by one call. -/
structure State.Accounted (s : State κ β τ) : Prop where
  sole : ∀ n m ref, .removed n ref ∈ s.log → .removed m ref ∈ s.log → n = m
  settled : ∀ ref, s.Born ref → Registered s ref ∨ ∃ n, .removed n ref ∈ s.log

section Removal

variable {H : Hub κ β τ ε} {s t : State κ β τ} {l : Label ε}

theorem Registered.found (known : s.Known) {id : Nat} (h : Registered s id) :
    s.shared.registry.get id = some id := by
  obtain ⟨ref, found⟩ := Option.ne_none_iff_exists'.mp h
  cases known.identified.registered known.addressed found
  exact found

theorem step_sole (known : s.Known)
    (sole : ∀ n m ref, .removed n ref ∈ s.log → .removed m ref ∈ s.log → n = m)
    (h : H.step s l = some t) (n m ref : Nat) (first : .removed n ref ∈ t.log)
    (second : .removed m ref ∈ t.log) : n = m := by
  rcases step_removed h first with old | ⟨env, now, who, id, o, rfl, -, -, found, -⟩ <;>
    rcases step_removed h second with old' | ⟨env', now', who', id', o', same, -, -, found', -⟩
  · exact sole n m ref old old'
  · exact absurd found' ((known.recorded.removed n ref old).2.unregistered id')
  · exact absurd found ((known.recorded.removed m ref old').2.unregistered id)
  · cases same
    rfl

theorem step_leaves {ref : Nat} (found : s.shared.registry.get ref = some ref)
    (absent : t.shared.registry.get ref = none) (h : H.step s l = some t) :
    ∃ n, .removed n ref ∈ t.log := by
  cases Hub.stepped h with
  | start r => cases found.symm.trans absent
  | @advance n env now c o at_ acts =>
      rw [after_registry acts] at absent
      rcases registryAfter_none absent with old | ⟨who, rfl⟩
      · cases found.symm.trans old
      · refine ⟨n, ?_⟩
        simp only [Hub.act, found, Option.some.injEq] at acts
        subst acts
        exact List.mem_cons_self ..
  | forward task moves =>
      rw [((Hub.forwarded moves).frame task).registry] at absent
      cases found.symm.trans absent
  | transport quiet sheds =>
      rw [quiet.registry] at absent
      cases found.symm.trans absent

theorem step_registers (known : s.Known) {ref : Nat} (before : ¬s.Born ref) (born : t.Born ref)
    (h : H.step s l = some t) : Registered t ref := by
  by_cases below : ref < s.shared.nextRef
  · have opening : ∃ n, s.calls n = some (.openRegister ref) := by
      by_contra none
      exact before ⟨below, fun n at_ => none ⟨n, at_⟩⟩
    obtain ⟨n, at_⟩ := opening
    by_cases own : ∃ env now, l = .advance n env now
    · obtain ⟨env, now, rfl⟩ := own
      obtain ⟨c, o, called, acts, rfl⟩ := Hub.step_advance h
      cases at_.symm.trans called
      have same := known.identified.ids ref below
      have there : (s.after n (.openRegister ref) o).shared.registry.get ref = some ref := by
        rw [after_registry acts]
        simp only [Shared.registryAfter, SessionRegistry.get, SessionRegistry.register, same,
          DashMap.get_put_self]
      exact Option.ne_none_iff_exists'.mpr ⟨ref, there⟩
    · have kept := step_call_kept known.staged at_ (fun env now same => own ⟨env, now, same⟩) h
      exact absurd kept (born.entered n)
  · have made := born.known
    cases Hub.stepped h with
    | start r => exact absurd made below
    | @advance n env now c o at_ acts =>
        rw [(quiet_after s n c o).nextRef, (Hub.acted acts).nextRef] at made
        cases c with
        | openSession capacity =>
            have here : ref = s.shared.nextRef := by
              simp only [Shared.nextRefAfter] at made
              omega
            cases acts
            refine absurd ?_ (born.entered n)
            rw [after_calls, Function.update_self, here]
            rfl
        | _ => exact absurd made below
    | forward task moves =>
        rw [((Hub.forwarded moves).frame task).nextRef] at made
        exact absurd made below
    | transport quiet sheds =>
        rw [quiet.nextRef] at made
        exact absurd made below

theorem step_accounted (known : s.Known) (g : s.Accounted) (h : H.step s l = some t) :
    t.Accounted := by
  refine ⟨step_sole known g.sole h, ?_⟩
  intro ref born
  by_cases before : s.Born ref
  · rcases g.settled ref before with there | ⟨n, removed⟩
    · by_cases still : Registered t ref
      · exact .inl still
      · exact .inr (step_leaves (there.found known) (not_not.mp still) h)
    · exact .inr ⟨n, (step_log h).subset removed⟩
  · exact .inl (step_registers known before born h)

theorem Outside.accounted (g : Outside s t) (calls : ∀ m c, s.calls m = some c → t.calls m = some c)
    (accounted : s.Accounted) : t.Accounted := by
  constructor
  · rw [g.log]
    exact accounted.sole
  · intro ref born
    unfold Registered
    rw [g.log, g.registry]
    apply accounted.settled ref
    refine ⟨g.nextRef ▸ born.known, ?_⟩
    intro m opening
    exact born.entered m (calls m _ opening)

theorem initial_accounted (kinds : Nat → κ) (broker : β) :
    (State.initial kinds broker : State κ β τ).Accounted :=
  ⟨fun _ _ _ => nofun, fun _ born => absurd born.known (Nat.not_lt_zero _)⟩

end Removal

def Call.aims (id : Nat) : Call τ → Prop
  | .kick i | .kickSignal i _ | .deregister (.kick _) i => i = id
  | _ => False

/-- A kick that has taken its session out. -/
def Call.evicting : Call τ → Bool
  | .deregisterScrub (.kick _) _ _ | .deregisterDrop (.kick _) _ _ | .count (.kicked _)
  | .measure (.kicked _) | .gauge (.kicked _) _ => true
  | _ => false

/-- Where kick `n` of session `id` is. -/
inductive State.Evicts (s : State κ β τ) (n id : Nat) : Prop
  | pending {c : Call τ} (at_ : s.calls n = some c) (aims : c.aims id)
      (unremoved : ∀ ref, .removed n ref ∉ s.log)
  | removing {c : Call τ} (at_ : s.calls n = some c) (evicting : c.evicting = true)
      (removed : .removed n id ∈ s.log)
  | ended (known : n < s.nextCall) (gone : s.calls n = none)
      (answers : ∀ result, .returned n result ∈ s.log →
        result = .ok (.kicked true) ∧ .removed n id ∈ s.log ∨
          result = .ok (.kicked false) ∧ (∀ ref, .removed n ref ∉ s.log) ∧ s.Gone id)

section Kick

variable {H : Hub κ β τ ε} {s t : State κ β τ} {l : Label ε} {n id : Nat}

/-- A kick that finds nothing: the session, which had been there, is gone. -/
theorem refused_evicts (known : s.Known) (born : s.Born id) {c : Call τ} {env : ε} {now : Nat}
    (at_ : s.calls n = some c) (unremoved : ∀ ref, .removed n ref ∉ s.log)
    (absent : s.shared.registry.get id = none)
    (acts : H.act s.shared n env now c = some (s.shared.done n (.ok (.kicked false)))) :
    (s.after n c (s.shared.done n (.ok (.kicked false)))).Evicts n id := by
  have gone := step_gone (known.gone born absent) (Hub.step_act at_ acts)
  refine .ended (known.staged.calls n c at_) ?_ ?_
  · rw [after_calls, Function.update_self]
    rfl
  · intro result returned
    rw [after_log] at returned
    rcases List.mem_append.mp returned with new | old
    · have same : result = .ok (.kicked false) := by simpa [Shared.done] using new
      refine .inr ⟨same, ?_, gone⟩
      intro ref member
      rw [after_log] at member
      rcases List.mem_append.mp member with new | old
      · simp [Shared.done] at new
      · exact unremoved ref old
    · cases at_.symm.trans (known.staged.returned n result old).2

theorem pending_step (known : s.Known) (born : s.Born id) {c : Call τ} {env : ε} {now : Nat}
    {o : Outcome κ β τ} (at_ : s.calls n = some c) (aims : c.aims id)
    (unremoved : ∀ ref, .removed n ref ∉ s.log) (acts : H.act s.shared n env now c = some o) :
    (s.after n c o).Evicts n id := by
  have calls : (s.after n c o).calls n = o.next := by rw [after_calls, Function.update_self]
  have acted := acts
  cases c with
  | kick i =>
      cases aims
      cases found : s.shared.registry.get id with
      | none =>
          simp only [Hub.act, found] at acted
          cases acted
          exact refused_evicts known born at_ unremoved found acts
      | some ref =>
          simp only [Hub.act, found] at acted
          cases acted
          exact .pending calls rfl unremoved
  | kickSignal i ref =>
      cases aims
      cases acted
      exact .pending calls rfl unremoved
  | deregister who i =>
      cases who with
      | close => cases aims
      | kick own =>
          cases aims
          cases found : s.shared.registry.get id with
          | none =>
              simp only [Hub.act, found] at acted
              cases acted
              exact refused_evicts known born at_ unremoved found acts
          | some ref =>
              cases known.identified.registered known.addressed found
              simp only [Hub.act, found] at acted
              cases acted
              refine .removing calls rfl ?_
              rw [after_log]
              exact List.mem_append_left _ (List.mem_singleton_self _)
  | _ => cases aims

theorem removing_step (known : s.Known) {c : Call τ} {env : ε} {now : Nat} {o : Outcome κ β τ}
    (at_ : s.calls n = some c) (evicting : c.evicting = true) (removed : .removed n id ∈ s.log)
    (acts : H.act s.shared n env now c = some o) : (s.after n c o).Evicts n id := by
  have bound := known.staged.calls n c at_
  have calls : (s.after n c o).calls n = o.next := by rw [after_calls, Function.update_self]
  have kept : .removed n id ∈ (s.after n c o).log := by
    rw [after_log]
    exact List.mem_append_right _ removed
  cases c with
  | deregisterScrub who i ref =>
      cases who <;> cases evicting
      cases acts
      exact .removing calls rfl kept
  | deregisterDrop who i ref =>
      cases who <;> cases evicting
      cases acts
      exact .removing calls rfl kept
  | count m =>
      cases m <;> cases evicting
      cases acts
      exact .removing calls rfl kept
  | measure m =>
      cases m <;> cases evicting
      cases acts
      exact .removing calls rfl kept
  | gauge m len =>
      cases m <;> cases evicting
      cases acts
      refine .ended bound calls ?_
      intro result returned
      rw [after_log] at returned
      rcases List.mem_append.mp returned with new | old
      · have same : result = .ok (.kicked true) := by simpa [Shared.done, Meter.response] using new
        exact .inl ⟨same, kept⟩
      · cases at_.symm.trans (known.staged.returned n result old).2
  | _ => cases evicting

theorem step_evicts (known : s.Known) (born : s.Born id) (evicts : s.Evicts n id)
    (h : H.step s l = some t) : t.Evicts n id := by
  by_cases own : ∃ env now, l = .advance n env now
  · obtain ⟨env, now, rfl⟩ := own
    obtain ⟨c, o, called, acts, rfl⟩ := Hub.step_advance h
    cases evicts with
    | pending at_ aims unremoved =>
        cases called.symm.trans at_
        exact pending_step known born at_ aims unremoved acts
    | removing at_ evicting removed =>
        cases called.symm.trans at_
        exact removing_step known at_ evicting removed acts
    | ended below gone answers => cases called.symm.trans gone
  · have others : ∀ env now, l ≠ .advance n env now := fun env now same => own ⟨env, now, same⟩
    have unremoved : ∀ ref, .removed n ref ∈ t.log → .removed n ref ∈ s.log := by
      intro ref member
      rcases step_removed h member with old | ⟨env, now, -, -, -, same, -⟩
      · exact old
      · exact absurd same (others env now)
    cases evicts with
    | pending at_ aims none =>
        exact .pending (step_call_kept known.staged at_ others h) aims
          fun ref member => none ref (unremoved ref member)
    | removing at_ evicting removed =>
        exact .removing (step_call_kept known.staged at_ others h) evicting
          ((step_log h).subset removed)
    | ended below gone answers =>
        obtain ⟨later, ended⟩ := step_call_over below gone h
        refine .ended later ended ?_
        intro result returned
        rcases step_returned h returned with old | ⟨env, now, -, same, -⟩
        · rcases answers result old with ⟨won, removed⟩ | ⟨lost, none, out⟩
          · exact .inl ⟨won, (step_log h).subset removed⟩
          · exact .inr ⟨lost, fun ref member => none ref (unremoved ref member), step_gone out h⟩
        · exact absurd same (others env now)

theorem Outside.evicts (g : Outside s t) (calls : ∀ m c, s.calls m = some c → t.calls m = some c)
    (evicts : s.Evicts n id) : t.Evicts n id := by
  cases evicts with
  | pending at_ aims unremoved => exact .pending (calls n _ at_) aims (g.log ▸ unremoved)
  | removing at_ evicting removed => exact .removing (calls n _ at_) evicting (g.log ▸ removed)
  | ended below gone answers =>
      refine .ended (g.nextCall ▸ below) (g.ended gone) ?_
      rw [g.log]
      intro result returned
      exact (answers result returned).imp_right fun lost => ⟨lost.1, lost.2.1, g.gone lost.2.2⟩

end Kick

section Requests

variable {A : Admin κ β τ ε}

theorem Admin.Touches.accounted {s t : State κ β τ} (known : s.Known) (g : s.Accounted)
    (touches : A.Touches s t) : t.Accounted := by
  cases touches with
  | kept outside calls => exact outside.accounted (fun m c called => calls ▸ called) g
  | stepped still h => exact step_accounted known g h

theorem Admin.Touches.evicts {s t : State κ β τ} {n id : Nat} (known : s.Known) (born : s.Born id)
    (g : s.Evicts n id) (touches : A.Touches s t) : t.Evicts n id := by
  cases touches with
  | kept outside calls => exact outside.evicts (fun m c called => calls ▸ called) g
  | stepped still h => exact step_evicts known born g h

theorem Admin.Touches.grows {s t : State κ β τ} (touches : A.Touches s t) :
    s.nextCall ≤ t.nextCall ∧ s.log ⊆ t.log := by
  cases touches with
  | kept outside calls => exact ⟨Nat.le_of_eq outside.nextCall.symm, fun e member => outside.log ▸ member⟩
  | stepped still h => exact ⟨step_nextCall_le h, (step_log h).subset⟩

/-- What one move of a handler makes of its kick and of its answer. -/
inductive Admin.Goes (A : Admin κ β τ ε) (s t : State κ β τ) (x : AdminCall) :
    AdminStage → Option Nat → Prop
  | kicks {id : Nat} (route : x.request.route = .disconnect id)
      (token : A.requireToken x.request = true)
      (h : A.hub.step s (.start (.kick id)) = some t) :
      A.Goes s t x (.kicking s.nextCall) (some s.nextCall)
  | answers {id n : Nat} {removed : Bool} (route : x.request.route = .disconnect id)
      (stage : x.stage = .kicking n) (returned : .returned n (.ok (.kicked removed)) ∈ s.log) :
      A.Goes s t x (.replied (.disconnected id removed)) x.call
  | other {stage : AdminStage} {call : Option Nat} (kept : call = x.call ∨ call = none)
      (unkicking : ∀ n, stage ≠ .kicking n)
      (unanswered : ∀ id removed, stage ≠ .replied (.disconnected id removed)) :
      A.Goes s t x stage call

theorem advance_goes {s t : State κ β τ} {x : AdminCall} {stage : AdminStage} {call : Option Nat}
    (h : A.advance s x = some (t, stage, call)) : A.Goes s t x stage call := by
  simp only [Admin.advance] at h
  split at h
  · split at h
    · next token =>
        cases route : x.request.route with
        | disconnect id =>
            simp only [route, Admin.serve] at h
            split at h
            · obtain ⟨u, stepped, same⟩ := Option.map_eq_some_iff.mp h
              cases same
              exact .kicks route token stepped
            · cases h
              exact .other (.inr rfl) (by simp) (by simp)
        | session id =>
            simp only [route, Admin.serve] at h
            split at h <;> cases h <;> exact .other (.inr rfl) (by simp) (by simp)
        | metrics =>
            simp only [route, Admin.serve] at h
            split at h <;> cases h <;> exact .other (.inr rfl) (by simp) (by simp)
        | health | sessions | subscribers channel =>
            simp only [route, Admin.serve] at h
            cases h
            exact .other (.inr rfl) (by simp) (by simp)
    · cases h
      exact .other (.inr rfl) (by simp) (by simp)
  · split at h <;> cases h <;> exact .other (.inl rfl) (by simp) (by simp)
  · cases h
    exact .other (.inl rfl) (by simp) (by simp)
  · cases h
    exact .other (.inl rfl) (by simp) (by simp)
  · split at h
    · cases h
      exact .other (.inl rfl) (by simp) (by simp)
    · obtain ⟨u, -, same⟩ := Option.map_eq_some_iff.mp h
      cases same
      exact .other (.inl rfl) (by simp) (by simp)
  · cases h
    exact .other (.inl rfl) (by simp) (by simp)
  · split at h
    · cases h
      exact .other (.inl rfl) (by simp) (by simp)
    · obtain ⟨u, -, same⟩ := Option.map_eq_some_iff.mp h
      cases same
      exact .other (.inl rfl) (by simp) (by simp)
  · next n stage =>
      split at h <;> cases h
      next id removed route answer => exact .answers route stage (answer_logged answer)
  · cases h

/-- What requests and their kicks have to do with each other. -/
structure Kicking (A : Admin κ β τ ε) (s : AdminNet κ β τ) : Prop where
  known : s.hub.Known
  accounted : s.hub.Accounted
  numbered : ∀ c x, s.admins c = some x → c < s.nextAdmin
  bound : ∀ c x n, s.admins c = some x → x.call = some n → n < s.hub.nextCall
  distinct : ∀ c c' x x' n, s.admins c = some x → s.admins c' = some x' → x.call = some n →
    x'.call = some n → c = c'
  kicking : ∀ c x n, s.admins c = some x → x.stage = .kicking n → x.call = some n
  authorized : ∀ c x n, s.admins c = some x → x.call = some n → A.requireToken x.request = true
  answered : ∀ c x id removed, s.admins c = some x →
    x.stage = .replied (.disconnected id removed) →
    ∃ n, x.call = some n ∧ .returned n (.ok (.kicked removed)) ∈ s.hub.log

variable {s t : AdminNet κ β τ}

theorem Kicking.onward (g : Kicking A s) {hub : State κ β τ} (known : hub.Known)
    (accounted : hub.Accounted) (grows : s.hub.nextCall ≤ hub.nextCall ∧ s.hub.log ⊆ hub.log) :
    Kicking A { s with hub } := by
  refine ⟨known, accounted, g.numbered, ?_, g.distinct, g.kicking, g.authorized, ?_⟩
  · intro c x n here call
    exact Nat.lt_of_lt_of_le (g.bound c x n here call) grows.1
  · intro c x id removed here stage
    obtain ⟨n, call, returned⟩ := g.answered c x id removed here stage
    exact ⟨n, call, grows.2 returned⟩

theorem Kicking.put (g : Kicking A s) {c : Nat} {y : AdminCall} (below : c < s.nextAdmin)
    (bound : ∀ n, y.call = some n → n < s.hub.nextCall)
    (own : ∀ n, y.call = some n → ∀ c' x', s.admins c' = some x' → x'.call = some n → c' = c)
    (kicking : ∀ n, y.stage = .kicking n → y.call = some n)
    (authorized : ∀ n, y.call = some n → A.requireToken y.request = true)
    (answered : ∀ id removed, y.stage = .replied (.disconnected id removed) →
      ∃ n, y.call = some n ∧ .returned n (.ok (.kicked removed)) ∈ s.hub.log) :
    Kicking A { s with admins := Function.update s.admins c (some y) } := by
  have cases_of : ∀ c' x', Function.update s.admins c (some y) c' = some x' →
      (c' = c ∧ x' = y) ∨ (c' ≠ c ∧ s.admins c' = some x') := by
    intro c' x' here
    rw [Function.update_apply] at here
    split at here
    · next same => exact .inl ⟨same, (Option.some.inj here).symm⟩
    · next other => exact .inr ⟨other, here⟩
  refine ⟨g.known, g.accounted, ?_, ?_, ?_, ?_, ?_, ?_⟩
  · intro c' x' here
    rcases cases_of c' x' here with ⟨rfl, -⟩ | ⟨-, old⟩
    · exact below
    · exact g.numbered c' x' old
  · intro c' x' n here
    rcases cases_of c' x' here with ⟨-, rfl⟩ | ⟨-, old⟩
    · exact bound n
    · exact g.bound c' x' n old
  · intro i j u v n first second
    rcases cases_of i u first with ⟨rfl, rfl⟩ | ⟨-, old⟩ <;>
      rcases cases_of j v second with ⟨rfl, rfl⟩ | ⟨-, old'⟩
    · intro _ _
      rfl
    · intro called called'
      exact (own n called j v old' called').symm
    · intro called called'
      exact own n called' i u old called
    · exact g.distinct i j u v n old old'
  · intro c' x' n here
    rcases cases_of c' x' here with ⟨-, rfl⟩ | ⟨-, old⟩
    · exact kicking n
    · exact g.kicking c' x' n old
  · intro c' x' n here
    rcases cases_of c' x' here with ⟨-, rfl⟩ | ⟨-, old⟩
    · exact authorized n
    · exact g.authorized c' x' n old
  · intro c' x' id removed here
    rcases cases_of c' x' here with ⟨-, rfl⟩ | ⟨-, old⟩
    · exact answered id removed
    · exact g.answered c' x' id removed old

theorem move_kicking (g : Kicking A s) {c : Nat} {x : AdminCall} (here : s.admins c = some x)
    {hub : State κ β τ} {stage : AdminStage} {call : Option Nat}
    (advanced : A.advance s.hub x = some (hub, stage, call)) :
    Kicking A { s with
      hub
      admins := Function.update s.admins c (some { x with stage := stage, call := call }) } := by
  have touches := advance_touches advanced
  have next := g.onward (touches.passes.known g.known) (touches.accounted g.known g.accounted)
    touches.grows
  have below := g.numbered c x here
  have sole : ∀ n, x.call = some n → ∀ c' x', s.admins c' = some x' → x'.call = some n → c' = c :=
    fun n called c' x' there called' => g.distinct c' c x' x n there here called' called
  cases advance_goes advanced with
  | kicks route token h =>
      refine next.put below ?_ ?_ ?_ ?_ ?_
      · rintro n ⟨⟩
        cases h
        exact Nat.lt_succ_self _
      · rintro n ⟨⟩ c' x' there called
        exact absurd (g.bound c' x' _ there called) (Nat.lt_irrefl _)
      · rintro n ⟨⟩
        rfl
      · intro n called
        exact token
      · intro id removed same
        cases same
  | @answers id n removed route at_ returned =>
      have called := g.kicking c x n here at_
      refine next.put below ?_ sole ?_ ?_ ?_
      · intro m same
        exact next.bound c x m here same
      · intro m same
        cases same
      · intro m same
        exact g.authorized c x m here same
      · rintro i r ⟨⟩
        exact ⟨n, called, touches.grows.2 returned⟩
  | other kept unkicking unanswered =>
      have old : ∀ n, call = some n → x.call = some n := by
        intro n same
        rcases kept with rfl | rfl
        · exact same
        · cases same
      refine next.put below ?_ ?_ ?_ ?_ ?_
      · intro n same
        exact next.bound c x n here (old n same)
      · intro n same
        exact sole n (old n same)
      · intro n same
        exact absurd same (unkicking n)
      · intro n same
        exact g.authorized c x n here (old n same)
      · intro id removed same
        exact absurd same (unanswered id removed)

theorem request_kicking (g : Kicking A s) (r : AdminRequest) :
    Kicking A ⟨s.hub, Function.update s.admins s.nextAdmin (some ⟨r, .routed, none⟩),
      s.nextAdmin + 1⟩ := by
  have older : Kicking A ⟨s.hub, s.admins, s.nextAdmin + 1⟩ :=
    ⟨g.known, g.accounted, fun c x here => Nat.lt_succ_of_lt (g.numbered c x here), g.bound,
      g.distinct, g.kicking, g.authorized, g.answered⟩
  refine older.put (Nat.lt_succ_self _) ?_ ?_ ?_ ?_ ?_
  · intro n same
    cases same
  · intro n same
    cases same
  · intro n same
    cases same
  · intro n same
    cases same
  · intro id removed same
    cases same

theorem step_kicking {l : AdminLabel ε} (g : Kicking A s) (room : AdminRoomy s l)
    (h : A.step s l = some t) : Kicking A t := by
  cases l with
  | hub l =>
      obtain ⟨hub, stepped, rfl⟩ := Option.map_eq_some_iff.mp h
      exact g.onward (step_known g.known (room l rfl) stepped)
        (step_accounted g.known g.accounted stepped)
        ⟨step_nextCall_le stepped, (step_log stepped).subset⟩
  | request r =>
      cases h
      exact request_kicking g r
  | move c =>
      obtain ⟨x, here, moved⟩ := Option.bind_eq_some_iff.mp h
      obtain ⟨⟨hub, stage, call⟩, advanced, rfl⟩ := Option.map_eq_some_iff.mp moved
      exact move_kicking g here advanced

theorem boot_kicking (A : Admin κ β τ ε) (kinds : Nat → κ) (broker : β) :
    Kicking A (Admin.boot (State.initial kinds broker)) := by
  refine ⟨initial_known kinds broker, initial_accounted kinds broker, ?_, ?_, ?_, ?_, ?_, ?_⟩
  · intro c x here
    cases here
  · intro c x n here
    cases here
  · intro c c' x x' n here
    cases here
  · intro c x n here
    cases here
  · intro c x n here
    cases here
  · intro c x id removed here
    cases here

/-- Request `c` is `r`, and if it has kicked then session `id`. -/
structure Ousts (c : Nat) (r : AdminRequest) (id : Nat) (s : AdminNet κ β τ) : Prop where
  known : s.hub.Known
  born : s.hub.Born id
  bound : c < s.nextAdmin
  request : ∀ x, s.admins c = some x → x.request = r
  evicts : ∀ x n, s.admins c = some x → x.call = some n → s.hub.Evicts n id

theorem move_ousts {c c' : Nat} {r : AdminRequest} {id : Nat} (route : r.route = .disconnect id)
    (g : Ousts c r id s) {y : AdminCall} (there : s.admins c' = some y) {hub : State κ β τ}
    {stage : AdminStage} {call : Option Nat}
    (advanced : A.advance s.hub y = some (hub, stage, call)) :
    Ousts c r id { s with
      hub
      admins := Function.update s.admins c' (some { y with stage := stage, call := call }) } := by
  have touches := advance_touches advanced
  have evicts : ∀ x n, s.admins c = some x → x.call = some n → hub.Evicts n id :=
    fun x n here called => touches.evicts g.known g.born (g.evicts x n here called)
  refine ⟨touches.passes.known g.known, touches.passes.born id g.born, g.bound, ?_, ?_⟩
  · intro x here
    simp only [Function.update_apply] at here
    split at here
    · next same =>
        cases here
        exact g.request y (same ▸ there)
    · exact g.request x here
  · intro x n here called
    simp only [Function.update_apply] at here
    split at here
    · next same =>
        cases here
        rw [← same] at there
        cases advance_goes advanced with
        | @kicks i other token h =>
            rw [g.request y there, route] at other
            cases other
            cases called
            cases h
            refine .pending (Function.update_self ..) rfl ?_
            intro ref removed
            exact Nat.lt_irrefl _ (g.known.recorded.removed _ ref removed).1
        | answers _ _ _ => exact evicts y n there called
        | other kept _ _ =>
            rcases kept with rfl | rfl
            · exact evicts y n there called
            · cases called
    · exact evicts x n here called

theorem step_ousts {c : Nat} {r : AdminRequest} {id : Nat} (route : r.route = .disconnect id)
    {l : AdminLabel ε} (g : Ousts c r id s) (room : AdminRoomy s l) (h : A.step s l = some t) :
    Ousts c r id t := by
  cases l with
  | hub l =>
      obtain ⟨hub, stepped, rfl⟩ := Option.map_eq_some_iff.mp h
      exact ⟨step_known g.known (room l rfl) stepped, step_born g.born stepped, g.bound, g.request,
        fun x n here called => step_evicts g.known g.born (g.evicts x n here called) stepped⟩
  | request r' =>
      cases h
      have other := Nat.ne_of_lt g.bound
      refine ⟨g.known, g.born, Nat.lt_succ_of_lt g.bound, ?_, ?_⟩
      · intro x here
        simp only [Function.update_of_ne other] at here
        exact g.request x here
      · intro x n here
        simp only [Function.update_of_ne other] at here
        exact g.evicts x n here
  | move c' =>
      obtain ⟨y, there, moved⟩ := Option.bind_eq_some_iff.mp h
      obtain ⟨⟨hub, stage, call⟩, advanced, rfl⟩ := Option.map_eq_some_iff.mp moved
      exact move_ousts route g there advanced

/-- In every interleaving, a disconnect of a session that has been registered is answered only to
whoever has the token, and then the session is out. One call in all has removed it, and the answer
says whether that was the kick of this request, which no other request shares. -/
theorem disconnect_settles {kinds : Nat → κ} {broker : β}
    (run : A.machine.Run AdminRoomy (Admin.boot (State.initial kinds broker)) s)
    {r : AdminRequest} {id : Nat} (route : r.route = .disconnect id) (born : s.hub.Born id)
    {arrived : AdminNet κ β τ} (asked : A.step s (.request r) = some arrived)
    (later : A.machine.Run AdminRoomy arrived t) {x : AdminCall} {removed : Bool}
    (here : t.admins s.nextAdmin = some x)
    (replied : x.stage = .replied (.disconnected id removed)) :
    A.requireToken r = true ∧ t.hub.shared.registry.get id = none ∧
      (∃ n, .removed n id ∈ t.hub.log ∧ (∀ m, .removed m id ∈ t.hub.log → m = n) ∧
        (removed = true ↔ x.call = some n)) ∧
      ∀ c' x', t.admins c' = some x' → x'.call = x.call → c' = s.nextAdmin := by
  have start := run.invariant (boot_kicking A kinds broker) fun _ _ _ g room h =>
    step_kicking g room h
  have first : AdminRoomy s (.request r : AdminLabel ε) := by
    rintro l ⟨⟩
  have kicking := later.invariant (step_kicking start first asked) fun _ _ _ g room h =>
    step_kicking g room h
  have ousts : Ousts s.nextAdmin r id t := by
    refine later.invariant ?_ fun _ _ _ g room h => step_ousts route g room h
    cases asked
    refine ⟨start.known, born, Nat.lt_succ_self _, ?_, ?_⟩
    · intro y found
      simp only [Function.update_self, Option.some.injEq] at found
      rw [← found]
    · intro y n found called
      simp only [Function.update_self, Option.some.injEq] at found
      rw [← found] at called
      cases called
  obtain ⟨n, called, returned⟩ := kicking.answered _ x id removed here replied
  have known := kicking.known
  have verdict : removed = true ∧ .removed n id ∈ t.hub.log ∨
      removed = false ∧ (∀ ref, .removed n ref ∉ t.hub.log) ∧ t.hub.Gone id := by
    have ended := (known.staged.returned n _ returned).2
    cases ousts.evicts x n here called with
    | pending at_ => cases ended.symm.trans at_
    | removing at_ => cases ended.symm.trans at_
    | ended _ _ answers =>
        rcases answers _ returned with ⟨won, mine⟩ | ⟨lost, rest⟩
        · cases won
          exact .inl ⟨rfl, mine⟩
        · cases lost
          exact .inr ⟨rfl, rest⟩
  have gone : t.hub.Gone id := by
    rcases verdict with ⟨-, mine⟩ | ⟨-, -, out⟩
    · exact (known.recorded.removed n id mine).2
    · exact out
  have absent : t.hub.shared.registry.get id = none := by
    by_contra there
    exact gone.unregistered id (Registered.found known there)
  refine ⟨?_, absent, ?_, ?_⟩
  · rw [← ousts.request x here]
    exact kicking.authorized _ x n here called
  · rcases verdict with ⟨won, mine⟩ | ⟨lost, none, -⟩
    · exact ⟨n, mine, fun m other => kicking.accounted.sole m n id other mine,
        fun _ => called, fun _ => won⟩
    · rcases kicking.accounted.settled id ousts.born with there | ⟨m, theirs⟩
      · exact absurd absent there
      · refine ⟨m, theirs, fun k other => kicking.accounted.sole k m id other theirs, ?_, ?_⟩
        · intro won
          cases lost.symm.trans won
        · intro same
          cases called.symm.trans same
          exact absurd theirs (none id)
  · intro c' x' there same
    exact kicking.distinct c' _ x' x n there here (same.trans called) called

end Requests

def guarded : Admin PubSubChannel MemoryBroker MemoryStream Unit :=
  { console with authToken := some "secret" }

def ejection : AdminRequest where
  authorization := some ("Bearer secret".toList.map fun c => UInt8.ofNat c.toNat)
  route := .disconnect 0

/-- Between the lookup and the removal of the first request's kick, a second request kicks. -/
def ejectedTwice : List (AdminLabel Unit) :=
  [.move 0, .hub (.advance 1 () 0), .request ejection, .move 1] ++
    List.replicate 8 (.hub (.advance 2 () 0)) ++ [.move 1] ++
    List.replicate 2 (.hub (.advance 1 () 0)) ++ [.move 0]

def AdminCall.told (removed : Bool) (x : AdminCall) : Bool :=
  match x.stage with
  | .replied (.disconnected id r) => id == 0 && r == removed
  | _ => false

theorem AdminCall.of_told {removed : Bool} {x : AdminCall} (h : x.told removed = true) :
    x.stage = .replied (.disconnected 0 removed) := by
  simp only [AdminCall.told] at h
  split at h
  · next id r stage =>
      obtain ⟨first, second⟩ := Bool.and_eq_true_iff.mp h
      rw [stage, beq_iff_eq.mp first, beq_iff_eq.mp second]
  · cases h

theorem disconnect_settles_twice :
    ∃ s arrived t x y n, guarded.machine.Run AdminRoomy (Admin.boot defaults.boot) s ∧
      guarded.step s (.request ejection) = some arrived ∧
      guarded.machine.Run AdminRoomy arrived t ∧
      t.admins s.nextAdmin = some x ∧ x.stage = .replied (.disconnected 0 false) ∧
      t.admins 1 = some y ∧ y.stage = .replied (.disconnected 0 true) ∧
      t.hub.shared.registry.get 0 = none ∧ .removed n 0 ∈ t.hub.log ∧ x.call ≠ some n := by
  have sound := fun (s : AdminNet PubSubChannel MemoryBroker MemoryStream) (l : AdminLabel Unit)
    (_ : s.hub.Known) => adminRoomy_sound s l
  have kept := fun (s : AdminNet PubSubChannel MemoryBroker MemoryStream) (l : AdminLabel Unit)
    (t : AdminNet PubSubChannel MemoryBroker MemoryStream) (g : s.hub.Known) room
    (h : guarded.machine.step s l = some t) => (admin_passes (A := guarded) room h).known g
  have start : (Admin.boot defaults.boot).hub.Known := initial_known _ _
  have computed : (guarded.machine.execWithin adminRoomy (Admin.boot defaults.boot)
      (arrival 0)).any (fun s => s.hub.shared.registry.get 0 == some 0 &&
        (guarded.step s (.request ejection)).any fun arrived =>
          (guarded.machine.execWithin adminRoomy arrived ejectedTwice).any fun t =>
            (t.admins s.nextAdmin).any (AdminCall.told false) &&
              (t.admins 1).any (AdminCall.told true)) = true := by
    decide +kernel
  obtain ⟨s, reached, computed⟩ := (Option.any_eq_true _ _).mp computed
  obtain ⟨registered, computed⟩ := Bool.and_eq_true_iff.mp computed
  obtain ⟨arrived, asked, computed⟩ := (Option.any_eq_true _ _).mp computed
  obtain ⟨t, ended, computed⟩ := (Option.any_eq_true _ _).mp computed
  obtain ⟨lost, won⟩ := Bool.and_eq_true_iff.mp computed
  obtain ⟨x, here, told⟩ := (Option.any_eq_true _ _).mp lost
  obtain ⟨y, there, heard⟩ := (Option.any_eq_true _ _).mp won
  have run := Machine.execWithin_run (M := guarded.machine) sound kept start reached
  have before := admin_known run
  have known : arrived.hub.Known := by
    refine (admin_passes (A := guarded) ?_ asked).known before
    rintro l' ⟨⟩
  have later := Machine.execWithin_run (M := guarded.machine) sound kept known ended
  have found : Registered s.hub 0 := Option.ne_none_iff_exists'.mpr ⟨0, beq_iff_eq.mp registered⟩
  obtain ⟨-, absent, ⟨n, removed, -, verdict⟩, -⟩ := disconnect_settles run rfl
    (registered_born before found) asked later here (AdminCall.of_told told)
  refine ⟨s, arrived, t, x, y, n, run, asked, later, here, AdminCall.of_told told, there,
    AdminCall.of_told heard, absent, removed, ?_⟩
  intro same
  cases verdict.mpr same

end Cherenkov
