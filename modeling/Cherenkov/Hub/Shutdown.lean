import Cherenkov.Hub.Identity

/-! The futures that wait for a session's shutdown come and go with its transport, and only
`kick_session` marks them. Nothing else touches the notifier of a session that exists. -/

namespace Cherenkov

variable {κ β τ ε : Type}

def Shared.shutdowns (x : Shared κ β τ) (r : Nat) : Notify := (x.heap r).shutdown

def Shared.shutdownsAfter (x : Shared κ β τ) : Call τ → Nat → Notify
  | .openSession _ => Function.update x.shutdowns x.nextRef Notify.new
  | .kickSignal _ ref => Function.update x.shutdowns ref (x.shutdowns ref).notifyWaiters
  | _ => x.shutdowns

def State.shutdownsAfter (s : State κ β τ) : Label ε → Nat → Notify
  | .advance n _ _ =>
      match s.calls n with
      | some c => s.shared.shutdownsAfter c
      | none => s.shared.shutdowns
  | .listen ref future =>
      Function.update s.shared.shutdowns ref ((s.shared.shutdowns ref).notified future)
  | .unlisten ref future =>
      Function.update s.shared.shutdowns ref ((s.shared.shutdowns ref).forget future)
  | _ => s.shared.shutdowns

theorem setSession_shutdowns (x : Shared κ β τ) (ref : Nat) (session : Session) :
    (x.setSession ref session).shutdowns = Function.update x.shutdowns ref session.shutdown := by
  funext r
  exact setSession_field x ref session Session.shutdown r

theorem setSession_shutdowns_same {x : Shared κ β τ} {ref : Nat} {session : Session}
    (same : session.shutdown = x.shutdowns ref) :
    (x.setSession ref session).shutdowns = x.shutdowns := by
  rw [setSession_shutdowns, same, Function.update_eq_self]

theorem dropArcs_shutdowns (s : State κ β τ) (refs : List Nat) :
    (s.dropArcs refs).shared.shutdowns = s.shared.shutdowns := by
  refine dropArcs_keeps Shared.shutdowns ?_ refs
  intro x r _
  exact setSession_shutdowns_same rfl

variable {H : Hub κ β τ ε}

theorem act_shutdowns {x : Shared κ β τ} {n : Nat} {env : ε} {now : Nat} {c : Call τ}
    {o : Outcome κ β τ} (acts : H.act x n env now c = some o) :
    o.shared.shutdowns = x.shutdownsAfter c := by
  cases c with
  | openSession capacity =>
      cases acts
      funext r
      simp only [Shared.shutdowns, Shared.shutdownsAfter, Shared.goto, Function.update_apply]
      split
      · split <;> rfl
      · rfl
  | kickSignal id ref =>
      cases acts
      exact setSession_shutdowns x ref _
  | gauge m len =>
      cases acts
      cases m with
      | opened ref => exact setSession_shutdowns_same rfl
      | _ => rfl
  | subscribeSend a ref cursor stream rest =>
      cases rest with
      | nil =>
          cases acts
          rfl
      | cons p rest =>
          simp only [Hub.act] at acts
          split at acts <;> cases acts
          · rfl
          · exact setSession_shutdowns_same rfl
  | _ =>
      simp only [Hub.act] at acts
      (repeat' split at acts) <;> cases acts <;> first | rfl | exact setSession_shutdowns_same rfl

theorem after_shutdowns {s : State κ β τ} {n : Nat} {env : ε} {now : Nat} {c : Call τ}
    {o : Outcome κ β τ} (acts : H.act s.shared n env now c = some o) :
    (s.after n c o).shared.shutdowns = s.shared.shutdownsAfter c :=
  (dropArcs_shutdowns _ _).trans (act_shutdowns acts)

theorem step_shutdowns {s t : State κ β τ} {l : Label ε} (h : H.step s l = some t) :
    t.shared.shutdowns = s.shutdownsAfter l := by
  cases l with
  | start r =>
      cases h
      rfl
  | advance n env now =>
      obtain ⟨c, o, at_, acts, rfl⟩ := Hub.step_advance h
      rw [after_shutdowns acts]
      simp only [State.shutdownsAfter, at_]
  | forward f move =>
      simp only [Hub.step] at h
      split at h
      · cases h
      · next w task =>
          obtain ⟨out, moves, rfl⟩ := Option.map_eq_some_iff.mp h
          funext r
          exact ((Hub.forwarded moves).frame task).shutdown r
  | release ref =>
      simp only [Hub.step] at h
      split at h
      · cases h
      · cases h
        exact (dropArcs_shutdowns _ _).trans (setSession_shutdowns_same rfl)
  | drain ref =>
      cases h
      exact setSession_shutdowns_same rfl
  | hangUp ref =>
      cases h
      exact setSession_shutdowns_same rfl
  | deliver id frame =>
      simp only [Hub.step] at h
      (repeat' split at h) <;> cases h <;> first | rfl | exact setSession_shutdowns_same rfl
  | send ref frame =>
      simp only [Hub.step] at h
      (repeat' split at h) <;> cases h <;> first | rfl | exact setSession_shutdowns_same rfl
  | listen ref future =>
      cases h
      exact setSession_shutdowns s.shared ref _
  | unlisten ref future =>
      cases h
      exact setSession_shutdowns s.shared ref _

end Cherenkov
