import Cherenkov.Hub.Shutdown
import Cherenkov.Transport.Sockets

/-! `kick_session` wakes the futures that wait for the session's shutdown and stores nothing. A loop
that is handling a frame has no such future: it does not hear the kick, goes back to `select!` and
reads on. A kick that finds the loop waiting, or past its end, is heard. -/

namespace Cherenkov

variable {κ β τ ε : Type} {ls : List (Label ε)} {x x' : Connection}

def Call.kicks : Call τ → Bool
  | .kick _ | .kickSignal _ _ => true
  | .deregister (.kick _) _ | .deregisterScrub (.kick _) _ _ | .deregisterDrop (.kick _) _ _ => true
  | .count (.kicked _) | .measure (.kicked _) | .gauge (.kicked _) _ => true
  | _ => false

/-- Call `n` is a kick that is under way, or one that has returned `true`. -/
def State.Kicks (s : State κ β τ) (n : Nat) : Prop :=
  (∃ c, s.calls n = some c ∧ c.kicks = true) ∨ .returned n (.ok (.kicked true)) ∈ s.log

section Hub

variable {H : Hub κ β τ ε} {s t : State κ β τ} {l : Label ε}

theorem goes_kicks {x : Shared κ β τ} {env : ε} {now : Nat} {c next : Call τ}
    (goes : H.Goes x env now c next) (kicks : next.kicks = true) : c.kicks = true := by
  cases goes with
  | kicking id found => rfl
  | signalled id ref => rfl
  | removed who id found | unlisted who id ref | dropped who id ref =>
      cases who with
      | close => cases kicks
      | kick own => rfl
  | counted m | measured m =>
      cases m with
      | kicked own => rfl
      | _ => cases kicks
  | _ => cases kicks

theorem step_kicks (h : H.step s l = some t) {n : Nat} (kicks : t.Kicks n) :
    s.Kicks n ∨ s.nextCall = n := by
  rcases kicks with ⟨d, found, kicks⟩ | logged
  · rcases step_call h found with old | ⟨r, -, fresh, -⟩ | ⟨env, now, c, -, at_, goes⟩
    · exact .inl (.inl ⟨d, old, kicks⟩)
    · exact .inr fresh.symm
    · exact .inl (.inl ⟨c, at_, goes_kicks goes kicks⟩)
  · rcases step_metered h logged rfl with old | ⟨env, now, meter, len, -, at_, response⟩
    · exact .inl (.inr old)
    · refine .inl (.inl ⟨_, at_, ?_⟩)
      cases meter <;> cases response
      rfl

/-- A step that belongs to connection `c`: it starts calls and touches no future but its own. -/
structure Touched (c : Nat) (s t : State κ β τ) : Prop where
  log : t.log = s.log
  nextRef : t.shared.nextRef = s.shared.nextRef
  nextCall : s.nextCall ≤ t.nextCall
  calls : ∀ n d, t.calls n = some d →
    s.calls n = some d ∨ s.nextCall ≤ n ∧ ∃ r : Request, d = r.entry
  futures : ∀ r i, i ≠ c →
    (t.shared.shutdowns r).futures.get i = (s.shared.shutdowns r).futures.get i

theorem Touched.refl (c : Nat) (s : State κ β τ) : Touched c s s :=
  ⟨rfl, rfl, Nat.le_refl _, fun _ _ found => .inl found, fun _ _ _ => rfl⟩

theorem Touched.trans {c : Nat} {s t u : State κ β τ} (first : Touched c s t)
    (second : Touched c t u) : Touched c s u := by
  refine ⟨second.log.trans first.log, second.nextRef.trans first.nextRef,
    Nat.le_trans first.nextCall second.nextCall, ?_, ?_⟩
  · intro n d found
    rcases second.calls n d found with older | ⟨late, entry⟩
    · exact first.calls n d older
    · exact .inr ⟨Nat.le_trans first.nextCall late, entry⟩
  · intro r i other
    exact (second.futures r i other).trans (first.futures r i other)

def Label.byConnection (c : Nat) : Label ε → Bool
  | .listen _ future | .unlisten _ future => future == c
  | .advance .. | .forward .. => false
  | _ => true

theorem step_touched {c : Nat} (h : H.step s l = some t) (mine : l.byConnection c = true) :
    Touched c s t := by
  have shutdowns := step_shutdowns h
  cases Hub.stepped h with
  | start r =>
      refine ⟨rfl, rfl, Nat.le_succ _, ?_, fun _ _ _ => rfl⟩
      intro n d found
      simp only [Function.update_apply] at found
      split at found
      · next same =>
          cases found
          exact .inr ⟨Nat.le_of_eq same.symm, r, rfl⟩
      · exact .inl found
  | advance at_ acts => cases mine
  | forward task moves => cases mine
  | transport quiet sheds =>
      refine ⟨rfl, quiet.nextRef, Nat.le_refl _, fun _ _ found => .inl found, ?_⟩
      intro r i other
      rw [shutdowns]
      cases l with
      | listen ref future | unlisten ref future =>
          have own : future = c := beq_iff_eq.mp mine
          simp only [State.shutdownsAfter, Function.update_apply]
          split
          · next same =>
              subst own
              simp [Notify.notified, Notify.forget, same, DashMap.get_put_ne, DashMap.get_remove_ne,
                other]
          · rfl
      | advance n env now => cases mine
      | _ => rfl

theorem exec_touched {c : Nat} (h : H.machine.exec s ls = some t)
    (mine : ∀ l ∈ ls, l.byConnection c = true) : Touched c s t := by
  refine Machine.exec_invariant (I := Touched c s) ?_ (Touched.refl c s) mine h
  intro u l v touched own stepped
  exact touched.trans (step_touched stepped own)

theorem exec_known {c : Nat} (g : s.Known) (h : H.machine.exec s ls = some t)
    (mine : ∀ l ∈ ls, l.byConnection c = true) : t.Known := by
  refine Machine.exec_invariant (I := State.Known) ?_ g mine h
  intro u l v known own stepped
  refine step_known known ?_ stepped
  rintro n env now capacity rfl
  cases own

theorem Touched.opens {c : Nat} (touched : Touched c s t) {n ref : Nat} (opens : t.Opens n ref) :
    s.Opens n ref := by
  rcases opens with ⟨d, found, made⟩ | logged
  · rcases touched.calls n d found with old | ⟨-, r, rfl⟩
    · exact .inl ⟨d, old, made⟩
    · rw [entry_opened] at made
      cases made
  · rw [touched.log] at logged
    exact .inr logged

end Hub

namespace Stage

def left : Stage → Bool
  | .leaving | .closing _ | .closed => true
  | _ => false

end Stage

namespace Peer

/-- The session of the connection, which may still be on its way out of `open_session`. -/
def Serves (s : State κ β τ) (ref : Nat) : Peer → Prop
  | .opening _ call => s.Opens call ref
  | .connected x => x.session = ref

/-- The connection waits in `select!`, or its loop has been left. -/
def Listening : Peer → Prop
  | .opening _ _ => False
  | .connected x => x.stage = .selecting ∨ x.stage.left = true

/-- The connection waits with the shutdown branch ready, or its loop has been left. -/
def Heard (s : State κ β τ) (c : Nat) : Peer → Prop
  | .opening _ _ => False
  | .connected x => x.stage = .selecting ∧ Sockets.ready s c x = true ∨ x.stage.left = true

end Peer

/-- There are identifiers left, and a kick signals a session whose connection, if it has one,
waits in `select!` or has left its loop. -/
structure Heeded (s : Net κ β τ) (l : NetLabel ε) : Prop where
  room : ∀ n env now capacity, l = .hub (.advance n env now) →
    s.hub.calls n = some (.openSession capacity) → s.hub.shared.nextRef < 2 ^ 64
  listening : ∀ n env now id ref, l = .hub (.advance n env now) →
    s.hub.calls n = some (.kickSignal id ref) → ∀ c peer, s.peers c = some peer →
      peer.Serves s.hub ref → peer.Listening

namespace Net

structure Signalled (s : Net κ β τ) (ref : Nat) : Prop where
  known : ref < s.hub.shared.nextRef
  heard : ∀ c peer, s.peers c = some peer → peer.Serves s.hub ref → peer.Heard s.hub c

structure Attentive (s : Net κ β τ) : Prop where
  known : s.hub.Known
  sessions : ∀ c x, s.peers c = some (.connected x) → x.session < s.hub.shared.nextRef
  futures : ∀ c x, s.peers c = some (.connected x) → x.stage = .selecting →
    ((s.hub.shared.shutdowns x.session).futures.get c).isSome = true
  signalled : ∀ n own id, s.hub.calls n = some (.deregister (.kick own) id) → s.Signalled own
  removed : ∀ n ref, .removed n ref ∈ s.hub.log → s.hub.Kicks n → s.Signalled ref

end Net

section Steps

variable {S : Sockets κ β τ ε} {s : Net κ β τ} {hub : State κ β τ} {c : Nat} {peer : Peer}

theorem touched_signalled {ref : Nat} (touched : Touched c s.hub hub) (signalled : s.Signalled ref)
    (own : peer.Serves hub ref → peer.Heard hub c) (nextPeer : Nat) :
    (⟨hub, Function.update s.peers c (some peer), nextPeer⟩ : Net κ β τ).Signalled ref := by
  refine ⟨?_, ?_⟩
  · show ref < hub.shared.nextRef
    rw [touched.nextRef]
    exact signalled.known
  · intro i peer' found serves
    simp only [Function.update_apply] at found
    split at found
    · next same =>
        cases found
        subst same
        exact own serves
    · next other =>
        cases peer' with
        | opening socket call => exact signalled.heard i _ found (touched.opens serves)
        | connected x =>
            rcases signalled.heard i _ found serves with ⟨waits, ready⟩ | left
            · refine .inl ⟨waits, ?_⟩
              simp only [Sockets.ready, Notify.ready] at ready ⊢
              exact (congrArg (·.getD false) (touched.futures x.session i other)).trans ready
            · exact .inr left

theorem touched_attentive (g : s.Attentive) (ran : S.hub.machine.exec s.hub ls = some hub)
    (mine : ∀ l ∈ ls, l.byConnection c = true)
    (session : ∀ x, peer = .connected x → x.session < s.hub.shared.nextRef)
    (future : ∀ x, peer = .connected x → x.stage = .selecting →
      ((hub.shared.shutdowns x.session).futures.get c).isSome = true)
    (own : ∀ ref, s.Signalled ref → peer.Serves hub ref → peer.Heard hub c) (nextPeer : Nat) :
    (⟨hub, Function.update s.peers c (some peer), nextPeer⟩ : Net κ β τ).Attentive := by
  have touched := exec_touched ran mine
  refine ⟨exec_known g.known ran mine, ?_, ?_, ?_, ?_⟩
  · intro i x found
    show x.session < hub.shared.nextRef
    rw [touched.nextRef]
    simp only [Function.update_apply] at found
    split at found
    · exact session x (Option.some.inj found)
    · exact g.sessions i x found
  · intro i x found waits
    simp only [Function.update_apply] at found
    split at found
    · next same =>
        subst same
        exact future x (Option.some.inj found) waits
    · next other =>
        refine (congrArg Option.isSome (touched.futures x.session i other)).trans ?_
        exact g.futures i x found waits
  · intro n kicked id called
    rcases touched.calls n _ called with old | ⟨-, r, entry⟩
    · exact touched_signalled touched (g.signalled n kicked id old)
        (own kicked (g.signalled n kicked id old)) nextPeer
    · cases r <;> cases entry
  · intro n ref member kicks
    change .removed n ref ∈ hub.log at member
    rw [touched.log] at member
    have known := (g.known.recorded.removed n ref member).1
    have before : s.hub.Kicks n := by
      rcases kicks with ⟨d, found, kicks⟩ | logged
      · rcases touched.calls n d found with old | ⟨late, -⟩
        · exact .inl ⟨d, old, kicks⟩
        · exact absurd known (Nat.not_lt.mpr late)
      · change _ ∈ hub.log at logged
        rw [touched.log] at logged
        exact .inr logged
    have signalled := g.removed n ref member before
    exact touched_signalled touched signalled (own ref signalled) nextPeer

/-- What a move of the loop keeps. -/
structure Planned (s : State κ β τ) (c : Nat) (x : Connection) (ls : List (Label ε))
    (x' : Connection) : Prop where
  mine : ∀ l ∈ ls, l.byConnection c = true
  session : x'.session = x.session
  selects : x'.stage = .selecting → ls = [.listen x.session c]
  heard : (x.stage = .selecting ∧ Sockets.ready s c x = true ∨ x.stage.left = true) →
    x'.stage.left = true

theorem planned {s : State κ β τ} {move : LoopMove} (h : S.plan s c x move = some (ls, x')) :
    Planned s c x ls x' := by
  cases move with
  | opened => cases h
  | select =>
      simp only [Sockets.plan] at h
      split at h <;> cases h
      next stage =>
        refine ⟨?_, rfl, fun _ => rfl, ?_⟩
        · simp [Label.byConnection]
        · simp [stage, Stage.left]
  | writerEnded =>
      simp only [Sockets.plan] at h
      (repeat' split at h) <;> cases h
      refine ⟨?_, rfl, nofun, fun _ => rfl⟩
      simp [Label.byConnection]
  | shutdown =>
      simp only [Sockets.plan] at h
      (repeat' split at h) <;> cases h
      refine ⟨?_, rfl, nofun, fun _ => rfl⟩
      simp [Label.byConnection]
  | receive input =>
      simp only [Sockets.plan] at h
      split at h
      · next stage =>
          split at h
          · cases h
          · next unready =>
              have deaf : ¬(x.stage = .selecting ∧ Sockets.ready s c x = true ∨
                  x.stage.left = true) := by
                rintro (⟨-, ready⟩ | left)
                · simp [ready] at unready
                · simp [stage, Stage.left] at left
              (repeat' split at h) <;> cases h <;>
                exact ⟨by simp [Label.byConnection], rfl, nofun, fun heard => absurd heard deaf⟩
      · cases h
  | answered =>
      simp only [Sockets.plan] at h
      split at h
      · next stage =>
          (repeat' split at h) <;> cases h <;>
            exact ⟨nofun, rfl, nofun, by simp [stage, Stage.left]⟩
      · cases h
  | lookUp =>
      simp only [Sockets.plan] at h
      split at h
      · next reply last stage =>
          (repeat' split at h) <;> cases h
          · refine ⟨nofun, rfl, ?_, by simp [stage, Stage.left]⟩
            cases last <;> nofun
          · exact ⟨nofun, rfl, nofun, by simp [stage, Stage.left]⟩
      · cases h
  | send =>
      simp only [Sockets.plan] at h
      split at h
      · next ref reply last stage =>
          cases h
          refine ⟨by simp [Label.byConnection], rfl, ?_, by simp [stage, Stage.left]⟩
          cases last <;> nofun
      · cases h
  | close =>
      simp only [Sockets.plan] at h
      split at h <;> cases h
      exact ⟨by simp [Label.byConnection], rfl, nofun, fun _ => rfl⟩
  | closed =>
      simp only [Sockets.plan] at h
      (repeat' split at h) <;> cases h
      exact ⟨by simp [Label.byConnection], rfl, nofun, fun _ => rfl⟩

theorem written {s : State κ β τ} {move : WriterMove} (h : Sockets.write s x move = some (ls, x')) :
    (∀ i, ∀ l ∈ ls, l.byConnection i = true) ∧ x'.session = x.session ∧ x'.stage = x.stage := by
  cases move <;> simp only [Sockets.write] at h <;> (repeat' split at h) <;> cases h <;>
    exact ⟨by simp [Label.byConnection], rfl, rfl⟩

theorem opened_attentive (S : Sockets κ β τ ε) (g : s.Attentive) {socket : Socket}
    {call ref : Nat} (here : s.peers c = some (.opening socket call))
    (answer : s.hub.answer call = some (.ok (.opened ref))) :
    Net.Attentive
      { s with peers := Function.update s.peers c (some (.connected (Sockets.fresh socket ref))) } := by
  have opens : s.hub.Opens call ref := .inr (answer_logged answer)
  have ran : S.hub.machine.exec s.hub [] = some s.hub := rfl
  refine touched_attentive g ran nofun ?_ ?_ ?_ s.nextPeer
  · rintro x ⟨⟩
    exact (g.known.recorded.opened call ref (answer_logged answer)).known
  · rintro x ⟨⟩ waits
    cases waits
  · intro ref' signalled serves
    cases serves
    exact absurd (signalled.heard c _ here opens) id

theorem loop_attentive (g : s.Attentive) {move : LoopMove} (here : s.peers c = some (.connected x))
    (decided : S.plan s.hub c x move = some (ls, x')) (ran : S.hub.machine.exec s.hub ls = some hub)
    :
    Net.Attentive { s with hub, peers := Function.update s.peers c (some (.connected x')) } := by
  have keeps := planned decided
  refine touched_attentive g ran keeps.mine ?_ ?_ ?_ s.nextPeer
  · rintro y ⟨⟩
    rw [keeps.session]
    exact g.sessions c x here
  · rintro y ⟨⟩ waits
    have labels := keeps.selects waits
    subst labels
    obtain ⟨u, stepped, last⟩ := Option.bind_eq_some_iff.mp ran
    cases last
    have shutdowns := step_shutdowns (H := S.hub) (l := .listen x.session c) stepped
    rw [shutdowns, keeps.session]
    simp [State.shutdownsAfter, Notify.notified]
  · intro ref signalled serves
    have before : Peer.Serves s.hub ref (.connected x) := keeps.session.symm.trans serves
    exact .inr (keeps.heard (signalled.heard c _ here before))

theorem writer_attentive (g : s.Attentive) {move : WriterMove}
    (here : s.peers c = some (.connected x)) (writes : Sockets.write s.hub x move = some (ls, x'))
    (ran : S.hub.machine.exec s.hub ls = some hub) :
    Net.Attentive { s with hub, peers := Function.update s.peers c (some (.connected x')) } := by
  obtain ⟨mine, session, stage⟩ := written writes
  have still := (exec_touched ran (mine (c + 1))).futures x.session c (Nat.ne_of_lt (Nat.lt_succ_self c))
  refine touched_attentive g ran (mine c) ?_ ?_ ?_ s.nextPeer
  · rintro y ⟨⟩
    rw [session]
    exact g.sessions c x here
  · rintro y ⟨⟩ waits
    rw [session, still]
    exact g.futures c x here (stage.symm.trans waits)
  · intro ref signalled serves
    have before : Peer.Serves s.hub ref (.connected x) := session.symm.trans serves
    rcases signalled.heard c _ here before with ⟨waits, ready⟩ | left
    · refine .inl ⟨stage.trans waits, ?_⟩
      simp only [Sockets.ready, Notify.ready, session] at ready ⊢
      exact (congrArg (·.getD false) still).trans ready
    · exact .inr ((congrArg Stage.left stage).trans left)

theorem accept_attentive (g : s.Attentive) {socket : Socket}
    (started : S.hub.step s.hub (.start (.openSession (max (S.outboxCapacity socket) 1))) =
      some hub) :
    Net.Attentive
      { hub
        peers := Function.update s.peers s.nextPeer (some (.opening socket s.hub.nextCall))
        nextPeer := s.nextPeer + 1 } := by
  have ran : S.hub.machine.exec s.hub
      [.start (.openSession (max (S.outboxCapacity socket) 1))] = some hub :=
    Option.bind_eq_some_iff.mpr ⟨hub, started, rfl⟩
  have mine : ∀ l ∈ [(.start (.openSession (max (S.outboxCapacity socket) 1)) : Label ε)],
      l.byConnection s.nextPeer = true := by simp [Label.byConnection]
  refine touched_attentive g ran mine ?_ ?_ ?_ (s.nextPeer + 1)
  · rintro x ⟨⟩
  · rintro x ⟨⟩
  · intro ref signalled serves
    have staged := g.known.staged
    rcases (exec_touched ran mine).opens serves with ⟨d, called, -⟩ | logged
    · exact absurd (staged.calls _ d called) (Nat.lt_irrefl _)
    · exact absurd (staged.returned _ _ logged).1 (Nat.lt_irrefl _)

theorem core_future {l : Label ε} (h : S.hub.step s.hub l = some hub) (core : l.core = true)
    {ref : Nat} (known : ref < s.hub.shared.nextRef) (i : Nat) :
    (hub.shared.shutdowns ref).futures.get i = (s.hub.shared.shutdowns ref).futures.get i ∨
      (hub.shared.shutdowns ref).futures.get i =
        ((s.hub.shared.shutdowns ref).futures.get i).map fun _ => true := by
  rw [step_shutdowns h]
  cases l with
  | advance n env now =>
      obtain ⟨d, o, called, -⟩ := Hub.step_advance h
      simp only [State.shutdownsAfter, called]
      cases d with
      | openSession capacity =>
          refine .inl ?_
          simp only [Shared.shutdownsAfter, Function.update_of_ne (Nat.ne_of_lt known)]
      | kickSignal id r =>
          simp only [Shared.shutdownsAfter, Function.update_apply]
          split
          · next same =>
              subst same
              exact .inr (Notify.get_notifyWaiters _ i)
          · exact .inl rfl
      | _ => exact .inl rfl
  | start r | forward f move => exact .inl rfl
  | _ => cases core

theorem core_signalled {l : Label ε} (h : S.hub.step s.hub l = some hub) (core : l.core = true)
    {ref : Nat} (signalled : s.Signalled ref) : ({ s with hub } : Net κ β τ).Signalled ref := by
  refine ⟨Nat.lt_of_lt_of_le signalled.known (step_nextRef_le h), ?_⟩
  intro i peer found serves
  cases peer with
  | opening socket call =>
      rcases step_opens h serves with opens | ⟨fresh, -⟩
      · exact signalled.heard i _ found opens
      · exact absurd fresh (Nat.ne_of_lt signalled.known)
  | connected x =>
      cases serves
      rcases signalled.heard i _ found rfl with ⟨waits, ready⟩ | left
      · refine .inl ⟨waits, ?_⟩
        simp only [Sockets.ready, Notify.ready] at ready ⊢
        rcases core_future h core signalled.known i with same | woken
        · exact (congrArg (·.getD false) same).trans ready
        · refine (congrArg (·.getD false) woken).trans ?_
          change ((s.hub.shared.shutdowns x.session).futures.get i).getD false = true at ready
          cases stored : (s.hub.shared.shutdowns x.session).futures.get i with
          | none =>
              rw [stored] at ready
              cases ready
          | some b => rfl
      · exact .inr left

/-- A kick signals whoever is waiting. -/
theorem kick_signals (g : s.Attentive) {n : Nat} {env : ε} {now id own : Nat}
    (heeded : Heeded s (.hub (.advance n env now)))
    (called : s.hub.calls n = some (.kickSignal id own))
    (h : S.hub.step s.hub (.advance n env now) = some hub) :
    ({ s with hub } : Net κ β τ).Signalled own := by
  have known := g.known.addressed.held n _ called own (List.mem_singleton_self _)
  refine ⟨Nat.lt_of_lt_of_le known (step_nextRef_le h), ?_⟩
  intro i peer found serves
  cases peer with
  | opening socket call =>
      rcases step_opens h serves with opens | ⟨fresh, -⟩
      · exact (heeded.listening n env now id own rfl called i _ found opens).elim
      · exact absurd fresh (Nat.ne_of_lt known)
  | connected x =>
      cases serves
      rcases heeded.listening n env now id _ rfl called i _ found rfl with waits | left
      · refine .inl ⟨waits, ?_⟩
        have stored := g.futures i x found waits
        have shutdowns := step_shutdowns h
        simp only [State.shutdownsAfter, called, Shared.shutdownsAfter] at shutdowns
        have woken : hub.shared.shutdowns x.session =
            (s.hub.shared.shutdowns x.session).notifyWaiters := by
          rw [shutdowns, Function.update_self]
        change (hub.shared.shutdowns x.session).ready i = true
        rw [woken, Notify.ready_notifyWaiters]
        exact stored
      · exact .inr left

/-- The call that is about to take a kicked session out of the registry takes out the session
that it has signalled. -/
theorem kicked_own (g : s.Attentive) {n own id ref : Nat}
    (called : s.hub.calls n = some (.deregister (.kick own) id))
    (found : s.hub.shared.registry.get id = some ref) : ref = own := by
  have known := g.known.addressed.held n _ called own (List.mem_singleton_self _)
  have address := g.known.addressed.address n _ id own called rfl
  rw [g.known.identified.registered g.known.addressed found, ← address]
  exact g.known.identified.ids own known

theorem hub_attentive (g : s.Attentive) {l : Label ε} (heeded : Heeded s (.hub l))
    (core : l.core = true) (stepped : S.hub.step s.hub l = some hub) :
    Net.Attentive { s with hub } := by
  refine ⟨step_known g.known ?_ stepped, ?_, ?_, ?_, ?_⟩
  · rintro n env now capacity rfl
    exact heeded.room n env now capacity rfl
  · intro c x found
    exact Nat.lt_of_lt_of_le (g.sessions c x found) (step_nextRef_le stepped)
  · intro c x found waits
    have stored := g.futures c x found waits
    rcases core_future stepped core (g.sessions c x found) c with same | woken
    · exact (congrArg Option.isSome same).trans stored
    · exact (congrArg Option.isSome woken).trans (Option.isSome_map.trans stored)
  · intro n own id called
    rcases step_call stepped called with before | ⟨r, -, -, entry⟩ |
      ⟨env, now, c, rfl, at_, goes⟩
    · exact core_signalled stepped core (g.signalled n own id before)
    · cases r <;> cases entry
    · cases goes with
      | signalled => exact kick_signals g heeded at_ stepped
  · intro n ref member kicks
    rcases step_removed stepped member with old |
      ⟨env, now, who, id, o, rfl, called, acts, found, rfl⟩
    · rcases step_kicks stepped kicks with before | fresh
      · exact core_signalled stepped core (g.removed n ref old before)
      · have known := (g.known.recorded.removed n ref old).1
        exact absurd fresh.symm (Nat.ne_of_lt known)
    · rcases step_kicks stepped kicks with before | fresh
      · rcases before with ⟨d, called', kicks⟩ | logged
        · cases called.symm.trans called'
          cases who with
          | close => cases kicks
          | kick own =>
              rw [kicked_own g called found]
              exact core_signalled stepped core (g.signalled n own id called)
        · rw [(g.known.staged.returned n _ logged).2] at called
          cases called
      · exact absurd fresh.symm (Nat.ne_of_lt (g.known.staged.calls n _ called))

theorem step_attentive (g : s.Attentive) {l : NetLabel ε} (heeded : Heeded s l) {t : Net κ β τ}
    (h : S.step s l = some t) : t.Attentive := by
  cases Sockets.stepped h with
  | hub core stepped => exact hub_attentive g heeded core stepped
  | accept started => exact accept_attentive g started
  | opened here answer => exact opened_attentive S g here answer
  | loop here decided ran => exact loop_attentive g here decided ran
  | writer here writes ran => exact writer_attentive g here writes ran

theorem boot_attentive (kinds : Nat → κ) (broker : β) :
    (Sockets.boot (State.initial kinds broker) : Net κ β τ).Attentive := by
  constructor
  · exact initial_known kinds broker
  · intro c x found
    cases found
  · intro c x found
    cases found
  · intro n own id called
    cases called
  · intro n ref member
    cases member

/-- In every run in which kicks find the connection waiting or gone, a loop that waits after the
kick has returned `true` has the shutdown branch ready and reads nothing more. -/
theorem kick_heard {kinds : Nat → κ} {broker : β}
    (run : S.machine.Run Heeded (Sockets.boot (State.initial kinds broker)) s) {n : Nat}
    {x : Connection} (returned : .returned n (.ok (.kicked true)) ∈ s.hub.log)
    (removed : .removed n x.session ∈ s.hub.log) (here : s.peers c = some (.connected x))
    (waits : x.stage = .selecting) :
    (s.hub.shared.heap x.session).shutdown.ready c = true ∧
      ∀ input, S.step s (.loop c (.receive input)) = none := by
  have g := run.invariant (boot_attentive kinds broker) fun _ _ _ g heeded h =>
    step_attentive g heeded h
  have signalled := g.removed n x.session removed (.inr returned)
  rcases signalled.heard c _ here rfl with ⟨-, ready⟩ | left
  · refine ⟨ready, ?_⟩
    intro input
    simp [Sockets.step, here, Sockets.moveLoop, Sockets.plan, waits, ready]
  · rw [waits] at left
    cases left

end Steps

def Peer.serves (s : State κ β τ) (ref : Nat) : Peer → Bool
  | .opening _ call =>
      (s.calls call).any (fun c => c.opened == some ref) ||
        decide (.returned call (.ok (.opened ref)) ∈ s.log)
  | .connected x => x.session == ref

def Peer.listening : Peer → Bool
  | .opening _ _ => false
  | .connected x => x.stage == .selecting || x.stage.left

def heeded (s : Net κ β τ) : NetLabel ε → Bool
  | .hub (.advance n _ _) =>
      match s.hub.calls n with
      | some (.openSession _) => decide (s.hub.shared.nextRef < 2 ^ 64)
      | some (.kickSignal _ ref) => (List.range s.nextPeer).all fun c =>
          (s.peers c).all fun peer => !peer.serves s.hub ref || peer.listening
      | _ => true
  | _ => true

theorem Peer.serves_iff {s : State κ β τ} {ref : Nat} (peer : Peer) :
    peer.serves s ref = true ↔ peer.Serves s ref := by
  cases peer with
  | opening socket call =>
      simp only [Peer.serves, Peer.Serves, State.Opens, Bool.or_eq_true, decide_eq_true_eq,
        Option.any_eq_true, beq_iff_eq]
  | connected x => exact beq_iff_eq

theorem Peer.listening_iff (peer : Peer) : peer.listening = true ↔ peer.Listening := by
  cases peer with
  | opening socket call => exact ⟨nofun, False.elim⟩
  | connected x => simp only [Peer.listening, Peer.Listening, Bool.or_eq_true, beq_iff_eq]

/-- Connections are numbered in the order in which they are accepted. -/
def Net.Counted (s : Net κ β τ) : Prop := ∀ c peer, s.peers c = some peer → c < s.nextPeer

theorem heeded_sound (s : Net κ β τ) (l : NetLabel ε) (counted : s.Counted)
    (h : heeded s l = true) : Heeded s l := by
  refine ⟨?_, ?_⟩
  · rintro n env now capacity rfl called
    simpa [heeded, called] using h
  · rintro n env now id ref rfl called c peer found serves
    simp only [heeded, called, List.all_eq_true, List.mem_range] at h
    have here := h c (counted c peer found)
    rw [found, Option.all_some, Peer.serves_iff peer |>.mpr serves] at here
    exact peer.listening_iff.mp here

theorem boot_counted (hub : State κ β τ) : (Sockets.boot hub).Counted := by
  intro c peer found
  cases found

theorem update_counted {s : Net κ β τ} (counted : s.Counted) {c : Nat} {peer : Peer}
    (here : s.peers c = some peer) (hub : State κ β τ) (peer' : Peer) :
    Net.Counted { s with hub, peers := Function.update s.peers c (some peer') } := by
  intro i other found
  simp only [Function.update_apply] at found
  split at found
  · next same => exact same ▸ counted c peer here
  · exact counted i other found

theorem step_counted {S : Sockets κ β τ ε} {s t : Net κ β τ} {l : NetLabel ε} (counted : s.Counted)
    (h : S.step s l = some t) : t.Counted := by
  cases Sockets.stepped h with
  | hub => exact counted
  | accept =>
      intro i peer found
      simp only [Function.update_apply] at found
      split at found
      · next same => exact Nat.lt_succ_of_le (Nat.le_of_eq same)
      · exact Nat.lt_succ_of_lt (counted i peer found)
  | opened here => exact update_counted counted here _ _
  | loop here => exact update_counted counted here _ _
  | writer here => exact update_counted counted here _ _

def carriers : Sockets PubSubChannel MemoryBroker MemoryStream Unit where
  hub := defaults.hub
  explain := fun _ => "failed to decode Protobuf message"
  outboxCapacity := fun _ => 256

def Socket.yields (frame : ClientFrame) : Socket → Incoming
  | .ws => .ws (some (.binary (encodeClient frame)))
  | .wt => .wt (some (encodeClient frame))

def connectionWaits (socket : Socket) : List (NetLabel Unit) :=
  [.accept socket] ++ List.replicate 5 (.hub (.advance 0 () 0)) ++
    [.loop 0 .opened, .loop 0 .select]

/-- The connection is kicked while it handles a frame, and goes back to `select!`. -/
def kickedHandling (socket : Socket) : List (NetLabel Unit) :=
  connectionWaits socket ++
    [.loop 0 (.receive (socket.yields (.publish ⟨1, "rooms.lobby", [7]⟩)))] ++
    (Request.steps (.kick 0) 2 8).map .hub ++ [.hub (.advance 1 () 0)] ++
    [.loop 0 .answered, .loop 0 .lookUp, .loop 0 .select]

/-- The connection is on `socket`, for session `ref`, and in `select!`. -/
def Peer.selects (socket : Socket) (ref : Nat) : Peer → Bool
  | .opening _ _ => false
  | .connected x => x.socket == socket && x.session == ref && x.stage == .selecting

theorem Peer.of_selects {peer : Option Peer} {socket : Socket} {ref : Nat}
    (h : peer.any (Peer.selects socket ref) = true) :
    ∃ x, peer = some (.connected x) ∧ x.socket = socket ∧ x.session = ref ∧
      x.stage = .selecting := by
  obtain ⟨p, rfl, selects⟩ := (Option.any_eq_true _ _).mp h
  cases p with
  | opening socket call => cases selects
  | connected x =>
      simp only [Peer.selects, Bool.and_eq_true, beq_iff_eq, and_assoc] at selects
      exact ⟨x, rfl, selects⟩

theorem kick_heard_waiting :
    ∃ s x, carriers.machine.Run Heeded (Sockets.boot defaults.boot) s ∧
      .returned 1 (.ok (.kicked true)) ∈ s.hub.log ∧ .removed 1 x.session ∈ s.hub.log ∧
      s.peers 0 = some (.connected x) ∧ x.stage = .selecting ∧
      (s.hub.shared.heap x.session).shutdown.ready 0 = true ∧
      ∀ input, carriers.step s (.loop 0 (.receive input)) = none := by
  obtain ⟨s, run, returned, removed, selects⟩ := Machine.execWithin_witness
    (M := carriers.machine) (s := Sockets.boot defaults.boot) heeded_sound
    (fun _ _ _ counted _ h => step_counted counted h) (boot_counted _)
    (connectionWaits .ws ++ (Request.steps (.kick 0) 1 8).map .hub)
    (fun s => .returned 1 (.ok (.kicked true)) ∈ s.hub.log ∧ .removed 1 0 ∈ s.hub.log ∧
      (s.peers 0).any (Peer.selects .ws 0) = true) (by decide +kernel)
  obtain ⟨x, here, -, session, waits⟩ := Peer.of_selects selects
  rw [← session] at removed
  exact ⟨s, x, run, returned, removed, here, waits, kick_heard run returned removed here waits⟩

/-- The kick has returned `true`, and the loop waits with nothing but the reader ready. -/
def KickLost (socket : Socket) : Prop :=
  ∃ s x t, carriers.machine.Run Machine.free (Sockets.boot defaults.boot) s ∧
    .returned 2 (.ok (.kicked true)) ∈ s.hub.log ∧ .removed 2 x.session ∈ s.hub.log ∧
    s.peers 0 = some (.connected x) ∧ x.socket = socket ∧ x.stage = .selecting ∧
    (s.hub.shared.heap x.session).shutdown.ready 0 = false ∧
    carriers.step s (.loop 0
      (.receive (socket.yields (.publish ⟨2, "rooms.lobby", [8]⟩)))) = some t

theorem kickLost_of_exec (socket : Socket)
    (h : (carriers.machine.exec (Sockets.boot defaults.boot) (kickedHandling socket)).any (fun s =>
      decide (.returned 2 (.ok (.kicked true)) ∈ s.hub.log ∧ .removed 2 0 ∈ s.hub.log ∧
        (s.peers 0).any (Peer.selects socket 0) = true ∧
        (s.hub.shared.heap 0).shutdown.ready 0 = false ∧
        (carriers.step s (.loop 0
          (.receive (socket.yields (.publish ⟨2, "rooms.lobby", [8]⟩))))).isSome = true)) = true) :
    KickLost socket := by
  obtain ⟨s, -, run, returned, removed, selects, deaf, reads⟩ := Machine.exec_witness
    (M := carriers.machine) (kickedHandling socket) _ h
  obtain ⟨x, here, carrier, session, waits⟩ := Peer.of_selects selects
  obtain ⟨t, read⟩ := Option.isSome_iff_exists.mp reads
  refine ⟨s, x, t, run, returned, ?_, here, carrier, waits, ?_, read⟩
  · rwa [session]
  · rwa [session]

theorem kick_lost_handling : KickLost .ws ∧ KickLost .wt :=
  ⟨kickLost_of_exec .ws (by decide +kernel), kickLost_of_exec .wt (by decide +kernel)⟩

end Cherenkov
