import Cherenkov.Transport.Kick

/-! The hub adds publications to the outbox of a session, and nothing else. Replies are added, and
frames taken off, by the connection of the session: no other connection has it, and a connection
that looks its session up finds it or nothing. -/

namespace Cherenkov

variable {κ β τ ε : Type} {ls : List (Label ε)} {x x' : Connection} {frame : ServerFrame}

def Shared.outboxes (x : Shared κ β τ) (r : Nat) : Outbox := (x.heap r).outbox

/-- The outboxes after a `send` that has completed. -/
def Shared.posted (x : Shared κ β τ) (ref : Nat) (frame : ServerFrame) : Nat → Outbox :=
  match (x.outboxes ref).send frame with
  | .sent outbox => Function.update x.outboxes ref outbox
  | _ => x.outboxes

/-- What the labels of a transport do. -/
def State.outboxesAfter (s : State κ β τ) : Label ε → Nat → Outbox
  | .drain ref =>
      Function.update s.shared.outboxes ref
        { s.shared.outboxes ref with queue := (s.shared.outboxes ref).queue.tail }
  | .hangUp ref =>
      Function.update s.shared.outboxes ref { s.shared.outboxes ref with closed := true }
  | .deliver id frame =>
      match s.shared.registry.get id with
      | none => s.shared.outboxes
      | some ref => s.shared.posted ref frame
  | .send ref frame => s.shared.posted ref frame
  | _ => s.shared.outboxes

theorem setSession_outboxes (x : Shared κ β τ) (ref : Nat) (session : Session) :
    (x.setSession ref session).outboxes = Function.update x.outboxes ref session.outbox := by
  funext r
  exact setSession_field x ref session Session.outbox r

theorem setSession_outboxes_same {x : Shared κ β τ} {ref : Nat} {session : Session}
    (same : session.outbox = x.outboxes ref) : (x.setSession ref session).outboxes = x.outboxes := by
  rw [setSession_outboxes, same, Function.update_eq_self]

theorem posted_sent {x : Shared κ β τ} {ref : Nat} {outbox : Outbox}
    (room : (x.heap ref).outbox.send frame = .sent outbox) :
    (x.setOutbox ref outbox).outboxes = x.posted ref frame := by
  have sent : (x.outboxes ref).send frame = .sent outbox := room
  simp only [Shared.posted, sent]
  exact setSession_outboxes x ref _

theorem posted_closed {x : Shared κ β τ} {ref : Nat}
    (shut : (x.heap ref).outbox.send frame = .closed) : x.outboxes = x.posted ref frame := by
  have closed : (x.outboxes ref).send frame = .closed := shut
  simp only [Shared.posted, closed]

theorem posted_others (x : Shared κ β τ) (frame : ServerFrame) {ref r : Nat} (other : r ≠ ref) :
    x.posted ref frame r = x.outboxes r := by
  unfold Shared.posted
  cases (x.outboxes ref).send frame with
  | sent outbox => exact Function.update_of_ne other ..
  | _ => rfl

theorem dropArcs_outboxes (s : State κ β τ) (refs : List Nat) :
    (s.dropArcs refs).shared.outboxes = s.shared.outboxes := by
  refine dropArcs_keeps Shared.outboxes ?_ refs
  intro x r _
  exact setSession_outboxes_same rfl

variable {H : Hub κ β τ ε} {s t : State κ β τ} {l : Label ε}

theorem transport_outboxes (h : H.step s l = some t) (outside : l.core = false) :
    t.shared.outboxes = s.outboxesAfter l := by
  cases l with
  | start r => cases outside
  | advance n env now => cases outside
  | forward f move => cases outside
  | release ref =>
      simp only [Hub.step] at h
      split at h <;> cases h
      exact (dropArcs_outboxes _ _).trans (setSession_outboxes_same rfl)
  | drain ref =>
      cases h
      exact setSession_outboxes s.shared ref _
  | hangUp ref =>
      cases h
      exact setSession_outboxes s.shared ref _
  | deliver id frame =>
      simp only [Hub.step] at h
      simp only [State.outboxesAfter]
      cases found : s.shared.registry.get id with
      | none =>
          simp only [found] at h
          cases h
          rfl
      | some ref =>
          simp only [found] at h
          split at h
          · cases h
          · next shut =>
              cases h
              exact posted_closed shut
          · next room =>
              split at h <;> cases h
              exact posted_sent room
  | send ref frame =>
      simp only [Hub.step] at h
      split at h
      · cases h
      · next shut =>
          cases h
          exact posted_closed shut
      · next room =>
          split at h <;> cases h
          exact posted_sent room
  | listen ref future | unlisten ref future =>
      cases h
      exact setSession_outboxes_same rfl

/-- The outbox has taken a publication, or nothing. -/
def Outbox.Fed (o o' : Outbox) : Prop := o' = o ∨ ∃ p, o.send (.publication p) = .sent o'

theorem setOutbox_fed {x : Shared κ β τ} {ref : Nat} {p : Publication} {outbox : Outbox}
    (room : (x.heap ref).outbox.send (.publication p) = .sent outbox) (r : Nat) :
    (x.outboxes r).Fed ((x.setOutbox ref outbox).outboxes r) := by
  have updated := congrFun (setSession_outboxes x ref { x.heap ref with outbox }) r
  change (x.setOutbox ref outbox).outboxes r = _ at updated
  rw [updated, Function.update_apply]
  split
  · next same => exact .inr ⟨p, same ▸ room⟩
  · exact .inl rfl

theorem act_outbox {x : Shared κ β τ} {n : Nat} {env : ε} {now : Nat} {c : Call τ}
    {o : Outcome κ β τ} (acts : H.act x n env now c = some o) (r : Nat) :
    (x.outboxes r).Fed (o.shared.outboxes r) ∨
      x.nextRef ≤ r ∧ r < o.shared.nextRef ∧ (o.shared.outboxes r).queue = [] ∧
        (o.shared.outboxes r).closed = false := by
  cases c with
  | openSession capacity =>
      cases acts
      by_cases same : r = x.nextRef
      · subst same
        refine .inr ⟨Nat.le_refl _, Nat.lt_succ_self _, ?_⟩
        simp only [Shared.outboxes, Shared.goto, Function.update_self]
        split <;> exact ⟨rfl, rfl⟩
      · refine .inl (.inl ?_)
        simp only [Shared.outboxes, Shared.goto, Function.update_of_ne same]
  | gauge m len =>
      cases acts
      cases m with
      | opened ref => exact .inl (.inl (setSession_same Session.outbox (by rfl) r))
      | _ => exact .inl (.inl rfl)
  | subscribeSend a ref cursor stream rest =>
      cases rest with
      | nil =>
          cases acts
          exact .inl (.inl rfl)
      | cons p rest =>
          simp only [Hub.act] at acts
          split at acts
          · cases acts
          · cases acts
            exact .inl (.inl rfl)
          · next room =>
              cases acts
              exact .inl (setOutbox_fed room r)
  | _ =>
      simp only [Hub.act] at acts
      (repeat' split at acts) <;> cases acts <;>
        first | exact .inl (.inl rfl) | exact .inl (.inl (setSession_same Session.outbox (by rfl) r))

theorem core_outbox (h : H.step s l = some t) (core : l.core = true) (r : Nat) :
    (s.shared.outboxes r).Fed (t.shared.outboxes r) ∨
      s.shared.nextRef ≤ r ∧ r < t.shared.nextRef ∧ (t.shared.outboxes r).queue = [] ∧
        (t.shared.outboxes r).closed = false := by
  cases l with
  | start r =>
      cases h
      exact .inl (.inl rfl)
  | advance n env now =>
      obtain ⟨c, o, at_, acts, rfl⟩ := Hub.step_advance h
      have dropped := congrFun (dropArcs_outboxes (s.landed n o) (c.holds ++ o.displaced.toList)) r
      change ((s.after n c o).shared.outboxes r) = _ at dropped
      rw [dropped, (quiet_after s n c o).nextRef]
      exact act_outbox acts r
  | forward f move =>
      simp only [Hub.step] at h
      split at h
      · cases h
      · obtain ⟨⟨x', events⟩, moves, rfl⟩ := Option.map_eq_some_iff.mp h
        cases Hub.forwarded moves with
        | sent polled holding room => exact .inl (setOutbox_fed room r)
        | _ => exact .inl (.inl rfl)
  | _ => cases core

/-- What the hub knows of its sessions, whatever their identifiers. -/
structure State.Tracked (s : State κ β τ) : Prop where
  staged : s.Staged
  addressed : s.Addressed
  nascent : s.Nascent
  recorded : s.Recorded

theorem step_tracked (g : s.Tracked) (h : H.step s l = some t) : t.Tracked :=
  ⟨step_staged g.staged h, step_addressed g.addressed h, step_nascent g.addressed g.nascent h,
    step_recorded g.staged g.addressed g.nascent g.recorded h⟩

theorem exec_tracked (g : s.Tracked) (h : H.machine.exec s ls = some t) :
    t.Tracked :=
  Machine.exec_invariant (I := State.Tracked) (P := fun _ => True)
    (fun _ _ _ g _ stepped => step_tracked (H := H) g stepped) g (fun _ _ => trivial) h

theorem initial_tracked (kinds : Nat → κ) (broker : β) :
    (State.initial kinds broker : State κ β τ).Tracked :=
  have g := initial_known kinds broker
  ⟨g.staged, g.addressed, g.nascent, g.recorded⟩

theorem State.Tracked.opens (g : s.Tracked) {n ref : Nat} (opens : s.Opens n ref) :
    n < s.nextCall ∧ ref < s.shared.nextRef := by
  rcases opens with ⟨c, found, made⟩ | logged
  · refine ⟨g.staged.calls n c found, g.addressed.held n c found ref ?_⟩
    cases c with
    | openRegister r =>
        cases made
        exact List.mem_singleton_self _
    | count m | measure m | gauge m len =>
        cases m <;> cases made
        exact List.mem_singleton_self _
    | _ => cases made
  · exact ⟨(g.staged.returned n _ logged).1, (g.recorded.opened n ref logged).known⟩

/-- Every session has at most one connection, from the call that opens it on. -/
structure Net.Separate (s : Net κ β τ) : Prop where
  tracked : s.hub.Tracked
  counted : s.Counted
  sessions : ∀ i x, s.peers i = some (.connected x) → x.session < s.hub.shared.nextRef
  calls : ∀ i j call socket socket', s.peers i = some (.opening socket call) →
    s.peers j = some (.opening socket' call) → i = j
  opening : ∀ i call socket, s.peers i = some (.opening socket call) → call < s.hub.nextCall
  apart : ∀ i j p q ref, s.peers i = some p → s.peers j = some q → p.Serves s.hub ref →
    q.Serves s.hub ref → i = j

section Separate

variable {S : Sockets κ β τ ε} {s : Net κ β τ} {hub : State κ β τ} {c nextPeer : Nat} {peer : Peer}

theorem Net.Separate.move (g : s.Separate) (touched : Touched c s.hub hub)
    (tracked : hub.Tracked) (here : c < nextPeer) (more : s.nextPeer ≤ nextPeer)
    (session : ∀ x, peer = .connected x → x.session < s.hub.shared.nextRef)
    (opening : ∀ socket call, peer = .opening socket call → call < hub.nextCall ∧
      ∀ i socket', s.peers i ≠ some (.opening socket' call))
    (serves : ∀ ref, peer.Serves hub ref → ∃ old, s.peers c = some old ∧ old.Serves s.hub ref) :
    (⟨hub, Function.update s.peers c (some peer), nextPeer⟩ : Net κ β τ).Separate := by
  have served : ∀ i p ref, Function.update s.peers c (some peer) i = some p → p.Serves hub ref →
      ∃ old, s.peers i = some old ∧ old.Serves s.hub ref := by
    intro i p ref found serving
    rw [Function.update_apply] at found
    split at found
    · next same =>
        cases found
        exact same ▸ serves ref serving
    · refine ⟨p, found, ?_⟩
      cases p with
      | opening socket call => exact touched.opens serving
      | connected x => exact serving
  refine ⟨tracked, ?_, ?_, ?_, ?_, ?_⟩
  · intro i p found
    simp only [Function.update_apply] at found
    split at found
    · next same => exact same ▸ here
    · exact Nat.lt_of_lt_of_le (g.counted i p found) more
  · intro i x found
    show x.session < hub.shared.nextRef
    rw [touched.nextRef]
    simp only [Function.update_apply] at found
    split at found
    · exact session x (Option.some.inj found)
    · exact g.sessions i x found
  · intro i j call socket socket' first second
    simp only [Function.update_apply] at first second
    split at first <;> split at second
    · next left right => exact left.trans right.symm
    · exact absurd second ((opening socket call (Option.some.inj first)).2 j socket')
    · exact absurd first ((opening socket' call (Option.some.inj second)).2 i socket)
    · exact g.calls i j call socket socket' first second
  · intro i call socket found
    simp only [Function.update_apply] at found
    split at found
    · exact (opening socket call (Option.some.inj found)).1
    · exact Nat.lt_of_lt_of_le (g.opening i call socket found) touched.nextCall
  · intro i j p q ref first second left right
    obtain ⟨p', first', left'⟩ := served i p ref first left
    obtain ⟨q', second', right'⟩ := served j q ref second right
    exact g.apart i j p' q' ref first' second' left' right'

/-- A session whose `open_session` a connection awaits has no connection. -/
theorem Net.Separate.unserved (g : s.Separate) {socket : Socket} {call ref : Nat}
    (opening : s.peers c = some (.opening socket call)) (opens : s.hub.Opens call ref) (i : Nat)
    (x : Connection) (here : s.peers i = some (.connected x)) : x.session ≠ ref := by
  intro served
  cases g.apart i c _ _ ref here opening served opens
  cases here.symm.trans opening

theorem hub_separate (g : s.Separate) {l : Label ε} (h : S.hub.step s.hub l = some hub) :
    ({ s with hub } : Net κ β τ).Separate := by
  have fresh : ∀ i p ref, s.peers i = some p → p.Serves hub ref → p.Serves s.hub ref ∨
      ref = s.hub.shared.nextRef ∧ ∃ socket n env now, p = .opening socket n ∧
        l = .advance n env now := by
    intro i p ref found serving
    cases p with
    | opening socket call =>
        refine (step_opens h serving).imp id ?_
        rintro ⟨new, env, now, rfl⟩
        exact ⟨new, socket, call, env, now, rfl, rfl⟩
    | connected x => exact .inl serving
  have known : ∀ i p ref, s.peers i = some p → p.Serves s.hub ref →
      ref < s.hub.shared.nextRef := by
    intro i p ref found serving
    cases p with
    | opening socket call => exact (g.tracked.opens serving).2
    | connected x => exact serving ▸ g.sessions i x found
  refine ⟨step_tracked g.tracked h, g.counted, ?_, g.calls, ?_, ?_⟩
  · intro i x found
    exact Nat.lt_of_lt_of_le (g.sessions i x found) (step_nextRef_le h)
  · intro i call socket found
    exact Nat.lt_of_lt_of_le (g.opening i call socket found) (step_nextCall_le h)
  · intro i j p q ref first second left right
    rcases fresh i p ref first left with old | ⟨new, socket, n, env, now, rfl, rfl⟩ <;>
      rcases fresh j q ref second right with old' | ⟨new', socket', m, env', now', rfl, label⟩
    · exact g.apart i j p q ref first second old old'
    · exact absurd new' (Nat.ne_of_lt (known i p ref first old))
    · exact absurd new (Nat.ne_of_lt (known j q ref second old'))
    · cases label
      exact g.calls i j n socket socket' first second

theorem step_separate (g : s.Separate) {l : NetLabel ε} {t : Net κ β τ}
    (h : S.step s l = some t) : t.Separate := by
  cases Sockets.stepped h with
  | hub core stepped => exact hub_separate g stepped
  | @accept socket hub started =>
      have ran : S.hub.machine.exec s.hub
          [.start (.openSession (max (S.outboxCapacity socket) 1))] = some hub :=
        Option.bind_eq_some_iff.mpr ⟨hub, started, rfl⟩
      have touched : Touched s.nextPeer s.hub hub := exec_touched ran (by simp [Label.byConnection])
      refine g.move touched (exec_tracked g.tracked ran) (Nat.lt_succ_self _) (Nat.le_succ _)
        ?_ ?_ ?_
      · intro x connected
        cases connected
      · rintro socket' call ⟨⟩
        cases started
        refine ⟨Nat.lt_succ_self _, ?_⟩
        intro i socket' found
        exact absurd (g.opening i _ socket' found) (Nat.lt_irrefl _)
      · intro ref serving
        exact absurd (g.tracked.opens (touched.opens serving)).1 (Nat.lt_irrefl _)
  | @opened c socket call ref here answer =>
      have logged := answer_logged answer
      refine g.move (Touched.refl c s.hub) g.tracked (g.counted c _ here) (Nat.le_refl _) ?_ (by rintro socket' call ⟨⟩) ?_
      · rintro x ⟨⟩
        exact (g.tracked.recorded.opened call ref logged).known
      · intro r serving
        cases serving
        exact ⟨_, here, .inr logged⟩
  | @loop c move x x' ls hub here plans ran =>
      have keeps := planned plans
      refine g.move (exec_touched ran keeps.mine) (exec_tracked g.tracked ran) (g.counted c _ here)
        (Nat.le_refl _) ?_ (by rintro socket' call ⟨⟩) ?_
      · rintro y ⟨⟩
        exact keeps.session ▸ g.sessions c x here
      · intro ref serving
        exact ⟨_, here, keeps.session.symm.trans serving⟩
  | @writer c move x x' ls hub here writes ran =>
      obtain ⟨mine, session, -⟩ := written writes
      refine g.move (exec_touched ran (mine c)) (exec_tracked g.tracked ran) (g.counted c _ here)
        (Nat.le_refl _) ?_ (by rintro socket' call ⟨⟩) ?_
      · rintro y ⟨⟩
        exact session ▸ g.sessions c x here
      · intro ref serving
        exact ⟨_, here, session.symm.trans serving⟩

/-- A step of the network is a short run of the hub. -/
theorem step_exec {l : NetLabel ε} {t : Net κ β τ} (h : S.step s l = some t) :
    ∃ ls, S.hub.machine.exec s.hub ls = some t.hub := by
  cases Sockets.stepped h with
  | @hub l hub core stepped => exact ⟨[l], Option.bind_eq_some_iff.mpr ⟨hub, stepped, rfl⟩⟩
  | @accept socket hub started =>
      exact ⟨[.start (.openSession (max (S.outboxCapacity socket) 1))],
        Option.bind_eq_some_iff.mpr ⟨hub, started, rfl⟩⟩
  | opened here answer => exact ⟨[], rfl⟩
  | @loop c move x x' ls hub here plans ran => exact ⟨ls, ran⟩
  | @writer c move x x' ls hub here writes ran => exact ⟨ls, ran⟩

theorem plan_socket {move : LoopMove} (plans : S.plan s.hub c x move = some (ls, x')) :
    x'.socket = x.socket := by
  cases move <;> simp only [Sockets.plan] at plans <;> (repeat' split at plans) <;> cases plans <;>
    rfl

theorem write_socket {move : WriterMove} (writes : Sockets.write s.hub x move = some (ls, x')) :
    x'.socket = x.socket := by
  cases move <;> simp only [Sockets.write] at writes <;> (repeat' split at writes) <;>
    cases writes <;> rfl

theorem step_connected (counted : s.Counted) {l : NetLabel ε} {t : Net κ β τ}
    (h : S.step s l = some t) {i : Nat} {x : Connection} (here : s.peers i = some (.connected x)) :
    ∃ x', t.peers i = some (.connected x') ∧ x'.socket = x.socket ∧ x'.session = x.session ∧
      ((∀ move, l ≠ .loop i move) → x'.stage = x.stage) := by
  cases Sockets.stepped h with
  | hub core stepped => exact ⟨x, here, rfl, rfl, fun _ => rfl⟩
  | accept started =>
      have other : i ≠ s.nextPeer := Nat.ne_of_lt (counted i _ here)
      exact ⟨x, (Function.update_of_ne other ..).trans here, rfl, rfl, fun _ => rfl⟩
  | @opened c socket call ref opening answer =>
      have other : i ≠ c := by
        rintro rfl
        cases here.symm.trans opening
      exact ⟨x, (Function.update_of_ne other ..).trans here, rfl, rfl, fun _ => rfl⟩
  | @loop c move y y' ls hub there plans ran =>
      by_cases mine : i = c
      · subst mine
        cases here.symm.trans there
        refine ⟨y', Function.update_self .., plan_socket plans, (planned plans).session, ?_⟩
        intro still
        exact absurd rfl (still move)
      · exact ⟨x, (Function.update_of_ne mine ..).trans here, rfl, rfl, fun _ => rfl⟩
  | @writer c move y y' ls hub there writes ran =>
      by_cases mine : i = c
      · subst mine
        cases here.symm.trans there
        obtain ⟨-, session, stage⟩ := written writes
        exact ⟨y', Function.update_self .., write_socket writes, session, fun _ => stage⟩
      · exact ⟨x, (Function.update_of_ne mine ..).trans here, rfl, rfl, fun _ => rfl⟩

theorem step_connected_new {l : NetLabel ε} {t : Net κ β τ} (h : S.step s l = some t) {i : Nat}
    {x : Connection} (there : t.peers i = some (.connected x))
    (new : ∀ y, s.peers i ≠ some (.connected y)) :
    l = .loop i .opened ∧ ∃ socket call, s.peers i = some (.opening socket call) ∧
      s.hub.Opens call x.session ∧ x = Sockets.fresh socket x.session := by
  cases Sockets.stepped h with
  | hub core stepped => exact absurd there (new x)
  | accept started =>
      simp only [Function.update_apply] at there
      split at there
      · cases there
      · exact absurd there (new x)
  | @opened c socket call ref opening answer =>
      simp only [Function.update_apply] at there
      split at there
      · next same =>
          cases there
          subst same
          exact ⟨rfl, socket, call, opening, .inr (answer_logged answer), rfl⟩
      · exact absurd there (new x)
  | loop here plans ran =>
      simp only [Function.update_apply] at there
      split at there
      · next same => exact absurd (same ▸ here) (new _)
      · exact absurd there (new x)
  | writer here writes ran =>
      simp only [Function.update_apply] at there
      split at there
      · next same => exact absurd (same ▸ here) (new _)
      · exact absurd there (new x)

theorem boot_separate (kinds : Nat → κ) (broker : β) :
    (Sockets.boot (State.initial kinds broker) : Net κ β τ).Separate := by
  constructor
  · exact initial_tracked kinds broker
  · exact boot_counted _
  · intro i x found
    cases found
  · intro i j call socket socket' found
    cases found
  · intro i call socket found
    cases found
  · intro i j p q ref found
    cases found

end Separate

theorem Outbox.send_queue {o o' : Outbox} (h : o.send frame = .sent o') :
    o'.queue = o.queue ++ [frame] ∧ o'.capacity = o.capacity ∧ o.queue.length < o.capacity := by
  unfold Outbox.send at h
  split at h
  · cases h
  · split at h
    · next room =>
        cases h
        exact ⟨rfl, rfl, room⟩
    · cases h

def Label.posting : Label ε → Bool
  | .start _ | .release _ | .listen .. | .unlisten .. => false
  | _ => true

/-- The frames that a transition adds to the outbox of session `ref`. -/
def posts (ref : Nat) (p : Machine.Transition (Net κ β τ) (NetLabel ε)) : List ServerFrame :=
  (p.after.hub.shared.outboxes ref).queue.drop (p.before.hub.shared.outboxes ref).queue.length

section Posts

variable {S : Sockets κ β τ ε} {s t : Net κ β τ} {l : NetLabel ε} {ref : Nat}

theorem posts_same (same : t.hub.shared.outboxes ref = s.hub.shared.outboxes ref) :
    posts ref ⟨s, l, t⟩ = [] := by
  simp only [posts, same, List.drop_length]

theorem posts_sent
    (room : (s.hub.shared.outboxes ref).send frame = .sent (t.hub.shared.outboxes ref)) :
    posts ref ⟨s, l, t⟩ = [frame] := by
  simp only [posts, (Outbox.send_queue room).1, List.drop_left]

theorem posts_shorter
    (shorter : (t.hub.shared.outboxes ref).queue.length ≤ (s.hub.shared.outboxes ref).queue.length) :
    posts ref ⟨s, l, t⟩ = [] := List.drop_eq_nil_of_le shorter

theorem still_outboxes {H : Hub κ β τ ε} {s t : State κ β τ} {l : Label ε} (h : H.step s l = some t)
    (still : l.posting = false) : t.shared.outboxes = s.shared.outboxes := by
  cases l with
  | start r =>
      cases h
      rfl
  | release r | listen r future | unlisten r future => exact transport_outboxes h rfl
  | _ => cases still

theorem exec_outboxes {H : Hub κ β τ ε} {s t : State κ β τ} (h : H.machine.exec s ls = some t)
    (still : ∀ l ∈ ls, l.posting = false) :
    t.shared.outboxes = s.shared.outboxes := by
  refine Machine.exec_invariant (I := fun u => u.shared.outboxes = s.shared.outboxes) ?_ rfl still h
  intro u l v same quiet stepped
  exact (still_outboxes (H := H) stepped quiet).trans same

/-- The loop of a connection posts the reply that it has looked its session up for. -/
theorem plan_outboxes {c : Nat} {move : LoopMove} {hub : State κ β τ}
    (plans : S.plan s.hub c x move = some (ls, x')) (ran : S.hub.machine.exec s.hub ls = some hub) :
    hub.shared.outboxes = s.hub.shared.outboxes ∨ ∃ r reply last, x.stage = .sending r reply last ∧
      move = .send ∧ ls = [.send r reply] := by
  by_cases sends : move = .send
  · subst sends
    simp only [Sockets.plan] at plans
    split at plans
    · next r reply last stage =>
        cases plans
        exact .inr ⟨r, reply, last, stage, rfl, rfl⟩
    · cases plans
  · refine .inl (exec_outboxes ran ?_)
    cases move <;> simp only [Sockets.plan] at plans <;> (repeat' split at plans) <;> cases plans <;>
      first | exact absurd rfl sends | simp [Label.posting]

end Posts

/-- What a move of the writer task does to its connection and to the outboxes. -/
inductive Wrote (s : State κ β τ) (x : Connection) :
    WriterMove → Connection → (Nat → Outbox) → Prop
  | recv {frame : ServerFrame} {rest : List ServerFrame} (idle : x.writer = .running none)
      (queued : (s.shared.outboxes x.session).queue = frame :: rest) :
      Wrote s x .recv { x with writer := .running (some frame) }
        (Function.update s.shared.outboxes x.session
          { s.shared.outboxes x.session with queue := rest })
  | write {frame : ServerFrame} (holds : x.writer = .running (some frame)) :
      Wrote s x .write { x with writer := .running none, wire := x.wire ++ [frame] }
        s.shared.outboxes
  | fail {frame : ServerFrame} (holds : x.writer = .running (some frame)) :
      Wrote s x .fail { x with writer := .finished }
        (Function.update s.shared.outboxes x.session
          { s.shared.outboxes x.session with closed := true })
  | reap {hand : Option ServerFrame} (running : x.writer = .running hand)
      (aborted : x.aborted = true) :
      Wrote s x .reap { x with writer := .finished }
        (Function.update s.shared.outboxes x.session
          { s.shared.outboxes x.session with closed := true })

theorem wrote {s hub : State κ β τ} {move : WriterMove}
    (writes : Sockets.write s x move = some (ls, x')) (ran : H.machine.exec s ls = some hub) :
    Wrote s x move x' hub.shared.outboxes := by
  have single : ∀ l, ls = [l] → l.core = false → hub.shared.outboxes = s.outboxesAfter l := by
    rintro l rfl outside
    obtain ⟨u, stepped, last⟩ := Option.bind_eq_some_iff.mp ran
    cases last
    exact transport_outboxes stepped outside
  cases move with
  | recv =>
      simp only [Sockets.write] at writes
      split at writes
      · next frame rest idle queued =>
          cases writes
          have drained := single _ rfl rfl
          have tail : (s.shared.outboxes x.session).queue.tail = rest := congrArg List.tail queued
          rw [drained, State.outboxesAfter, tail]
          exact .recv idle queued
      · cases writes
  | write =>
      simp only [Sockets.write] at writes
      split at writes
      · next frame holds =>
          cases writes
          cases ran
          exact .write holds
      · cases writes
  | fail =>
      simp only [Sockets.write] at writes
      split at writes
      · next frame holds =>
          cases writes
          rw [single _ rfl rfl]
          exact .fail holds
      · cases writes
  | reap =>
      simp only [Sockets.write] at writes
      split at writes
      · next hand running =>
          split at writes
          · next aborted =>
              cases writes
              rw [single _ rfl rfl]
              exact .reap running aborted
          · cases writes
      · cases writes

theorem Wrote.others {s : State κ β τ} {move : WriterMove} {outboxes : Nat → Outbox}
    (wrote : Wrote s x move x' outboxes) {r : Nat} (other : r ≠ x.session) :
    outboxes r = s.shared.outboxes r := by
  cases wrote with
  | write holds => rfl
  | _ => exact Function.update_of_ne other ..

theorem Wrote.shorter {s : State κ β τ} {move : WriterMove} {outboxes : Nat → Outbox}
    (wrote : Wrote s x move x' outboxes) (r : Nat) :
    (outboxes r).queue.length ≤ (s.shared.outboxes r).queue.length := by
  by_cases other : r = x.session
  · subst other
    cases wrote with
    | recv idle queued =>
        rw [Function.update_self, queued]
        exact Nat.le_succ _
    | write holds => exact Nat.le_refl _
    | fail holds | reap running aborted =>
        rw [Function.update_self]
  · exact Nat.le_of_eq (by rw [wrote.others other])

end Cherenkov
