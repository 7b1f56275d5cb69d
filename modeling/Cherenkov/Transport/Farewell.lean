import Cherenkov.Transport.Replies

/-! A connection that reads bytes it cannot decode queues one more frame, the error, and leaves its
loop. Leaving aborts the writer task at once, and the abort may take effect with frames still in the
outbox: they go down with it. If by then the writer has had its turns for all that was queued while
the loop ran, all of that is on the wire. -/

namespace Cherenkov

variable {κ β τ ε : Type} {x x' : Connection}

def Writer.inHand : Writer → List ServerFrame
  | .running (some frame) => [frame]
  | _ => []

/-- `close_session` has been called, right after the abort. -/
def Stage.ending : Stage → Bool
  | .closing _ | .closed => true
  | _ => false

def Net.looping (c : Nat) (s : Net κ β τ) : Bool :=
  match s.peers c with
  | some (.connected x) => !x.stage.left
  | _ => true

/-- What was put into the outbox of session `ref` before the loop of connection `c` ended. -/
def loopPosts (c ref : Nat) (past : List (Machine.Transition (Net κ β τ) (NetLabel ε))) :
    List ServerFrame :=
  (past.filter fun p => p.before.looping c).flatMap (posts ref)

/-- The writer of connection `c` takes a frame off the outbox, or writes the one in its hand. -/
def NetLabel.turns (c : Nat) : NetLabel ε → Bool
  | .writer i .recv | .writer i .write => i == c
  | _ => false

def turns (c : Nat) (past : List (Machine.Transition (Net κ β τ) (NetLabel ε))) : Nat :=
  past.countP fun p => p.label.turns c

/-- The outbox has taken a frame, or nothing. -/
def Outbox.Grown (o o' : Outbox) : Prop := o' = o ∨ ∃ frame, o.send frame = .sent o'

section Steps

variable {S : Sockets κ β τ ε} {s t : Net κ β τ} {l : NetLabel ε} {c : Nat}

theorem Outbox.Grown.closed {o o' : Outbox} (grown : o.Grown o') : o'.closed = o.closed := by
  rcases grown with rfl | ⟨frame, room⟩
  · rfl
  · obtain ⟨before, after⟩ := Outbox.send_sent room
    exact after.trans before.symm

theorem Outbox.Grown.of_closed {o o' : Outbox} (grown : o.Grown o') (closed : o.closed = true) :
    o' = o := by
  rcases grown with same | ⟨frame, room⟩
  · exact same
  · rw [(Outbox.send_sent room).1] at closed
    cases closed

theorem posts_grown {ref : Nat}
    (grown : (s.hub.shared.outboxes ref).Grown (t.hub.shared.outboxes ref)) :
    (t.hub.shared.outboxes ref).queue =
      (s.hub.shared.outboxes ref).queue ++ posts ref ⟨s, l, t⟩ := by
  rcases grown with same | ⟨frame, room⟩
  · rw [posts_same same, same, List.append_nil]
  · rw [posts_sent room, (Outbox.send_queue room).1]

theorem posted_grown (x : Shared κ β τ) (ref : Nat) (frame : ServerFrame) (r : Nat) :
    (x.outboxes r).Grown (x.posted ref frame r) := by
  by_cases same : r = ref
  · subst same
    unfold Shared.posted
    cases room : (x.outboxes r).send frame with
    | sent outbox =>
        refine .inr ⟨frame, room.trans ?_⟩
        show SendOutcome.sent outbox = .sent (Function.update x.outboxes r outbox r)
        rw [Function.update_self]
    | _ => exact .inl rfl
  · exact .inl (posted_others x frame same)

/-- Apart from its writer, every party can only add to an outbox, or make it. -/
theorem step_grows (h : S.step s l = some t) (ref : Nat) :
    (∃ i move x, l = .writer i move ∧ s.peers i = some (.connected x) ∧ x.session = ref) ∨
      (s.hub.shared.outboxes ref).Grown (t.hub.shared.outboxes ref) ∨
      s.hub.shared.nextRef ≤ ref ∧ ref < t.hub.shared.nextRef ∧
        (t.hub.shared.outboxes ref).queue = [] ∧ (t.hub.shared.outboxes ref).closed = false := by
  cases Sockets.stepped h with
  | hub core stepped =>
      rcases core_outbox stepped core ref with (same | ⟨p, room⟩) | made
      · exact .inr (.inl (.inl same))
      · exact .inr (.inl (.inr ⟨_, room⟩))
      · exact .inr (.inr made)
  | accept started => exact .inr (.inl (.inl (congrFun (still_outboxes started rfl) ref)))
  | opened here answer => exact .inr (.inl (.inl rfl))
  | @loop i move x x' ls hub here plans ran =>
      rcases plan_outboxes plans ran with same | ⟨r, reply, last, stage, rfl, rfl⟩
      · exact .inr (.inl (.inl (congrFun same ref)))
      · obtain ⟨u, stepped, done⟩ := Option.bind_eq_some_iff.mp ran
        cases done
        have sends : S.hub.step s.hub (.send r reply) = some hub := stepped
        have outboxes := congrFun (transport_outboxes sends rfl) ref
        refine .inr (.inl ?_)
        show (s.hub.shared.outboxes ref).Grown (hub.shared.outboxes ref)
        rw [outboxes]
        exact posted_grown s.hub.shared r reply ref
  | @writer i move x x' ls hub here writes ran =>
      by_cases mine : x.session = ref
      · exact .inl ⟨i, move, x, rfl, here, mine⟩
      · exact .inr (.inl (.inl ((wrote writes ran).others (Ne.symm mine))))

theorem plan_writer {s : State κ β τ} {move : LoopMove} {ls : List (Label ε)}
    (plans : S.plan s c x move = some (ls, x')) :
    x'.writer = x.writer ∧ x'.wire = x.wire ∧ (x.aborted = true → x'.aborted = true) := by
  cases move <;> simp only [Sockets.plan] at plans <;> (repeat' split at plans) <;> cases plans <;>
    first | exact ⟨rfl, rfl, id⟩ | exact ⟨rfl, rfl, fun _ => rfl⟩

theorem plan_aborted {s : State κ β τ} {move : LoopMove} {ls : List (Label ε)}
    (plans : S.plan s c x move = some (ls, x')) (before : x.aborted = true → x.stage.ending = true)
    (aborted : x'.aborted = true) : x'.stage.ending = true := by
  cases move with
  | close =>
      simp only [Sockets.plan] at plans
      split at plans <;> cases plans
      rfl
  | closed =>
      simp only [Sockets.plan] at plans
      (repeat' split at plans) <;> cases plans
      rfl
  | _ =>
      simp only [Sockets.plan] at plans
      (repeat' split at plans) <;> cases plans <;>
        (have ending := before aborted; simp_all [Stage.ending])

theorem plan_over {s : State κ β τ} {move : LoopMove} {ls : List (Label ε)}
    (plans : S.plan s c x move = some (ls, x')) (looping : x'.stage.left = false) :
    x.stage.left = false := by
  cases move <;> simp only [Sockets.plan] at plans <;> (repeat' split at plans) <;> cases plans <;>
    first | (cases looping; done) | simp_all [Stage.left]

/-- Frames that have been put into the outbox of a connection are on the wire, in the hand of the
writer or still there, in this order, and the writer has had two turns for each one on the wire
and one for the one in its hand. When the writer has ended, what was queued while the loop ran
is on the wire. -/
structure Traffic (o : Outbox) (sent looped : List ServerFrame) (turns : Nat) (x : Connection) :
    Prop where
  aborted : x.aborted = true → x.stage.ending = true
  whole : x.stage.left = false → looped = sent
  first : looped <+: sent
  writing : x.writer ≠ .finished → o.closed = false ∧
    sent = x.wire ++ x.writer.inHand ++ o.queue ∧
    turns = 2 * x.wire.length + x.writer.inHand.length
  ended : x.writer = .finished →
    o.closed = true ∧ x.aborted = true ∧ looped <+: x.wire ∧ x.wire <+: sent

theorem Traffic.grown {o o' : Outbox} {sent looped more : List ServerFrame} {turns : Nat}
    (traffic : Traffic o sent looped turns x) (grown : o.Grown o')
    (queue : o'.queue = o.queue ++ more) (writer : x'.writer = x.writer) (wire : x'.wire = x.wire)
    (kept : x.aborted = true → x'.aborted = true)
    (aborted : x'.aborted = true → x'.stage.ending = true)
    (onward : x'.stage.left = false → x.stage.left = false) :
    Traffic o' (sent ++ more) (looped ++ if x.stage.left then [] else more) turns x' := by
  have whole : x.stage.left = false →
      looped ++ (if x.stage.left then [] else more) = sent ++ more := by
    intro looping
    rw [looping, if_neg Bool.false_ne_true, traffic.whole looping]
  refine ⟨aborted, fun looping => whole (onward looping), ?_, ?_, ?_⟩
  · cases looping : x.stage.left with
    | false =>
        rw [looping] at whole
        rw [whole rfl]
    | true =>
        rw [if_pos rfl, List.append_nil]
        exact traffic.first.trans (List.prefix_append _ _)
  · intro running
    rw [writer] at running
    obtain ⟨open_, all, count⟩ := traffic.writing running
    refine ⟨grown.closed.trans open_, ?_, ?_⟩
    · rw [all, writer, wire, queue, List.append_assoc]
    · rw [count, writer, wire]
  · intro finished
    rw [writer] at finished
    obtain ⟨closed, dropped, out, front⟩ := traffic.ended finished
    have same := grown.of_closed closed
    have nothing : more = [] := by
      rw [same] at queue
      exact List.self_eq_append_right.mp queue
    subst nothing
    rw [ite_self, List.append_nil, List.append_nil, wire]
    exact ⟨same ▸ closed, kept dropped, out, front⟩

theorem Traffic.wrote {s : State κ β τ} {move : WriterMove} {outboxes : Nat → Outbox}
    {sent looped : List ServerFrame} {turns : Nat}
    (traffic : Traffic (s.shared.outboxes x.session) sent looped turns x)
    (wrote : Wrote s x move x' outboxes) (stays : move ≠ .fail)
    (served : move = .reap → 2 * looped.length ≤ turns) :
    Traffic (outboxes x.session) sent looped
      (turns + (NetLabel.turns c (.writer c move : NetLabel ε)).toNat) x' := by
  cases wrote with
  | @recv frame rest idle queued =>
      obtain ⟨open_, all, count⟩ := traffic.writing (by rw [idle]; nofun)
      rw [Function.update_self]
      refine ⟨traffic.aborted, traffic.whole, traffic.first, fun _ => ⟨open_, ?_, ?_⟩, nofun⟩
      · rw [all, idle, queued]
        simp [Writer.inHand]
      · rw [count, idle]
        simp [Writer.inHand, NetLabel.turns]
  | @write frame holds =>
      obtain ⟨open_, all, count⟩ := traffic.writing (by rw [holds]; nofun)
      refine ⟨traffic.aborted, traffic.whole, traffic.first, fun _ => ⟨open_, ?_, ?_⟩, nofun⟩
      · rw [all, holds]
        simp [Writer.inHand]
      · rw [count, holds]
        simp [Writer.inHand, NetLabel.turns]
        omega
  | fail holds => exact absurd rfl stays
  | reap running dropped =>
      obtain ⟨-, all, count⟩ := traffic.writing (by rw [running]; nofun)
      have front : x.wire <+: sent := by
        rw [all, List.append_assoc]
        exact List.prefix_append _ _
      have few : looped.length ≤ x.wire.length := by
        have enough := served rfl
        have one : x.writer.inHand.length ≤ 1 := by
          unfold Writer.inHand
          split
          · exact Nat.le_refl 1
          · exact Nat.zero_le 1
        omega
      rw [Function.update_self]
      exact ⟨traffic.aborted, traffic.whole, traffic.first, fun busy => absurd rfl busy,
        fun _ => ⟨rfl, dropped, List.prefix_of_prefix_length_le traffic.first front few, front⟩⟩

theorem step_peer (h : S.step s l = some t) (known : c < s.nextPeer)
    (loop : ∀ move, l ≠ .loop c move) (writer : ∀ move, l ≠ .writer c move) :
    t.peers c = s.peers c := by
  cases Sockets.stepped h with
  | hub core stepped => rfl
  | accept started => exact Function.update_of_ne (Nat.ne_of_lt known) ..
  | opened here answer =>
      apply Function.update_of_ne
      rintro rfl
      exact loop _ rfl
  | loop here plans ran =>
      apply Function.update_of_ne
      rintro rfl
      exact loop _ rfl
  | writer here writes ran =>
      apply Function.update_of_ne
      rintro rfl
      exact writer _ rfl

theorem step_unwritten (counted : s.Counted) (h : S.step s l = some t)
    (here : s.peers c = some (.connected x)) (others : ∀ move, l ≠ .writer c move)
    (before : x.aborted = true → x.stage.ending = true) :
    ∃ x', t.peers c = some (.connected x') ∧ x'.session = x.session ∧ x'.writer = x.writer ∧
      x'.wire = x.wire ∧ (x.aborted = true → x'.aborted = true) ∧
      (x'.aborted = true → x'.stage.ending = true) ∧
      (x'.stage.left = false → x.stage.left = false) := by
  by_cases mine : ∃ move, l = .loop c move
  · obtain ⟨move, rfl⟩ := mine
    cases Sockets.stepped h with
    | opened opening answer => cases here.symm.trans opening
    | @loop _ _ y x' ls hub there plans ran =>
        cases here.symm.trans there
        obtain ⟨writer, wire, kept⟩ := plan_writer plans
        exact ⟨x', Function.update_self .., (planned plans).session, writer, wire, kept,
          plan_aborted plans before, plan_over plans⟩
  · have same := step_peer h (counted c _ here) (fun move loop => mine ⟨move, loop⟩) others
    exact ⟨x, same.trans here, rfl, rfl, rfl, id, before, id⟩

end Steps

/-- Connections find their sessions, connection `c` never fails to write, and by the time the
abort of its writer takes effect the writer has had two turns, one to take it and one to write it,
for each frame that was put into the outbox before the loop ended. -/
structure Unhurried (c : Nat) (past : List (Machine.Transition (Net κ β τ) (NetLabel ε)))
    (p : Machine.Transition (Net κ β τ) (NetLabel ε)) : Prop where
  registered : ∀ i x, p.label = .loop i .lookUp → p.before.peers i = some (.connected x) →
    p.before.hub.shared.registry.get (p.before.hub.shared.heap x.session).id = some x.session ∨
      i ≠ c ∧ p.before.hub.shared.registry.get (p.before.hub.shared.heap x.session).id = none
  stays : p.label ≠ .writer c .fail
  served : ∀ x, p.label = .writer c .reap → p.before.peers c = some (.connected x) →
    2 * (loopPosts c x.session past).length ≤ turns c past

structure Handed (S : Sockets κ β τ ε) (c : Nat)
    (past : List (Machine.Transition (Net κ β τ) (NetLabel ε))) (s : Net κ β τ) : Prop where
  ledger : Ledger S c past s
  unborn : ∀ ref, s.hub.shared.nextRef ≤ ref →
    (s.hub.shared.outboxes ref).capacity = 0 ∧ (s.hub.shared.outboxes ref).queue = []
  unserved : ∀ ref, (∀ i x, s.peers i = some (.connected x) → x.session ≠ ref) →
    (s.hub.shared.outboxes ref).closed = false ∧
      past.flatMap (posts ref) = (s.hub.shared.outboxes ref).queue
  early : (∀ x, s.peers c ≠ some (.connected x)) →
    turns c past = 0 ∧ ∀ p ∈ past, p.before.looping c = true
  replied : ∀ x, s.peers c = some (.connected x) → ∀ p ∈ past, replies x.session p ≠ [] →
    p.before.looping c = true
  traffic : ∀ x, s.peers c = some (.connected x) →
    Traffic (s.hub.shared.outboxes x.session) (past.flatMap (posts x.session))
      (loopPosts c x.session past) (turns c past) x

section Run

variable {S : Sockets κ β τ ε} {s t : Net κ β τ} {l : NetLabel ε} {c : Nat}
  {past : List (Machine.Transition (Net κ β τ) (NetLabel ε))}

theorem loopPosts_snoc (c ref : Nat) (past : List (Machine.Transition (Net κ β τ) (NetLabel ε)))
    (p : Machine.Transition (Net κ β τ) (NetLabel ε)) :
    loopPosts c ref (past ++ [p]) =
      loopPosts c ref past ++ if p.before.looping c then posts ref p else [] := by
  rw [loopPosts, List.filter_append, List.flatMap_append, loopPosts]
  cases looping : p.before.looping c <;> simp [looping]

theorem loopPosts_all {ref : Nat} (looping : ∀ p ∈ past, p.before.looping c = true) :
    loopPosts c ref past = past.flatMap (posts ref) := by
  rw [loopPosts, List.filter_eq_self.mpr looping]

theorem turns_snoc (c : Nat) (past : List (Machine.Transition (Net κ β τ) (NetLabel ε)))
    (p : Machine.Transition (Net κ β τ) (NetLabel ε)) :
    turns c (past ++ [p]) = turns c past + (p.label.turns c).toNat := by
  rw [turns, List.countP_append, turns]
  cases served : p.label.turns c <;> simp [served]

theorem turns_others {l : NetLabel ε} (others : ∀ move, l ≠ .writer c move) :
    l.turns c = false := by
  unfold NetLabel.turns
  split
  · next i =>
      refine beq_false_of_ne ?_
      rintro rfl
      exact others _ rfl
  · next i =>
      refine beq_false_of_ne ?_
      rintro rfl
      exact others _ rfl
  · rfl

theorem looping_connected (here : s.peers c = some (.connected x)) :
    s.looping c = !x.stage.left := by
  rw [Net.looping, here]

theorem looping_unconnected (absent : ∀ x, s.peers c ≠ some (.connected x)) :
    s.looping c = true := by
  unfold Net.looping
  split
  · next x here => exact absurd here (absent x)
  · rfl

/-- A connection that sends has not aborted its writer, so its outbox is open. -/
theorem Handed.attended (g : Handed S c past s) (unhurried : Unhurried c past ⟨s, l, t⟩)
    (h : S.step s l = some t) : Attended c s l := by
  refine ⟨unhurried.registered, ?_⟩
  rintro x rfl here
  have traffic := g.traffic x here
  have running : x.writer ≠ .finished := by
    intro finished
    have ending := traffic.aborted (traffic.ended finished).2.1
    cases Sockets.stepped h with
    | loop here' plans ran =>
        cases here.symm.trans here'
        simp only [Sockets.plan] at plans
        split at plans
        · next stage =>
            rw [stage] at ending
            cases ending
        · cases plans
  exact (traffic.writing running).1

theorem Handed.unborn_after (g : Handed S c past s) (h : S.step s l = some t) {ref : Nat}
    (unborn : t.hub.shared.nextRef ≤ ref) :
    (t.hub.shared.outboxes ref).capacity = 0 ∧ (t.hub.shared.outboxes ref).queue = [] := by
  obtain ⟨ls, ran⟩ := step_exec h
  have before : s.hub.shared.nextRef ≤ ref := by
    refine Nat.le_trans ?_ unborn
    exact Machine.exec_invariant (P := fun _ => True)
      (I := fun u => s.hub.shared.nextRef ≤ u.shared.nextRef)
      (fun _ _ _ le _ stepped => Nat.le_trans le (step_nextRef_le (H := S.hub) stepped))
      (Nat.le_refl _) (fun _ _ => trivial) ran
  obtain ⟨capacity, empty⟩ := g.unborn ref before
  rcases step_grows h ref with ⟨i, move, x, -, here, served⟩ | (same | ⟨frame, room⟩) | made
  · have known := g.ledger.separate.sessions i x here
    omega
  · rw [same]
    exact ⟨capacity, empty⟩
  · have fits := (Outbox.send_queue room).2.2
    omega
  · omega

theorem Handed.unserved_after (g : Handed S c past s) (h : S.step s l = some t) {ref : Nat}
    (unserved : ∀ i x, t.peers i = some (.connected x) → x.session ≠ ref) :
    (t.hub.shared.outboxes ref).closed = false ∧
      (past ++ [Machine.Transition.mk s l t]).flatMap (posts ref) =
        (t.hub.shared.outboxes ref).queue := by
  have before : ∀ i x, s.peers i = some (.connected x) → x.session ≠ ref := by
    intro i x here
    obtain ⟨x', there, -, session, -⟩ := step_connected g.ledger.separate.counted h here
    exact session ▸ unserved i x' there
  obtain ⟨open_, all⟩ := g.unserved ref before
  rw [List.flatMap_append, List.flatMap_singleton, all]
  rcases step_grows h ref with ⟨i, move, x, -, here, served⟩ | grown | ⟨new, -, empty, open'⟩
  · exact absurd served (before i x here)
  · exact ⟨grown.closed.trans open_, (posts_grown grown).symm⟩
  · refine ⟨open', ?_⟩
    rw [(g.unborn ref new).2, posts, empty, List.drop_nil]
    rfl

theorem Handed.early_after (g : Handed S c past s) (h : S.step s l = some t)
    (absent : ∀ x, s.peers c ≠ some (.connected x)) :
    turns c (past ++ [⟨s, l, t⟩]) = 0 ∧
      ∀ p ∈ past ++ [⟨s, l, t⟩], p.before.looping c = true := by
  obtain ⟨none_, looping⟩ := g.early absent
  have others : ∀ move, l ≠ .writer c move := by
    rintro move rfl
    cases Sockets.stepped h with
    | writer here writes ran => exact absent _ here
  constructor
  · rw [turns_snoc, turns_others others, none_]
    rfl
  · intro p member
    rcases List.mem_append.mp member with old | new
    · exact looping p old
    · rw [List.mem_singleton.mp new]
      exact looping_unconnected absent

theorem Handed.replied_after (g : Handed S c past s) (h : S.step s l = some t)
    (there : t.peers c = some (.connected x)) {p : Machine.Transition (Net κ β τ) (NetLabel ε)}
    (member : p ∈ past ++ [⟨s, l, t⟩]) (replied : replies x.session p ≠ []) :
    p.before.looping c = true := by
  by_cases old : ∃ y, s.peers c = some (.connected y)
  · obtain ⟨y, here⟩ := old
    obtain ⟨x', there', -, session, -⟩ := step_connected g.ledger.separate.counted h here
    cases there.symm.trans there'
    rcases List.mem_append.mp member with earlier | last
    · exact g.replied y here p earlier (session ▸ replied)
    · cases List.mem_singleton.mp last
      rcases step_replies g.ledger.sending h x.session with none_ | ⟨i, z, rfl, here', served⟩
      · exact absurd none_ replied
      · cases g.ledger.separate.apart i c _ _ x.session here' here served session.symm
        cases here.symm.trans here'
        show s.looping c = true
        rw [looping_connected here]
        cases Sockets.stepped h with
        | loop here' plans ran =>
            cases here.symm.trans here'
            simp only [Sockets.plan] at plans
            split at plans
            · next stage =>
                rw [stage]
                rfl
            · cases plans
  · exact (g.early_after h fun y here => old ⟨y, here⟩).2 p member

theorem Handed.traffic_after (g : Handed S c past s) (unhurried : Unhurried c past ⟨s, l, t⟩)
    (h : S.step s l = some t) (there : t.peers c = some (.connected x)) :
    Traffic (t.hub.shared.outboxes x.session)
      ((past ++ [Machine.Transition.mk s l t]).flatMap (posts x.session))
      (loopPosts c x.session (past ++ [⟨s, l, t⟩])) (turns c (past ++ [⟨s, l, t⟩])) x := by
  have separate := g.ledger.separate
  by_cases old : ∃ y, s.peers c = some (.connected y)
  · obtain ⟨y, here⟩ := old
    have traffic := g.traffic y here
    rw [List.flatMap_append, List.flatMap_singleton, loopPosts_snoc, turns_snoc]
    by_cases mine : ∃ move, l = .writer c move
    · obtain ⟨move, rfl⟩ := mine
      cases Sockets.stepped h with
      | writer here' writes ran =>
          cases here.symm.trans here'
          cases there.symm.trans (Function.update_self c _ s.peers)
          have wrote := wrote writes ran
          rw [posts_shorter (wrote.shorter _), List.append_nil, ite_self, List.append_nil,
            (written writes).2.1]
          refine traffic.wrote wrote ?_ ?_
          · rintro rfl
            exact unhurried.stays rfl
          · rintro rfl
            exact unhurried.served y rfl here
    · have others : ∀ move, l ≠ .writer c move := fun move same => mine ⟨move, same⟩
      obtain ⟨x', there', session, writer, wire, kept, aborted, onward⟩ :=
        step_unwritten separate.counted h here others traffic.aborted
      cases there.symm.trans there'
      have looping : s.looping c = !y.stage.left := looping_connected here
      rw [session, turns_others others]
      rcases step_grows h y.session with ⟨i, move, z, label, here', served⟩ | grown | ⟨new, -⟩
      · have same := separate.apart i c _ _ y.session here' here served rfl
        exact absurd (same ▸ label) (others move)
      · have after := traffic.grown grown (posts_grown (l := l) grown) writer wire kept aborted onward
        rw [looping]
        cases left : y.stage.left with
        | false =>
            rw [left] at after
            exact after
        | true =>
            rw [left] at after
            exact after
      · have known := separate.sessions c y here
        omega
  · obtain ⟨none_, looping⟩ := g.early_after h fun y here => old ⟨y, here⟩
    obtain ⟨rfl, socket, call, opening, opens, made⟩ :=
      step_connected_new h there fun y here => old ⟨y, here⟩
    have unserved := separate.unserved opening opens
    obtain ⟨open_, all⟩ := g.unserved x.session unserved
    have grown : (s.hub.shared.outboxes x.session).Grown (t.hub.shared.outboxes x.session) := by
      rcases step_grows h x.session with ⟨_, _, _, label, -⟩ | grown | ⟨new, -⟩
      · cases label
      · exact grown
      · have known := (separate.tracked.opens opens).2
        omega
    have queue := posts_grown (l := .loop c .opened) (ε := ε) grown
    rw [loopPosts_all looping, none_, List.flatMap_append, List.flatMap_singleton, all, ← queue, made]
    exact ⟨nofun, fun _ => rfl, List.prefix_rfl, fun _ => ⟨grown.closed.trans open_, rfl, rfl⟩, nofun⟩

theorem step_handed (g : Handed S c past s) (unhurried : Unhurried c past ⟨s, l, t⟩)
    (h : S.step s l = some t) : Handed S c (past ++ [⟨s, l, t⟩]) t := by
  constructor
  · exact step_ledger g.ledger (g.attended unhurried h) h
  · intro ref unborn
    exact g.unborn_after h unborn
  · intro ref unserved
    exact g.unserved_after h unserved
  · intro absent
    refine g.early_after h ?_
    intro x here
    obtain ⟨x', there, -⟩ := step_connected g.ledger.separate.counted h here
    exact absent x' there
  · intro x there p member replied
    exact g.replied_after h there member replied
  · intro x there
    exact g.traffic_after unhurried h there

theorem boot_handed (S : Sockets κ β τ ε) (c : Nat) (kinds : Nat → κ) (broker : β) :
    Handed S c [] (Sockets.boot (State.initial kinds broker)) := by
  constructor
  · exact boot_ledger S c kinds broker
  · intro ref unborn
    exact ⟨rfl, rfl⟩
  · intro ref unserved
    exact ⟨rfl, rfl⟩
  · intro absent
    exact ⟨rfl, fun p member => absurd member List.not_mem_nil⟩
  · intro x here
    cases here
  · intro x here
    cases here

/-- In every run in which the client keeps reading and the writer gets its turns before the abort
takes effect, a writer that has ended has written all that was queued before the loop ended, in
order, and the error about bytes that the loop could not decode is there. -/
theorem error_written {kinds : Nat → κ} {broker : β} {ls : List (NetLabel ε)} {x : Connection}
    {path : List (Machine.Transition (Net κ β τ) (NetLabel ε))}
    (taken : path = S.machine.path (Sockets.boot (State.initial kinds broker)) ls)
    (within : ∀ past p rest, path = past ++ p :: rest → Unhurried c past p)
    (ran : S.machine.exec (Sockets.boot (State.initial kinds broker)) ls = some t)
    (here : t.peers c = some (.connected x)) (ended : x.writer = .finished) :
    loopPosts c x.session path <+: x.wire ∧ x.wire <+: path.flatMap (posts x.session) ∧
      ∀ message, .garbage message ∈ path.filterMap (S.reading c) →
        errorFrame 0 .invalidFrame message ∈ x.wire := by
  subst taken
  have g : Handed S c ([] ++ S.machine.path (Sockets.boot (State.initial kinds broker)) ls) t :=
    Machine.path_invariant_past (fun _ _ _ _ g unhurried h => step_handed g unhurried h)
      (boot_handed S c kinds broker) within ran
  rw [List.nil_append] at g
  obtain ⟨-, aborted, out, front⟩ := (g.traffic x here).ended ended
  refine ⟨out, front, ?_⟩
  intro message read
  obtain ⟨settled, accounts⟩ := g.ledger.account x here
  have ending := (g.traffic x here).aborted aborted
  have empty : x.stage.current = none ∧ x.stage.inHand = none := by
    cases stage : x.stage <;> rw [stage] at ending <;> first | exact ⟨rfl, rfl⟩ | cases ending
  have member : .garbage message ∈ settled := by
    rw [accounts.read, empty.1] at read
    simpa using read
  have order := accounts.order
  rw [empty.2, Option.toList_none, List.append_nil] at order
  have owed : errorFrame 0 .invalidFrame message ∈
      settled.filterMap (Reading.owed ClientFrame.reply t.hub) :=
    List.mem_filterMap.mpr ⟨_, member, rfl⟩
  rw [← order] at owed
  obtain ⟨p, step, posted⟩ := List.mem_flatMap.mp owed
  have looping := g.replied x here p step (List.ne_nil_of_mem posted)
  refine out.subset (List.mem_flatMap.mpr ⟨p, List.mem_filter.mpr ⟨step, looping⟩, ?_⟩)
  exact List.mem_of_mem_filter posted

end Run

def unhurried (c : Nat) (past : List (Machine.Transition (Net κ β τ) (NetLabel ε)))
    (p : Machine.Transition (Net κ β τ) (NetLabel ε)) : Bool :=
  match p.label with
  | .loop i .lookUp => attended c p.before (.loop i .lookUp : NetLabel ε)
  | .writer i .fail => i != c
  | .writer i .reap =>
      match p.before.peers i with
      | some (.connected x) =>
          i != c || decide (2 * (loopPosts c x.session past).length ≤ turns c past)
      | _ => true
  | _ => true

theorem unhurried_sound {c : Nat} {past : List (Machine.Transition (Net κ β τ) (NetLabel ε))}
    {p : Machine.Transition (Net κ β τ) (NetLabel ε)} (h : unhurried c past p = true) :
    Unhurried c past p := by
  obtain ⟨s, l, t⟩ := p
  refine ⟨?_, ?_, ?_⟩
  · rintro i x rfl here
    exact (attended_sound c s (.loop i .lookUp : NetLabel ε) h).registered i x rfl here
  · rintro rfl
    simp [unhurried] at h
  · rintro x rfl here
    have found : s.peers c = some (.connected x) := here
    simpa [unhurried, found] using h

def garbageRefused : List (NetLabel Unit) :=
  connectionWaits .ws ++
    [.loop 0 (.receive (.ws (some (.binary [255])))), .loop 0 .lookUp, .loop 0 .send]

/-- The writer gets its turns although the loop has been left and the task aborted. -/
def errorFlushed : List (NetLabel Unit) :=
  garbageRefused ++ [.writer 0 .recv, .loop 0 .close, .writer 0 .write, .writer 0 .reap]

/-- The writer does not get its turn. -/
def errorOvertaken : List (NetLabel Unit) := garbageRefused ++ [.loop 0 .close, .writer 0 .reap]

def decodeError : ServerFrame :=
  errorFrame 0 .invalidFrame "invalid frame: protobuf decode failed: failed to decode Protobuf message"

/-- The connection of session 0 is on `socket`, and its writer has ended with this on the wire. -/
def Peer.ended (socket : Socket) (wire : List ServerFrame) : Peer → Bool
  | .opening _ _ => false
  | .connected x =>
      x.socket == socket && x.session == 0 && x.writer == .finished && x.wire == wire

theorem Peer.of_ended {peer : Option Peer} {socket : Socket} {wire : List ServerFrame}
    (h : peer.any (Peer.ended socket wire) = true) :
    ∃ x, peer = some (.connected x) ∧ x.socket = socket ∧ x.session = 0 ∧
      x.writer = .finished ∧ x.wire = wire := by
  obtain ⟨p, rfl, ended⟩ := (Option.any_eq_true _ _).mp h
  cases p with
  | opening socket call => cases ended
  | connected x =>
      simp only [Peer.ended, Bool.and_eq_true, beq_iff_eq, and_assoc] at ended
      exact ⟨x, rfl, ended⟩

theorem error_written_flushed :
    ∃ t x, carriers.machine.exec (Sockets.boot defaults.boot) errorFlushed = some t ∧
      (∀ past p rest, carriers.machine.path (Sockets.boot defaults.boot) errorFlushed =
        past ++ p :: rest → Unhurried 0 past p) ∧
      t.peers 0 = some (.connected x) ∧ x.socket = .ws ∧ x.writer = .finished ∧
      x.wire = [decodeError] ∧
      loopPosts 0 x.session (carriers.machine.path (Sockets.boot defaults.boot) errorFlushed) <+:
        x.wire := by
  obtain ⟨t, ran, -, ended⟩ := Machine.exec_witness (M := carriers.machine)
    (s := Sockets.boot defaults.boot) errorFlushed
    (fun t => (t.peers 0).any (Peer.ended .ws [decodeError]) = true) (by decide +kernel)
  have within : ∀ past p rest, carriers.machine.path (Sockets.boot defaults.boot) errorFlushed =
      past ++ p :: rest → Unhurried 0 past p := by
    intro past p rest split
    have all : Machine.checked (unhurried 0) []
        (carriers.machine.path (Sockets.boot defaults.boot) errorFlushed) = true := by
      decide +kernel
    exact unhurried_sound (Machine.checked_sound all split)
  obtain ⟨x, here, socket, session, finished, wire⟩ := Peer.of_ended ended
  exact ⟨t, x, ran, within, here, socket, finished, wire,
    (error_written rfl within ran here finished).1⟩

def NetLabel.fails (c : Nat) : NetLabel ε → Bool
  | .writer i .fail => i == c
  | _ => false

/-- The error was queued, the client kept its socket open, and nothing was written. -/
theorem error_unwritten :
    ∃ t x, carriers.machine.exec (Sockets.boot defaults.boot) errorOvertaken = some t ∧
      errorOvertaken.any (NetLabel.fails 0) = false ∧ t.peers 0 = some (.connected x) ∧
      x.socket = .ws ∧ x.writer = .finished ∧ x.wire = [] ∧
      (carriers.machine.path (Sockets.boot defaults.boot) errorOvertaken).flatMap
        (posts x.session) = [decodeError] := by
  obtain ⟨t, ran, -, ended⟩ := Machine.exec_witness (M := carriers.machine)
    (s := Sockets.boot defaults.boot) errorOvertaken
    (fun t => (t.peers 0).any (Peer.ended .ws []) = true) (by decide +kernel)
  obtain ⟨x, here, socket, session, finished, wire⟩ := Peer.of_ended ended
  refine ⟨t, x, ran, by decide, here, socket, finished, wire, ?_⟩
  rw [session]
  decide +kernel

end Cherenkov
