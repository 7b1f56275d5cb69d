import Cherenkov.Hub.Course
import Cherenkov.Transport.Outbox

/-! The two socket carriers have a dispatcher each. Both are written out here, branch by branch, and
shown to be the same function: which hub call a frame leads to, and what is delivered for which
outcome. The loop of a connection then owes one reply for each frame that it has read, and the
replies it has put into the outbox of its session, with the one it has in hand, are those replies in
the order of the frames, whatever publications fall in between. -/

namespace Cherenkov

variable {κ β τ ε : Type}

/-- What a dispatcher makes of a frame: the hub call that it awaits, and what it delivers when
the call has returned. A call returns only the responses of its own kind. -/
structure Handling where
  call : Request
  reply : Except HubError Response → Option ServerFrame

namespace Ws

def handleFrame (sessionId : Nat) : ClientFrame → Handling
  | .subscribe sub =>
      { call := .subscribe ⟨sessionId, sub.requestId, sub.channel, sub.sinceOffset⟩
        reply := fun
          | .ok (.subscribeOk ok) => some (.subscribeOk ok)
          | .ok _ => none
          | .error err =>
              let code := errorCodeFor err
              some (.error ⟨sub.requestId, code.value, err.display⟩) }
  | .unsubscribe unsub =>
      { call := .unsubscribe ⟨sessionId, unsub.requestId, unsub.channel⟩
        reply := fun
          | .ok (.unsubscribeOk ok) => some (.unsubscribeOk ok)
          | .ok _ => none
          | .error err =>
              let code := errorCodeFor err
              some (.error ⟨unsub.requestId, code.value, err.display⟩) }
  | .publish p =>
      { call := .publish ⟨sessionId, p.channel, p.data⟩
        reply := fun
          | .ok _ => none
          | .error err =>
              let code := errorCodeFor err
              some (.error ⟨p.requestId, code.value, err.display⟩) }
  | .connect c =>
      { call := .connect ⟨sessionId, c.requestId, c.token⟩
        reply := fun
          | .ok (.connectOk ok) => some (.connectOk ok)
          | .ok _ => none
          | .error err =>
              let code := errorCodeFor err
              some (.error ⟨c.requestId, code.value, err.display⟩) }

end Ws

namespace Wt

def deliverError (requestId : Nat) (err : HubError) : ServerFrame :=
  let code : ErrorCode :=
    match err with
    | .schema _ => .validationFailed
    | .auth _ => .invalidToken
    | .acl _ => .aclDenied
    | .notConnected _ => .notConnected
    | _ => .internal
  .error ⟨requestId, code.value, err.display⟩

def dispatch (sessionId : Nat) : ClientFrame → Handling
  | .connect c =>
      { call := .connect ⟨sessionId, c.requestId, c.token⟩
        reply := fun
          | .ok (.connectOk ok) => some (.connectOk ok)
          | .ok _ => none
          | .error err => some (deliverError c.requestId err) }
  | .subscribe s =>
      { call := .subscribe ⟨sessionId, s.requestId, s.channel, s.sinceOffset⟩
        reply := fun
          | .ok (.subscribeOk ok) => some (.subscribeOk ok)
          | .ok _ => none
          | .error err => some (deliverError s.requestId err) }
  | .unsubscribe u =>
      { call := .unsubscribe ⟨sessionId, u.requestId, u.channel⟩
        reply := fun
          | .ok (.unsubscribeOk ok) => some (.unsubscribeOk ok)
          | .ok _ => none
          | .error err => some (deliverError u.requestId err) }
  | .publish p =>
      { call := .publish ⟨sessionId, p.channel, p.data⟩
        reply := fun
          | .ok _ => none
          | .error err => some (deliverError p.requestId err) }

end Wt

theorem deliverError_eq (requestId : Nat) (err : HubError) :
    Wt.deliverError requestId err = .error ⟨requestId, (errorCodeFor err).value, err.display⟩ := by
  cases err <;> rfl

theorem handleFrame_eq_dispatch (sessionId : Nat) (frame : ClientFrame) :
    Ws.handleFrame sessionId frame = Wt.dispatch sessionId frame := by
  cases frame <;> simp only [Ws.handleFrame, Wt.dispatch, deliverError_eq]

/-- The dispatcher of a carrier. -/
def Socket.dispatcher : Socket → Nat → ClientFrame → Handling
  | .ws => Ws.handleFrame
  | .wt => Wt.dispatch

theorem dispatcher_eq (socket : Socket) : socket.dispatcher = Ws.handleFrame := by
  cases socket with
  | ws => rfl
  | wt =>
      funext sessionId frame
      exact (handleFrame_eq_dispatch sessionId frame).symm

theorem dispatcher_call (socket : Socket) (sessionId : Nat) (frame : ClientFrame) :
    (socket.dispatcher sessionId frame).call = frame.request sessionId := by
  rw [dispatcher_eq]
  cases frame <;> rfl

/-- The answer belongs to the frame: the same kind, request and channel, and for a connect the
subject that the authenticator has found in the token. -/
def ClientFrame.Answers (H : Hub κ β τ ε) (frame : ClientFrame) :
    Except HubError Response → Prop
  | .error _ => True
  | .ok (.subscribeOk ok) =>
      ∃ a, frame = .subscribe a ∧ ok.requestId = a.requestId ∧ ok.channel = a.channel
  | .ok (.unsubscribeOk ok) =>
      ∃ a, frame = .unsubscribe a ∧ ok.requestId = a.requestId ∧ ok.channel = a.channel
  | .ok (.connectOk ok) =>
      ∃ a, frame = .connect a ∧ ok.requestId = a.requestId ∧
        ∃ env claims, H.gate.authenticate env a.token = .ok claims ∧ ok.subject = claims.subject
  | .ok (.published _) => ∃ a, frame = .publish a
  | .ok _ => False

/-- What is delivered for the frame belongs to it: nothing for a publication that was accepted,
and otherwise one frame, the matching one or an error. -/
def ClientFrame.Settles (H : Hub κ β τ ε) (frame : ClientFrame)
    (result : Except HubError Response) : Option ServerFrame → Prop
  | none => ∃ a p, frame = .publish a ∧ result = .ok (.published p)
  | some (.error e) => e.requestId = frame.requestId ∧ ∃ err, result = .error err
  | some (.subscribeOk ok) => result = .ok (.subscribeOk ok) ∧
      ∃ a, frame = .subscribe a ∧ ok.requestId = a.requestId ∧ ok.channel = a.channel
  | some (.unsubscribeOk ok) => result = .ok (.unsubscribeOk ok) ∧
      ∃ a, frame = .unsubscribe a ∧ ok.requestId = a.requestId ∧ ok.channel = a.channel
  | some (.connectOk ok) => result = .ok (.connectOk ok) ∧
      ∃ a, frame = .connect a ∧ ok.requestId = a.requestId ∧
        ∃ env claims, H.gate.authenticate env a.token = .ok claims ∧ ok.subject = claims.subject
  | some (.publication _) => False

/-- The call serves the frame, and past the authenticator it has the claims of the token. -/
structure Call.Handles (H : Hub κ β τ ε) (sessionId : Nat) (frame : ClientFrame) (c : Call τ) :
    Prop where
  serves : c.serves = some (frame.request sessionId)
  claims : ∀ a ref claims, c = .connectSet a ref claims →
    ∃ env, H.gate.authenticate env a.token = .ok claims

section Answers

variable {H : Hub κ β τ ε} {x : Shared κ β τ} {env : ε} {now sessionId : Nat} {c next : Call τ}
  {frame : ClientFrame} {result : Except HubError Response}

theorem entry_handles (frame : ClientFrame) :
    Call.Handles H sessionId frame (frame.request sessionId).entry := by
  refine ⟨?_, ?_⟩
  · cases frame <;> rfl
  · intro a ref claims same
    cases frame <;> cases same

theorem goes_handles (handles : c.Handles H sessionId frame) (goes : H.Goes x env now c next) :
    next.Handles H sessionId frame := by
  refine ⟨(goes_serves goes).trans handles.serves, ?_⟩
  rintro a ref claims rfl
  cases goes with
  | authenticated a ref accepts => exact ⟨env, accepts⟩

theorem ends_answers (handles : c.Handles H sessionId frame)
    (ends : H.Ends x env now c result) : frame.Answers H result := by
  have serves := handles.serves
  cases ends with
  | measured m len => cases serves
  | connected a ref claims =>
      obtain ⟨env, accepts⟩ := handles.claims a ref claims rfl
      cases frame <;> cases serves
      exact ⟨_, rfl, rfl, env, claims, accepts, rfl⟩
  | subscribed a ref cursor =>
      cases frame <;> cases serves
      exact ⟨_, rfl, rfl, rfl⟩
  | unsubscribed a ref accepts =>
      cases frame <;> cases serves
      exact ⟨_, rfl, rfl, rfl⟩
  | published a ref p takes =>
      cases frame <;> cases serves
      exact ⟨_, rfl⟩
  | unknown id absent => cases serves
  | removed who id absent => cases serves
  | _ => trivial

/-- For the answers that a frame can get, both dispatchers deliver what the loop delivers. -/
theorem dispatcher_reply (socket : Socket) (sessionId : Nat) (answers : frame.Answers H result) :
    (socket.dispatcher sessionId frame).reply result = frame.reply result := by
  rw [dispatcher_eq]
  cases result with
  | error e => cases frame <;> rfl
  | ok response =>
      cases response with
      | subscribeOk ok | unsubscribeOk ok | connectOk ok | published p =>
          obtain ⟨a, rfl, -⟩ := answers
          rfl
      | _ => cases answers

theorem reply_settles (answers : frame.Answers H result) :
    frame.Settles H result (frame.reply result) := by
  cases result with
  | error e => exact ⟨rfl, e, rfl⟩
  | ok response =>
      cases response with
      | subscribeOk ok | unsubscribeOk ok | connectOk ok => exact ⟨rfl, answers⟩
      | published p =>
          obtain ⟨a, rfl⟩ := answers
          exact ⟨a, p, rfl, rfl⟩
      | _ => cases answers

end Answers

/-- Something that the loop has read and reacts to: a frame, handled by a call of the hub, or
bytes that are none. -/
inductive Reading where
  | handled (call : Nat) (frame : ClientFrame)
  | garbage (message : String)

/-- What connection `c` reads in a transition. -/
def Sockets.reading (S : Sockets κ β τ ε) (c : Nat)
    (p : Machine.Transition (Net κ β τ) (NetLabel ε)) : Option Reading :=
  match p.label, p.before.peers c with
  | .loop i (.receive input), some (.connected x) =>
      if i = c then
        match S.receive x.socket input with
        | some (.handle frame) => some (.handled p.before.hub.nextCall frame)
        | some (.refuse message) => some (.garbage message)
        | _ => none
      else none
  | _, _ => none

namespace Reading

/-- The reply, once the call has returned. -/
def owed (reply : ClientFrame → Except HubError Response → Option ServerFrame)
    (s : State κ β τ) : Reading → Option ServerFrame
  | .handled call frame => (s.answer call).bind (reply frame)
  | .garbage message => some (errorFrame 0 .invalidFrame message)

def answered (s : State κ β τ) : Reading → Bool
  | .handled call _ => (s.answer call).isSome
  | .garbage _ => true

end Reading

namespace Stage

def current : Stage → Option Reading
  | .dispatching call frame => some (.handled call frame)
  | _ => none

def inHand : Stage → Option ServerFrame
  | .delivering reply _ | .sending _ reply _ => some reply
  | _ => none

end Stage

/-- Whenever a connection looks its session up, the registry has that session under its
identifier or, unless it is connection `c`, nothing; and the outbox is open when connection `c`
sends to it. -/
structure Attended (c : Nat) (s : Net κ β τ) (l : NetLabel ε) : Prop where
  registered : ∀ i x, l = .loop i .lookUp → s.peers i = some (.connected x) →
    s.hub.shared.registry.get (s.hub.shared.heap x.session).id = some x.session ∨
      i ≠ c ∧ s.hub.shared.registry.get (s.hub.shared.heap x.session).id = none
  writable : ∀ x, l = .loop c .send → s.peers c = some (.connected x) →
    (s.hub.shared.heap x.session).outbox.closed = false

def replies (ref : Nat) (p : Machine.Transition (Net κ β τ) (NetLabel ε)) : List ServerFrame :=
  (posts ref p).filter ServerFrame.isReply

/-- All that was read is answered but for the frame at hand, and the replies sent, with the one
in hand, are those owed for it, in order. -/
structure Accounts (reply : ClientFrame → Except HubError Response → Option ServerFrame)
    (s : State κ β τ) (stage : Stage) (read : List Reading) (sent : List ServerFrame)
    (settled : List Reading) : Prop where
  read : read = settled ++ stage.current.toList
  answered : ∀ r ∈ settled, r.answered s = true
  order : sent ++ stage.inHand.toList = settled.filterMap (Reading.owed reply s)

section Law

variable {S : Sockets κ β τ ε} {s t : Net κ β τ} {hub : State κ β τ} {c : Nat}
  {ls : List (Label ε)} {sent : List ServerFrame} {read settled : List Reading}

theorem Accounts.kept {s t : State κ β τ} {stage : Stage}
    (accounts : Accounts ClientFrame.reply s stage read sent settled)
    (answer : ∀ n result, s.answer n = some result → t.answer n = some result) :
    Accounts ClientFrame.reply t stage read sent settled := by
  have same : ∀ r ∈ settled, r.answered t = true ∧
      Reading.owed ClientFrame.reply t r = Reading.owed ClientFrame.reply s r := by
    intro r member
    cases r with
    | garbage message => exact ⟨rfl, rfl⟩
    | handled call frame =>
        obtain ⟨result, known⟩ := Option.isSome_iff_exists.mp (accounts.answered _ member)
        have later := answer call result known
        refine ⟨?_, ?_⟩
        · rw [Reading.answered, later]
          rfl
        · rw [Reading.owed, Reading.owed, later, known]
  refine ⟨accounts.read, fun r member => (same r member).1, accounts.order.trans ?_⟩
  exact (List.filterMap_congr fun r member => (same r member).2).symm

theorem accounts_fresh (s : State κ β τ) : Accounts ClientFrame.reply s .looping [] [] [] :=
  ⟨rfl, fun _ => nofun, rfl⟩

theorem Accounts.idle {s : State κ β τ} {stage stage' : Stage}
    (accounts : Accounts ClientFrame.reply s stage read sent settled)
    (current : stage'.current = stage.current) (inHand : stage'.inHand = stage.inHand) :
    Accounts ClientFrame.reply s stage' read sent settled := by
  refine ⟨?_, accounts.answered, ?_⟩
  · rw [current]
    exact accounts.read
  · rw [inHand]
    exact accounts.order

theorem Accounts.settle {s : State κ β τ} {stage stage' : Stage} {r : Reading}
    (accounts : Accounts ClientFrame.reply s stage read sent settled) (empty : stage.inHand = none)
    (rest : stage'.current = none) (answered : r.answered s = true)
    (owed : stage'.inHand = r.owed ClientFrame.reply s) :
    Accounts ClientFrame.reply s stage' (settled ++ [r]) sent (settled ++ [r]) := by
  have order := accounts.order
  rw [empty, Option.toList_none, List.append_nil] at order
  refine ⟨?_, ?_, ?_⟩
  · rw [rest, Option.toList_none, List.append_nil]
  · intro r' member
    rcases List.mem_append.mp member with old | new
    · exact accounts.answered r' old
    · exact List.mem_singleton.mp new ▸ answered
  · rw [List.filterMap_append, ← order, owed]
    cases known : r.owed ClientFrame.reply s with
    | none => simp [known]
    | some reply => simp [known]

theorem reading_of_move {move : LoopMove} {t : Net κ β τ} (other : ∀ input, move ≠ .receive input) :
    S.reading c ⟨s, .loop c move, t⟩ = none := by
  cases move with
  | receive input => exact absurd rfl (other input)
  | _ => rfl

theorem reading_others {l : NetLabel ε} {t : Net κ β τ} (others : ∀ move, l ≠ .loop c move) :
    S.reading c ⟨s, l, t⟩ = none := by
  simp only [Sockets.reading]
  split
  · next i input x here =>
      refine if_neg ?_
      rintro rfl
      exact others _ rfl
  · rfl

theorem reading_connected {p : Machine.Transition (Net κ β τ) (NetLabel ε)} {r : Reading}
    (reads : S.reading c p = some r) : ∃ x, p.before.peers c = some (.connected x) := by
  simp only [Sockets.reading] at reads
  split at reads
  · next i input x label here => exact ⟨x, here⟩
  · cases reads

theorem replies_same {ref : Nat} {l : NetLabel ε}
    (same : t.hub.shared.outboxes ref = s.hub.shared.outboxes ref) :
    replies ref ⟨s, l, t⟩ = [] := by
  rw [replies, posts_same same, List.filter_nil]

theorem replies_sent {r : Nat} {reply : ServerFrame} {l : NetLabel ε}
    (open_ : (s.hub.shared.heap r).outbox.closed = false)
    (sends : S.hub.step s.hub (.send r reply) = some t.hub) :
    replies r ⟨s, l, t⟩ = [reply] := by
  have outboxes := congrFun (transport_outboxes sends rfl) r
  simp only [Hub.step] at sends
  split at sends
  · cases sends
  · next shut =>
      rw [Outbox.send_closed shut] at open_
      cases open_
  · next outbox room =>
      split at sends
      · next isReply =>
          have sent : (s.hub.shared.outboxes r).send reply = .sent outbox := room
          simp only [State.outboxesAfter, Shared.posted, sent, Function.update_self] at outboxes
          rw [replies, posts_sent (outboxes ▸ sent), List.filter_singleton, isReply]
          rfl
      · cases sends

/-- One move of the loop keeps the account. -/
theorem plan_accounts {x x' : Connection} {move : LoopMove} {l : NetLabel ε}
    (label : l = .loop c move)
    (accounts : Accounts ClientFrame.reply t.hub x.stage read sent settled)
    (plans : S.plan s.hub c x move = some (ls, x')) (ran : S.hub.machine.exec s.hub ls = some t.hub)
    (here : s.peers c = some (.connected x)) (log : t.hub.log = s.hub.log)
    (own : ∀ r reply last, x.stage = .sending r reply last → r = x.session)
    (attended : Attended c s l) :
    ∃ settled', Accounts ClientFrame.reply t.hub x'.stage (read ++ (S.reading c ⟨s, l, t⟩).toList)
      (sent ++ replies x.session ⟨s, l, t⟩) settled' := by
  subst label
  have answer : ∀ n, t.hub.answer n = s.hub.answer n := fun n => by rw [State.answer, log]; rfl
  have unread : (∀ input, move ≠ .receive input) →
      read ++ (S.reading c ⟨s, .loop c move, t⟩).toList = read := by
    intro other
    rw [reading_of_move other]
    exact List.append_nil _
  by_cases sends : move = .send
  · subst sends
    rw [unread (by rintro input ⟨⟩)]
    simp only [Sockets.plan] at plans
    split at plans
    · next r reply last stage =>
        cases plans
        obtain ⟨u, stepped, done⟩ := Option.bind_eq_some_iff.mp ran
        cases done
        cases own r reply last stage
        rw [replies_sent (S := S) (attended.writable x rfl here) stepped]
        refine ⟨settled, ?_, accounts.answered, ?_⟩
        · have read := accounts.read
          rw [stage] at read
          cases last <;> exact read
        · have order := accounts.order
          rw [stage] at order
          rw [← order]
          cases last <;> exact List.append_nil _
    · cases plans
  · have unsent : replies (ε := ε) x.session ⟨s, .loop c move, t⟩ = [] := by
      rcases plan_outboxes plans ran with same | ⟨_, _, _, -, send, -⟩
      · exact replies_same (congrFun same x.session)
      · exact absurd send sends
    rw [unsent, List.append_nil]
    cases move with
    | opened => cases plans
    | send => exact absurd rfl sends
    | receive input =>
        simp only [Sockets.plan] at plans
        split at plans
        · next stage =>
            rw [stage] at accounts
            have all : settled = read := (accounts.read.trans (List.append_nil _)).symm
            subst all
            split at plans
            · cases plans
            · simp only [Sockets.reading, here, if_true]
              split at plans
              · cases plans
              · next verdict =>
                  cases plans
                  rw [verdict, Option.toList_none, List.append_nil]
                  exact ⟨settled, accounts.idle rfl rfl⟩
              · next verdict =>
                  cases plans
                  rw [verdict, Option.toList_none, List.append_nil]
                  exact ⟨settled, accounts.idle rfl rfl⟩
              · next message verdict =>
                  cases plans
                  rw [verdict]
                  exact ⟨settled ++ [.garbage message], accounts.settle rfl rfl rfl rfl⟩
              · next frame verdict =>
                  cases plans
                  rw [verdict]
                  exact ⟨settled, rfl, accounts.answered, accounts.order⟩
        · cases plans
    | answered =>
        rw [unread (by rintro input ⟨⟩)]
        simp only [Sockets.plan] at plans
        split at plans
        · next call frame stage =>
            split at plans
            · cases plans
            · next result known =>
                rw [stage] at accounts
                rw [accounts.read]
                have later := (answer call).trans known
                have answered : (Reading.handled call frame).answered t.hub = true := by
                  rw [Reading.answered, later]
                  rfl
                have owed : (Reading.handled call frame).owed ClientFrame.reply t.hub =
                    frame.reply result := by
                  rw [Reading.owed, later]
                  rfl
                split at plans
                · next silent =>
                    cases plans
                    exact ⟨_, accounts.settle rfl rfl answered (owed.trans silent).symm⟩
                · next reply replies =>
                    cases plans
                    exact ⟨_, accounts.settle rfl rfl answered (owed.trans replies).symm⟩
        · cases plans
    | lookUp =>
        rw [unread (by rintro input ⟨⟩)]
        simp only [Sockets.plan] at plans
        split at plans
        · next reply last stage =>
            split at plans
            · next absent =>
                rcases attended.registered c x rfl here with found | ⟨other, -⟩
                · rw [absent] at found
                  cases found
                · exact absurd rfl other
            · cases plans
              exact ⟨settled, accounts.idle (by rw [stage]; rfl) (by rw [stage]; rfl)⟩
        · cases plans
    | select | close =>
        rw [unread (by rintro input ⟨⟩)]
        simp only [Sockets.plan] at plans
        split at plans
        · next stage =>
            cases plans
            exact ⟨settled, accounts.idle (by rw [stage]; rfl) (by rw [stage]; rfl)⟩
        · cases plans
    | writerEnded | shutdown | closed =>
        rw [unread (by rintro input ⟨⟩)]
        simp only [Sockets.plan] at plans
        split at plans
        · next stage =>
            split at plans <;> cases plans
            exact ⟨settled, accounts.idle (by rw [stage]; rfl) (by rw [stage]; rfl)⟩
        · cases plans

theorem step_replies (own : ∀ i x r reply last, s.peers i = some (.connected x) →
      x.stage = .sending r reply last → r = x.session)
    {l : NetLabel ε} (h : S.step s l = some t) (ref : Nat) :
    replies ref ⟨s, l, t⟩ = [] ∨
      ∃ i x, l = .loop i .send ∧ s.peers i = some (.connected x) ∧ x.session = ref := by
  cases Sockets.stepped h with
  | hub core stepped =>
      refine .inl ?_
      rcases core_outbox stepped core ref with (same | ⟨p, room⟩) | ⟨-, -, empty, -⟩
      · exact replies_same same
      · rw [replies, posts_sent room]
        rfl
      · rw [replies, posts, empty, List.drop_nil]
        rfl
  | accept started =>
      exact .inl (replies_same (congrFun (still_outboxes started rfl) ref))
  | opened here answer => exact .inl (replies_same rfl)
  | @loop c move x x' ls hub here plans ran =>
      rcases plan_outboxes plans ran with same | ⟨r, reply, last, stage, rfl, rfl⟩
      · exact .inl (replies_same (congrFun same ref))
      · cases own c x r reply last here stage
        by_cases mine : x.session = ref
        · exact .inr ⟨c, x, rfl, here, mine⟩
        · obtain ⟨u, stepped, done⟩ := Option.bind_eq_some_iff.mp ran
          cases done
          have sends : S.hub.step s.hub (.send x.session reply) = some hub := stepped
          have outboxes := congrFun (transport_outboxes sends rfl) ref
          exact .inl (replies_same (outboxes.trans (posted_others _ reply (Ne.symm mine))))
  | writer here writes ran =>
      refine .inl ?_
      rw [replies, posts_shorter ((wrote writes ran).shorter ref)]
      rfl

theorem exec_answer {s t : State κ β τ} {H : Hub κ β τ ε} (staged : s.Staged)
    (ran : H.machine.exec s ls = some t) {n : Nat} {result : Except HubError Response}
    (answered : s.answer n = some result) : t.answer n = some result := by
  have both : t.Staged ∧ t.answer n = some result := by
    refine Machine.exec_invariant (P := fun _ => True)
      (I := fun u => u.Staged ∧ u.answer n = some result) ?_ ⟨staged, answered⟩
      (fun _ _ => trivial) ran
    rintro u l v ⟨staged, answered⟩ - stepped
    have step : H.step u l = some v := stepped
    exact ⟨step_staged staged step, step_answer staged step answered⟩
  exact both.2

theorem reading_handled {l : NetLabel ε} {call : Nat} {frame : ClientFrame}
    (reads : S.reading c ⟨s, l, t⟩ = some (.handled call frame)) :
    ∃ input x, l = .loop c (.receive input) ∧ s.peers c = some (.connected x) ∧
      S.receive x.socket input = some (.handle frame) ∧ call = s.hub.nextCall := by
  simp only [Sockets.reading] at reads
  split at reads
  · next i input x here =>
      split at reads
      · next mine =>
          split at reads
          · next frame' verdict =>
              cases reads
              exact ⟨input, x, by rw [mine], here, verdict, rfl⟩
          · cases reads
          · cases reads
      · cases reads
  · cases reads

theorem plan_receive {s : State κ β τ} {x x' : Connection} {input : Incoming} {frame : ClientFrame}
    (plans : S.plan s c x (.receive input) = some (ls, x'))
    (verdict : S.receive x.socket input = some (.handle frame)) :
    ls = [.unlisten x.session c, .start (frame.request (s.shared.heap x.session).id)] := by
  simp only [Sockets.plan, verdict] at plans
  split at plans
  · split at plans <;> cases plans
    rfl
  · cases plans

/-- The call that is made for a frame starts as the frame says. -/
theorem step_handles (tracked : s.hub.Tracked) {l : NetLabel ε} (h : S.step s l = some t)
    {call : Nat} {frame : ClientFrame} (reads : S.reading c ⟨s, l, t⟩ = some (.handled call frame)) :
    ∃ x, s.peers c = some (.connected x) ∧ s.hub.calls call = none ∧
      t.hub.calls call = some (frame.request (s.hub.shared.heap x.session).id).entry ∧
      t.hub.Course call (Call.Handles S.hub (s.hub.shared.heap x.session).id frame)
        (frame.Answers S.hub) := by
  obtain ⟨input, x, rfl, here, verdict, rfl⟩ := reading_handled reads
  refine ⟨x, here, ?_, ?_⟩
  · cases found : s.hub.calls s.hub.nextCall with
    | none => rfl
    | some d => exact absurd (tracked.staged.calls _ d found) (Nat.lt_irrefl _)
  · cases Sockets.stepped h with
    | @loop c move y y' ls hub there plans ran =>
        cases here.symm.trans there
        cases plan_receive plans verdict
        obtain ⟨u, forgets, rest⟩ := Option.bind_eq_some_iff.mp ran
        obtain ⟨v, starts, done⟩ := Option.bind_eq_some_iff.mp rest
        cases done
        have unlisten : S.hub.step s.hub (.unlisten x.session c) = some u := forgets
        have staged := step_staged tracked.staged unlisten
        cases unlisten
        have course := start_course (H := S.hub) (R := frame.Answers S.hub) staged
          (entry_handles (H := S.hub) frame) starts
        cases starts
        exact ⟨Function.update_self .., course⟩

/-- The state of the connections after the transitions of a run, and of connection `c` in
particular. -/
structure Ledger (S : Sockets κ β τ ε) (c : Nat)
    (past : List (Machine.Transition (Net κ β τ) (NetLabel ε))) (s : Net κ β τ) : Prop where
  separate : s.Separate
  sending : ∀ i x r reply last, s.peers i = some (.connected x) →
    x.stage = .sending r reply last → r = x.session
  unserved : ∀ ref, (∀ i x, s.peers i = some (.connected x) → x.session ≠ ref) →
    past.flatMap (replies ref) = []
  traced : ∀ p ∈ past, ∀ y, p.before.peers c = some (.connected y) →
    ∃ x, s.peers c = some (.connected x) ∧ x.socket = y.socket ∧ x.session = y.session
  account : ∀ x, s.peers c = some (.connected x) → ∃ settled, Accounts ClientFrame.reply s.hub
    x.stage (past.filterMap (S.reading c)) (past.flatMap (replies x.session)) settled
  called : ∀ p ∈ past, ∀ call frame y, S.reading c p = some (.handled call frame) →
    p.before.peers c = some (.connected y) → p.before.hub.calls call = none ∧
      p.after.hub.calls call = some (frame.request (p.before.hub.shared.heap y.session).id).entry
  course : ∀ call frame, .handled call frame ∈ past.filterMap (S.reading c) →
    ∃ sessionId, s.hub.Course call (Call.Handles S.hub sessionId frame) (frame.Answers S.hub)

theorem plan_sending {s : State κ β τ} {x x' : Connection} {move : LoopMove}
    (plans : S.plan s c x move = some (ls, x')) {r : Nat} {reply : ServerFrame} {last : Bool}
    (sending : x'.stage = .sending r reply last) :
    move = .lookUp ∧ s.shared.registry.get (s.shared.heap x.session).id = some r := by
  cases move with
  | lookUp =>
      simp only [Sockets.plan] at plans
      split at plans
      · next reply' last' stage =>
          split at plans
          · cases plans
            cases last' <;> cases sending
          · next found =>
              cases plans
              cases sending
              exact ⟨rfl, found⟩
      · cases plans
  | send =>
      simp only [Sockets.plan] at plans
      split at plans
      · next last' _ =>
          cases plans
          cases last' <;> cases sending
      · cases plans
  | _ =>
      simp only [Sockets.plan] at plans
      (repeat' split at plans) <;> cases plans <;> cases sending

variable {past : List (Machine.Transition (Net κ β τ) (NetLabel ε))} {l : NetLabel ε}

theorem Ledger.sending_after (g : Ledger S c past s) (attended : Attended c s l)
    (h : S.step s l = some t) {i : Nat} {x : Connection} {r : Nat} {reply : ServerFrame}
    {last : Bool} (there : t.peers i = some (.connected x))
    (sending : x.stage = .sending r reply last) : r = x.session := by
  by_cases old : ∃ y, s.peers i = some (.connected y)
  · obtain ⟨y, here⟩ := old
    obtain ⟨x', there', -, session, still⟩ := step_connected g.separate.counted h here
    cases there.symm.trans there'
    by_cases mine : ∃ move, l = .loop i move
    · obtain ⟨move, rfl⟩ := mine
      cases Sockets.stepped h with
      | opened opening answer => cases here.symm.trans opening
      | loop here' plans ran =>
          cases here.symm.trans here'
          cases there.symm.trans (Function.update_self i _ s.peers)
          obtain ⟨rfl, found⟩ := plan_sending plans sending
          rcases attended.registered i y rfl here with own | ⟨-, absent⟩
          · cases found.symm.trans own
            exact session.symm
          · rw [absent] at found
            cases found
    · have stage := still fun move same => mine ⟨move, same⟩
      exact (g.sending i y r reply last here (stage ▸ sending)).trans session.symm
  · obtain ⟨-, _, _, -, -, made⟩ := step_connected_new h there fun y here => old ⟨y, here⟩
    rw [made] at sending
    cases sending

theorem Ledger.unserved_after (g : Ledger S c past s) (h : S.step s l = some t) {ref : Nat}
    (unserved : ∀ i x, t.peers i = some (.connected x) → x.session ≠ ref) :
    (past ++ [Machine.Transition.mk s l t]).flatMap (replies ref) = [] := by
  have before : ∀ i x, s.peers i = some (.connected x) → x.session ≠ ref := by
    intro i x here
    obtain ⟨x', there, -, session, -⟩ := step_connected g.separate.counted h here
    exact session ▸ unserved i x' there
  rw [List.flatMap_append, g.unserved ref before, List.flatMap_singleton, List.nil_append]
  rcases step_replies g.sending h ref with none_ | ⟨i, x, -, here, served⟩
  · exact none_
  · exact absurd served (before i x here)

theorem Ledger.account_after (g : Ledger S c past s) (attended : Attended c s l)
    (h : S.step s l = some t) {x : Connection} (there : t.peers c = some (.connected x)) :
    ∃ settled, Accounts ClientFrame.reply t.hub x.stage
      ((past ++ [Machine.Transition.mk s l t]).filterMap (S.reading c))
      ((past ++ [Machine.Transition.mk s l t]).flatMap (replies x.session)) settled := by
  have snoc : [Machine.Transition.mk s l t].filterMap (S.reading c) =
      (S.reading c ⟨s, l, t⟩).toList := by
    cases known : S.reading c ⟨s, l, t⟩ <;> simp [known]
  rw [List.filterMap_append, List.flatMap_append, List.flatMap_singleton, snoc]
  by_cases old : ∃ y, s.peers c = some (.connected y)
  · obtain ⟨y, here⟩ := old
    obtain ⟨x', there', -, session, still⟩ := step_connected g.separate.counted h here
    cases there.symm.trans there'
    obtain ⟨settled, accounts⟩ := g.account y here
    obtain ⟨ls, ran⟩ := step_exec h
    have kept := accounts.kept fun n result => exec_answer g.separate.tracked.staged ran
    rw [session]
    by_cases mine : ∃ move, l = .loop c move
    · obtain ⟨move, rfl⟩ := mine
      cases Sockets.stepped h with
      | opened opening answer => cases here.symm.trans opening
      | loop here' plans moved =>
          cases here.symm.trans here'
          cases there.symm.trans (Function.update_self c _ s.peers)
          have log := (exec_touched moved (planned plans).mine).log
          exact plan_accounts rfl kept plans moved here log
            (fun r reply last => g.sending c y r reply last here) attended
    · have others : ∀ move, l ≠ .loop c move := fun move same => mine ⟨move, same⟩
      have unsent : replies y.session ⟨s, l, t⟩ = [] := by
        rcases step_replies g.sending h y.session with none_ | ⟨i, z, label, sender, served⟩
        · exact none_
        · have same := g.separate.apart i c _ _ y.session sender here served rfl
          exact absurd ⟨.send, same ▸ label⟩ mine
      rw [reading_others others, unsent, Option.toList_none, List.append_nil, List.append_nil,
        still others]
      exact ⟨settled, kept⟩
  · obtain ⟨rfl, socket, call, opening, opens, made⟩ :=
      step_connected_new h there fun y here => old ⟨y, here⟩
    have unread : past.filterMap (S.reading c) = [] := by
      rw [List.filterMap_eq_nil_iff]
      intro p member
      cases known : S.reading c p with
      | none => rfl
      | some r =>
          obtain ⟨y, before⟩ := reading_connected known
          obtain ⟨y', here, -⟩ := g.traced p member y before
          exact absurd ⟨y', here⟩ old
    have unserved : past.flatMap (replies x.session) = [] :=
      g.unserved x.session (g.separate.unserved opening opens)
    have unsent : replies (ε := ε) x.session ⟨s, .loop c .opened, t⟩ = [] := by
      rcases step_replies g.sending h x.session with none_ | ⟨_, _, label, -⟩
      · exact none_
      · cases label
    rw [unread, unserved, unsent, made]
    exact ⟨[], accounts_fresh t.hub⟩

theorem step_ledger (g : Ledger S c past s) (attended : Attended c s l) (h : S.step s l = some t) :
    Ledger S c (past ++ [⟨s, l, t⟩]) t := by
  have counted := g.separate.counted
  constructor
  · exact step_separate g.separate h
  · intro i x r reply last there sending
    exact g.sending_after attended h there sending
  · intro ref unserved
    exact g.unserved_after h unserved
  · intro p member y before
    rcases List.mem_append.mp member with old | new
    · obtain ⟨x, here, socket, session⟩ := g.traced p old y before
      obtain ⟨x', there, socket', session', -⟩ := step_connected counted h here
      exact ⟨x', there, socket'.trans socket, session'.trans session⟩
    · cases List.mem_singleton.mp new
      obtain ⟨x', there, socket, session, -⟩ := step_connected counted h before
      exact ⟨x', there, socket, session⟩
  · intro x there
    exact g.account_after attended h there
  · intro p member call frame y reads before
    rcases List.mem_append.mp member with old | new
    · exact g.called p old call frame y reads before
    · cases List.mem_singleton.mp new
      obtain ⟨x, here, free, made, -⟩ := step_handles g.separate.tracked h reads
      cases here.symm.trans before
      exact ⟨free, made⟩
  · intro call frame member
    rw [List.filterMap_append] at member
    rcases List.mem_append.mp member with old | new
    · obtain ⟨sessionId, course⟩ := g.course call frame old
      obtain ⟨ls, ran⟩ := step_exec h
      refine ⟨sessionId, ?_⟩
      refine Machine.exec_invariant (P := fun _ => True)
        (I := fun u => u.Course call (Call.Handles S.hub sessionId frame) (frame.Answers S.hub))
        ?_ course (fun _ _ => trivial) ran
      intro u k v course _ stepped
      exact step_course (H := S.hub) (fun _ _ _ _ _ => goes_handles) (fun _ _ _ _ _ => ends_answers)
        course stepped
    · obtain ⟨p, single, reads⟩ := List.mem_filterMap.mp new
      cases List.mem_singleton.mp single
      obtain ⟨x, -, -, -, course⟩ := step_handles g.separate.tracked h reads
      exact ⟨_, course⟩

theorem boot_ledger (S : Sockets κ β τ ε) (c : Nat) (kinds : Nat → κ) (broker : β) :
    Ledger S c [] (Sockets.boot (State.initial kinds broker)) := by
  constructor
  · exact boot_separate kinds broker
  · intro i x r reply last here
    cases here
  · intro ref unserved
    rfl
  · intro p member
    cases member
  · intro x here
    cases here
  · intro p member
    cases member
  · intro call frame member
    cases member

end Law

/-- Connection `x` has answered what it has read, in order, and its dispatcher accounts for the
calls and the replies. -/
structure Replied (S : Sockets κ β τ ε) (c : Nat)
    (path : List (Machine.Transition (Net κ β τ) (NetLabel ε))) (t : Net κ β τ)
    (x : Connection) : Prop where
  order : ∃ settled, Accounts
    (fun frame => (x.socket.dispatcher (t.hub.shared.heap x.session).id frame).reply) t.hub x.stage
    (path.filterMap (S.reading c)) (path.flatMap (replies x.session)) settled
  replies : ∀ call frame result, .handled call frame ∈ path.filterMap (S.reading c) →
    t.hub.answer call = some result → frame.Settles S.hub result
      ((x.socket.dispatcher (t.hub.shared.heap x.session).id frame).reply result)
  calls : ∀ p ∈ path, ∀ call frame, S.reading c p = some (.handled call frame) →
    p.before.hub.calls call = none ∧ p.after.hub.calls call =
      some (x.socket.dispatcher (p.before.hub.shared.heap x.session).id frame).call.entry

/-- The two dispatchers are the same function, and in every run in which the connection finds
its session registered and its outbox open, the replies in the outbox are those owed for the
frames read, in their order. -/
theorem replies_in_order {S : Sockets κ β τ ε} {kinds : Nat → κ} {broker : β} {c : Nat}
    {ls : List (NetLabel ε)} {t : Net κ β τ} {x : Connection}
    (within : S.machine.Along (Attended c) (Sockets.boot (State.initial kinds broker)) ls)
    (ran : S.machine.exec (Sockets.boot (State.initial kinds broker)) ls = some t)
    (here : t.peers c = some (.connected x)) :
    Ws.handleFrame = Wt.dispatch ∧
      Replied S c (S.machine.path (Sockets.boot (State.initial kinds broker)) ls) t x := by
  have g : Ledger S c ([] ++ S.machine.path (Sockets.boot (State.initial kinds broker)) ls) t :=
    Machine.path_invariant (fun _ _ _ _ g attended h => step_ledger g attended h)
      (boot_ledger S c kinds broker) within ran
  rw [List.nil_append] at g
  have answers : ∀ call frame result, .handled call frame ∈
      (S.machine.path (Sockets.boot (State.initial kinds broker)) ls).filterMap (S.reading c) →
      t.hub.answer call = some result → frame.Answers S.hub result := by
    intro call frame result member answer
    obtain ⟨_, course⟩ := g.course call frame member
    exact course.answered result (answer_logged answer)
  refine ⟨funext fun id => funext (handleFrame_eq_dispatch id), ?_, ?_, ?_⟩
  · obtain ⟨settled, accounts⟩ := g.account x here
    refine ⟨settled, accounts.read, accounts.answered, accounts.order.trans ?_⟩
    refine List.filterMap_congr fun r member => ?_
    cases r with
    | garbage message => rfl
    | handled call frame =>
        have read := accounts.read ▸ List.mem_append_left x.stage.current.toList member
        simp only [Reading.owed]
        cases answer : t.hub.answer call with
        | none => rfl
        | some result =>
            exact (dispatcher_reply x.socket _ (answers call frame result read answer)).symm
  · intro call frame result member answer
    have fits := answers call frame result member answer
    rw [dispatcher_reply x.socket _ fits]
    exact reply_settles fits
  · intro p member call frame reads
    obtain ⟨y, before⟩ := reading_connected reads
    obtain ⟨x', there, -, session⟩ := g.traced p member y before
    cases here.symm.trans there
    rw [dispatcher_call, session]
    exact g.called p member call frame y reads before

def attended (c : Nat) (s : Net κ β τ) : NetLabel ε → Bool
  | .loop i .lookUp =>
      match s.peers i with
      | some (.connected x) =>
          let found := s.hub.shared.registry.get (s.hub.shared.heap x.session).id
          found == some x.session || i != c && found == none
      | _ => true
  | .loop i .send =>
      match s.peers i with
      | some (.connected x) => i != c || !(s.hub.shared.heap x.session).outbox.closed
      | _ => true
  | _ => true

theorem attended_sound (c : Nat) (s : Net κ β τ) (l : NetLabel ε) (h : attended c s l = true) :
    Attended c s l := by
  constructor
  · rintro i x rfl here
    simpa [attended, here] using h
  · rintro x rfl here
    simpa [attended, here] using h

def Socket.asks (socket : Socket) (frame : ClientFrame) (n k : Nat) : List (NetLabel Unit) :=
  .loop 0 (.receive (socket.yields frame)) :: List.replicate k (.hub (.advance n () 0))

def repliesSent : List (NetLabel Unit) :=
  [.loop 0 .answered, .loop 0 .lookUp, .loop 0 .send, .loop 0 .select]

/-- The forwarder of call 1 delivers a publication while the loop goes on without a reply. -/
def publicationDelivered : List (NetLabel Unit) :=
  [.hub (.forward 1 .wake), .hub (.forward 1 .poll), .hub (.forward 1 .poll), .loop 0 .answered,
    .loop 0 .select]

/-- A subscribe, a publish that comes back as a publication, and an unsubscribe from a channel
that is not subscribed. -/
def conversation (socket : Socket) : List (NetLabel Unit) :=
  connectionWaits socket ++ socket.asks (.subscribe ⟨7, "rooms.lobby", 0⟩) 1 9 ++ repliesSent ++
    socket.asks (.publish ⟨8, "rooms.lobby", [7]⟩) 2 6 ++ publicationDelivered ++
    socket.asks (.unsubscribe ⟨9, "rooms.attic"⟩) 3 2 ++ repliesSent

theorem replies_in_order_lobby :
    ∃ t x, carriers.machine.Along (Attended 0) (Sockets.boot defaults.boot) (conversation .wt) ∧
      carriers.machine.exec (Sockets.boot defaults.boot) (conversation .wt) = some t ∧
      t.peers 0 = some (.connected x) ∧ x.socket = .wt ∧ x.stage = .selecting ∧
      (carriers.machine.path (Sockets.boot defaults.boot) (conversation .wt)).flatMap (replies 0) =
        [.subscribeOk ⟨7, "rooms.lobby", 1, 0⟩,
          .error ⟨9, 4, "session 0 is not subscribed to `rooms.attic`"⟩] ∧
      Replied carriers 0
        (carriers.machine.path (Sockets.boot defaults.boot) (conversation .wt)) t x := by
  have talked : (carriers.machine.execWithin (attended 0) (Sockets.boot defaults.boot)
      (conversation .wt)).any (fun t => (t.peers 0).any (Peer.selects .wt 0)) = true := by
    decide +kernel
  obtain ⟨t, within, selects⟩ := Option.any_eq_true _ _ |>.mp talked
  obtain ⟨x, here, socket, session, waits⟩ := Peer.of_selects selects
  obtain ⟨ran, along⟩ := Machine.execWithin_along (I := fun _ => True)
    (fun s l _ => attended_sound 0 s l) (fun _ _ _ _ _ _ => trivial) trivial within
  refine ⟨t, x, along, ran, here, socket, waits, ?_, (replies_in_order along ran here).2⟩
  decide +kernel

end Cherenkov
