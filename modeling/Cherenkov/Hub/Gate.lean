import Cherenkov.Library.Machine
import Cherenkov.Hub.Steps

/-! For any kinds, any broker and any plugins, every plugin, kind and broker call in the history of
a hub is justified by an earlier check. Claims come from a successful `authenticate` or are the
anonymous ones, an ACL check is made with such claims, and everything after `enforce_acl` follows a
check that answered `Allow`. -/

namespace Cherenkov

open History

variable {κ β τ ε : Type}

/-- The claims came from a successful `authenticate` of this session, or are the
anonymous ones of a hub that allows them. -/
def Claimed (anonymous : Bool) (log : List Event) (ref : Nat) (claims : SessionClaims) : Prop :=
  (∃ n token, .authenticated n ref token (.ok claims) ∈ log) ∨
    (anonymous = true ∧ claims = .anonymous)

def Allowed (log : List Event) (n ref : Nat) (action : AclAction) (channel : String) : Prop :=
  ∃ claims, .checked n ref claims action channel (.ok .allow) ∈ log

def Opened (log : List Event) (n ref : Nat) (channel : String) : Prop :=
  .brokerSubscribe n ref channel true ∈ log

/-- What must already be in the history when an event is logged. -/
def Grounds (anonymous : Bool) (past : List Event) : Event → Prop
  | .checked _ ref claims _ _ _ => Claimed anonymous past ref claims
  | .validated n ref channel _ _ => Allowed past n ref .publish channel
  | .onSubscribe n ref channel _ | .brokerSubscribe n ref channel _
  | .replaySince n ref channel _ _ => Allowed past n ref .subscribe channel
  | .onUnsubscribe _ ref channel _ => ∃ m, Allowed past m ref .subscribe channel
  | .onPublish n ref channel data _ => .validated n ref channel data (.ok ()) ∈ past
  | .brokerPublish n ref channel p _ => ∃ data, .onPublish n ref channel data (.ok p) ∈ past
  | .enqueued n ref _ _ => ∃ channel, Opened past n ref channel
  | .authenticated _ _ _ _ | .lagged _ _ | .removed _ _ | .returned _ _ => True

/-- What the history holds for a call at its program counter. -/
def Call.Grounded (anonymous : Bool) (log : List Event) (n : Nat) : Call τ → Prop
  | .connectSet _ ref claims | .enforceAcl _ ref claims => Claimed anonymous log ref claims
  | .seedClaims _ _ => anonymous = true
  | .subscribeHas a ref | .subscribeKind a ref | .subscribeBroker a ref _
  | .subscribeStray a ref | .subscribeUnwind a ref _ _ => Allowed log n ref .subscribe a.channel
  | .subscribeReplay a ref _ _ | .subscribeSend a ref _ _ _ | .subscribeSpawn a ref _ _
  | .subscribeInsert a ref _ | .subscribeIndex a ref _ => Opened log n ref a.channel
  | .unsubscribeAbort a ref _ | .unsubscribeScrub a ref | .unsubscribeReap a ref
  | .unsubscribeKind a ref => ∃ m, Allowed log m ref .subscribe a.channel
  | .publishValidate a ref => Allowed log n ref .publish a.channel
  | .publishKind a ref => .validated n ref a.channel a.data (.ok ()) ∈ log
  | .publishBroker a ref p => .onPublish n ref a.channel a.data (.ok p) ∈ log
  | _ => True

/-- Every store that a check has filled is covered by the history. -/
structure State.Grounded (anonymous : Bool) (s : State κ β τ) : Prop where
  history : Justified (Grounds anonymous) s.log
  calls : ∀ n c, s.calls n = some c → c.Grounded anonymous s.log n
  claims : ∀ ref claims, (s.shared.heap ref).claims = some claims →
    Claimed anonymous s.log ref claims
  subscriptions : ∀ ref channel f, (s.shared.heap ref).subscriptions.get channel = some f →
    Opened s.log f ref channel
  forwarders : ∀ f w, s.shared.forwarders f = some w → Opened s.log f w.session w.channel

section Growth

variable {anonymous : Bool} {log : List Event} (new : List Event)

theorem Claimed.append {ref : Nat} {claims : SessionClaims} (h : Claimed anonymous log ref claims) :
    Claimed anonymous (new ++ log) ref claims := by
  rcases h with ⟨n, token, member⟩ | free
  · exact .inl ⟨n, token, List.mem_append_right _ member⟩
  · exact .inr free

theorem Allowed.append {n ref : Nat} {action : AclAction} {channel : String}
    (h : Allowed log n ref action channel) : Allowed (new ++ log) n ref action channel := by
  obtain ⟨claims, member⟩ := h
  exact ⟨claims, List.mem_append_right _ member⟩

theorem Opened.append {n ref : Nat} {channel : String} (h : Opened log n ref channel) :
    Opened (new ++ log) n ref channel := List.mem_append_right _ h

theorem Call.Grounded.append {n : Nat} {c : Call τ} (h : c.Grounded anonymous log n) :
    c.Grounded anonymous (new ++ log) n := by
  cases c with
  | connectSet a ref claims => exact Claimed.append new h
  | enforceAcl g ref claims => exact Claimed.append new h
  | seedClaims g ref => exact h
  | unsubscribeAbort a ref forwarder => exact h.imp fun _ => Allowed.append new
  | unsubscribeScrub a ref => exact h.imp fun _ => Allowed.append new
  | unsubscribeReap a ref => exact h.imp fun _ => Allowed.append new
  | unsubscribeKind a ref => exact h.imp fun _ => Allowed.append new
  | _ => first | trivial | exact Allowed.append new h | exact List.mem_append_right _ h

end Growth

theorem Opened.allowed {anonymous : Bool} {log : List Event} {n ref : Nat} {channel : String}
    (h : Opened log n ref channel) (history : Justified (Grounds anonymous) log) :
    Allowed log n ref .subscribe channel := by
  obtain ⟨post, past, eq, grounds, _⟩ := history.of_mem h
  obtain ⟨claims, member⟩ := grounds
  exact ⟨claims, by simp [eq, member]⟩

theorem entry_grounded (anonymous : Bool) (log : List Event) (n : Nat) (r : Request) :
    (r.entry : Call τ).Grounded anonymous log n := by
  cases r <;> trivial

section Advance

variable {H : Hub κ β τ ε} {s : State κ β τ} {n : Nat} {env : ε} {now : Nat} {c : Call τ}
  {o : Outcome κ β τ}

/-- Each event a call logs is justified by the program counter it is logged at. -/
theorem logs_grounds (g : s.Grounded H.gate.allowAnonymous) (at_ : s.calls n = some c)
    {e : Event} (logs : H.Logs s.shared n env now c e) :
    Grounds H.gate.allowAnonymous s.log e := by
  have here := g.calls n c at_
  cases logs with
  | replayed a ref cursor stream answer => exact Opened.allowed here g.history
  | sent a ref cursor stream p rest room => exact ⟨_, here⟩
  | unwound a ref stream error answer => exact ⟨n, here⟩
  | broadcast a ref p answer => exact ⟨_, here⟩
  | authenticated a ref answer => trivial
  | removed who id found => trivial
  | _ => exact here

/-- The program counter a call goes to is justified once its event is logged. -/
theorem act_grounded (g : s.Grounded H.gate.allowAnonymous) (at_ : s.calls n = some c)
    (acts : H.act s.shared n env now c = some o) {next : Call τ} (goes : o.next = some next) :
    next.Grounded H.gate.allowAnonymous (o.events ++ s.log) n := by
  have here := g.calls n c at_
  cases c with
  | connectAuth a ref =>
      simp only [Hub.act] at acts
      split at acts
      · next claims result =>
          cases acts; cases goes
          refine .inl ⟨n, a.token, ?_⟩
          simp [Outcome.after, Shared.goto, result]
      · cases acts; cases goes
  | requireClaims gated ref =>
      simp only [Hub.act] at acts
      split at acts
      · next claims found =>
          cases acts; cases goes
          exact g.claims ref claims found
      · split at acts
        · next free =>
            cases acts; cases goes
            exact free
        · cases acts; cases goes
  | seedClaims gated ref =>
      cases acts; cases goes
      exact .inr ⟨here, rfl⟩
  | enforceAcl gated ref claims =>
      simp only [Hub.act] at acts
      split at acts
      · next allowed =>
          cases acts; cases goes
          have answered : .checked n ref claims gated.action gated.channel (.ok .allow) ∈
              ((s.shared.goto (gated.admitted ref)).after
                (.checked n ref claims gated.action gated.channel
                  (H.gate.check env claims gated.action gated.channel))).events ++ s.log := by
            simp [Outcome.after, Shared.goto, allowed]
          cases gated <;> exact ⟨claims, answered⟩
      · cases acts; cases goes
      · cases acts; cases goes
  | subscribeBroker a ref cursor =>
      simp only [Hub.act] at acts
      split at acts
      · next stream opened =>
          cases acts; cases goes
          split <;> exact List.mem_append_left _ (by simp [Outcome.after, Shared.goto])
      · cases acts; cases goes
        exact Allowed.append _ here
  | subscribeReplay a ref cursor stream =>
      simp only [Hub.act] at acts
      split at acts
      · cases acts; cases goes
        exact Opened.append _ here
      · cases acts; cases goes
        exact Allowed.append _ (Opened.allowed here g.history)
  | subscribeSend a ref cursor stream rest =>
      cases rest with
      | nil =>
          cases acts; cases goes
          exact here
      | cons p rest =>
          simp only [Hub.act] at acts
          split at acts
          · cases acts
          · cases acts; cases goes
            exact Opened.allowed here g.history
          · cases acts; cases goes
            exact Opened.append _ here
  | subscribeInsert a ref cursor =>
      simp only [Hub.act] at acts
      split at acts
      · cases acts; cases goes
        exact Opened.allowed here g.history
      · cases acts; cases goes
        exact here
  | unsubscribeRemove a ref =>
      simp only [Hub.act] at acts
      split at acts
      · cases acts; cases goes
      · next f found =>
          cases acts; cases goes
          exact ⟨f, Opened.allowed (g.subscriptions ref a.channel f found) g.history⟩
  | unsubscribeScrub a ref =>
      cases acts; cases goes
      split <;> exact here
  | publishValidate a ref =>
      simp only [Hub.act] at acts
      split at acts
      · next accepted =>
          cases acts; cases goes
          exact List.mem_append_left _ (by simp [Outcome.after, Shared.goto, accepted])
      · cases acts; cases goes
  | publishKind a ref =>
      simp only [Hub.act] at acts
      split at acts
      · next p accepted =>
          cases acts; cases goes
          exact List.mem_append_left _ (by simp [Outcome.after, Shared.goto, accepted])
      · cases acts; cases goes
  | _ =>
      simp only [Hub.act] at acts
      (repeat' split at acts) <;> cases acts <;> cases goes <;>
        first | trivial | exact here | exact Allowed.append _ here

theorem claimsAfter_claimed (g : s.Grounded H.gate.allowAnonymous) (at_ : s.calls n = some c)
    {ref : Nat} {claims : SessionClaims} (found : H.claimsAfter s.shared c ref = some claims) :
    Claimed H.gate.allowAnonymous s.log ref claims := by
  have here := g.calls n c at_
  cases c with
  | openSession capacity =>
      simp only [Hub.claimsAfter, Function.update_apply] at found
      split at found
      · split at found
        · next free =>
            cases found
            exact .inr ⟨free, rfl⟩
        · cases found
      · exact g.claims ref claims found
  | connectSet a ref' claims' =>
      simp only [Hub.claimsAfter, Function.update_apply] at found
      split at found
      · next same =>
          cases found
          exact same ▸ here
      · exact g.claims ref claims found
  | seedClaims gated ref' =>
      simp only [Hub.claimsAfter, Function.update_apply] at found
      split at found
      · cases found
        exact .inr ⟨here, rfl⟩
      · exact g.claims ref claims found
  | _ => exact g.claims ref claims found

theorem subscriptionsAfter_opened (g : s.Grounded H.gate.allowAnonymous)
    (at_ : s.calls n = some c) {ref : Nat} {channel : String} {f : Nat}
    (found : (s.shared.subscriptionsAfter n c ref).get channel = some f) :
    Opened s.log f ref channel := by
  rcases subscriptionsAfter_some found with ⟨a, cursor, rfl, rfl, rfl⟩ | old
  · exact g.calls f _ at_
  · exact g.subscriptions ref channel f old

theorem advance_grounded (g : s.Grounded H.gate.allowAnonymous) (at_ : s.calls n = some c)
    (acts : H.act s.shared n env now c = some o) :
    (s.after n c o).Grounded H.gate.allowAnonymous := by
  have acted := Hub.acted acts
  have quiet := quiet_after s n c o
  have here := g.calls n c at_
  refine ⟨?_, ?_, ?_, ?_, ?_⟩
  · rw [after_log]
    exact acted.justified g.history (fun e logs => logs_grounds g at_ logs) fun _ _ => trivial
  · intro m c' found
    rw [after_calls] at found
    by_cases same : m = n
    · subst same
      rw [Function.update_self] at found
      exact act_grounded g at_ acts found
    · rw [Function.update_of_ne same] at found
      exact (g.calls m c' found).append _
  · intro ref claims found
    rw [quiet.claims, acted.claims] at found
    exact (claimsAfter_claimed g at_ found).append _
  · intro ref channel f found
    rcases quiet.subscriptions ref with same | emptied
    · rw [same, acted.subscriptions] at found
      exact (subscriptionsAfter_opened g at_ found).append _
    · simp [emptied] at found
  · intro f w' found
    rcases after_forwarder_some acts found with
      ⟨a, ref, cursor, stream, rfl, rfl, rfl | rfl⟩ | ⟨w, older, rfl | rfl⟩
    · exact Opened.append _ here
    · exact Opened.append _ here
    · exact (g.forwarders f w' older).append _
    · exact (g.forwarders f w older).append _

end Advance

theorem forward_grounded {H : Hub κ β τ ε} {anonymous : Bool} {s : State κ β τ} {f : Nat}
    {w : Forwarder τ} {x' : Shared κ β τ} {events : List Event} (g : s.Grounded anonymous)
    (task : s.shared.forwarders f = some w) (moved : H.Forwarded s.shared f w x' events) :
    State.Grounded anonymous { s with shared := x', log := events ++ s.log } := by
  have frame := moved.frame task
  have opened := g.forwarders f w task
  refine ⟨?_, fun n c found => (g.calls n c found).append _, ?_, ?_, ?_⟩
  · cases moved with
    | lagged => exact ⟨trivial, g.history⟩
    | sent => exact ⟨⟨w.channel, opened⟩, g.history⟩
    | _ => exact g.history
  · intro ref claims found
    rw [frame.claims] at found
    exact (g.claims ref claims found).append _
  · intro ref channel f found
    rw [frame.subscriptions] at found
    exact (g.subscriptions ref channel f found).append _
  · intro f' w' found
    by_cases same : f' = f
    · subst same
      obtain ⟨session, channel, _⟩ := frame.own w' found
      rw [session, channel]
      exact opened.append _
    · rw [frame.others f' same] at found
      exact (g.forwarders f' w' found).append _

theorem step_grounded {H : Hub κ β τ ε} {s t : State κ β τ} {l : Label ε}
    (g : s.Grounded H.gate.allowAnonymous) (h : H.step s l = some t) :
    t.Grounded H.gate.allowAnonymous := by
  cases Hub.stepped h with
  | start r =>
      refine ⟨g.history, ?_, g.claims, g.subscriptions, g.forwarders⟩
      intro m c found
      simp only [Function.update_apply] at found
      split at found
      · cases found
        exact entry_grounded _ _ _ r
      · exact g.calls m c found
  | advance at_ acts => exact advance_grounded g at_ acts
  | forward task moves => exact forward_grounded g task (Hub.forwarded moves)
  | transport quiet sheds =>
      refine ⟨g.history, g.calls, ?_, ?_, ?_⟩
      · intro ref claims found
        rw [quiet.claims] at found
        exact g.claims ref claims found
      · intro ref channel f found
        rcases quiet.subscriptions ref with same | emptied
        · rw [same] at found
          exact g.subscriptions ref channel f found
        · simp [emptied] at found
      · intro f w' found
        obtain ⟨w, older, rfl | rfl⟩ := quiet.forwarder_some found
        · exact g.forwarders f w' older
        · exact g.forwarders f w older

theorem initial_grounded (anonymous : Bool) (kinds : Nat → κ) (broker : β) :
    (State.initial kinds broker : State κ β τ).Grounded anonymous := by
  refine ⟨trivial, ?_, ?_, ?_, ?_⟩
  · intro n c found
    cases found
  · intro ref claims found
    cases found
  · intro ref channel f found
    simp [State.initial, Session.new] at found
  · intro f w found
    cases found

theorem run_grounded {H : Hub κ β τ ε} {ok : State κ β τ → Label ε → Prop} {kinds : Nat → κ}
    {broker : β} {s : State κ β τ} (run : H.machine.Run ok (State.initial kinds broker) s) :
    s.Grounded H.gate.allowAnonymous :=
  run.invariant (initial_grounded _ kinds broker) fun _ _ _ g _ h => step_grounded g h

end Cherenkov
