import Cherenkov.Retention
import Cherenkov.Hub.Subscribe
import Cherenkov.Transport.Outbox

/-! A call of the hub takes a bounded number of steps of its own, whatever the other calls and the
tasks do meanwhile: nothing in it loops but the replay, and a replay is no longer than what the kind
retains. It can always take its next step, except to put a replayed publication in an outbox that is
full; there it waits until its client has taken a frame for each sender that is served before it,
and one more. -/

namespace Cherenkov

variable {κ β τ ε : Type}

/-- No replay of the kind is longer than `most`. -/
def ChannelKind.Brief (K : ChannelKind κ) (most : Nat) (kind : κ) : Prop :=
  ∀ now channel since replayed, (K.replaySince kind now channel since).2 = .ok replayed →
    replayed.length ≤ most

/-- The steps a call still takes at most, if no replay is longer than `most`. -/
def Call.remaining (most : Nat) : Call τ → Nat
  | .gauge _ _ | .connectSet _ _ _ | .subscribeIndex _ _ _ | .subscribeUnwind _ _ _ _
  | .unsubscribeKind _ _ | .publishBroker _ _ _ => 1
  | .measure _ | .connectAuth _ _ | .subscribeStray _ _ | .unsubscribeReap _ _
  | .publishKind _ _ => 2
  | .count _ | .connectClaims _ _ | .subscribeInsert _ _ _ | .unsubscribeScrub _ _
  | .publishValidate _ _ => 3
  | .openRegister _ | .deregisterDrop _ _ _ | .connect _ | .subscribeSpawn _ _ _ _
  | .unsubscribeAbort _ _ _ => 4
  | .openSession _ | .deregisterScrub _ _ _ | .unsubscribeRemove _ _ => 5
  | .subscribeSend _ _ _ _ rest => 5 + rest.length
  | .deregister _ _ | .unsubscribe _ => 6
  | .kickSignal _ _ => 7
  | .kick _ => 8
  | .subscribeReplay _ _ _ _ => 6 + most
  | .subscribeBroker _ _ _ => 7 + most
  | .subscribeKind _ _ => 8 + most
  | .subscribeHas _ _ => 9 + most
  | .enforceAcl _ _ _ => 10 + most
  | .seedClaims _ _ => 11 + most
  | .requireClaims _ _ => 12 + most
  | .enter _ => 13 + most

section Step

variable {H : Hub κ β τ ε} {s t : State κ β τ} {l : Label ε} {x : Shared κ β τ} {n : Nat} {env : ε}
  {now most : Nat} {c next : Call τ}

end Step

/-- The client has taken nothing off its outbox for too long, and has not gone. -/
def Outbox.Full (o : Outbox) : Prop := o.closed = false ∧ o.capacity ≤ o.queue.length

/-- The one place where a call waits: a replayed publication for an outbox without room. -/
def State.WaitsOn (s : State κ β τ) (n ref : Nat) : Prop :=
  (s.shared.heap ref).outbox.Full ∧ ∃ a cursor stream p rest,
    s.calls n = some (.subscribeSend a ref cursor stream (p :: rest))

def Outbox.Within (o : Outbox) : Prop := o.queue.length ≤ o.capacity

theorem Outbox.send_full {o : Outbox} {frame : ServerFrame} : o.send frame = .full ↔ o.Full := by
  unfold Outbox.send Outbox.Full
  cases o.closed with
  | true => simp
  | false =>
      by_cases room : o.queue.length < o.capacity
      · simp [room]
      · simpa [room] using Nat.not_lt.mp room

section Waiting

variable {H : Hub κ β τ ε} {s t : State κ β τ} {l : Label ε} {n : Nat} {c : Call τ}

theorem act_stuck {x : Shared κ β τ} {env : ε} {now : Nat} (stuck : H.act x n env now c = none) :
    ∃ a ref cursor stream p rest, c = .subscribeSend a ref cursor stream (p :: rest) ∧
      (x.heap ref).outbox.Full := by
  cases c with
  | subscribeSend a ref cursor stream rest =>
      cases rest with
      | nil => cases stuck
      | cons p rest =>
          refine ⟨a, ref, cursor, stream, p, rest, rfl, ?_⟩
          simp only [Hub.act] at stuck
          split at stuck
          · next full => exact Outbox.send_full.mp full
          · cases stuck
          · cases stuck
  | _ =>
      simp only [Hub.act] at stuck
      (repeat' split at stuck) <;> cases stuck

theorem step_or_waits (called : s.calls n = some c) (env : ε) (now : Nat) :
    (∃ t, H.step s (.advance n env now) = some t) ∨ ∃ ref, s.WaitsOn n ref := by
  cases acts : H.act s.shared n env now c with
  | some o => exact .inl ⟨_, H.step_act called acts⟩
  | none =>
      obtain ⟨a, ref, cursor, stream, p, rest, rfl, full⟩ := act_stuck acts
      exact .inr ⟨ref, full, a, cursor, stream, p, rest, called⟩

theorem State.WaitsOn.stuck {ref : Nat} (waits : s.WaitsOn n ref) (env : ε) (now : Nat) :
    H.step s (.advance n env now) = none := by
  obtain ⟨full, a, cursor, stream, p, rest, called⟩ := waits
  have unsent : (s.shared.heap ref).outbox.send (.publication p) = .full := Outbox.send_full.mpr full
  simp only [Hub.step, called, Hub.act, unsent, Option.map_none]

def takes (ref : Nat) (p : Machine.Transition (State κ β τ) (Label ε)) : Bool :=
  match p.label with
  | .drain r => r == ref && !(p.before.shared.heap ref).outbox.queue.isEmpty
  | _ => false

def puts (ref : Nat) (p : Machine.Transition (State κ β τ) (Label ε)) : Bool :=
  decide ((p.before.shared.heap ref).outbox.queue.length <
    (p.after.shared.heap ref).outbox.queue.length)

theorem takes_others {ref : Nat} (others : l ≠ .drain ref) : takes ref ⟨s, l, t⟩ = false := by
  cases l with
  | drain r =>
      have other : (r == ref) = false := beq_false_of_ne fun same => others (same ▸ rfl)
      simp only [takes, other, Bool.false_and]
  | _ => rfl

theorem drain_outbox {ref : Nat} (drained : H.step s (.drain ref) = some t) :
    (t.shared.outboxes ref).queue = (s.shared.outboxes ref).queue.tail ∧
      (t.shared.outboxes ref).capacity = (s.shared.outboxes ref).capacity := by
  rw [transport_outboxes drained rfl]
  simp only [State.outboxesAfter, Function.update_self, and_self]

theorem step_outbox {ref : Nat} (known : ref < s.shared.nextRef) (others : l ≠ .drain ref)
    (h : H.step s l = some t) :
    (t.shared.outboxes ref).queue = (s.shared.outboxes ref).queue ∧
        (t.shared.outboxes ref).capacity = (s.shared.outboxes ref).capacity ∨
      ∃ frame, (s.shared.outboxes ref).send frame = .sent (t.shared.outboxes ref) := by
  have posted : ∀ r frame, (s.shared.posted r frame ref) = s.shared.outboxes ref ∨
      (s.shared.outboxes ref).send frame = .sent (s.shared.posted r frame ref) := by
    intro r frame
    by_cases same : ref = r
    · subst same
      unfold Shared.posted
      cases sending : (s.shared.outboxes ref).send frame with
      | sent outbox => exact .inr (by simp only [Function.update_self])
      | _ => exact .inl rfl
    · exact .inl (posted_others s.shared frame same)
  cases core : l.core with
  | true =>
      rcases core_outbox h core ref with (same | ⟨p, sent⟩) | ⟨new, -⟩
      · rw [same]
        exact .inl ⟨rfl, rfl⟩
      · exact .inr ⟨_, sent⟩
      · omega
  | false =>
      rw [transport_outboxes h core]
      cases l with
      | drain r =>
          have other : ref ≠ r := fun same => others (same ▸ rfl)
          rw [State.outboxesAfter, Function.update_of_ne other]
          exact .inl ⟨rfl, rfl⟩
      | hangUp r =>
          by_cases same : ref = r
          · subst same
            rw [State.outboxesAfter, Function.update_self]
            exact .inl ⟨rfl, rfl⟩
          · rw [State.outboxesAfter, Function.update_of_ne same]
            exact .inl ⟨rfl, rfl⟩
      | deliver id frame =>
          rw [State.outboxesAfter]
          cases s.shared.registry.get id with
          | none => exact .inl ⟨rfl, rfl⟩
          | some r =>
              rcases posted r frame with same | sent
              · exact .inl ⟨congrArg Outbox.queue same, congrArg Outbox.capacity same⟩
              · exact .inr ⟨frame, sent⟩
      | send r frame =>
          rcases posted r frame with same | sent
          · exact .inl ⟨congrArg Outbox.queue same, congrArg Outbox.capacity same⟩
          · exact .inr ⟨frame, sent⟩
      | _ => exact .inl ⟨rfl, rfl⟩

theorem step_queue {ref : Nat} (known : ref < s.shared.nextRef) (h : H.step s l = some t) :
    (t.shared.heap ref).outbox.capacity = (s.shared.heap ref).outbox.capacity ∧
      (t.shared.heap ref).outbox.queue.length + (takes ref ⟨s, l, t⟩).toNat ≤
        (s.shared.heap ref).outbox.queue.length + (puts ref ⟨s, l, t⟩).toNat := by
  by_cases drained : l = .drain ref
  · subst drained
    obtain ⟨queue, capacity⟩ := drain_outbox h
    refine ⟨capacity, ?_⟩
    have tail : (t.shared.heap ref).outbox.queue = (s.shared.heap ref).outbox.queue.tail := queue
    rw [tail, List.length_tail]
    cases before : (s.shared.heap ref).outbox.queue <;> simp [takes, before]
  · rw [takes_others drained]
    rcases step_outbox known drained h with ⟨queue, capacity⟩ | ⟨frame, sent⟩
    · have same : (t.shared.heap ref).outbox.queue = (s.shared.heap ref).outbox.queue := queue
      refine ⟨capacity, ?_⟩
      rw [same]
      exact Nat.le_add_right _ _
    · obtain ⟨queue, capacity, -⟩ := Outbox.send_queue sent
      have longer : (t.shared.heap ref).outbox.queue.length =
          (s.shared.heap ref).outbox.queue.length + 1 := by
        simpa [Shared.outboxes] using congrArg List.length queue
      refine ⟨capacity, ?_⟩
      simp [puts, longer]

/-- What other steps leave of a call that waits to put a frame into an outbox. -/
structure Queued (n ref : Nat) (c : Call τ) (capacity length : Nat)
    (past : List (Machine.Transition (State κ β τ) (Label ε))) (s : State κ β τ) : Prop where
  staged : s.Staged
  called : s.calls n = some c
  known : ref < s.shared.nextRef
  capacity : (s.shared.heap ref).outbox.capacity = capacity
  length : (s.shared.heap ref).outbox.queue.length + past.countP (takes ref) ≤
    length + past.countP (puts ref)

theorem step_queued {ref capacity length : Nat}
    {past : List (Machine.Transition (State κ β τ) (Label ε))}
    (g : Queued n ref c capacity length past s) (others : l.advances n = false)
    (h : H.step s l = some t) : Queued n ref c capacity length (past ++ [⟨s, l, t⟩]) t := by
  obtain ⟨same, change⟩ := step_queue g.known h
  refine ⟨step_staged g.staged h, step_call_kept g.staged g.called ?_ h,
    Nat.lt_of_lt_of_le g.known (step_nextRef_le h), same.trans g.capacity, ?_⟩
  · rintro env now rfl
    simp [Label.advances] at others
  · have before := g.length
    have one : ∀ b : Machine.Transition (State κ β τ) (Label ε) → Bool,
        [Machine.Transition.mk s l t].countP b = (b ⟨s, l, t⟩).toNat := by
      intro b
      cases held : b ⟨s, l, t⟩ <;> simp [held]
    rw [List.countP_append, List.countP_append, one, one]
    omega

/-- Once the client has taken more frames than others have put in, the call can go on. -/
theorem State.WaitsOn.released {ref : Nat} (waits : s.WaitsOn n ref) (staged : s.Staged)
    (addressed : s.Addressed) (within : (s.shared.heap ref).outbox.queue.length ≤
      (s.shared.heap ref).outbox.capacity) {more : List (Label ε)}
    (ran : H.machine.exec s more = some t) (others : ∀ l ∈ more, l.advances n = false)
    (served : (H.machine.path s more).countP (puts ref) <
      (H.machine.path s more).countP (takes ref)) (env : ε) (now : Nat) :
    ∃ u, H.step t (.advance n env now) = some u := by
  obtain ⟨-, a, cursor, stream, p, rest, called⟩ := waits
  have known := addressed.held n _ called ref (List.mem_singleton_self ref)
  have start : Queued n ref _ _ _ ([] : List (Machine.Transition (State κ β τ) (Label ε))) s :=
    ⟨staged, called, known, rfl, Nat.le_refl _⟩
  have g := Machine.path_invariant (M := H.machine)
    (fun _ _ _ _ g others h => step_queued g others h) start
    (Machine.along_of_labels others s) ran
  have short := g.length
  have capacity := g.capacity
  rw [List.nil_append] at short
  rcases step_or_waits (H := H) g.called env now with moves | ⟨r, ⟨-, full⟩, _, _, _, _, _, same⟩
  · exact moves
  · cases g.called.symm.trans same
    omega

end Waiting

section Server

variable {ν ω δ υ δ' : Type} {host : Host ν ω δ υ δ' β τ} {config : ServerConfig ν}
  {built : HubBuilt (AnyKind δ δ') β τ Nat}

theorem ChannelKind.Brief.mono {K : ChannelKind κ} {most more : Nat} {kind : κ} (brief : K.Brief most kind)
    (le : most ≤ more) : K.Brief more kind :=
  fun now channel since replayed reads => (brief now channel since replayed reads).trans le

end Server

def Call.replaying : Call τ → Option Nat
  | .subscribeSend _ ref _ _ (_ :: _) => some ref
  | _ => none

end Cherenkov
