import Cherenkov.Hub.Course
import Cherenkov.Hub.Isolation
import Cherenkov.Hub.Recovery

/-! `handle_publish` can fail at the registry, the claims, the ACL, the validator, the channel kind
and the broker. The kind is changed before the broker is asked, and nothing takes the change back: a
publish that the broker refuses stays in the history. -/

namespace Cherenkov

variable {κ β τ ε : Type}

namespace PubSubChannel

/-- There is room for an entry and offsets are 64 bits wide. -/
structure Sized (ps : PubSubChannel) : Prop where
  room : 0 < ps.historySize
  range : ∀ channel, ps.nextOffset channel ≤ u64Max

theorem withBounds_sized (size ttl : Nat) : (withBounds size ttl).Sized where
  room := Nat.lt_of_lt_of_le Nat.zero_lt_one (Nat.le_max_right size 1)
  range channel := by
    rw [withBounds_nextOffset]
    exact Nat.zero_le _

theorem onPublish_sized {ps : PubSubChannel} (sized : ps.Sized) (now : Nat) (channel : String)
    (data : Bytes) : (ps.onPublish now channel data).1.Sized := by
  refine ⟨?_, ?_⟩
  · unfold onPublish
    split <;> exact sized.room
  · intro c
    cases answered : ps.onPublish now channel data with
    | mk ps' result =>
        cases result with
        | error e =>
            rw [onPublish_error answered]
            exact sized.range c
        | ok p =>
            have accepts := onPublish_accepts answered
            by_cases here : c = channel
            · subst here
              rw [accepts.next]
              exact Nat.min_le_right _ _
            · rw [accepts.otherNext c here]
              exact sized.range c

theorem replaySince_sized {ps : PubSubChannel} (sized : ps.Sized) (now : Nat) (channel : String)
    (since : Nat) : (ps.replaySince now channel since).1.Sized := by
  obtain ⟨_, _, replays⟩ := replaySince_replays ps now channel since
  refine ⟨?_, ?_⟩
  · unfold replaySince
    split <;> exact sized.room
  · intro c
    rw [replays.next]
    exact sized.range c

theorem channelKind_sized : channelKind.Keeps Sized where
  onSubscribe _ _ _ sized := sized
  onUnsubscribe _ _ _ sized := sized
  onPublish _ now channel data sized := onPublish_sized sized now channel data
  replaySince _ now channel since sized := replaySince_sized sized now channel since

end PubSubChannel

section Publish

/-- A publish call that has not been through `on_publish`. -/
def Call.unaccepted : Call τ → Bool
  | .enter (.publish _) | .requireClaims (.publish _) _ | .seedClaims (.publish _) _
  | .enforceAcl (.publish _) _ _ | .publishValidate _ _ | .publishKind _ _ => true
  | _ => false

/-- The broker takes what call `n` asks it to publish. -/
def BrokerTakes (H : Hub κ β τ ε) (n : Nat) (s : State κ β τ) (l : Label ε) : Prop :=
  ∀ env now a ref p, l = .advance n env now → s.calls n = some (.publishBroker a ref p) →
    (H.broker.publish s.shared.broker a.channel p).2 = .ok ()

/-- Call `n` publishes on a channel that is spent. -/
def ChannelSpent (H : Hub PubSubChannel β τ ε) (n : Nat) (s : State PubSubChannel β τ)
    (l : Label ε) : Prop :=
  ∀ env now a ref, l = .advance n env now → s.calls n = some (.publishKind a ref) →
    (s.shared.kinds (H.kindFor a.channel)).Spent now a.channel a.data

/-- A step of call `n` leaves history, next offset and cursor of every channel as they are. -/
def LeavesHistory (H : Hub PubSubChannel β τ ε) (n : Nat) (s : State PubSubChannel β τ)
    (l : Label ε) : Prop :=
  ∀ env now, l = .advance n env now → ∀ t, H.step s l = some t → ∀ k channel,
    (t.shared.kinds k).standing channel = (s.shared.kinds k).standing channel

/-- `P` is a condition on the steps of call `n` only. -/
def OfCall (n : Nat) (P : State κ β τ → Label ε → Prop) : Prop :=
  ∀ s l, (∀ env now c, l = .advance n env now → s.calls n ≠ some c) → P s l

theorem brokerTakes_of (H : Hub κ β τ ε) (n : Nat) : OfCall n (BrokerTakes H n) := by
  intro s l others env now a ref p own called
  exact absurd called (others env now _ own)

theorem channelSpent_of (H : Hub PubSubChannel β τ ε) (n : Nat) : OfCall n (ChannelSpent H n) := by
  intro s l others env now a ref own called
  exact absurd called (others env now _ own)

theorem leavesHistory_of (H : Hub PubSubChannel β τ ε) (n : Nat) :
    OfCall n (LeavesHistory H n) := by
  rintro s l others env now rfl t h
  obtain ⟨c, o, called, _⟩ := Hub.step_advance h
  exact absurd called (others env now c rfl)

theorem over_along {H : Hub κ β τ ε} {n : Nat} {P : State κ β τ → Label ε → Prop}
    (of : OfCall n P) {s : State κ β τ} (known : n < s.nextCall) (ended : s.calls n = none)
    (ls : List (Label ε)) : H.machine.Along P s ls := by
  refine Machine.along_of_invariant (I := fun s => n < s.nextCall ∧ s.calls n = none) ?_ ?_
    ⟨known, ended⟩ ls
  · rintro s l ⟨-, ended⟩
    refine of s l ?_
    intro env now c _ called
    rw [ended] at called
    cases called
  · rintro s l t ⟨known, ended⟩ h
    exact step_call_over known ended h

variable {H : Hub κ β τ ε} {x : Shared κ β τ} {s t : State κ β τ} {n : Nat} {env : ε} {now : Nat}
  {c next : Call τ} {o : Outcome κ β τ}

theorem over_returned {ok : State κ β τ → Label ε → Prop} (run : H.machine.Run ok s t)
    (known : n < s.nextCall) (ended : s.calls n = none) {result : Except HubError Response}
    (member : .returned n result ∈ t.log) : .returned n result ∈ s.log := by
  have kept : n < t.nextCall ∧ t.calls n = none ∧
      (.returned n result ∈ t.log → .returned n result ∈ s.log) := by
    refine run.invariant (I := fun u => n < u.nextCall ∧ u.calls n = none ∧
      (.returned n result ∈ u.log → .returned n result ∈ s.log)) ⟨known, ended, id⟩ ?_
    rintro u l v ⟨known, ended, older⟩ - h
    obtain ⟨known', ended'⟩ := step_call_over known ended h
    refine ⟨known', ended', ?_⟩
    intro member
    rcases step_returned h member with old | ⟨env, now, _, rfl, -⟩
    · exact older old
    · obtain ⟨c, o, called, _⟩ := Hub.step_advance h
      rw [ended] at called
      cases called
  exact kept.2.2 member

theorem publishBroker_ends {a : PublishArgs} {ref : Nat} {p : Publication}
    (acts : H.act x n env now (.publishBroker a ref p) = some o) :
    o.next = none ∧ ∀ error, .returned n (.error error) ∈ o.events →
      (H.broker.publish x.broker a.channel p).2 ≠ .ok () := by
  simp only [Hub.act] at acts
  split at acts
  · cases acts
    refine ⟨rfl, ?_⟩
    intro error member
    simp [Outcome.after, Shared.done] at member
  · next refuses =>
      cases acts
      refine ⟨rfl, ?_⟩
      intro error _ takes
      cases refuses.symm.trans takes

theorem unaccepted_goes (before : c.unaccepted = true) (acts : H.act x n env now c = some o)
    (goes : o.next = some next) :
    (next.unaccepted = true ∧ ∀ a ref, c ≠ .publishKind a ref) ∨
      ∃ a ref p, c = .publishKind a ref ∧ next = .publishBroker a ref p ∧
        (H.kinds.onPublish (x.kinds (H.kindFor a.channel)) now a.channel a.data).2 = .ok p := by
  cases Hub.goes acts goes with
  | stamped a ref accepts => exact .inr ⟨a, ref, _, rfl, rfl, accepts⟩
  | entered g found =>
      cases g with
      | publish a => exact .inl ⟨rfl, nofun⟩
      | subscribe a => cases before
  | claimed g ref has =>
      cases g with
      | publish a => exact .inl ⟨rfl, nofun⟩
      | subscribe a => cases before
  | unclaimed g ref none_ anonymous =>
      cases g with
      | publish a => exact .inl ⟨rfl, nofun⟩
      | subscribe a => cases before
  | seeded g ref =>
      cases g with
      | publish a => exact .inl ⟨rfl, nofun⟩
      | subscribe a => cases before
  | publishable a ref claims allows => exact .inl ⟨rfl, nofun⟩
  | validated a ref accepts => exact .inl ⟨rfl, nofun⟩
  | _ => cases before

end Publish

section Refused

variable {H : Hub PubSubChannel β τ ε} {s t : State PubSubChannel β τ} {n : Nat}
  {env : ε} {now : Nat} {c : Call τ} {e : HubError}

theorem leaves_of_kindsAfter (called : s.calls n = some c)
    (same : H.kindsAfter s.shared now c = s.shared.kinds) :
    LeavesHistory H n s (.advance n env now) := by
  rintro env' now' own t h k channel
  cases own
  obtain ⟨c', o, called', acts, rfl⟩ := Hub.step_advance h
  cases called.symm.trans called'
  rw [after_kinds acts, same]

theorem leaves_accepted (pubsub : H.kinds = PubSubChannel.channelKind)
    (sized : ∀ k, (s.shared.kinds k).Sized) {a : PublishArgs} {ref : Nat} {p : Publication}
    (called : s.calls n = some (.publishKind a ref)) (h : H.step s (.advance n env now) = some t)
    (accepted : ((s.shared.kinds (H.kindFor a.channel)).onPublish now a.channel a.data).2 = .ok p) :
    LeavesHistory H n s (.advance n env now) ↔ ChannelSpent H n s (.advance n env now) := by
  have visible := PubSubChannel.onPublish_standing (sized (H.kindFor a.channel)).room
    ((sized (H.kindFor a.channel)).range a.channel) accepted
  obtain ⟨c', o, called', acts, rfl⟩ := Hub.step_advance h
  cases called.symm.trans called'
  have kinds := after_kinds acts
  simp only [Hub.kindsAfter, pubsub, PubSubChannel.channelKind] at kinds
  constructor
  · rintro leaves env' now' a' ref' own called'
    cases own
    cases called.symm.trans called'
    refine visible.mp fun channel => ?_
    have still := leaves env now rfl _ h (H.kindFor a.channel) channel
    rwa [kinds, Function.update_self] at still
  · rintro spent env' now' own t h' k channel
    cases own
    cases h.symm.trans h'
    rw [kinds, Function.update_apply]
    split
    · next same =>
        rw [same]
        exact visible.mpr (spent env now a ref rfl called) channel
    · rfl

theorem kindsAfter_unaccepted (before : c.unaccepted = true)
    (elsewhere : ∀ a ref, c ≠ .publishKind a ref) (x : Shared PubSubChannel β τ) :
    H.kindsAfter x now c = x.kinds := by
  cases c with
  | publishKind a ref => exact absurd rfl (elsewhere a ref)
  | _ => first | rfl | cases before

theorem kindsAfter_rejected (pubsub : H.kinds = PubSubChannel.channelKind)
    (before : c.unaccepted = true) {x : Shared PubSubChannel β τ} {o : Outcome PubSubChannel β τ}
    (acts : H.act x n env now c = some o) (ends : o.next = none) :
    H.kindsAfter x now c = x.kinds := by
  by_cases asks : ∃ a ref, c = .publishKind a ref
  · obtain ⟨a, ref, rfl⟩ := asks
    simp only [Hub.act] at acts
    split at acts
    · cases acts
      cases ends
    · next error refused =>
        rw [pubsub] at refused
        have same := PubSubChannel.onPublish_error (Prod.ext rfl refused)
        simp only [Hub.kindsAfter, pubsub, PubSubChannel.channelKind, same,
          Function.update_eq_self]
  · push Not at asks
    exact kindsAfter_unaccepted before asks x

/-- A call that is at `broker.publish` and fails is one that the broker refuses. -/
theorem refused_along (staged : s.Staged) {a : PublishArgs} {ref : Nat} {p : Publication}
    (called : s.calls n = some (.publishBroker a ref p)) {ls : List (Label ε)}
    (ran : H.machine.exec s ls = some t) (failed : .returned n (.error e) ∈ t.log) :
    H.machine.Along (LeavesHistory H n) s ls ∧ H.machine.Along (ChannelSpent H n) s ls ∧
      ¬H.machine.Along (BrokerTakes H n) s ls := by
  induction ls generalizing s with
  | nil =>
      cases ran
      rw [(staged.returned n _ failed).2] at called
      cases called
  | cons l ls ih =>
      obtain ⟨u, stepped, rest⟩ := Option.bind_eq_some_iff.mp ran
      simp only [Machine.along_cons stepped]
      by_cases own : ∃ env now, l = .advance n env now
      · obtain ⟨env, now, rfl⟩ := own
        obtain ⟨c, o, called', acts, rfl⟩ := Hub.step_advance stepped
        cases called.symm.trans called'
        obtain ⟨ends, answer⟩ := publishBroker_ends acts
        have ended : (s.after n (.publishBroker a ref p) o).calls n = none := by
          rw [after_calls, Function.update_self, ends]
        have known : n < (s.after n (.publishBroker a ref p) o).nextCall := by
          rw [after_nextCall]
          exact staged.calls n _ called
        refine ⟨⟨leaves_of_kindsAfter called rfl, over_along (leavesHistory_of H n) known ended ls⟩,
          ⟨?_, over_along (channelSpent_of H n) known ended ls⟩, ?_⟩
        · intro env' now' a' ref' _ elsewhere
          cases called.symm.trans elsewhere
        · rintro ⟨takes, -⟩
          have logged := over_returned (Machine.exec_run rest) known ended failed
          rw [after_log] at logged
          rcases List.mem_append.mp logged with new | old
          · exact answer e new (takes env now a ref p rfl called)
          · rw [(staged.returned n _ old).2] at called
            cases called
      · push Not at own
        have others : ∀ env now c, l = .advance n env now → s.calls n ≠ some c :=
          fun env now c same => absurd same (own env now)
        obtain ⟨leaves, spent, refused⟩ := ih (step_staged staged stepped)
          (step_call_kept staged called own stepped) rest
        exact ⟨⟨leavesHistory_of H n s l others, leaves⟩, ⟨channelSpent_of H n s l others, spent⟩,
          fun takes => refused takes.2⟩

theorem publish_along (pubsub : H.kinds = PubSubChannel.channelKind) (staged : s.Staged)
    (sized : ∀ k, (s.shared.kinds k).Sized) (called : s.calls n = some c)
    (before : c.unaccepted = true) {ls : List (Label ε)} (ran : H.machine.exec s ls = some t)
    (failed : .returned n (.error e) ∈ t.log) :
    H.machine.Along (LeavesHistory H n) s ls ↔
      H.machine.Along (BrokerTakes H n) s ls ∨ H.machine.Along (ChannelSpent H n) s ls := by
  induction ls generalizing s c with
  | nil =>
      cases ran
      rw [(staged.returned n _ failed).2] at called
      cases called
  | cons l ls ih =>
      obtain ⟨u, stepped, rest⟩ := Option.bind_eq_some_iff.mp ran
      have staged' := step_staged staged stepped
      have sized' := step_keeps (fun _ => pubsub ▸ PubSubChannel.channelKind_sized) sized stepped
      simp only [Machine.along_cons stepped]
      by_cases own : ∃ env now, l = .advance n env now
      · obtain ⟨env, now, rfl⟩ := own
        obtain ⟨c', o, called', acts, rfl⟩ := Hub.step_advance stepped
        cases called.symm.trans called'
        have landed : (s.after n c o).calls n = o.next := by
          rw [after_calls, Function.update_self]
        have takes : BrokerTakes H n s (.advance n env now) := by
          intro env' now' a ref p _ elsewhere
          cases called.symm.trans elsewhere
          cases before
        cases goes : o.next with
        | none =>
            have known : n < (s.after n c o).nextCall := by
              rw [after_nextCall]
              exact staged.calls n c called
            have ended := landed.trans goes
            have leaves : LeavesHistory H n s (.advance n env now) :=
              leaves_of_kindsAfter called (kindsAfter_rejected pubsub before acts goes)
            exact iff_of_true ⟨leaves, over_along (leavesHistory_of H n) known ended ls⟩
              (.inl ⟨takes, over_along (brokerTakes_of H n) known ended ls⟩)
        | some next =>
            rcases unaccepted_goes before acts goes with ⟨before', elsewhere⟩ |
              ⟨a, ref, p, rfl, rfl, accepted⟩
            · have leaves : LeavesHistory H n s (.advance n env now) :=
                leaves_of_kindsAfter called (kindsAfter_unaccepted before elsewhere s.shared)
              have spent : ChannelSpent H n s (.advance n env now) := by
                intro env' now' a ref _ asks
                exact absurd (Option.some.inj (called.symm.trans asks)) (elsewhere a ref)
              have later := ih staged' sized' (landed.trans goes) before' rest
              simp only [leaves, takes, spent, true_and]
              exact later
            · obtain ⟨leaves, spent, refused⟩ :=
                refused_along staged' (landed.trans goes) rest failed
              rw [pubsub] at accepted
              have visible := leaves_accepted pubsub sized called stepped accepted
              simp only [leaves, spent, refused, and_true, and_false, false_or]
              exact visible
      · push Not at own
        have others : ∀ env now c, l = .advance n env now → s.calls n ≠ some c :=
          fun env now c same => absurd same (own env now)
        have later := ih staged' sized' (step_call_kept staged called own stepped) before rest
        simp only [leavesHistory_of H n s l others, brokerTakes_of H n s l others,
          channelSpent_of H n s l others, true_and]
        exact later

/-- The steps of a publish call that fails change no channel, exactly if the broker takes what
the call asks it to publish or the channel is spent. -/
theorem failed_publish_unpublished (pubsub : H.kinds = PubSubChannel.channelKind)
    {size ttl : Nat → Nat} {broker : β}
    (run : H.machine.Run Machine.free
      (State.initial (fun k => .withBounds (size k) (ttl k)) broker) s)
    {a : PublishArgs} {ls : List (Label ε)}
    (ran : H.machine.exec s (.start (.publish a) :: ls) = some t)
    (failed : .returned s.nextCall (.error e) ∈ t.log) :
    H.machine.Along (LeavesHistory H s.nextCall) s (.start (.publish a) :: ls) ↔
      H.machine.Along (BrokerTakes H s.nextCall) s (.start (.publish a) :: ls) ∨
      H.machine.Along (ChannelSpent H s.nextCall) s (.start (.publish a) :: ls) := by
  obtain ⟨u, started, rest⟩ := Option.bind_eq_some_iff.mp ran
  have staged := run_staged run
  have sized := run.invariant (fun k => PubSubChannel.withBounds_sized (size k) (ttl k))
    fun _ _ _ sized _ h => step_keeps (fun _ => pubsub ▸ PubSubChannel.channelKind_sized) sized h
  have others : ∀ env now c, (.start (.publish a) : Label ε) = .advance s.nextCall env now →
      s.calls s.nextCall ≠ some c := nofun
  have called : u.calls s.nextCall = some (.enter (.publish a)) := by
    cases started
    exact Function.update_self s.nextCall _ s.calls
  simp only [Machine.along_cons started, leavesHistory_of H s.nextCall s _ others,
    brokerTakes_of H s.nextCall s _ others, channelSpent_of H s.nextCall s _ others, true_and]
  change H.step s (.start (.publish a)) = some u at started
  exact publish_along pubsub (step_staged staged started)
    (step_keeps (fun _ => pubsub ▸ PubSubChannel.channelKind_sized) sized started) called rfl rest failed

end Refused

theorem memory_takes (H : Hub κ MemoryBroker MemoryStream ε)
    (inProcess : H.broker = MemoryBroker.broker) (n : Nat) (s : State κ MemoryBroker MemoryStream)
    (l : Label ε) : BrokerTakes H n s l := by
  intro env now a ref p _ _
  rw [inProcess]
  simp only [MemoryBroker.broker, MemoryBroker.publish]
  (repeat' split) <;> rfl

/-- A publish to the channel without a name is refused by the kind. -/
theorem failed_publish_nameless :
    ∃ s t, defaults.hub.machine.Run Machine.free defaults.boot s ∧ s.nextCall = 1 ∧
      defaults.hub.machine.exec s (Request.steps (.publish ⟨0, "", [1]⟩) 1 5) = some t ∧
      .returned 1 (.error (.channel (.invalidChannel ""))) ∈ t.log ∧
      defaults.hub.machine.Along (LeavesHistory defaults.hub 1) s
        (Request.steps (.publish ⟨0, "", [1]⟩) 1 5) := by
  obtain ⟨s, -, run, first, refused⟩ := Machine.exec_witness (M := defaults.hub.machine)
    (s := defaults.boot) (Request.steps (.openSession 16) 0 5)
    (fun s => s.nextCall = 1 ∧
      ((defaults.hub.machine.exec s (Request.steps (.publish ⟨0, "", [1]⟩) 1 5)).any fun t =>
        decide (.returned 1 (.error (.channel (.invalidChannel ""))) ∈ t.log)) = true)
    (by decide +kernel)
  obtain ⟨t, ran, logged⟩ := Option.any_eq_true _ _ |>.mp refused
  have failed := of_decide_eq_true logged
  have exact_ := failed_publish_unpublished rfl run ran (by rw [first]; exact failed)
  rw [first] at exact_
  exact ⟨s, t, run, first, ran, failed, exact_.mpr (.inl (Machine.along_of_invariant
    (I := fun _ => True) (fun s l _ => memory_takes defaults.hub rfl 1 s l)
    (fun _ _ _ _ _ => trivial) trivial _))⟩

def disconnected : OverNats Unit :=
  { OverNats.standard Gate.allowAll with publishError := fun _ _ => some "connection closed" }

/-- The publish fails at the broker, the retry too, and both publications are in the history. -/
theorem refused_publish_retained :
    ∃ s t u, disconnected.hub.machine.Run Machine.free disconnected.boot s ∧
      disconnected.hub.machine.exec s
        (Request.steps (.publish ⟨0, "rooms.lobby", [7]⟩) 1 6) = some t ∧
      disconnected.hub.machine.exec t
        (Request.steps (.publish ⟨0, "rooms.lobby", [7]⟩) 2 6) = some u ∧
      .returned 1 (.error (.broker (.other "nats PUB: connection closed"))) ∈ t.log ∧
      .returned 2 (.error (.broker (.other "nats PUB: connection closed"))) ∈ u.log ∧
      (s.shared.kinds 0).standing "rooms.lobby" = (⟨0, []⟩, ⟨1, 0⟩) ∧
      (t.shared.kinds 0).standing "rooms.lobby" = (⟨1, [⟨0, 0, [7]⟩]⟩, ⟨1, 0⟩) ∧
      (u.shared.kinds 0).standing "rooms.lobby" =
        (⟨2, [⟨0, 0, [7]⟩, ⟨0, 1, [7]⟩]⟩, ⟨1, 1⟩) := by
  obtain ⟨s, -, run, fresh, once⟩ := Machine.exec_witness (M := disconnected.hub.machine)
    (s := disconnected.boot) (Request.steps (.openSession 16) 0 5)
    (fun s => (s.shared.kinds 0).standing "rooms.lobby" = (⟨0, []⟩, ⟨1, 0⟩) ∧
      ((disconnected.hub.machine.exec s
        (Request.steps (.publish ⟨0, "rooms.lobby", [7]⟩) 1 6)).any fun t =>
          decide (.returned 1 (.error (.broker (.other "nats PUB: connection closed"))) ∈ t.log ∧
            (t.shared.kinds 0).standing "rooms.lobby" = (⟨1, [⟨0, 0, [7]⟩]⟩, ⟨1, 0⟩)) &&
          ((disconnected.hub.machine.exec t
            (Request.steps (.publish ⟨0, "rooms.lobby", [7]⟩) 2 6)).any fun u =>
              decide (.returned 2 (.error (.broker (.other "nats PUB: connection closed"))) ∈
                  u.log ∧
                (u.shared.kinds 0).standing "rooms.lobby" =
                  (⟨2, [⟨0, 0, [7]⟩, ⟨0, 1, [7]⟩]⟩, ⟨1, 1⟩)))) = true) (by decide +kernel)
  obtain ⟨t, first, refused⟩ := Option.any_eq_true _ _ |>.mp once
  rw [Bool.and_eq_true] at refused
  obtain ⟨u, second, again⟩ := Option.any_eq_true _ _ |>.mp refused.2
  have kept := of_decide_eq_true refused.1
  have twice := of_decide_eq_true again
  exact ⟨s, t, u, run, first, second, kept.1, twice.1, fresh, kept.2, twice.2⟩

end Cherenkov
