import Cherenkov.Library.Machine
import Cherenkov.PubSub

/-! Calls of a `PubSubChannel` on any channels, each one section under the channel's lock, in any
order and with any clock readings. A restart replaces the kind by a fresh one with the same bounds.
`log` records every step with its answer, newest first. -/

namespace Cherenkov

inductive KindStep where
  | publish (now : Nat) (channel : String) (data : Bytes)
  | replay (now : Nat) (channel : String) (since : Nat)
  | subscribe (channel : String)
  | cursor (channel : String)
  | restart
  deriving DecidableEq

def KindStep.on (channel : String) : KindStep → Bool
  | .publish _ c _ | .replay _ c _ | .subscribe c | .cursor c => c = channel
  | .restart => false

inductive KindAnswer where
  | published (result : Except ChannelError Publication)
  | replayed (result : Except ChannelError (List Publication))
  | subscribed (result : Except ChannelError ChannelCursor)
  | cursor (current : ChannelCursor)
  | restarted
  deriving DecidableEq

structure KindState where
  kind : PubSubChannel
  log : List (KindStep × KindAnswer)

namespace KindState

def boot (historySize historyTtl : Nat) : KindState := ⟨.withBounds historySize historyTtl, []⟩

def answer (historySize historyTtl : Nat) (ps : PubSubChannel) :
    KindStep → PubSubChannel × KindAnswer
  | .publish now channel data =>
      let out := ps.onPublish now channel data
      (out.1, .published out.2)
  | .replay now channel since =>
      let out := ps.replaySince now channel since
      (out.1, .replayed out.2)
  | .subscribe channel => (ps, .subscribed (ps.onSubscribe channel))
  | .cursor channel => (ps, .cursor (ps.cursor channel))
  | .restart => (.withBounds historySize historyTtl, .restarted)

def machine (historySize historyTtl : Nat) : Machine KindState KindStep where
  step s step :=
    let out := answer historySize historyTtl s.kind step
    some ⟨out.1, (step, out.2) :: s.log⟩

def Lasting : KindState → KindStep → Prop := fun _ step => step ≠ .restart

structure Acceptance where
  stamp : Nat
  data : Bytes
  publication : Publication

/-- An accepted publish on the channel, with the clock reading it took. -/
def acceptance (channel : String) : KindStep × KindAnswer → Option Acceptance
  | (.publish now c data, .published (.ok p)) => if c = channel then some ⟨now, data, p⟩ else none
  | _ => none

def acceptances (s : KindState) (channel : String) : List Acceptance :=
  (s.log.filterMap (acceptance channel)).reverse

def payloads (s : KindState) (channel : String) : List Bytes :=
  (s.acceptances channel).map Acceptance.data

def publications (s : KindState) (channel : String) : List Publication :=
  (s.acceptances channel).map Acceptance.publication

/-- How long ago, by the clock of a later call, the channel accepted a publication. -/
def age (s : KindState) (channel : String) (now : Nat) (p : Publication) : Option Nat :=
  (s.acceptances channel)[p.offset]?.map fun accepted => now - accepted.stamp

def numbered (channel : String) (payloads : List Bytes) : List Publication :=
  payloads.zipIdx.map fun (data, offset) => ⟨channel, offset, data⟩

theorem numbered_append (channel : String) (payloads : List Bytes) (data : Bytes) :
    numbered channel (payloads ++ [data]) =
      numbered channel payloads ++ [⟨channel, payloads.length, data⟩] := by
  simp [numbered, List.zipIdx_append]

theorem numbered_length (channel : String) (payloads : List Bytes) :
    (numbered channel payloads).length = payloads.length := by
  simp [numbered]

theorem numbered_offsets (channel : String) (payloads : List Bytes) :
    (numbered channel payloads).map Publication.offset = List.range payloads.length := by
  simp only [numbered, List.map_map, List.range_eq_range', ← List.zipIdx_map_snd 0 payloads]
  rfl

variable {historySize historyTtl : Nat} {s t : KindState} {channel : String} {step : KindStep}

theorem acceptances_cons (s : KindState) (channel : String) (kind : PubSubChannel) (entry : KindStep × KindAnswer) :
    (KindState.mk kind (entry :: s.log)).acceptances channel =
      s.acceptances channel ++ (acceptance channel entry).toList := by
  cases accepted : acceptance channel entry <;>
    simp [acceptances, accepted]

/-- Two kinds with the same settings that agree on the channel. -/
structure Agree (channel : String) (ps qs : PubSubChannel) : Prop where
  epoch : qs.epoch = ps.epoch
  size : qs.historySize = ps.historySize
  ttl : qs.historyTtl = ps.historyTtl
  state : qs.state.get channel = ps.state.get channel

theorem Agree.symm {ps qs : PubSubChannel} (agree : Agree channel ps qs) : Agree channel qs ps :=
  ⟨agree.epoch.symm, agree.size.symm, agree.ttl.symm, agree.state.symm⟩

theorem Agree.trans {ps qs rs : PubSubChannel} (first : Agree channel ps qs)
    (second : Agree channel qs rs) : Agree channel ps rs :=
  ⟨second.epoch.trans first.epoch, second.size.trans first.size, second.ttl.trans first.ttl,
    second.state.trans first.state⟩

theorem answer_settings (historySize historyTtl : Nat) (lasting : step ≠ .restart)
    (ps : PubSubChannel) :
    (answer historySize historyTtl ps step).1.epoch = ps.epoch ∧
      (answer historySize historyTtl ps step).1.historySize = ps.historySize ∧
      (answer historySize historyTtl ps step).1.historyTtl = ps.historyTtl := by
  cases step with
  | publish now c data =>
      simp only [answer, PubSubChannel.onPublish]
      split <;> exact ⟨rfl, rfl, rfl⟩
  | replay now c since =>
      simp only [answer, PubSubChannel.replaySince]
      split <;> exact ⟨rfl, rfl, rfl⟩
  | subscribe c => exact ⟨rfl, rfl, rfl⟩
  | cursor c => exact ⟨rfl, rfl, rfl⟩
  | restart => exact absurd rfl lasting

theorem answer_elsewhere (historySize historyTtl : Nat) (lasting : step ≠ .restart)
    (elsewhere : step.on channel = false) (ps : PubSubChannel) :
    Agree channel ps (answer historySize historyTtl ps step).1 := by
  obtain ⟨epoch, size, ttl⟩ := answer_settings historySize historyTtl lasting ps
  refine ⟨epoch, size, ttl, ?_⟩
  cases step with
  | publish now c data =>
      have other : channel ≠ c := fun same => of_decide_eq_false elsewhere same.symm
      simp only [answer, PubSubChannel.onPublish]
      split
      · rfl
      · exact DashMap.get_put_ne _ _ other
  | replay now c since =>
      have other : channel ≠ c := fun same => of_decide_eq_false elsewhere same.symm
      simp only [answer, PubSubChannel.replaySince]
      split
      · rfl
      · exact DashMap.get_put_ne _ _ other
  | subscribe c => rfl
  | cursor c => rfl
  | restart => exact absurd rfl lasting

theorem answer_agree (historySize historyTtl : Nat) {ps qs : PubSubChannel}
    (agree : Agree channel ps qs) (here : step.on channel = true) :
    (answer historySize historyTtl qs step).2 = (answer historySize historyTtl ps step).2 ∧
      Agree channel (answer historySize historyTtl ps step).1
        (answer historySize historyTtl qs step).1 := by
  obtain ⟨epoch, size, ttl, map⟩ := ps
  obtain ⟨epoch', size', ttl', map'⟩ := qs
  obtain ⟨rfl, rfl, rfl, state⟩ := agree
  dsimp only at state
  cases step with
  | publish now c data =>
      obtain rfl := of_decide_eq_true here
      simp only [answer, PubSubChannel.onPublish, state]
      split
      · exact ⟨rfl, rfl, rfl, rfl, state⟩
      · refine ⟨rfl, rfl, rfl, rfl, ?_⟩
        simp only [DashMap.get_put_self]
        rfl
  | replay now c since =>
      obtain rfl := of_decide_eq_true here
      simp only [answer, PubSubChannel.replaySince, state]
      split
      · exact ⟨rfl, rfl, rfl, rfl, state⟩
      · refine ⟨rfl, rfl, rfl, rfl, ?_⟩
        simp only [DashMap.get_put_self]
        rfl
  | subscribe c =>
      obtain rfl := of_decide_eq_true here
      refine ⟨?_, rfl, rfl, rfl, state⟩
      simp only [answer, PubSubChannel.onSubscribe, PubSubChannel.cursor, state]
      rfl
  | cursor c =>
      obtain rfl := of_decide_eq_true here
      refine ⟨?_, rfl, rfl, rfl, state⟩
      simp only [answer, PubSubChannel.cursor, state]
      rfl
  | restart => cases here

theorem acceptance_elsewhere (elsewhere : step.on channel = false) (given : KindAnswer) :
    acceptance channel (step, given) = none := by
  cases step with
  | publish now c data =>
      have other : c ≠ channel := of_decide_eq_false elsewhere
      cases given with
      | published result => cases result <;> simp [acceptance, other]
      | _ => rfl
  | _ => rfl

structure Kept (historySize historyTtl : Nat) (channel : String) (s : KindState) : Prop where
  size : s.kind.historySize = max historySize 1
  ttl : s.kind.historyTtl = historyTtl
  next : s.kind.nextOffset channel = (s.payloads channel).length
  numbered : s.publications channel = numbered channel (s.payloads channel)
  suffix : s.kind.retained channel <:+ KindState.numbered channel (s.payloads channel)
  bounded : (s.kind.retained channel).length ≤ max historySize 1
  stamped : ∀ e ∈ s.kind.entries channel,
    (s.acceptances channel)[e.offset]?.map Acceptance.stamp = some e.insertedAt

theorem boot_kept : (boot historySize historyTtl).Kept historySize historyTtl channel where
  size := rfl
  ttl := rfl
  next := PubSubChannel.withBounds_nextOffset _ _ _
  numbered := rfl
  suffix := by
    simp only [boot, PubSubChannel.withBounds_retained]
    exact List.nil_suffix
  bounded := by
    simp only [boot, PubSubChannel.withBounds_retained]
    exact Nat.zero_le _
  stamped := by
    simp [boot]

theorem Kept.shrink (kept : s.Kept historySize historyTtl channel)
    (size : t.kind.historySize = s.kind.historySize) (ttl : t.kind.historyTtl = s.kind.historyTtl)
    (same : t.acceptances channel = s.acceptances channel)
    (next : t.kind.nextOffset channel = s.kind.nextOffset channel)
    (history : t.kind.entries channel <:+ s.kind.entries channel) :
    t.Kept historySize historyTtl channel where
  size := size.trans kept.size
  ttl := ttl.trans kept.ttl
  next := by
    rw [next, kept.next, payloads, payloads, same]
  numbered := by
    have before := kept.numbered
    rwa [publications, payloads, ← same] at before
  suffix := by
    have before := (history.map (PubSubChannel.toPublication channel)).trans kept.suffix
    rwa [payloads, ← same] at before
  bounded := (history.map (PubSubChannel.toPublication channel)).length_le.trans kept.bounded
  stamped := by
    intro e member
    rw [same]
    exact kept.stamped e (history.subset member)

theorem Kept.grow {now : Nat} {data : Bytes} {p : Publication} (kept : s.Kept historySize historyTtl channel)
    (size : t.kind.historySize = s.kind.historySize) (ttl : t.kind.historyTtl = s.kind.historyTtl)
    (accepted : t.acceptances channel = s.acceptances channel ++ [⟨now, data, p⟩])
    (accepts : s.kind.Accepts channel data t.kind p)
    (entries : t.kind.entries channel <:+
      s.kind.entries channel ++ [⟨now, s.kind.nextOffset channel, data⟩])
    (bounded : (t.kind.retained channel).length ≤ s.kind.historySize)
    (few : (t.payloads channel).length < 2 ^ 64) : t.Kept historySize historyTtl channel := by
  have payloads_eq : t.payloads channel = s.payloads channel ++ [data] := by
    simp [payloads, accepted]
  have publications_eq : t.publications channel = s.publications channel ++ [p] := by
    simp [publications, accepted]
  have number : p = ⟨channel, (s.payloads channel).length, data⟩ := by
    rw [accepts.publication, kept.next]
  rw [payloads_eq, List.length_append, List.length_singleton] at few
  refine ⟨size.trans kept.size, ttl.trans kept.ttl, ?_, ?_, ?_, bounded.trans kept.size.le, ?_⟩
  · rw [accepts.next, kept.next, payloads_eq, List.length_append, List.length_singleton]
    exact Nat.min_eq_left (Nat.le_sub_one_of_lt few)
  · rw [publications_eq, payloads_eq, numbered_append, kept.numbered, number]
  · obtain ⟨k, history⟩ := accepts.history
    obtain ⟨older, retained⟩ := kept.suffix
    rw [history, payloads_eq, numbered_append, number]
    refine (List.drop_suffix _ _).trans ⟨older, ?_⟩
    rw [← List.append_assoc, retained]
  · intro e member
    rw [accepted]
    rcases List.mem_append.mp (entries.subset member) with old | new
    · have before := kept.stamped e old
      obtain ⟨_, found, -⟩ := Option.map_eq_some_iff.mp before
      rw [List.getElem?_append_left (List.getElem?_eq_some_iff.mp found).1]
      exact before
    · rw [List.mem_singleton.mp new, kept.next, payloads, List.length_map, List.getElem?_concat_length]
      rfl

theorem step_kept (kept : s.Kept historySize historyTtl channel) (lasting : step ≠ .restart)
    (stepped : (machine historySize historyTtl).step s step = some t)
    (few : (t.payloads channel).length < 2 ^ 64) : t.Kept historySize historyTtl channel := by
  obtain ⟨-, size, ttl⟩ := answer_settings historySize historyTtl lasting s.kind
  cases stepped
  by_cases elsewhere : step.on channel = false
  · have still := answer_elsewhere historySize historyTtl lasting elsewhere s.kind
    refine kept.shrink size ttl ?_ ?_ ?_
    · rw [acceptances_cons, acceptance_elsewhere elsewhere]
      exact List.append_nil _
    · simp only [PubSubChannel.nextOffset, still.state]
    · simp only [PubSubChannel.entries, still.state]
      exact List.suffix_rfl
  cases step with
  | publish now c data =>
      obtain rfl : c = channel := by simpa [KindStep.on] using elsewhere
      cases published : s.kind.onPublish now c data with
      | mk kind result =>
          simp only [answer, published] at size ttl few ⊢
          cases result with
          | error e =>
              cases PubSubChannel.onPublish_error published
              refine kept.shrink rfl rfl ?_ rfl List.suffix_rfl
              rw [acceptances_cons]
              exact List.append_nil _
          | ok p =>
              have accepted := acceptances_cons s c kind
                (.publish now c data, .published (.ok p))
              rw [acceptance, if_pos rfl] at accepted
              rcases s.kind.onPublish_entries now c data with refused | ⟨-, history, -⟩
              · cases refused.symm.trans published
              · rw [published] at history
                exact kept.grow size ttl accepted (PubSubChannel.onPublish_accepts published)
                  history (PubSubChannel.onPublish_length published).1 few
  | replay now c since =>
      obtain rfl : c = channel := by simpa [KindStep.on] using elsewhere
      obtain ⟨result, -, replays⟩ := s.kind.replaySince_replays now c since
      refine kept.shrink size ttl ?_ (replays.next c) ?_
      · rw [acceptances_cons]
        exact List.append_nil _
      · exact s.kind.replaySince_entries now c since c
  | subscribe c | cursor c =>
      refine kept.shrink rfl rfl ?_ rfl List.suffix_rfl
      rw [acceptances_cons]
      exact List.append_nil _
  | restart => exact absurd rfl lasting

theorem payloads_length_le (stepped : (machine historySize historyTtl).step s step = some t) :
    (s.payloads channel).length ≤ (t.payloads channel).length := by
  cases stepped
  simp only [payloads, List.length_map, acceptances_cons s, List.length_append]
  exact Nat.le_add_right _ _

theorem run_kept (run : (machine historySize historyTtl).Run Lasting (boot historySize historyTtl) s)
    (few : (s.payloads channel).length < 2 ^ 64) : s.Kept historySize historyTtl channel := by
  induction run with
  | refl => exact boot_kept
  | tail _ lasting stepped ih =>
      exact step_kept (ih (Nat.lt_of_le_of_lt (payloads_length_le stepped) few)) lasting stepped few

/-- A channel holds a publication right after it accepted one. -/
theorem run_filled
    (run : (machine historySize historyTtl).Run Lasting (boot historySize historyTtl) s)
    (few : (s.payloads channel).length < 2 ^ 64) {now : Nat} {data : Bytes} {p : Publication}
    {rest : List (KindStep × KindAnswer)}
    (last : s.log = (.publish now channel data, .published (.ok p)) :: rest) :
    0 < (s.kind.retained channel).length := by
  cases run with
  | refl => cases last
  | tail before _ stepped =>
      have kept := run_kept before (Nat.lt_of_le_of_lt (payloads_length_le stepped) few)
      cases stepped
      obtain ⟨entry, -⟩ := List.cons.inj last
      obtain ⟨rfl, given⟩ := Prod.mk.inj entry
      refine (PubSubChannel.onPublish_length (Prod.ext rfl (KindAnswer.published.inj given))).2 ?_
      rw [kept.size]
      exact Nat.lt_of_lt_of_le Nat.zero_lt_one (Nat.le_max_right _ _)

/-- The same calls on the channel, without those on others, leave the same answers and the same
state of the channel. -/
theorem run_alone (channel : String)
    (run : (machine historySize historyTtl).Run Lasting (boot historySize historyTtl) s) :
    ∃ t, (machine historySize historyTtl).Run (fun _ step => step.on channel = true)
        (boot historySize historyTtl) t ∧
      t.log = s.log.filter (fun entry => entry.1.on channel) ∧ Agree channel s.kind t.kind := by
  induction run with
  | refl => exact ⟨_, .refl _, rfl, rfl, rfl, rfl, rfl⟩
  | @tail u _ step _ lasting stepped ih =>
      obtain ⟨t, alone, log, agree⟩ := ih
      cases stepped
      by_cases here : step.on channel = true
      · obtain ⟨same, agree⟩ := answer_agree historySize historyTtl agree here
        refine ⟨_, alone.tail here rfl, ?_, agree⟩
        simp only [List.filter_cons, here, if_true, same, log]
      · have elsewhere := Bool.eq_false_iff.mpr here
        have still := answer_elsewhere historySize historyTtl lasting elsewhere u.kind
        refine ⟨t, alone, ?_, still.symm.trans agree⟩
        simp only [List.filter_cons, elsewhere, log]
        rfl

/-- The replay at `now` of what is above `since`. It first drops the publications that are older
than the TTL, up to the oldest one that is not. -/
structure Aged (historyTtl : Nat) (channel : String) (s : KindState) (now since : Nat)
    (gone kept : List Publication) : Prop where
  split : s.kind.retained channel = gone ++ kept
  expired : ∀ p ∈ gone, ∃ age, s.age channel now p = some age ∧ historyTtl < age
  fresh : ∀ p ∈ kept.head?, ∃ age, s.age channel now p = some age ∧ age ≤ historyTtl
  left : (s.kind.replaySince now channel since).1.retained channel = kept
  replayed : (s.kind.replaySince now channel since).2 =
    .ok (kept.filter fun p => since < p.offset)

structure Faithful (historySize historyTtl : Nat) (channel : String) (s : KindState) : Prop where
  numbered : s.publications channel = numbered channel (s.payloads channel)
  retained : ∃ k, k ≤ max 1 historySize ∧ k ≤ (s.payloads channel).length ∧
    s.kind.retained channel =
      (KindState.numbered channel (s.payloads channel)).drop ((s.payloads channel).length - k)
  filled : ∀ now data p rest, s.log = (.publish now channel data, .published (.ok p)) :: rest →
    1 ≤ (s.kind.retained channel).length
  replays : ∀ now since, ∃ gone kept, s.Aged historyTtl channel now since gone kept
  ordered : (s.kind.retained channel).Pairwise fun p q => p.offset < q.offset

theorem numbered_ordered (channel : String) (payloads : List Bytes) :
    (numbered channel payloads).Pairwise fun p q => p.offset < q.offset := by
  rw [← List.pairwise_map (f := Publication.offset), numbered_offsets]
  exact List.pairwise_lt_range

theorem Kept.age_eq (kept : s.Kept historySize historyTtl channel) {e : HistoryEntry}
    (member : e ∈ s.kind.entries channel) (now : Nat) :
    s.age channel now (PubSubChannel.toPublication channel e) = some (now - e.insertedAt) := by
  have stamp := congrArg (Option.map (now - ·)) (kept.stamped e member)
  rw [Option.map_map] at stamp
  exact stamp

theorem Kept.aged (kept : s.Kept historySize historyTtl channel) (now since : Nat) :
    ∃ gone fresh, s.Aged historyTtl channel now since gone fresh := by
  obtain ⟨gone, evicts⟩ := s.kind.replaySince_evicts now channel since
  have within : ∀ e, e ∈ gone ∨ e ∈ (s.kind.replaySince now channel since).1.entries channel →
      e ∈ s.kind.entries channel := by
    intro e member
    rw [evicts.split]
    exact List.mem_append.mpr member
  refine ⟨gone.map (PubSubChannel.toPublication channel), _, ?_, ?_, ?_, rfl, ?_⟩
  · have split := congrArg (List.map (PubSubChannel.toPublication channel)) evicts.split
    rw [List.map_append] at split
    exact split
  · intro p member
    obtain ⟨e, inside, rfl⟩ := List.mem_map.mp member
    refine ⟨_, kept.age_eq (within e (.inl inside)) now, ?_⟩
    rw [← kept.ttl]
    exact evicts.expired e inside
  · intro p oldest
    rw [PubSubChannel.retained, List.head?_map] at oldest
    obtain ⟨e, first, rfl⟩ := Option.map_eq_some_iff.mp oldest
    refine ⟨_, kept.age_eq (within e (.inr (List.mem_of_mem_head? first))) now, ?_⟩
    rw [← kept.ttl]
    exact evicts.fresh e first
  · obtain ⟨result, answered, replays⟩ := s.kind.replaySince_replays now channel since
    rw [answered, replays.result_eq]

/-- The history is a contiguous, bounded suffix of what the channel accepted, whatever is called
on other channels. -/
theorem history_faithful
    (run : (machine historySize historyTtl).Run Lasting (boot historySize historyTtl) s)
    (channel : String) (few : (s.payloads channel).length < 2 ^ 64) :
    s.Faithful historySize historyTtl channel ∧
      ∃ t, (machine historySize historyTtl).Run (fun _ step => step.on channel = true)
          (boot historySize historyTtl) t ∧
        t.log = s.log.filter (fun entry => entry.1.on channel) ∧
        t.kind.state.get channel = s.kind.state.get channel := by
  have kept := run_kept run few
  constructor
  · refine ⟨kept.numbered, ⟨(s.kind.retained channel).length, ?_, ?_, ?_⟩, ?_, kept.aged, ?_⟩
    · rw [Nat.max_comm]
      exact kept.bounded
    · rw [← numbered_length channel]
      exact kept.suffix.length_le
    · rw [← numbered_length channel]
      exact List.suffix_iff_eq_drop.mp kept.suffix
    · intro now data p rest last
      exact run_filled run few last
    · exact (numbered_ordered channel _).sublist kept.suffix.sublist
  · obtain ⟨t, alone, log, agree⟩ := run_alone channel run
    exact ⟨t, alone, log, agree.state⟩

def lasting (_ : KindState) (step : KindStep) : Bool := step ≠ .restart

theorem lasting_sound (s : KindState) (step : KindStep) (_ : True) (h : lasting s step = true) :
    Lasting s step :=
  of_decide_eq_true (p := step ≠ .restart) h

def lobbyCalls : List KindStep := [
  .publish 0 "rooms.lobby" [1], .publish 0 "news" [9], .publish 4 "rooms.lobby" [2],
  .subscribe "rooms.lobby", .publish 5 "rooms.lobby" [3], .publish 9 "rooms.lobby" [4]]

/-- At 15 the publications of 0 and 4 have expired and those of 5 and 9 have not. -/
theorem history_faithful_lobby :
    ∃ s, (machine 4 10).Run Lasting (boot 4 10) s ∧
      s.payloads "rooms.lobby" = [[1], [2], [3], [4]] ∧
      s.kind.retained "rooms.lobby" = numbered "rooms.lobby" [[1], [2], [3], [4]] ∧
      (s.kind.replaySince 15 "rooms.lobby" 0).2 =
        .ok [⟨"rooms.lobby", 2, [3]⟩, ⟨"rooms.lobby", 3, [4]⟩] ∧
      s.Faithful 4 10 "rooms.lobby" := by
  obtain ⟨s, run, payloads, retained, replayed⟩ := Machine.execWithin_witness (M := machine 4 10)
    (s := boot 4 10) lasting_sound (fun _ _ _ _ _ _ => trivial) trivial lobbyCalls
    (fun s => s.payloads "rooms.lobby" = [[1], [2], [3], [4]] ∧
      s.kind.retained "rooms.lobby" = numbered "rooms.lobby" [[1], [2], [3], [4]] ∧
      (s.kind.replaySince 15 "rooms.lobby" 0).2 =
        .ok [⟨"rooms.lobby", 2, [3]⟩, ⟨"rooms.lobby", 3, [4]⟩]) (by decide +kernel)
  refine ⟨s, run, payloads, retained, replayed, (history_faithful run "rooms.lobby" ?_).1⟩
  rw [payloads]
  decide

/-- Any two answers to subscribers of a channel with a restart between them have different
epochs. -/
def Distinguishes (log : List (KindStep × KindAnswer)) : Prop :=
  ∀ channel first second newer between older,
    log = newer ++ (.subscribe channel, .subscribed (.ok second)) ::
      (between ++ (.subscribe channel, .subscribed (.ok first)) :: older) →
    (.restart, .restarted) ∈ between → first.epoch ≠ second.epoch

def Straddled (steps : List KindStep) : Prop :=
  ∃ channel newer between older, channel.isEmpty = false ∧ .restart ∈ between ∧
    steps = newer ++ .subscribe channel :: (between ++ .subscribe channel :: older)

structure Constant (s : KindState) : Prop where
  epoch : s.kind.epoch = 1
  restarted : ∀ given, (.restart, given) ∈ s.log → given = .restarted
  subscribed : ∀ channel given, (.subscribe channel, given) ∈ s.log → channel.isEmpty = false →
    ∃ offset, given = .subscribed (.ok ⟨1, offset⟩)
  accepted : ∀ channel cursor, (.subscribe channel, .subscribed (.ok cursor)) ∈ s.log →
    channel.isEmpty = false

theorem onSubscribe_filled {ps : PubSubChannel} (filled : channel.isEmpty = false) :
    ps.onSubscribe channel = .ok ⟨ps.epoch, ps.nextOffset channel - 1⟩ := by
  have cursor : ps.cursor channel = ⟨ps.epoch, ps.nextOffset channel - 1⟩ := by
    cases found : ps.state.get channel <;>
      simp [PubSubChannel.cursor, PubSubChannel.cursorLocked, PubSubChannel.nextOffset, found]
  simp [PubSubChannel.onSubscribe, filled, cursor]

theorem step_constant (constant : s.Constant)
    (stepped : (machine historySize historyTtl).step s step = some t) : t.Constant := by
  cases stepped
  refine ⟨?_, ?_, ?_, ?_⟩
  · by_cases restart : step = .restart
    · subst restart
      rfl
    · exact (answer_settings historySize historyTtl restart s.kind).1.trans constant.epoch
  · intro given member
    rcases List.mem_cons.mp member with last | earlier
    · obtain ⟨rfl, rfl⟩ := Prod.mk.inj last
      rfl
    · exact constant.restarted given earlier
  · intro channel given member filled
    rcases List.mem_cons.mp member with last | earlier
    · obtain ⟨rfl, rfl⟩ := Prod.mk.inj last
      refine ⟨s.kind.nextOffset channel - 1, ?_⟩
      simp only [answer, onSubscribe_filled filled, constant.epoch]
    · exact constant.subscribed channel given earlier filled
  · intro channel cursor member
    rcases List.mem_cons.mp member with last | earlier
    · obtain ⟨rfl, given⟩ := Prod.mk.inj last
      cases empty : channel.isEmpty with
      | false => rfl
      | true => simp [answer, PubSubChannel.onSubscribe, empty] at given
    · exact constant.accepted channel cursor earlier

theorem run_constant {ok : KindState → KindStep → Prop}
    (run : (machine historySize historyTtl).Run ok (boot historySize historyTtl) s) :
    s.Constant :=
  run.invariant ⟨rfl, nofun, nofun, nofun⟩ fun _ _ _ constant _ stepped =>
    step_constant constant stepped

theorem split_at_step {log : List (KindStep × KindAnswer)} {newer older : List KindStep}
    (steps : log.map Prod.fst = newer ++ step :: older) :
    ∃ given before after, log = before ++ (step, given) :: after ∧
      before.map Prod.fst = newer ∧ after.map Prod.fst = older := by
  obtain ⟨before, rest, rfl, mapped, tail⟩ := List.map_eq_append_iff.mp steps
  obtain ⟨⟨_, given⟩, after, rfl, rfl, remaining⟩ := List.map_eq_cons_iff.mp tail
  exact ⟨given, before, after, rfl, mapped, remaining⟩

/-- Epochs tell lifetimes apart exactly as long as nobody asks twice across a restart. -/
theorem epoch_distinguishes
    (run : (machine historySize historyTtl).Run Machine.free (boot historySize historyTtl) s) :
    Distinguishes s.log ↔ ¬ Straddled (s.log.map Prod.fst) := by
  have constant := run_constant run
  constructor
  · rintro distinguishes ⟨channel, newer, between, older, filled, restart, steps⟩
    obtain ⟨second, later, rest, split, -, steps⟩ := split_at_step steps
    obtain ⟨first, crossed, earlier, rfl, rfl, -⟩ := split_at_step steps
    obtain ⟨⟨_, given⟩, member, rfl⟩ := List.mem_map.mp restart
    have logged : ∀ entry ∈ (.subscribe channel, second) :: (crossed ++ (.subscribe channel, first) ::
        earlier), entry ∈ s.log := by
      intro entry inside
      rw [split]
      exact List.mem_append_right _ inside
    obtain ⟨n₂, rfl⟩ := constant.subscribed channel second (logged _ (by simp)) filled
    obtain ⟨n₁, rfl⟩ := constant.subscribed channel first (logged _ (by simp)) filled
    cases constant.restarted given (logged _ (by simp [member]))
    exact distinguishes channel ⟨1, n₁⟩ ⟨1, n₂⟩ later crossed earlier split member rfl
  · intro unstraddled channel first second newer between older split restart _
    refine unstraddled ⟨channel, newer.map Prod.fst, between.map Prod.fst, older.map Prod.fst, ?_,
      List.mem_map_of_mem restart, ?_⟩
    · refine constant.accepted channel second ?_
      rw [split]
      exact List.mem_append_right _ List.mem_cons_self
    · rw [split]
      simp

def restartedLog : List (KindStep × KindAnswer) := [
  (.replay 0 "rooms.lobby" 1, .replayed (.ok [])),
  (.subscribe "rooms.lobby", .subscribed (.ok ⟨1, 0⟩)),
  (.publish 0 "rooms.lobby" [7], .published (.ok ⟨"rooms.lobby", 0, [7]⟩)),
  (.restart, .restarted),
  (.subscribe "rooms.lobby", .subscribed (.ok ⟨1, 1⟩)),
  (.publish 0 "rooms.lobby" [2], .published (.ok ⟨"rooms.lobby", 1, [2]⟩)),
  (.publish 0 "rooms.lobby" [1], .published (.ok ⟨"rooms.lobby", 0, [1]⟩))]

/-- The same number of the same epoch names two publications; a client that resumes with the
old cursor is told that it missed nothing. -/
theorem restarted_epoch_repeats :
    ∃ s, (machine 256 300).Run Machine.free (boot 256 300) s ∧ s.log = restartedLog ∧
      s.kind.retained "rooms.lobby" = [⟨"rooms.lobby", 0, [7]⟩] ∧ ¬ Distinguishes s.log := by
  obtain ⟨s, -, run, log, retained⟩ := Machine.exec_witness (M := machine 256 300)
    (s := boot 256 300) (restartedLog.map Prod.fst).reverse
    (fun s => s.log = restartedLog ∧
      s.kind.retained "rooms.lobby" = [⟨"rooms.lobby", 0, [7]⟩]) (by decide +kernel)
  refine ⟨s, run, log, retained, fun distinguishes => ?_⟩
  exact distinguishes "rooms.lobby" ⟨1, 1⟩ ⟨1, 0⟩ (restartedLog.take 1)
    ((restartedLog.drop 2).take 2) (restartedLog.drop 5) log (by decide) rfl

theorem epoch_distinguishes_restarted :
    ∃ s, (machine 256 300).Run Machine.free (boot 256 300) s ∧ (.restart, .restarted) ∈ s.log ∧
      (Distinguishes s.log ↔ ¬ Straddled (s.log.map Prod.fst)) := by
  obtain ⟨s, -, run, restarted⟩ := Machine.exec_witness (M := machine 256 300)
    (s := boot 256 300) [.subscribe "rooms.lobby", .restart, .subscribe "news"]
    (fun s => (.restart, .restarted) ∈ s.log) (by decide +kernel)
  exact ⟨s, run, restarted, epoch_distinguishes run⟩

end KindState

end Cherenkov
