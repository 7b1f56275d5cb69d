import Cherenkov.ChannelHistory
import Cherenkov.Expiry
import Cherenkov.Server

/-! `build_hub` makes the default kind with the bounds of `channel_pubsub`; a namespace listed under
`channel_kinds` as `pubsub` gets an instance of its own from `PubSubChannel::new`, whose bounds are
constants. -/

namespace Cherenkov

open PubSubChannel

def KindStep.time : KindStep → Option Nat
  | .publish now _ _ | .replay now _ _ => some now
  | .subscribe _ | .cursor _ | .restart => none

namespace KindState

def readings (s : KindState) : List Nat := s.log.filterMap fun entry => entry.1.time

/-- No restart, and no call reads the clock before an earlier one did. -/
def Timely (s : KindState) (step : KindStep) : Prop :=
  step ≠ .restart ∧ ∀ now ∈ step.time, ∀ earlier ∈ s.readings, earlier ≤ now

end KindState

/-- In every lifetime of the kind the channel retains at most `size` entries; if its calls do not
overlap, a replay at any later time returns none older than `ttl`. -/
structure PubSubChannel.Observes (ps : PubSubChannel) (channel : String) (size ttl : Nat) :
    Prop where
  retained : ∀ s, (KindState.machine ps.historySize ps.historyTtl).Run KindState.Lasting ⟨ps, []⟩ s →
    (s.kind.retained channel).length ≤ size
  replayed : ∀ s, (KindState.machine ps.historySize ps.historyTtl).Run KindState.Timely ⟨ps, []⟩ s →
    ∀ now since, (∀ earlier ∈ s.readings, earlier ≤ now) →
      ∀ e ∈ s.kind.replayed now channel since, now - e.insertedAt ≤ ttl

namespace KindState

variable {historySize historyTtl size ttl : Nat} {ps : PubSubChannel} {s t : KindState}
  {step : KindStep} {channel : String}

structure Within (ps : PubSubChannel) (s : KindState) : Prop where
  size : s.kind.historySize = ps.historySize
  ttl : s.kind.historyTtl = ps.historyTtl
  bounded : ∀ channel, (s.kind.retained channel).length ≤ ps.historySize
  nameless : s.kind.entries "" = []

theorem publish_bounded {bound : Nat} (size : ps.historySize = bound)
    (bounded : ∀ channel, (ps.retained channel).length ≤ bound) (now : Nat) (c : String)
    (data : Bytes) (channel : String) :
    ((ps.onPublish now c data).1.retained channel).length ≤ bound := by
  cases published : ps.onPublish now c data with
  | mk kind result =>
      cases result with
      | error e =>
          rw [onPublish_error published]
          exact bounded channel
      | ok p =>
          by_cases here : channel = c
          · subst here
            exact (onPublish_length published).1.trans size.le
          · rw [(onPublish_accepts published).otherHistory channel here]
            exact bounded channel

theorem publish_nameless (nameless : ps.entries "" = []) (now : Nat) (c : String) (data : Bytes) :
    (ps.onPublish now c data).1.entries "" = [] := by
  by_cases empty : c = ""
  · subst empty
    exact nameless
  · rcases ps.onPublish_entries now c data with refused | ⟨-, -, elsewhere⟩
    · rw [refused]
      exact nameless
    · rw [elsewhere "" (Ne.symm empty)]
      exact nameless

theorem step_within (within : Within ps s) (lasting : step ≠ .restart)
    (stepped : (machine historySize historyTtl).step s step = some t) : Within ps t := by
  obtain ⟨-, size, ttl⟩ := answer_settings historySize historyTtl lasting s.kind
  cases stepped
  refine ⟨size.trans within.size, ttl.trans within.ttl, ?_, ?_⟩
  · intro channel
    cases step with
    | publish now c data => exact publish_bounded within.size within.bounded now c data channel
    | replay now c since =>
        have shrunk := (s.kind.replaySince_entries now c since channel).length_le
        have before := within.bounded channel
        simp only [retained, List.length_map] at before ⊢
        exact shrunk.trans before
    | subscribe c | cursor c => exact within.bounded channel
    | restart => exact absurd rfl lasting
  · cases step with
    | publish now c data => exact publish_nameless within.nameless now c data
    | replay now c since =>
        have shrunk := s.kind.replaySince_entries now c since ""
        rw [within.nameless] at shrunk
        exact List.suffix_nil.mp shrunk
    | subscribe c | cursor c => exact within.nameless
    | restart => exact absurd rfl lasting

theorem run_within {ok : KindState → KindStep → Prop}
    (lasting : ∀ s step, ok s step → step ≠ .restart)
    (run : (machine historySize historyTtl).Run ok ⟨.withBounds size ttl, []⟩ s) :
    Within (.withBounds size ttl) s := by
  refine run.invariant ⟨rfl, rfl, ?_, withBounds_entries _ _ _⟩ ?_
  · intro channel
    rw [withBounds_retained]
    exact Nat.zero_le _
  · intro s step t within admitted stepped
    exact step_within within (lasting s step admitted) stepped

/-- Stamps ascend, and each is a reading that was taken. -/
structure Tidy (s : KindState) : Prop where
  ascending : ∀ channel, s.kind.Ascending channel
  stamped : ∀ channel, ∀ e ∈ s.kind.entries channel, e.insertedAt ∈ s.readings

theorem Tidy.shrink (tidy : s.Tidy)
    (entries : ∀ channel, t.kind.entries channel <:+ s.kind.entries channel)
    (readings : s.readings ⊆ t.readings) : t.Tidy where
  ascending channel := List.Pairwise.sublist (entries channel).sublist (tidy.ascending channel)
  stamped channel e member := readings (tidy.stamped channel e ((entries channel).subset member))

theorem readings_cons (kind : PubSubChannel) (entry : KindStep × KindAnswer)
    (log : List (KindStep × KindAnswer)) :
    (KindState.mk kind (entry :: log)).readings =
      entry.1.time.toList ++ (KindState.mk kind log).readings := by
  cases read : entry.1.time <;> simp [readings, read]

theorem publish_tidy (tidy : s.Tidy) {now : Nat} {c : String} {data : Bytes} {given : KindAnswer}
    (latest : ∀ earlier ∈ s.readings, earlier ≤ now) :
    (KindState.mk (s.kind.onPublish now c data).1 ((.publish now c data, given) :: s.log)).Tidy := by
  constructor
  · exact onPublish_ascending tidy.ascending fun e member =>
      latest _ (tidy.stamped c e member)
  · intro channel e member
    rw [readings_cons]
    rcases s.kind.onPublish_entries now c data with refused | ⟨-, here, elsewhere⟩
    · rw [refused] at member
      exact List.mem_append_right _ (tidy.stamped channel e member)
    · by_cases same : channel = c
      · subst same
        rcases List.mem_append.mp (here.subset member) with earlier | own
        · exact List.mem_append_right _ (tidy.stamped channel e earlier)
        · rw [List.mem_singleton.mp own]
          exact List.mem_append_left _ (List.mem_singleton.mpr rfl)
      · rw [elsewhere channel same] at member
        exact List.mem_append_right _ (tidy.stamped channel e member)

theorem step_tidy (tidy : s.Tidy) (timely : s.Timely step)
    (stepped : (machine historySize historyTtl).step s step = some t) : t.Tidy := by
  cases stepped
  obtain ⟨lasting, later⟩ := timely
  cases step with
  | publish now c data => exact publish_tidy tidy (later now rfl)
  | replay now c since =>
      refine tidy.shrink (s.kind.replaySince_entries now c since) ?_
      rw [readings_cons]
      exact List.subset_append_right _ _
  | subscribe c | cursor c =>
      refine tidy.shrink (fun _ => List.suffix_rfl) ?_
      rw [readings_cons]
      exact List.subset_append_right _ _
  | restart => exact absurd rfl lasting

theorem run_tidy
    (run : (machine historySize historyTtl).Run Timely ⟨.withBounds size ttl, []⟩ s) : s.Tidy := by
  refine run.invariant ⟨?_, ?_⟩ fun _ _ _ tidy timely stepped => step_tidy tidy timely stepped
  · intro channel
    rw [Ascending, withBounds_entries]
    exact List.Pairwise.nil
  · intro channel e member
    rw [withBounds_entries] at member
    cases member

theorem evictExpired_fresh {state : ChannelState} {now : Nat}
    (fresh : ∀ e ∈ state.entries, now - e.insertedAt ≤ ps.historyTtl) :
    ps.evictExpired state now = state := by
  have none_expired : state.entries.dropWhile (fun e => ps.historyTtl < now - e.insertedAt) =
      state.entries := by
    cases kept : state.entries with
    | nil => rfl
    | cons first rest =>
        have young := fresh first (kept ▸ List.mem_cons_self)
        exact List.dropWhile_cons_of_neg (by simpa using young)
  simp only [evictExpired, none_expired]

theorem onPublish_named (named : channel ≠ "") (now : Nat) (data : Bytes) :
    (ps.onPublish now channel data).2 = .ok ⟨channel, ps.nextOffset channel, data⟩ := by
  have filled : ¬channel.isEmpty = true := by simpa using named
  simp only [onPublish, if_neg filled, nextOffset]

theorem onPublish_room (named : channel ≠ "") (data : Bytes)
    (room : (ps.entries channel).length < ps.historySize) :
    (ps.onPublish 0 channel data).1.entries channel =
      ps.entries channel ++ [⟨0, ps.nextOffset channel, data⟩] := by
  have filled : ¬channel.isEmpty = true := by simpa using named
  have kept : ps.evictExpired ((ps.state.get channel).getD ⟨0, []⟩) 0 = _ :=
    evictExpired_fresh fun e _ => by
      rw [Nat.zero_sub]
      exact Nat.zero_le _
  have spare : (ps.entries channel).length + 1 - ps.historySize = 0 := Nat.sub_eq_zero_of_le room
  simp only [onPublish, if_neg filled, entries, DashMap.get_put_self, Option.getD_some, append,
    kept, List.length_append, List.length_singleton]
  exact (congrArg (List.drop · _) spare).trans List.drop_zero

theorem onPublish_historySize (ps : PubSubChannel) (now : Nat) (channel : String) (data : Bytes) :
    (ps.onPublish now channel data).1.historySize = ps.historySize := by
  unfold onPublish
  split <;> rfl

theorem onPublish_own (named : channel ≠ "") (now : Nat) (data : Bytes)
    (room : 0 < ps.historySize) :
    ⟨now, ps.nextOffset channel, data⟩ ∈ (ps.onPublish now channel data).1.entries channel := by
  have filled : ¬channel.isEmpty = true := by simpa using named
  simp only [onPublish, if_neg filled, entries, DashMap.get_put_self, Option.getD_some, append,
    nextOffset]
  rw [List.drop_append_of_le_length (by simp only [List.length_append, List.length_singleton]; omega)]
  exact List.mem_append_right _ (List.mem_singleton.mpr rfl)

theorem publish_run {start : KindState} (run : (machine historySize historyTtl).Run Timely start s)
    (still : ∀ earlier ∈ s.readings, earlier = 0) (channel : String) (data : Bytes) :
    ∃ t, (machine historySize historyTtl).Run Timely start t ∧
      t.kind = (s.kind.onPublish 0 channel data).1 ∧ ∀ earlier ∈ t.readings, earlier = 0 := by
  have timely : s.Timely (.publish 0 channel data) := by
    refine ⟨by simp, ?_⟩
    intro now same earlier member
    rw [still earlier member]
    exact Nat.zero_le now
  refine ⟨_, run.tail timely rfl, rfl, ?_⟩
  intro earlier member
  rw [readings_cons] at member
  rcases List.mem_append.mp member with own | before
  · exact List.mem_singleton.mp own
  · exact still earlier before

theorem fill_run (named : channel ≠ "") (size ttl : Nat) {count : Nat} (room : count ≤ max size 1) :
    ∃ s, (machine historySize historyTtl).Run Timely ⟨.withBounds size ttl, []⟩ s ∧
      (∀ earlier ∈ s.readings, earlier = 0) ∧ (s.kind.entries channel).length = count := by
  induction count with
  | zero =>
      refine ⟨_, .refl _, nofun, ?_⟩
      simp only [withBounds_entries, List.length_nil]
  | succ count ih =>
      obtain ⟨s, run, still, filled⟩ := ih (Nat.le_of_succ_le room)
      have within := run_within (fun _ _ timely => timely.1) run
      have below : (s.kind.entries channel).length < s.kind.historySize := by
        rw [filled, within.size]
        exact room
      obtain ⟨t, longer, kind, still⟩ := publish_run run still channel []
      refine ⟨t, longer, still, ?_⟩
      rw [kind, onPublish_room named [] below, List.length_append, filled, List.length_singleton]

/-- Two publishes, of which the second can be replayed until it expires. -/
theorem aged_run (named : channel ≠ "") (size ttl : Nat) :
    ∃ s, (machine historySize historyTtl).Run Timely ⟨.withBounds size ttl, []⟩ s ∧
      (∀ earlier ∈ s.readings, earlier ≤ ttl) ∧
      ⟨0, 1, []⟩ ∈ s.kind.replayed ttl channel 0 := by
  obtain ⟨s, run, firstKind, still⟩ := publish_run (Machine.Run.refl
    (M := machine historySize historyTtl) ⟨.withBounds size ttl, []⟩) nofun channel []
  obtain ⟨t, run, secondKind, still⟩ := publish_run run still channel []
  have within := run_within (fun _ _ timely => timely.1) run
  have tidy := run_tidy run
  have numbered : s.kind.nextOffset channel = 1 := by
    rw [firstKind, (onPublish_accepts (Prod.ext rfl (onPublish_named named 0 []))).next,
      withBounds_nextOffset]
    rfl
  have room : 0 < s.kind.historySize := by
    have size := within.size
    rw [secondKind, onPublish_historySize] at size
    rw [size]
    exact Nat.lt_of_lt_of_le Nat.zero_lt_one (Nat.le_max_right _ _)
  refine ⟨t, run, ?_, ?_⟩
  · intro earlier member
    rw [still earlier member]
    exact Nat.zero_le ttl
  · rw [replayed, evictExpired_fresh]
    · refine List.mem_filter.mpr ⟨?_, rfl⟩
      have own : _ ∈ (s.kind.onPublish 0 channel []).1.entries channel :=
        onPublish_own named 0 [] room
      rw [numbered, ← secondKind] at own
      exact own
    · intro e member
      rw [still _ (tidy.stamped channel e member), Nat.sub_zero, within.ttl]
      exact Nat.le_refl ttl

/-- A kind observes the bounds that its own do not exceed, and no others. -/
theorem withBounds_observes (channel : String) (size ttl most oldest : Nat) :
    (PubSubChannel.withBounds size ttl).Observes channel most oldest ↔
      channel = "" ∨ max size 1 ≤ most ∧ ttl ≤ oldest := by
  constructor
  · intro observes
    by_cases named : channel = ""
    · exact .inl named
    · refine .inr ⟨?_, ?_⟩
      · obtain ⟨s, run, -, filled⟩ := fill_run named size ttl (Nat.le_refl _)
        have bounded := observes.retained s (run.mono fun _ _ timely => timely.1)
        rwa [retained, List.length_map, ← entries, filled] at bounded
      · obtain ⟨s, run, earlier, own⟩ := aged_run named size ttl
        exact observes.replayed s run ttl 0 earlier _ own
  · intro bounds
    constructor
    · intro s run
      have within := run_within (fun _ _ lasting => lasting) run
      rcases bounds with rfl | ⟨few, -⟩
      · rw [retained, ← entries, within.nameless]
        exact Nat.zero_le _
      · exact (within.bounded channel).trans few
    · intro s run now since _ e member
      have within := run_within (fun _ _ timely => timely.1) run
      rcases bounds with rfl | ⟨-, soon⟩
      · have stored := mem_of_mem_replayed member
        rw [within.nameless] at stored
        cases stored
      · have fresh := ((run_tidy run).ascending channel).fresh member
        rw [within.ttl] at fresh
        exact fresh.trans soon

end KindState

section Configured

variable {ν ω δ υ δ' β τ ε κ : Type} {host : Host ν ω δ υ δ' β τ} {config : ServerConfig ν}
  {built : HubBuilt (AnyKind δ δ') β τ Nat} {channel : String}

theorem HubBuilder.build_kind {K : ChannelKind κ} {b : HubBuilder κ β τ ε}
    {built : HubBuilt κ β τ ε} (composed : b.build K = .ok built) {number : Nat} {kind : κ}
    (registered : b.kind = some (number, kind)) : built.hub.kind = number := by
  unfold build at composed
  rw [registered] at composed
  split at composed
  · cases composed
  · cases composed
  · next same _ =>
      cases composed
      exact congrArg Prod.fst (Option.some.inj same).symm

theorem HubBuilder.build_default {K : ChannelKind κ} {b : HubBuilder κ β τ ε}
    {built : HubBuilt κ β τ ε} {first : κ} {l : List (String × κ)} (one : b.instances = [first])
    (kind : b.kind = some (0, first)) (unlisted : b.namespaceKinds = ∅)
    (distinct : (l.map Prod.fst).Nodup) (composed : (b.withChannelKinds l).build K = .ok built) :
    built.hub.kind = 0 ∧ built.kinds 0 = first ∧
      ∀ key, key ∉ l.map Prod.fst → built.hub.namespaceKinds key = none := by
  have registers := b.registers l distinct
  obtain ⟨-, named, -, states⟩ := build_eq_ok composed
  refine ⟨build_kind composed ((b.withChannelKinds_eq l).2.1.trans kind), ?_, ?_⟩
  · apply states
    rw [registers.instances, one]
    rfl
  · intro key absent
    rw [named, registers.others key absent, unlisted]
    exact DashMap.get_empty key

theorem buildHub_default (accepted : buildHub host config = .ok built) :
    built.hub.kind = 0 ∧
      built.kinds 0 = .pubsub (.withBounds config.channelPubsub.historySize
        config.channelPubsub.historyTtlSeconds) ∧
      ∀ key, key ∉ config.channelKinds.keys → built.hub.namespaceKinds key = none := by
  simp only [buildHub, Fallible.bind_eq_ok, Fallible.mapError_eq_ok] at accepted
  obtain ⟨broker, -, _, -, _, -, _, -, composed⟩ := accepted
  have listed : (buildNamespaceKinds config.channelKinds : List (String × AnyKind δ δ')).map
      Prod.fst = config.channelKinds.keys := by
    simp only [buildNamespaceKinds, List.map_map, Function.comp_def, ConfigMap.keys]
  have default := HubBuilder.build_default rfl rfl rfl (listed ▸ config.channelKinds.nodup) composed
  rwa [listed] at default

/-- A listed namespace has the instance of its entry, any other the default. -/
theorem routed_instance (accepted : buildHub host config = .ok built) (channel : String) :
    (∃ name, (namespaceOf channel, name) ∈ config.channelKinds.entries ∧
        built.kinds (built.hub.kindFor channel) = name.new) ∨
      namespaceOf channel ∉ config.channelKinds.keys ∧
        built.kinds (built.hub.kindFor channel) =
          .pubsub (.withBounds config.channelPubsub.historySize
            config.channelPubsub.historyTtlSeconds) := by
  obtain ⟨kind, default, unlisted⟩ := buildHub_default accepted
  by_cases listed : namespaceOf channel ∈ config.channelKinds.keys
  · obtain ⟨⟨key, name⟩, member, same⟩ := List.mem_map.mp listed
    obtain ⟨i, found⟩ := List.mem_iff_getElem?.mp member
    obtain ⟨named, state⟩ := (buildHub_composed accepted).instances i key name found
    obtain rfl : key = namespaceOf channel := same
    refine .inl ⟨name, member, ?_⟩
    rw [Hub.kindFor, named, Option.getD_some, state]
  · refine .inr ⟨listed, ?_⟩
    rw [Hub.kindFor, unlisted _ listed, Option.getD_none, kind, default]

def AnyKind.Lives (ps : PubSubChannel) (kind : AnyKind δ δ') : Prop :=
  ∃ t, (KindState.machine ps.historySize ps.historyTtl).Run KindState.Lasting ⟨ps, []⟩ t ∧
    kind = .pubsub t.kind

theorem kinds_live (Y : Yrs δ υ) (A : Automerge δ') (ps : PubSubChannel) :
    (AnyKind.kinds Y A).Keeps (AnyKind.Lives ps) where
  onSubscribe kind now channel lives := by
    obtain ⟨t, run, rfl⟩ := lives
    exact ⟨t, run, rfl⟩
  onUnsubscribe kind now channel lives := by
    obtain ⟨t, run, rfl⟩ := lives
    exact ⟨t, run, rfl⟩
  onPublish kind now channel data lives := by
    obtain ⟨t, run, rfl⟩ := lives
    have lasting : t.Lasting (.publish now channel data) := by simp [KindState.Lasting]
    exact ⟨_, run.tail lasting rfl, rfl⟩
  replaySince kind now channel since lives := by
    obtain ⟨t, run, rfl⟩ := lives
    have lasting : t.Lasting (.replay now channel since) := by simp [KindState.Lasting]
    exact ⟨_, run.tail lasting rfl, rfl⟩

theorem hub_kind_lives (accepted : buildHub host config = .ok built) {number : Nat}
    {ps : PubSubChannel} (start : built.kinds number = .pubsub ps) {s : State (AnyKind δ δ') β τ}
    (run : built.hub.machine.Run Machine.free built.boot s) : (s.shared.kinds number).Lives ps := by
  refine run.invariant (I := fun s => (s.shared.kinds number).Lives ps) ⟨_, .refl _, start⟩ ?_
  intro s l t before _ stepped
  refine step_keeps_one ?_ before stepped
  rw [(buildHub_composed accepted).kinds]
  exact kinds_live host.yrs host.automerge ps

/-- A channel keeps to the configured bounds exactly if its namespace is not listed as `pubsub`
or the constants of `PubSubChannel::new` are within them; its instance in the hub lives as the
bounds say. -/
theorem configured_bounds (accepted : buildHub host config = .ok built) {ps : PubSubChannel}
    (routed : built.kinds (built.hub.kindFor channel) = .pubsub ps) :
    (ps.Observes channel (max 1 config.channelPubsub.historySize)
        config.channelPubsub.historyTtlSeconds ↔
      channel = "" ∨ (namespaceOf channel, .pubsub) ∉ config.channelKinds.entries ∨
        256 ≤ max 1 config.channelPubsub.historySize ∧
          300 ≤ config.channelPubsub.historyTtlSeconds) ∧
      ∀ s, built.hub.machine.Run Machine.free built.boot s →
        (s.shared.kinds (built.hub.kindFor channel)).Lives ps := by
  refine ⟨?_, fun s run => hub_kind_lives accepted routed run⟩
  rcases routed_instance accepted channel with ⟨name, listed, own⟩ | ⟨unlisted, own⟩
  · rw [routed] at own
    cases name with
    | pubsub =>
        obtain rfl := AnyKind.pubsub.inj own
        rw [KindState.withBounds_observes]
        simp only [listed, not_true, false_or]
        rfl
    | crdtYjs => cases own
    | crdtAutomerge => cases own
  · rw [routed] at own
    obtain rfl := AnyKind.pubsub.inj own
    have absent : (namespaceOf channel, ChannelKindName.pubsub) ∉ config.channelKinds.entries :=
      fun listed => unlisted (List.mem_map_of_mem listed)
    rw [KindState.withBounds_observes]
    simp only [absent, not_false_eq_true, true_or, or_true, iff_true]
    exact .inr ⟨(Nat.max_comm _ _).le, Nat.le_refl _⟩

end Configured

/-- Two entries for a minute, and one namespace listed as what it would be anyway. -/
def explicit : ServerConfig Bool where
  broker := ⟨.memory, 1024, none, none⟩
  channelPubsub := ⟨2, 60⟩
  namespaces := .empty
  auth := none
  acl := none
  channelKinds := ⟨[("rooms", .pubsub)], List.pairwise_singleton _ _⟩

def AnyKind.pubsub? {δ δ' : Type} : AnyKind δ δ' → Option PubSubChannel
  | .pubsub k => some k
  | _ => none

def thrice : List (Label Nat) :=
  .start (.openSession 16) :: List.replicate 5 (.advance 0 0 0) ++
    [1, 2, 3].flatMap fun call =>
      .start (.publish ⟨0, "rooms.lobby", [call]⟩) :: List.replicate 6 (.advance call.toNat 0 0)

/-- The history holds a third entry, and after more than a minute the last two are replayed. -/
theorem explicit_kind_unbounded :
    ∃ built, buildHub binary explicit = .ok built ∧
      ∃ t, built.hub.machine.exec built.boot thrice = some t ∧
        built.hub.machine.Run Machine.free built.boot t ∧
        (t.shared.kinds (built.hub.kindFor "rooms.lobby")).pubsub?.map (fun ps =>
            ((ps.retained "rooms.lobby").length, ps.replayed 61 "rooms.lobby" 0)) =
          some (3, [⟨0, 1, [2]⟩, ⟨0, 2, [3]⟩]) :=
  ⟨_, rfl, Machine.exec_witness _ _ (by decide +kernel)⟩

theorem configured_bounds_explicit :
    ∃ built, buildHub binary explicit = .ok built ∧
      built.kinds (built.hub.kindFor "rooms.lobby") = .pubsub (.withBounds 256 300) ∧
      built.kinds (built.hub.kindFor "news") = .pubsub (.withBounds 2 60) ∧
      ¬(PubSubChannel.withBounds 256 300).Observes "rooms.lobby" 2 60 ∧
      (PubSubChannel.withBounds 2 60).Observes "news" 2 60 := by
  have accepted : buildHub binary explicit = .ok _ := rfl
  have rooms : (PubSubChannel.withBounds 256 300).Observes "rooms.lobby" 2 60 ↔ _ :=
    (configured_bounds accepted rfl).1
  have news : (PubSubChannel.withBounds 2 60).Observes "news" 2 60 ↔ _ :=
    (configured_bounds accepted rfl).1
  refine ⟨_, accepted, rfl, rfl, ?_, ?_⟩
  · rw [rooms]
    decide +kernel
  · rw [news]
    decide +kernel

end Cherenkov
