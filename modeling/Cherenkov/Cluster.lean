import Cherenkov.Library.Machine
import Cherenkov.Hub.Carriage
import Cherenkov.Hub.Isolation
import Cherenkov.RedisBroker
import Cherenkov.Server

/-! Several processes, each with the hub that `build_hub` made of its own configuration and with
kind instances of its own, and one Redis between them. Fan-out is cluster-wide; offsets are handed
out by each process for itself. -/

namespace Cherenkov

open Fallible

variable {ι ν ω δ υ δ' κ β τ ε : Type} {ps : PubSubChannel} {channel : String} {p : Publication}

def brokerComponent : Component (State κ β τ) β where
  get s := s.shared.broker
  set s b := { s with shared := { s.shared with broker := b } }
  set_get _ := rfl

abbrev Cluster (ι δ δ' : Type) :=
  Family ι (State (AnyKind δ δ') (Redis ι) (RedisStream ι)) (Redis ι)

/-- Processes whose configurations were accepted and whose brokers are clients of one server. -/
structure Deployment (ι ν ω δ υ δ' : Type) [DecidableEq ι] where
  host : ι → Host ν ω δ υ δ' (Redis ι) (RedisStream ι)
  config : ι → ServerConfig ν
  built : ι → HubBuilt (AnyKind δ δ') (Redis ι) (RedisStream ι) Nat
  subscribeError : ι → Nat → Option String
  publishError : ι → Nat → Option String
  accepted : ∀ i, buildHub (host i) (config i) = .ok (built i)
  backend : ∀ i, (config i).broker.backend = .redis
  redis : ∀ i url client, (host i).redis url = .ok client → client.1 = Redis.client i

namespace Deployment

variable [DecidableEq ι] (D : Deployment ι ν ω δ υ δ')

def hub (i : ι) : Hub (AnyKind δ δ') (Redis ι) (RedisStream ι) Nat := (D.built i).hub

def machine : Machine (Cluster ι δ δ') (ι × Label Nat) :=
  Family.machine brokerComponent fun i => (D.hub i).machine

def boot : Cluster ι δ δ' :=
  ⟨fun i => (D.built i).boot, .connected D.subscribeError D.publishError⟩

def kindOf (channel : String) (s : Cluster ι δ δ') (i : ι) : AnyKind δ δ' :=
  (s.own i).shared.kinds ((D.hub i).kindFor channel)

/-- A node that is about to have a publication accepted on the channel has offsets left, and no
other node has handed out any. -/
def SoleOrigin (channel : String) (s : Cluster ι δ δ') (l : ι × Label Nat) : Prop :=
  ∀ n env now a ref, l.2 = .advance n env now →
    (s.own l.1).calls n = some (.publishKind a ref) → a.channel = channel →
    (∀ ps, D.kindOf channel s l.1 = .pubsub ps → ps.nextOffset channel < u64Max) ∧
      ∀ i, i ≠ l.1 → ∀ ps, D.kindOf channel s i = .pubsub ps → ps.nextOffset channel = 0

end Deployment

/-- Among all the publications accepted on the channel at any node, and so among those delivered
at any node, an offset stands for one. -/
structure Cluster.Identified (channel : String) (s : Cluster ι δ δ') : Prop where
  distinct : ∀ i, (((s.own i).acceptances channel).map Publication.offset).Nodup
  apart : ∀ i j, i ≠ j → ∀ p ∈ (s.own i).acceptances channel,
    ∀ q ∈ (s.own j).acceptances channel, p.offset ≠ q.offset
  delivered : ∀ i n ref origin p, .enqueued n ref origin p ∈ (s.own i).log →
    p.channel = channel → ∃ j, p ∈ (s.own j).acceptances channel
  named : ∀ i n ref origin p, .enqueued n ref origin p ∈ (s.own i).log →
    ∀ j n' ref' origin' q, .enqueued n' ref' origin' q ∈ (s.own j).log →
    p.channel = channel → q.channel = channel → p.offset = q.offset → p = q

namespace AnyKind

/-- The publications that a pub/sub instance retains; the others replay nothing. -/
def Retains : AnyKind δ δ' → Publication → Prop
  | .pubsub k, p => p ∈ k.retained p.channel
  | _, _ => False

end AnyKind

theorem PubSubChannel.onPublish_retained {now : Nat} {data : Bytes} {c : String}
    (h : p ∈ (ps.onPublish now channel data).1.retained c) :
    p ∈ ps.retained c ∨ (ps.onPublish now channel data).2 = .ok p := by
  cases answered : ps.onPublish now channel data with
  | mk ps' result =>
      rw [answered] at h
      cases result with
      | error e =>
          rw [onPublish_error answered] at h
          exact .inl h
      | ok q =>
          have accepts := onPublish_accepts answered
          by_cases same : c = channel
          · subst same
            obtain ⟨k, history⟩ := accepts.history
            rw [history] at h
            rcases List.mem_append.mp (List.mem_of_mem_drop h) with old | new
            · exact .inl old
            · rw [List.mem_singleton.mp new]
              exact .inr rfl
          · rw [accepts.otherHistory c same] at h
            exact .inl h

theorem PubSubChannel.replaySince_retained_subset {now : Nat} {since : Nat} {c : String}
    (h : p ∈ (ps.replaySince now channel since).1.retained c) : p ∈ ps.retained c := by
  obtain ⟨_, -, replays⟩ := ps.replaySince_replays now channel since
  by_cases same : c = channel
  · subst same
    obtain ⟨k, history⟩ := replays.history
    rw [history] at h
    exact List.mem_of_mem_drop h
  · rwa [replays.otherHistory c same] at h

namespace AnyKind

theorem kinds_archives (Y : Yrs δ υ) (A : Automerge δ') : (kinds Y A).Archives Retains where
  onSubscribe k _ _ _ there := by cases k <;> exact there
  onUnsubscribe k _ _ _ there := by cases k <;> exact there
  onPublish k _ _ _ _ there := by
    cases k with
    | pubsub ps => exact PubSubChannel.onPublish_retained there
    | _ => exact there.elim
  replaySince k _ _ _ _ there := by
    cases k with
    | pubsub ps => exact PubSubChannel.replaySince_retained_subset there
    | _ => exact there.elim
  replayed k now channel since result read p member := by
    cases k with
    | pubsub ps =>
        obtain ⟨_, same, replays⟩ := ps.replaySince_replays now channel since
        cases Except.ok.inj (same.symm.trans read)
        rw [replays.result_eq] at member
        have there := List.mem_of_mem_filter member
        rw [← PubSubChannel.retained_channel there] at there
        exact PubSubChannel.replaySince_retained_subset there
    | _ =>
        cases read
        cases member

end AnyKind

theorem Redis.client_conveys [DecidableEq ι] (i : ι) : (Redis.client i).Conveys Redis.Holds where
  subscribe _ _ _ := subscribe_holds
  publish _ _ _ _ := publish_holds
  next _ _ _ := next_holds
  ready _ _ _ := next_ready
  dropStream _ _ _ := dropStream_holds

theorem CrdtEngine.onPublish_channel (E : CrdtEngine δ) {k : CrdtChannel δ} {data : Bytes}
    (h : (E.onPublish k channel data).2 = .ok p) :
    p.channel = channel := by
  have publishes := E.publishes k channel data
  generalize E.onPublish k channel data = answer at publishes h
  cases publishes with
  | accepted named applies =>
      cases h
      rfl
  | _ => cases h

namespace AnyKind

theorem kinds_labels (Y : Yrs δ υ) (A : Automerge δ') : (kinds Y A).Labels where
  onPublish k now channel data p accepted := by
    cases k with
    | pubsub ps => exact PubSubChannel.channelKind_labels.onPublish ps now channel data p accepted
    | yjs k =>
        simp only [kinds, Y.ops_eq] at accepted
        exact Y.engine.onPublish_channel accepted
    | automerge k => exact A.engine.onPublish_channel accepted
  replaySince k now channel since result read p member := by
    cases k with
    | pubsub ps =>
        exact PubSubChannel.channelKind_labels.replaySince ps now channel since result read p member
    | _ =>
        cases read
        cases member

/-- A pub/sub instance that has handed out the channel's offsets below `next`. -/
def Reached (channel : String) (next : Nat) (k : AnyKind δ δ') : Prop :=
  ∃ ps, k = .pubsub ps ∧ next ≤ ps.nextOffset channel ∧ ps.nextOffset channel ≤ u64Max

end AnyKind

theorem PubSubChannel.onPublish_nextOffset {c : String} (range : ps.nextOffset c ≤ u64Max)
    (now : Nat) (channel : String) (data : Bytes) :
    ps.nextOffset c ≤ (ps.onPublish now channel data).1.nextOffset c ∧
      (ps.onPublish now channel data).1.nextOffset c ≤ u64Max := by
  cases answered : ps.onPublish now channel data with
  | mk ps' result =>
      cases result with
      | error e =>
          rw [onPublish_error answered]
          exact ⟨Nat.le_refl _, range⟩
      | ok q =>
          have accepts := onPublish_accepts answered
          by_cases same : c = channel
          · subst same
            rw [accepts.next]
            omega
          · rw [accepts.otherNext c same]
            exact ⟨Nat.le_refl _, range⟩

theorem AnyKind.kinds_reached (Y : Yrs δ υ) (A : Automerge δ') (channel : String) (next : Nat) :
    (kinds Y A).Keeps (Reached channel next) where
  onSubscribe _ _ _ reached := by
    obtain ⟨ps, rfl, least, range⟩ := reached
    exact ⟨ps, rfl, least, range⟩
  onUnsubscribe _ _ _ reached := by
    obtain ⟨ps, rfl, least, range⟩ := reached
    exact ⟨ps, rfl, least, range⟩
  onPublish _ now c data reached := by
    obtain ⟨ps, rfl, least, range⟩ := reached
    have grown := PubSubChannel.onPublish_nextOffset range now c data
    exact ⟨_, rfl, least.trans grown.1, grown.2⟩
  replaySince _ now c since reached := by
    obtain ⟨ps, rfl, least, range⟩ := reached
    obtain ⟨_, -, replays⟩ := ps.replaySince_replays now c since
    refine ⟨_, rfl, ?_, ?_⟩
    · exact least.trans_eq (replays.next channel).symm
    · exact (replays.next channel).trans_le range

/-- The channel's kind is a pub/sub instance that has numbered what was accepted, each
publication anew. -/
structure State.Numbered (H : Hub (AnyKind δ δ') β τ ε) (channel : String)
    (s : State (AnyKind δ δ') β τ) : Prop where
  kind : (s.shared.kinds (H.kindFor channel)).Reached channel 0
  below : ∀ p ∈ s.acceptances channel,
    (s.shared.kinds (H.kindFor channel)).Reached channel (p.offset + 1)
  distinct : ((s.acceptances channel).map Publication.offset).Nodup

def State.Labelled (s : State κ β τ) : Prop :=
  ∀ n ref channel data p, .onPublish n ref channel data (.ok p) ∈ s.log → p.channel = channel

section Node

variable {H : Hub (AnyKind δ δ') β τ ε} {Y : Yrs δ υ} {A : Automerge δ'}
  {s t : State (AnyKind δ δ') β τ} {l : Label ε}

theorem step_labelled {H : Hub κ β τ ε} {s t : State κ β τ} (labels : H.kinds.Labels)
    (g : s.Labelled) (h : H.step s l = some t) : t.Labelled := by
  intro n ref channel data p member
  rcases step_logs h member with old | ⟨m, env, now, c, -, -, logs | ⟨_, ⟨⟩⟩⟩ | ⟨_, _, _, _, _, ⟨⟩⟩
  · exact g n ref channel data p old
  · cases logs with
    | accepted a ref answer => exact labels.onPublish _ _ _ _ _ answer

theorem step_reached (kinds : H.kinds = AnyKind.kinds Y A) {k next : Nat}
    (reached : (s.shared.kinds k).Reached channel next) (h : H.step s l = some t) :
    (t.shared.kinds k).Reached channel next := by
  refine step_keeps_one (P := fun kind => kind.Reached channel next) ?_ reached h
  rw [kinds]
  exact AnyKind.kinds_reached Y A channel next

theorem kinds_accepts {k' : AnyKind δ δ'} {now : Nat} {data : Bytes}
    (h : (AnyKind.kinds Y A).onPublish (.pubsub ps) now channel data = (k', .ok p)) :
    ∃ ps', k' = .pubsub ps' ∧ ps.Accepts channel data ps' p := by
  have answer : (ps.onPublish now channel data).2 = .ok p := congrArg Prod.snd h
  exact ⟨_, (congrArg Prod.fst h).symm, PubSubChannel.onPublish_accepts (Prod.ext rfl answer)⟩

theorem State.Numbered.step (kinds : H.kinds = AnyKind.kinds Y A) (g : s.Numbered H channel)
    (h : H.step s l = some t)
    (room : ∀ n env now a ref, l = .advance n env now → s.calls n = some (.publishKind a ref) →
      a.channel = channel → ∀ ps, s.shared.kinds (H.kindFor channel) = .pubsub ps →
      ps.nextOffset channel < u64Max) : t.Numbered H channel := by
  have kind := step_reached kinds g.kind h
  have below : ∀ p ∈ s.acceptances channel,
      (t.shared.kinds (H.kindFor channel)).Reached channel (p.offset + 1) := by
    intro p member
    exact step_reached kinds (g.below p member) h
  rcases step_acceptances channel h with same | ⟨n, a, ref, p, accepts⟩
  · refine ⟨kind, ?_, ?_⟩
    · rw [same]
      exact below
    · rw [same]
      exact g.distinct
  · obtain ⟨env, now, label, published⟩ := accepts.label
    obtain ⟨ps, before, -, range⟩ := g.kind
    have left := room n env now a ref label accepts.called accepts.here ps before
    rw [kinds, before] at published
    obtain ⟨ps', after, moved⟩ := kinds_accepts published
    have offset : p.offset = ps.nextOffset channel := congrArg Publication.offset moved.publication
    have next := moved.next
    refine ⟨kind, ?_, ?_⟩
    · intro q member
      rw [accepts.grown] at member
      rcases List.mem_cons.mp member with rfl | old
      · exact ⟨ps', after, by omega, by omega⟩
      · exact below q old
    · rw [accepts.grown, List.map_cons, List.nodup_cons]
      refine ⟨?_, g.distinct⟩
      intro taken
      obtain ⟨q, member, same⟩ := List.mem_map.mp taken
      obtain ⟨ps₀, before₀, past, -⟩ := g.below q member
      cases before.symm.trans before₀
      omega

end Node

def Cluster.Accepted (s : Cluster ι δ δ') (p : Publication) : Prop :=
  ∃ i n ref channel data, .onPublish n ref channel data (.ok p) ∈ (s.own i).log

namespace Deployment

variable [DecidableEq ι] {D : Deployment ι ν ω δ υ δ'} {s : Cluster ι δ δ'}
  {ok : Cluster ι δ δ' → ι × Label Nat → Prop}

theorem hub_kinds (D : Deployment ι ν ω δ υ δ') (i : ι) :
    (D.hub i).kinds = AnyKind.kinds (D.host i).yrs (D.host i).automerge :=
  (buildHub_composed (D.accepted i)).kinds

theorem hub_broker (D : Deployment ι ν ω δ υ δ') (i : ι) : (D.hub i).broker = Redis.client i := by
  have connected := (buildHub_starts (D.accepted i)).1
  rw [buildBroker, D.backend] at connected
  cases url : (D.config i).broker.redisUrl with
  | none =>
      rw [url] at connected
      cases connected
  | some url' =>
      simp only [url, mapError_eq_ok] at connected
      exact D.redis i url' _ connected

theorem built_empty (D : Deployment ι ν ω δ υ δ') {i : ι} {k : Nat}
    (h : (D.built i).kinds k = .pubsub ps) (channel : String) :
    ps.nextOffset channel = 0 ∧ ps.retained channel = [] := by
  have starts : ∀ size ttl, AnyKind.pubsub (.withBounds size ttl) = (.pubsub ps : AnyKind δ δ') →
      ps.nextOffset channel = 0 ∧ ps.retained channel = [] := by
    rintro size ttl ⟨⟩
    exact ⟨PubSubChannel.withBounds_nextOffset _ _ _, PubSubChannel.withBounds_retained _ _ _⟩
  rcases (buildHub_starts (D.accepted i)).2 k with ⟨size, ttl, made⟩ | ⟨name, made⟩
  · exact starts size ttl (made.symm.trans h)
  · cases name with
    | pubsub => exact starts 256 300 (made.symm.trans h)
    | _ => cases made.symm.trans h

theorem run_labelled (run : D.machine.Run ok D.boot s) (i : ι) : (s.own i).Labelled := by
  refine Family.invariant (P := fun _ => State.Labelled) (fun _ _ _ labelled => labelled) ?_ run ?_ i
  · intro f l t _ before h
    refine step_labelled ?_ before h
    rw [D.hub_kinds]
    exact AnyKind.kinds_labels _ _
  · intro i n ref channel data p member
    cases member

theorem run_numbered (pubsub : ∀ i, (D.kindOf channel D.boot i).name = .pubsub)
    (run : D.machine.Run (D.SoleOrigin channel) D.boot s) (i : ι) :
    (s.own i).Numbered (D.hub i) channel := by
  refine Family.invariant (P := fun i s => s.Numbered (D.hub i) channel)
    (fun _ _ _ numbered => ⟨numbered.kind, numbered.below, numbered.distinct⟩) ?_ run ?_ i
  · intro f l t sole before h
    refine State.Numbered.step (D.hub_kinds l.1) before h ?_
    intro n env now a ref label called here
    exact (sole n env now a ref label called here).1
  · intro i
    refine ⟨?_, fun p member => (by cases member), List.nodup_nil⟩
    have named := pubsub i
    cases kind : D.kindOf channel D.boot i with
    | pubsub ps =>
        have empty := (D.built_empty kind channel).1
        exact ⟨ps, kind, by omega, by omega⟩
    | _ =>
        rw [kind] at named
        cases named

theorem boot_within (D : Deployment ι ν ω δ υ δ') (P : Publication → Prop) (i : ι) :
    (D.boot.view brokerComponent i).Within AnyKind.Retains Redis.Holds P := by
  constructor
  · intro k p there
    cases kind : (D.built i).kinds k with
    | pubsub ps =>
        have retained : ((D.built i).kinds k).Retains p := there
        rw [kind, AnyKind.Retains, (D.built_empty kind p.channel).2] at retained
        cases retained
    | _ =>
        have retained : ((D.built i).kinds k).Retains p := there
        rw [kind] at retained
        exact retained.elim
  · intro p there
    exact (Redis.not_holds_connected _ _ p there).elim
  · intro n c called
    cases called
  · intro f w p found
    cases found
  · intro n ref origin p member
    cases member

/-- Nothing is in the cluster that was not accepted by some node of it. -/
theorem run_within (run : D.machine.Run ok D.boot s) (i : ι) :
    (s.view brokerComponent i).Within AnyKind.Retains Redis.Holds s.Accepted := by
  revert i
  refine run.invariant (I := fun s : Cluster ι δ δ' => ∀ i,
    (s.view brokerComponent i).Within AnyKind.Retains Redis.Holds s.Accepted)
    (D.boot_within _) ?_
  intro s l s' before _ h
  obtain ⟨t, stepped, rfl⟩ := Family.step_member h
  have older : ∀ p, Cluster.Accepted s p → Cluster.Accepted (s.put brokerComponent l.1 t) p := by
    rintro p ⟨i, n, ref, channel, data, member⟩
    refine ⟨i, n, ref, channel, data, ?_⟩
    by_cases same : i = l.1
    · subst same
      rw [Family.put_own_self]
      exact (step_log stepped).subset member
    · rwa [Family.put_own_ne same]
  have moved : t.Within AnyKind.Retains Redis.Holds
      (Cluster.Accepted (s.put brokerComponent l.1 t)) := by
    refine step_within ?_ ?_ ((before l.1).mono older) stepped ?_
    · rw [D.hub_kinds]
      exact AnyKind.kinds_archives _ _
    · rw [D.hub_broker]
      exact Redis.client_conveys _
    · intro n ref channel data p member
      refine ⟨l.1, n, ref, channel, data, ?_⟩
      rwa [Family.put_own_self]
  intro i
  by_cases same : i = l.1
  · subst same
    rw [Family.put_view_self]
    exact moved
  · have own := (before i).mono older
    rw [Family.view, Family.put_own_ne same]
    exact ⟨own.kinds, moved.broker, own.calls, own.forwarders, own.log⟩

theorem unaccepted {H : Hub (AnyKind δ δ') β τ ε} {s : State (AnyKind δ δ') β τ}
    (numbered : s.Numbered H channel)
    (unused : ∀ ps, s.shared.kinds (H.kindFor channel) = .pubsub ps → ps.nextOffset channel = 0) :
    s.acceptances channel = [] := by
  rw [List.eq_nil_iff_forall_not_mem]
  intro p member
  obtain ⟨ps, kind, past, -⟩ := numbered.below p member
  have none_ := unused ps kind
  omega

/-- At most one node has accepted anything on the channel. -/
theorem run_sole (pubsub : ∀ i, (D.kindOf channel D.boot i).name = .pubsub)
    (run : D.machine.Run (D.SoleOrigin channel) D.boot s) :
    ∀ i j, i ≠ j → (s.own i).acceptances channel = [] ∨ (s.own j).acceptances channel = [] := by
  refine (run.invariant (I := fun s => D.machine.Run (D.SoleOrigin channel) D.boot s ∧
    ∀ i j, i ≠ j → (s.own i).acceptances channel = [] ∨ (s.own j).acceptances channel = [])
    ⟨.refl _, fun i j _ => .inl rfl⟩ ?_).2
  rintro s l s' ⟨before, sole⟩ admitted h
  refine ⟨before.tail admitted h, ?_⟩
  obtain ⟨t, stepped, rfl⟩ := Family.step_member h
  have others : ∀ j, j ≠ l.1 → (s.put brokerComponent l.1 t).own j = s.own j := by
    intro j other
    exact Family.put_own_ne other
  rcases step_acceptances channel stepped with same | ⟨n, a, ref, p, accepts⟩
  · have kept : ∀ j, ((s.put brokerComponent l.1 t).own j).acceptances channel =
        (s.own j).acceptances channel := by
      intro j
      by_cases here : j = l.1
      · subst here
        rw [Family.put_own_self]
        exact same
      · rw [others j here]
    intro i j apart
    rw [kept, kept]
    exact sole i j apart
  · obtain ⟨env, now, label, -⟩ := accepts.label
    obtain ⟨-, unused⟩ := admitted n env now a ref label accepts.called accepts.here
    have empty : ∀ j, j ≠ l.1 → ((s.put brokerComponent l.1 t).own j).acceptances channel = [] := by
      intro j other
      rw [others j other]
      exact unaccepted (run_numbered pubsub before j) (unused j other)
    intro i j apart
    by_cases here : i = l.1
    · exact .inr (empty j fun also => apart (here.trans also.symm))
    · exact .inl (empty i here)

end Deployment

/-- As long as one node is the origin of everything on the channel, offsets identify its
publications throughout the cluster. -/
theorem offsets_identify [DecidableEq ι] (D : Deployment ι ν ω δ υ δ') {channel : String}
    (pubsub : ∀ i, (D.kindOf channel D.boot i).name = .pubsub) {s : Cluster ι δ δ'}
    (run : D.machine.Run (D.SoleOrigin channel) D.boot s) : s.Identified channel := by
  have distinct : ∀ i, (((s.own i).acceptances channel).map Publication.offset).Nodup :=
    fun i => (Deployment.run_numbered pubsub run i).distinct
  have apart : ∀ i j, i ≠ j → ∀ p ∈ (s.own i).acceptances channel,
      ∀ q ∈ (s.own j).acceptances channel, p.offset ≠ q.offset := by
    intro i j other p first q second
    rcases Deployment.run_sole pubsub run i j other with none_ | none_
    · rw [none_] at first
      cases first
    · rw [none_] at second
      cases second
  have delivered : ∀ i n ref origin p, .enqueued n ref origin p ∈ (s.own i).log →
      p.channel = channel → ∃ j, p ∈ (s.own j).acceptances channel := by
    rintro i n ref origin p member rfl
    obtain ⟨j, m, ref', c, data, accepted⟩ :=
      (Deployment.run_within run i).log n ref origin p member
    have named := Deployment.run_labelled run j m ref' c data p accepted
    exact ⟨j, mem_acceptances.mpr ⟨m, ref', data, named ▸ accepted⟩⟩
  refine ⟨distinct, apart, delivered, ?_⟩
  intro i n ref origin p first j n' ref' origin' q second here also same
  obtain ⟨a, accepted⟩ := delivered i n ref origin p first here
  obtain ⟨b, accepted'⟩ := delivered j n' ref' origin' q second also
  by_cases node : a = b
  · subst node
    exact List.inj_on_of_nodup_map (distinct a) accepted accepted' same
  · exact absurd same (apart a b node p accepted q accepted')

def joined (i : Bool) : Host Bool Bool Nat Nat Nat (Redis Bool) (RedisStream Bool) where
  json := binary.json
  jws := binary.jws
  yrs := binary.yrs
  automerge := binary.automerge
  read := binary.read
  glob := binary.glob
  memory _ := (Redis.client i, .connected (fun _ _ => none) fun _ _ => none)
  redis _ := .ok (Redis.client i, .connected (fun _ _ => none) fun _ _ => none)
  nats _ := .error (.unavailable "connection refused")

def clustered : ServerConfig Bool where
  broker := ⟨.redis, 1024, some "redis://127.0.0.1:6379", none⟩
  channelPubsub := ⟨256, 300⟩
  namespaces := .empty
  auth := none
  acl := none
  channelKinds := .empty

def twins : Deployment Bool Bool Bool Nat Nat Nat where
  host := joined
  config _ := clustered
  built i := (buildHub (joined i) clustered).toOption.get rfl
  subscribeError _ _ := none
  publishError _ _ := none
  accepted _ := rfl
  backend _ := rfl
  redis _ _ client reached := by
    cases reached
    rfl

/-- A request at a node, and the steps of its call. -/
def asked (i : Bool) (n : Nat) (r : Request) (steps : Nat) : List (Bool × Label Nat) :=
  (i, .start r) :: List.replicate steps (i, .advance n 0 0)

/-- A session at each node, of which the first is subscribed. -/
def twinsListen : List (Bool × Label Nat) :=
  asked true 0 (.openSession 16) 5 ++ asked false 0 (.openSession 16) 5 ++
    asked true 1 (.subscribe ⟨0, 7, "rooms.lobby", 0⟩) 9

/-- The first node's forwarder passes on two publications. -/
def twinsForward : List (Bool × Label Nat) :=
  (true, .forward 1 .wake) :: List.replicate 4 (true, .forward 1 .poll)

def AnyKind.checks (test : Nat → Bool) (channel : String) : AnyKind δ δ' → Bool
  | .pubsub ps => test (ps.nextOffset channel)
  | _ => true

theorem AnyKind.of_checks {test : Nat → Bool} {k : AnyKind δ δ'} (h : k.checks test channel = true)
    (kind : k = .pubsub ps) :
    test (ps.nextOffset channel) = true := by
  subst kind
  exact h

def soleOrigin (D : Deployment Bool ν ω δ υ δ') (channel : String) (s : Cluster Bool δ δ') :
    Bool × Label Nat → Bool
  | (i, .advance n _ _) =>
      match (s.own i).calls n with
      | some (.publishKind a _) =>
          a.channel != channel ||
            (D.kindOf channel s i).checks (· < u64Max) channel &&
              (D.kindOf channel s !i).checks (· = 0) channel
      | _ => true
  | _ => true

theorem soleOrigin_sound (D : Deployment Bool ν ω δ υ δ') (channel : String)
    (s : Cluster Bool δ δ') (l : Bool × Label Nat) (h : soleOrigin D channel s l = true) :
    D.SoleOrigin channel s l := by
  obtain ⟨i, l⟩ := l
  rintro n env now a ref rfl called rfl
  simp only [soleOrigin, called, bne_self_eq_false, Bool.false_or, Bool.and_eq_true] at h
  constructor
  · intro ps kind
    exact of_decide_eq_true (AnyKind.of_checks h.1 kind)
  · intro j other ps kind
    rw [Bool.eq_not.mpr other] at kind
    exact of_decide_eq_true (AnyKind.of_checks h.2 kind)

def published (i : Bool) (n : Nat) (data : Bytes) : List (Bool × Label Nat) :=
  asked i n (.publish ⟨0, "rooms.lobby", data⟩) 6

/-- One node publishes twice, and the subscriber at the other gets offsets 0 and 1. -/
theorem offsets_identify_twins :
    ∃ s, twins.machine.Run (twins.SoleOrigin "rooms.lobby") twins.boot s ∧
      (.enqueued 1 0 .live ⟨"rooms.lobby", 0, [1]⟩ ∈ (s.own true).log ∧
        .enqueued 1 0 .live ⟨"rooms.lobby", 1, [2]⟩ ∈ (s.own true).log) ∧
      s.Identified "rooms.lobby" := by
  obtain ⟨s, run, delivered⟩ := Machine.execWithin_witness (M := twins.machine)
    (I := fun _ => True) (fun s l _ => soleOrigin_sound twins "rooms.lobby" s l)
    (fun _ _ _ _ _ _ => trivial) (s := twins.boot) trivial
    (twinsListen ++ published false 1 [1] ++ published false 2 [2] ++ twinsForward)
    (fun s => .enqueued 1 0 .live ⟨"rooms.lobby", 0, [1]⟩ ∈ (s.own true).log ∧
      .enqueued 1 0 .live ⟨"rooms.lobby", 1, [2]⟩ ∈ (s.own true).log) (by decide +kernel)
  refine ⟨s, run, delivered, offsets_identify twins ?_ run⟩
  intro i
  cases i <;> rfl

/-- Each node publishes once. Both calls return, and the subscriber gets two different
publications with the offset 0. -/
theorem offsets_collide :
    ∃ s, twins.machine.exec twins.boot
        (twinsListen ++ published true 2 [1] ++ published false 1 [2] ++ twinsForward) = some s ∧
      twins.machine.Run Machine.free twins.boot s ∧
      (.returned 2 (.ok (.published ⟨"rooms.lobby", 0, [1]⟩)) ∈ (s.own true).log ∧
        .returned 1 (.ok (.published ⟨"rooms.lobby", 0, [2]⟩)) ∈ (s.own false).log ∧
        .enqueued 1 0 .live ⟨"rooms.lobby", 0, [1]⟩ ∈ (s.own true).log ∧
        .enqueued 1 0 .live ⟨"rooms.lobby", 0, [2]⟩ ∈ (s.own true).log) ∧
      ¬s.Identified "rooms.lobby" := by
  obtain ⟨s, ran, run, logged⟩ := Machine.exec_witness (M := twins.machine) (s := twins.boot)
    (twinsListen ++ published true 2 [1] ++ published false 1 [2] ++ twinsForward)
    (fun s => .returned 2 (.ok (.published ⟨"rooms.lobby", 0, [1]⟩)) ∈ (s.own true).log ∧
      .returned 1 (.ok (.published ⟨"rooms.lobby", 0, [2]⟩)) ∈ (s.own false).log ∧
      .enqueued 1 0 .live ⟨"rooms.lobby", 0, [1]⟩ ∈ (s.own true).log ∧
      .enqueued 1 0 .live ⟨"rooms.lobby", 0, [2]⟩ ∈ (s.own true).log) (by decide +kernel)
  refine ⟨s, ran, run, logged, ?_⟩
  intro identified
  obtain ⟨-, -, first, second⟩ := logged
  have same := identified.named true 1 0 .live _ first true 1 0 .live _ second rfl rfl rfl
  cases same

end Cherenkov
