import Cherenkov.Library.DashMap
import Cherenkov.Hub.Outside
import Cherenkov.Transport.Cleanup
import Cherenkov.Admin.Model

/-! A listing is collected while sessions come and go, connect, subscribe and unsubscribe. It is
sorted and lists nothing twice; every session that is registered when the request arrives and when
it is answered is listed, and what is listed was registered, and was as described, at some moment
between the two. -/

namespace Cherenkov

open Scan (Covers Whole)

variable {κ β τ ε : Type}

/-- What the hub knows of its sessions survives. -/
structure Passes (s t : State κ β τ) : Prop where
  known : s.Known → t.Known
  born : ∀ ref, s.Born ref → t.Born ref
  gone : ∀ ref, s.Gone ref → t.Gone ref

theorem Passes.refl (s : State κ β τ) : Passes s s := ⟨id, fun _ => id, fun _ => id⟩

theorem Outside.passes {s t : State κ β τ} (g : Outside s t) : Passes s t :=
  ⟨g.known, fun _ => g.born, fun _ => g.gone⟩

theorem step_passes {H : Hub κ β τ ε} {s t : State κ β τ} {l : Label ε} (room : Roomy s l)
    (h : H.step s l = some t) : Passes s t :=
  ⟨fun g => step_known g room h, fun _ g => step_born g h, fun _ g => step_gone g h⟩

/-- What a handler does to the hub: it takes references, or it makes a step that moves no call. -/
inductive Admin.Touches (A : Admin κ β τ ε) (s t : State κ β τ) : Prop
  | kept (outside : Outside s t) (calls : t.calls = s.calls)
  | stepped {l : Label ε} (still : ∀ n env now, l ≠ .advance n env now)
      (h : A.hub.step s l = some t)

theorem keeps_heap (refs : List Nat) (s : State κ β τ) :
    Outside s (refs.foldl State.keep s) ∧ (refs.foldl State.keep s).calls = s.calls := by
  have ids : ∀ ref, ((refs.foldl State.keep s).shared.heap ref).id = (s.shared.heap ref).id := by
    induction refs generalizing s with
    | nil =>
        intro ref
        rfl
    | cons r refs ih =>
        intro ref
        rw [List.foldl_cons, ih]
        simp only [State.keep, Shared.setSession, Function.update_apply]
        split
        · next same => rw [same]
        · rfl
  have rest : (refs.foldl State.keep s).shared.registry = s.shared.registry ∧
      (refs.foldl State.keep s).shared.nextRef = s.shared.nextRef ∧
      (refs.foldl State.keep s).shared.forwarders = s.shared.forwarders ∧
      (refs.foldl State.keep s).calls = s.calls ∧
      (refs.foldl State.keep s).nextCall = s.nextCall ∧
      (refs.foldl State.keep s).log = s.log := by
    clear ids
    induction refs generalizing s with
    | nil => exact ⟨rfl, rfl, rfl, rfl, rfl, rfl⟩
    | cons r refs ih => exact ih (s.keep r)
  obtain ⟨registry, nextRef, forwarders, calls, nextCall, log⟩ := rest
  refine ⟨⟨registry, nextRef, ids, ?_, ?_, nextCall, log⟩, calls⟩
  · rw [forwarders]
    exact fun _ w' found => ⟨w', found, .inl rfl⟩
  · rw [calls]
    exact fun _ _ => id

section Advance

variable {A : Admin κ β τ ε} {s t : State κ β τ} {x : AdminCall} {stage : AdminStage}
  {call : Option Nat}

theorem Admin.Touches.refl (s : State κ β τ) : A.Touches s s := .kept (Outside.refl s) rfl

theorem Admin.Touches.passes (touches : A.Touches s t) : Passes s t := by
  cases touches with
  | kept outside calls => exact outside.passes
  | stepped still h => exact step_passes (roomy_of_still still s) h

theorem serve_touches {route : AdminRoute} (h : A.serve s route = some (t, stage, call)) :
    A.Touches s t := by
  cases route with
  | session id =>
      simp only [Admin.serve] at h
      split at h <;> cases h
      · exact .refl s
      · next ref found =>
          obtain ⟨outside, calls⟩ := keeps_heap [ref] s
          exact .kept outside calls
  | disconnect id =>
      simp only [Admin.serve] at h
      split at h
      · obtain ⟨u, stepped, same⟩ := Option.map_eq_some_iff.mp h
        cases same
        exact .stepped (by simp) stepped
      · cases h
        exact .refl s
  | metrics =>
      simp only [Admin.serve] at h
      split at h <;> cases h <;> exact .refl s
  | health | sessions | subscribers channel =>
      cases h
      exact .refl s

theorem release_touches {ref : Nat} {f : State κ β τ → State κ β τ × AdminStage × Option Nat}
    (keeps : ∀ u, (f u).1 = u)
    (h : (A.hub.step s (.release ref)).map f = some (t, stage, call)) : A.Touches s t := by
  obtain ⟨u, stepped, same⟩ := Option.map_eq_some_iff.mp h
  have here : u = t := (keeps u).symm.trans (congrArg Prod.fst same)
  rw [← here]
  exact .stepped (by simp) stepped

theorem advance_touches (h : A.advance s x = some (t, stage, call)) : A.Touches s t := by
  simp only [Admin.advance] at h
  split at h
  · split at h
    · exact serve_touches h
    · cases h
      exact .refl s
  · split at h <;> cases h
    · obtain ⟨outside, calls⟩ := keeps_heap (A.sessionsIn s _) s
      exact .kept outside calls
    · exact .refl s
  · cases h
    exact .refl s
  · cases h
    exact .refl s
  · split at h
    · cases h
      exact .refl s
    · exact release_touches (fun _ => rfl) h
  · cases h
    exact .refl s
  · split at h
    · cases h
      exact .refl s
    · exact release_touches (fun _ => rfl) h
  · split at h <;> cases h
    exact .refl s
  · cases h

/-- Identifiers are left. -/
def AdminRoomy (s : AdminNet κ β τ) (l : AdminLabel ε) : Prop :=
  ∀ l', l = .hub l' → Roomy s.hub l'

theorem admin_passes {s t : AdminNet κ β τ} {l : AdminLabel ε} (room : AdminRoomy s l)
    (h : A.step s l = some t) : Passes s.hub t.hub := by
  cases l with
  | hub l =>
      obtain ⟨hub, stepped, rfl⟩ := Option.map_eq_some_iff.mp h
      exact step_passes (room l rfl) stepped
  | request r =>
      cases h
      exact Passes.refl s.hub
  | move c =>
      obtain ⟨x, -, moved⟩ := Option.bind_eq_some_iff.mp h
      obtain ⟨⟨hub, stage, call⟩, advanced, rfl⟩ := Option.map_eq_some_iff.mp moved
      exact (advance_touches advanced).passes

theorem admin_known {kinds : Nat → κ} {broker : β} {s : AdminNet κ β τ}
    (run : A.machine.Run AdminRoomy (Admin.boot (State.initial kinds broker)) s) : s.hub.Known :=
  Machine.Run.invariant (I := fun s : AdminNet κ β τ => s.hub.Known) run (initial_known kinds broker)
    fun _ _ _ g room h => (admin_passes room h).known g

end Advance

def Registered (s : State κ β τ) (id : Nat) : Prop := s.shared.registry.get id ≠ none

def Subscribed (s : State κ β τ) (id : Nat) (channel : String) : Prop :=
  (s.shared.heap id).subscriptions.get channel ≠ none

/-- A session as it was, in parts, at some of the moments. A channel that it is subscribed to at all
of them is there. -/
structure Describes (moments : List (State κ β τ)) (id : Nat) (subject : Option String)
    (channels : List String) : Prop where
  registered : ∃ m ∈ moments, Registered m id
  subject : ∃ m ∈ moments, subject = (m.shared.heap id).claims.map SessionClaims.subject
  channels : Whole channels (fun channel => ∃ m ∈ moments, Subscribed m id channel)
    fun channel => ∀ m ∈ moments, Subscribed m id channel

structure ReadsSession (A : Admin κ β τ ε) (moments : List (State κ β τ)) (r : SessionReading) : Prop where
  subject : ∃ m ∈ moments, r.subject = (m.shared.heap r.ref).claims.map SessionClaims.subject
  channels : Covers (A.channelShard r.ref) r.shard r.channels
    (fun channel => ∃ m ∈ moments, Subscribed m r.ref channel)
    fun channel => ∀ m ∈ moments, Subscribed m r.ref channel

/-- Registered when the request arrived and still. -/
def Stays (first s : State κ β τ) (id : Nat) : Prop := Registered first id ∧ Registered s id

def collected (reading : Option SessionReading) (todo : List Nat) (out : List SessionSummary) : List Nat :=
  out.map SessionSummary.id ++ (reading.map SessionReading.ref).toList ++ todo

structure ListsSessions (A : Admin κ β τ ε) (first : State κ β τ) (moments : List (State κ β τ))
    (s : State κ β τ) (reading : Option SessionReading) (todo : List Nat) (out : List SessionSummary) :
    Prop where
  ids : Whole (collected reading todo out) (fun id => ∃ m ∈ moments, Registered m id) (Stays first s)
  read : ∀ r, reading = some r → ReadsSession A moments r
  done : ∀ e ∈ out, ∃ channels, e.channels = channels.length ∧
    Describes moments e.id e.subject channels

/-- What a stage of a handler says about the moments since its request arrived. -/
def AdminStage.Sound (A : Admin κ β τ ε) (first : State κ β τ) (moments : List (State κ β τ))
    (s : State κ β τ) : AdminStage → Prop
  | .scanning shard found =>
      Covers A.shardOf shard found (fun id => ∃ m ∈ moments, Registered m id) (Stays first s)
  | .listing reading todo out => ListsSessions A first moments s reading todo out
  | .detailing id ref reading => ref = id ∧ (∃ m ∈ moments, Registered m id) ∧
      ∀ r, reading = some r → r.ref = id ∧ ReadsSession A moments r
  | .replied (.sessions out) => out.Pairwise (fun a b => a.id < b.id) ∧
      ListsSessions A first moments s none [] out
  | .replied (.session d) => Describes moments d.id d.subject d.channels
  | _ => True

section Time

variable {A : Admin κ β τ ε} {first s t : State κ β τ} {moments later : List (State κ β τ)}

theorem Describes.mono (more : moments ⊆ later) {id : Nat} {subject : Option String}
    {channels : List String} (g : Describes moments id subject channels) :
    Describes later id subject channels := by
  constructor
  · obtain ⟨m, member, there⟩ := g.registered
    exact ⟨m, more member, there⟩
  · obtain ⟨m, member, there⟩ := g.subject
    exact ⟨m, more member, there⟩
  · apply g.channels.mono
    · rintro channel ⟨m, member, there⟩
      exact ⟨m, more member, there⟩
    · intro channel always m member
      exact always m (more member)

theorem ReadsSession.mono (more : moments ⊆ later) {r : SessionReading} (g : ReadsSession A moments r) :
    ReadsSession A later r := by
  constructor
  · obtain ⟨m, member, there⟩ := g.subject
    exact ⟨m, more member, there⟩
  · apply g.channels.mono
    · rintro channel ⟨m, member, there⟩
      exact ⟨m, more member, there⟩
    · intro channel always m member
      exact always m (more member)

theorem seen_mono (more : moments ⊆ later) (id : Nat) (h : ∃ m ∈ moments, Registered m id) :
    ∃ m ∈ later, Registered m id := by
  obtain ⟨m, member, there⟩ := h
  exact ⟨m, more member, there⟩

theorem ListsSessions.mono (more : moments ⊆ later) (stays : ∀ id, Stays first t id → Stays first s id)
    {reading : Option SessionReading} {todo : List Nat} {out : List SessionSummary}
    (g : ListsSessions A first moments s reading todo out) : ListsSessions A first later t reading todo out := by
  refine ⟨g.ids.mono (seen_mono more) stays, fun r here => (g.read r here).mono more, ?_⟩
  intro e member
  obtain ⟨channels, count, describes⟩ := g.done e member
  exact ⟨channels, count, describes.mono more⟩

theorem AdminStage.Sound.mono (more : moments ⊆ later)
    (stays : ∀ id, Stays first t id → Stays first s id) {stage : AdminStage}
    (g : stage.Sound A first moments s) : stage.Sound A first later t := by
  cases stage with
  | scanning shard found => exact Covers.mono g (seen_mono more) stays
  | listing reading todo out => exact ListsSessions.mono more stays g
  | detailing id ref reading =>
      obtain ⟨same, seen, read⟩ := g
      exact ⟨same, seen_mono more id seen, fun r here => ⟨(read r here).1, (read r here).2.mono more⟩⟩
  | replied reply =>
      cases reply with
      | sessions out => exact ⟨g.1, ListsSessions.mono more stays g.2⟩
      | session d => exact Describes.mono more g
      | _ => trivial
  | _ => trivial

theorem registered_born (known : s.Known) {id : Nat} (h : Registered s id) : s.Born id := by
  obtain ⟨ref, found⟩ := Option.ne_none_iff_exists'.mp h
  cases known.identified.registered known.addressed found
  refine ⟨(known.addressed.registry _ _ found).1, ?_⟩
  intro n opening
  exact known.nascent.registry n _ _ opening found

/-- Whoever is registered later was so before, if they had been at all. -/
theorem stays_back (known : s.Known) (born : ∀ id, Registered first id → s.Born id)
    (passes : Passes s t) {id : Nat} (h : Stays first t id) : Stays first s id := by
  refine ⟨h.1, ?_⟩
  intro absent
  have gone := known.gone (born id h.1) absent
  obtain ⟨ref, found⟩ := Option.ne_none_iff_exists'.mp h.2
  have later := passes.known known
  cases later.identified.registered later.addressed found
  exact (passes.gone _ gone).unregistered _ found

end Time

section Own

variable {A : Admin κ β τ ε} {first s t : State κ β τ} {moments : List (State κ β τ)}

theorem now_mem (moments : List (State κ β τ)) (s : State κ β τ) : s ∈ moments ++ [s] :=
  List.mem_append_right _ (List.mem_singleton_self s)

theorem registered_iff_mem (s : State κ β τ) (id : Nat) :
    Registered s id ↔ id ∈ s.shared.registry.ids := by
  unfold Registered SessionRegistry.get DashMap.get SessionRegistry.ids
  rw [ne_eq, AList.lookup_eq_none, not_not, AList.mem_keys]

theorem sessionsIn_eq (known : s.Known) (shard : Nat) :
    A.sessionsIn s shard = s.shared.registry.ids.filter fun id => A.shardOf id = shard := by
  have same : ∀ e ∈ s.shared.registry.sessions.entries, e.2 = e.1 := by
    intro e member
    exact known.identified.registered known.addressed (AList.mem_lookup_iff.mpr member)
  unfold Admin.sessionsIn SessionRegistry.ids AList.keys List.keys
  rw [List.filter_map]
  apply List.map_congr_left
  intro e member
  exact same e (List.mem_filter.mp member).1

theorem scan_sound (known : s.Known) (stays : ∀ id, Stays first t id → Stays first s id)
    {shard : Nat} {found : List Nat}
    (g : (AdminStage.scanning shard found).Sound A first moments s) :
    (AdminStage.scanning (shard + 1) (found ++ A.sessionsIn s shard)).Sound A first
      (moments ++ [s]) t := by
  have later := AdminStage.Sound.mono (List.subset_append_left moments [s]) stays g
  rw [sessionsIn_eq known]
  refine Covers.read later s.shared.registry.sessions.nodupKeys ?_ ?_
  · intro id member
    exact ⟨s, now_mem moments s, (registered_iff_mem s id).mpr member⟩
  · intro id there
    exact (registered_iff_mem s id).mp (stays id there).2

theorem begin_reads (moments : List (State κ β τ)) (ref : Nat) :
    ReadsSession A (moments ++ [s]) (Admin.begin s ref) :=
  ⟨⟨s, now_mem moments s, rfl⟩, Covers.nil⟩

theorem readOn_reads {r : SessionReading} (g : ReadsSession A moments r) :
    ReadsSession A (moments ++ [s]) (A.readOn s r) := by
  have later := g.mono (List.subset_append_left moments [s])
  refine ⟨later.subject, Covers.read later.channels (s.shared.heap r.ref).subscriptions.nodupKeys ?_ ?_⟩
  · intro channel member
    refine ⟨s, now_mem moments s, ?_⟩
    exact fun absent => AList.lookup_eq_none.mp absent (AList.mem_keys.mpr member)
  · intro channel always
    have here := always s (now_mem moments s)
    apply AList.mem_keys.mp
    by_contra outside
    exact here (AList.lookup_eq_none.mpr outside)

theorem ReadsSession.describes {r : SessionReading} (g : ReadsSession A moments r) (whole : ¬r.shard < A.shards)
    (seen : ∃ m ∈ moments, Registered m r.ref) :
    Describes moments r.ref r.subject r.channels := by
  refine ⟨seen, g.subject, g.channels.all ?_⟩
  intro channel
  exact Nat.lt_of_lt_of_le (A.channelShard_lt r.ref channel) (Nat.le_of_not_lt whole)

theorem summary_lists (known : s.Known)
    (past : ∀ m ∈ moments, ∀ id, Registered m id → s.Born id) {r : SessionReading} {todo : List Nat}
    {out : List SessionSummary} (g : ListsSessions A first moments s (some r) todo out)
    (whole : ¬r.shard < A.shards) :
    ListsSessions A first moments s none todo (out ++ [Admin.summary s r]) := by
  have member : r.ref ∈ collected (some r) todo out := by simp [collected]
  obtain ⟨m, moment, registered⟩ := g.ids.seen r.ref member
  have own : (Admin.summary s r).id = r.ref :=
    known.identified.ids _ (past m moment r.ref registered).known
  refine ⟨?_, nofun, ?_⟩
  · have same : collected none todo (out ++ [Admin.summary s r]) = collected (some r) todo out := by
      simp [collected, own]
    rw [same]
    exact g.ids
  · intro e member
    rcases List.mem_append.mp member with before | last
    · exact g.done e before
    · cases List.mem_singleton.mp last
      refine ⟨r.channels, rfl, ?_⟩
      rw [own]
      exact (g.read r rfl).describes whole ⟨m, moment, registered⟩

instance : Std.Total SessionSummary.Before := ⟨fun a b => Nat.le_total a.id b.id⟩

instance : IsTrans SessionSummary SessionSummary.Before :=
  ⟨fun _ _ _ first second => Nat.le_trans first second⟩

theorem sort_lists {out : List SessionSummary} (g : ListsSessions A first moments s none [] out) :
    (AdminStage.replied (.sessions (out.insertionSort SessionSummary.Before))).Sound A first
      moments s := by
  have perm := List.perm_insertionSort SessionSummary.Before out
  have ids := g.ids
  simp only [collected, Option.map_none, Option.toList_none, List.append_nil] at ids
  have sorted := ids.perm (perm.symm.map SessionSummary.id)
  refine ⟨?_, ?_, nofun, ?_⟩
  · have ordered := List.pairwise_insertionSort SessionSummary.Before out
    have distinct := List.pairwise_map.mp sorted.nodup
    exact (ordered.and distinct).imp fun both => Nat.lt_of_le_of_ne both.1 both.2
  · simp only [collected, Option.map_none, Option.toList_none, List.append_nil]
    exact sorted
  · intro e member
    exact g.done e (perm.mem_iff.mp member)

theorem serve_sound (known : s.Known) {route : AdminRoute} {stage : AdminStage}
    {call : Option Nat} (h : A.serve s route = some (t, stage, call)) :
    stage.Sound A first (moments ++ [s]) t := by
  cases route with
  | sessions =>
      cases h
      exact Covers.nil
  | session id =>
      simp only [Admin.serve] at h
      split at h <;> cases h
      · trivial
      · next ref found =>
          cases known.identified.registered known.addressed found
          refine ⟨rfl, ⟨s, now_mem moments s, ?_⟩, nofun⟩
          exact Option.ne_none_iff_exists'.mpr ⟨_, found⟩
  | disconnect id =>
      simp only [Admin.serve] at h
      split at h
      · obtain ⟨u, -, same⟩ := Option.map_eq_some_iff.mp h
        cases same
        trivial
      · cases h
        trivial
  | metrics =>
      simp only [Admin.serve] at h
      split at h <;> cases h <;> trivial
  | health | subscribers channel =>
      cases h
      trivial

theorem advance_sound (known : s.Known)
    (past : ∀ m ∈ moments, ∀ id, Registered m id → s.Born id)
    (stays : ∀ id, Stays first t id → Stays first s id) {x : AdminCall} {stage : AdminStage}
    {call : Option Nat} (g : x.stage.Sound A first moments s)
    (h : A.advance s x = some (t, stage, call)) : stage.Sound A first (moments ++ [s]) t := by
  have more := List.subset_append_left moments [s]
  simp only [Admin.advance] at h
  split at h
  · split at h
    · exact serve_sound known h
    · cases h
      trivial
  · next shard found at_ =>
      rw [at_] at g
      split at h
      · cases h
        exact scan_sound known stays g
      · next whole =>
          cases h
          have later := AdminStage.Sound.mono more stays g
          refine ⟨Covers.all later ?_, nofun, nofun⟩
          intro id
          exact Nat.lt_of_lt_of_le (A.shardOf_lt id) (Nat.le_of_not_lt whole)
  · next out at_ =>
      rw [at_] at g
      cases h
      exact sort_lists (ListsSessions.mono more stays g)
  · next ref todo out at_ =>
      rw [at_] at g
      cases h
      have later := ListsSessions.mono more stays g
      refine ⟨?_, ?_, later.done⟩
      · simpa [collected, Admin.begin] using later.ids
      · rintro r ⟨⟩
        exact begin_reads moments ref
  · next r todo out at_ =>
      rw [at_] at g
      split at h
      · cases h
        have later := ListsSessions.mono more stays g
        refine ⟨?_, ?_, later.done⟩
        · simpa [collected, Admin.readOn] using later.ids
        · rintro _ ⟨⟩
          exact readOn_reads (g.read r rfl)
      · next whole =>
          obtain ⟨u, -, same⟩ := Option.map_eq_some_iff.mp h
          cases same
          exact ListsSessions.mono more stays (summary_lists known past g whole)
  · next id ref at_ =>
      rw [at_] at g
      cases h
      obtain ⟨same, seen, -⟩ := g
      refine ⟨same, seen_mono more id seen, ?_⟩
      rintro r ⟨⟩
      exact ⟨same, begin_reads moments ref⟩
  · next id ref r at_ =>
      rw [at_] at g
      obtain ⟨same, seen, read⟩ := g
      obtain ⟨own, reads⟩ := read r rfl
      split at h
      · cases h
        refine ⟨same, seen_mono more id seen, ?_⟩
        rintro _ ⟨⟩
        exact ⟨own, readOn_reads reads⟩
      · next whole =>
          obtain ⟨u, -, made⟩ := Option.map_eq_some_iff.mp h
          cases made
          cases own
          exact (reads.describes whole seen).mono more
  · split at h <;> cases h
    trivial
  · cases h

end Own

section Request

variable {A : Admin κ β τ ε} {s t : AdminNet κ β τ} {c : Nat}

def momentsOf (past : List (Machine.Transition (AdminNet κ β τ) (AdminLabel ε))) :
    List (State κ β τ) := past.map fun e => e.before.hub

/-- Request `c` since it arrived, when the hub was in state `first`. -/
structure Tracks (A : Admin κ β τ ε) (c : Nat) (first : State κ β τ)
    (past : List (Machine.Transition (AdminNet κ β τ) (AdminLabel ε))) (s : AdminNet κ β τ) :
    Prop where
  known : s.hub.Known
  bound : c < s.nextAdmin
  born : ∀ id, Registered first id → s.hub.Born id
  seen : ∀ m ∈ momentsOf past, ∀ id, Registered m id → s.hub.Born id
  stage : ∀ x, s.admins c = some x → x.stage.Sound A first (momentsOf past) s.hub

theorem step_tracks {first : State κ β τ} {l : AdminLabel ε}
    {past : List (Machine.Transition (AdminNet κ β τ) (AdminLabel ε))}
    (g : Tracks A c first past s) (room : AdminRoomy s l) (h : A.step s l = some t) :
    Tracks A c first (past ++ [⟨s, l, t⟩]) t := by
  have passes := admin_passes room h
  have stays : ∀ id, Stays first t.hub id → Stays first s.hub id :=
    fun id => stays_back g.known g.born passes
  have moments : momentsOf (past ++ [⟨s, l, t⟩]) = momentsOf past ++ [s.hub] := by
    simp [momentsOf]
  have kept : ∀ x, s.admins c = some x →
      x.stage.Sound A first (momentsOf past ++ [s.hub]) t.hub := fun x here =>
    (g.stage x here).mono (List.subset_append_left _ _) stays
  refine ⟨passes.known g.known, ?_, fun id there => passes.born id (g.born id there), ?_, ?_⟩
  · cases l with
    | hub l =>
        obtain ⟨hub, -, rfl⟩ := Option.map_eq_some_iff.mp h
        exact g.bound
    | request r =>
        cases h
        exact Nat.lt_succ_of_lt g.bound
    | move c' =>
        obtain ⟨x, -, moved⟩ := Option.bind_eq_some_iff.mp h
        obtain ⟨out, -, rfl⟩ := Option.map_eq_some_iff.mp moved
        exact g.bound
  · rw [moments]
    intro m member id there
    rcases List.mem_append.mp member with before | now
    · exact passes.born id (g.seen m before id there)
    · cases List.mem_singleton.mp now
      exact passes.born id (registered_born g.known there)
  · rw [moments]
    intro x here
    cases l with
    | hub l =>
        obtain ⟨hub, -, rfl⟩ := Option.map_eq_some_iff.mp h
        exact kept x here
    | request r =>
        cases h
        simp only [Function.update_of_ne (Nat.ne_of_lt g.bound)] at here
        exact kept x here
    | move c' =>
        obtain ⟨y, found, moved⟩ := Option.bind_eq_some_iff.mp h
        obtain ⟨⟨hub, stage, call⟩, advanced, rfl⟩ := Option.map_eq_some_iff.mp moved
        simp only [Function.update_apply] at here
        split at here
        · next same =>
            cases here
            rw [← same] at found
            exact advance_sound g.known g.seen stays (g.stage y found) advanced
        · exact kept x here

/-- A listing is a weakly consistent snapshot, in every interleaving of the handler with the hub
and with other requests. -/
theorem listing_consistent {kinds : Nat → κ} {broker : β}
    (run : A.machine.Run AdminRoomy (Admin.boot (State.initial kinds broker)) s)
    {r : AdminRequest} {arrived : AdminNet κ β τ} (asked : A.step s (.request r) = some arrived)
    {ls : List (AdminLabel ε)} (room : A.machine.Along AdminRoomy arrived ls)
    (ran : A.machine.exec arrived ls = some t) {x : AdminCall} {out : List SessionSummary}
    (here : t.admins s.nextAdmin = some x) (replied : x.stage = .replied (.sessions out)) :
    out.Pairwise (fun a b => a.id < b.id) ∧
      (∀ id, Registered arrived.hub id → Registered t.hub id → ∃ e ∈ out, e.id = id) ∧
      ∀ e ∈ out, ∃ channels, e.channels = channels.length ∧
        Describes (momentsOf (A.machine.path arrived ls)) e.id e.subject channels := by
  cases asked
  have known := admin_known run
  have start : Tracks A s.nextAdmin s.hub [] ⟨s.hub, Function.update s.admins s.nextAdmin
      (some ⟨r, .routed, none⟩), s.nextAdmin + 1⟩ := by
    refine ⟨known, Nat.lt_succ_self _, fun id => registered_born known, nofun, ?_⟩
    intro x found
    simp only [Function.update_self] at found
    cases found
    trivial
  have tracks := Machine.path_invariant (M := A.machine)
    (fun past s l t g ok h => step_tracks g ok h) start room ran
  rw [List.nil_append] at tracks
  have sound := tracks.stage x here
  rw [replied] at sound
  obtain ⟨ordered, lists⟩ := sound
  refine ⟨ordered, ?_, lists.done⟩
  intro id before after
  have member := lists.ids.whole id ⟨before, after⟩
  simpa [collected] using member

end Request

def adminRoomy (s : AdminNet κ β τ) : AdminLabel ε → Bool
  | .hub (.advance n _ _) =>
      match s.hub.calls n with
      | some (.openSession _) => decide (s.hub.shared.nextRef < 2 ^ 64)
      | _ => true
  | _ => true

theorem adminRoomy_sound (s : AdminNet κ β τ) (l : AdminLabel ε) (h : adminRoomy s l = true) :
    AdminRoomy s l := by
  rintro l' rfl n env now capacity rfl called
  simpa [adminRoomy, called] using h

/-- The admin API over a hub with the default settings, its maps in two shards. -/
def console : Admin PubSubChannel MemoryBroker MemoryStream Unit where
  hub := defaults.hub
  kicks := true
  render := none
  authToken := none
  shards := 2
  shardOf := fun id => id % 2
  channelShard := fun ref channel => (ref + channel.length) % 2
  shardOf_lt := fun id => Nat.mod_lt id (by decide)
  channelShard_lt := fun ref channel => Nat.mod_lt (ref + channel.length) (by decide)

def arrival (n : Nat) : List (AdminLabel Unit) :=
  .hub (.start (.openSession 8)) :: List.replicate 5 (.hub (.advance n () 0))

/-- A third session arrives between the two shards, one too late to be seen. -/
def listedAmongArrivals : List (AdminLabel Unit) :=
  [.move 0, .move 0] ++ arrival 2 ++ List.replicate 11 (.move 0)

def AdminCall.lists (ids : List Nat) (x : AdminCall) : Bool :=
  match x.stage with
  | .replied (.sessions out) => out.map SessionSummary.id == ids
  | _ => false

theorem AdminCall.of_lists {ids : List Nat} {x : AdminCall} (h : x.lists ids = true) :
    ∃ out, x.stage = .replied (.sessions out) ∧ out.map SessionSummary.id = ids := by
  simp only [AdminCall.lists] at h
  split at h
  · next out stage => exact ⟨out, stage, by simpa using h⟩
  · cases h

theorem listing_consistent_arrivals :
    ∃ s arrived t x out, console.machine.Run AdminRoomy (Admin.boot defaults.boot) s ∧
      console.step s (.request ⟨none, .sessions⟩) = some arrived ∧
      console.machine.exec arrived listedAmongArrivals = some t ∧
      t.admins s.nextAdmin = some x ∧ x.stage = .replied (.sessions out) ∧
      out.map SessionSummary.id = [0, 1] ∧ t.hub.shared.registry.get 2 = some 2 ∧
      ∀ id, Registered arrived.hub id → Registered t.hub id → id = 0 ∨ id = 1 := by
  have sound := fun (s : AdminNet PubSubChannel MemoryBroker MemoryStream) (l : AdminLabel Unit)
    (_ : s.hub.Known) => adminRoomy_sound s l
  have kept := fun (s : AdminNet PubSubChannel MemoryBroker MemoryStream) (l : AdminLabel Unit)
    (t : AdminNet PubSubChannel MemoryBroker MemoryStream) (g : s.hub.Known) room
    (h : console.machine.step s l = some t) => (admin_passes (A := console) room h).known g
  have start : (Admin.boot defaults.boot).hub.Known := initial_known _ _
  have computed : (console.machine.execWithin adminRoomy (Admin.boot defaults.boot)
      (arrival 0 ++ arrival 1)).any (fun s => (console.step s (.request ⟨none, .sessions⟩)).any
        fun arrived => (console.machine.execWithin adminRoomy arrived listedAmongArrivals).any
          fun t => (t.admins s.nextAdmin).any (AdminCall.lists [0, 1]) &&
            t.hub.shared.registry.get 2 == some 2) = true := by
    decide +kernel
  obtain ⟨s, reached, computed⟩ := (Option.any_eq_true _ _).mp computed
  obtain ⟨arrived, asked, computed⟩ := (Option.any_eq_true _ _).mp computed
  obtain ⟨t, ended, computed⟩ := (Option.any_eq_true _ _).mp computed
  obtain ⟨replied, late⟩ := Bool.and_eq_true_iff.mp computed
  obtain ⟨x, here, lists⟩ := (Option.any_eq_true _ _).mp replied
  obtain ⟨out, stage, ids⟩ := AdminCall.of_lists lists
  have run := Machine.execWithin_run (M := console.machine) sound kept start reached
  have known : arrived.hub.Known := by
    refine (admin_passes (A := console) ?_ asked).known (admin_known run)
    rintro l' ⟨⟩
  obtain ⟨ran, room⟩ := Machine.execWithin_along (M := console.machine) sound kept known ended
  obtain ⟨-, whole, -⟩ := listing_consistent run asked room ran here stage
  refine ⟨s, arrived, t, x, out, run, asked, ran, here, stage, ids, by simpa using late, ?_⟩
  intro id before after
  obtain ⟨e, member, rfl⟩ := whole id before after
  have listed := List.mem_map_of_mem (f := SessionSummary.id) member
  simpa [ids] using listed

end Cherenkov
