import Cherenkov.Library.Machine
import Cherenkov.PubSub

/-! `on_publish` reads the clock and takes the channel's lock afterwards, so two publishers may
enter their entries in the other order than they read the clock. `evict_expired` pops expired
entries from the front and stops at the first fresh one: it finds all of them if the stamps ascend.
-/

namespace Cherenkov

/-- What is left after dropping a prefix satisfies nothing that would have been inherited by its
first member. -/
theorem of_mem_dropWhile {α : Type*} {p : α → Bool} {items : List α}
    (inherits : items.Pairwise fun a b => p b = true → p a = true) {a : α}
    (member : a ∈ items.dropWhile p) : p a = false := by
  induction items with
  | nil => cases member
  | cons first rest ih =>
      obtain ⟨above, inherits⟩ := List.pairwise_cons.mp inherits
      cases holds : p first with
      | true =>
          rw [List.dropWhile_cons_of_pos holds] at member
          exact ih inherits member
      | false =>
          rw [List.dropWhile_cons_of_neg (by simp [holds])] at member
          rcases List.mem_cons.mp member with rfl | later
          · exact holds
          · cases own : p a with
            | false => rfl
            | true => exact (above a later own).symm.trans holds

namespace PubSubChannel

/-- The entries that a replay returns, with their stamps. -/
def replayed (ps : PubSubChannel) (now : Nat) (channel : String) (since : Nat) :
    List HistoryEntry :=
  (ps.evictExpired ((ps.state.get channel).getD ⟨0, []⟩) now).entries.filter fun e =>
    since < e.offset

def Ascending (ps : PubSubChannel) (channel : String) : Prop :=
  (ps.entries channel).Pairwise fun e f => e.insertedAt ≤ f.insertedAt

variable {ps : PubSubChannel} {now since : Nat} {channel : String}

theorem replaySince_replayed (ps : PubSubChannel) (now : Nat) (channel : String) (since : Nat) :
    (ps.replaySince now channel since).2 =
      .ok ((ps.replayed now channel since).map (toPublication channel)) := by
  cases found : ps.state.get channel <;> simp [replaySince, replayed, found, evictExpired]

theorem mem_of_mem_replayed {e : HistoryEntry} (member : e ∈ ps.replayed now channel since) :
    e ∈ ps.entries channel :=
  (ps.evictExpired_suffix _ now).subset (List.mem_filter.mp member).1

theorem Ascending.fresh (ascending : ps.Ascending channel) {e : HistoryEntry}
    (member : e ∈ ps.replayed now channel since) : now - e.insertedAt ≤ ps.historyTtl := by
  have kept := of_mem_dropWhile (p := fun e : HistoryEntry => ps.historyTtl < now - e.insertedAt)
    (ascending.imp fun {a b} earlier expired => by
      have := of_decide_eq_true expired
      exact decide_eq_true (by omega)) (List.mem_filter.mp member).1
  exact Nat.le_of_not_lt (of_decide_eq_false kept)

theorem onPublish_historyTtl (ps : PubSubChannel) (now : Nat) (channel : String) (data : Bytes) :
    (ps.onPublish now channel data).1.historyTtl = ps.historyTtl := by
  unfold onPublish
  split <;> rfl

theorem replaySince_historyTtl (ps : PubSubChannel) (now : Nat) (channel : String) (since : Nat) :
    (ps.replaySince now channel since).1.historyTtl = ps.historyTtl := by
  unfold replaySince
  split <;> rfl

theorem onPublish_ascending {data : Bytes} (ascending : ∀ c, ps.Ascending c)
    (latest : ∀ e ∈ ps.entries channel, e.insertedAt ≤ now) (c : String) :
    (ps.onPublish now channel data).1.Ascending c := by
  rcases ps.onPublish_entries now channel data with refused | ⟨-, here, elsewhere⟩
  · rw [refused]
    exact ascending c
  · by_cases same : c = channel
    · subst same
      refine List.Pairwise.sublist here.sublist (List.pairwise_append.mpr ⟨ascending c, ?_, ?_⟩)
      · exact List.pairwise_singleton _ _
      · intro e member f last
        rw [List.mem_singleton.mp last]
        exact latest e member
    · rw [Ascending, elsewhere c same]
      exact ascending c

theorem replaySince_ascending (ascending : ∀ c, ps.Ascending c) (c : String) :
    (ps.replaySince now channel since).1.Ascending c :=
  List.Pairwise.sublist (ps.replaySince_entries now channel since c).sublist (ascending c)

end PubSubChannel

/-- An `on_publish` that has read the clock and waits for the channel's lock. -/
structure PendingPublish where
  stamp : Nat
  channel : String
  data : Bytes

inductive ClockLabel where
  | tick (elapsed : Nat)
  | read (channel : String) (data : Bytes)
  | commit (call : Nat)
  | replay (channel : String) (since : Nat)

/-- `stamped` records every accepted publication with the reading that its call took. -/
structure Clocked where
  kind : PubSubChannel
  clock : Nat
  calls : Nat → Option PendingPublish
  nextCall : Nat
  stamped : List (Nat × Publication)

namespace Clocked

open PubSubChannel

def boot (historySize historyTtl : Nat) : Clocked :=
  ⟨.withBounds historySize historyTtl, 0, fun _ => none, 0, []⟩

/-- The locked section of a call. -/
def commit (s : Clocked) (n : Nat) (call : PendingPublish) : Clocked :=
  let out := s.kind.onPublish call.stamp call.channel call.data
  { s with
    kind := out.1
    calls := Function.update s.calls n none
    stamped := (out.2.toOption.map fun p => (call.stamp, p)).toList ++ s.stamped }

def step (s : Clocked) : ClockLabel → Option Clocked
  | .tick elapsed => some { s with clock := s.clock + elapsed }
  | .read channel data =>
      some { s with
        calls := Function.update s.calls s.nextCall (some ⟨s.clock, channel, data⟩)
        nextCall := s.nextCall + 1 }
  | .commit n => (s.calls n).map (s.commit n)
  | .replay channel since => some { s with kind := (s.kind.replaySince s.clock channel since).1 }

def machine : Machine Clocked ClockLabel := ⟨step⟩

/-- Publishers of a channel take its lock in the order in which they read the clock. -/
def InOrder (s : Clocked) (l : ClockLabel) : Prop :=
  ∀ n call, l = .commit n → s.calls n = some call →
    ∀ e ∈ s.kind.entries call.channel, e.insertedAt ≤ call.stamp

structure Ordered (historyTtl : Nat) (s : Clocked) : Prop where
  ttl : s.kind.historyTtl = historyTtl
  ascending : ∀ channel, s.kind.Ascending channel
  pending : ∀ n call, s.calls n = some call → call.stamp ≤ s.clock
  recorded : ∀ channel, ∀ e ∈ s.kind.entries channel,
    (e.insertedAt, toPublication channel e) ∈ s.stamped
  past : ∀ entry ∈ s.stamped, entry.1 ≤ s.clock

variable {historySize historyTtl : Nat} {s t : Clocked} {l : ClockLabel}

theorem boot_ordered : (boot historySize historyTtl).Ordered historyTtl where
  ttl := rfl
  ascending channel := by
    rw [Ascending, boot, withBounds_entries]
    exact List.Pairwise.nil
  pending n call waiting := by cases waiting
  recorded channel e member := by
    rw [boot, withBounds_entries] at member
    cases member
  past entry member := by cases member

theorem commit_ordered {n : Nat} {call : PendingPublish} (ordered : s.Ordered historyTtl)
    (waiting : s.calls n = some call)
    (latest : ∀ e ∈ s.kind.entries call.channel, e.insertedAt ≤ call.stamp) :
    (s.commit n call).Ordered historyTtl := by
  refine ⟨?_, onPublish_ascending ordered.ascending latest, ?_, ?_, ?_⟩
  · exact (onPublish_historyTtl _ _ _ _).trans ordered.ttl
  · intro m other found
    by_cases same : m = n
    · subst same
      simp [commit] at found
    · simp only [commit, Function.update_of_ne same] at found
      exact ordered.pending m other found
  · intro c e member
    rcases s.kind.onPublish_entries call.stamp call.channel call.data with
      refused | ⟨accepted, here, elsewhere⟩
    · simp only [commit, refused] at member ⊢
      exact ordered.recorded c e member
    · simp only [commit, accepted, Except.toOption, Option.map_some, Option.toList_some]
      by_cases same : c = call.channel
      · subst same
        rcases List.mem_append.mp (here.subset member) with earlier | own
        · exact List.mem_cons_of_mem _ (ordered.recorded _ e earlier)
        · rw [List.mem_singleton.mp own]
          exact List.mem_cons_self
      · simp only [commit, elsewhere c same] at member
        exact List.mem_cons_of_mem _ (ordered.recorded c e member)
  · intro entry member
    rcases List.mem_append.mp member with own | earlier
    · obtain ⟨p, -, rfl⟩ := Option.map_eq_some_iff.mp (Option.mem_toList.mp own)
      exact ordered.pending n call waiting
    · exact ordered.past entry earlier

theorem step_ordered (ordered : s.Ordered historyTtl) (inOrder : s.InOrder l)
    (stepped : machine.step s l = some t) : t.Ordered historyTtl := by
  cases l with
  | tick elapsed =>
      cases stepped
      refine ⟨ordered.ttl, ordered.ascending, ?_, ordered.recorded, ?_⟩
      · intro n call waiting
        exact Nat.le_add_right_of_le (ordered.pending n call waiting)
      · intro entry member
        exact Nat.le_add_right_of_le (ordered.past entry member)
  | read channel data =>
      cases stepped
      refine ⟨ordered.ttl, ordered.ascending, ?_, ordered.recorded, ordered.past⟩
      intro n call waiting
      dsimp only at waiting
      by_cases same : n = s.nextCall
      · subst same
        rw [Function.update_self] at waiting
        cases waiting
        exact Nat.le_refl _
      · rw [Function.update_of_ne same] at waiting
        exact ordered.pending n call waiting
  | commit n =>
      obtain ⟨call, waiting, rfl⟩ := Option.map_eq_some_iff.mp stepped
      exact commit_ordered ordered waiting (inOrder n call rfl waiting)
  | replay channel since =>
      cases stepped
      refine ⟨?_, replaySince_ascending ordered.ascending, ordered.pending, ?_, ordered.past⟩
      · exact (replaySince_historyTtl _ _ _ _).trans ordered.ttl
      · intro c e member
        exact ordered.recorded c e ((s.kind.replaySince_entries s.clock channel since c).subset member)

theorem run_ordered (run : machine.Run InOrder (boot historySize historyTtl) s) :
    s.Ordered historyTtl :=
  run.invariant boot_ordered fun _ _ _ ordered inOrder stepped =>
    step_ordered ordered inOrder stepped

/-- If publishers take the lock in the order of their readings, a replay returns nothing that was
stamped longer ago than the time to live. -/
theorem replay_fresh (run : machine.Run InOrder (boot historySize historyTtl) s)
    (channel : String) (since : Nat) :
    (s.kind.replaySince s.clock channel since).2 =
        .ok ((s.kind.replayed s.clock channel since).map (toPublication channel)) ∧
      ∀ e ∈ s.kind.replayed s.clock channel since,
        (e.insertedAt, toPublication channel e) ∈ s.stamped ∧ e.insertedAt ≤ s.clock ∧
          s.clock - e.insertedAt ≤ historyTtl := by
  have ordered := run_ordered run
  refine ⟨replaySince_replayed _ _ _ _, ?_⟩
  intro e member
  have recorded := ordered.recorded channel e (mem_of_mem_replayed member)
  refine ⟨recorded, ordered.past _ recorded, ?_⟩
  rw [← ordered.ttl]
  exact (ordered.ascending channel).fresh member

/-- The first call to read the clock is the second to take the lock. -/
def overtaken : List ClockLabel := [
  .read "rooms.lobby" [1], .tick 10, .read "rooms.lobby" [2], .commit 1, .commit 0, .tick 2]

/-- An entry stamped 12 ago hides behind a fresh one, with 5 to live, and is replayed. -/
theorem replay_expired :
    ∃ s, machine.Run Machine.free (boot 256 5) s ∧ s.clock = 12 ∧
      (s.kind.replaySince s.clock "rooms.lobby" 0).2 = .ok [⟨"rooms.lobby", 1, [1]⟩] ∧
      s.stamped = [(0, ⟨"rooms.lobby", 1, [1]⟩), (10, ⟨"rooms.lobby", 0, [2]⟩)] ∧
      ∃ e ∈ s.kind.replayed s.clock "rooms.lobby" 0, 5 < s.clock - e.insertedAt := by
  obtain ⟨s, -, run, holds⟩ := Machine.exec_witness (M := machine) (s := boot 256 5) overtaken
    (fun s => s.clock = 12 ∧
      (s.kind.replaySince s.clock "rooms.lobby" 0).2 = .ok [⟨"rooms.lobby", 1, [1]⟩] ∧
      s.stamped = [(0, ⟨"rooms.lobby", 1, [1]⟩), (10, ⟨"rooms.lobby", 0, [2]⟩)] ∧
      ∃ e ∈ s.kind.replayed s.clock "rooms.lobby" 0, 5 < s.clock - e.insertedAt)
    (by decide +kernel)
  exact ⟨s, run, holds⟩

def inOrder (s : Clocked) : ClockLabel → Bool
  | .commit n =>
      match s.calls n with
      | none => true
      | some call => (s.kind.entries call.channel).all fun e => e.insertedAt ≤ call.stamp
  | _ => true

theorem inOrder_sound (s : Clocked) (l : ClockLabel) (_ : True) (h : inOrder s l = true) :
    InOrder s l := by
  rintro n call rfl waiting e member
  simp only [inOrder, waiting] at h
  exact of_decide_eq_true (List.all_eq_true.mp h e member)

def queued : List ClockLabel := [
  .read "rooms.lobby" [1], .tick 1, .read "rooms.lobby" [2], .commit 0, .commit 1, .tick 5]

theorem replay_fresh_queued :
    ∃ s, machine.Run InOrder (boot 256 5) s ∧ s.clock = 6 ∧
      s.kind.replayed 6 "rooms.lobby" 0 = [⟨1, 1, [2]⟩] ∧
      ∀ e ∈ s.kind.replayed s.clock "rooms.lobby" 0,
        (e.insertedAt, toPublication "rooms.lobby" e) ∈ s.stamped ∧ e.insertedAt ≤ s.clock ∧
          s.clock - e.insertedAt ≤ 5 := by
  obtain ⟨s, run, clock, replayed⟩ := Machine.execWithin_witness (M := machine) (s := boot 256 5)
    inOrder_sound (fun _ _ _ _ _ _ => trivial) trivial queued
    (fun s => s.clock = 6 ∧ s.kind.replayed 6 "rooms.lobby" 0 = [⟨1, 1, [2]⟩])
    (by decide +kernel)
  exact ⟨s, run, clock, replayed, (replay_fresh run "rooms.lobby" 0).2⟩

end Clocked

end Cherenkov
