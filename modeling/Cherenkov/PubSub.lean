import Mathlib.Data.List.Infix
import Mathlib.Data.List.TakeWhile
import Mathlib.Order.Basic
import Cherenkov.Library.DashMap
import Cherenkov.Core

/-! `PubSubChannel` keeps one bounded history per channel. Each method below is one section under
the channel's lock; the clock reading it takes is an argument, so nothing is assumed about how
readings of different calls compare. Expired entries are popped from the front up to the first fresh
one; the truncated subtraction is `saturating_duration_since`. -/

namespace Cherenkov

structure HistoryEntry where
  insertedAt : Nat
  offset : Nat
  data : Bytes
  deriving DecidableEq, Repr

structure ChannelState where
  nextOffset : Nat
  entries : List HistoryEntry
  deriving DecidableEq, Repr

structure PubSubChannel where
  epoch : Nat
  historySize : Nat
  historyTtl : Nat
  state : DashMap String ChannelState

namespace PubSubChannel

def withBounds (historySize historyTtl : Nat) : PubSubChannel where
  epoch := 1
  historySize := max historySize 1
  historyTtl := historyTtl
  state := ∅

def evictExpired (ps : PubSubChannel) (state : ChannelState) (now : Nat) : ChannelState :=
  { state with entries := state.entries.dropWhile fun e => ps.historyTtl < now - e.insertedAt }

def cursorLocked (ps : PubSubChannel) (state : ChannelState) : ChannelCursor :=
  ⟨ps.epoch, state.nextOffset - 1⟩

def cursor (ps : PubSubChannel) (channel : String) : ChannelCursor :=
  match ps.state.get channel with
  | some state => ps.cursorLocked state
  | none => ⟨ps.epoch, 0⟩

def onSubscribe (ps : PubSubChannel) (channel : String) : Except ChannelError ChannelCursor :=
  if channel.isEmpty then .error (.invalidChannel channel) else .ok (ps.cursor channel)

def append (ps : PubSubChannel) (state : ChannelState) (now : Nat) (data : Bytes) : ChannelState :=
  let state := ps.evictExpired state now
  let entries := state.entries ++ [⟨now, state.nextOffset, data⟩]
  ⟨min (state.nextOffset + 1) u64Max, entries.drop (entries.length - ps.historySize)⟩

def onPublish (ps : PubSubChannel) (now : Nat) (channel : String) (data : Bytes) :
    PubSubChannel × Except ChannelError Publication :=
  if channel.isEmpty then (ps, .error (.invalidChannel channel))
  else
    let state := (ps.state.get channel).getD ⟨0, []⟩
    ({ ps with state := ps.state.put channel (ps.append state now data) },
      .ok ⟨channel, state.nextOffset, data⟩)

def toPublication (channel : String) (e : HistoryEntry) : Publication :=
  ⟨channel, e.offset, e.data⟩

def replaySince (ps : PubSubChannel) (now : Nat) (channel : String) (sinceOffset : Nat) :
    PubSubChannel × Except ChannelError (List Publication) :=
  match ps.state.get channel with
  | none => (ps, .ok [])
  | some state =>
      let state := ps.evictExpired state now
      ({ ps with state := ps.state.put channel state },
        .ok ((state.entries.filter fun e => sinceOffset < e.offset).map (toPublication channel)))

/-! Callers reason about a channel through the offset it hands out next and the publications it
still retains, oldest first. -/

def nextOffset (ps : PubSubChannel) (channel : String) : Nat :=
  ((ps.state.get channel).getD ⟨0, []⟩).nextOffset

def entries (ps : PubSubChannel) (channel : String) : List HistoryEntry :=
  ((ps.state.get channel).getD ⟨0, []⟩).entries

def retained (ps : PubSubChannel) (channel : String) : List Publication :=
  ((ps.state.get channel).getD ⟨0, []⟩).entries.map (toPublication channel)

@[simp] theorem withBounds_nextOffset (size ttl : Nat) (channel : String) :
    (withBounds size ttl).nextOffset channel = 0 := by
  simp [withBounds, nextOffset]

@[simp] theorem withBounds_retained (size ttl : Nat) (channel : String) :
    (withBounds size ttl).retained channel = [] := by
  simp [withBounds, retained]

@[simp] theorem withBounds_entries (size ttl : Nat) (channel : String) :
    (withBounds size ttl).entries channel = [] := by
  simp [withBounds, entries]

variable {ps ps' : PubSubChannel} {channel : String} {now : Nat} {data : Bytes} {p : Publication}

theorem retained_channel (h : p ∈ ps.retained channel) : p.channel = channel := by
  obtain ⟨e, _, rfl⟩ := List.mem_map.mp h
  rfl

theorem evictExpired_suffix (ps : PubSubChannel) (state : ChannelState) (now : Nat) :
    (ps.evictExpired state now).entries <:+ state.entries := List.dropWhile_suffix _

theorem append_nextOffset (ps : PubSubChannel) (state : ChannelState) (now : Nat) (data : Bytes) :
    (ps.append state now data).nextOffset = min (state.nextOffset + 1) u64Max := rfl

theorem append_entries_suffix (ps : PubSubChannel) (state : ChannelState) (now : Nat)
    (data : Bytes) : (ps.append state now data).entries <:+
      state.entries ++ [⟨now, state.nextOffset, data⟩] := by
  obtain ⟨expired, fresh⟩ := ps.evictExpired_suffix state now
  refine (List.drop_suffix _ _).trans ⟨expired, ?_⟩
  rw [← List.append_assoc, fresh]
  rfl

theorem append_length_le (ps : PubSubChannel) (state : ChannelState) (now : Nat) (data : Bytes) :
    (ps.append state now data).entries.length ≤ ps.historySize := by
  simp only [append, List.length_drop]
  omega

theorem append_length_pos (room : 0 < ps.historySize) (state : ChannelState) (now : Nat)
    (data : Bytes) : 0 < (ps.append state now data).entries.length := by
  simp only [append, List.length_drop, List.length_append, List.length_singleton]
  omega

theorem onPublish_error {e : ChannelError} (h : ps.onPublish now channel data = (ps', .error e)) :
    ps' = ps := by
  unfold onPublish at h
  split at h
  · exact (congrArg Prod.fst h).symm
  · cases congrArg Prod.snd h

/-- What an accepted publish returns and how it moves the abstract view. -/
structure Accepts (ps : PubSubChannel) (channel : String) (data : Bytes) (ps' : PubSubChannel)
    (p : Publication) : Prop where
  publication : p = ⟨channel, ps.nextOffset channel, data⟩
  next : ps'.nextOffset channel = min (ps.nextOffset channel + 1) u64Max
  history : ∃ k, ps'.retained channel = (ps.retained channel ++ [p]).drop k
  otherNext : ∀ c, c ≠ channel → ps'.nextOffset c = ps.nextOffset c
  otherHistory : ∀ c, c ≠ channel → ps'.retained c = ps.retained c

theorem onPublish_accepts (h : ps.onPublish now channel data = (ps', .ok p)) :
    Accepts ps channel data ps' p := by
  unfold onPublish at h
  split at h
  · cases congrArg Prod.snd h
  · obtain ⟨rfl, same⟩ := Prod.mk.inj h
    have result : p = ⟨channel, ps.nextOffset channel, data⟩ := (Except.ok.inj same).symm
    refine ⟨result, ?_, ?_, ?_, ?_⟩
    · simp [nextOffset, append_nextOffset]
    · have suffix := (ps.append_entries_suffix ((ps.state.get channel).getD ⟨0, []⟩) now data).map
        (toPublication channel)
      rw [List.map_append] at suffix
      simp only [retained, DashMap.get_put_self, Option.getD_some, result]
      exact ⟨_, List.suffix_iff_eq_drop.mp suffix⟩
    · intro c other
      simp only [nextOffset, DashMap.get_put_ne _ _ other]
    · intro c other
      simp only [retained, DashMap.get_put_ne _ _ other]

theorem onPublish_length (h : ps.onPublish now channel data = (ps', .ok p)) :
    (ps'.retained channel).length ≤ ps.historySize ∧
      (0 < ps.historySize → 0 < (ps'.retained channel).length) := by
  unfold onPublish at h
  split at h
  · cases congrArg Prod.snd h
  · obtain ⟨rfl, -⟩ := Prod.mk.inj h
    simp only [retained, DashMap.get_put_self, Option.getD_some, List.length_map]
    exact ⟨append_length_le _ _ _ _, fun room => append_length_pos room _ _ _⟩

theorem onPublish_entries (ps : PubSubChannel) (now : Nat) (channel : String) (data : Bytes) :
    ps.onPublish now channel data = (ps, .error (.invalidChannel channel)) ∨
      (ps.onPublish now channel data).2 = .ok ⟨channel, ps.nextOffset channel, data⟩ ∧
        (ps.onPublish now channel data).1.entries channel <:+
          ps.entries channel ++ [⟨now, ps.nextOffset channel, data⟩] ∧
        ∀ c, c ≠ channel → (ps.onPublish now channel data).1.entries c = ps.entries c := by
  unfold onPublish
  split
  · exact Or.inl rfl
  · refine Or.inr ⟨rfl, ?_, ?_⟩
    · simp only [entries, DashMap.get_put_self, Option.getD_some]
      exact append_entries_suffix _ _ _ _
    · intro c other
      simp only [entries, DashMap.get_put_ne _ _ other]

theorem replaySince_entries (ps : PubSubChannel) (now : Nat) (channel : String) (since : Nat)
    (c : String) : (ps.replaySince now channel since).1.entries c <:+ ps.entries c := by
  unfold replaySince
  cases found : ps.state.get channel with
  | none => exact List.suffix_rfl
  | some state =>
      by_cases here : c = channel
      · subst here
        simp only [entries, DashMap.get_put_self, Option.getD_some, found]
        exact ps.evictExpired_suffix state now
      · simp only [entries, DashMap.get_put_ne _ _ here]
        exact List.suffix_rfl

/-- The channel's history and next offset, and the cursor a subscriber would be answered. -/
def standing (ps : PubSubChannel) (channel : String) : ChannelState × ChannelCursor :=
  ((ps.state.get channel).getD ⟨0, []⟩, ps.cursor channel)

/-- The channel is out of offsets and full of copies of the entry that a publish would add. -/
def Spent (ps : PubSubChannel) (now : Nat) (channel : String) (data : Bytes) : Prop :=
  (ps.state.get channel).getD ⟨0, []⟩ =
    ⟨u64Max, List.replicate ps.historySize ⟨now, u64Max, data⟩⟩

theorem eq_replicate_of_rotated {α : Type*} {e x : α} {xs : List α} (h : x :: xs = xs ++ [e]) :
    x = e ∧ xs = List.replicate xs.length e := by
  induction xs generalizing x with
  | nil => exact ⟨List.head_eq_of_cons_eq h, rfl⟩
  | cons y ys ih =>
      obtain ⟨rfl, rest⟩ := List.cons.inj h
      obtain ⟨rfl, filled⟩ := ih rest
      exact ⟨rfl, congrArg (x :: ·) filled⟩

/-- Popping and pushing leaves a bounded queue as it was if it is full of the pushed entry. -/
theorem queue_eq_self {α : Type*} {expired : α → Bool} {e : α} (fresh : expired e = false)
    {size : Nat} (room : 0 < size) (entries : List α) :
    (entries.dropWhile expired ++ [e]).drop ((entries.dropWhile expired ++ [e]).length - size) =
      entries ↔ entries = List.replicate size e := by
  constructor
  · intro same
    have lengths := congrArg List.length same
    simp only [List.length_drop, List.length_append, List.length_singleton] at lengths same
    cases entries with
    | nil =>
        simp only [List.dropWhile_nil, List.length_nil] at lengths
        omega
    | cons x xs =>
        cases old : expired x with
        | true =>
            rw [List.dropWhile_cons_of_pos old] at same lengths
            have suffix := List.dropWhile_suffix expired (l := xs)
            have short := suffix.length_le
            rw [List.length_cons] at lengths
            have whole := suffix.eq_of_length (by omega)
            rw [whole] at same lengths
            rw [show xs.length + 1 - size = 0 by omega, List.drop_zero] at same
            obtain ⟨rfl, -⟩ := eq_replicate_of_rotated same.symm
            rw [fresh] at old
            cases old
        | false =>
            rw [List.dropWhile_cons_of_neg (by simp [old]), List.length_cons] at same lengths
            obtain rfl : size = xs.length + 1 := by omega
            rw [show xs.length + 1 + 1 - (xs.length + 1) = 1 by omega] at same
            obtain ⟨rfl, filled⟩ := eq_replicate_of_rotated (e := e) same.symm
            rw [List.replicate_succ, ← filled]
  · rintro rfl
    have kept : (List.replicate size e).dropWhile expired = List.replicate size e := by
      cases size with
      | zero => rfl
      | succ k => rw [List.replicate_succ, List.dropWhile_cons_of_neg (by simp [fresh])]
    rw [kept, ← List.replicate_succ', List.drop_replicate, List.length_replicate]
    congr 1
    omega

theorem append_eq_self {state : ChannelState} (room : 0 < ps.historySize)
    (range : state.nextOffset ≤ u64Max) :
    ps.append state now data = state ↔
      state = ⟨u64Max, List.replicate ps.historySize ⟨now, u64Max, data⟩⟩ := by
  obtain ⟨next, entries⟩ := state
  have last : min (next + 1) u64Max = next ↔ next = u64Max := by
    simp only at range
    omega
  simp only [append, evictExpired, ChannelState.mk.injEq, last]
  refine and_congr_right ?_
  rintro rfl
  refine queue_eq_self ?_ room entries
  simp

theorem cursor_eq (ps : PubSubChannel) (channel : String) :
    ps.cursor channel = ⟨ps.epoch, ps.nextOffset channel - 1⟩ := by
  unfold cursor
  cases found : ps.state.get channel with
  | none => simp [nextOffset, found]
  | some state => simp [nextOffset, found, cursorLocked]

theorem onPublish_standing (room : 0 < ps.historySize) (range : ps.nextOffset channel ≤ u64Max)
    (accepted : (ps.onPublish now channel data).2 = .ok p) :
    (∀ c, (ps.onPublish now channel data).1.standing c = ps.standing c) ↔
      ps.Spent now channel data := by
  have nonempty : ¬channel.isEmpty = true := by
    intro empty
    simp [onPublish, empty] at accepted
  have stays : ps.append ((ps.state.get channel).getD ⟨0, []⟩) now data = _ ↔ _ :=
    append_eq_self room range
  simp only [onPublish, if_neg nonempty]
  constructor
  · intro same
    have here := congrArg Prod.fst (same channel)
    simp only [standing, DashMap.get_put_self, Option.getD_some] at here
    exact stays.mp here
  · intro spent c
    by_cases here : c = channel
    · subst here
      simp only [standing, cursor_eq, nextOffset, DashMap.get_put_self, Option.getD_some,
        stays.mpr spent]
    · simp only [standing, cursor_eq, nextOffset, DashMap.get_put_ne _ _ here]

/-- A replay drops a prefix of the history and returns the rest after the offset. -/
structure Replays (ps : PubSubChannel) (channel : String) (since : Nat) (ps' : PubSubChannel)
    (result : List Publication) : Prop where
  result_eq : result = (ps'.retained channel).filter fun p => since < p.offset
  history : ∃ k, ps'.retained channel = (ps.retained channel).drop k
  next : ∀ c, ps'.nextOffset c = ps.nextOffset c
  otherHistory : ∀ c, c ≠ channel → ps'.retained c = ps.retained c

theorem replaySince_replays (ps : PubSubChannel) (now : Nat) (channel : String) (since : Nat) :
    ∃ result, (ps.replaySince now channel since).2 = .ok result ∧
      Replays ps channel since (ps.replaySince now channel since).1 result := by
  unfold replaySince
  cases found : ps.state.get channel with
  | none =>
      refine ⟨[], rfl, ?_, ⟨0, rfl⟩, fun _ => rfl, fun _ _ => rfl⟩
      simp [retained, found]
  | some state =>
      refine ⟨_, rfl, ?_, ?_, ?_, ?_⟩
      · simp only [retained, DashMap.get_put_self, Option.getD_some, List.filter_map]
        rfl
      · have suffix := (ps.evictExpired_suffix state now).map (toPublication channel)
        simp only [retained, DashMap.get_put_self, Option.getD_some, found]
        exact ⟨_, List.suffix_iff_eq_drop.mp suffix⟩
      · intro c
        by_cases same : c = channel
        · subst same
          simp [nextOffset, found, evictExpired]
        · simp only [nextOffset, DashMap.get_put_ne _ _ same]
      · intro c other
        simp only [retained, DashMap.get_put_ne _ _ other]

/-- The entries that are older than the TTL at `now`, up to the oldest one that is not, and the
entries from that one on. -/
structure Evicts (ps : PubSubChannel) (now : Nat) (channel : String)
    (gone kept : List HistoryEntry) : Prop where
  split : ps.entries channel = gone ++ kept
  expired : ∀ e ∈ gone, ps.historyTtl < now - e.insertedAt
  fresh : ∀ e ∈ kept.head?, now - e.insertedAt ≤ ps.historyTtl

theorem replaySince_dropWhile (ps : PubSubChannel) (now : Nat) (channel : String) (since : Nat) :
    (ps.replaySince now channel since).1.entries channel =
      (ps.entries channel).dropWhile fun e => ps.historyTtl < now - e.insertedAt := by
  cases found : ps.state.get channel <;> simp [replaySince, entries, found, evictExpired]

theorem replaySince_evicts (ps : PubSubChannel) (now : Nat) (channel : String) (since : Nat) :
    ∃ gone, ps.Evicts now channel gone ((ps.replaySince now channel since).1.entries channel) := by
  let old : HistoryEntry → Bool := fun e => ps.historyTtl < now - e.insertedAt
  have kept : (ps.replaySince now channel since).1.entries channel =
      (ps.entries channel).dropWhile old := ps.replaySince_dropWhile now channel since
  refine ⟨(ps.entries channel).takeWhile old, ?_, ?_, ?_⟩
  · rw [kept, List.takeWhile_append_dropWhile]
  · intro e member
    exact of_decide_eq_true (List.mem_takeWhile_imp (p := old) member)
  · intro e first
    have stops := List.head?_dropWhile_not old (ps.entries channel)
    rw [kept] at first
    rw [first] at stops
    exact Nat.le_of_not_lt (of_decide_eq_false stops)

theorem replaySince_result (ps : PubSubChannel) (now : Nat) (channel : String) (since : Nat) :
    (ps.replaySince now channel since).2 =
      .ok ((((ps.replaySince now channel since).1.entries channel).filter
        fun e => since < e.offset).map (toPublication channel)) := by
  cases found : ps.state.get channel <;> simp [replaySince, entries, found]

/-- What a replay leaves in the history is what the TTL does not evict when it is made. -/
theorem Evicts.retained {gone kept : List HistoryEntry} (evicts : ps.Evicts now channel gone kept)
    (since : Nat) :
    (ps.replaySince now channel since).1.retained channel = kept.map (toPublication channel) := by
  have old : ∀ e ∈ gone, decide (ps.historyTtl < now - e.insertedAt) = true := by
    intro e member
    exact decide_eq_true (evicts.expired e member)
  refine congrArg (List.map (toPublication channel))
    ((ps.replaySince_dropWhile now channel since).trans ?_)
  rw [evicts.split, List.dropWhile_append_of_pos old]
  cases kept with
  | nil => rfl
  | cons e rest =>
      have fresh := evicts.fresh e rfl
      exact List.dropWhile_cons_of_neg (by simpa using fresh)

/-- The kind as the hub sees it; unsubscribing changes nothing. -/
def channelKind : ChannelKind PubSubChannel where
  onSubscribe ps _ channel := (ps, ps.onSubscribe channel)
  onUnsubscribe ps _ _ := (ps, .ok ())
  onPublish ps now channel data := ps.onPublish now channel data
  replaySince ps now channel sinceOffset := ps.replaySince now channel sinceOffset

theorem cursor_offset (ps : PubSubChannel) (channel : String) :
    (ps.cursor channel).offset = ps.nextOffset channel - 1 := by
  rw [cursor_eq]

theorem onSubscribe_cursor {cursor : ChannelCursor} (h : ps.onSubscribe channel = .ok cursor) :
    cursor = ps.cursor channel := by
  unfold onSubscribe at h
  split at h <;> cases h
  rfl

end PubSubChannel
end Cherenkov
