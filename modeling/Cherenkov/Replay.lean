import Mathlib.Data.List.Chain
import Cherenkov.ChannelHistory

/-! `replay_since` returns whatever is left of the history after the requested offset. Offsets of a
channel follow one another up to the largest `u64`, so what is left is an unbroken stretch that ends
before the next offset; nothing makes it begin right after the requested one. -/

namespace Cherenkov

namespace PubSubChannel

/-- `saturating_add(1)`. -/
def Follows (offset next : Nat) : Prop := next = min (offset + 1) u64Max

def offsets (ps : PubSubChannel) (channel : String) : List Nat :=
  (ps.retained channel).map Publication.offset ++ [ps.nextOffset channel]

/-- Every offset of the channel, the next one included, follows the one before it. -/
structure Chained (ps : PubSubChannel) (channel : String) : Prop where
  chain : (ps.offsets channel).IsChain Follows
  range : ∀ offset ∈ ps.offsets channel, offset ≤ u64Max

variable {ps ps' : PubSubChannel} {now since : Nat} {channel c : String}

theorem withBounds_chained (size ttl : Nat) (channel : String) :
    (withBounds size ttl).Chained channel := by
  constructor
  · rw [offsets, withBounds_retained, withBounds_nextOffset]
    exact List.isChain_singleton _
  · simp [offsets]

theorem Chained.shrink (chained : ps.Chained channel)
    (history : ps'.retained channel <:+ ps.retained channel)
    (next : ps'.nextOffset channel = ps.nextOffset channel) : ps'.Chained channel := by
  have suffix : ps'.offsets channel <:+ ps.offsets channel := by
    obtain ⟨older, kept⟩ := history
    refine ⟨older.map Publication.offset, ?_⟩
    rw [offsets, offsets, ← kept, next, List.map_append, List.append_assoc]
  exact ⟨chained.chain.suffix suffix, fun offset member =>
    chained.range offset (suffix.subset member)⟩

theorem Chained.grow {data : Bytes} {p : Publication} (chained : ps.Chained channel)
    (accepts : ps.Accepts channel data ps' p) : ps'.Chained channel := by
  obtain ⟨k, history⟩ := accepts.history
  have number : p.offset = ps.nextOffset channel := by
    rw [accepts.publication]
  have chain : (ps.offsets channel ++ [ps'.nextOffset channel]).IsChain Follows := by
    refine chained.chain.append (List.isChain_singleton _) ?_
    intro last isLast first isFirst
    rw [offsets, List.getLast?_concat] at isLast
    cases isLast
    cases isFirst
    exact accepts.next
  have kept : (ps'.retained channel).map Publication.offset = (ps.offsets channel).drop k := by
    rw [history, List.map_drop, List.map_append, List.map_singleton, number, offsets]
  have suffix : ps'.offsets channel <:+ ps.offsets channel ++ [ps'.nextOffset channel] := by
    refine ⟨(ps.offsets channel).take k, ?_⟩
    rw [offsets.eq_1 ps', kept, ← List.append_assoc, List.take_append_drop]
  refine ⟨chain.suffix suffix, ?_⟩
  intro offset member
  rcases List.mem_append.mp (suffix.subset member) with old | new
  · exact chained.range offset old
  · rw [List.mem_singleton.mp new, accepts.next]
    exact Nat.min_le_right _ _

theorem chain_eq_range {offsets : List Nat} {next : Nat} (range : next ≤ u64Max)
    (chain : (offsets ++ [next]).IsChain Follows) (below : ∀ offset ∈ offsets, offset < next) :
    ∃ first, first + offsets.length = next ∧ offsets = List.range' first offsets.length := by
  induction offsets with
  | nil => exact ⟨next, rfl, rfl⟩
  | cons a rest ih =>
      have step := List.isChain_cons.mp chain
      obtain ⟨first, total, run⟩ := ih step.2 fun offset member =>
        below offset (List.mem_cons_of_mem _ member)
      have room : min (a + 1) u64Max = a + 1 :=
        Nat.min_eq_left (Nat.le_trans (below a List.mem_cons_self) range)
      have head : first ∈ (rest ++ [next]).head? := by
        cases rest with
        | nil => exact congrArg some total.symm
        | cons b tail =>
            rw [List.length_cons, List.range'_succ] at run
            exact congrArg some (List.head_eq_of_cons_eq run)
      have follows : first = a + 1 := (step.1 first head).trans room
      refine ⟨a, ?_, ?_⟩
      · rw [List.length_cons, ← total, follows]
        omega
      · rw [List.length_cons, List.range'_succ, ← follows, ← run]

theorem range'_filter_lt {first count since : Nat} (reaches : first ≤ since + 1) :
    (List.range' first count).filter (since < ·) =
      List.range' (since + 1) (first + count - (since + 1)) := by
  induction count generalizing first with
  | zero =>
      rw [show first + 0 - (since + 1) = 0 by omega]
      rfl
  | succ count ih =>
      rw [List.range'_succ]
      by_cases above : since < first
      · obtain rfl : first = since + 1 := by omega
        have all : (List.range' (since + 1 + 1) count).filter (since < ·) =
            List.range' (since + 1 + 1) count := by
          refine List.filter_eq_self.mpr ?_
          intro offset member
          have := (List.mem_range'_1.mp member).1
          exact decide_eq_true (by omega)
        rw [List.filter_cons_of_pos (by simp), all,
          show since + 1 + (count + 1) - (since + 1) = count + 1 by omega, List.range'_succ]
      · rw [List.filter_cons_of_neg (by simpa using above), ih (by omega)]
        congr 1
        omega

/-- Above any offset the members of a chain are its last ones. -/
theorem chain_filter_suffix {offsets : List Nat} (since : Nat)
    (range : ∀ offset ∈ offsets, offset ≤ u64Max) (chain : offsets.IsChain Follows) :
    offsets.filter (since < ·) <:+ offsets := by
  induction offsets with
  | nil => exact List.suffix_rfl
  | cons a rest ih =>
      have below := fun offset member => range offset (List.mem_cons_of_mem a member)
      have sorted : (a :: rest).Pairwise (· ≤ ·) := by
        refine List.isChain_iff_pairwise.mp (chain.imp_of_mem_tail_imp ?_)
        intro x y member _ follows
        have bound := range x member
        rw [follows]
        omega
      by_cases above : since < a
      · have all : rest.filter (since < ·) = rest := by
          refine List.filter_eq_self.mpr ?_
          intro offset member
          have := List.rel_of_pairwise_cons sorted member
          exact decide_eq_true (by omega)
        rw [List.filter_cons_of_pos (by simpa using above), all]
      · rw [List.filter_cons_of_neg (by simpa using above)]
        exact (ih below (List.isChain_cons.mp chain).2).trans (List.suffix_cons a rest)

/-- Each offset, and the next one after the last, follows the one before it. -/
def Consecutive (next : Nat) (offsets : List Nat) : Prop := (offsets ++ [next]).IsChain Follows

/-- Nothing, or every offset after the requested one. -/
def Gapless (next since : Nat) (offsets : List Nat) : Prop :=
  offsets = [] ∨ offsets = List.range' (since + 1) (next - (since + 1))

/-- Nothing newer than the requested offset has survived, or the oldest survivor is not beyond
the offset after it and the offsets have not run out. -/
def Reaches (next since : Nat) (offsets : List Nat) : Prop :=
  (∀ offset ∈ offsets, offset ≤ since) ∨
    (∀ offset ∈ offsets.head?, offset ≤ since + 1) ∧ ∀ offset ∈ offsets, offset < next

variable {next : Nat} {offsets : List Nat}

theorem reaches_of_gapless (gapless : Gapless next since (offsets.filter (since < ·))) :
    Reaches next since offsets := by
  have returned : ∀ offset ∈ offsets, since < offset → offset ∈ offsets.filter (since < ·) := by
    intro offset member newer
    exact List.mem_filter.mpr ⟨member, decide_eq_true newer⟩
  rcases gapless with empty | run
  · refine Or.inl ?_
    intro offset member
    by_contra newer
    have inside := returned offset member (Nat.lt_of_not_le newer)
    rw [empty] at inside
    cases inside
  · by_cases more : since + 1 < next
    · refine Or.inr ⟨?_, ?_⟩
      · intro offset oldest
        by_contra beyond
        obtain ⟨rest, rfl⟩ := List.head?_eq_some_iff.mp oldest
        have newer : since < offset := by omega
        rw [List.filter_cons_of_pos (by simpa using newer),
          show next - (since + 1) = next - (since + 1) - 1 + 1 by omega, List.range'_succ] at run
        exact beyond (List.head_eq_of_cons_eq run).le
      · intro offset member
        by_cases newer : since < offset
        · have inside := returned offset member newer
          rw [run] at inside
          have := (List.mem_range'_1.mp inside).2
          omega
        · omega
    · refine Or.inl ?_
      intro offset member
      by_contra newer
      have inside := returned offset member (Nat.lt_of_not_le newer)
      rw [run] at inside
      have := List.mem_range'_1.mp inside
      omega

theorem gapless_of_reaches (range : next ≤ u64Max) (chain : Consecutive next offsets)
    (reaches : Reaches next since offsets) : Gapless next since (offsets.filter (since < ·)) := by
  rcases reaches with older | ⟨oldest, below⟩
  · refine Or.inl (List.filter_eq_nil_iff.mpr ?_)
    intro offset member
    simpa using older offset member
  · obtain ⟨first, total, run⟩ := chain_eq_range range chain below
    cases offsets with
    | nil => exact Or.inl rfl
    | cons offset rest =>
        have begins : first = offset := by
          rw [List.length_cons, List.range'_succ] at run
          exact (List.head_eq_of_cons_eq run).symm
        have near : offset ≤ since + 1 := oldest offset rfl
        refine Or.inr ?_
        rw [run, range'_filter_lt (begins ▸ near), total]

theorem Chained.consecutive (chained : ps.Chained channel) {gone kept : List HistoryEntry}
    (evicts : ps.Evicts now channel gone kept) (since : Nat) :
    Consecutive (ps.nextOffset channel) (kept.map HistoryEntry.offset) ∧
      Consecutive (ps.nextOffset channel)
        ((kept.map HistoryEntry.offset).filter (since < ·)) := by
  have suffix : kept.map HistoryEntry.offset ++ [ps.nextOffset channel] <:+ ps.offsets channel := by
    refine ⟨gone.map HistoryEntry.offset, ?_⟩
    have history : ps.retained channel = (gone ++ kept).map (toPublication channel) :=
      congrArg _ evicts.split
    rw [PubSubChannel.offsets, history, List.map_map, ← List.append_assoc, ← List.map_append]
    rfl
  have chain := chained.chain.suffix suffix
  have above := chain_filter_suffix since (fun offset member =>
    chained.range offset (suffix.subset (List.mem_append_left _ member))) chain.left_of_append
  obtain ⟨older, split⟩ := above
  refine ⟨chain, chain.suffix ⟨older, ?_⟩⟩
  rw [← List.append_assoc, split]

end PubSubChannel

namespace KindState

open PubSubChannel

variable {historySize historyTtl : Nat} {s t : KindState} {step : KindStep}

theorem step_chained (chained : ∀ channel, s.kind.Chained channel)
    (stepped : (machine historySize historyTtl).step s step = some t) (channel : String) :
    t.kind.Chained channel := by
  cases stepped
  by_cases restart : step = .restart
  · subst restart
    exact withBounds_chained _ _ _
  by_cases elsewhere : step.on channel = false
  · have still := answer_elsewhere historySize historyTtl restart elsewhere s.kind
    refine (chained channel).shrink ?_ ?_
    · simp only [retained, still.state]
      exact List.suffix_rfl
    · simp only [nextOffset, still.state]
  cases step with
  | publish now c data =>
      obtain rfl : c = channel := by simpa [KindStep.on] using elsewhere
      cases published : s.kind.onPublish now c data with
      | mk kind result =>
          simp only [answer, published]
          cases result with
          | error e => exact onPublish_error published ▸ chained c
          | ok p => exact (chained c).grow (onPublish_accepts published)
  | replay now c since =>
      obtain rfl : c = channel := by simpa [KindStep.on] using elsewhere
      obtain ⟨result, -, replays⟩ := s.kind.replaySince_replays now c since
      obtain ⟨k, history⟩ := replays.history
      refine (chained c).shrink ?_ (replays.next c)
      simp only [answer, history]
      exact List.drop_suffix _ _
  | subscribe c | cursor c => exact chained channel
  | restart => exact absurd rfl restart

theorem run_chained {ok : KindState → KindStep → Prop}
    (run : (machine historySize historyTtl).Run ok (boot historySize historyTtl) s)
    (channel : String) : s.kind.Chained channel :=
  run.invariant (I := fun s => ∀ channel, s.kind.Chained channel)
    (fun channel => withBounds_chained _ _ channel)
    (fun _ _ _ chained _ stepped => step_chained chained stepped) channel

/-- A replay returns what is left above the requested offset, without a gap of its own. It hides
no gap before it exactly if the history still reaches back to the requested offset. -/
theorem replay_gapless
    (run : (machine historySize historyTtl).Run Machine.free (boot historySize historyTtl) s)
    (now : Nat) (channel : String) (since : Nat) :
    ∃ gone kept, s.kind.Evicts now channel gone kept ∧
      (s.kind.replaySince now channel since).2 =
        .ok ((kept.filter fun e => since < e.offset).map (toPublication channel)) ∧
      Consecutive (s.kind.nextOffset channel)
        ((kept.map HistoryEntry.offset).filter (since < ·)) ∧
      (Gapless (s.kind.nextOffset channel) since
          ((kept.map HistoryEntry.offset).filter (since < ·)) ↔
        Reaches (s.kind.nextOffset channel) since (kept.map HistoryEntry.offset)) := by
  have chained := run_chained run channel
  have range : s.kind.nextOffset channel ≤ u64Max :=
    chained.range _ (List.mem_append_right _ (List.mem_singleton_self _))
  obtain ⟨gone, evicts⟩ := s.kind.replaySince_evicts now channel since
  obtain ⟨left, above⟩ := chained.consecutive evicts since
  exact ⟨gone, _, evicts, s.kind.replaySince_result now channel since, above,
    reaches_of_gapless, gapless_of_reaches range left⟩

def crowded : List KindStep := [
  .publish 0 "rooms.lobby" [1], .publish 1 "rooms.lobby" [2], .publish 2 "rooms.lobby" [3],
  .publish 3 "rooms.lobby" [4], .publish 4 "rooms.lobby" [5]]

/-- The history keeps the last two of five publications; who has seen the second is sent them and
not told about the third. -/
theorem replay_hides_gap :
    ∃ s, (machine 2 300).Run Machine.free (boot 2 300) s ∧
      (s.kind.replaySince 5 "rooms.lobby" 1).2 =
        .ok [⟨"rooms.lobby", 3, [4]⟩, ⟨"rooms.lobby", 4, [5]⟩] ∧
      s.kind.nextOffset "rooms.lobby" = 5 ∧
      ¬ Gapless (s.kind.nextOffset "rooms.lobby") 1 [3, 4] := by
  obtain ⟨s, -, run, replayed, next⟩ := Machine.exec_witness (M := machine 2 300)
    (s := boot 2 300) crowded
    (fun s => (s.kind.replaySince 5 "rooms.lobby" 1).2 =
        .ok [⟨"rooms.lobby", 3, [4]⟩, ⟨"rooms.lobby", 4, [5]⟩] ∧
      s.kind.nextOffset "rooms.lobby" = 5) (by decide +kernel)
  refine ⟨s, run, replayed, next, ?_⟩
  rw [next]
  rintro (empty | run)
  · cases empty
  · exact absurd run (by decide)

theorem replay_gapless_crowded :
    ∃ s, (machine 2 300).Run Machine.free (boot 2 300) s ∧
      s.kind.nextOffset "rooms.lobby" = 5 ∧
      ∃ gone kept, s.kind.Evicts 5 "rooms.lobby" gone kept ∧
        (s.kind.replaySince 5 "rooms.lobby" 1).2 =
          .ok ((kept.filter fun e => 1 < e.offset).map (toPublication "rooms.lobby")) ∧
        Consecutive (s.kind.nextOffset "rooms.lobby")
          ((kept.map HistoryEntry.offset).filter (1 < ·)) ∧
        (Gapless (s.kind.nextOffset "rooms.lobby") 1
            ((kept.map HistoryEntry.offset).filter (1 < ·)) ↔
          Reaches (s.kind.nextOffset "rooms.lobby") 1 (kept.map HistoryEntry.offset)) := by
  obtain ⟨s, -, run, next⟩ := Machine.exec_witness (M := machine 2 300) (s := boot 2 300) crowded
    (fun s => s.kind.nextOffset "rooms.lobby" = 5) (by decide +kernel)
  exact ⟨s, run, next, replay_gapless run 5 "rooms.lobby" 1⟩

end KindState

end Cherenkov
