import Mathlib.Data.List.Nodup

/-! Several observers each see a subsequence of one list without repetitions. What two of them have
in common they see in the same order, and what was appended later none of them sees first. -/

namespace List

variable {α : Type*}

theorem Sublist.filter_mem [BEq α] [LawfulBEq α] {seen order : List α} (sub : seen.Sublist order)
    (nodup : order.Nodup) : order.filter (· ∈ seen) = seen := by
  induction sub with
  | slnil => rfl
  | @cons seen order a sub ih =>
      obtain ⟨fresh, nodup⟩ := nodup_cons.mp nodup
      rw [filter_cons_of_neg (by simpa using fun member => fresh (sub.subset member))]
      exact ih nodup
  | @cons_cons seen order a sub ih =>
      obtain ⟨fresh, nodup⟩ := nodup_cons.mp nodup
      have later : order.filter (· ∈ a :: seen) = order.filter (· ∈ seen) := by
        refine filter_congr fun b member => ?_
        have other : b ≠ a := fun same => fresh (same ▸ member)
        simp [other]
      rw [filter_cons_of_pos (by simp), later, ih nodup]

theorem Sublist.common_order [BEq α] [LawfulBEq α] {first second order : List α}
    (sub : first.Sublist order) (sub' : second.Sublist order) (nodup : order.Nodup) :
    first.filter (· ∈ second) = second.filter (· ∈ first) := by
  have left := congrArg (filter (· ∈ second)) (sub.filter_mem nodup)
  have right := congrArg (filter (· ∈ first)) (sub'.filter_mem nodup)
  rw [filter_filter] at left right
  rw [← left, ← right]
  refine filter_congr fun a _ => ?_
  rw [Bool.and_comm]

theorem Sublist.pair_of_append {seen old new : List α} (sub : seen.Sublist (old ++ new)) {a b : α}
    (sees : a ∈ seen) (sees' : b ∈ seen) (older : a ∉ new) (newer : b ∉ old) :
    [a, b].Sublist seen := by
  obtain ⟨first, second, rfl, early, late⟩ := sublist_append_iff.mp sub
  have left : a ∈ first :=
    (mem_append.mp sees).resolve_right fun member => older (late.subset member)
  have right : b ∈ second :=
    (mem_append.mp sees').resolve_left fun member => newer (early.subset member)
  exact (singleton_sublist.mpr left).append (singleton_sublist.mpr right)

end List

/-- Of what was sent, a reader has passed some on in order, has skipped `missed` unseen, and
has the rest still before it. -/
structure Ledger {α : Type*} (sent passed pending : List α) (missed : Nat) : Prop where
  order : (passed ++ pending).Sublist sent
  count : passed.length + missed + pending.length = sent.length

namespace Ledger

variable {α : Type*} {sent passed pending : List α} {missed : Nat}

theorem nil : Ledger ([] : List α) [] [] 0 := ⟨List.Sublist.refl _, rfl⟩

theorem sends (ledger : Ledger sent passed pending missed) (a : α) :
    Ledger (sent ++ [a]) passed (pending ++ [a]) missed := by
  refine ⟨?_, ?_⟩
  · rw [← List.append_assoc]
    exact ledger.order.append (List.Sublist.refl _)
  · have count := ledger.count
    simp only [List.length_append, List.length_singleton]
    omega

theorem passes {a : α} (ledger : Ledger sent passed (a :: pending) missed) :
    Ledger sent (passed ++ [a]) pending missed := by
  refine ⟨?_, ?_⟩
  · rw [List.append_assoc]
    exact ledger.order
  · have count := ledger.count
    simp only [List.length_append, List.length_cons, List.length_nil] at count ⊢
    omega

theorem skips (ledger : Ledger sent passed pending missed) {k : Nat} (enough : k ≤ pending.length) :
    Ledger sent passed (pending.drop k) (missed + k) := by
  refine ⟨?_, ?_⟩
  · exact ((List.Sublist.refl _).append (List.drop_sublist k pending)).trans ledger.order
  · have count := ledger.count
    rw [List.length_drop]
    omega

/-- A reader that skipped nothing has missed nothing. -/
theorem whole (ledger : Ledger sent passed pending 0) : passed ++ pending = sent := by
  refine ledger.order.eq_of_length ?_
  have count := ledger.count
  rw [List.length_append]
  omega

end Ledger
