import Mathlib.Data.List.Dedup
import Mathlib.Data.List.Nodup

/-! A document changes by updates that it may reject. If updates may be taken in any order and taken
again without effect, a replica is determined by the set of updates that it has taken. -/

namespace Replica

variable {δ α : Type*} {apply : δ → α → Option δ}

/-- Updates commute and are idempotent, where they are accepted. -/
structure Convergent (apply : δ → α → Option δ) : Prop where
  swap : ∀ d u v d', (apply d u).bind (apply · v) = some d' →
    (apply d v).bind (apply · u) = some d'
  again : ∀ d u d', apply d u = some d' → apply d' u = some d'

def replay (apply : δ → α → Option δ) : δ → List α → Option δ
  | d, [] => some d
  | d, u :: us => (apply d u).bind fun d' => replay apply d' us

@[simp] theorem replay_nil (d : δ) : replay apply d [] = some d := rfl

theorem replay_cons (d : δ) (u : α) (us : List α) :
    replay apply d (u :: us) = (apply d u).bind fun d' => replay apply d' us := rfl

theorem replay_append (d : δ) (us vs : List α) :
    replay apply d (us ++ vs) = (replay apply d us).bind fun d' => replay apply d' vs := by
  induction us generalizing d with
  | nil => rfl
  | cons u us ih =>
      rw [List.cons_append, replay_cons, replay_cons, Option.bind_assoc]
      congr 1
      funext d'
      exact ih d'

namespace Convergent

variable (laws : Convergent apply)

include laws

theorem swap_eq (d : δ) (u v : α) :
    (apply d u).bind (apply · v) = (apply d v).bind (apply · u) := by
  apply Option.ext
  intro d'
  constructor
  · exact laws.swap d u v d'
  · exact laws.swap d v u d'

theorem replay_perm {us vs : List α} (perm : us.Perm vs) (d : δ) :
    replay apply d us = replay apply d vs := by
  induction perm generalizing d with
  | nil => rfl
  | cons u perm ih =>
      rw [replay_cons, replay_cons]
      congr 1
      funext d'
      exact ih d'
  | swap u v us =>
      have both := congrArg (·.bind fun d' => replay apply d' us) (laws.swap_eq d v u)
      simp only [Option.bind_assoc] at both
      exact both
  | trans first second ih ih' => exact (ih d).trans (ih' d)

theorem replay_absorb {u : α} {us : List α} (member : u ∈ us) (d : δ) :
    replay apply d (u :: us) = replay apply d us := by
  obtain ⟨before, rest, rfl⟩ := List.append_of_mem member
  have front : (before ++ u :: rest).Perm (u :: (before ++ rest)) := List.perm_middle
  rw [laws.replay_perm (front.cons u) d, laws.replay_perm front d, replay_cons, replay_cons]
  cases accepted : apply d u with
  | none => rfl
  | some d' =>
      have twice := laws.again d u d' accepted
      rw [Option.bind_some, Option.bind_some, replay_cons, twice, Option.bind_some]

theorem replay_dedup [DecidableEq α] (us : List α) (d : δ) :
    replay apply d us.dedup = replay apply d us := by
  induction us generalizing d with
  | nil => rfl
  | cons u us ih =>
      by_cases member : u ∈ us
      · rw [List.dedup_cons_of_mem member, ih, laws.replay_absorb member]
      · rw [List.dedup_cons_of_notMem member, replay_cons, replay_cons]
        congr 1
        funext d'
        exact ih d'

/-- Neither the order nor the number of times matters. -/
theorem replay_congr [DecidableEq α] {us vs : List α} (same : ∀ u, u ∈ us ↔ u ∈ vs) (d : δ) :
    replay apply d us = replay apply d vs := by
  have perm : us.dedup.Perm vs.dedup := by
    apply (List.perm_ext_iff_of_nodup us.nodup_dedup vs.nodup_dedup).mpr
    intro u
    rw [List.mem_dedup, List.mem_dedup]
    exact same u
  rw [← laws.replay_dedup us, ← laws.replay_dedup vs]
  exact laws.replay_perm perm d

end Convergent
end Replica
