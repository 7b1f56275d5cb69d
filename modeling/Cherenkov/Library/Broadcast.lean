import Mathlib.Algebra.Ring.Nat
import Cherenkov.Library.DashMap

/-! One sender side and any number of receivers. Every value ever sent is kept in `sent`, oldest
first; a receiver is a position in it. Only the newest `ring` values are still available, so a
receiver that falls further behind skips to the oldest of them. A `Notified` future exists from its
creation until it is dropped. Waking the waiters marks the futures that exist at that moment and
leaves nothing behind for later ones. -/

def nextPowerOfTwo (n : Nat) : Nat := if n ≤ 1 then 1 else 2 ^ (Nat.log2 (n - 1) + 1)

/-- Every attached receiver points into the values sent, or just past them. -/
structure Broadcast (α : Type*) where
  ring : Nat
  sent : List α
  receivers : DashMap Nat Nat
  bounded : ∀ r pos, receivers.get r = some pos → pos ≤ sent.length

inductive Recv (α : Type*) where
  | ready (x : α)
  | lagged (skipped : Nat)
  | empty

namespace Broadcast

variable {α : Type*}

def channel (capacity : Nat) : Broadcast α where
  ring := nextPowerOfTwo capacity
  sent := []
  receivers := ∅
  bounded := by simp

def receiverCount (b : Broadcast α) : Nat := b.receivers.len

def seek (b : Broadcast α) (r pos : Nat) (h : pos ≤ b.sent.length) : Broadcast α where
  ring := b.ring
  sent := b.sent
  receivers := b.receivers.put r pos
  bounded := by
    intro r' pos' found
    rw [DashMap.get_put] at found
    split at found
    · cases found
      exact h
    · exact b.bounded r' pos' found

def subscribe (b : Broadcast α) (r : Nat) : Broadcast α := b.seek r b.sent.length le_rfl

def push (b : Broadcast α) (x : α) : Broadcast α where
  ring := b.ring
  sent := b.sent ++ [x]
  receivers := b.receivers
  bounded := by
    intro r pos found
    have := b.bounded r pos found
    simp only [List.length_append, List.length_singleton]
    omega

/-- A send fails exactly when there are no receivers. -/
def send (b : Broadcast α) (x : α) : Option (Broadcast α) :=
  if b.receiverCount = 0 then none else some (b.push x)

def detach (b : Broadcast α) (r : Nat) : Broadcast α where
  ring := b.ring
  sent := b.sent
  receivers := b.receivers.remove r
  bounded := by
    intro r' pos found
    rw [DashMap.get_remove] at found
    split at found
    · cases found
    · exact b.bounded r' pos found

def recv (b : Broadcast α) (r : Nat) : Broadcast α × Recv α :=
  match b.receivers.get r with
  | none => (b, .empty)
  | some pos =>
      let oldest := b.sent.length - b.ring
      if pos < oldest then (b.seek r oldest (Nat.sub_le _ _), .lagged (oldest - pos))
      else if h : pos < b.sent.length then (b.seek r (pos + 1) h, .ready (b.sent.get ⟨pos, h⟩))
      else (b, .empty)

def unread (b : Broadcast α) (r : Nat) : List α :=
  match b.receivers.get r with
  | none => []
  | some pos => b.sent.drop pos

def attached (b : Broadcast α) (r : Nat) : Prop := (b.receivers.get r).isSome

theorem seek_unread_self (b : Broadcast α) (r pos : Nat) (h : pos ≤ b.sent.length) :
    (b.seek r pos h).unread r = b.sent.drop pos := by
  simp [unread, seek]

theorem seek_unread_ne (b : Broadcast α) {r r' : Nat} (pos : Nat) (h : pos ≤ b.sent.length)
    (other : r' ≠ r) : (b.seek r pos h).unread r' = b.unread r' := by
  simp [unread, seek, DashMap.get_put_ne _ _ other]

theorem seek_attached (b : Broadcast α) {r r' pos : Nat} (h : pos ≤ b.sent.length) :
    (b.seek r pos h).attached r' ↔ r' = r ∨ b.attached r' := by
  unfold attached seek
  simp only [DashMap.get_put]
  split
  · next same => simp [same]
  · next other => simp [other]

@[simp] theorem subscribe_unread_self (b : Broadcast α) (r : Nat) :
    (b.subscribe r).unread r = [] := by
  simp [subscribe, seek_unread_self]

theorem subscribe_unread_ne (b : Broadcast α) {r r' : Nat} (other : r' ≠ r) :
    (b.subscribe r).unread r' = b.unread r' := b.seek_unread_ne _ _ other

theorem subscribe_attached (b : Broadcast α) {r r' : Nat} :
    (b.subscribe r).attached r' ↔ r' = r ∨ b.attached r' := b.seek_attached le_rfl

@[simp] theorem push_sent (b : Broadcast α) (x : α) : (b.push x).sent = b.sent ++ [x] := rfl

@[simp] theorem push_attached (b : Broadcast α) (x : α) (r : Nat) :
    (b.push x).attached r ↔ b.attached r := Iff.rfl

/-- A sent value is appended to what every attached receiver has still to read. -/
theorem push_unread (b : Broadcast α) (x : α) {r : Nat} (h : b.attached r) :
    (b.push x).unread r = b.unread r ++ [x] := by
  unfold unread
  cases found : b.receivers.get r with
  | none => simp [attached, found] at h
  | some pos =>
      have inside := b.bounded r pos found
      have same : (b.push x).receivers.get r = some pos := found
      simp only [same, push_sent, List.drop_append_of_le_length inside]

theorem receiverCount_ne_zero {b : Broadcast α} {r : Nat} (h : b.attached r) :
    b.receiverCount ≠ 0 := by
  intro none
  have empty : b.receivers.entries = [] := List.length_eq_zero_iff.mp none
  simp [attached, DashMap.get, AList.lookup, empty] at h

theorem exists_attached {b : Broadcast α} (h : b.receiverCount ≠ 0) : ∃ r, b.attached r := by
  cases entries : b.receivers.entries with
  | nil => exact absurd (congrArg List.length entries) h
  | cons entry rest =>
      refine ⟨entry.1, AList.lookup_isSome.mpr ?_⟩
      rw [AList.mem_keys, AList.keys, entries]
      exact List.mem_cons_self

theorem detach_unread_ne (b : Broadcast α) {r r' : Nat} (other : r' ≠ r) :
    (b.detach r).unread r' = b.unread r' := by
  simp [unread, detach, DashMap.get_remove_ne _ other]

theorem detach_attached (b : Broadcast α) {r r' : Nat} :
    (b.detach r).attached r' ↔ r' ≠ r ∧ b.attached r' := by
  unfold attached detach
  simp only [DashMap.get_remove]
  split
  · next same => simp [same]
  · next other => simp [other]

theorem recv_frame (b : Broadcast α) (r : Nat) :
    (b.recv r).1.sent = b.sent ∧ (∀ r', (b.recv r).1.attached r' ↔ b.attached r') ∧
      ∀ r', r' ≠ r → (b.recv r).1.unread r' = b.unread r' := by
  unfold recv
  cases found : b.receivers.get r with
  | none => exact ⟨rfl, fun _ => Iff.rfl, fun _ _ => rfl⟩
  | some pos =>
      have here : b.attached r := by simp [attached, found]
      have kept : ∀ r', r' = r ∨ b.attached r' ↔ b.attached r' := by
        intro r'
        refine ⟨?_, Or.inr⟩
        rintro (rfl | h)
        · exact here
        · exact h
      dsimp only
      split
      · exact ⟨rfl, fun r' => (b.seek_attached (Nat.sub_le _ _)).trans (kept r'),
          fun _ other => b.seek_unread_ne _ (Nat.sub_le _ _) other⟩
      · split
        · next inside =>
            exact ⟨rfl, fun r' => (b.seek_attached inside).trans (kept r'),
              fun _ other => b.seek_unread_ne _ inside other⟩
        · exact ⟨rfl, fun _ => Iff.rfl, fun _ _ => rfl⟩

/-- How a receive attempt relates the unread values before and after it. -/
def Moves (before after : List α) : Recv α → Prop
  | .ready x => before = x :: after
  | .lagged k => after = before.drop k
  | .empty => before = [] ∧ after = []

theorem recv_moves (b : Broadcast α) (r : Nat) :
    Moves (b.unread r) ((b.recv r).1.unread r) (b.recv r).2 := by
  unfold recv
  cases found : b.receivers.get r with
  | none => simp [Moves, unread, found]
  | some pos =>
      have before : b.unread r = b.sent.drop pos := by simp [unread, found]
      dsimp only
      split
      · next behind =>
          have after := b.seek_unread_self r _ (Nat.sub_le b.sent.length b.ring)
          simp only [Moves, before, after, List.drop_drop]
          congr 1
          omega
      · split
        · next inside =>
            have after := b.seek_unread_self r _ inside
            simp only [Moves, before, after, List.get_eq_getElem]
            exact List.drop_eq_getElem_cons inside
        · next past =>
            have none : b.sent.drop pos = [] := List.drop_eq_nil_of_le (by omega)
            simp only [Moves, before, none, and_self]

/-- A receiver lags exactly as far as it is behind the ring. -/
theorem recv_lagged {b : Broadcast α} {r k : Nat} (h : (b.recv r).2 = .lagged k) :
    b.ring < (b.unread r).length ∧ k = (b.unread r).length - b.ring := by
  unfold recv at h
  cases found : b.receivers.get r with
  | none =>
      rw [found] at h
      cases h
  | some pos =>
      rw [found] at h
      dsimp only at h
      split at h
      · cases h
        simp only [unread, found, List.length_drop]
        omega
      · split at h <;> cases h

theorem recv_kept {b : Broadcast α} {r : Nat} (h : ∀ k, (b.recv r).2 ≠ .lagged k) :
    (b.unread r).length ≤ b.ring := by
  unfold recv at h
  cases found : b.receivers.get r with
  | none => simp [unread, found]
  | some pos =>
      rw [found] at h
      dsimp only at h
      split at h
      · exact absurd rfl (h _)
      · simp only [unread, found, List.length_drop]
        omega

theorem recv_ring (b : Broadcast α) (r : Nat) : (b.recv r).1.ring = b.ring := by
  unfold recv
  cases b.receivers.get r with
  | none => rfl
  | some pos =>
      dsimp only
      split
      · rfl
      · split <;> rfl

end Broadcast

structure Notify where
  futures : DashMap Nat Bool

namespace Notify

def new : Notify := ⟨∅⟩

def notified (n : Notify) (future : Nat) : Notify := ⟨n.futures.put future false⟩

def notifyWaiters (n : Notify) : Notify := ⟨n.futures.retain fun _ _ => some true⟩

def forget (n : Notify) (future : Nat) : Notify := ⟨n.futures.remove future⟩

def ready (n : Notify) (future : Nat) : Bool := (n.futures.get future).getD false

theorem get_notifyWaiters (n : Notify) (future : Nat) :
    n.notifyWaiters.futures.get future = (n.futures.get future).map fun _ => true := by
  cases found : n.futures.get future <;> simp [notifyWaiters, found]

theorem ready_notifyWaiters (n : Notify) (future : Nat) :
    n.notifyWaiters.ready future = (n.futures.get future).isSome := by
  rw [ready, get_notifyWaiters]
  cases n.futures.get future <;> rfl

end Notify
