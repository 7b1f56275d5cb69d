import Mathlib.Data.List.Nodup
import Mathlib.Logic.Function.Basic

/-! One feed orders the items it accepts. A publisher has an item accepted and broadcasts it in a
later step, so an item can be in flight. A subscription opens a live stream, may take one snapshot
of the retained history, replays it, and then delivers what its stream queued; a slow stream can
lose items. The three questions asked of such a design are soundness (only accepted items arrive),
coverage (nothing that was due is lost) and distinctness (nothing arrives twice). Each is one
invariant of the steps. A fourth is whether items are broadcast in the order in which they were
accepted, and a fifth whether a subscription, wherever it is cut off, has skipped nothing that lies
below its last item. -/

structure Feed.Sub (α : Type*) where
  replay : List α
  live : List α

@[ext] structure Feed (ι α : Type*) where
  accepted : List α
  retained : List α
  flight : ι → Option α
  sent : List α
  subs : ι → Option (Feed.Sub α)
  delivered : ι → List α
  lagged : ι → Bool

namespace Feed

variable {ι α : Type*} [DecidableEq ι]

def Sub.items (sub : Sub α) : List α := sub.replay ++ sub.live

def Sub.push (a : α) (sub : Sub α) : Sub α := ⟨sub.replay, sub.live ++ [a]⟩

def Sub.lose (k : Nat) (sub : Sub α) : Sub α := ⟨sub.replay, sub.live.drop k⟩

theorem Sub.lose_items (k : Nat) (sub : Sub α) : (sub.lose k).items.Sublist sub.items :=
  (List.Sublist.refl _).append (List.drop_sublist k sub.live)

/-- The subscription delivers its next item; the replay goes first. -/
inductive Sub.Pops (a : α) : Sub α → Sub α → Prop
  | replayed (rest live : List α) : Pops a ⟨a :: rest, live⟩ ⟨rest, live⟩
  | forwarded (live : List α) : Pops a ⟨[], a :: live⟩ ⟨[], live⟩

theorem Sub.Pops.items {a : α} {sub rest : Sub α} (pops : Pops a sub rest) :
    sub.items = a :: rest.items := by
  cases pops <;> rfl

def setSub (s : Feed ι α) (n : ι) (sub : Option (Sub α)) : Feed ι α :=
  { s with subs := Function.update s.subs n sub }

def deliver (s : Feed ι α) (n : ι) (a : α) : Feed ι α :=
  { s with delivered := Function.update s.delivered n (s.delivered n ++ [a]) }

/-- Steps other than opening a subscription and taking its snapshot. -/
inductive Step (s : Feed ι α) : Feed ι α → Prop
  | idle : Step s s
  | accept (i : ι) (a : α) (k : Nat) (vacant : s.flight i = none) :
      Step s { s with
        accepted := s.accepted ++ [a]
        retained := (s.retained ++ [a]).drop k
        flight := Function.update s.flight i (some a) }
  | broadcast (i : ι) (a : α) (flying : s.flight i = some a) :
      Step s { s with
        flight := Function.update s.flight i none
        sent := s.sent ++ [a]
        subs := fun n => (s.subs n).map (Sub.push a) }
  | delivered (n : ι) (a : α) (sub rest : Sub α) (due : s.subs n = some sub)
      (pops : Sub.Pops a sub rest) : Step s ((s.setSub n (some rest)).deliver n a)
  | lost (n : ι) (k : Nat) :
      Step s { s.setSub n ((s.subs n).map (Sub.lose k)) with
        lagged := Function.update s.lagged n true }
  | closed (n : ι) : Step s (s.setSub n none)

theorem Step.congr {s t t' : Feed ι α} (h : Step s t) (same : t' = t) : Step s t' := same ▸ h

structure Open (s : Feed ι α) (n : ι) (t : Feed ι α) : Prop where
  unopened : s.subs n = none
  untouched : s.delivered n = []
  unlagged : s.lagged n = false
  result : t = s.setSub n (some ⟨[], []⟩)

/-- A replay trims the history and takes the items above the client's offset. -/
structure Snapshot (s : Feed ι α) (n : ι) (wanted : α → Bool) (t : Feed ι α) : Prop where
  trimmed : ∃ k, t.retained = s.retained.drop k
  untouched : s.delivered n = []
  result : ∃ live, s.subs n = some ⟨[], live⟩ ∧
    t = { s.setSub n (some ⟨t.retained.filter wanted, live⟩) with retained := t.retained }

structure Sound (s : Feed ι α) : Prop where
  retained : s.retained.Sublist s.accepted
  flight : ∀ i a, s.flight i = some a → a ∈ s.accepted
  subs : ∀ n sub, s.subs n = some sub → ∀ a ∈ sub.items, a ∈ s.accepted
  live : ∀ n sub, s.subs n = some sub → sub.live.Sublist s.sent
  delivered : ∀ n, ∀ a ∈ s.delivered n, a ∈ s.accepted
  pipeline : ∀ a ∈ s.accepted, a ∈ s.sent ∨ ∃ i, s.flight i = some a

theorem Sound.setSub {s : Feed ι α} (h : s.Sound) {n : ι} {new : Option (Sub α)}
    (items : ∀ sub, new = some sub → ∀ a ∈ sub.items, a ∈ s.accepted)
    (live : ∀ sub, new = some sub → sub.live.Sublist s.sent) : (s.setSub n new).Sound := by
  refine ⟨h.retained, h.flight, ?_, ?_, h.delivered, h.pipeline⟩ <;> intro m sub found <;>
    simp only [Feed.setSub, Function.update_apply] at found <;> split at found
  · exact items sub found
  · exact h.subs m sub found
  · exact live sub found
  · exact h.live m sub found

theorem Sound.deliver {s : Feed ι α} (h : s.Sound) {n : ι} {a : α} (known : a ∈ s.accepted) :
    (s.deliver n a).Sound := by
  refine ⟨h.retained, h.flight, h.subs, h.live, ?_, h.pipeline⟩
  intro m b member
  simp only [Feed.deliver, Function.update_apply] at member
  split at member
  · rcases List.mem_append.mp member with old | new
    · exact h.delivered n b old
    · rw [List.mem_singleton.mp new]
      exact known
  · exact h.delivered m b member

theorem Step.sound {s t : Feed ι α} (step : Step s t) (h : s.Sound) : t.Sound := by
  cases step with
  | idle => exact h
  | accept i a k vacant =>
      refine ⟨?_, ?_, ?_, h.live, ?_, ?_⟩
      · exact (List.drop_sublist k _).trans (h.retained.append (List.Sublist.refl [a]))
      · intro j b flying
        simp only [Function.update_apply] at flying
        split at flying
        · cases flying
          simp
        · exact List.mem_append_left _ (h.flight j b flying)
      · exact fun n sub found b member => List.mem_append_left _ (h.subs n sub found b member)
      · exact fun n b member => List.mem_append_left _ (h.delivered n b member)
      · intro b member
        rcases List.mem_append.mp member with old | new
        · rcases h.pipeline b old with sent | ⟨j, flying⟩
          · exact .inl sent
          · refine .inr ⟨j, ?_⟩
            have other : j ≠ i := by
              rintro rfl
              rw [vacant] at flying
              cases flying
            simpa only [Function.update_of_ne other] using flying
        · refine .inr ⟨i, ?_⟩
          rw [List.mem_singleton.mp new]
          exact Function.update_self ..
  | broadcast i a flying =>
      refine ⟨h.retained, ?_, ?_, ?_, h.delivered, ?_⟩
      · intro j b found
        simp only [Function.update_apply] at found
        split at found
        · cases found
        · exact h.flight j b found
      · intro n sub found b member
        obtain ⟨old, before, rfl⟩ := Option.map_eq_some_iff.mp found
        simp only [Sub.items, Sub.push, ← List.append_assoc] at member
        rcases List.mem_append.mp member with earlier | new
        · exact h.subs n old before b earlier
        · rw [List.mem_singleton.mp new]
          exact h.flight i a flying
      · intro n sub found
        obtain ⟨old, before, rfl⟩ := Option.map_eq_some_iff.mp found
        exact (h.live n old before).append (List.Sublist.refl [a])
      · intro b member
        rcases h.pipeline b member with sent | ⟨j, found⟩
        · exact .inl (List.mem_append_left _ sent)
        · by_cases same : j = i
          · subst same
            cases flying.symm.trans found
            exact .inl (by simp)
          · exact .inr ⟨j, by simpa only [Function.update_of_ne same] using found⟩
  | delivered n a sub rest due pops =>
      have items := h.subs n sub due
      have live := h.live n sub due
      rw [pops.items] at items
      refine Sound.deliver (Sound.setSub h ?_ ?_) (items a (List.mem_cons_self ..))
      · rintro sub' ⟨⟩ b member
        exact items b (List.mem_cons_of_mem _ member)
      · rintro sub' ⟨⟩
        cases pops with
        | replayed rest queued => exact live
        | forwarded queued => exact (List.sublist_cons_self a queued).trans live
  | lost n k =>
      have kept : (s.setSub n ((s.subs n).map (Sub.lose k))).Sound := by
        refine h.setSub ?_ ?_
        · intro sub found b member
          obtain ⟨old, before, rfl⟩ := Option.map_eq_some_iff.mp found
          exact h.subs n old before b ((old.lose_items k).subset member)
        · intro sub found
          obtain ⟨old, before, rfl⟩ := Option.map_eq_some_iff.mp found
          exact (List.drop_sublist k old.live).trans (h.live n old before)
      exact ⟨kept.retained, kept.flight, kept.subs, kept.live, kept.delivered, kept.pipeline⟩
  | closed n => exact h.setSub (by simp) (by simp)

theorem Open.sound {s t : Feed ι α} {n : ι} (step : Open s n t) (h : s.Sound) : t.Sound := by
  rw [step.result]
  refine h.setSub ?_ ?_
  · rintro sub ⟨⟩ a member
    simp [Sub.items] at member
  · rintro sub ⟨⟩
    exact List.nil_sublist _

theorem Snapshot.sound {s t : Feed ι α} {n : ι} {wanted : α → Bool} (step : Snapshot s n wanted t)
    (h : s.Sound) : t.Sound := by
  obtain ⟨k, trimmed⟩ := step.trimmed
  obtain ⟨live, before, result⟩ := step.result
  have shrunk : t.retained.Sublist s.accepted := by
    rw [trimmed]
    exact (List.drop_sublist k _).trans h.retained
  have kept : (s.setSub n (some ⟨t.retained.filter wanted, live⟩)).Sound := by
    refine h.setSub ?_ ?_
    · rintro sub ⟨⟩ a member
      rcases List.mem_append.mp member with old | queued
      · exact shrunk.subset (List.mem_filter.mp old).1
      · exact h.subs n _ before a queued
    · rintro sub ⟨⟩
      exact h.live n ⟨[], live⟩ before
  rw [result]
  exact ⟨shrunk, kept.flight, kept.subs, kept.live, kept.delivered, kept.pipeline⟩

/-- The item is on its way to the subscription, or has arrived. -/
def Due (s : Feed ι α) (n : ι) (sub : Sub α) (a : α) : Prop :=
  (∃ i, s.flight i = some a) ∨ a ∈ sub.items ∨ a ∈ s.delivered n

/-- As long as subscription `n` has lost nothing, every item accepted from position
`since` on, and every accepted item of `P`, is due. -/
structure Covered (s : Feed ι α) (n : ι) (since : Nat) (P : α → Prop) : Prop where
  since_le : since ≤ s.accepted.length
  due : s.lagged n = false → ∀ sub, s.subs n = some sub →
    ∀ a, a ∈ s.accepted.drop since ∨ (a ∈ s.accepted ∧ P a) → s.Due n sub a

variable {s t : Feed ι α} {n : ι} {since : Nat} {P : α → Prop}

theorem Covered.setSub_ne (h : s.Covered n since P) {m : ι} (other : m ≠ n)
    (sub : Option (Sub α)) : (s.setSub m sub).Covered n since P := by
  refine ⟨h.since_le, ?_⟩
  intro unlagged sub' found
  simp only [setSub, Function.update_of_ne (Ne.symm other)] at found
  exact h.due unlagged sub' found

theorem Step.covered (step : Step s t) (h : s.Covered n since P) : t.Covered n since P := by
  cases step with
  | idle => exact h
  | accept i a k vacant =>
      refine ⟨?_, ?_⟩
      · simp only [List.length_append]
        exact Nat.le_add_right_of_le h.since_le
      · intro unlagged sub found b wanted
        rw [List.drop_append_of_le_length h.since_le] at wanted
        simp only [List.mem_append, List.mem_singleton] at wanted
        have older : b ∈ s.accepted.drop since ∨ (b ∈ s.accepted ∧ P b) ∨ b = a := by tauto
        have kept : ∀ b, s.Due n sub b → (∃ j, Function.update s.flight i (some a) j = some b) ∨
            b ∈ sub.items ∨ b ∈ s.delivered n := by
          rintro b (⟨j, flying⟩ | arrived)
          · have other : j ≠ i := by
              rintro rfl
              rw [vacant] at flying
              cases flying
            exact .inl ⟨j, by simpa only [Function.update_of_ne other] using flying⟩
          · exact .inr arrived
        rcases older with old | old | rfl
        · exact kept b (h.due unlagged sub found b (.inl old))
        · exact kept b (h.due unlagged sub found b (.inr old))
        · exact .inl ⟨i, Function.update_self ..⟩
  | broadcast i a flying =>
      refine ⟨h.since_le, ?_⟩
      intro unlagged sub found b wanted
      obtain ⟨old, before, rfl⟩ := Option.map_eq_some_iff.mp found
      rcases h.due unlagged old before b wanted with ⟨j, other⟩ | queued | arrived
      · by_cases same : j = i
        · subst same
          cases flying.symm.trans other
          exact .inr (.inl (by simp [Sub.items, Sub.push]))
        · exact .inl ⟨j, by simpa only [Function.update_of_ne same] using other⟩
      · refine .inr (.inl ?_)
        simp only [Sub.items, Sub.push, ← List.append_assoc]
        exact List.mem_append_left _ queued
      · exact .inr (.inr arrived)
  | delivered m a sub rest due pops =>
      by_cases same : m = n
      · subst same
        refine ⟨h.since_le, ?_⟩
        intro unlagged sub' found b wanted
        simp only [deliver, setSub, Function.update_self, Option.some.injEq] at found
        subst found
        rcases h.due unlagged sub due b wanted with flying | queued | arrived
        · exact .inl flying
        · rw [pops.items] at queued
          rcases List.mem_cons.mp queued with rfl | later
          · exact .inr (.inr (by simp [deliver, setSub]))
          · exact .inr (.inl later)
        · exact .inr (.inr (by simp [deliver, setSub, arrived]))
      · have kept := h.setSub_ne same (some rest)
        refine ⟨kept.since_le, ?_⟩
        intro unlagged sub' found b wanted
        simpa only [Due, deliver, setSub, Function.update_of_ne (Ne.symm same)] using
          kept.due unlagged sub' found b wanted
  | lost m k =>
      by_cases same : m = n
      · subst same
        refine ⟨h.since_le, ?_⟩
        intro unlagged
        simp at unlagged
      · have kept := h.setSub_ne same ((s.subs m).map (Sub.lose k))
        refine ⟨kept.since_le, ?_⟩
        intro unlagged
        simp only [Function.update_of_ne (Ne.symm same)] at unlagged
        exact kept.due unlagged
  | closed m =>
      by_cases same : m = n
      · subst same
        refine ⟨h.since_le, ?_⟩
        intro _ sub found
        simp [setSub] at found
      · exact h.setSub_ne same none

theorem Open.covered {m : ι} (step : Open s m t) (other : m ≠ n) (h : s.Covered n since P) :
    t.Covered n since P := by
  rw [step.result]
  exact h.setSub_ne other _

theorem Snapshot.covered {m : ι} {wanted : α → Bool} (step : Snapshot s m wanted t)
    (h : s.Covered n since P) : t.Covered n since P := by
  obtain ⟨live, before, result⟩ := step.result
  rw [result]
  by_cases same : m = n
  · subst same
    refine ⟨h.since_le, ?_⟩
    intro unlagged sub found b wanted
    simp only [setSub, Function.update_self, Option.some.injEq] at found
    subst found
    rcases h.due unlagged _ before b wanted with flying | queued | arrived
    · exact .inl flying
    · exact .inr (.inl (List.mem_append_right _ queued))
    · exact .inr (.inr arrived)
  · have kept := h.setSub_ne same (some ⟨t.retained.filter wanted, live⟩)
    exact ⟨kept.since_le, kept.due⟩

/-- A subscription opened before any wanted item was broadcast misses none of them. -/
theorem Open.covers (step : Open s n t) (sound : s.Sound) (unsent : ∀ a ∈ s.sent, ¬P a) :
    t.Covered n s.accepted.length P := by
  rw [step.result]
  refine ⟨Nat.le_refl _, ?_⟩
  intro _ sub found a wanted
  rcases wanted with later | ⟨known, p⟩
  · simp [setSub] at later
  · rcases sound.pipeline a known with sent | flying
    · exact absurd p (unsent a sent)
    · exact .inl flying

/-- A snapshot misses nothing that was retained, and nothing accepted afterwards. -/
theorem Snapshot.covers {wanted : α → Bool} (step : Snapshot s n wanted t) :
    t.Covered n t.accepted.length fun a => a ∈ t.retained ∧ wanted a = true := by
  obtain ⟨live, before, result⟩ := step.result
  refine ⟨Nat.le_refl _, ?_⟩
  intro _ sub found a due
  rcases due with later | ⟨_, kept, chosen⟩
  · simp at later
  · rw [result] at found
    simp only [setSub, Function.update_self, Option.some.injEq] at found
    subst found
    exact .inr (.inl (List.mem_append_left _ (List.mem_filter.mpr ⟨kept, chosen⟩)))

omit [DecidableEq ι] in
/-- Once nothing is in flight and the stream is drained, everything due has arrived. -/
theorem Covered.arrived (h : s.Covered n since P) (unlagged : s.lagged n = false)
    (drained : s.subs n = some ⟨[], []⟩) (settled : ∀ i, s.flight i = none) {a : α}
    (wanted : a ∈ s.accepted.drop since ∨ (a ∈ s.accepted ∧ P a)) : a ∈ s.delivered n := by
  rcases h.due unlagged _ drained a wanted with ⟨i, flying⟩ | queued | arrived
  · rw [settled i] at flying
    cases flying
  · simp [Sub.items] at queued
  · exact arrived

/-- What has arrived or is queued for `n` is pairwise different, and none of it is
still in flight. -/
structure Distinct (s : Feed ι α) (n : ι) : Prop where
  flight : ∀ i j a, s.flight i = some a → s.flight j = some a → i = j
  delivered : (s.delivered n).Nodup
  queued : ∀ sub, s.subs n = some sub → (s.delivered n ++ sub.items).Nodup
  unsent : ∀ sub, s.subs n = some sub → ∀ i a, s.flight i = some a →
    a ∉ s.delivered n ++ sub.items

theorem Distinct.setSub_ne (h : s.Distinct n) {m : ι} (other : m ≠ n) (sub : Option (Sub α)) :
    (s.setSub m sub).Distinct n := by
  refine ⟨h.flight, h.delivered, ?_, ?_⟩
  · intro sub' found
    simp only [setSub, Function.update_of_ne (Ne.symm other)] at found
    exact h.queued sub' found
  · intro sub' found
    simp only [setSub, Function.update_of_ne (Ne.symm other)] at found
    exact h.unsent sub' found

theorem Step.distinct (step : Step s t) (sound : s.Sound) (once : t.accepted.Nodup)
    (h : s.Distinct n) : t.Distinct n := by
  cases step with
  | idle => exact h
  | accept i a k vacant =>
      have new : a ∉ s.accepted := by
        intro member
        exact (List.nodup_append.mp once).2.2 a member a (by simp) rfl
      have known : ∀ j b, Function.update s.flight i (some a) j = some b →
          (j = i ∧ b = a) ∨ (j ≠ i ∧ s.flight j = some b) := by
        intro j b flying
        by_cases same : j = i
        · subst same
          rw [Function.update_self] at flying
          cases flying
          exact .inl ⟨rfl, rfl⟩
        · rw [Function.update_of_ne same] at flying
          exact .inr ⟨same, flying⟩
      refine ⟨?_, h.delivered, h.queued, ?_⟩
      · intro j j' b first second
        rcases known j b first with ⟨rfl, rfl⟩ | ⟨_, old⟩ <;>
          rcases known j' b second with ⟨rfl, same⟩ | ⟨_, old'⟩
        · rfl
        · exact absurd (sound.flight j' b old') new
        · subst same
          exact absurd (sound.flight j b old) new
        · exact h.flight j j' b old old'
      · intro sub found j b flying member
        rcases known j b flying with ⟨_, rfl⟩ | ⟨_, old⟩
        · rcases List.mem_append.mp member with arrived | queued
          · exact new (sound.delivered n b arrived)
          · exact new (sound.subs n sub found b queued)
        · exact h.unsent sub found j b old member
  | broadcast i a flying =>
      refine ⟨?_, h.delivered, ?_, ?_⟩
      · intro j j' b first second
        simp only [Function.update_apply] at first second
        split at first
        · cases first
        · split at second
          · cases second
          · exact h.flight j j' b first second
      · intro sub found
        obtain ⟨old, before, rfl⟩ := Option.map_eq_some_iff.mp found
        simp only [Sub.items, Sub.push, ← List.append_assoc]
        rw [List.nodup_append]
        refine ⟨by simpa [Sub.items] using h.queued old before, List.nodup_singleton a, ?_⟩
        intro b member c single same
        rw [List.mem_singleton.mp single] at same
        subst same
        exact h.unsent old before i b flying (by simpa [Sub.items] using member)
      · intro sub found j b other member
        obtain ⟨old, before, rfl⟩ := Option.map_eq_some_iff.mp found
        simp only [Function.update_apply] at other
        split at other
        · cases other
        · next apart =>
            simp only [Sub.items, Sub.push, ← List.append_assoc] at member
            rcases List.mem_append.mp member with earlier | single
            · exact h.unsent old before j b other (by simpa [Sub.items] using earlier)
            · rw [List.mem_singleton.mp single] at other
              exact apart (h.flight j i a other flying)
  | delivered m a sub rest due pops =>
      by_cases same : m = n
      · subst same
        have shifted : s.delivered m ++ sub.items = (s.delivered m ++ [a]) ++ rest.items := by
          rw [pops.items, List.append_assoc]
          rfl
        have nodup := h.queued sub due
        rw [shifted] at nodup
        refine ⟨h.flight, ?_, ?_, ?_⟩
        · simpa [deliver, setSub] using (List.nodup_append.mp nodup).1
        · intro sub' found
          simp only [deliver, setSub, Function.update_self, Option.some.injEq] at found ⊢
          subst found
          exact nodup
        · intro sub' found i b flying
          simp only [deliver, setSub, Function.update_self, Option.some.injEq] at found ⊢
          subst found
          have absent := h.unsent sub due i b flying
          rw [shifted] at absent
          exact absent
      · have kept := h.setSub_ne same (some rest)
        have frame : ((s.setSub m (some rest)).deliver m a).delivered n = s.delivered n := by
          simp only [deliver, setSub, Function.update_of_ne (Ne.symm same)]
        refine ⟨kept.flight, ?_, ?_, ?_⟩
        · rw [frame]
          exact kept.delivered
        · rw [frame]
          exact kept.queued
        · rw [frame]
          exact kept.unsent
  | lost m k =>
      by_cases same : m = n
      · subst same
        have dropped : ∀ old : Sub α, (s.delivered m ++ (old.lose k).items).Sublist
            (s.delivered m ++ old.items) :=
          fun old => (List.Sublist.refl _).append (old.lose_items k)
        refine ⟨h.flight, h.delivered, ?_, ?_⟩
        · intro sub found
          simp only [setSub, Function.update_self] at found
          obtain ⟨old, before, rfl⟩ := Option.map_eq_some_iff.mp found
          exact (h.queued old before).sublist (dropped old)
        · intro sub found i a flying member
          simp only [setSub, Function.update_self] at found
          obtain ⟨old, before, rfl⟩ := Option.map_eq_some_iff.mp found
          exact h.unsent old before i a flying ((dropped old).subset member)
      · have kept := h.setSub_ne same ((s.subs m).map (Sub.lose k))
        exact ⟨kept.flight, kept.delivered, kept.queued, kept.unsent⟩
  | closed m =>
      by_cases same : m = n
      · subst same
        refine ⟨h.flight, h.delivered, ?_, ?_⟩
        · intro sub found
          simp [setSub] at found
        · intro sub found
          simp [setSub] at found
      · exact h.setSub_ne same none

theorem Open.distinct {m : ι} (step : Open s m t) (h : s.Distinct n) : t.Distinct n := by
  rw [step.result]
  by_cases same : m = n
  · subst same
    refine ⟨h.flight, h.delivered, ?_, ?_⟩
    · intro sub found
      simp only [setSub, Function.update_self, Option.some.injEq] at found ⊢
      subst found
      simpa [Sub.items] using h.delivered
    · intro sub found i a _
      simp only [setSub, Function.update_self, Option.some.injEq] at found ⊢
      subst found
      simp [Sub.items, step.untouched]
  · exact h.setSub_ne same _

/-- A snapshot that overlaps neither the subscriber's stream nor an item in flight
keeps the deliveries distinct. -/
theorem Snapshot.distinct {m : ι} {wanted : α → Bool} (step : Snapshot s m wanted t)
    (sound : s.Sound) (once : s.accepted.Nodup)
    (fresh : m = n → ∀ a ∈ t.retained, wanted a = true →
      (∀ i, s.flight i ≠ some a) ∧ ∀ sub, s.subs n = some sub → a ∉ sub.live)
    (h : s.Distinct n) : t.Distinct n := by
  obtain ⟨k, trimmed⟩ := step.trimmed
  obtain ⟨live, before, result⟩ := step.result
  rw [result]
  by_cases same : m = n
  · subst same
    have nodup : t.retained.Nodup := by
      rw [trimmed]
      exact once.sublist ((List.drop_sublist k _).trans sound.retained)
    have old := h.queued _ before
    have unsent := h.unsent _ before
    simp only [step.untouched, Sub.items, List.nil_append] at old unsent
    refine ⟨h.flight, h.delivered, ?_, ?_⟩
    · intro sub found
      simp only [setSub, Function.update_self, Option.some.injEq] at found ⊢
      subst found
      simp only [step.untouched, Sub.items, List.nil_append]
      rw [List.nodup_append]
      refine ⟨nodup.filter _, old, ?_⟩
      intro a replayed b queued same
      subst same
      obtain ⟨kept, chosen⟩ := List.mem_filter.mp replayed
      exact (fresh rfl a kept chosen).2 _ before queued
    · intro sub found i a flying member
      simp only [setSub, Function.update_self, Option.some.injEq] at found member
      subst found
      simp only [step.untouched, Sub.items, List.nil_append] at member
      rcases List.mem_append.mp member with replayed | queued
      · obtain ⟨kept, chosen⟩ := List.mem_filter.mp replayed
        exact (fresh rfl a kept chosen).1 i flying
      · exact unsent i a flying queued
  · have kept := h.setSub_ne same (some ⟨t.retained.filter wanted, live⟩)
    exact ⟨kept.flight, kept.delivered, kept.queued, kept.unsent⟩

/-- What has been broadcast is in ascending order of rank, and below all that is in flight. -/
structure InTurn (rank : α → Nat) (s : Feed ι α) : Prop where
  known : ∀ a ∈ s.sent, a ∈ s.accepted
  sent : s.sent.Pairwise fun a b => rank a < rank b
  ahead : ∀ a ∈ s.sent, ∀ i b, s.flight i = some b → rank a < rank b

variable {rank : α → Nat}

omit [DecidableEq ι] in
theorem InTurn.congr (turn : s.InTurn rank) (accepted : t.accepted = s.accepted)
    (sent : t.sent = s.sent) (flight : t.flight = s.flight) : t.InTurn rank := by
  refine ⟨?_, ?_, ?_⟩
  · rw [accepted, sent]
    exact turn.known
  · rw [sent]
    exact turn.sent
  · rw [sent, flight]
    exact turn.ahead

/-- Acceptance gives ever higher ranks, and only the lowest item in flight is broadcast. -/
theorem Step.inTurn (step : Step s t) (sound : s.Sound) (turn : s.InTurn rank)
    (rising : t.accepted.Pairwise fun a b => rank a < rank b)
    (lowest : ∀ i a, s.flight i = some a → t.flight i = none → ∀ j b, j ≠ i →
      s.flight j = some b → rank a < rank b) : t.InTurn rank := by
  cases step with
  | accept i a k vacant =>
      have above := (List.pairwise_append.mp rising).2.2
      refine ⟨fun b member => List.mem_append_left _ (turn.known b member), turn.sent, ?_⟩
      intro b member j c flying
      simp only [Function.update_apply] at flying
      split at flying
      · cases flying
        exact above b (turn.known b member) a (List.mem_singleton_self a)
      · exact turn.ahead b member j c flying
  | broadcast i a flying =>
      have low := lowest i a flying (Function.update_self ..)
      refine ⟨?_, ?_, ?_⟩
      · intro b member
        rcases List.mem_append.mp member with old | new
        · exact turn.known b old
        · rw [List.mem_singleton.mp new]
          exact sound.flight i a flying
      · refine List.pairwise_append.mpr ⟨turn.sent, List.pairwise_singleton _ _, ?_⟩
        intro b member c single
        rw [List.mem_singleton.mp single]
        exact turn.ahead b member i a flying
      · intro b member j c found
        simp only [Function.update_apply] at found
        split at found
        · cases found
        · next other =>
            rcases List.mem_append.mp member with old | new
            · exact turn.ahead b old j c found
            · rw [List.mem_singleton.mp new]
              exact low j c other found
  | idle => exact turn
  | delivered n a sub rest due pops => exact turn.congr rfl rfl rfl
  | lost n k => exact turn.congr rfl rfl rfl
  | closed n => exact turn.congr rfl rfl rfl

theorem Open.inTurn (step : Open s n t) (turn : s.InTurn rank) : t.InTurn rank := by
  rw [step.result]
  exact turn.congr rfl rfl rfl

theorem Snapshot.inTurn {wanted : α → Bool} (step : Snapshot s n wanted t)
    (turn : s.InTurn rank) : t.InTurn rank := by
  obtain ⟨live, before, result⟩ := step.result
  rw [result]
  exact turn.congr rfl rfl rfl

def rest (s : Feed ι α) (n : ι) : List α := ((s.subs n).map Sub.replay).getD []

/-- What a subscription is to be served: all accepted from position `since` on, and all of `P`. -/
def Wanted (s : Feed ι α) (since : Nat) (P : α → Prop) (a : α) : Prop :=
  a ∈ s.accepted.drop since ∨ (a ∈ s.accepted ∧ P a)

/-- Wherever the deliveries of `n` are cut off, what was wanted and is not among them lies above
the last one. What is wanted below `bound` has been delivered or is still to be replayed. -/
structure Sequenced (rank : α → Nat) (s : Feed ι α) (n : ι) (since : Nat) (P : α → Prop)
    (bound : Nat) : Prop where
  covered : s.Covered n since P
  clear : ∀ front a, front ++ [a] <+: s.delivered n → ∀ b, s.Wanted since P b →
    b ∈ front ++ [a] ∨ rank a < rank b
  served : ∀ b, s.Wanted since P b → b ∈ s.delivered n ∨ b ∈ s.rest n ∨ bound ≤ rank b
  rising : (s.rest n).Pairwise fun a b => rank a < rank b
  below : ∀ a ∈ s.rest n, rank a < bound

variable {bound : Nat}

omit [DecidableEq ι] in
theorem Sequenced.congr (h : s.Sequenced rank n since P bound) (covered : t.Covered n since P)
    (accepted : t.accepted = s.accepted) (delivered : t.delivered n = s.delivered n)
    (rest : t.rest n = s.rest n) : t.Sequenced rank n since P bound := by
  refine ⟨covered, ?_, ?_, ?_, ?_⟩
  · simpa only [delivered, Wanted, accepted] using h.clear
  · simpa only [delivered, rest, Wanted, accepted] using h.served
  · rw [rest]
    exact h.rising
  · rw [rest]
    exact h.below

omit [DecidableEq ι] in
theorem Sequenced.cutOff (h : s.Sequenced rank n since P bound) (covered : t.Covered n since P)
    (accepted : t.accepted = s.accepted) (delivered : t.delivered n = s.delivered n)
    (rest : t.rest n = []) : t.Sequenced rank n since P 0 := by
  refine ⟨covered, ?_, fun b _ => .inr (.inr (Nat.zero_le _)), ?_, ?_⟩
  · simpa only [delivered, Wanted, accepted] using h.clear
  · rw [rest]
    exact List.Pairwise.nil
  · simp [rest]

omit [DecidableEq ι] in
/-- The next item of a subscription that has lost nothing passes over nothing that is wanted. -/
theorem Sequenced.pops (h : s.Sequenced rank n since P bound) (sound : s.Sound)
    (turn : s.InTurn rank) (unlagged : s.lagged n = false) {a : α} {sub rest : Sub α}
    (due : s.subs n = some sub) (pops : Sub.Pops a sub rest) {b : α} (wanted : s.Wanted since P b) :
    b ∈ s.delivered n ++ [a] ∨ rank a < rank b := by
  cases pops with
  | replayed rest live =>
      have here : s.rest n = a :: rest := by simp [Feed.rest, due]
      have rising := h.rising
      have below := h.below
      rw [here] at rising below
      rcases h.served b wanted with arrived | waiting | beyond
      · exact .inl (List.mem_append_left _ arrived)
      · rw [here] at waiting
        rcases List.mem_cons.mp waiting with rfl | later
        · exact .inl (by simp)
        · exact .inr (List.rel_of_pairwise_cons rising later)
      · exact .inr (Nat.lt_of_lt_of_le (below a (List.mem_cons_self ..)) beyond)
  | forwarded live =>
      have queued := sound.live n _ due
      have ascending := turn.sent.sublist queued
      rcases h.covered.due unlagged _ due b wanted with ⟨i, flying⟩ | waiting | arrived
      · exact .inr (turn.ahead a (queued.subset (List.mem_cons_self ..)) i b flying)
      · rcases List.mem_cons.mp waiting with rfl | later
        · exact .inl (by simp)
        · exact .inr (List.rel_of_pairwise_cons ascending later)
      · exact .inl (List.mem_append_left _ arrived)

/-- Broadcasts in turn keep a subscription that has lost nothing in sequence, unless it ends in
the middle of its replay. -/
theorem Step.sequenced (step : Step s t) (sound : s.Sound) (turn : s.InTurn rank)
    (rising : t.accepted.Pairwise fun a b => rank a < rank b)
    (later : ∀ a ∈ t.accepted, a ∈ s.accepted ∨ bound ≤ rank a) (unlagged : s.lagged n = false)
    (h : s.Sequenced rank n since P bound) :
    t.Sequenced rank n since P bound ∨
      s.rest n ≠ [] ∧ t.subs n = none ∧ t.Sequenced rank n since P 0 := by
  have covered := step.covered h.covered
  cases step with
  | idle => exact .inl h
  | accept i a k vacant =>
      left
      have above := (List.pairwise_append.mp rising).2.2
      have older : ∀ b, b ∈ (s.accepted ++ [a]).drop since ∨ (b ∈ s.accepted ++ [a] ∧ P b) →
          s.Wanted since P b ∨ b = a := by
        intro b wanted
        rw [List.drop_append_of_le_length h.covered.since_le] at wanted
        simp only [List.mem_append, List.mem_singleton] at wanted
        unfold Wanted
        tauto
      refine ⟨covered, ?_, ?_, h.rising, h.below⟩
      · intro front b arrived c wanted
        rcases older c wanted with old | rfl
        · exact h.clear front b arrived c old
        · refine .inr (above b (sound.delivered n b (arrived.subset ?_)) c (List.mem_singleton_self c))
          simp
      · intro c wanted
        rcases older c wanted with old | rfl
        · exact h.served c old
        · refine .inr (.inr ((later c (by simp)).resolve_left ?_))
          intro member
          exact Nat.lt_irrefl _ (above c member c (List.mem_singleton_self c))
  | broadcast i a flying =>
      refine .inl (h.congr covered rfl rfl ?_)
      simp only [rest, Option.map_map]
      rfl
  | delivered m a sub rest due pops =>
      left
      by_cases same : m = n
      · subst same
        have arrived : ((s.setSub m (some rest)).deliver m a).delivered m = s.delivered m ++ [a] := by
          simp [deliver, setSub]
        have left_ : ((s.setSub m (some rest)).deliver m a).rest m = rest.replay := by
          simp [deliver, setSub, Feed.rest]
        have before : s.rest m = sub.replay := by simp [Feed.rest, due]
        have shorter : rest.replay = sub.replay ∨ sub.replay = a :: rest.replay := by
          cases pops with
          | replayed => exact .inr rfl
          | forwarded => exact .inl rfl
        have suffix : rest.replay <:+ s.rest m := by
          rcases shorter with same | cons
          · simp only [before, same, List.suffix_refl]
          · rw [before, cons]
            exact List.suffix_cons a _
        refine ⟨covered, ?_, ?_, ?_, ?_⟩
        · rw [arrived]
          intro front b cut c wanted
          rcases List.prefix_concat_iff.mp cut with whole | cut
          · obtain ⟨rfl, last⟩ := List.append_inj' whole rfl
            cases last
            exact h.pops sound turn unlagged due pops wanted
          · exact h.clear front b cut c wanted
        · rw [arrived, left_]
          intro b wanted
          rcases h.served b wanted with old | waiting | beyond
          · exact .inl (List.mem_append_left _ old)
          · rw [before] at waiting
            rcases shorter with same | cons
            · exact .inr (.inl (same ▸ waiting))
            · rw [cons] at waiting
              rcases List.mem_cons.mp waiting with rfl | later
              · exact .inl (by simp)
              · exact .inr (.inl later)
          · exact .inr (.inr beyond)
        · rw [left_]
          exact h.rising.sublist suffix.sublist
        · rw [left_]
          exact fun b member => h.below b (suffix.subset member)
      · refine h.congr covered rfl ?_ ?_
        · simp [deliver, setSub, Ne.symm same]
        · simp [deliver, setSub, Feed.rest, Ne.symm same]
  | lost m k =>
      refine .inl (h.congr covered rfl rfl ?_)
      by_cases same : m = n
      · subst same
        simp only [rest, setSub, Function.update_self, Option.map_map]
        rfl
      · simp [rest, setSub, Ne.symm same]
  | closed m =>
      by_cases same : m = n
      · subst same
        have ended : (s.setSub m none).rest m = [] := by simp [setSub, rest]
        by_cases empty : s.rest m = []
        · exact .inl (h.congr covered rfl rfl (ended.trans empty.symm))
        · exact .inr ⟨empty, by simp [setSub], h.cutOff covered rfl rfl ended⟩
      · refine .inl (h.congr covered rfl rfl ?_)
        simp [setSub, rest, Ne.symm same]

theorem Open.sequenced {m : ι} (step : Open s m t) (other : m ≠ n)
    (h : s.Sequenced rank n since P bound) : t.Sequenced rank n since P bound := by
  have covered := step.covered other h.covered
  have opened := step.result
  subst opened
  refine h.congr covered rfl rfl ?_
  simp [setSub, rest, Ne.symm other]

theorem Snapshot.sequenced {m : ι} {wanted : α → Bool} (step : Snapshot s m wanted t)
    (other : m ≠ n) (h : s.Sequenced rank n since P bound) : t.Sequenced rank n since P bound := by
  have covered := step.covered h.covered
  obtain ⟨live, before, result⟩ := step.result
  rw [result] at covered ⊢
  refine h.congr covered rfl rfl ?_
  simp [setSub, rest, Ne.symm other]

theorem Open.sequences (step : Open s n t) (sound : s.Sound) (bound : Nat) :
    t.Sequenced rank n s.accepted.length (fun _ => False) bound := by
  have covered := step.covers (P := fun _ => False) sound fun _ _ => id
  have opened := step.result
  subst opened
  refine ⟨covered, ?_, ?_, ?_, ?_⟩
  · intro front a cut
    have none_ : s.delivered n = [] := step.untouched
    simp [setSub, none_] at cut
  · intro b wanted
    simp [Wanted, setSub] at wanted
  · simp [rest, setSub]
  · simp [rest, setSub]

theorem Snapshot.sequences {wanted : α → Bool} (step : Snapshot s n wanted t) (sound : s.Sound)
    (rising : s.accepted.Pairwise fun a b => rank a < rank b)
    (below : ∀ a ∈ s.accepted, rank a < bound) :
    t.Sequenced rank n t.accepted.length (fun a => a ∈ t.retained ∧ wanted a = true) bound := by
  have covered := step.covers
  obtain ⟨k, trimmed⟩ := step.trimmed
  obtain ⟨live, before, result⟩ := step.result
  have delivered : t.delivered n = [] := by
    rw [result]
    exact step.untouched
  have replay : t.rest n = t.retained.filter wanted := by
    rw [rest, result]
    simp [setSub]
  have shrunk : (t.retained.filter wanted).Sublist s.accepted := by
    refine List.filter_sublist.trans ?_
    rw [trimmed]
    exact (List.drop_sublist k _).trans sound.retained
  refine ⟨covered, ?_, ?_, ?_, ?_⟩
  · intro front a cut
    simp [delivered] at cut
  · intro b wants
    rcases wants with later | ⟨-, kept, chosen⟩
    · simp at later
    · exact .inr (.inl (by rw [replay]; exact List.mem_filter.mpr ⟨kept, chosen⟩))
  · rw [replay]
    exact rising.sublist shrunk
  · rw [replay]
    exact fun a member => below a (shrunk.subset member)

theorem Step.unopened (step : Step s t) (closed : s.subs n = none) :
    t.subs n = none ∧ t.delivered n = s.delivered n := by
  cases step with
  | delivered m a sub rest due pops =>
      have other : n ≠ m := by
        rintro rfl
        rw [closed] at due
        cases due
      simp [deliver, setSub, other, closed]
  | lost m k =>
      refine ⟨?_, rfl⟩
      by_cases same : n = m
      · subst same
        simp [setSub, closed]
      · simp [setSub, same, closed]
  | closed m => simp [setSub, Function.update_apply, closed]
  | _ => simp [closed]

omit [DecidableEq ι] in
theorem Sequenced.unopened (closed : s.subs n = none) (silent : s.delivered n = []) :
    s.Sequenced rank n 0 (fun _ => True) 0 := by
  have nothing : s.rest n = [] := by simp [rest, closed]
  refine ⟨⟨Nat.zero_le _, ?_⟩, ?_, fun _ _ => .inr (.inr (Nat.zero_le _)), ?_, ?_⟩
  · intro _ sub found
    rw [closed] at found
    cases found
  · intro front a cut
    simp [silent] at cut
  · simp [nothing]
  · simp [nothing]

end Feed
