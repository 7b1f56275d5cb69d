import Mathlib.Data.List.Infix
import Mathlib.Logic.Function.Basic

/-! A machine is a partial step function; a label names the component that moves together with every
external answer that the move consumes. A run is guarded by a predicate on the state before each
step, so that "every run whose steps all meet a condition" and "every run" are the same notion at
two guards. In a family of machines whose states have one part in common, a step of a member finds
that part as the last step of any member left it. A history has its newest entry first; that one
thing happened only after another is said by justifying every entry by those below it. -/

/-- A labelled transition system given by an executable partial step. -/
structure Machine (σ ℓ : Type*) where
  step : σ → ℓ → Option σ

namespace Machine

variable {σ ℓ : Type*}

def free : σ → ℓ → Prop := fun _ _ => True

/-- Runs of `M` in which each step is admitted by `ok` in the state it leaves. -/
inductive Run (M : Machine σ ℓ) (ok : σ → ℓ → Prop) : σ → σ → Prop
  | refl (s : σ) : Run M ok s s
  | tail {s t u : σ} {l : ℓ} : Run M ok s t → ok t l → M.step t l = some u → Run M ok s u

variable {M : Machine σ ℓ} {ok : σ → ℓ → Prop}

theorem Run.trans {s t u : σ} (first : Run M ok s t) (second : Run M ok t u) : Run M ok s u := by
  induction second with
  | refl => exact first
  | tail _ admitted stepped ih => exact .tail ih admitted stepped

theorem Run.mono {ok' : σ → ℓ → Prop} (weaker : ∀ s l, ok s l → ok' s l) {s t : σ}
    (run : Run M ok s t) : Run M ok' s t := by
  induction run with
  | refl => exact .refl _
  | tail _ admitted stepped ih => exact .tail ih (weaker _ _ admitted) stepped

/-- Of two guards, the one that is weaker in the states of an invariant admits the run too. -/
theorem Run.relax {I : σ → Prop} {ok' : σ → ℓ → Prop} {s t : σ} (run : Run M ok s t) (start : I s)
    (kept : ∀ s l t, I s → ok s l → M.step s l = some t → I t)
    (weaker : ∀ s l, I s → ok s l → ok' s l) : Run M ok' s t := by
  have both : I t ∧ Run M ok' s t := by
    induction run with
    | refl => exact ⟨start, .refl _⟩
    | tail _ admitted stepped ih =>
        obtain ⟨before, run⟩ := ih
        exact ⟨kept _ _ _ before admitted stepped,
          .tail run (weaker _ _ before admitted) stepped⟩
  exact both.2

/-- An invariant kept by every admitted step holds along every guarded run. -/
theorem Run.invariant {I : σ → Prop} {s t : σ} (run : Run M ok s t) (start : I s)
    (kept : ∀ s l t, I s → ok s l → M.step s l = some t → I t) : I t := by
  induction run with
  | refl => exact start
  | tail _ admitted stepped ih => exact kept _ _ _ ih admitted stepped

/-- A step relation that is reflexive and transitive relates the ends of every run. -/
theorem Run.related {R : σ → σ → Prop} {s t : σ} (run : Run M ok s t) (same : ∀ s, R s s)
    (compose : ∀ s t u, R s t → R t u → R s u)
    (kept : ∀ s l t, ok s l → M.step s l = some t → R s t) : R s t := by
  induction run with
  | refl => exact same _
  | tail _ admitted stepped ih => exact compose _ _ _ ih (kept _ _ _ admitted stepped)

/-- Execute a finite schedule, stopping at the first disabled label. -/
def exec (M : Machine σ ℓ) : σ → List ℓ → Option σ
  | s, [] => some s
  | s, l :: ls => (M.step s l).bind fun t => exec M t ls

theorem exec_append (s : σ) (ls ls' : List ℓ) :
    M.exec s (ls ++ ls') = (M.exec s ls).bind fun t => M.exec t ls' := by
  induction ls generalizing s with
  | nil => rfl
  | cons l ls ih =>
      simp only [List.cons_append, exec, ih, Option.bind_assoc]

theorem exec_run {s t : σ} {ls : List ℓ} (h : M.exec s ls = some t) : Run M free s t := by
  induction ls generalizing s with
  | nil =>
      cases h
      exact .refl _
  | cons l ls ih =>
      obtain ⟨u, stepped, rest⟩ := Option.bind_eq_some_iff.mp h
      exact (Run.tail (.refl s) trivial stepped).trans (ih rest)

theorem exec_invariant {I : σ → Prop} {P : ℓ → Prop}
    (kept : ∀ s l t, I s → P l → M.step s l = some t → I t) {s t : σ} {ls : List ℓ} (start : I s)
    (all : ∀ l ∈ ls, P l) (h : M.exec s ls = some t) : I t := by
  induction ls generalizing s with
  | nil =>
      cases h
      exact start
  | cons l ls ih =>
      obtain ⟨u, stepped, rest⟩ := Option.bind_eq_some_iff.mp h
      have first := kept s l u start (all l (List.mem_cons_self ..)) stepped
      exact ih first (fun l' member => all l' (List.mem_cons_of_mem _ member)) rest

/-- `P` holds at every step of a schedule that starts in `s`. -/
def Along (M : Machine σ ℓ) (P : σ → ℓ → Prop) : σ → List ℓ → Prop
  | _, [] => True
  | s, l :: ls => P s l ∧ ∀ t, M.step s l = some t → Along M P t ls

theorem along_cons {P : σ → ℓ → Prop} {s t : σ} {l : ℓ} {ls : List ℓ} (h : M.step s l = some t) :
    M.Along P s (l :: ls) ↔ P s l ∧ M.Along P t ls := by
  constructor
  · rintro ⟨first, rest⟩
    exact ⟨first, rest t h⟩
  · rintro ⟨first, rest⟩
    refine ⟨first, ?_⟩
    intro u stepped
    cases h.symm.trans stepped
    exact rest

theorem along_of_invariant {P : σ → ℓ → Prop} {I : σ → Prop} (holds : ∀ s l, I s → P s l)
    (kept : ∀ s l t, I s → M.step s l = some t → I t) {s : σ} (start : I s) (ls : List ℓ) :
    M.Along P s ls := by
  induction ls generalizing s with
  | nil => trivial
  | cons l ls ih => exact ⟨holds s l start, fun t stepped => ih (kept s l t start stepped)⟩

theorem along_of_labels {P : ℓ → Prop} {ls : List ℓ} (all : ∀ l ∈ ls, P l) (s : σ) :
    M.Along (fun _ => P) s ls := by
  induction ls generalizing s with
  | nil => trivial
  | cons l ls ih =>
      exact ⟨all l List.mem_cons_self, fun t _ => ih (fun l' member =>
        all l' (List.mem_cons_of_mem l member)) t⟩

theorem along_congr {P Q : σ → ℓ → Prop} {I : σ → Prop} (same : ∀ s l, I s → (P s l ↔ Q s l))
    (kept : ∀ s l t, I s → P s l → M.step s l = some t → I t) {s : σ} (start : I s) (ls : List ℓ) :
    M.Along P s ls ↔ M.Along Q s ls := by
  induction ls generalizing s with
  | nil => exact Iff.rfl
  | cons l ls ih =>
      constructor
      · rintro ⟨first, rest⟩
        refine ⟨(same s l start).mp first, ?_⟩
        intro t stepped
        exact (ih (kept s l t start first stepped)).mp (rest t stepped)
      · rintro ⟨first, rest⟩
        have before := (same s l start).mpr first
        refine ⟨before, ?_⟩
        intro t stepped
        exact (ih (kept s l t start before stepped)).mpr (rest t stepped)

structure Transition (σ ℓ : Type*) where
  before : σ
  label : ℓ
  after : σ

def path (M : Machine σ ℓ) : σ → List ℓ → List (Transition σ ℓ)
  | _, [] => []
  | s, l :: ls => (M.step s l).elim [] fun t => ⟨s, l, t⟩ :: path M t ls

theorem path_cons {s t : σ} {l : ℓ} (h : M.step s l = some t) (ls : List ℓ) :
    M.path s (l :: ls) = ⟨s, l, t⟩ :: M.path t ls := by
  simp only [path, h, Option.elim_some]

/-- An invariant of the state and of the transitions that have led to it. -/
theorem path_invariant {I : List (Transition σ ℓ) → σ → Prop}
    (kept : ∀ past s l t, I past s → ok s l → M.step s l = some t → I (past ++ [⟨s, l, t⟩]) t)
    {past : List (Transition σ ℓ)} {s t : σ} {ls : List ℓ} (start : I past s)
    (within : M.Along ok s ls) (h : M.exec s ls = some t) : I (past ++ M.path s ls) t := by
  induction ls generalizing past s with
  | nil =>
      cases h
      rw [path, List.append_nil]
      exact start
  | cons l ls ih =>
      obtain ⟨u, stepped, rest⟩ := Option.bind_eq_some_iff.mp h
      obtain ⟨admitted, later⟩ := (along_cons stepped).mp within
      have next := ih (kept past s l u start admitted stepped) later rest
      rwa [List.append_assoc, List.singleton_append, ← path_cons stepped] at next

/-- The same with a guard that looks at the transitions before the one it admits. -/
theorem path_invariant_past {G : List (Transition σ ℓ) → Transition σ ℓ → Prop}
    {I : List (Transition σ ℓ) → σ → Prop}
    (kept : ∀ past s l t, I past s → G past ⟨s, l, t⟩ → M.step s l = some t →
      I (past ++ [⟨s, l, t⟩]) t)
    {past : List (Transition σ ℓ)} {s t : σ} {ls : List ℓ} (start : I past s)
    (within : ∀ before p after, M.path s ls = before ++ p :: after → G (past ++ before) p)
    (h : M.exec s ls = some t) : I (past ++ M.path s ls) t := by
  induction ls generalizing past s with
  | nil =>
      cases h
      rw [path, List.append_nil]
      exact start
  | cons l ls ih =>
      obtain ⟨u, stepped, rest⟩ := Option.bind_eq_some_iff.mp h
      rw [path_cons stepped] at within ⊢
      have admitted := within [] _ _ rfl
      rw [List.append_nil] at admitted
      have next := ih (kept past s l u start admitted stepped) ?_ rest
      · rwa [List.append_assoc, List.singleton_append] at next
      · intro before p after split
        rw [List.append_assoc]
        exact within (⟨s, l, u⟩ :: before) p after (congrArg _ split)

/-- A check of every transition against those before it. -/
def checked (check : List (Transition σ ℓ) → Transition σ ℓ → Bool) :
    List (Transition σ ℓ) → List (Transition σ ℓ) → Bool
  | _, [] => true
  | past, p :: rest => check past p && checked check (past ++ [p]) rest

theorem checked_sound {check : List (Transition σ ℓ) → Transition σ ℓ → Bool}
    {past path : List (Transition σ ℓ)} (h : checked check past path = true)
    {before after : List (Transition σ ℓ)} {p : Transition σ ℓ} (split : path = before ++ p :: after) :
    check (past ++ before) p = true := by
  induction before generalizing past path with
  | nil =>
      subst split
      rw [List.append_nil]
      exact (Bool.and_eq_true_iff.mp h).1
  | cons q before ih =>
      subst split
      have rest := ih (Bool.and_eq_true_iff.mp h).2 rfl
      rwa [List.append_assoc, List.singleton_append] at rest

theorem along_free (s : σ) (ls : List ℓ) : M.Along free s ls :=
  along_of_invariant (I := fun _ => True) (fun _ _ _ => trivial) (fun _ _ _ _ _ => trivial) trivial ls

/-- Execute a schedule and check the guard before each of its steps. -/
def execWithin (M : Machine σ ℓ) (ok : σ → ℓ → Bool) : σ → List ℓ → Option σ
  | s, [] => some s
  | s, l :: ls => if ok s l then (M.step s l).bind fun t => execWithin M ok t ls else none

/-- A check that decides the guard in the states of an invariant yields guarded runs. -/
theorem execWithin_run {I : σ → Prop} {check : σ → ℓ → Bool}
    (sound : ∀ s l, I s → check s l = true → ok s l)
    (kept : ∀ s l t, I s → ok s l → M.step s l = some t → I t) {s t : σ} (start : I s) {ls : List ℓ}
    (h : M.execWithin check s ls = some t) : Run M ok s t := by
  induction ls generalizing s with
  | nil =>
      cases h
      exact .refl _
  | cons l ls ih =>
      simp only [execWithin] at h
      split at h
      · next admitted =>
          obtain ⟨u, stepped, rest⟩ := Option.bind_eq_some_iff.mp h
          have fine := sound s l start admitted
          exact (Run.tail (.refl s) fine stepped).trans (ih (kept s l u start fine stepped) rest)
      · cases h

theorem execWithin_along {I : σ → Prop} {check : σ → ℓ → Bool}
    (sound : ∀ s l, I s → check s l = true → ok s l)
    (kept : ∀ s l t, I s → ok s l → M.step s l = some t → I t) {s t : σ} (start : I s) {ls : List ℓ}
    (h : M.execWithin check s ls = some t) : M.exec s ls = some t ∧ M.Along ok s ls := by
  induction ls generalizing s with
  | nil => exact ⟨h, trivial⟩
  | cons l ls ih =>
      simp only [execWithin] at h
      split at h
      · next admitted =>
          obtain ⟨u, stepped, rest⟩ := Option.bind_eq_some_iff.mp h
          have fine := sound s l start admitted
          obtain ⟨ran, along⟩ := ih (kept s l u start fine stepped) rest
          exact ⟨Option.bind_eq_some_iff.mpr ⟨u, stepped, ran⟩, (along_cons stepped).mpr ⟨fine, along⟩⟩
      · cases h

/-- Reduce a statement about a schedule's outcome to one evaluation. -/
theorem exec_witness {s : σ} (ls : List ℓ) (p : σ → Prop) [DecidablePred p]
    (h : (M.exec s ls).any (fun t => decide (p t)) = true) :
    ∃ t, M.exec s ls = some t ∧ Run M free s t ∧ p t := by
  cases reached : M.exec s ls with
  | none => simp [reached] at h
  | some t => exact ⟨t, rfl, exec_run reached, by simpa [reached] using h⟩

theorem execWithin_witness {I : σ → Prop} {check : σ → ℓ → Bool}
    (sound : ∀ s l, I s → check s l = true → ok s l)
    (kept : ∀ s l t, I s → ok s l → M.step s l = some t → I t) {s : σ} (start : I s) (ls : List ℓ)
    (p : σ → Prop) [DecidablePred p]
    (h : (M.execWithin check s ls).any (fun t => decide (p t)) = true) :
    ∃ t, Run M ok s t ∧ p t := by
  cases reached : M.execWithin check s ls with
  | none => simp [reached] at h
  | some t => exact ⟨t, execWithin_run sound kept start reached, by simpa [reached] using h⟩

end Machine

/-- A part of a state that can be read and replaced. -/
structure Component (σ β : Type*) where
  get : σ → β
  set : σ → β → σ
  set_get : ∀ s, set s (get s) = s

/-- What is kept of each member, and the common part. -/
structure Family (ι σ β : Type*) where
  own : ι → σ
  common : β

namespace Family

variable {ι σ β ℓ : Type*} [DecidableEq ι]

def view (part : Component σ β) (f : Family ι σ β) (i : ι) : σ := part.set (f.own i) f.common

def put (part : Component σ β) (f : Family ι σ β) (i : ι) (t : σ) : Family ι σ β :=
  ⟨Function.update f.own i t, part.get t⟩

def machine (part : Component σ β) (members : ι → Machine σ ℓ) : Machine (Family ι σ β) (ι × ℓ) where
  step f l := ((members l.1).step (f.view part l.1) l.2).map (f.put part l.1)

variable {part : Component σ β} {members : ι → Machine σ ℓ} {f g : Family ι σ β} {l : ι × ℓ} {i : ι}
  {t : σ}

theorem step_member (h : (machine part members).step f l = some g) :
    ∃ t, (members l.1).step (f.view part l.1) l.2 = some t ∧ g = f.put part l.1 t := by
  obtain ⟨t, stepped, same⟩ := Option.map_eq_some_iff.mp h
  exact ⟨t, stepped, same.symm⟩

theorem put_own_self : (f.put part i t).own i = t := Function.update_self ..

theorem put_own_ne {j : ι} (other : j ≠ i) : (f.put part i t).own j = f.own j :=
  Function.update_of_ne other _ _

theorem put_view_self : (f.put part i t).view part i = t := by
  rw [view, put_own_self]
  exact part.set_get t

/-- What the steps of a member keep holds of all members if the common part does not matter
to it. -/
theorem invariant {P : ι → σ → Prop} {ok : Family ι σ β → ι × ℓ → Prop}
    (frame : ∀ i s b, P i s → P i (part.set s b))
    (kept : ∀ f l t, ok f l → P l.1 (f.view part l.1) →
      (members l.1).step (f.view part l.1) l.2 = some t → P l.1 t)
    (run : (machine part members).Run ok f g) (start : ∀ i, P i (f.own i)) (i : ι) :
    P i (g.own i) := by
  revert i
  refine run.invariant (I := fun f => ∀ i, P i (f.own i)) start ?_
  intro f l g before admitted h i
  obtain ⟨t, stepped, rfl⟩ := step_member h
  by_cases same : i = l.1
  · subst same
    rw [put_own_self]
    exact kept f l t admitted (frame _ _ _ (before l.1)) stepped
  · rw [put_own_ne same]
    exact before i

end Family

namespace History

variable {α : Type*} {J : List α → α → Prop}

def Justified (J : List α → α → Prop) : List α → Prop
  | [] => True
  | e :: past => J past e ∧ Justified J past

theorem Justified.past {post past : List α} (h : Justified J (post ++ past)) : Justified J past := by
  induction post with
  | nil => exact h
  | cons _ _ ih => exact ih h.2

theorem Justified.split {log post past : List α} {e : α} (h : Justified J log)
    (eq : log = post ++ e :: past) : J past e ∧ Justified J past := by
  subst eq
  exact h.past

theorem Justified.of_mem {log : List α} {e : α} (h : Justified J log) (member : e ∈ log) :
    ∃ post past, log = post ++ e :: past ∧ J past e ∧ Justified J past := by
  obtain ⟨post, past, eq⟩ := List.append_of_mem member
  exact ⟨post, past, eq, h.split eq⟩

end History
