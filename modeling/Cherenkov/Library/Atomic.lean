import Mathlib.Logic.Function.Basic
import Cherenkov.Library.Machine

/-! An object whose operations each take effect at one instant, used by any number of calls. A call
is asked for, settles at one step between that and its answer, and is answered; other operations are
carried out at once. The log is what a client can see: askings and answers in the order in which
they happen. An implementation whose histories are all logs of such an object is linearizable:
whatever its calls do in between, they might as well have happened one at a time, in an order that
respects the order of calls that do not overlap. -/

namespace Atomic

variable {σ ω ρ : Type*}

inductive Call (ω ρ : Type*) where
  | asked (op : ω)
  | settled (op : ω) (answer : ρ)

inductive Event (ω ρ : Type*) where
  | asked (call : Nat) (op : ω)
  | answered (call : Nat) (op : ω) (answer : ρ)
  | instant (op : ω) (answer : ρ)
  deriving DecidableEq

inductive Label (ω : Type*) where
  | ask (op : ω)
  | settle (call : Nat)
  | answer (call : Nat)
  | instant (op : ω)

structure State (σ ω ρ : Type*) where
  object : σ
  calls : Nat → Option (Call ω ρ)
  nextCall : Nat
  log : List (Event ω ρ)

def State.initial (object : σ) : State σ ω ρ := ⟨object, fun _ => none, 0, []⟩

variable (A : σ → ω → σ × ρ)

def step (s : State σ ω ρ) : Label ω → Option (State σ ω ρ)
  | .ask op =>
      some { s with
        calls := Function.update s.calls s.nextCall (some (.asked op))
        nextCall := s.nextCall + 1
        log := .asked s.nextCall op :: s.log }
  | .settle n =>
      match s.calls n with
      | some (.asked op) =>
          let out := A s.object op
          some { s with
            object := out.1
            calls := Function.update s.calls n (some (.settled op out.2)) }
      | _ => none
  | .answer n =>
      match s.calls n with
      | some (.settled op answer) =>
          some { s with
            calls := Function.update s.calls n none
            log := .answered n op answer :: s.log }
      | _ => none
  | .instant op =>
      let out := A s.object op
      some { s with object := out.1, log := .instant op out.2 :: s.log }

def machine : Machine (State σ ω ρ) (Label ω) := ⟨step A⟩

def Reaches (s t : State σ ω ρ) : Prop := (machine A).Run Machine.free s t

variable {A} {s : State σ ω ρ} {n : Nat} {op : ω} {answer : ρ}

theorem ask_reaches (s : State σ ω ρ) (op : ω) : Reaches A s
    { s with
      calls := Function.update s.calls s.nextCall (some (.asked op))
      nextCall := s.nextCall + 1
      log := .asked s.nextCall op :: s.log } :=
  .tail (l := .ask op) (.refl s) trivial rfl

theorem settle_reaches (called : s.calls n = some (.asked op)) : Reaches A s
    { s with
      object := (A s.object op).1
      calls := Function.update s.calls n (some (.settled op (A s.object op).2)) } := by
  apply Machine.Run.tail (l := .settle n) (.refl s) trivial
  simp only [machine, step, called]

theorem answer_reaches (called : s.calls n = some (.settled op answer)) : Reaches A s
    { s with
      calls := Function.update s.calls n none
      log := .answered n op answer :: s.log } := by
  apply Machine.Run.tail (l := .answer n) (.refl s) trivial
  simp only [machine, step, called]

theorem instant_reaches (s : State σ ω ρ) (op : ω) : Reaches A s
    { s with
      object := (A s.object op).1
      log := .instant op (A s.object op).2 :: s.log } :=
  .tail (l := .instant op) (.refl s) trivial rfl

theorem serve_reaches (called : s.calls n = some (.asked op)) : Reaches A s
    { s with
      object := (A s.object op).1
      calls := Function.update s.calls n none
      log := .answered n op (A s.object op).2 :: s.log } := by
  have settled := settle_reaches (A := A) called
  have answered := answer_reaches (A := A) (s :=
    { s with
      object := (A s.object op).1
      calls := Function.update s.calls n (some (.settled op (A s.object op).2)) })
    (Function.update_self ..)
  rw [Function.update_idem] at answered
  exact settled.trans answered

/-- `after` is a call before or after it has settled, with an operation that the object in its
present state does not notice. -/
def Unnoticed (A : σ → ω → σ × ρ) (object : σ) (before after : Option (Call ω ρ)) : Prop :=
  after = before ∨ ∃ op answer, before = some (.asked op) ∧ after = some (.settled op answer) ∧
    A object op = (object, answer)

/-- Any number of calls may settle together if the object notices none of them. -/
theorem settle_unnoticed {calls : Nat → Option (Call ω ρ)}
    (unnoticed : ∀ n, Unnoticed A s.object (s.calls n) (calls n))
    (later : ∀ n, s.nextCall ≤ n → calls n = s.calls n) : Reaches A s { s with calls } := by
  -- the calls below `k` have settled, the others not yet
  have settled : ∀ k, Reaches A s
      { s with calls := fun n => if n < k then calls n else s.calls n } := by
    intro k
    induction k with
    | zero => exact .refl _
    | succ k ih =>
        have next : (fun n => if n < k + 1 then calls n else s.calls n) =
            Function.update (fun n => if n < k then calls n else s.calls n) k (calls k) := by
          funext n
          by_cases own : n = k
          · subst own
            simp
          · have same : n < k + 1 ↔ n < k := by omega
            simp only [Function.update_of_ne own, same]
        rw [next]
        rcases unnoticed k with still | ⟨op, answer, asked, settles, ignored⟩
        · rw [still]
          have idle : Function.update (fun n => if n < k then calls n else s.calls n) k (s.calls k) =
              fun n => if n < k then calls n else s.calls n := by
            funext n
            by_cases own : n = k
            · subst own
              simp
            · rw [Function.update_of_ne own]
          rw [idle]
          exact ih
        · have due : ({ s with calls := fun n => if n < k then calls n else s.calls n } :
              State σ ω ρ).calls k = some (.asked op) := by
            simpa using asked
          have one := settle_reaches (A := A) due
          rw [ignored] at one
          rw [settles]
          exact ih.trans one
  have all : (fun n => if n < s.nextCall then calls n else s.calls n) = calls := by
    funext n
    by_cases below : n < s.nextCall
    · rw [if_pos below]
    · rw [if_neg below, later n (Nat.not_lt.mp below)]
  have done := settled s.nextCall
  rw [all] at done
  exact done

end Atomic

namespace Machine

/-- The machine that also records what an observer sees of each step. -/
def observed {σ ℓ ω : Type*} (M : Machine σ ℓ) (sees : σ → ℓ → List ω) : Machine (σ × List ω) ℓ :=
  ⟨fun s l => (M.step s.1 l).map fun t => (t, sees s.1 l ++ s.2)⟩

/-- A machine implements an atomic object if each of its steps, as far as an observer sees it,
is a run of the object. -/
theorem Run.atomic {σ ℓ τ ω ρ : Type*} {M : Machine σ ℓ} {ok : σ → ℓ → Prop}
    {sees : σ → ℓ → List (Atomic.Event ω ρ)} {A : τ → ω → τ × ρ} {I : σ → Prop}
    {s t : σ × List (Atomic.Event ω ρ)}
    (run : (M.observed sees).Run (fun s l => ok s.1 l) s t) (start : I s.1)
    (view : σ → List (Atomic.Event ω ρ) → Atomic.State τ ω ρ)
    (kept : ∀ s l t, I s → ok s l → M.step s l = some t → I t)
    (steps : ∀ s l t log, I s → ok s l → M.step s l = some t →
      Atomic.Reaches A (view s log) (view t (sees s l ++ log))) :
    I t.1 ∧ Atomic.Reaches A (view s.1 s.2) (view t.1 t.2) := by
  induction run with
  | refl => exact ⟨start, .refl _⟩
  | tail _ admitted stepped ih =>
      obtain ⟨before, reached⟩ := ih
      obtain ⟨u, moved, rfl⟩ := Option.map_eq_some_iff.mp stepped
      exact ⟨kept _ _ _ before admitted moved,
        reached.trans (steps _ _ _ _ before admitted moved)⟩

end Machine
