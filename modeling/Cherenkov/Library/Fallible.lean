import Mathlib.Data.List.Forall2

/-! A check either passes or ends the computation with its error. What a computation has checked is
read off from the fact that it returned. -/

namespace Fallible

universe u

variable {ε : Type*} {α β : Type u}

def require (condition : Prop) [Decidable condition] (error : ε) : Except ε Unit :=
  if condition then .ok () else .error error

theorem bind_eq_ok {first : Except ε α} {next : α → Except ε β} {result : β} :
    first >>= next = .ok result ↔ ∃ value, first = .ok value ∧ next value = .ok result := by
  cases first with
  | error e =>
      constructor
      · rintro ⟨⟩
      · rintro ⟨_, ⟨⟩, _⟩
  | ok value =>
      constructor
      · intro returned
        exact ⟨value, rfl, returned⟩
      · rintro ⟨_, ⟨⟩, returned⟩
        exact returned

theorem require_eq_ok {condition : Prop} [Decidable condition] {error : ε} {u : Unit} :
    require condition error = .ok u ↔ condition := by
  unfold require
  split
  · next passed => simp [passed]
  · next refused => simp [refused]

theorem mapError_eq_ok {ε' : Type*} {f : ε → ε'} {x : Except ε α} {value : α} :
    x.mapError f = .ok value ↔ x = .ok value := by
  cases x <;> simp [Except.mapError]

theorem toOption_eq_some {x : Except ε α} {value : α} :
    x.toOption = some value ↔ x = .ok value := by
  cases x <;> simp [Except.toOption]

theorem forM_eq_ok {l : List α} {check : α → Except ε PUnit} {u : PUnit} :
    forM l check = .ok u ↔ ∀ a ∈ l, check a = .ok () := by
  induction l with
  | nil => simp [pure, Except.pure]
  | cons a rest ih =>
      rw [List.forM_cons, bind_eq_ok, List.forall_mem_cons, ← ih]
      constructor
      · rintro ⟨_, passed, others⟩
        exact ⟨passed, others⟩
      · rintro ⟨passed, others⟩
        exact ⟨_, passed, others⟩

theorem mapM_eq_ok {l : List α} {f : α → Except ε β} {results : List β} :
    l.mapM f = .ok results ↔ List.Forall₂ (fun a b => f a = .ok b) l results := by
  induction l generalizing results with
  | nil =>
      rw [List.mapM_nil, List.forall₂_nil_left_iff]
      exact ⟨fun same => (Except.ok.inj same).symm, fun same => same ▸ rfl⟩
  | cons a rest ih =>
      rw [List.mapM_cons, bind_eq_ok, List.forall₂_cons_left_iff]
      refine exists_congr ?_
      intro b
      rw [bind_eq_ok]
      constructor
      · rintro ⟨first, others, mapped, same⟩
        exact ⟨others, first, ih.mp mapped, (Except.ok.inj same).symm⟩
      · rintro ⟨others, first, mapped, rfl⟩
        exact ⟨first, others, ih.mpr mapped, rfl⟩

theorem exists_mapM_eq_ok {l : List α} {f : α → Except ε β} :
    (∃ results, l.mapM f = .ok results) ↔ ∀ a ∈ l, ∃ b, f a = .ok b := by
  simp only [mapM_eq_ok]
  induction l with
  | nil => exact ⟨fun _ => nofun, fun _ => ⟨[], .nil⟩⟩
  | cons a rest ih =>
      rw [List.forall_mem_cons, ← ih]
      constructor
      · rintro ⟨_, _ | ⟨first, others⟩⟩
        exact ⟨⟨_, first⟩, ⟨_, others⟩⟩
      · rintro ⟨⟨b, first⟩, ⟨results, others⟩⟩
        exact ⟨b :: results, .cons first others⟩

end Fallible
