import Mathlib.Data.List.Forall2
import Mathlib.Logic.Function.Basic

/-! An ordered list of rules, of which the first that applies is asked; if none applies, a default
holds. A box of messages, of which the first that passes a test is taken out and those before it are
dropped. -/

variable {α β : Type*}

/-- The first rule that applies is good, or none applies and the default holds. -/
def FirstMatch (applies good : α → Prop) (otherwise : Prop) (rules : List α) : Prop :=
  (∃ earlier rule later, rules = earlier ++ rule :: later ∧ (∀ r ∈ earlier, ¬applies r) ∧
    applies rule ∧ good rule) ∨ (∀ r ∈ rules, ¬applies r) ∧ otherwise

namespace FirstMatch

variable {applies good : α → Prop} {otherwise : Prop} {rule : α} {rules : List α}

theorem nil_iff : FirstMatch applies good otherwise [] ↔ otherwise := by
  constructor
  · rintro (⟨earlier, rule, later, split, -⟩ | ⟨-, holds⟩)
    · cases earlier <;> cases split
    · exact holds
  · intro holds
    exact .inr ⟨nofun, holds⟩

theorem cons_of_applies (first : applies rule) :
    FirstMatch applies good otherwise (rule :: rules) ↔ good rule := by
  constructor
  · rintro (⟨earlier, chosen, later, split, passed, -, fine⟩ | ⟨none_, -⟩)
    · cases earlier with
      | nil =>
          cases split
          exact fine
      | cons r earlier =>
          cases split
          exact absurd first (passed rule List.mem_cons_self)
    · exact absurd first (none_ rule List.mem_cons_self)
  · intro fine
    exact .inl ⟨[], rule, rules, rfl, nofun, first, fine⟩

theorem cons_of_passed (passed : ¬applies rule) :
    FirstMatch applies good otherwise (rule :: rules) ↔
      FirstMatch applies good otherwise rules := by
  constructor
  · rintro (⟨earlier, chosen, later, split, before, applied, fine⟩ | ⟨none_, holds⟩)
    · cases earlier with
      | nil =>
          cases split
          exact absurd applied passed
      | cons r earlier =>
          cases split
          exact .inl ⟨earlier, chosen, later, rfl,
            fun r member => before r (List.mem_cons_of_mem _ member), applied, fine⟩
    · exact .inr ⟨fun r member => none_ r (List.mem_cons_of_mem _ member), holds⟩
  · rintro (⟨earlier, chosen, later, rfl, before, applied, fine⟩ | ⟨none_, holds⟩)
    · refine .inl ⟨rule :: earlier, chosen, later, rfl, ?_, applied, fine⟩
      intro r member
      rcases List.mem_cons.mp member with rfl | inside
      · exact passed
      · exact before r inside
    · refine .inr ⟨?_, holds⟩
      intro r member
      rcases List.mem_cons.mp member with rfl | inside
      · exact passed
      · exact none_ r inside

theorem append_congr {first second : List α}
    (same : FirstMatch applies good otherwise first ↔ FirstMatch applies good otherwise second)
    (earlier : List α) :
    FirstMatch applies good otherwise (earlier ++ first) ↔
      FirstMatch applies good otherwise (earlier ++ second) := by
  induction earlier with
  | nil => exact same
  | cons r earlier ih =>
      simp only [List.cons_append]
      by_cases first : applies r
      · rw [cons_of_applies first, cons_of_applies first]
      · rw [cons_of_passed first, cons_of_passed first, ih]

theorem forall₂_congr {applies' good' : β → Prop} {others : List β}
    (paired : List.Forall₂ (fun a b => (applies a ↔ applies' b) ∧ (good a ↔ good' b)) rules others) :
    FirstMatch applies good otherwise rules ↔ FirstMatch applies' good' otherwise others := by
  induction paired with
  | nil => rw [nil_iff, nil_iff]
  | @cons a b _ _ same _ ih =>
      by_cases first : applies a
      · rw [cons_of_applies first, cons_of_applies (same.1.mp first), same.2]
      · rw [cons_of_passed first, cons_of_passed (fun second => first (same.1.mpr second)), ih]

theorem find?_iff {p : α → Bool} (rules : List α) :
    ((rules.find? p).elim otherwise good) ↔
      FirstMatch (fun r => p r = true) good otherwise rules := by
  induction rules with
  | nil => exact nil_iff.symm
  | cons r rules ih =>
      by_cases first : p r = true
      · rw [List.find?_cons_of_pos first]
        exact Iff.symm (cons_of_applies first)
      · rw [List.find?_cons_of_neg first]
        exact ih.trans (Iff.symm (cons_of_passed first))

end FirstMatch

section FirstPassing

/-- What the test makes of the first element that passes it, and the elements after that one. -/
def firstPassing (test : α → Option β) : List α → Option (β × List α)
  | [] => none
  | a :: later =>
      match test a with
      | some b => some (b, later)
      | none => firstPassing test later

theorem firstPassing_some {test : α → Option β} {box later : List α} {b : β}
    (h : firstPassing test box = some (b, later)) :
    (∃ a ∈ box, test a = some b) ∧ later ⊆ box := by
  induction box with
  | nil => cases h
  | cons a rest ih =>
      simp only [firstPassing] at h
      split at h
      · next passes =>
          cases h
          exact ⟨⟨a, List.mem_cons_self, passes⟩, List.subset_cons_self _ _⟩
      · obtain ⟨⟨a', member, passes⟩, kept⟩ := ih h
        exact ⟨⟨a', List.mem_cons_of_mem _ member, passes⟩, List.subset_cons_of_subset _ kept⟩

/-- A box that is replaced by a part of itself gains nothing. -/
theorem mem_of_mem_update {ι : Type*} [DecidableEq ι] {boxes : ι → List α} {i j : ι}
    {part : List α} {a : α} (kept : part ⊆ boxes i)
    (member : a ∈ Function.update boxes i part j) : a ∈ boxes j := by
  by_cases same : j = i
  · subst same
    rw [Function.update_self] at member
    exact kept member
  · rwa [Function.update_of_ne same] at member

end FirstPassing
