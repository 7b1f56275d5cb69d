import Mathlib.Algebra.Ring.Nat
import Mathlib.Data.List.Basic

/-! A subject is a list of tokens. In a pattern one token stands for any single token, and another,
at the end, for one token or more. A pattern without either covers itself only; any other also
covers the subject that has an ordinary token in each such place. -/

structure Wildcards (α : Type*) where
  one : α
  rest : α

namespace Wildcards

variable {α : Type*} [DecidableEq α] (w : Wildcards α)

def covers : List α → List α → Bool
  | [], subject => subject.isEmpty
  | _ :: _, [] => false
  | p :: ps, t :: ts =>
      decide (p = w.rest ∧ ps = []) || (decide (p = w.one ∨ p = t) && covers ps ts)

/-- The token, followed by these, is a wildcard. -/
def Special (p : α) (ps : List α) : Prop := p = w.one ∨ p = w.rest ∧ ps = []

instance (p : α) (ps : List α) : Decidable (w.Special p ps) :=
  inferInstanceAs (Decidable (_ ∨ _))

def wild : List α → Bool
  | [] => false
  | p :: ps => decide (w.Special p ps) || wild ps

/-- An instance of the pattern, with `x` for each wildcard. -/
def fill (x : α) : List α → List α
  | [] => []
  | p :: ps => (if w.Special p ps then x else p) :: fill x ps

variable {w} {x : α} {pattern subject : List α}

theorem covers_self (pattern : List α) : w.covers pattern pattern = true := by
  induction pattern with
  | nil => rfl
  | cons p ps ih => simp [covers, ih]

theorem covers_eq (plain : w.wild pattern = false) (h : w.covers pattern subject = true) :
    subject = pattern := by
  induction pattern generalizing subject with
  | nil =>
      cases subject with
      | nil => rfl
      | cons t ts => cases h
  | cons p ps ih =>
      simp only [wild, Bool.or_eq_false_iff, decide_eq_false_iff_not] at plain
      cases subject with
      | nil => cases h
      | cons t ts =>
          simp only [covers, Bool.or_eq_true, Bool.and_eq_true, decide_eq_true_eq] at h
          rcases h with final | ⟨one | same, tail⟩
          · exact absurd (.inr final) plain.1
          · exact absurd (.inl one) plain.1
          · rw [same, ih plain.2 tail]

theorem covers_fill (x : α) (pattern : List α) : w.covers pattern (w.fill x pattern) = true := by
  induction pattern with
  | nil => rfl
  | cons p ps ih =>
      simp only [fill, covers, Bool.or_eq_true, Bool.and_eq_true, decide_eq_true_eq]
      by_cases special : w.Special p ps
      · rcases special with one | final
        · exact .inr ⟨.inl one, ih⟩
        · exact .inl final
      · refine .inr ⟨.inr ?_, ih⟩
        rw [if_neg special]

theorem fill_ne (one : x ≠ w.one) (rest : x ≠ w.rest) (h : w.wild pattern = true) :
    w.fill x pattern ≠ pattern := by
  induction pattern with
  | nil => cases h
  | cons p ps ih =>
      simp only [wild, Bool.or_eq_true, decide_eq_true_eq] at h
      intro same
      simp only [fill, List.cons.injEq] at same
      rcases h with special | later
      · rw [if_pos special] at same
        rcases special with here | ⟨here, _⟩
        · exact one (same.1.trans here)
        · exact rest (same.1.trans here)
      · exact ih later same.2

theorem mem_fill {t : α} (h : t ∈ w.fill x pattern) : t = x ∨ t ∈ pattern := by
  induction pattern with
  | nil => cases h
  | cons p ps ih =>
      rcases List.mem_cons.mp h with here | later
      · rw [here]
        split
        · exact .inl rfl
        · exact .inr (List.mem_cons_self ..)
      · exact (ih later).imp_right (List.mem_cons_of_mem _)

theorem map_fill {β : Type*} (g : α → β) (one : g w.one = g x) (rest : g w.rest = g x)
    (pattern : List α) : (w.fill x pattern).map g = pattern.map g := by
  induction pattern with
  | nil => rfl
  | cons p ps ih =>
      simp only [fill, List.map_cons, ih]
      split
      · next special =>
          rcases special with rfl | ⟨rfl, _⟩
          · rw [one]
          · rw [rest]
      · rfl

end Wildcards

theorem not_mem_of_mem_splitOn {α : Type*} [BEq α] [LawfulBEq α] {a : α} {xs part : List α}
    (h : part ∈ xs.splitOn a) : a ∉ part := by
  induction xs generalizing part with
  | nil =>
      cases List.mem_singleton.mp h
      exact List.not_mem_nil
  | cons x xs ih =>
      rw [List.splitOn, List.splitOnP_cons_eq_if_modifyHead] at h
      split at h
      · rcases List.mem_cons.mp h with rfl | later
        · exact List.not_mem_nil
        · exact ih later
      · next other =>
          change part ∈ List.modifyHead (List.cons x) (xs.splitOn a) at h
          cases split_ : xs.splitOn a with
          | nil => exact absurd split_ (List.splitOn_ne_nil a xs)
          | cons first later =>
              rw [split_, List.modifyHead_cons] at h
              rcases List.mem_cons.mp h with rfl | member
              · intro inside
                rcases List.mem_cons.mp inside with rfl | deeper
                · simp at other
                · exact ih (by rw [split_]; exact List.mem_cons_self ..) deeper
              · exact ih (by rw [split_]; exact List.mem_cons_of_mem _ member)

/-- The weight of joined parts depends on the weights of the parts only. -/
theorem sum_intercalate {α : Type*} (f : α → Nat) (sep : List α) {parts parts' : List (List α)}
    (same : parts.map (fun t => (t.map f).sum) = parts'.map fun t => (t.map f).sum) :
    ((sep.intercalate parts).map f).sum = ((sep.intercalate parts').map f).sum := by
  induction parts generalizing parts' with
  | nil =>
      cases parts' with
      | nil => rfl
      | cons t ts => cases same
  | cons t ts ih =>
      cases parts' with
      | nil => cases same
      | cons t' ts' =>
          simp only [List.map_cons, List.cons.injEq] at same
          cases ts with
          | nil =>
              cases ts' with
              | nil => simpa using same.1
              | cons u us => cases same.2
          | cons u us =>
              cases ts' with
              | nil => cases same.2
              | cons u' us' =>
                  simp only [List.intercalate_cons_cons, List.map_append, List.sum_append, same.1,
                    ih same.2]
