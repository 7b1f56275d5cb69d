import Mathlib.Data.List.AList
import Mathlib.Logic.Function.Basic

/-! A sharded map is modelled by its abstract content, a finite map with unique keys. Every
operation below is one call made under one lock, so each is one atomic step of whatever machine uses
it. An iterator locks one shard after another, so what it collects was never the content of the map
at any one moment. What can be said is that it collects nothing twice, that whatever it collects was
there when its shard was read, and that it does not miss what is there all along. A table assigns
something or nothing to each number below its size. The entries that pass a test are counted.
Writing one entry and adding one at the end change the count by that entry alone. -/

/-- Finite content of a sharded map; the underlying list carries key uniqueness. -/
abbrev DashMap (κ ν : Type*) := AList fun _ : κ => ν

namespace DashMap

variable {κ ν : Type*} [DecidableEq κ]

def get (m : DashMap κ ν) (k : κ) : Option ν := AList.lookup k m

def put (m : DashMap κ ν) (k : κ) (v : ν) : DashMap κ ν := AList.insert k v m

def remove (m : DashMap κ ν) (k : κ) : DashMap κ ν := AList.erase k m

def containsKey (m : DashMap κ ν) (k : κ) : Bool := (m.get k).isSome

def len (m : DashMap κ ν) : Nat := m.entries.length

def values (m : DashMap κ ν) : List ν := m.entries.map Sigma.snd

omit [DecidableEq κ] in
def visit (f : κ → ν → Option ν) (e : Sigma fun _ : κ => ν) : Option (Sigma fun _ : κ => ν) :=
  (f e.1 e.2).map fun v => ⟨e.1, v⟩

omit [DecidableEq κ] in
theorem keys_visit_sublist (f : κ → ν → Option ν) (l : List (Sigma fun _ : κ => ν)) :
    (l.filterMap (visit f)).keys.Sublist l.keys := by
  induction l with
  | nil => exact List.Sublist.slnil
  | cons e l ih =>
      cases kept : f e.1 e.2 with
      | none => simpa [List.filterMap_cons, visit, kept] using ih.cons e.1
      | some v => simpa [List.filterMap_cons, visit, kept] using ih

omit [DecidableEq κ] in
/-- Visit every entry once, rewriting the values kept and dropping the others. -/
def retain (f : κ → ν → Option ν) (m : DashMap κ ν) : DashMap κ ν where
  entries := m.entries.filterMap (visit f)
  nodupKeys := List.Nodup.sublist (keys_visit_sublist f m.entries) m.nodupKeys

@[simp] theorem get_empty (k : κ) : get (∅ : DashMap κ ν) k = none := AList.lookup_empty k

@[simp] theorem get_put_self (m : DashMap κ ν) (k : κ) (v : ν) : (m.put k v).get k = some v :=
  AList.lookup_insert m

theorem get_put_ne (m : DashMap κ ν) {j k : κ} (v : ν) (h : j ≠ k) :
    (m.put k v).get j = m.get j := AList.lookup_insert_ne h

theorem get_put (m : DashMap κ ν) (j k : κ) (v : ν) :
    (m.put k v).get j = if j = k then some v else m.get j := by
  split
  · next same => rw [same, get_put_self]
  · next other => exact get_put_ne m v other

@[simp] theorem get_remove_self (m : DashMap κ ν) (k : κ) : (m.remove k).get k = none :=
  AList.lookup_erase k m

theorem get_remove_ne (m : DashMap κ ν) {j k : κ} (h : j ≠ k) :
    (m.remove k).get j = m.get j := AList.lookup_erase_ne h

theorem get_remove (m : DashMap κ ν) (j k : κ) :
    (m.remove k).get j = if j = k then none else m.get j := by
  split
  · next same => rw [same, get_remove_self]
  · next other => exact get_remove_ne m other

theorem dlookup_visit (f : κ → ν → Option ν) (k : κ) {l : List (Sigma fun _ : κ => ν)}
    (nodup : l.NodupKeys) :
    (List.dlookup k (l.filterMap (visit f)) : Option ν) = (List.dlookup k l).bind (f k) := by
  induction l with
  | nil => rfl
  | cons e l ih =>
      obtain ⟨j, v⟩ := e
      obtain ⟨fresh, rest⟩ := List.nodupKeys_cons.mp nodup
      by_cases same : k = j
      · subst same
        cases kept : f k v with
        | none =>
            have absent : List.dlookup k l = none := List.dlookup_eq_none.mpr fresh
            simp [visit, kept, ih rest, absent]
        | some w => simp [visit, kept]
      · cases kept : f j v with
        | none =>
            simp [visit, kept, ih rest, List.dlookup_cons_ne l ⟨j, v⟩ same]
        | some w =>
            simp [visit, kept, ih rest, List.dlookup_cons_ne _ ⟨j, _⟩ same]

/-- A pass over the map acts on each key independently. -/
@[simp] theorem get_retain (f : κ → ν → Option ν) (m : DashMap κ ν) (k : κ) :
    (m.retain f).get k = (m.get k).bind (f k) := dlookup_visit f k m.nodupKeys

theorem mem_values {m : DashMap κ ν} {v : ν} : v ∈ m.values ↔ ∃ k, m.get k = some v := by
  simp only [values, List.mem_map]
  constructor
  · rintro ⟨e, member, rfl⟩
    exact ⟨e.1, AList.mem_lookup_iff.mpr member⟩
  · rintro ⟨k, found⟩
    exact ⟨⟨k, v⟩, AList.mem_lookup_iff.mp found, rfl⟩

omit [DecidableEq κ] in
theorem len_eq (m : DashMap κ ν) : m.len = m.keys.length := by
  simp [len, AList.keys, List.keys]

theorem len_put_new {m : DashMap κ ν} {k : κ} (absent : m.get k = none) (v : ν) :
    (m.put k v).len = m.len + 1 := by
  have outside : k ∉ m.keys := AList.lookup_eq_none.mp absent
  rw [len_eq, len_eq, put, AList.keys_insert, List.erase_of_not_mem outside, List.length_cons]

theorem len_remove {m : DashMap κ ν} {k : κ} {v : ν} (found : m.get k = some v) :
    (m.remove k).len + 1 = m.len := by
  have member : k ∈ m.keys := AList.lookup_isSome.mp (Option.isSome_iff_exists.mpr ⟨v, found⟩)
  rw [len_eq, len_eq, remove, AList.keys_erase]
  exact List.length_erase_add_one member

end DashMap

namespace Scan

variable {α : Type*} {shard : α → Nat} {i : Nat} {found keys : List α}
  {seen seen' always always' : α → Prop}

/-- The shards below `i` have been read. -/
structure Covers (shard : α → Nat) (i : Nat) (found : List α) (seen always : α → Prop) : Prop where
  nodup : found.Nodup
  below : ∀ a ∈ found, shard a < i
  seen : ∀ a ∈ found, seen a
  whole : ∀ a, always a → shard a < i → a ∈ found

theorem Covers.nil : Covers shard 0 [] seen always :=
  ⟨List.nodup_nil, nofun, nofun, fun _ _ low => absurd low (Nat.not_lt_zero _)⟩

/-- Time passes: more may have been seen, and less has been there all along. -/
theorem Covers.mono (g : Covers shard i found seen always) (more : ∀ a, seen a → seen' a)
    (fewer : ∀ a, always' a → always a) : Covers shard i found seen' always' :=
  ⟨g.nodup, g.below, fun a member => more a (g.seen a member),
    fun a there low => g.whole a (fewer a there) low⟩

theorem Covers.read (g : Covers shard i found seen always) (nodup : keys.Nodup)
    (there : ∀ a ∈ keys, seen a) (all : ∀ a, always a → a ∈ keys) :
    Covers shard (i + 1) (found ++ keys.filter fun a => shard a = i) seen always := by
  constructor
  · refine List.nodup_append.mpr ⟨g.nodup, nodup.filter _, ?_⟩
    intro a before b now same
    have low := g.below a before
    have here : shard b = i := by simpa using (List.mem_filter.mp now).2
    rw [same] at low
    omega
  · intro a member
    rcases List.mem_append.mp member with before | now
    · exact Nat.lt_succ_of_lt (g.below a before)
    · have here : shard a = i := by simpa using (List.mem_filter.mp now).2
      rw [here]
      exact Nat.lt_succ_self i
  · intro a member
    rcases List.mem_append.mp member with before | now
    · exact g.seen a before
    · exact there a (List.mem_filter.mp now).1
  · intro a present low
    apply List.mem_append.mpr
    rcases Nat.lt_succ_iff_lt_or_eq.mp low with before | here
    · exact .inl (g.whole a present before)
    · exact .inr (List.mem_filter.mpr ⟨all a present, by simpa using here⟩)

/-- What the iteration yields. -/
structure Whole (found : List α) (seen always : α → Prop) : Prop where
  nodup : found.Nodup
  seen : ∀ a ∈ found, seen a
  whole : ∀ a, always a → a ∈ found

theorem Covers.all (g : Covers shard i found seen always) (bound : ∀ a, shard a < i) :
    Whole found seen always :=
  ⟨g.nodup, g.seen, fun a there => g.whole a there (bound a)⟩

theorem Whole.mono (g : Whole found seen always) (more : ∀ a, seen a → seen' a)
    (fewer : ∀ a, always' a → always a) : Whole found seen' always' :=
  ⟨g.nodup, fun a member => more a (g.seen a member), fun a there => g.whole a (fewer a there)⟩

theorem Whole.perm (g : Whole found seen always) (same : found.Perm keys) :
    Whole keys seen always :=
  ⟨same.nodup_iff.mp g.nodup, fun a member => g.seen a (same.mem_iff.mpr member),
    fun a there => same.mem_iff.mp (g.whole a there)⟩

end Scan

section Tally

variable {α : Type*}

/-- How many of the first `k` entries of the table pass the test. -/
def tally (f : Nat → Option α) (k : Nat) (p : α → Bool) : Nat :=
  (List.range k).countP fun n => (f n).any p

theorem tally_succ (f : Nat → Option α) (k : Nat) (p : α → Bool) :
    tally f (k + 1) p = tally f k p + ((f k).any p).toNat := by
  simp only [tally, List.range_succ, List.countP_append, List.countP_singleton]
  cases (f k).any p <;> rfl

theorem tally_update_ge (f : Nat → Option α) (v : Option α) (p : α → Bool) {n k : Nat}
    (beyond : k ≤ n) : tally (Function.update f n v) k p = tally f k p := by
  refine List.countP_congr fun m member => ?_
  have below : m < n := Nat.lt_of_lt_of_le (List.mem_range.mp member) beyond
  rw [Function.update_of_ne (Nat.ne_of_lt below)]

theorem tally_push (f : Nat → Option α) (v : Option α) (k : Nat) (p : α → Bool) :
    tally (Function.update f k v) (k + 1) p = tally f k p + (v.any p).toNat := by
  rw [tally_succ, tally_update_ge f v p (Nat.le_refl k), Function.update_self]

theorem tally_update (f : Nat → Option α) (v : Option α) (p : α → Bool) {n k : Nat}
    (known : n < k) :
    tally (Function.update f n v) k p + ((f n).any p).toNat =
      tally f k p + (v.any p).toNat := by
  induction k with
  | zero => exact absurd known (Nat.not_lt_zero n)
  | succ k ih =>
      rw [tally_succ f]
      by_cases last : n = k
      · subst last
        rw [tally_push]
        omega
      · have earlier := ih (by omega)
        rw [tally_succ, Function.update_of_ne (Ne.symm last)]
        omega

theorem tally_eq_zero {f : Nat → Option α} {p : α → Bool}
    (none_ : ∀ n a, f n = some a → p a = false) (k : Nat) : tally f k p = 0 := by
  refine List.countP_eq_zero.mpr fun n _ => ?_
  cases found : f n with
  | none => simp
  | some a => simp [none_ n a found]

end Tally
