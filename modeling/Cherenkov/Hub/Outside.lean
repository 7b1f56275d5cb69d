import Cherenkov.Hub.Identity

/-! Whoever holds a call of the hub as a future may drop it, and whoever holds the registry may take
references to sessions. Neither is a step of a call. -/

namespace Cherenkov

variable {κ β τ ε : Type}

theorem roomy_of_still {l : Label ε} (still : ∀ n env now, l ≠ .advance n env now)
    (s : State κ β τ) : Roomy s l := by
  intro n env now capacity same
  exact absurd same (still n env now)

/-- What a change from outside leaves as it was. No call is made or moved, and no forwarder is
started. -/
structure Outside (s t : State κ β τ) : Prop where
  registry : t.shared.registry = s.shared.registry
  nextRef : t.shared.nextRef = s.shared.nextRef
  id : ∀ ref, (t.shared.heap ref).id = (s.shared.heap ref).id
  forwarder : ∀ f w', t.shared.forwarders f = some w' →
    ∃ w, s.shared.forwarders f = some w ∧ (w' = w ∨ w' = w.abort)
  calls : ∀ m c, t.calls m = some c → s.calls m = some c
  nextCall : t.nextCall = s.nextCall
  log : t.log = s.log

namespace Outside

variable {s t : State κ β τ}

theorem refl (s : State κ β τ) : Outside s s :=
  ⟨rfl, rfl, fun _ => rfl, fun _ w' found => ⟨w', found, .inl rfl⟩,
    fun _ _ called => called, rfl, rfl⟩

theorem ended (g : Outside s t) {m : Nat} (idle : s.calls m = none) : t.calls m = none := by
  cases found : t.calls m with
  | none => rfl
  | some c => cases idle.symm.trans (g.calls m c found)

theorem unspawned (g : Outside s t) {f : Nat} (free : s.shared.forwarders f = none) :
    t.shared.forwarders f = none := by
  cases found : t.shared.forwarders f with
  | none => rfl
  | some w' =>
      obtain ⟨w, older, -⟩ := g.forwarder f w' found
      cases free.symm.trans older

theorem session (g : Outside s t) {f : Nat} {w' : Forwarder τ}
    (found : t.shared.forwarders f = some w') :
    ∃ w, s.shared.forwarders f = some w ∧ w'.session = w.session := by
  obtain ⟨w, older, rfl | rfl⟩ := g.forwarder f w' found
  · exact ⟨w', older, rfl⟩
  · exact ⟨w, older, rfl⟩

theorem staged (g : Outside s t) (staged : s.Staged) : t.Staged := by
  constructor
  · intro m c found
    rw [g.nextCall]
    exact staged.calls m c (g.calls m c found)
  · intro f w' found
    obtain ⟨w, older, -⟩ := g.session found
    rw [g.nextCall]
    exact staged.forwarders f w older
  · rw [g.log, g.nextCall]
    exact staged.heard
  · intro m c found stage
    exact g.unspawned (staged.unspawned m c (g.calls m c found) stage)
  · intro m c found
    rw [g.log]
    exact staged.silent m c (g.calls m c found)
  · intro m c found
    rw [g.log]
    exact staged.undelivered m c (g.calls m c found)
  · intro m result
    rw [g.log, g.nextCall]
    intro member
    obtain ⟨known, ended⟩ := staged.returned m result member
    exact ⟨known, g.ended ended⟩
  · rw [g.log]
    exact staged.opened

theorem born (g : Outside s t) {ref : Nat} (born : s.Born ref) : t.Born ref := by
  refine ⟨?_, ?_⟩
  · rw [g.nextRef]
    exact born.known
  · intro m found
    exact born.entered m (g.calls m _ found)

theorem gone (g : Outside s t) {ref : Nat} (gone : s.Gone ref) : t.Gone ref := by
  have born := g.born ⟨gone.known, gone.unborn⟩
  refine ⟨born.known, ?_, born.entered⟩
  rw [g.registry]
  exact gone.unregistered

theorem addressed (g : Outside s t) (addressed : s.Addressed) : t.Addressed := by
  constructor
  · intro id ref
    rw [g.registry, g.nextRef, g.id]
    exact addressed.registry id ref
  · intro m c found
    rw [g.nextRef]
    exact addressed.held m c (g.calls m c found)
  · intro m c id ref found
    rw [g.id]
    exact addressed.address m c id ref (g.calls m c found)
  · intro f w' found
    obtain ⟨w, older, same⟩ := g.session found
    rw [g.nextRef, same]
    exact addressed.forwarders f w older

theorem nascent (g : Outside s t) (nascent : s.Nascent) : t.Nascent := by
  constructor
  · intro m ref k c opening found
    exact nascent.held m ref k c (g.calls m _ opening) (g.calls k c found)
  · intro m ref id opening
    rw [g.registry]
    exact nascent.registry m ref id (g.calls m _ opening)
  · intro m ref f w' opening found
    obtain ⟨w, older, same⟩ := g.session found
    rw [same]
    exact nascent.forwarders m ref f w (g.calls m _ opening) older

theorem known (g : Outside s t) (known : s.Known) : t.Known := by
  refine ⟨g.staged known.staged, g.addressed known.addressed, g.nascent known.nascent, ?_, ?_⟩
  · constructor
    · intro ref
      rw [g.nextRef, g.id]
      exact known.identified.ids ref
    · rw [g.registry, g.nextRef]
      exact known.identified.counter
  · constructor
    · intro m ref
      rw [g.log]
      intro member
      exact g.born (known.recorded.opened m ref member)
    · intro m ref
      rw [g.log, g.nextCall]
      intro member
      obtain ⟨called, gone⟩ := known.recorded.removed m ref member
      exact ⟨called, g.gone gone⟩

end Outside
end Cherenkov
