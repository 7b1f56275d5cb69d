import Cherenkov.Hub.Departure
import Cherenkov.Hub.Stages

/-! Session objects are numbered in the order in which they are made, and their identifiers are the
same numbers as long as the 64-bit counter has not wrapped. Under that condition a registered
identifier, the object it leads to and the call that opened it determine each other. -/

namespace Cherenkov

variable {κ β τ ε : Type} {H : Hub κ β τ ε} {s t : State κ β τ} {l : Label ε}

/-- There are identifiers left for every session that is opened. -/
def Roomy (s : State κ β τ) (l : Label ε) : Prop :=
  ∀ n env now capacity, l = .advance n env now → s.calls n = some (.openSession capacity) →
    s.shared.nextRef < 2 ^ 64

structure State.Identified (s : State κ β τ) : Prop where
  ids : ∀ ref, ref < s.shared.nextRef → (s.shared.heap ref).id = ref
  counter : s.shared.registry.nextId = s.shared.nextRef % 2 ^ 64

theorem step_identified (g : s.Identified) (room : Roomy s l) (h : H.step s l = some t) :
    t.Identified := by
  cases Hub.stepped h with
  | start r => exact ⟨g.ids, g.counter⟩
  | @advance n env now c o at_ acts =>
      refine ⟨fun ref old => after_id g.ids g.counter ?_ acts old, after_nextId g.counter acts⟩
      rintro capacity rfl
      exact room n env now capacity rfl at_
  | forward task moves =>
      have frame := (Hub.forwarded moves).frame task
      refine ⟨?_, ?_⟩
      · intro ref old
        rw [frame.nextRef] at old
        rw [frame.id]
        exact g.ids ref old
      · rw [frame.registry, frame.nextRef]
        exact g.counter
  | transport quiet sheds =>
      refine ⟨?_, ?_⟩
      · intro ref old
        rw [quiet.nextRef] at old
        rw [quiet.id]
        exact g.ids ref old
      · rw [quiet.registry, quiet.nextRef]
        exact g.counter

theorem initial_identified (kinds : Nat → κ) (broker : β) :
    (State.initial kinds broker : State κ β τ).Identified :=
  ⟨fun _ none_ => absurd none_ (Nat.not_lt_zero _), rfl⟩

theorem State.Identified.registered (g : s.Identified) (addressed : s.Addressed) {id ref : Nat}
    (found : s.shared.registry.get id = some ref) : ref = id := by
  obtain ⟨known, own⟩ := addressed.registry id ref found
  exact (g.ids ref known).symm.trans own

def Call.opened : Call τ → Option Nat
  | .openRegister ref => some ref
  | .count (.opened ref) => some ref
  | .measure (.opened ref) => some ref
  | .gauge (.opened ref) _ => some ref
  | _ => none

def State.Opens (s : State κ β τ) (n ref : Nat) : Prop :=
  (∃ c, s.calls n = some c ∧ c.opened = some ref) ∨ .returned n (.ok (.opened ref)) ∈ s.log

theorem entry_opened (r : Request) : (r.entry : Call τ).opened = none := by
  cases r <;> rfl

/-- Answers that are given only after the metrics have been updated. -/
def Response.metered : Response → Bool
  | .opened _ => true
  | .kicked removed => removed
  | _ => false

theorem act_metered {x : Shared κ β τ} {n m : Nat} {env : ε} {now : Nat} {c : Call τ}
    {o : Outcome κ β τ} {response : Response} (acts : H.act x n env now c = some o)
    (member : .returned m (.ok response) ∈ o.events) (metered : response.metered = true) :
    m = n ∧ ∃ meter len, c = .gauge meter len ∧ meter.response = response := by
  cases c with
  | gauge meter len =>
      cases acts
      cases List.mem_singleton.mp member
      exact ⟨rfl, meter, len, rfl, rfl⟩
  | deregister who id =>
      simp only [Hub.act] at acts
      split at acts
      · cases acts
        cases List.mem_singleton.mp member
        cases who <;> cases metered
      · cases acts
        simp [Outcome.after, Shared.goto] at member
  | subscribeSend a ref cursor stream rest =>
      cases rest <;> simp only [Hub.act] at acts <;> (repeat' split at acts) <;> cases acts <;>
        simp [Outcome.after, Shared.goto] at member
  | _ =>
      simp only [Hub.act] at acts
      (repeat' split at acts) <;> cases acts <;>
        simp [Outcome.after, Shared.goto, Shared.done] at member <;>
        (obtain ⟨-, rfl⟩ := member; cases metered)

theorem step_metered (h : H.step s l = some t) {n : Nat} {response : Response}
    (member : .returned n (.ok response) ∈ t.log) (metered : response.metered = true) :
    .returned n (.ok response) ∈ s.log ∨ ∃ env now meter len, l = .advance n env now ∧
      s.calls n = some (.gauge meter len) ∧ meter.response = response := by
  rcases step_returned h member with old | ⟨env, now, _, rfl, -⟩
  · exact .inl old
  · obtain ⟨c, o, at_, acts, rfl⟩ := Hub.step_advance h
    rw [after_log] at member
    rcases List.mem_append.mp member with new | old
    · obtain ⟨-, meter, len, rfl, same⟩ := act_metered acts new metered
      exact .inr ⟨env, now, meter, len, rfl, at_, same⟩
    · exact .inl old

theorem goes_opened {x : Shared κ β τ} {env : ε} {now : Nat} {c next : Call τ}
    (goes : H.Goes x env now c next) {ref : Nat} (made : next.opened = some ref) :
    c.opened = some ref ∨ ref = x.nextRef := by
  cases goes with
  | allocated capacity => exact .inr (Option.some.inj made).symm
  | registered r => exact .inl made
  | counted m | measured m =>
      cases m with
      | opened r => exact .inl made
      | _ => cases made
  | dropped who id r => cases who <;> cases made
  | _ => cases made

/-- Objects are made by the first step of `open_session` only. -/
theorem step_opens (h : H.step s l = some t) {n ref : Nat} (opens : t.Opens n ref) :
    s.Opens n ref ∨ ref = s.shared.nextRef ∧ ∃ env now, l = .advance n env now := by
  rcases opens with ⟨d, found, made⟩ | logged
  · rcases step_call h found with old | ⟨r, -, -, rfl⟩ | ⟨env, now, c, rfl, at_, goes⟩
    · exact .inl (.inl ⟨d, old, made⟩)
    · rw [entry_opened] at made
      cases made
    · exact (goes_opened goes made).imp (fun mine => .inl ⟨c, at_, mine⟩)
        fun fresh => ⟨fresh, env, now, rfl⟩
  · rcases step_metered h logged rfl with old | ⟨env, now, meter, len, -, at_, response⟩
    · exact .inl (.inr old)
    · refine .inl (.inl ⟨_, at_, ?_⟩)
      cases meter <;> cases response
      rfl

/-- What the history says about objects that were opened and removed. -/
structure State.Recorded (s : State κ β τ) : Prop where
  opened : ∀ n ref, .returned n (.ok (.opened ref)) ∈ s.log → s.Born ref
  removed : ∀ n ref, .removed n ref ∈ s.log → n < s.nextCall ∧ s.Gone ref

theorem opened_born (addressed : s.Addressed) (nascent : s.Nascent) {n ref len : Nat}
    (at_ : s.calls n = some (.gauge (.opened ref) len)) : s.Born ref := by
  have held := List.mem_singleton_self ref
  refine ⟨addressed.held n _ at_ ref held, ?_⟩
  intro m opening
  cases nascent.held m ref n _ opening at_ held
  cases at_.symm.trans opening

theorem step_recorded (staged : s.Staged) (addressed : s.Addressed) (nascent : s.Nascent)
    (g : s.Recorded) (h : H.step s l = some t) : t.Recorded := by
  refine ⟨?_, ?_⟩
  · intro n ref member
    rcases step_metered h member rfl with old | ⟨env, now, meter, len, -, at_, response⟩
    · exact step_born (g.opened n ref old) h
    · cases meter <;> cases response
      exact step_born (opened_born addressed nascent at_) h
  · intro n ref member
    rcases step_removed h member with old | ⟨env, now, who, id, o, rfl, at_, acts, found, rfl⟩
    · obtain ⟨known, gone⟩ := g.removed n ref old
      exact ⟨Nat.lt_of_lt_of_le known (step_nextCall_le h), step_gone gone h⟩
    · refine ⟨?_, removed_gone addressed nascent acts found⟩
      rw [after_nextCall]
      exact staged.calls n _ at_

/-- All of the above, along every run that has identifiers left. -/
structure State.Known (s : State κ β τ) : Prop where
  staged : s.Staged
  addressed : s.Addressed
  nascent : s.Nascent
  identified : s.Identified
  recorded : s.Recorded

theorem step_known (g : s.Known) (room : Roomy s l) (h : H.step s l = some t) : t.Known :=
  ⟨step_staged g.staged h, step_addressed g.addressed h, step_nascent g.addressed g.nascent h,
    step_identified g.identified room h, step_recorded g.staged g.addressed g.nascent g.recorded h⟩

theorem initial_known (kinds : Nat → κ) (broker : β) :
    (State.initial kinds broker : State κ β τ).Known :=
  ⟨initial_staged kinds broker, initial_addressed kinds broker, initial_nascent kinds broker,
    initial_identified kinds broker, fun _ _ => nofun, fun _ _ => nofun⟩

end Cherenkov
