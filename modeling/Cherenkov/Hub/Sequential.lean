import Cherenkov.Hub.Index
import Cherenkov.Hub.Ownership

/-! When every call of the hub is complete before the next one starts, the registry, the sessions'
maps, the reverse index and the forwarder tasks tell one story, whatever the kinds, the broker and
the plugins answer. Forwarders and transports still move at any time. -/

namespace Cherenkov

variable {κ β τ ε : Type}

/-- Calls do not overlap, and there are identifiers left for every session that is opened. -/
structure Sequential (s : State κ β τ) (l : Label ε) : Prop where
  alone : ∀ r, l = .start r → ∀ n, s.calls n = none
  room : ∀ n env now capacity, l = .advance n env now →
    s.calls n = some (.openSession capacity) → s.shared.nextRef < 2 ^ 64

def State.Single (s : State κ β τ) : Prop :=
  ∀ n m c d, s.calls n = some c → s.calls m = some d → n = m

section Single

variable {H : Hub κ β τ ε} {s t : State κ β τ} {l : Label ε}

theorem step_single (sequential : Sequential s l) (single : s.Single) (h : H.step s l = some t) :
    t.Single := by
  cases Hub.stepped h with
  | start r =>
      have own : ∀ m d, Function.update s.calls s.nextCall (some r.entry) m = some d →
          m = s.nextCall := by
        intro m d found
        rw [Function.update_apply] at found
        split at found
        · assumption
        · rw [sequential.alone r rfl m] at found
          cases found
      intro n m c d first second
      exact (own n c first).trans (own m d second).symm
  | advance at_ acts =>
      intro n m c d first second
      rcases after_call first with ⟨rfl, -⟩ | ⟨-, old⟩
      · rcases after_call second with ⟨rfl, -⟩ | ⟨-, older⟩
        · rfl
        · exact single n m _ d at_ older
      · rcases after_call second with ⟨rfl, -⟩ | ⟨-, older⟩
        · exact single n m c _ old at_
        · exact single n m c d old older
  | forward task moves => exact single
  | transport quiet sheds => exact single

theorem Sequential.apart (single : s.Single) (sequential : Sequential s l) : IndexApart s l := by
  refine ⟨?_, ?_, sequential.room⟩
  · intro r i start _ m c called
    rw [sequential.alone r start m] at called
    cases called
  · intro n env now a ref cursor _ at_ m b r other
    cases single n m _ _ at_ other
    cases at_.symm.trans other

theorem run_apart {kinds : Nat → κ} {broker : β}
    (run : H.machine.Run Sequential (State.initial kinds broker) s) :
    H.machine.Run IndexApart (State.initial kinds broker) s := by
  refine run.relax (I := State.Single) ?_ (fun _ _ _ single ok h => step_single ok single h)
    fun _ _ single ok => ok.apart single
  intro n m c d found
  cases found

end Single

/-- An empty list in the reverse index is about to be removed. -/
def State.Trimmed (s : State κ β τ) : Prop :=
  ∀ channel, s.shared.registry.channels.get channel = some [] →
    ∃ n a ref, s.calls n = some (.unsubscribeReap a ref) ∧ a.channel = channel

section Trimmed

variable {H : Hub κ β τ ε} {s t : State κ β τ} {c : Call τ}

theorem without_ne_nil (id : Nat) (ids : List Nat) : SessionRegistry.without id ids ≠ some [] := by
  simp only [SessionRegistry.without]
  split
  · intro same
    cases same
  · next filled =>
      intro empty
      rw [Option.some.inj empty] at filled
      exact filled rfl

/-- How a list of the index comes to be empty. -/
theorem registryAfter_empty {x : Shared κ β τ} {channel : String}
    (h : (x.registryAfter c).channels.get channel = some []) :
    (x.registry.channels.get channel = some [] ∧
        ∀ a ref, c = .unsubscribeReap a ref → a.channel ≠ channel) ∨
      ∃ a ref, c = .unsubscribeScrub a ref ∧ a.channel = channel ∧
        (x.registry.scrubChannel a.sessionId a.channel).2 = true := by
  cases c with
  | subscribeIndex a ref cursor =>
      simp only [Shared.registryAfter, SessionRegistry.addSubscription, DashMap.get_put] at h
      split at h
      · simp at h
      · exact .inl ⟨h, by rintro _ _ ⟨⟩⟩
  | unsubscribeScrub a ref =>
      simp only [Shared.registryAfter] at h
      cases found : x.registry.channels.get a.channel with
      | none =>
          simp only [SessionRegistry.scrubChannel, found] at h
          exact .inl ⟨h, by rintro _ _ ⟨⟩⟩
      | some ids =>
          simp only [SessionRegistry.scrubChannel, found, DashMap.get_put] at h
          split at h
          · next same =>
              refine .inr ⟨a, ref, rfl, same.symm, ?_⟩
              simp only [SessionRegistry.scrubChannel, found]
              rw [Option.some.inj h]
              rfl
          · exact .inl ⟨h, by rintro _ _ ⟨⟩⟩
  | unsubscribeReap a ref =>
      simp only [Shared.registryAfter, SessionRegistry.removeChannel, DashMap.get_remove] at h
      split at h
      · cases h
      · next other =>
          refine .inl ⟨h, ?_⟩
          rintro a' ref' ⟨⟩ same
          exact other same.symm
  | deregisterScrub who id ref =>
      simp only [Shared.registryAfter, SessionRegistry.scrub, DashMap.get_retain] at h
      obtain ⟨ids, -, empty⟩ := Option.bind_eq_some_iff.mp h
      exact absurd empty (without_ne_nil id ids)
  | deregister who id =>
      simp only [Shared.registryAfter] at h
      split at h <;> exact .inl ⟨h, by rintro _ _ ⟨⟩⟩
  | _ => exact .inl ⟨h, by rintro _ _ ⟨⟩⟩

theorem step_trimmed {l : Label ε} (staged : s.Staged) (g : s.Trimmed)
    (h : H.step s l = some t) : t.Trimmed := by
  cases Hub.stepped h with
  | start r =>
      intro channel empty
      obtain ⟨n, a, ref, reaping, same⟩ := g channel empty
      have older : n ≠ s.nextCall := Nat.ne_of_lt (staged.calls n _ reaping)
      exact ⟨n, a, ref, (Function.update_of_ne older ..).trans reaping, same⟩
  | @advance n env now c o at_ acts =>
      intro channel empty
      rw [after_registry acts] at empty
      rcases registryAfter_empty empty with ⟨old, kept⟩ | ⟨a, ref, rfl, same, verdict⟩
      · obtain ⟨m, a, ref, reaping, same⟩ := g channel old
        have other : m ≠ n := by
          rintro rfl
          exact kept a ref (Option.some.inj (at_.symm.trans reaping)) same
        exact ⟨m, a, ref, (Function.update_of_ne other ..).trans reaping, same⟩
      · refine ⟨n, a, ref, ?_, same⟩
        cases acts
        simp [Shared.goto, verdict]
  | forward task moves =>
      have frame := (Hub.forwarded moves).frame task
      intro channel empty
      rw [frame.registry] at empty
      exact g channel empty
  | transport quiet sheds =>
      intro channel empty
      rw [quiet.registry] at empty
      exact g channel empty

end Trimmed

/-- Identifiers belong to one session each and are never used again, the reverse index is the
sessions' maps read the other way round and has no empty list, and the forwarders of
registered sessions that were not aborted are those the maps hold. -/
structure State.Coherent (s : State κ β τ) : Prop where
  ids : s.shared.registry.ids.Nodup
  own : ∀ i ref, s.shared.registry.get i = some ref → (s.shared.heap ref).id = i
  fresh : ∀ r r', r < s.shared.nextRef → r' < s.shared.nextRef →
    (s.shared.heap r).id = (s.shared.heap r').id → r = r'
  index : s.IndexExact
  filled : ∀ channel, s.shared.registry.channels.get channel ≠ some []
  forwarders : ∀ f w, s.shared.forwarders f = some w → w.aborted = false →
    s.shared.registry.get (s.shared.heap w.session).id = some w.session →
    (s.shared.heap w.session).subscriptions.get w.channel = some f

theorem sequential_coherent {H : Hub κ β τ ε} {kinds : Nat → κ} {broker : β} {s : State κ β τ}
    (run : H.machine.Run Sequential (State.initial kinds broker) s)
    (silent : ∀ n, s.calls n = none) : s.Coherent := by
  have apart := run_apart run
  have addressed := run_addressed run
  have indexed := (run_indexed apart).1
  obtain ⟨owned, trimmed⟩ := run.invariant (I := fun s => s.Owned ∧ s.Trimmed)
    ⟨initial_owned kinds broker, fun _ empty => (by cases empty)⟩
    fun _ _ _ g _ h => ⟨step_owned g.1 h, step_trimmed g.1.staged g.2 h⟩
  refine ⟨s.shared.registry.sessions.nodupKeys, fun i ref found => (addressed.registry i ref found).2,
    ?_, indexed.exact addressed silent, ?_, ?_⟩
  · intro r r' known known' same
    rw [indexed.ids r known, indexed.ids r' known'] at same
    exact same
  · intro channel empty
    obtain ⟨n, a, ref, reaping, -⟩ := trimmed channel empty
    rw [silent n] at reaping
    cases reaping
  · intro f w found running _
    exact owned.sheltered.stored silent found running

def sequential (s : State κ β τ) : Label ε → Bool
  | .start _ => idle s
  | .advance n _ _ =>
      match s.calls n with
      | some (.openSession _) => decide (s.shared.nextRef < 2 ^ 64)
      | _ => true
  | _ => true

theorem sequential_sound (s : State κ β τ) (l : Label ε) (staged : s.Staged)
    (h : sequential s l = true) : Sequential s l := by
  refine ⟨?_, ?_⟩
  · rintro r rfl
    exact idle_sound staged h
  · rintro n env now capacity rfl at_
    simpa [sequential, at_] using h

/-- Two sessions subscribe, the first one twice, and the second one is kicked. -/
def refusedAndKicked : List (Label Unit) :=
  Request.steps (.openSession 16) 0 5 ++ Request.steps (.openSession 16) 1 5 ++
    Request.steps (.subscribe ⟨0, 7, "rooms.lobby", 0⟩) 2 9 ++
    Request.steps (.subscribe ⟨1, 7, "rooms.lobby", 0⟩) 3 9 ++
    Request.steps (.subscribe ⟨0, 8, "rooms.lobby", 0⟩) 4 4 ++ Request.steps (.kick 1) 5 8

theorem sequential_coherent_kicked :
    ∃ s, defaults.hub.machine.Run Sequential defaults.boot s ∧ (∀ n, s.calls n = none) ∧
      .returned 4 (.error (.alreadySubscribed 0 "rooms.lobby")) ∈ s.log ∧
      .returned 5 (.ok (.kicked true)) ∈ s.log ∧
      s.shared.registry.subscribersOf "rooms.lobby" = [0] ∧ s.Coherent := by
  obtain ⟨s, run, silent, refused, kicked, listed⟩ := Machine.execWithin_witness
    (M := defaults.hub.machine) (s := defaults.boot) sequential_sound
    (fun _ _ _ staged _ h => step_staged staged h) (initial_staged _ _) refusedAndKicked
    (fun s => idle s = true ∧ .returned 4 (.error (.alreadySubscribed 0 "rooms.lobby")) ∈ s.log ∧
      .returned 5 (.ok (.kicked true)) ∈ s.log ∧
      s.shared.registry.subscribersOf "rooms.lobby" = [0]) (by decide +kernel)
  have none_ := idle_sound (run_staged run) silent
  exact ⟨s, run, none_, refused, kicked, listed, sequential_coherent run none_⟩

end Cherenkov
