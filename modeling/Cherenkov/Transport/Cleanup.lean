import Cherenkov.Hub.Identity
import Cherenkov.Transport.Sse

/-! Whichever branch a subscribe request takes, a `close_session` of its session runs before the
request is over, unless the request is dropped. That call clears the registry and the reverse index,
provided that a kick which is faster also scrubs the index first and that no subscribe call enters
the session afterwards. -/

namespace Cherenkov

variable {κ β τ ε : Type}

/-- The session has left the registry, and nobody is about to scrub the index for it. -/
structure State.Cleared (s : State κ β τ) (ref : Nat) : Prop where
  gone : s.Gone ref
  scrubbed : ∀ n who r, s.calls n ≠ some (.deregisterScrub who ref r)

/-- Call `n` closes the session, or has nothing left to clear. -/
def State.Closes (s : State κ β τ) (n ref : Nat) : Prop :=
  s.calls n = some (.deregister .close ref) ∨ s.calls n = some (.deregisterScrub .close ref ref) ∨
    s.Cleared ref

/-- Whoever scrubs the index is the one that removed the session. -/
structure State.Scrubs (s : State κ β τ) : Prop where
  gone : ∀ n who id ref, s.calls n = some (.deregisterScrub who id ref) → s.Gone id
  sole : ∀ n m who who' id ref ref', s.calls n = some (.deregisterScrub who id ref) →
    s.calls m = some (.deregisterScrub who' id ref') → n = m

section Hub

variable {H : Hub κ β τ ε} {s t : State κ β τ} {l : Label ε}

theorem step_scrub (known : s.Known) (h : H.step s l = some t) {n id ref : Nat} {who : Closing}
    (scrubs : t.calls n = some (.deregisterScrub who id ref)) :
    s.calls n = some (.deregisterScrub who id ref) ∨ (∃ env now, l = .advance n env now) ∧
      s.shared.registry.get id = some id ∧ t.Gone id := by
  rcases step_call h scrubs with old | ⟨r, -, -, entry⟩ | ⟨env, now, c, rfl, at_, goes⟩
  · exact .inl old
  · cases r <;> cases entry
  · cases goes with
    | removed who id found =>
        obtain ⟨c, o, called, acts, rfl⟩ := Hub.step_advance h
        cases at_.symm.trans called
        have own := known.identified.registered known.addressed found
        have gone := removed_gone known.addressed known.nascent acts found
        rw [own] at found gone
        exact .inr ⟨⟨env, now, rfl⟩, found, gone⟩

theorem step_scrubs (known : s.Known) (g : s.Scrubs) (h : H.step s l = some t) : t.Scrubs := by
  constructor
  · intro n who id ref scrubs
    rcases step_scrub known h scrubs with old | ⟨-, -, gone⟩
    · exact step_gone (g.gone n who id ref old) h
    · exact gone
  · intro n m who who' id ref ref' first second
    rcases step_scrub known h first with old | ⟨⟨env, now, rfl⟩, found, -⟩ <;>
      rcases step_scrub known h second with old' | ⟨⟨env', now', same⟩, found', -⟩
    · exact g.sole n m who who' id ref ref' old old'
    · exact absurd found' ((g.gone n who id ref old).unregistered id)
    · exact absurd found ((g.gone m who' id ref' old').unregistered id)
    · cases same
      rfl

theorem step_cleared (known : s.Known) {ref : Nat} (cleared : s.Cleared ref)
    (h : H.step s l = some t) : t.Cleared ref := by
  refine ⟨step_gone cleared.gone h, ?_⟩
  intro n who r scrubs
  rcases step_scrub known h scrubs with old | ⟨-, found, -⟩
  · exact cleared.scrubbed n who r old
  · exact cleared.gone.unregistered ref found

theorem State.Known.gone (known : s.Known) {ref : Nat} (born : s.Born ref)
    (absent : s.shared.registry.get ref = none) : s.Gone ref := by
  refine ⟨born.known, ?_, born.entered⟩
  intro id found
  cases known.identified.registered known.addressed found
  cases absent.symm.trans found

/-- The scrub of a close clears the session: nobody else is about to do it. -/
theorem scrub_clears (known : s.Known) (scrubs : s.Scrubs) {n : Nat} {env : ε} {now ref : Nat}
    (scrubbing : s.calls n = some (.deregisterScrub .close ref ref))
    (h : H.step s (.advance n env now) = some t) : t.Cleared ref := by
  have gone := scrubs.gone n _ _ _ scrubbing
  refine ⟨step_gone gone h, ?_⟩
  intro m who r pending
  rcases step_scrub known h pending with old | ⟨-, found, -⟩
  · cases scrubs.sole n m _ _ _ _ _ scrubbing old
    obtain ⟨c, o, at_, acts, rfl⟩ := Hub.step_advance h
    cases scrubbing.symm.trans at_
    cases acts
    rw [after_calls, Function.update_self] at pending
    cases pending
  · exact gone.unregistered ref found

/-- Every step keeps a close going, if one that finds nothing is not ahead of the scrub. -/
theorem step_closes (known : s.Known) (scrubs : s.Scrubs) {n ref : Nat} (born : s.Born ref)
    (settled : (∃ env now, l = .advance n env now) →
      s.calls n = some (.deregister .close ref) → s.shared.registry.get ref = none →
      ∀ m who r, s.calls m ≠ some (.deregisterScrub who ref r))
    (closes : s.Closes n ref) (h : H.step s l = some t) : t.Closes n ref := by
  by_cases own : ∃ env now, l = .advance n env now
  · obtain ⟨env, now, rfl⟩ := own
    rcases closes with entered | scrubbing | cleared
    · cases found : s.shared.registry.get ref with
      | none =>
          have cleared : s.Cleared ref :=
            ⟨known.gone born found, settled ⟨env, now, rfl⟩ entered found⟩
          exact .inr (.inr (step_cleared known cleared h))
      | some r =>
          cases known.identified.registered known.addressed found
          obtain ⟨c, o, at_, acts, rfl⟩ := Hub.step_advance h
          cases entered.symm.trans at_
          simp only [Hub.act, found, Option.some.injEq] at acts
          subst acts
          refine .inr (.inl ?_)
          rw [after_calls, Function.update_self]
          rfl
    · exact .inr (.inr (scrub_clears known scrubs scrubbing h))
    · exact .inr (.inr (step_cleared known cleared h))
  · have others : ∀ env now, l ≠ .advance n env now := fun env now same => own ⟨env, now, same⟩
    rcases closes with entered | scrubbing | cleared
    · exact .inl (step_call_kept known.staged entered others h)
    · exact .inr (.inl (step_call_kept known.staged scrubbing others h))
    · exact .inr (.inr (step_cleared known cleared h))

theorem State.Cleared.unlisted (known : s.Known) (current : s.Current) {ref : Nat}
    (cleared : s.Cleared ref) (channel : String) :
    ref ∉ s.shared.registry.subscribersOf channel := by
  intro listed
  rcases current ref channel listed with found | ⟨m, who, r, pending⟩
  · obtain ⟨r, registered⟩ := Option.ne_none_iff_exists'.mp found
    cases known.identified.registered known.addressed registered
    exact cleared.gone.unregistered _ registered
  · exact cleared.scrubbed m who r pending

end Hub

def Label.quiet : Label ε → Bool
  | .start _ | .advance .. | .forward .. => false
  | _ => true

theorem exec_started {H : Hub κ β τ ε} {s t : State κ β τ} {before : List (Label ε)} {r : Request}
    (quiet : ∀ l ∈ before, l.quiet = true)
    (h : H.machine.exec s (before ++ [.start r]) = some t) : t.calls s.nextCall = some r.entry := by
  induction before generalizing s with
  | nil =>
      cases h
      exact Function.update_self ..
  | cons l before ih =>
      obtain ⟨u, stepped, rest⟩ := Option.bind_eq_some_iff.mp h
      have first := quiet l (List.mem_cons_self ..)
      have later := ih (fun l' member => quiet l' (List.mem_cons_of_mem _ member)) rest
      cases Hub.stepped (H := H) (l := l) stepped with
      | transport moved sheds => exact later
      | _ => cases first

def SseStage.closing : SseStage → Option Nat
  | .refusing call _ | .ending call => some call
  | _ => none

/-- No request is dropped, identifiers are left, sessions are entered in the index while they
are registered or about to be scrubbed, and a request whose `close_session` comes second finds
the index scrubbed. -/
structure Completes (s : SseNet κ β τ) (l : SseLabel ε) : Prop where
  stays : ∀ c, l ≠ .drop c
  room : ∀ l', l = .hub l' → Roomy s.hub l'
  enters : ∀ l', l = .hub l' → EntersPresent s.hub l'
  settled : ∀ n env now c x id, l = .hub (.advance n env now) →
    s.subscribers c = some (.serving x) → x.stage.closing = some n →
    s.hub.calls n = some (.deregister .close id) → s.hub.shared.registry.get id = none →
    ∀ m who r, s.hub.calls m ≠ some (.deregisterScrub who id r)

structure SseNet.Tidy (s : SseNet κ β τ) : Prop where
  known : s.hub.Known
  current : s.hub.Current
  scrubs : s.hub.Scrubs
  born : ∀ c x, s.subscribers c = some (.serving x) → s.hub.Born x.session
  closes : ∀ c x n, s.subscribers c = some (.serving x) → x.stage.closing = some n →
    s.hub.Closes n x.session
  cleared : ∀ c x how, s.subscribers c = some (.serving x) → x.stage = .finished how →
    s.hub.Cleared x.session

section Steps

variable {S : Sse κ β τ ε} {s : SseNet κ β τ} {hub : State κ β τ} {c : Nat}

theorem hub_tidy {l : Label ε} (g : s.Tidy) (completes : Completes s (.hub l))
    (h : S.hub.step s.hub l = some hub) : ({ s with hub } : SseNet κ β τ).Tidy := by
  constructor
  · exact step_known g.known (completes.room l rfl) h
  · exact step_current g.known.staged (completes.enters l rfl) g.current h
  · exact step_scrubs g.known g.scrubs h
  · intro c x found
    exact step_born (g.born c x found) h
  · intro c x n found closing
    refine step_closes g.known g.scrubs (g.born c x found) ?_ (g.closes c x n found closing) h
    rintro ⟨env, now, rfl⟩ entered absent
    exact completes.settled n env now c x x.session rfl found closing entered absent
  · intro c x how found finished
    exact step_cleared g.known (g.cleared c x how found finished) h

theorem completes_of_still {l : Label ε} (still : ∀ n env now, l ≠ .advance n env now) :
    Completes s (.hub l) := by
  constructor
  · intro c
    nofun
  · rintro l' ⟨⟩ n env now capacity rfl
    exact absurd rfl (still n env now)
  · rintro l' ⟨⟩ n env now a ref cursor rfl
    exact absurd rfl (still n env now)
  · rintro n env now c x id ⟨⟩
    exact absurd rfl (still n env now)

theorem exec_tidy {ls : List (Label ε)} (g : s.Tidy)
    (still : ∀ l ∈ ls, ∀ n env now, l ≠ .advance n env now)
    (h : S.hub.machine.exec s.hub ls = some hub) : ({ s with hub } : SseNet κ β τ).Tidy := by
  refine Machine.exec_invariant (I := fun hub => ({ s with hub } : SseNet κ β τ).Tidy) ?_ g still h
  intro before l after tidy still stepped
  exact hub_tidy (s := { s with hub := before }) tidy (completes_of_still still) stepped

theorem SseNet.Tidy.put {x : Exchange} (g : s.Tidy) (born : s.hub.Born x.session)
    (closes : ∀ n, x.stage.closing = some n → s.hub.Closes n x.session)
    (cleared : ∀ how, x.stage = .finished how → s.hub.Cleared x.session) :
    ({ s with subscribers := Function.update s.subscribers c (some (.serving x)) } :
      SseNet κ β τ).Tidy := by
  refine ⟨g.known, g.current, g.scrubs, ?_, ?_, ?_⟩
  · intro i y found
    simp only [Function.update_apply] at found
    split at found
    · cases found
      exact born
    · exact g.born i y found
  · intro i y n found closing
    simp only [Function.update_apply] at found
    split at found
    · cases found
      exact closes n closing
    · exact g.closes i y n found closing
  · intro i y how found finished
    simp only [Function.update_apply] at found
    split at found
    · cases found
      exact cleared how finished
    · exact g.cleared i y how found finished

/-- What a move does to the cleaning up: nothing yet, its start or its end. -/
inductive Sse.Moves (s : State κ β τ) (x : Exchange) : List (Label ε) → Exchange → Prop
  | goesOn {ls : List (Label ε)} {x' : Exchange}
      (still : ∀ l ∈ ls, ∀ n env now, l ≠ .advance n env now) (session : x'.session = x.session)
      (busy : x'.stage.closing = none) (unfinished : ∀ how, x'.stage ≠ .finished how) :
      Moves s x ls x'
  | closes (before : List (Label ε)) {x' : Exchange} (quiet : ∀ l ∈ before, l.quiet = true)
      (session : x'.session = x.session) (closing : x'.stage.closing = some s.nextCall)
      (unfinished : ∀ how, x'.stage ≠ .finished how) :
      Moves s x (before ++ [.start (.close (s.shared.heap x.session).id)]) x'
  | finishes {ls : List (Label ε)} {x' : Exchange} {call : Nat}
      {result : Except HubError Response} (closing : x.stage.closing = some call)
      (answer : s.answer call = some result)
      (still : ∀ l ∈ ls, ∀ n env now, l ≠ .advance n env now) (session : x'.session = x.session)
      (busy : x'.stage.closing = none) : Moves s x ls x'

section Plan

variable {s : State κ β τ} {x x' : Exchange} {ls : List (Label ε)}

theorem subscribeFrom_moves (i : Nat) (h : Sse.subscribeFrom s x i = (ls, x')) :
    Sse.Moves s x ls x' := by
  simp only [Sse.subscribeFrom] at h
  split at h <;> cases h
  · exact .goesOn (by simp) rfl rfl nofun
  · exact .goesOn (by simp) rfl rfl nofun

theorem refuse_moves (response : HttpResponse) (h : Sse.refuse s x response = (ls, x')) :
    Sse.Moves s x ls x' := by
  cases h
  exact .closes [] nofun rfl rfl nofun

theorem conclude_moves (h : Sse.conclude s c x = (ls, x')) : Sse.Moves s x ls x' := by
  cases h
  refine .closes [.unlisten x.session c, .hangUp x.session] ?_ rfl rfl nofun
  simp [Label.quiet]

theorem answered_moves {call next : Nat} (h : Sse.answered s x call next = some (ls, x')) :
    Sse.Moves s x ls x' := by
  simp only [Sse.answered] at h
  split at h
  · cases h
  · exact subscribeFrom_moves next (Option.some.inj h)
  · exact refuse_moves _ (Option.some.inj h)

theorem plan_moves {move : SseMove} (h : S.plan s c x move = some (ls, x')) :
    Sse.Moves s x ls x' := by
  cases move with
  | opened => cases h
  | authorize =>
      simp only [Sse.plan] at h
      split at h
      · have decided := Option.some.inj h
        simp only [Sse.authorize] at decided
        split at decided
        · cases decided
          exact .goesOn (by simp) rfl rfl nofun
        · split at decided
          · exact subscribeFrom_moves 0 decided
          · exact refuse_moves _ decided
      · cases h
  | connected | subscribed =>
      simp only [Sse.plan] at h
      split at h
      · exact answered_moves h
      · cases h
  | refused =>
      simp only [Sse.plan] at h
      split at h
      · next call response stage =>
          split at h <;> cases h
          next answer => exact .finishes (by rw [stage]; rfl) answer (by simp) rfl rfl
      · cases h
  | poll =>
      simp only [Sse.plan] at h
      split at h <;> cases h
      exact .goesOn (by simp) rfl rfl nofun
  | shutdown =>
      simp only [Sse.plan] at h
      (repeat' split at h) <;> cases h
      exact conclude_moves rfl
  | receive =>
      simp only [Sse.plan] at h
      (repeat' split at h) <;> cases h
      next stage queue pending =>
        exact .goesOn (by simp) rfl (by rw [stage]; rfl) (by rw [stage]; nofun)
  | exhausted =>
      simp only [Sse.plan] at h
      (repeat' split at h) <;> cases h
      exact conclude_moves rfl
  | closed =>
      simp only [Sse.plan] at h
      split at h
      · next call stage =>
          split at h <;> cases h
          next answer => exact .finishes (by rw [stage]; rfl) answer nofun rfl rfl
      · cases h

end Plan

/-- The close of a request has cleared the session when it returns. -/
theorem closed_cleared (g : s.Tidy) {x : Exchange} {call : Nat} {result : Except HubError Response}
    (found : s.subscribers c = some (.serving x)) (closing : x.stage.closing = some call)
    (answer : s.hub.answer call = some result) : s.hub.Cleared x.session := by
  have ended := (g.known.staged.returned call result (answer_logged answer)).2
  rcases g.closes c x call found closing with entered | scrubbing | cleared
  · cases ended.symm.trans entered
  · cases ended.symm.trans scrubbing
  · exact cleared

theorem moves_tidy (g : s.Tidy) {x x' : Exchange} {ls : List (Label ε)}
    (found : s.subscribers c = some (.serving x)) (moves : Sse.Moves s.hub x ls x')
    (h : S.hub.machine.exec s.hub ls = some hub) :
    ({ s with hub, subscribers := Function.update s.subscribers c (some (.serving x')) } :
      SseNet κ β τ).Tidy := by
  have born := g.born c x found
  cases moves with
  | goesOn still session busy unfinished =>
      refine exec_tidy (s := { s with
        subscribers := Function.update s.subscribers c (some (.serving x')) }) ?_ still h
      refine g.put (session ▸ born) ?_ ?_
      · intro n closing
        cases busy.symm.trans closing
      · intro how finished
        exact absurd finished (unfinished how)
  | closes before quiet session closing unfinished =>
      have next := exec_tidy (s := s) g ?_ h
      · refine next.put (session ▸ next.born c x found) ?_ ?_
        · intro n same
          cases closing.symm.trans same
          have started := exec_started quiet h
          rw [g.known.identified.ids _ born.known] at started
          rw [session]
          exact .inl started
        · intro how finished
          exact absurd finished (unfinished how)
      · intro l member
        rcases List.mem_append.mp member with earlier | last
        · rintro n env now rfl
          cases quiet _ earlier
        · cases List.mem_singleton.mp last
          nofun
  | finishes closing answer still session busy =>
      refine exec_tidy (s := { s with
        subscribers := Function.update s.subscribers c (some (.serving x')) }) ?_ still h
      refine g.put (session ▸ born) ?_ ?_
      · intro n closing
        cases busy.symm.trans closing
      · intro how finished
        rw [session]
        exact closed_cleared g found closing answer

theorem move_tidy (g : s.Tidy) {move : SseMove} {t : SseNet κ β τ}
    (h : S.step s (.move c move) = some t) : t.Tidy := by
  obtain ⟨⟨ls, x'⟩, planned, carried⟩ := Option.bind_eq_some_iff.mp h
  obtain ⟨sub, found, moved⟩ := Option.bind_eq_some_iff.mp planned
  obtain ⟨hub, ran, rfl⟩ := Option.map_eq_some_iff.mp carried
  cases sub with
  | rejected response => cases moved
  | opening query call =>
      simp only [Sse.movePlanned] at moved
      split at moved <;> cases moved
      next ref answer =>
        cases ran
        refine g.put ?_ nofun nofun
        exact g.known.recorded.opened call ref (answer_logged answer)
  | serving x => exact moves_tidy g found (plan_moves moved) ran

theorem SseNet.Tidy.enter {sub : Subscriber} (g : s.Tidy) (idle : ∀ x, sub ≠ .serving x)
    (k : Nat) :
    (⟨s.hub, Function.update s.subscribers c (some sub), k⟩ : SseNet κ β τ).Tidy := by
  have older : ∀ i x, Function.update s.subscribers c (some sub) i = some (.serving x) →
      s.subscribers i = some (.serving x) := by
    intro i x found
    simp only [Function.update_apply] at found
    split at found
    · exact absurd (Option.some.inj found) (idle x)
    · exact found
  refine ⟨g.known, g.current, g.scrubs, ?_, ?_, ?_⟩
  · intro i x found
    exact g.born i x (older i x found)
  · intro i x n found
    exact g.closes i x n (older i x found)
  · intro i x how found
    exact g.cleared i x how (older i x found)

theorem request_tidy (g : s.Tidy) {query : SubscribeQuery} {t : SseNet κ β τ}
    (h : S.step s (.request query) = some t) : t.Tidy := by
  simp only [Sse.step] at h
  split at h
  · cases h
    refine g.enter ?_ _
    rintro x ⟨⟩
  · obtain ⟨hub, stepped, rfl⟩ := Option.map_eq_some_iff.mp h
    have next := hub_tidy g (completes_of_still nofun) stepped
    refine next.enter ?_ _
    rintro x ⟨⟩

theorem step_tidy (g : s.Tidy) {l : SseLabel ε} (completes : Completes s l) {t : SseNet κ β τ}
    (h : S.step s l = some t) : t.Tidy := by
  cases l with
  | hub l =>
      obtain ⟨hub, stepped, rfl⟩ := Option.map_eq_some_iff.mp h
      exact hub_tidy g completes stepped
  | request query => exact request_tidy g h
  | move c move => exact move_tidy g h
  | drop c => exact absurd rfl (completes.stays c)

theorem boot_tidy (kinds : Nat → κ) (broker : β) :
    (Sse.boot (State.initial kinds broker) : SseNet κ β τ).Tidy := by
  constructor
  · exact initial_known kinds broker
  · intro i channel listed
    cases listed
  · constructor
    · intro n who id ref called
      cases called
    · intro n m who who' id ref ref' called
      cases called
  · intro c x found
    cases found
  · intro c x n found
    cases found
  · intro c x how found
    cases found

/-- In every run in which requests are not dropped, the session of a request that is over is
neither registered nor listed. -/
theorem finished_request_cleared {kinds : Nat → κ} {broker : β}
    (run : S.machine.Run Completes (Sse.boot (State.initial kinds broker)) s) {x : Exchange}
    {how : Ending} (here : s.subscribers c = some (.serving x)) (finished : x.stage = .finished how) :
    s.hub.shared.registry.get (s.hub.shared.heap x.session).id = none ∧
      (∀ id, s.hub.shared.registry.get id ≠ some x.session) ∧
      ∀ channel, (s.hub.shared.heap x.session).id ∉
        s.hub.shared.registry.subscribersOf channel := by
  have g := run.invariant (boot_tidy kinds broker) fun _ _ _ g completes h =>
    step_tidy g completes h
  have cleared := g.cleared c x how here finished
  rw [g.known.identified.ids _ cleared.gone.known]
  refine ⟨?_, cleared.gone.unregistered, fun channel => cleared.unlisted g.known g.current channel⟩
  cases found : s.hub.shared.registry.get x.session with
  | none => rfl
  | some ref =>
      cases g.known.identified.registered g.known.addressed found
      exact absurd found (cleared.gone.unregistered _)

end Steps

def completes (s : SseNet κ β τ) : SseLabel ε → Bool
  | .drop _ => false
  | .hub (.advance n env now) =>
      entersPresent s.hub (.advance n env now) &&
        match s.hub.calls n with
        | some (.openSession _) => decide (s.hub.shared.nextRef < 2 ^ 64)
        | some (.deregister .close id) =>
            (s.hub.shared.registry.get id).isSome || (List.range s.hub.nextCall).all fun m =>
              match s.hub.calls m with
              | some (.deregisterScrub _ id' _) => id' != id
              | _ => true
        | _ => true
  | _ => true

theorem completes_sound (s : SseNet κ β τ) (l : SseLabel ε) (g : s.Tidy)
    (h : completes s l = true) : Completes s l := by
  cases l with
  | hub l =>
      cases l with
      | advance n env now =>
          obtain ⟨present, rest⟩ := Bool.and_eq_true_iff.mp h
          constructor
          · intro c
            nofun
          · rintro l' ⟨⟩ n' env' now' capacity ⟨⟩ called
            simpa [called] using rest
          · rintro l' ⟨⟩
            exact entersPresent_sound s.hub _ g.known.staged present
          · rintro n' env' now' c x id ⟨⟩ found closing called absent m who r scrubs
            simp only [called, absent, Option.isSome_none, Bool.false_or, List.all_eq_true,
              List.mem_range] at rest
            have other := rest m (g.known.staged.calls m _ scrubs)
            simp [scrubs] at other
      | _ => exact completes_of_still nofun
  | drop c => cases h
  | request query | move c move =>
      constructor
      · intro c
        nofun
      · rintro l' ⟨⟩
      · rintro l' ⟨⟩
      · rintro n env now c x id ⟨⟩

/-- The transport over a hub with the default settings; the schedules below send no event. -/
def eventStreams : Sse PubSubChannel MemoryBroker MemoryStream Unit where
  hub := defaults.hub
  quote := fun text => "\"" ++ text ++ "\""
  base64 := fun _ => ""

/-- A request for the lobby and `more` gets as far as the end of its first subscribe call. -/
def lobbyRequested (more : List String) : List (SseLabel Unit) :=
  [.request ⟨"rooms.lobby" :: more, none⟩] ++ List.replicate 5 (.hub (.advance 0 () 0)) ++
    [.move 0 .opened, .move 0 .authorize] ++ List.replicate 9 (.hub (.advance 1 () 0)) ++
    [.move 0 .subscribed]

/-- The second channel is the first one again: the request is refused. -/
def requestRefused : List (SseLabel Unit) :=
  lobbyRequested ["rooms.lobby"] ++ List.replicate 4 (.hub (.advance 2 () 0)) ++
    [.move 0 .subscribed] ++ List.replicate 6 (.hub (.advance 3 () 0)) ++ [.move 0 .refused]

/-- The client goes away while the stream is waiting. -/
def streamDropped : List (SseLabel Unit) := lobbyRequested [] ++ [.move 0 .poll, .drop 0]

/-- The client goes away while the access control is asked about the second channel. -/
def handlerDropped : List (SseLabel Unit) :=
  lobbyRequested ["rooms.hall"] ++ List.replicate 2 (.hub (.advance 2 () 0)) ++ [.drop 0]

def Subscriber.ended (how : Ending) : Subscriber → Bool
  | .serving x => x.stage == .finished how && x.session == 0
  | _ => false

theorem Subscriber.of_ended {sub : Option Subscriber} {how : Ending}
    (h : sub.any (Subscriber.ended how) = true) :
    ∃ x, sub = some (.serving x) ∧ x.stage = .finished how ∧ x.session = 0 := by
  obtain ⟨sub, rfl, ended⟩ := (Option.any_eq_true _ _).mp h
  cases sub with
  | serving x =>
      simp only [Subscriber.ended, Bool.and_eq_true, beq_iff_eq] at ended
      exact ⟨x, rfl, ended⟩
  | _ => cases ended

theorem finished_request_cleared_refused :
    ∃ s x, eventStreams.machine.Run Completes (Sse.boot defaults.boot) s ∧
      s.subscribers 0 = some (.serving x) ∧
      x.stage = .finished (.refused ⟨500, "session 0 is already subscribed to `rooms.lobby`"⟩) ∧
      s.hub.shared.registry.get (s.hub.shared.heap x.session).id = none ∧
      ∀ channel, (s.hub.shared.heap x.session).id ∉
        s.hub.shared.registry.subscribersOf channel := by
  obtain ⟨s, run, ended⟩ := Machine.execWithin_witness
    (M := eventStreams.machine) (s := Sse.boot defaults.boot) completes_sound
    (fun _ _ _ g ok h => step_tidy g ok h) (boot_tidy _ _) requestRefused
    (fun s => (s.subscribers 0).any (Subscriber.ended
      (.refused ⟨500, "session 0 is already subscribed to `rooms.lobby`"⟩)) = true)
    (by decide +kernel)
  obtain ⟨x, here, finished, -⟩ := Subscriber.of_ended ended
  obtain ⟨absent, -, unlisted⟩ := finished_request_cleared run here finished
  exact ⟨s, x, run, here, finished, absent, unlisted⟩

/-- The request has been dropped and no call is in flight; its session is registered and listed. -/
def Outlives (schedule : List (SseLabel Unit)) : Prop :=
  ∃ s x, eventStreams.machine.exec (Sse.boot defaults.boot) schedule = some s ∧
    s.subscribers 0 = some (.serving x) ∧ x.stage = .finished .dropped ∧ idle s.hub = true ∧
    s.hub.shared.registry.get (s.hub.shared.heap x.session).id = some x.session ∧
    (s.hub.shared.heap x.session).id ∈ s.hub.shared.registry.subscribersOf "rooms.lobby"

theorem outlives_of_exec (schedule : List (SseLabel Unit))
    (h : (eventStreams.machine.exec (Sse.boot defaults.boot) schedule).any (fun s => decide
      ((s.subscribers 0).any (Subscriber.ended .dropped) = true ∧ idle s.hub = true ∧
        s.hub.shared.registry.get (s.hub.shared.heap 0).id = some 0 ∧
        (s.hub.shared.heap 0).id ∈ s.hub.shared.registry.subscribersOf "rooms.lobby")) = true) :
    Outlives schedule := by
  obtain ⟨s, ran, -, ended, silent, registered, listed⟩ := Machine.exec_witness
    (M := eventStreams.machine) schedule _ h
  obtain ⟨x, here, finished, session⟩ := Subscriber.of_ended ended
  refine ⟨s, x, ran, here, finished, silent, ?_, ?_⟩
  · rwa [session]
  · rwa [session]

theorem dropped_request_outlived : Outlives streamDropped ∧ Outlives handlerDropped :=
  ⟨outlives_of_exec streamDropped (by decide +kernel),
    outlives_of_exec handlerDropped (by decide +kernel)⟩

end Cherenkov
