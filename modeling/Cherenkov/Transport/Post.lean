import Cherenkov.Library.Http
import Cherenkov.Hub.Provenance
import Cherenkov.Hub.Effects
import Cherenkov.Hub.Outside
import Cherenkov.Transport.Query
import Cherenkov.Transport.Cleanup

/-! `publish_handler` publishes one message on behalf of a session that lives for the request only:
it opens the session, connects it if the request carries a token, publishes, closes the session
again and turns the outcome into a response. Any number of such requests run at once, next to
everything else that the hub does, and any of them may be dropped while the handler awaits a call of
the hub. -/

namespace Cherenkov

open FormUrlencoded (Lossy)

variable {κ β τ ε : Type}

/-- The query string, the first `Authorization` header and the frames of the body. -/
structure PostRequest where
  query : Option String
  authorization : Option Bytes
  body : List (Except String Bytes)

inductive PostStage where
  | authorizing
  | connecting (call : Nat)
  | publishing (call : Nat)
  | closing (call : Nat) (response : HttpResponse)
  | finished (response : HttpResponse)
  | dropped
  deriving DecidableEq

/-- A request that has its session. `call` is history: the publish call, once there is one. -/
structure Post where
  request : PostRequest
  query : PublishQuery
  data : Bytes
  session : Nat
  stage : PostStage
  call : Option Nat

inductive Poster where
  | rejected (request : PostRequest) (response : HttpResponse)
  | opening (request : PostRequest) (query : PublishQuery) (data : Bytes) (call : Nat)
  | serving (x : Post)

structure PostNet (κ β τ : Type) where
  hub : State κ β τ
  posts : Nat → Option Poster
  nextPost : Nat

inductive PostLabel (ε : Type) where
  | hub (l : Label ε)
  | request (r : PostRequest)
  | move (c : Nat)
  | drop (c : Nat)

/-- `rejection` is what axum answers to a query string that it cannot deserialize. -/
structure SsePosts (κ β τ ε : Type) extends Sse κ β τ ε where
  lossy : Lossy
  rejection : Option String → String

namespace SsePosts

/-- What the extractors and `to_bytes` make of a request. -/
def accept (S : SsePosts κ β τ ε) (r : PostRequest) : Except HttpResponse (PublishQuery × Bytes) :=
  match publishQuery S.lossy r.query with
  | none => .error ⟨400, S.rejection r.query⟩
  | some query =>
      match Http.toBytes (16 * 1024 * 1024) r.body with
      | .error e => .error ⟨400, "body: " ++ e⟩
      | .ok bytes => .ok (query, bytes)

def publish (s : State κ β τ) (x : Post) : List (Label ε) × Post :=
  ([.start (.publish ⟨(s.shared.heap x.session).id, x.query.channel, x.data⟩)],
    { x with stage := .publishing s.nextCall, call := some s.nextCall })

def close (s : State κ β τ) (x : Post) (response : HttpResponse) : List (Label ε) × Post :=
  ([.start (.close (s.shared.heap x.session).id)],
    { x with stage := .closing s.nextCall response })

def respond (S : SsePosts κ β τ ε) : Except HubError Response → Option HttpResponse
  | .ok (.published p) =>
      some ⟨200, "\x7b\"channel\":" ++ S.quote p.channel ++ ",\"offset\":" ++ toString p.offset ++
        "\x7d\n"⟩
  | .ok _ => none
  | .error err => some (intoResponse err)

def plan (S : SsePosts κ β τ ε) (s : State κ β τ) (x : Post) : Option (List (Label ε) × Post) :=
  match x.stage with
  | .authorizing =>
      match Http.bearer x.request.authorization with
      | some token =>
          some ([.start (.connect ⟨(s.shared.heap x.session).id, 0, token⟩)],
            { x with stage := .connecting s.nextCall })
      | none =>
          if S.hub.gate.allowAnonymous then some (publish s x)
          else some (close s x ⟨401, "Authorization header required"⟩)
  | .connecting call =>
      match s.answer call with
      | none => none
      | some (.ok _) => some (publish s x)
      | some (.error err) => some (close s x (intoResponse err))
  | .publishing call => ((s.answer call).bind S.respond).map (close s x)
  | .closing call response =>
      match s.answer call with
      | none => none
      | some _ =>
          some ([.release x.session, .hangUp x.session], { x with stage := .finished response })
  | .finished _ | .dropped => none

def movePlanned (S : SsePosts κ β τ ε) (s : State κ β τ) :
    Poster → Option (List (Label ε) × Post)
  | .rejected _ _ => none
  | .opening request query data call =>
      match s.answer call with
      | some (.ok (.opened ref)) => some ([], ⟨request, query, data, ref, .authorizing, none⟩)
      | _ => none
  | .serving x => S.plan s x

/-- A dropped handler lets go of the session and of the receiving half. -/
def dropped (S : SsePosts κ β τ ε) (s : State κ β τ) (x : Post) : Option (State κ β τ) :=
  match x.stage with
  | .connecting call | .publishing call =>
      (S.hub.cancel s call).bind fun s' =>
        S.hub.machine.exec s' [.release x.session, .hangUp x.session]
  | _ => none

def step (S : SsePosts κ β τ ε) (s : PostNet κ β τ) : PostLabel ε → Option (PostNet κ β τ)
  | .hub l => (S.hub.step s.hub l).map fun hub => { s with hub }
  | .request r =>
      match S.accept r with
      | .error response =>
          some { s with
            posts := Function.update s.posts s.nextPost (some (.rejected r response))
            nextPost := s.nextPost + 1 }
      | .ok (query, data) =>
          (S.hub.step s.hub (.start (.openSession 8))).map fun hub =>
            { hub
              posts := Function.update s.posts s.nextPost
                (some (.opening r query data s.hub.nextCall))
              nextPost := s.nextPost + 1 }
  | .move c =>
      ((s.posts c).bind (S.movePlanned s.hub)).bind fun out =>
        (S.hub.machine.exec s.hub out.1).map fun hub =>
          { s with hub, posts := Function.update s.posts c (some (.serving out.2)) }
  | .drop c =>
      match s.posts c with
      | some (.serving x) =>
          (S.dropped s.hub x).map fun hub =>
            { s with
              hub
              posts := Function.update s.posts c (some (.serving { x with stage := .dropped })) }
      | _ => none

def machine (S : SsePosts κ β τ ε) : Machine (PostNet κ β τ) (PostLabel ε) := ⟨S.step⟩

def boot (hub : State κ β τ) : PostNet κ β τ := ⟨hub, fun _ => none, 0⟩

end SsePosts

/-- Dropping the future of call `n` is a change from outside. -/
structure Cancels (n : Nat) (s t : State κ β τ) : Prop extends Outside s t where
  dropped : t.calls = Function.update s.calls n none
  awaited : ∃ c, s.calls n = some c ∧ c.awaits = true

section Cancel

variable {H : Hub κ β τ ε} {s t : State κ β τ} {n : Nat}

theorem cancel_cancels (h : H.cancel s n = some t) : Cancels n s t := by
  simp only [Hub.cancel] at h
  split at h
  · cases h
  · next c called =>
      split at h
      · next awaits =>
          cases h
          have quiet := quiet_dropArcs ({ s with
            shared := { s.shared with broker := H.closeStream s.shared.broker c.stream }
            calls := Function.update s.calls n none } : State κ β τ) c.holds
          refine ⟨⟨quiet.registry, quiet.nextRef, quiet.id, fun f w' found =>
            quiet.forwarder_some found, ?_, rfl, rfl⟩, rfl, c, called, awaits⟩
          intro m d found
          simp only [dropArcs_calls, Function.update_apply] at found
          split at found
          · cases found
          · exact found
      · cases h

namespace Cancels

theorem publishing (cancels : Cancels n s t) {m : Nat} {a : PublishArgs} (other : m ≠ n)
    (g : s.Publishing m a) : t.Publishing m a := by
  have kept : t.calls m = s.calls m := by
    rw [cancels.dropped, Function.update_of_ne other]
  have same := cancels.log
  cases g with
  | entering at_ args own untouched =>
      exact .entering (kept.trans at_) args own (same ▸ untouched)
  | accepted at_ asked => exact .accepted (kept.trans at_) (same ▸ asked)
  | ended known gone answers =>
      exact .ended (cancels.nextCall ▸ known) (kept.trans gone) (same ▸ answers)

end Cancels
end Cancel

/-- The call that a handler awaits when it can be dropped. -/
def PostStage.awaited : PostStage → Option Nat
  | .connecting call | .publishing call => some call
  | _ => none

/-- The response that a handler has settled on: the outcome of the publish call, or a refusal
without one. -/
def SsePosts.Settled (S : SsePosts κ β τ ε) (s : State κ β τ) (x : Post) (response : HttpResponse) :
    Prop :=
  (x.call = none ∧ response.status ≠ 200) ∨
    ∃ n result, x.call = some n ∧ .returned n result ∈ s.log ∧ S.respond result = some response

def Post.args (x : Post) : PublishArgs := ⟨x.session, x.query.channel, x.data⟩

structure SsePosts.Sound (S : SsePosts κ β τ ε) (s : State κ β τ) (x : Post) : Prop where
  accepted : S.accept x.request = .ok (x.query, x.data)
  born : s.Born x.session
  bound : ∀ n, x.stage.awaited = some n → n < s.nextCall
  early : x.stage = .authorizing ∨ (∃ n, x.stage = .connecting n) → x.call = none
  called : ∀ n, x.stage = .publishing n → x.call = some n
  publishing : ∀ n, x.stage ≠ .dropped → x.call = some n → s.Publishing n x.args
  closing : ∀ n response, x.stage = .closing n response →
    (s.calls n = some (.deregister .close x.session) ∨ s.Gone x.session) ∧ S.Settled s x response
  finished : ∀ response, x.stage = .finished response →
    s.Gone x.session ∧ S.Settled s x response

structure SsePosts.Consistent (S : SsePosts κ β τ ε) (s : PostNet κ β τ) : Prop where
  known : s.hub.Known
  asked : s.hub.Asked
  posts : ∀ c x, s.posts c = some (.serving x) → S.Sound s.hub x
  opening : ∀ c r query data call, s.posts c = some (.opening r query data call) →
    S.accept r = .ok (query, data)
  distinct : ∀ c c' x x' n, s.posts c = some (.serving x) → s.posts c' = some (.serving x') →
    x.stage.awaited = some n → x'.stage.awaited = some n → c = c'

/-- Identifiers are left. -/
def PostRoomy (s : PostNet κ β τ) (l : PostLabel ε) : Prop :=
  ∀ l', l = .hub l' → Roomy s.hub l'

section Steps

variable {S : SsePosts κ β τ ε} {s t : State κ β τ} {x : Post}

theorem SsePosts.Settled.grow (log : s.log <:+ t.log) {response : HttpResponse}
    (settled : S.Settled s x response) : S.Settled t x response := by
  rcases settled with early | ⟨n, result, call, returned, answer⟩
  · exact .inl early
  · exact .inr ⟨n, result, call, log.subset returned, answer⟩

theorem step_closing (g : s.Known) {l : Label ε} {n ref : Nat} (born : s.Born ref)
    (closing : s.calls n = some (.deregister .close ref) ∨ s.Gone ref)
    (h : S.hub.step s l = some t) :
    t.calls n = some (.deregister .close ref) ∨ t.Gone ref := by
  rcases closing with entered | gone
  · by_cases own : ∃ env now, l = .advance n env now
    · obtain ⟨env, now, rfl⟩ := own
      cases found : s.shared.registry.get ref with
      | none => exact .inr (step_gone (g.gone born found) h)
      | some r =>
          cases g.identified.registered g.addressed found
          obtain ⟨c, o, at_, acts, rfl⟩ := Hub.step_advance h
          cases entered.symm.trans at_
          exact .inr (removed_gone g.addressed g.nascent acts found)
    · exact .inl (step_call_kept g.staged entered (fun env now same => own ⟨env, now, same⟩) h)
  · exact .inr (step_gone gone h)

theorem step_sound (g : s.Known) {l : Label ε} (sound : S.Sound s x)
    (h : S.hub.step s l = some t) : S.Sound t x := by
  have log := step_log h
  refine ⟨sound.accepted, step_born sound.born h, ?_, sound.early, sound.called, ?_, ?_, ?_⟩
  · intro n awaited
    exact Nat.lt_of_lt_of_le (sound.bound n awaited) (step_nextCall_le h)
  · intro n stays call
    exact step_publishing g (sound.publishing n stays call) h
  · intro n response stage
    obtain ⟨closing, settled⟩ := sound.closing n response stage
    exact ⟨step_closing g sound.born closing h, settled.grow log⟩
  · intro response stage
    obtain ⟨gone, settled⟩ := sound.finished response stage
    exact ⟨step_gone gone h, settled.grow log⟩

/-- The publish call of a request that awaits nothing has ended. -/
theorem SsePosts.Sound.publish_over (sound : S.Sound s x) (g : s.Staged) {n : Nat}
    (call : x.call = some n) (idle : x.stage.awaited = none) (stays : x.stage ≠ .dropped) :
    s.calls n = none := by
  have of_settled : ∀ response, S.Settled s x response → s.calls n = none := by
    rintro response (⟨uncalled, -⟩ | ⟨m, result, same, returned, -⟩)
    · cases call.symm.trans uncalled
    · cases call.symm.trans same
      exact (g.returned n result returned).2
  cases stage : x.stage with
  | authorizing => cases call.symm.trans (sound.early (.inl stage))
  | connecting m =>
      rw [stage] at idle
      cases idle
  | publishing m =>
      rw [stage] at idle
      cases idle
  | closing m response => exact of_settled response (sound.closing m response stage).2
  | finished response => exact of_settled response (sound.finished response stage).2
  | dropped => exact absurd stage stays

theorem cancel_sound {n : Nat} (g : s.Known) (sound : S.Sound s x)
    (other : x.stage.awaited ≠ some n) (cancels : Cancels n s t) : S.Sound t x := by
  have log : s.log <:+ t.log := by
    rw [cancels.log]
  refine ⟨sound.accepted, cancels.born sound.born, ?_, sound.early, sound.called, ?_, ?_, ?_⟩
  · rw [cancels.nextCall]
    exact sound.bound
  · intro m stays call
    refine cancels.publishing ?_ (sound.publishing m stays call)
    rintro rfl
    cases awaited : x.stage.awaited with
    | none =>
        obtain ⟨c, called, -⟩ := cancels.awaited
        cases called.symm.trans (sound.publish_over g.staged call awaited stays)
    | some k =>
        cases stage : x.stage with
        | connecting j => cases call.symm.trans (sound.early (.inr ⟨j, stage⟩))
        | publishing j =>
            cases call.symm.trans (sound.called j stage)
            rw [stage] at other
            exact other rfl
        | _ =>
            rw [stage] at awaited
            cases awaited
  · intro m response stage
    obtain ⟨closing, settled⟩ := sound.closing m response stage
    refine ⟨closing.imp ?_ cancels.gone, settled.grow log⟩
    intro entered
    rw [cancels.dropped, Function.update_of_ne ?_, entered]
    rintro rfl
    obtain ⟨c, called, awaits⟩ := cancels.awaited
    cases called.symm.trans entered
    cases awaits
  · intro response stage
    obtain ⟨gone, settled⟩ := sound.finished response stage
    exact ⟨cancels.gone gone, settled.grow log⟩

end Steps

section Network

variable {S : SsePosts κ β τ ε} {s : PostNet κ β τ} {hub : State κ β τ} {c : Nat}

theorem hub_consistent {l : Label ε} (g : S.Consistent s) (room : Roomy s.hub l)
    (h : S.hub.step s.hub l = some hub) : S.Consistent { s with hub } :=
  ⟨step_known g.known room h, step_asked g.known.staged g.asked h,
    fun c x found => step_sound g.known (g.posts c x found) h, g.opening, g.distinct⟩

theorem exec_consistent {ls : List (Label ε)} (g : S.Consistent s)
    (still : ∀ l ∈ ls, ∀ n env now, l ≠ .advance n env now)
    (h : S.hub.machine.exec s.hub ls = some hub) : S.Consistent { s with hub } := by
  refine Machine.exec_invariant (I := fun hub => S.Consistent { s with hub }) ?_ g still h
  intro before l after consistent still stepped
  exact hub_consistent (s := { s with hub := before }) consistent (roomy_of_still still before)
    stepped

theorem SsePosts.Consistent.put {x : Post} (g : S.Consistent s) (sound : S.Sound s.hub x)
    (fresh : ∀ n, x.stage.awaited = some n → ∀ c' x', c' ≠ c → s.posts c' = some (.serving x') →
      x'.stage.awaited ≠ some n) :
    S.Consistent { s with posts := Function.update s.posts c (some (.serving x)) } := by
  refine ⟨g.known, g.asked, ?_, ?_, ?_⟩
  · intro i y found
    simp only [Function.update_apply] at found
    split at found
    · cases found
      exact sound
    · exact g.posts i y found
  · intro i r query data call found
    simp only [Function.update_apply] at found
    split at found
    · cases found
    · exact g.opening i r query data call found
  · intro i j y z n first second awaited awaited'
    simp only [Function.update_apply] at first second
    split at first
    · next here =>
        split at second
        · next there => rw [here, there]
        · next there =>
            cases first
            exact absurd awaited' (fresh n awaited j z there second)
    · next here =>
        split at second
        · cases second
          exact absurd awaited (fresh n awaited' i y here first)
        · exact g.distinct i j y z n first second awaited awaited'

theorem SsePosts.Consistent.fresh (g : S.Consistent s) {c' : Nat} {x' : Post}
    (found : s.posts c' = some (.serving x')) : x'.stage.awaited ≠ some s.hub.nextCall := by
  intro awaited
  exact Nat.lt_irrefl _ ((g.posts c' x' found).bound _ awaited)

section Moves

variable {x x' : Post} {ls : List (Label ε)}

theorem connect_consistent (g : S.Consistent s) (found : s.posts c = some (.serving x))
    (early : x.call = none) {a : ConnectArgs}
    (ran : S.hub.machine.exec s.hub [.start (.connect a)] = some hub) :
    S.Consistent { s with
      hub
      posts := Function.update s.posts c
        (some (.serving { x with stage := .connecting s.hub.nextCall })) } := by
  have next := exec_consistent g (by simp) ran
  have sound := next.posts c x found
  refine next.put ⟨sound.accepted, sound.born, ?_, fun _ => early, nofun, ?_, nofun, nofun⟩ ?_
  · rintro n ⟨⟩
    cases ran
    exact Nat.lt_succ_self _
  · intro n stays call
    cases early.symm.trans call
  · rintro n ⟨⟩ c' x' - found'
    exact g.fresh found'

theorem publish_consistent (g : S.Consistent s) (found : s.posts c = some (.serving x))
    (planned : SsePosts.publish s.hub x = (ls, x'))
    (ran : S.hub.machine.exec s.hub ls = some hub) :
    S.Consistent { s with
      hub, posts := Function.update s.posts c (some (.serving x')) } := by
  cases planned
  have next := exec_consistent g (by simp) ran
  have sound := next.posts c x found
  have own := g.known.identified.ids _ (g.posts c x found).born.known
  refine next.put ⟨sound.accepted, sound.born, ?_, ?_, ?_, ?_, nofun, nofun⟩ ?_
  · rintro n ⟨⟩
    cases ran
    exact Nat.lt_succ_self _
  · rintro (stage | ⟨n, stage⟩) <;> cases stage
  · rintro n ⟨⟩
    rfl
  · rintro n - ⟨⟩
    rw [own] at ran
    cases ran
    refine .entering (Function.update_self ..) rfl nofun ?_
    exact g.asked.unused (Nat.le_refl _)
  · rintro n ⟨⟩ c' x' - found'
    exact g.fresh found'

theorem close_consistent (g : S.Consistent s) (found : s.posts c = some (.serving x))
    (stays : x.stage ≠ .dropped) {response : HttpResponse} (settled : S.Settled s.hub x response)
    (planned : SsePosts.close s.hub x response = (ls, x'))
    (ran : S.hub.machine.exec s.hub ls = some hub) :
    S.Consistent { s with
      hub, posts := Function.update s.posts c (some (.serving x')) } := by
  cases planned
  have next := exec_consistent g (by simp) ran
  have sound := next.posts c x found
  have own := g.known.identified.ids _ (g.posts c x found).born.known
  refine next.put ⟨sound.accepted, sound.born, nofun, ?_, nofun, ?_, ?_, nofun⟩ nofun
  · rintro (stage | ⟨n, stage⟩) <;> cases stage
  · rintro n - call
    exact sound.publishing n stays call
  · rintro n r ⟨⟩
    rw [own] at ran
    cases ran
    exact ⟨.inl (Function.update_self ..), settled⟩

theorem finish_consistent (g : S.Consistent s) (found : s.posts c = some (.serving x))
    {call : Nat} {response : HttpResponse} {result : Except HubError Response}
    (stage : x.stage = .closing call response) (answer : s.hub.answer call = some result)
    (ran : S.hub.machine.exec s.hub [.release x.session, .hangUp x.session] = some hub) :
    S.Consistent { s with
      hub
      posts := Function.update s.posts c (some (.serving { x with stage := .finished response })) } := by
  have before := g.posts c x found
  have ended := (g.known.staged.returned call result (answer_logged answer)).2
  refine exec_consistent (s := { s with
    posts := Function.update s.posts c (some (.serving { x with stage := .finished response })) })
    ?_ (by simp) ran
  refine g.put ⟨before.accepted, before.born, nofun, ?_, nofun, ?_, nofun, ?_⟩ nofun
  · rintro (stage | ⟨n, stage⟩) <;> cases stage
  · rintro n - call
    exact before.publishing n (by rw [stage]; nofun) call
  · rintro r ⟨⟩
    obtain ⟨closing, settled⟩ := before.closing call response stage
    refine ⟨?_, settled⟩
    rcases closing with entered | gone
    · cases ended.symm.trans entered
    · exact gone

theorem intoResponse_status (err : HubError) : (intoResponse err).status ≠ 200 := by
  cases err <;> simp [intoResponse]

theorem plan_consistent (g : S.Consistent s) (found : s.posts c = some (.serving x))
    (planned : S.plan s.hub x = some (ls, x')) (ran : S.hub.machine.exec s.hub ls = some hub) :
    S.Consistent { s with
      hub, posts := Function.update s.posts c (some (.serving x')) } := by
  have sound := g.posts c x found
  cases stage : x.stage with
  | authorizing =>
      have early := sound.early (.inl stage)
      simp only [SsePosts.plan, stage] at planned
      (repeat' split at planned)
      · cases planned
        exact connect_consistent g found early ran
      · exact publish_consistent g found (Option.some.inj planned) ran
      · refine close_consistent g found (by rw [stage]; nofun) ?_ (Option.some.inj planned) ran
        exact .inl ⟨early, by decide⟩
  | connecting call =>
      have early := sound.early (.inr ⟨call, stage⟩)
      simp only [SsePosts.plan, stage] at planned
      split at planned
      · cases planned
      · exact publish_consistent g found (Option.some.inj planned) ran
      · refine close_consistent g found (by rw [stage]; nofun) ?_ (Option.some.inj planned) ran
        exact .inl ⟨early, intoResponse_status _⟩
  | publishing call =>
      simp only [SsePosts.plan, stage] at planned
      obtain ⟨response, responded, closed⟩ := Option.map_eq_some_iff.mp planned
      obtain ⟨result, answer, told⟩ := Option.bind_eq_some_iff.mp responded
      refine close_consistent g found (by rw [stage]; nofun) ?_ closed ran
      exact .inr ⟨call, result, sound.called call stage, answer_logged answer, told⟩
  | closing call response =>
      simp only [SsePosts.plan, stage] at planned
      split at planned
      · cases planned
      · next result answer =>
          cases planned
          exact finish_consistent g found stage answer ran
  | finished response | dropped =>
      simp only [SsePosts.plan, stage] at planned
      cases planned

end Moves

theorem move_consistent (g : S.Consistent s) {t : PostNet κ β τ}
    (h : S.step s (.move c) = some t) : S.Consistent t := by
  obtain ⟨⟨ls, x'⟩, planned, carried⟩ := Option.bind_eq_some_iff.mp h
  obtain ⟨poster, found, moved⟩ := Option.bind_eq_some_iff.mp planned
  obtain ⟨hub, ran, rfl⟩ := Option.map_eq_some_iff.mp carried
  cases poster with
  | rejected r response => cases moved
  | opening r query data call =>
      simp only [SsePosts.movePlanned] at moved
      split at moved <;> cases moved
      next ref answer =>
        cases ran
        have born := g.known.recorded.opened call ref (answer_logged answer)
        exact g.put ⟨g.opening c r query data call found, born, nofun, fun _ => rfl, nofun, nofun,
          nofun, nofun⟩ nofun
  | serving x => exact plan_consistent g found moved ran

theorem drop_consistent (g : S.Consistent s) {t : PostNet κ β τ}
    (h : S.step s (.drop c) = some t) : S.Consistent t := by
  simp only [SsePosts.step] at h
  split at h
  · next x found =>
      obtain ⟨hub, ran, rfl⟩ := Option.map_eq_some_iff.mp h
      have dropped : ∃ call mid, x.stage.awaited = some call ∧ S.hub.cancel s.hub call = some mid ∧
          S.hub.machine.exec mid [.release x.session, .hangUp x.session] = some hub := by
        simp only [SsePosts.dropped] at ran
        split at ran
        · next call stage =>
            obtain ⟨mid, cancelled, rest⟩ := Option.bind_eq_some_iff.mp ran
            exact ⟨call, mid, by rw [stage]; rfl, cancelled, rest⟩
        · next call stage =>
            obtain ⟨mid, cancelled, rest⟩ := Option.bind_eq_some_iff.mp ran
            exact ⟨call, mid, by rw [stage]; rfl, cancelled, rest⟩
        · cases ran
      obtain ⟨call, mid, awaited, cancelled, rest⟩ := dropped
      have cancels := cancel_cancels cancelled
      have before := g.posts c x found
      refine exec_consistent (s := { s with
        hub := mid
        posts := Function.update s.posts c (some (.serving { x with stage := .dropped })) }) ?_
        (by simp) rest
      -- the posts are changed first, so that the cancelled call is nobody's
      have settled : S.Consistent { s with
          posts := Function.update s.posts c (some (.serving { x with stage := .dropped })) } := by
        refine g.put ⟨before.accepted, before.born, nofun, ?_, nofun, ?_, nofun, nofun⟩ nofun
        · rintro (stage | ⟨n, stage⟩) <;> cases stage
        · intro n stays
          exact absurd rfl stays
      refine ⟨cancels.known g.known, ?_, ?_, settled.opening, settled.distinct⟩
      · intro e
        rw [cancels.log, cancels.nextCall]
        exact g.asked e
      · intro i y here
        refine cancel_sound g.known (settled.posts i y here) ?_ cancels
        intro same
        simp only [Function.update_apply] at here
        split at here
        · cases here
          cases same
        · next other => exact other (g.distinct i c y x call here found same awaited)
  · cases h

theorem request_consistent (g : S.Consistent s) {r : PostRequest} {t : PostNet κ β τ}
    (h : S.step s (.request r) = some t) : S.Consistent t := by
  have enter : ∀ {s : PostNet κ β τ} (poster : Poster) (k : Nat), S.Consistent s →
      (∀ x, poster ≠ .serving x) →
      (∀ r query data call, poster = .opening r query data call → S.accept r = .ok (query, data)) →
      S.Consistent ⟨s.hub, Function.update s.posts k (some poster), k + 1⟩ := by
    intro s poster k g idle accepted
    have older : ∀ i x, Function.update s.posts k (some poster) i = some (.serving x) →
        s.posts i = some (.serving x) := by
      intro i x found
      simp only [Function.update_apply] at found
      split at found
      · exact absurd (Option.some.inj found) (idle x)
      · exact found
    refine ⟨g.known, g.asked, fun i x found => g.posts i x (older i x found), ?_, ?_⟩
    · intro i r query data call found
      simp only [Function.update_apply] at found
      split at found
      · exact accepted r query data call (Option.some.inj found)
      · exact g.opening i r query data call found
    · intro i j x y n first second
      exact g.distinct i j x y n (older i x first) (older j y second)
  simp only [SsePosts.step] at h
  split at h
  · cases h
    refine enter _ _ g ?_ ?_
    · nofun
    · nofun
  · next query data accepted =>
      obtain ⟨hub, stepped, rfl⟩ := Option.map_eq_some_iff.mp h
      have next := hub_consistent g (roomy_of_still nofun s.hub) stepped
      refine enter (s := { s with hub }) _ _ next nofun ?_
      rintro r query data call ⟨⟩
      exact accepted

theorem step_consistent (g : S.Consistent s) {l : PostLabel ε} (room : PostRoomy s l)
    {t : PostNet κ β τ} (h : S.step s l = some t) : S.Consistent t := by
  cases l with
  | hub l =>
      obtain ⟨hub, stepped, rfl⟩ := Option.map_eq_some_iff.mp h
      exact hub_consistent g (room l rfl) stepped
  | request r => exact request_consistent g h
  | move c => exact move_consistent g h
  | drop c => exact drop_consistent g h

theorem boot_consistent (S : SsePosts κ β τ ε) (kinds : Nat → κ) (broker : β) :
    S.Consistent (SsePosts.boot (State.initial kinds broker)) := by
  refine ⟨initial_known kinds broker, ?_, ?_, ?_, ?_⟩
  · intro e member
    cases member
  · intro c x found
    cases found
  · intro c r query data call found
    cases found
  · intro c c' x x' n found
    cases found

theorem respond_published {result : Except HubError Response} {response : HttpResponse}
    {n ref : Nat} {a : PublishArgs} {done : List Event} (answers : Answers n ref a result done)
    (responded : S.respond result = some response) (ok : response.status = 200) :
    ∃ p, response.body = "\x7b\"channel\":" ++ S.quote p.channel ++ ",\"offset\":" ++
        toString p.offset ++ "\x7d\n" ∧
      done = [.brokerPublish n ref a.channel p (.ok ()), .onPublish n ref a.channel a.data (.ok p)] := by
  cases answers with
  | published p =>
      cases responded
      exact ⟨p, rfl, rfl⟩
  | unsent p e =>
      cases responded
      exact absurd ok (intoResponse_status _)
  | unaccepted e =>
      cases responded
      exact absurd ok (intoResponse_status _)
  | refused e early =>
      cases responded
      exact absurd ok (intoResponse_status _)

theorem respond_failed {result : Except HubError Response} {response : HttpResponse}
    {n ref : Nat} {a : PublishArgs} {done : List Event} (answers : Answers n ref a result done)
    (responded : S.respond result = some response) (failed : response.status ≠ 200) :
    (∀ ref channel p, .brokerPublish n ref channel p (.ok ()) ∉ done) ∧
      (response.status ≠ 500 → done = []) := by
  cases answers with
  | published p =>
      cases responded
      exact absurd rfl failed
  | unsent p e =>
      cases responded
      refine ⟨?_, fun other => absurd rfl other⟩
      intro ref channel q member
      simp at member
  | unaccepted e =>
      cases responded
      refine ⟨?_, fun other => absurd rfl other⟩
      intro ref channel q member
      simp at member
  | refused e early => exact ⟨fun _ _ _ => List.not_mem_nil, fun _ => rfl⟩

/-- However requests, calls of the hub and drops interleave, a request that has been answered has
no session left, and its response tells what it has done: 200 that exactly the publication named in
the response was made from the body and taken by the broker; any other status that the broker took
nothing, and any but 200 and 500 that the channel kind was not asked. -/
theorem response_truthful {kinds : Nat → κ} {broker : β}
    (run : S.machine.Run PostRoomy (SsePosts.boot (State.initial kinds broker)) s) {x : Post}
    {response : HttpResponse} (here : s.posts c = some (.serving x))
    (answered : x.stage = .finished response) :
    s.hub.shared.registry.get (s.hub.shared.heap x.session).id = none ∧
      (publishQuery S.lossy x.request.query = some x.query ∧
        ∃ chunks : List Bytes, x.request.body = chunks.map .ok ∧ x.data = chunks.flatten) ∧
      (response.status = 200 → ∃ n p, x.call = some n ∧
        response.body = "\x7b\"channel\":" ++ S.quote p.channel ++ ",\"offset\":" ++
          toString p.offset ++ "\x7d\n" ∧
        effects n s.hub.log = [.brokerPublish n x.session x.query.channel p (.ok ()),
          .onPublish n x.session x.query.channel x.data (.ok p)]) ∧
      (response.status ≠ 200 → ∀ n, x.call = some n →
        (∀ ref channel p, .brokerPublish n ref channel p (.ok ()) ∉ s.hub.log) ∧
        (response.status ≠ 500 → effects n s.hub.log = [])) := by
  have g := run.invariant (boot_consistent S kinds broker) fun _ _ _ g room h =>
    step_consistent g room h
  have sound := g.posts c x here
  obtain ⟨gone, settled⟩ := sound.finished response answered
  have told : ∀ n, x.call = some n → ∃ result, Answers n x.session x.args result
      (effects n s.hub.log) ∧ S.respond result = some response := by
    intro n call
    rcases settled with ⟨uncalled, -⟩ | ⟨m, result, same, returned, responded⟩
    · cases call.symm.trans uncalled
    · cases call.symm.trans same
      have ended := (g.known.staged.returned n result returned).2
      refine ⟨result, ?_, responded⟩
      cases sound.publishing n (by rw [answered]; nofun) call with
      | entering at_ => cases ended.symm.trans at_
      | accepted at_ => cases ended.symm.trans at_
      | ended _ _ answers => exact answers result returned
  refine ⟨?_, ?_, ?_, ?_⟩
  · cases found : s.hub.shared.registry.get (s.hub.shared.heap x.session).id with
    | none => rfl
    | some ref =>
        rw [g.known.identified.ids _ gone.known] at found
        cases g.known.identified.registered g.known.addressed found
        exact absurd found (gone.unregistered _)
  · have accepted := sound.accepted
    simp only [SsePosts.accept] at accepted
    split at accepted
    · cases accepted
    · next query parsed =>
        split at accepted <;> cases accepted
        next read =>
          obtain ⟨chunks, frames, bytes, -⟩ := Http.toBytes_ok read
          exact ⟨parsed, chunks, frames, bytes⟩
  · intro ok
    rcases settled with ⟨-, failed⟩ | ⟨n, -, call, -⟩
    · exact absurd ok failed
    · obtain ⟨result, answers, responded⟩ := told n call
      obtain ⟨p, body, done⟩ := respond_published answers responded ok
      exact ⟨n, p, call, body, done⟩
  · intro failed n call
    obtain ⟨result, answers, responded⟩ := told n call
    obtain ⟨unsent, untouched⟩ := respond_failed answers responded failed
    refine ⟨?_, untouched⟩
    intro ref channel p member
    apply unsent ref channel p
    exact List.mem_filter.mpr ⟨member, by simp [Event.publisher]⟩

end Network

def postRoomy (s : PostNet κ β τ) : PostLabel ε → Bool
  | .hub (.advance n _ _) =>
      match s.hub.calls n with
      | some (.openSession _) => decide (s.hub.shared.nextRef < 2 ^ 64)
      | _ => true
  | _ => true

theorem postRoomy_sound (s : PostNet κ β τ) (l : PostLabel ε) (h : postRoomy s l = true) :
    PostRoomy s l := by
  rintro l' rfl n env now capacity rfl called
  simpa [postRoomy, called] using h

/-- The endpoint over a hub that wants every session to connect. -/
def postEndpoint : SsePosts PubSubChannel MemoryBroker MemoryStream Unit where
  hub := connected.hub
  quote := fun text => "\"" ++ text ++ "\""
  base64 := fun _ => ""
  lossy := replacing
  rejection := fun _ => "Failed to deserialize query string"

def lobbyPost : PostRequest where
  query := some "channel=rooms.lobby"
  authorization := some ("Bearer t".toList.map fun c => UInt8.ofNat c.toNat)
  body := [.ok [7], .ok [8]]

def lobbyPosted : List (PostLabel Unit) :=
  [.request lobbyPost] ++ List.replicate 5 (.hub (.advance 0 () 0)) ++ [.move 0, .move 0] ++
    List.replicate 4 (.hub (.advance 1 () 0)) ++ [.move 0] ++
    List.replicate 6 (.hub (.advance 2 () 0)) ++ [.move 0] ++
    List.replicate 6 (.hub (.advance 3 () 0)) ++ [.move 0]

def Poster.answered (response : HttpResponse) : Poster → Bool
  | .serving x => x.stage == .finished response
  | _ => false

theorem response_truthful_lobby :
    ∃ s x n p, postEndpoint.machine.Run PostRoomy (SsePosts.boot connected.boot) s ∧
      s.posts 0 = some (.serving x) ∧
      x.stage = .finished ⟨200, "\x7b\"channel\":\"rooms.lobby\",\"offset\":0\x7d\n"⟩ ∧
      s.hub.shared.registry.get (s.hub.shared.heap x.session).id = none ∧
      effects n s.hub.log = [.brokerPublish n x.session x.query.channel p (.ok ()),
        .onPublish n x.session x.query.channel x.data (.ok p)] := by
  obtain ⟨s, run, ended⟩ := Machine.execWithin_witness
    (M := postEndpoint.machine) (s := SsePosts.boot connected.boot)
    (fun s l (_ : postEndpoint.Consistent s) => postRoomy_sound s l)
    (fun _ _ _ g room h => step_consistent g room h) (boot_consistent postEndpoint _ _) lobbyPosted
    (fun s => (s.posts 0).any (Poster.answered
      ⟨200, "\x7b\"channel\":\"rooms.lobby\",\"offset\":0\x7d\n"⟩) = true)
    (by decide +kernel)
  obtain ⟨poster, here, answered⟩ := (Option.any_eq_true _ _).mp ended
  cases poster with
  | serving x =>
      have stage := beq_iff_eq.mp answered
      obtain ⟨closed, -, ok, -⟩ := response_truthful run here stage
      obtain ⟨n, p, -, -, done⟩ := ok rfl
      exact ⟨s, x, n, p, run, here, stage, closed, done⟩
  | _ => cases answered

end Cherenkov
