import Cherenkov.Hub.Identity

/-! `handle_publish` asks its channel kind once and then the broker once. What it has asked of them,
and what it was told, can be read off its answer. -/

namespace Cherenkov

variable {κ β τ ε : Type}

/-- The call that made an event, for what a publish call asks of its kind and of the broker. -/
def Event.publisher : Event → Option Nat
  | .onPublish n _ _ _ _ | .brokerPublish n _ _ _ _ => some n
  | _ => none

/-- What call `n` has asked of its kind and of the broker, newest first. -/
def effects (n : Nat) (log : List Event) : List Event :=
  log.filter fun e => e.publisher = some n

/-- The errors of `handle_publish` that come before the kind is asked. -/
def HubError.early : HubError → Bool
  | .sessionGone _ | .notConnected _ | .acl _ | .schema _ => true
  | _ => false

/-- What a publish call with an answer has asked of its kind and of the broker. -/
inductive Answers (n ref : Nat) (a : PublishArgs) : Except HubError Response → List Event → Prop
  | published (p : Publication) : Answers n ref a (.ok (.published p))
      [.brokerPublish n ref a.channel p (.ok ()), .onPublish n ref a.channel a.data (.ok p)]
  | unsent (p : Publication) (e : BrokerError) : Answers n ref a (.error (.broker e))
      [.brokerPublish n ref a.channel p (.error e), .onPublish n ref a.channel a.data (.ok p)]
  | unaccepted (e : ChannelError) : Answers n ref a (.error (.channel e))
      [.onPublish n ref a.channel a.data (.error e)]
  | refused (e : HubError) (early : e.early = true) : Answers n ref a (.error e) []

def Call.publishes : Call τ → Option PublishArgs
  | .enter (.publish a) | .requireClaims (.publish a) _ | .seedClaims (.publish a) _
  | .enforceAcl (.publish a) _ _ | .publishValidate a _ | .publishKind a _ => some a
  | _ => none

/-- Where call `n` is that publishes `a`, and what it has asked so far. -/
inductive State.Publishing (s : State κ β τ) (n : Nat) (a : PublishArgs) : Prop
  | entering {c : Call τ} (at_ : s.calls n = some c) (args : c.publishes = some a)
      (own : ∀ ref ∈ c.holds, ref = a.sessionId) (untouched : effects n s.log = [])
  | accepted {p : Publication} (at_ : s.calls n = some (.publishBroker a a.sessionId p))
      (asked : effects n s.log = [.onPublish n a.sessionId a.channel a.data (.ok p)])
  | ended (known : n < s.nextCall) (gone : s.calls n = none)
      (answers : ∀ result, .returned n result ∈ s.log →
        Answers n a.sessionId a result (effects n s.log))

theorem effects_append (n : Nat) (new log : List Event) :
    effects n (new ++ log) = effects n new ++ effects n log := List.filter_append ..

/-- What a step of a publish call that has not asked its kind does: where it goes and what it logs. -/
inductive Asks (x : Shared κ β τ) (n : Nat) (a : PublishArgs) (c : Call τ) :
    Option (Call τ) → List Event → Prop
  | goesOn {next : Call τ} {events : List Event} (args : next.publishes = some a)
      (holds : ∀ ref ∈ next.holds, ref ∈ c.holds ∨ x.registry.get a.sessionId = some ref)
      (silent : effects n events = []) : Asks x n a c (some next) events
  | refused {e : HubError} {events : List Event} (early : e.early = true)
      (returns : ∀ result, .returned n result ∈ events → result = .error e)
      (silent : effects n events = []) : Asks x n a c none events
  | accepted {ref : Nat} {p : Publication} (held : ref ∈ c.holds) :
      Asks x n a c (some (.publishBroker a ref p)) [.onPublish n ref a.channel a.data (.ok p)]
  | unaccepted {ref : Nat} {e : ChannelError} (held : ref ∈ c.holds) :
      Asks x n a c none
        [.returned n (.error (.channel e)), .onPublish n ref a.channel a.data (.error e)]

section Steps

variable {H : Hub κ β τ ε} {x : Shared κ β τ} {n : Nat} {env : ε} {now : Nat} {c : Call τ}
  {o : Outcome κ β τ} {a : PublishArgs}

theorem Asks.of_error {e : HubError} (early : e.early = true) (seen : List Event)
    (silent : ∀ v ∈ seen, v.publisher = none ∧ ∀ m result, v ≠ .returned m result) :
    Asks x n a c none (.returned n (.error e) :: seen) := by
  refine .refused early ?_ ?_
  · intro result member
    rcases List.mem_cons.mp member with same | earlier
    · cases same
      rfl
    · exact absurd rfl ((silent _ earlier).2 n result)
  · apply List.filter_eq_nil_iff.mpr
    intro v member
    rcases List.mem_cons.mp member with rfl | earlier
    · simp [Event.publisher]
    · simp [(silent v earlier).1]

theorem publishes_asks (args : c.publishes = some a) (acts : H.act x n env now c = some o) :
    Asks x n a c o.next o.events := by
  cases c with
  | enter g =>
      cases g <;> cases args
      simp only [Hub.act] at acts
      split at acts <;> cases acts
      · exact .of_error rfl [] (by simp)
      · next ref found =>
          refine .goesOn rfl ?_ rfl
          intro r held
          cases List.mem_singleton.mp held
          exact .inr found
  | requireClaims g ref =>
      cases g <;> cases args
      simp only [Hub.act] at acts
      (repeat' split at acts) <;> cases acts
      · exact .goesOn rfl (fun r held => .inl held) rfl
      · exact .goesOn rfl (fun r held => .inl held) rfl
      · exact .of_error rfl [] (by simp)
  | seedClaims g ref =>
      cases g <;> cases args
      cases acts
      exact .goesOn rfl (fun r held => .inl held) rfl
  | enforceAcl g ref claims =>
      cases g <;> cases args
      simp only [Hub.act] at acts
      split at acts <;> cases acts
      · exact .goesOn rfl (fun r held => .inl held) rfl
      · exact .of_error rfl [_] (by simp [Event.publisher])
      · exact .of_error rfl [_] (by simp [Event.publisher])
  | publishValidate a' ref =>
      cases args
      simp only [Hub.act] at acts
      split at acts <;> cases acts
      · exact .goesOn rfl (fun r held => .inl held) rfl
      · exact .of_error rfl [_] (by simp [Event.publisher])
  | publishKind a' ref =>
      cases args
      have held : ref ∈ (Call.publishKind a ref : Call τ).holds := List.mem_singleton_self ref
      simp only [Hub.act] at acts
      split at acts
      · next p answer =>
          cases acts
          rw [answer]
          exact .accepted held
      · next e answer =>
          cases acts
          rw [answer]
          exact .unaccepted held
  | _ => cases args

theorem broker_answers {ref : Nat} {p : Publication}
    (acts : H.act x n env now (.publishBroker a ref p) = some o) :
    o.next = none ∧ ∀ result, .returned n result ∈ o.events →
      ∀ log, effects n log = [.onPublish n ref a.channel a.data (.ok p)] →
        Answers n ref a result (effects n (o.events ++ log)) := by
  simp only [Hub.act] at acts
  split at acts
  · next answer =>
      cases acts
      refine ⟨rfl, ?_⟩
      intro result returned log asked
      have same : result = .ok (.published p) := by
        simpa [Shared.done, Outcome.after] using returned
      rw [effects_append, asked, answer, same]
      simp only [Outcome.after, Shared.done, effects, List.cons_append, List.nil_append,
        List.filter_cons, List.filter_nil, Event.publisher, decide_true, if_true,
        reduceCtorEq, decide_false, Bool.false_eq_true, if_false]
      exact .published p
  · next e answer =>
      cases acts
      refine ⟨rfl, ?_⟩
      intro result returned log asked
      have same : result = .error (.broker e) := by
        simpa [Shared.done, Outcome.after] using returned
      rw [effects_append, asked, answer, same]
      simp only [Outcome.after, Shared.done, effects, List.cons_append, List.nil_append,
        List.filter_cons, List.filter_nil, Event.publisher, decide_true, if_true,
        reduceCtorEq, decide_false, Bool.false_eq_true, if_false]
      exact .unsent p e

theorem logs_publisher {e : Event} {m : Nat} (logs : H.Logs x n env now c e)
    (about : e.publisher = some m) : m = n := by
  cases logs <;> cases about <;> rfl

theorem delivery_publisher {e : Event} {f : Nat} (about : e.delivery = some f) :
    e.publisher = none := by
  cases e <;> first | rfl | cases about

end Steps

section Runs

variable {H : Hub κ β τ ε} {s t : State κ β τ} {l : Label ε} {n : Nat} {a : PublishArgs}

theorem effects_silent {new : List Event} (silent : ∀ e ∈ new, e.publisher ≠ some n)
    (log : List Event) : effects n (new ++ log) = effects n log := by
  rw [effects_append]
  have none : effects n new = [] := by
    apply List.filter_eq_nil_iff.mpr
    intro e member
    simpa using silent e member
  rw [none, List.nil_append]

theorem step_effects_kept (others : ∀ env now, l ≠ .advance n env now)
    (h : H.step s l = some t) : effects n t.log = effects n s.log := by
  cases Hub.stepped h with
  | start r => rfl
  | @advance m env now c o at_ acts =>
      rw [after_log]
      apply effects_silent
      intro e member about
      rcases (Hub.acted acts).event member with logs | ⟨result, rfl⟩
      · cases logs_publisher logs about
        exact others env now rfl
      · cases about
  | @forward f move w x' events task moves =>
      apply effects_silent
      intro e member
      have about : e.delivery = some f := by
        cases Hub.forwarded moves <;> simp at member <;> subst member <;> rfl
      rw [delivery_publisher about]
      nofun
  | transport quiet sheds => rfl

theorem advance_publishing (g : s.Known) {env : ε} {now : Nat} (publishing : s.Publishing n a)
    (h : H.step s (.advance n env now) = some t) : t.Publishing n a := by
  obtain ⟨c, o, called, acts, rfl⟩ := Hub.step_advance h
  have bound := g.staged.calls n c called
  have calls : (s.after n c o).calls n = o.next := by
    rw [after_calls, Function.update_self]
  have unanswered : ∀ result, .returned n result ∉ s.log := by
    intro result returned
    cases called.symm.trans (g.staged.returned n result returned).2
  cases publishing with
  | entering at_ args own untouched =>
      cases called.symm.trans at_
      have asks := publishes_asks args acts
      generalize went : o.next = next at asks
      generalize said : o.events = events at asks
      rw [went] at calls
      have log : (s.after n c o).log = events ++ s.log := by rw [after_log, said]
      cases asks with
      | goesOn args' holds silent =>
          refine .entering calls args' ?_ ?_
          · intro ref held
            rcases holds ref held with mine | found
            · exact own ref mine
            · exact g.identified.registered g.addressed found
          · rw [log, effects_append, silent, untouched, List.append_nil]
      | refused early returns silent =>
          refine .ended bound calls ?_
          rw [log, effects_append, silent, untouched, List.append_nil]
          intro result returned
          rcases List.mem_append.mp returned with new | old
          · cases returns result new
            exact .refused _ early
          · exact absurd old (unanswered result)
      | @accepted ref p held =>
          cases own ref held
          refine .accepted calls ?_
          rw [log, effects_append, untouched, List.append_nil]
          simp only [effects, List.filter_cons, List.filter_nil, Event.publisher, decide_true,
            if_true]
      | @unaccepted ref e held =>
          cases own ref held
          refine .ended bound calls ?_
          rw [log, effects_append, untouched, List.append_nil]
          simp only [effects, List.filter_cons, List.filter_nil, Event.publisher, decide_true,
            if_true, reduceCtorEq, decide_false, Bool.false_eq_true, if_false]
          intro result returned
          rcases List.mem_append.mp returned with new | old
          · have same : result = .error (.channel e) := by simpa using new
            rw [same]
            exact .unaccepted e
          · exact absurd old (unanswered result)
  | @accepted p at_ asked =>
      cases called.symm.trans at_
      obtain ⟨went, answers⟩ := broker_answers acts
      rw [went] at calls
      refine .ended bound calls ?_
      rw [after_log]
      intro result returned
      rcases List.mem_append.mp returned with new | old
      · exact answers result new s.log asked
      · exact absurd old (unanswered result)
  | ended known gone answers => cases called.symm.trans gone

theorem step_publishing (g : s.Known) (publishing : s.Publishing n a)
    (h : H.step s l = some t) : t.Publishing n a := by
  by_cases mine : ∃ env now, l = .advance n env now
  · obtain ⟨env, now, rfl⟩ := mine
    exact advance_publishing g publishing h
  · have others : ∀ env now, l ≠ .advance n env now := fun env now same => mine ⟨env, now, same⟩
    have kept := step_effects_kept others h
    cases publishing with
    | entering at_ args own untouched =>
        exact .entering (step_call_kept g.staged at_ others h) args own (kept.trans untouched)
    | accepted at_ asked =>
        exact .accepted (step_call_kept g.staged at_ others h) (kept.trans asked)
    | ended known gone answers =>
        obtain ⟨later, ended⟩ := step_call_over known gone h
        refine .ended later ended ?_
        rw [kept]
        intro result returned
        rcases step_returned h returned with old | ⟨env, now, -, rfl, -⟩
        · exact answers result old
        · exact absurd rfl (others env now)

/-- Only calls that have been started ask. -/
def State.Asked (s : State κ β τ) : Prop :=
  ∀ e ∈ s.log, ∀ m, e.publisher = some m → m < s.nextCall

theorem step_asked (staged : s.Staged) (g : s.Asked) (h : H.step s l = some t) : t.Asked := by
  intro e member m about
  apply Nat.lt_of_lt_of_le ?_ (step_nextCall_le h)
  rcases step_logs h member with old | ⟨k, env, now, c, rfl, at_, logs | ⟨result, rfl⟩⟩ |
    ⟨f, move, w, -, -, delivered⟩
  · exact g e old m about
  · cases logs_publisher logs about
    exact staged.calls m c at_
  · cases about
  · rw [delivery_publisher delivered] at about
    cases about

theorem State.Asked.unused (g : s.Asked) {m : Nat} (fresh : s.nextCall ≤ m) :
    effects m s.log = [] := by
  apply List.filter_eq_nil_iff.mpr
  intro e member
  simp only [decide_eq_true_eq]
  intro about
  exact Nat.lt_irrefl m (Nat.lt_of_lt_of_le (g e member m about) fresh)

end Runs
end Cherenkov
