import Cherenkov.Hub.References
import Cherenkov.Hub.Stages

/-! Each entry of a session's subscription map names a forwarder of that session and channel that
runs on until its outbox is closed. Aborting is always preceded by taking the entry out of the map,
and a forwarder is entered at most once. -/

namespace Cherenkov

variable {κ β τ ε : Type}

def Call.indexing : Call τ → Bool
  | .subscribeIndex _ _ _ => true
  | _ => false

/-- The forwarder runs for this session and channel, unless the outbox was closed. -/
def Tended (x : Shared κ β τ) (f ref : Nat) (channel : String) : Prop :=
  (x.heap ref).outbox.closed = true ∨
    ∃ w, x.forwarders f = some w ∧ w.session = ref ∧ w.channel = channel ∧ w.aborted = false

/-- The forwarder is in no subscription map, and its call will not enter it any more. -/
structure Detached (x : Shared κ β τ) (calls : Nat → Option (Call τ)) (nextCall f : Nat) :
    Prop where
  known : f < nextCall
  absent : ∀ ref channel, (x.heap ref).subscriptions.get channel ≠ some f
  settled : ∀ c, calls f = some c → c.indexing = true

structure Tasked (x : Shared κ β τ) (calls : Nat → Option (Call τ)) (nextCall : Nat) : Prop where
  entry : ∀ ref channel f, (x.heap ref).subscriptions.get channel = some f → Tended x f ref channel
  known : ∀ ref channel f, (x.heap ref).subscriptions.get channel = some f → f < nextCall
  settled : ∀ ref channel f c, (x.heap ref).subscriptions.get channel = some f →
    calls f = some c → c.indexing = true
  unique : ∀ ref channel ref' channel' f, (x.heap ref).subscriptions.get channel = some f →
    (x.heap ref').subscriptions.get channel' = some f → ref = ref' ∧ channel = channel'
  inserting : ∀ n a ref cursor, calls n = some (.subscribeInsert a ref cursor) →
    Tended x n ref a.channel
  detached : ∀ n a ref f, calls n = some (.unsubscribeAbort a ref f) →
    Detached x calls nextCall f

variable {x y : Shared κ β τ} {calls : Nat → Option (Call τ)} {k : Nat}

/-- Dropping a session object aborts exactly the forwarders of its own map. -/
theorem Tasked.abortAll (h : Tasked x calls k) (ref : Nat) : Tasked (x.abortAll ref) calls k := by
  have subscriptions : ∀ r channel f,
      ((x.abortAll ref).heap r).subscriptions.get channel = some f →
        r ≠ ref ∧ (x.heap r).subscriptions.get channel = some f := by
    intro r channel f found
    by_cases same : r = ref
    · subst same
      simp [Shared.abortAll, Shared.setSubscriptions, Shared.setSession] at found
    · refine ⟨same, ?_⟩
      simpa [Shared.abortAll, Shared.setSubscriptions, Shared.setSession, Shared.abort, same] using found
  have spared : ∀ f r channel, f ∉ (x.heap ref).subscriptions.values → Tended x f r channel →
      Tended (x.abortAll ref) f r channel := by
    intro f r channel outside tended
    rcases tended with closed | ⟨w, task, rest⟩
    · exact .inl ((quiet_abortAll x ref).closed r closed)
    · refine .inr ⟨w, ?_, rest⟩
      simpa [Shared.abortAll, Shared.setSubscriptions, Shared.setSession, Shared.abort, outside] using task
  refine ⟨?_, ?_, ?_, ?_, ?_, ?_⟩
  · intro r channel f found
    obtain ⟨other, old⟩ := subscriptions r channel f found
    refine spared f r channel ?_ (h.entry r channel f old)
    intro member
    obtain ⟨channel', here⟩ := DashMap.mem_values.mp member
    exact other (h.unique _ _ _ _ _ old here).1
  · exact fun r channel f found => h.known r channel f (subscriptions r channel f found).2
  · exact fun r channel f c found => h.settled r channel f c (subscriptions r channel f found).2
  · exact fun r channel r' channel' f first second =>
      h.unique r channel r' channel' f (subscriptions _ _ _ first).2 (subscriptions _ _ _ second).2
  · intro n a r cursor at_
    refine spared n r a.channel ?_ (h.inserting n a r cursor at_)
    intro member
    obtain ⟨channel, here⟩ := DashMap.mem_values.mp member
    cases h.settled _ _ _ _ here at_
  · intro n a r f at_
    have old := h.detached n a r f at_
    exact ⟨old.known, fun r channel found => old.absent r channel (subscriptions r channel f found).2,
      old.settled⟩

theorem Tasked.stored (h : Tasked x calls k) (forwarders : y.forwarders = x.forwarders)
    (subscriptions : ∀ r, (y.heap r).subscriptions = (x.heap r).subscriptions)
    (closed : ∀ r, (x.heap r).outbox.closed = true → (y.heap r).outbox.closed = true) :
    Tasked y calls k := by
  have kept : ∀ f r channel, Tended x f r channel → Tended y f r channel := by
    intro f r channel tended
    rcases tended with shut | ⟨w, task, rest⟩
    · exact .inl (closed r shut)
    · exact .inr ⟨w, forwarders ▸ task, rest⟩
  refine ⟨?_, ?_, ?_, ?_, ?_, ?_⟩
  · intro r channel f found
    rw [subscriptions] at found
    exact kept f r channel (h.entry r channel f found)
  · intro r channel f found
    rw [subscriptions] at found
    exact h.known r channel f found
  · intro r channel f c found
    rw [subscriptions] at found
    exact h.settled r channel f c found
  · intro r channel r' channel' f first second
    rw [subscriptions] at first second
    exact h.unique r channel r' channel' f first second
  · exact fun n a r cursor at_ => kept n r a.channel (h.inserting n a r cursor at_)
  · intro n a r f at_
    have old := h.detached n a r f at_
    refine ⟨old.known, ?_, old.settled⟩
    intro r channel
    rw [subscriptions]
    exact old.absent r channel

theorem Tasked.sheds (h : Tasked x calls k) (sheds : Sheds x y) : Tasked y calls k := by
  induction sheds with
  | refl => exact h
  | stored _ forwarders subscriptions closed ih => exact ih.stored forwarders subscriptions closed
  | dropped _ ref ih => exact ih.abortAll ref

theorem Tasked.moved (h : Tasked x calls k) {n : Nat} {c : Call τ} {next : Option (Call τ)}
    (at_ : calls n = some c) (settles : c.indexing = true → next = none)
    (inserts : ∀ a ref cursor, next ≠ some (.subscribeInsert a ref cursor))
    (aborts : ∀ a ref f, next ≠ some (.unsubscribeAbort a ref f)) :
    Tasked x (Function.update calls n next) k := by
  have settled : ∀ f, (∀ c, calls f = some c → c.indexing = true) →
      ∀ c, Function.update calls n next f = some c → c.indexing = true := by
    intro f old c' found
    rw [Function.update_apply] at found
    split at found
    · next same =>
        rw [settles (old c (same ▸ at_))] at found
        cases found
    · exact old c' found
  refine ⟨h.entry, h.known, ?_, h.unique, ?_, ?_⟩
  · exact fun ref channel f c' found =>
      settled f (fun c old => h.settled ref channel f c found old) c'
  · intro m a ref cursor found
    rw [Function.update_apply] at found
    split at found
    · exact absurd found (inserts a ref cursor)
    · exact h.inserting m a ref cursor found
  · intro m a ref f found
    rw [Function.update_apply] at found
    split at found
    · exact absurd found (aborts a ref f)
    · have old := h.detached m a ref f found
      exact ⟨old.known, old.absent, settled f old.settled⟩

theorem Tasked.abort (h : Tasked x calls k) {f : Nat}
    (absent : ∀ ref channel, (x.heap ref).subscriptions.get channel ≠ some f)
    (entered : ∀ a ref cursor, calls f ≠ some (.subscribeInsert a ref cursor)) :
    Tasked (x.abort [f]) calls k := by
  have spared : ∀ g r channel, g ≠ f → Tended x g r channel → Tended (x.abort [f]) g r channel := by
    intro g r channel other tended
    rcases tended with closed | ⟨w, task, rest⟩
    · exact .inl closed
    · refine .inr ⟨w, ?_, rest⟩
      simpa [Shared.abort, other] using task
  refine ⟨?_, h.known, h.settled, h.unique, ?_, ?_⟩
  · intro ref channel g found
    refine spared g ref channel ?_ (h.entry ref channel g found)
    rintro rfl
    exact absent ref channel found
  · intro n a ref cursor at_
    refine spared n ref a.channel ?_ (h.inserting n a ref cursor at_)
    rintro rfl
    exact entered a ref cursor at_
  · exact fun n a ref g at_ => ⟨(h.detached n a ref g at_).known, (h.detached n a ref g at_).absent,
      (h.detached n a ref g at_).settled⟩

section Advance

variable {H : Hub κ β τ ε} {n : Nat} {env : ε} {now : Nat} {c : Call τ} {o : Outcome κ β τ}

theorem subscribeSpawn_tasked (h : Tasked x calls k) {a : SubscribeArgs} {ref : Nat}
    {cursor : ChannelCursor} {stream : τ} (at_ : calls n = some (.subscribeSpawn a ref cursor stream)) :
    Tasked (x.setForwarder n (some ⟨ref, a.channel, stream, none, false, false⟩))
      (Function.update calls n (some (.subscribeInsert a ref cursor))) k := by
  have fresh : ∀ ref channel, (x.heap ref).subscriptions.get channel ≠ some n := by
    intro r channel found
    cases h.settled r channel n _ found at_
  have spared : ∀ g r channel, g ≠ n → Tended x g r channel →
      Tended (x.setForwarder n (some ⟨ref, a.channel, stream, none, false, false⟩)) g r channel := by
    intro g r channel other tended
    rcases tended with closed | ⟨w, task, rest⟩
    · exact .inl closed
    · exact .inr ⟨w, by simpa only [Shared.setForwarder, Function.update_of_ne other] using task, rest⟩
  have apart : ∀ {r channel f}, (x.heap r).subscriptions.get channel = some f → f ≠ n := by
    rintro r channel f found rfl
    exact fresh r channel found
  refine ⟨?_, h.known, ?_, h.unique, ?_, ?_⟩
  · intro r channel f found
    exact spared f r channel (apart found) (h.entry r channel f found)
  · intro r channel f c found called
    rw [Function.update_of_ne (apart found)] at called
    exact h.settled r channel f c found called
  · intro m a' r cursor' found
    rw [Function.update_apply] at found
    split at found
    · next same =>
        cases found
        exact .inr ⟨_, by rw [same]; exact Function.update_self .., rfl, rfl, rfl⟩
    · next other => exact spared m r a'.channel other (h.inserting m a' r cursor' found)
  · intro m a' r f found
    rw [Function.update_apply] at found
    split at found
    · cases found
    · have old := h.detached m a' r f found
      have other : f ≠ n := by
        rintro rfl
        cases old.settled _ at_
      refine ⟨old.known, old.absent, ?_⟩
      rw [Function.update_of_ne other]
      exact old.settled

theorem subscribeInsert_tasked (h : Tasked x calls k) (bound : n < k) {a : SubscribeArgs} {ref : Nat}
    {cursor : ChannelCursor} (at_ : calls n = some (.subscribeInsert a ref cursor)) :
    Tasked (x.setSubscriptions ref ((x.heap ref).subscriptions.put a.channel n))
      (Function.update calls n (some (.subscribeIndex a ref cursor))) k := by
  have fresh : ∀ {r channel f}, (x.heap r).subscriptions.get channel = some f → f ≠ n := by
    rintro r channel f found rfl
    cases h.settled r channel f _ found at_
  have entries : ∀ r channel f, ((x.setSubscriptions ref
      ((x.heap ref).subscriptions.put a.channel n)).heap r).subscriptions.get channel = some f →
      (r = ref ∧ channel = a.channel ∧ f = n) ∨
        ((x.heap r).subscriptions.get channel = some f ∧ f ≠ n) := by
    intro r channel f found
    by_cases same : r = ref
    · subst same
      simp only [Shared.setSubscriptions, Shared.setSession, Function.update_self,
        DashMap.get_put] at found
      split at found
      · next here =>
          cases found
          exact .inl ⟨rfl, here, rfl⟩
      · exact .inr ⟨found, fresh found⟩
    · simp only [Shared.setSubscriptions, Shared.setSession, Function.update_of_ne same] at found
      exact .inr ⟨found, fresh found⟩
  have kept : ∀ f r channel, Tended x f r channel → Tended (x.setSubscriptions ref
      ((x.heap ref).subscriptions.put a.channel n)) f r channel := by
    intro f r channel tended
    rcases tended with closed | task
    · exact .inl (setSession_closed (by rfl) r closed)
    · exact .inr task
  refine ⟨?_, ?_, ?_, ?_, ?_, ?_⟩
  · intro r channel f found
    rcases entries r channel f found with ⟨rfl, rfl, rfl⟩ | ⟨old, _⟩
    · exact kept _ _ _ (h.inserting _ a _ cursor at_)
    · exact kept _ _ _ (h.entry r channel f old)
  · intro r channel f found
    rcases entries r channel f found with ⟨_, _, rfl⟩ | ⟨old, _⟩
    · exact bound
    · exact h.known r channel f old
  · intro r channel f c found called
    rcases entries r channel f found with ⟨_, _, rfl⟩ | ⟨old, other⟩
    · rw [Function.update_self] at called
      cases called
      rfl
    · rw [Function.update_of_ne other] at called
      exact h.settled r channel f c old called
  · intro r channel r' channel' f first second
    rcases entries r channel f first with ⟨rfl, rfl, rfl⟩ | ⟨old, other⟩ <;>
      rcases entries r' channel' _ second with ⟨rfl, rfl, same⟩ | ⟨old', other'⟩
    · exact ⟨rfl, rfl⟩
    · exact absurd rfl other'
    · exact absurd same other
    · exact h.unique r channel r' channel' f old old'
  · intro m a' r cursor' found
    rw [Function.update_apply] at found
    split at found
    · cases found
    · exact kept _ _ _ (h.inserting m a' r cursor' found)
  · intro m a' r f found
    rw [Function.update_apply] at found
    split at found
    · cases found
    · have old := h.detached m a' r f found
      have other : f ≠ n := by
        rintro rfl
        cases old.settled _ at_
      refine ⟨old.known, ?_, ?_⟩
      · intro r' channel found'
        rcases entries r' channel f found' with ⟨_, _, same⟩ | ⟨before, _⟩
        · exact other same
        · exact old.absent r' channel before
      · rw [Function.update_of_ne other]
        exact old.settled

theorem unsubscribeRemove_tasked (h : Tasked x calls k) {a : UnsubscribeArgs} {ref f : Nat}
    (at_ : calls n = some (.unsubscribeRemove a ref))
    (found : (x.heap ref).subscriptions.get a.channel = some f) :
    Tasked (x.setSubscriptions ref ((x.heap ref).subscriptions.remove a.channel))
      (Function.update calls n (some (.unsubscribeAbort a ref f))) k := by
  have entries : ∀ r channel g, ((x.setSubscriptions ref
      ((x.heap ref).subscriptions.remove a.channel)).heap r).subscriptions.get channel = some g →
      (x.heap r).subscriptions.get channel = some g ∧ ¬(r = ref ∧ channel = a.channel) := by
    intro r channel g there
    by_cases same : r = ref
    · subst same
      simp only [Shared.setSubscriptions, Shared.setSession, Function.update_self,
        DashMap.get_remove] at there
      split at there
      · cases there
      · next other => exact ⟨there, fun here => other here.2⟩
    · simp only [Shared.setSubscriptions, Shared.setSession, Function.update_of_ne same] at there
      exact ⟨there, fun here => same here.1⟩
  have kept : ∀ f r channel, Tended x f r channel → Tended (x.setSubscriptions ref
      ((x.heap ref).subscriptions.remove a.channel)) f r channel := by
    intro f r channel tended
    rcases tended with closed | task
    · exact .inl (setSession_closed (by rfl) r closed)
    · exact .inr task
  have settled : ∀ g, (∀ c, calls g = some c → c.indexing = true) →
      ∀ c, Function.update calls n (some (.unsubscribeAbort a ref f)) g = some c →
        c.indexing = true := by
    intro g old c called
    have other : g ≠ n := by
      rintro rfl
      cases old _ at_
    rw [Function.update_of_ne other] at called
    exact old c called
  refine ⟨?_, ?_, ?_, ?_, ?_, ?_⟩
  · exact fun r channel g there => kept g r channel (h.entry r channel g (entries r channel g there).1)
  · exact fun r channel g there => h.known r channel g (entries r channel g there).1
  · exact fun r channel g c there => settled g
      (fun c => h.settled r channel g c (entries r channel g there).1) c
  · exact fun r channel r' channel' g first second => h.unique r channel r' channel' g
      (entries r channel g first).1 (entries r' channel' g second).1
  · intro m a' r cursor called
    rw [Function.update_apply] at called
    split at called
    · cases called
    · exact kept m r a'.channel (h.inserting m a' r cursor called)
  · intro m a' r g called
    rw [Function.update_apply] at called
    split at called
    · cases called
      refine ⟨h.known ref a.channel f found, ?_, settled f (fun c => h.settled ref a.channel f c found)⟩
      intro r channel there
      obtain ⟨old, other⟩ := entries r channel f there
      exact other (h.unique r channel ref a.channel f old found)
    · have old := h.detached m a' r g called
      exact ⟨old.known, fun r channel there => old.absent r channel (entries r channel g there).1,
        settled g old.settled⟩

theorem openSession_tasked (h : Tasked x calls k) {session : Session} {registry : SessionRegistry}
    {next : Call τ} {capacity : Nat} (at_ : calls n = some (.openSession capacity))
    (empty : session.subscriptions = ∅) (entry : next = .openRegister x.nextRef)
    (held : ∀ m a ref cursor, calls m = some (.subscribeInsert a ref cursor) → ref < x.nextRef) :
    Tasked { x with registry, heap := Function.update x.heap x.nextRef session, nextRef := x.nextRef + 1 }
      (Function.update calls n (some next)) k := by
  have moved : Tasked x (Function.update calls n (some next)) k := by
    subst entry
    exact h.moved at_ (by simp [Call.indexing]) (by simp) (by simp)
  have entries : ∀ r channel f,
      (Function.update x.heap x.nextRef session r).subscriptions.get channel = some f →
        r ≠ x.nextRef ∧ (x.heap r).subscriptions.get channel = some f := by
    intro r channel f found
    rw [Function.update_apply] at found
    split at found
    · simp [empty] at found
    · next other => exact ⟨other, found⟩
  have kept : ∀ f r channel, r ≠ x.nextRef → Tended x f r channel → Tended { x with
      registry, heap := Function.update x.heap x.nextRef session, nextRef := x.nextRef + 1 }
        f r channel := by
    intro f r channel other tended
    rcases tended with closed | task
    · exact .inl (by simpa only [Function.update_of_ne other] using closed)
    · exact .inr task
  refine ⟨?_, ?_, ?_, ?_, ?_, ?_⟩
  · intro r channel f found
    obtain ⟨other, old⟩ := entries r channel f found
    exact kept f r channel other (moved.entry r channel f old)
  · exact fun r channel f found => moved.known r channel f (entries r channel f found).2
  · exact fun r channel f c found => moved.settled r channel f c (entries r channel f found).2
  · exact fun r channel r' channel' f first second => moved.unique r channel r' channel' f
      (entries r channel f first).2 (entries r' channel' f second).2
  · intro m a ref cursor called
    refine kept m ref a.channel ?_ (moved.inserting m a ref cursor called)
    rw [Function.update_apply] at called
    split at called
    · subst entry
      cases called
    · exact Nat.ne_of_lt (held m a ref cursor called)
  · intro m a ref f called
    have old := moved.detached m a ref f called
    exact ⟨old.known, fun r channel found => old.absent r channel (entries r channel f found).2,
      old.settled⟩

theorem act_tasked (h : Tasked x calls k) (at_ : calls n = some c) (bound : n < k)
    (held : ∀ m a ref cursor, calls m = some (.subscribeInsert a ref cursor) → ref < x.nextRef)
    (acts : H.act x n env now c = some o) :
    Tasked o.shared (Function.update calls n o.next) k := by
  have acted := Hub.acted acts
  have settles : c.indexing = true → o.next = none := by
    intro indexing
    cases goes : o.next with
    | none => rfl
    | some next => cases Hub.goes acts goes <;> cases indexing
  have inserts : (∀ a ref cursor stream, c ≠ .subscribeSpawn a ref cursor stream) →
      ∀ a ref cursor, o.next ≠ some (.subscribeInsert a ref cursor) := by
    intro other a ref cursor goes
    cases Hub.goes acts goes
    exact other _ _ _ _ rfl
  have aborts : (∀ a ref, c ≠ .unsubscribeRemove a ref) →
      ∀ a ref f, o.next ≠ some (.unsubscribeAbort a ref f) := by
    intro other a ref f goes
    cases Hub.goes acts goes
    exact other _ _ rfl
  cases c with
  | openSession capacity =>
      cases acts
      refine openSession_tasked h at_ ?_ rfl held
      split <;> rfl
  | subscribeSpawn a ref cursor stream =>
      cases acts
      exact subscribeSpawn_tasked h at_
  | subscribeInsert a ref cursor =>
      simp only [Hub.act] at acts
      split at acts
      · cases acts
        exact h.moved at_ (by simp [Call.indexing]) (by simp [Shared.goto]) (by simp [Shared.goto])
      · cases acts
        exact subscribeInsert_tasked h bound at_
  | subscribeStray a ref =>
      cases acts
      have absent : ∀ r channel, (x.heap r).subscriptions.get channel ≠ some n := by
        intro r channel found
        cases h.settled r channel n _ found at_
      refine (h.abort absent ?_).moved at_ (by simp [Call.indexing]) (by simp [Shared.goto])
        (by simp [Shared.goto])
      intro a' ref' cursor' other
      cases at_.symm.trans other
  | unsubscribeRemove a ref =>
      simp only [Hub.act] at acts
      split at acts
      · cases acts
        exact h.moved at_ (by simp [Call.indexing]) (by simp [Shared.done]) (by simp [Shared.done])
      · next f found =>
          cases acts
          exact unsubscribeRemove_tasked h at_ found
  | unsubscribeAbort a ref f =>
      cases acts
      have old := h.detached n a ref f at_
      refine (h.abort old.absent ?_).moved at_ (by simp [Call.indexing]) (by simp [Shared.goto])
        (by simp [Shared.goto])
      intro a' ref' cursor' called
      cases old.settled _ called
  | _ =>
      exact (h.moved at_ settles (inserts (by rintro _ _ _ _ ⟨⟩)) (aborts (by rintro _ _ ⟨⟩))).stored
        acted.forwarders acted.subscriptions fun r => acted.closed r fun _ => rfl

end Advance

/-- A forwarder ends on an abort or a closed outbox, provided its stream does not end. -/
theorem forward_tasked {H : Hub κ β τ ε} {s : State κ β τ} {f : Nat} {w : Forwarder τ}
    {x' : Shared κ β τ} {events : List Event} (h : Tasked s.shared s.calls s.nextCall)
    (task : s.shared.forwarders f = some w) (moved : H.Forwarded s.shared f w x' events)
    (unfinished : ∀ b, H.broker.next s.shared.broker w.stream ≠ (b, .finished)) :
    Tasked x' s.calls s.nextCall := by
  have frame := moved.frame task
  have kept : ∀ g r channel, Tended s.shared g r channel → Tended x' g r channel := by
    rintro g r channel (closed | ⟨v, there, session, label, running⟩)
    · exact .inl (frame.closed r closed)
    · by_cases same : g = f
      · subst same
        cases task.symm.trans there
        cases after : x'.forwarders g with
        | some w' =>
            obtain ⟨session', label', _, running'⟩ := frame.own w' after
            exact .inr ⟨w', after, session'.trans session, label'.trans label, running'.trans running⟩
        | none =>
            cases moved with
            | exhausted polled free next => exact absurd next (unfinished _)
            | ended why =>
                rcases why with aborted | closed
                · rw [running] at aborted
                  cases aborted
                · exact .inl (frame.closed r (session ▸ closed))
            | lagged polled free next => cases task.symm.trans after
            | _ => simp [Shared.setForwarder] at after
      · exact .inr ⟨v, by rw [frame.others g same]; exact there, session, label, running⟩
  refine ⟨?_, ?_, ?_, ?_, ?_, ?_⟩
  · intro ref channel g found
    rw [frame.subscriptions] at found
    exact kept g ref channel (h.entry ref channel g found)
  · intro ref channel g found
    rw [frame.subscriptions] at found
    exact h.known ref channel g found
  · intro ref channel g c found
    rw [frame.subscriptions] at found
    exact h.settled ref channel g c found
  · intro ref channel ref' channel' g first second
    rw [frame.subscriptions] at first second
    exact h.unique ref channel ref' channel' g first second
  · exact fun n a ref cursor at_ => kept n ref a.channel (h.inserting n a ref cursor at_)
  · intro n a ref g at_
    have old := h.detached n a ref g at_
    refine ⟨old.known, ?_, old.settled⟩
    intro r channel
    rw [frame.subscriptions]
    exact old.absent r channel

theorem start_tasked (h : Tasked x calls k) (r : Request) :
    Tasked x (Function.update calls k (some r.entry)) (k + 1) := by
  have settled : ∀ f, f < k → (∀ c, calls f = some c → c.indexing = true) →
      ∀ c, Function.update calls k (some r.entry) f = some c → c.indexing = true := by
    intro f old before c called
    rw [Function.update_of_ne (Nat.ne_of_lt old)] at called
    exact before c called
  refine ⟨h.entry, ?_, ?_, h.unique, ?_, ?_⟩
  · exact fun ref channel f found => Nat.lt_succ_of_lt (h.known ref channel f found)
  · exact fun ref channel f c found => settled f (h.known ref channel f found)
      (fun c => h.settled ref channel f c found) c
  · intro n a ref cursor called
    rw [Function.update_apply] at called
    split at called
    · cases r <;> cases called
    · exact h.inserting n a ref cursor called
  · intro n a ref f called
    rw [Function.update_apply] at called
    split at called
    · cases r <;> cases called
    · have old := h.detached n a ref f called
      exact ⟨Nat.lt_succ_of_lt old.known, old.absent, settled f old.known old.settled⟩

theorem step_tasked {H : Hub κ β τ ε} {s t : State κ β τ} {l : Label ε} (staged : s.Staged)
    (addressed : s.Addressed)
    (unfinished : ∀ f w b, s.shared.forwarders f = some w →
      H.broker.next s.shared.broker w.stream ≠ (b, .finished))
    (h : Tasked s.shared s.calls s.nextCall) (step : H.step s l = some t) :
    Tasked t.shared t.calls t.nextCall := by
  cases Hub.stepped step with
  | start r => exact start_tasked h r
  | @advance n env now c o at_ acts =>
      refine (act_tasked h at_ (staged.calls n c at_) ?_ acts).sheds (sheds_after s n c o)
      intro m a ref cursor called
      exact addressed.held m _ called ref (List.mem_singleton_self _)
  | forward task moves =>
      have kept := forward_tasked h task (Hub.forwarded moves) fun b => unfinished _ _ b task
      exact kept
  | transport quiet sheds => exact h.sheds sheds

theorem initial_tasked (kinds : Nat → κ) (broker : β) :
    Tasked (State.initial kinds broker : State κ β τ).shared (fun _ => none) 0 := by
  refine ⟨?_, ?_, ?_, ?_, ?_, ?_⟩
  · intro ref channel f found
    simp [State.initial, Session.new] at found
  · intro ref channel f found
    simp [State.initial, Session.new] at found
  · intro ref channel f c found called
    cases called
  · intro ref channel ref' channel' f found
    simp [State.initial, Session.new] at found
  · intro n a ref cursor called
    cases called
  · intro n a ref f called
    cases called

end Cherenkov
