import Cherenkov.Hub.Flow
import Cherenkov.Hub.References

/-! `subscribers_of` is kept beside the sessions' own subscription maps. A subscribe call enters its
channel in the map and then in the index, an unsubscribe call takes it out in the same order, and
each is several steps. What the index says of a session and a channel is therefore the map's answer,
except while the one call that will correct it is in flight. The kinds, the broker and the plugins
play no part. -/

namespace Cherenkov

variable {κ β τ ε : Type}

def Call.session : Call τ → Option Nat
  | .connect a | .connectClaims a _ | .connectAuth a _ | .connectSet a _ _ => some a.sessionId
  | .enter g | .requireClaims g _ | .seedClaims g _ | .enforceAcl g _ _ => some g.sessionId
  | .subscribeHas a _ | .subscribeKind a _ | .subscribeBroker a _ _ | .subscribeReplay a _ _ _
  | .subscribeSend a _ _ _ _ | .subscribeSpawn a _ _ _ | .subscribeInsert a _ _
  | .subscribeIndex a _ _ | .subscribeStray a _ | .subscribeUnwind a _ _ _ => some a.sessionId
  | .unsubscribe a | .unsubscribeRemove a _ | .unsubscribeAbort a _ _ | .unsubscribeScrub a _
  | .unsubscribeReap a _ | .unsubscribeKind a _ => some a.sessionId
  | .publishValidate a _ | .publishKind a _ | .publishBroker a _ _ => some a.sessionId
  | .kick id | .kickSignal id _ | .deregister _ id | .deregisterScrub _ id _
  | .deregisterDrop _ id _ => some id
  | .openSession _ | .openRegister _ | .count _ | .measure _ | .gauge _ _ => none

def Request.session : Request → Option Nat
  | .openSession _ => none
  | .connect a => some a.sessionId
  | .subscribe a => some a.sessionId
  | .unsubscribe a => some a.sessionId
  | .publish a => some a.sessionId
  | .close id | .kick id => some id

/-- A call between its two updates: the session, the channel, and how often the index lists
the session until the call corrects it. -/
def Call.mark : Call τ → Option (Nat × String × Nat)
  | .subscribeIndex a _ _ => some (a.sessionId, a.channel, 0)
  | .unsubscribeAbort a _ _ | .unsubscribeScrub a _ => some (a.sessionId, a.channel, 1)
  | _ => none

def Call.leaving : Call τ → Bool
  | .deregisterScrub _ _ _ | .deregisterDrop _ _ _ => true
  | _ => false

/-- A session makes its calls one after another. -/
def Serial (s : State κ β τ) (l : Label ε) : Prop :=
  ∀ r i, l = .start r → r.session = some i → ∀ m c, s.calls m = some c → c.session ≠ some i

/-- Besides, no call enters a session in the index of a channel while another is about to
remove that channel's emptied list, and there are identifiers left for every session that is
opened. -/
structure IndexApart (s : State κ β τ) (l : Label ε) : Prop where
  serial : Serial s l
  apart : ∀ n env now a ref cursor, l = .advance n env now →
    s.calls n = some (.subscribeIndex a ref cursor) →
    ∀ m b r, s.calls m = some (.unsubscribeReap b r) → b.channel ≠ a.channel
  room : ∀ n env now capacity, l = .advance n env now →
    s.calls n = some (.openSession capacity) → s.shared.nextRef < 2 ^ 64

namespace State

def listed (s : State κ β τ) (i : Nat) (channel : String) : Nat :=
  (s.shared.registry.subscribersOf channel).count i

def maps (s : State κ β τ) (i : Nat) (channel : String) : Bool :=
  (s.shared.heap i).subscriptions.containsKey channel

structure Indexed (s : State κ β τ) : Prop where
  ids : ∀ ref, ref < s.shared.nextRef → (s.shared.heap ref).id = ref
  counter : s.shared.registry.nextId = s.shared.nextRef % 2 ^ 64
  serial : ∀ n m c d i, s.calls n = some c → s.calls m = some d → c.session = some i →
    d.session = some i → n = m
  present : ∀ n c i ref, s.calls n = some c → c.address = some (i, ref) → c.leaving = false →
    s.shared.registry.get i = some ref
  opening : ∀ n m ref, s.calls n = some (.openRegister ref) →
    s.calls m = some (.openRegister ref) → n = m
  unborn : ∀ n ref, s.calls n = some (.openRegister ref) →
    s.shared.registry.get ref = none ∧ (s.shared.heap ref).subscriptions = ∅ ∧
      ∀ m c i, s.calls m = some c → c.address ≠ some (i, ref)
  marked : ∀ n c i channel k, s.calls n = some c → c.mark = some (i, channel, k) →
    s.listed i channel = k ∧ s.maps i channel = decide (k = 0)
  settled : ∀ i ref channel, s.shared.registry.get i = some ref →
    (∀ n c k, s.calls n = some c → c.mark ≠ some (i, channel, k)) →
    s.listed i channel = if s.maps i channel then 1 else 0
  gone : ∀ n who i ref, s.calls n = some (.deregisterScrub who i ref) →
    s.shared.registry.get i = none
  vacant : ∀ i channel, s.shared.registry.get i = none →
    (∀ n who ref, s.calls n ≠ some (.deregisterScrub who i ref)) → s.listed i channel = 0
  reaping : ∀ n a ref, s.calls n = some (.unsubscribeReap a ref) →
    s.shared.registry.subscribersOf a.channel = []

end State

theorem mark_address {c : Call τ} {i k : Nat} {channel : String}
    (h : c.mark = some (i, channel, k)) :
    c.session = some i ∧ c.leaving = false ∧ ∃ ref, c.address = some (i, ref) := by
  cases c <;> cases h <;> exact ⟨rfl, rfl, _, rfl⟩

theorem address_session {c : Call τ} {i ref : Nat} (h : c.address = some (i, ref)) :
    c.session = some i := by
  cases c with
  | deregister who id =>
      cases who <;> cases h
      rfl
  | _ => first | (cases h; done) | (cases h; rfl)

theorem entry_session (r : Request) : (r.entry : Call τ).session = r.session := by
  cases r <;> rfl

theorem entry_address (r : Request) : (r.entry : Call τ).address = none := by
  cases r <;> rfl

section Act

variable {H : Hub κ β τ ε} {x : Shared κ β τ} {n : Nat} {env : ε} {now : Nat} {c next : Call τ}
  {o : Outcome κ β τ}

theorem act_session (acts : H.act x n env now c = some o) (goes : o.next = some next) {i : Nat}
    (h : next.session = some i) : c.session = some i := by
  cases Hub.goes acts goes <;> first | exact h | cases h

theorem act_mark (acts : H.act x n env now c = some o) (goes : o.next = some next) {i k : Nat}
    {channel : String} (h : next.mark = some (i, channel, k)) :
    (∃ a ref f, c = .unsubscribeAbort a ref f ∧ c.mark = some (i, channel, k)) ∨
      (∃ a ref cursor, c = .subscribeInsert a ref cursor ∧
        (x.heap ref).subscriptions.containsKey a.channel = false ∧
        (i, channel, k) = (a.sessionId, a.channel, 0)) ∨
      ∃ a ref, c = .unsubscribeRemove a ref ∧
        (x.heap ref).subscriptions.containsKey a.channel = true ∧
        (i, channel, k) = (a.sessionId, a.channel, 1) := by
  cases Hub.goes acts goes with
  | aborted a ref f => exact .inl ⟨a, ref, f, rfl, h⟩
  | inserted a ref cursor absent =>
      cases h
      exact .inr (.inl ⟨a, ref, cursor, rfl, absent, rfl⟩)
  | detached a ref found =>
      cases h
      refine .inr (.inr ⟨a, ref, rfl, ?_, rfl⟩)
      simp [DashMap.containsKey, found]
  | _ => cases h

def Call.listedAfter (i : Nat) (channel : String) (k : Nat) : Call τ → Nat
  | .subscribeIndex a _ _ => if channel = a.channel ∧ i = a.sessionId then k + 1 else k
  | .unsubscribeScrub a _ => if channel = a.channel ∧ i = a.sessionId then 0 else k
  | .deregisterScrub _ id _ => if i = id then 0 else k
  | _ => k

def Call.mapsAfter (i : Nat) (channel : String) (b : Bool) : Call τ → Bool
  | .subscribeInsert a ref _ => b || (i == ref && channel == a.channel)
  | .unsubscribeRemove a ref => b && !(i == ref && channel == a.channel)
  | _ => b

theorem count_without (ids : List Nat) (i id : Nat) :
    (ids.filter (· ≠ id)).count i = if i = id then 0 else ids.count i := by
  split
  · next same =>
      subst same
      refine List.count_eq_zero_of_not_mem ?_
      simp
  · next other => exact List.count_filter (by simpa using other)

/-- The removal of an emptied list aside, the index changes by the session of the call. -/
theorem listed_after (i : Nat) (channel : String)
    (empty : ∀ a ref, c = .unsubscribeReap a ref → channel = a.channel →
      x.registry.subscribersOf channel = []) :
    ((x.registryAfter c).subscribersOf channel).count i =
      c.listedAfter i channel ((x.registry.subscribersOf channel).count i) := by
  cases c with
  | subscribeIndex a ref cursor =>
      simp only [Shared.registryAfter, SessionRegistry.subscribersOf_addSubscription,
        Call.listedAfter]
      by_cases here : channel = a.channel
      · by_cases own : i = a.sessionId
        · simp [here, own]
        · simp [here, own, Ne.symm own]
      · simp [here]
  | unsubscribeScrub a ref =>
      simp only [Shared.registryAfter, SessionRegistry.subscribersOf_scrubChannel,
        Call.listedAfter]
      by_cases here : channel = a.channel
      · simp only [here, if_true, true_and, count_without]
      · simp [here]
  | unsubscribeReap a ref =>
      simp only [Shared.registryAfter, SessionRegistry.subscribersOf_removeChannel,
        Call.listedAfter]
      split
      · next here => rw [empty a ref rfl here]
      · rfl
  | deregisterScrub who id ref =>
      simp only [Shared.registryAfter, SessionRegistry.subscribersOf_scrub, Call.listedAfter,
        count_without]
  | deregister who id =>
      simp only [Shared.registryAfter]
      split <;> rfl
  | _ => rfl

theorem maps_after (n : Nat) {i : Nat} (old : i < x.nextRef) (channel : String) :
    (x.subscriptionsAfter n c i).containsKey channel =
      c.mapsAfter i channel ((x.heap i).subscriptions.containsKey channel) := by
  cases c with
  | openSession capacity =>
      simp only [Shared.subscriptionsAfter, Function.update_of_ne (Nat.ne_of_lt old),
        Call.mapsAfter]
  | subscribeInsert a ref cursor =>
      simp only [Shared.subscriptionsAfter, Call.mapsAfter]
      by_cases own : i = ref
      · subst own
        simp only [Function.update_self, beq_self_eq_true, Bool.true_and]
        by_cases here : channel = a.channel
        · subst here
          split
          · next there => simp [there]
          · simp [DashMap.containsKey]
        · split
          · simp [here]
          · simp [DashMap.containsKey, DashMap.get_put_ne _ _ here, here]
      · simp [own]
  | unsubscribeRemove a ref =>
      simp only [Shared.subscriptionsAfter, Call.mapsAfter]
      by_cases own : i = ref
      · subst own
        simp only [Function.update_self, beq_self_eq_true, Bool.true_and]
        by_cases here : channel = a.channel
        · subst here
          split
          · simp [DashMap.containsKey]
          · next absent => simpa [DashMap.containsKey] using absent
        · split
          · simp [DashMap.containsKey, DashMap.get_remove_ne _ here, here]
          · simp [here]
      · simp [own]
  | _ => rfl

theorem registryAfter_kept {i ref : Nat} (found : x.registry.get i = some ref)
    (stays : ∀ who, c ≠ .deregister who i) (other : ∀ r, c = .openRegister r → (x.heap r).id ≠ i) :
    (x.registryAfter c).get i = some ref := by
  cases c with
  | openRegister r =>
      simp only [Shared.registryAfter, SessionRegistry.get, SessionRegistry.register,
        DashMap.get_put_ne _ _ (Ne.symm (other r rfl))]
      exact found
  | unsubscribeScrub a r =>
      simp only [Shared.registryAfter, SessionRegistry.scrubChannel]
      split <;> exact found
  | deregister who id =>
      have apart : i ≠ id := fun same => stays who (by rw [same])
      simp only [Shared.registryAfter]
      split
      · simpa only [SessionRegistry.get, SessionRegistry.removeSession,
          DashMap.get_remove_ne _ apart] using found
      · exact found
  | _ => exact found

theorem subscribersOf_after_nil {channel : String} (empty : x.registry.subscribersOf channel = [])
    (apart : ∀ a ref cursor, c = .subscribeIndex a ref cursor → channel ≠ a.channel) :
    (x.registryAfter c).subscribersOf channel = [] := by
  cases c with
  | subscribeIndex a ref cursor =>
      simp only [Shared.registryAfter, SessionRegistry.subscribersOf_addSubscription,
        if_neg (apart a ref cursor rfl)]
      exact empty
  | unsubscribeScrub a ref =>
      simp [Shared.registryAfter, SessionRegistry.subscribersOf_scrubChannel, empty]
  | unsubscribeReap a ref =>
      simp [Shared.registryAfter, SessionRegistry.subscribersOf_removeChannel, empty]
  | deregisterScrub who id ref =>
      simp [Shared.registryAfter, SessionRegistry.subscribersOf_scrub, empty]
  | deregister who id =>
      simp only [Shared.registryAfter]
      split <;> exact empty
  | _ => exact empty

theorem act_reaping {a : UnsubscribeArgs} {ref : Nat} (acts : H.act x n env now c = some o)
    (goes : o.next = some (.unsubscribeReap a ref)) :
    c = .unsubscribeScrub a ref ∧ (x.registry.scrubChannel a.sessionId a.channel).2 = true := by
  cases Hub.goes acts goes with
  | emptied _ _ verdict => exact ⟨rfl, verdict⟩

theorem act_deregistered {who : Closing} {i ref : Nat} (acts : H.act x n env now c = some o)
    (goes : o.next = some (.deregisterScrub who i ref)) :
    c = .deregister who i ∧ x.registry.get i = some ref := by
  cases Hub.goes acts goes with
  | removed _ _ found => exact ⟨rfl, found⟩

theorem act_staying {i ref : Nat} (acts : H.act x n env now c = some o)
    (goes : o.next = some next) (address : next.address = some (i, ref))
    (stays : next.leaving = false) :
    c.leaving = false ∧ (∀ who j, c ≠ .deregister who j) ∧ ∀ r, c ≠ .openRegister r := by
  cases Hub.goes acts goes with
  | registered r => cases address
  | removed who id found => cases stays
  | unlisted who id r => cases stays
  | dropped who id r => cases who <;> cases address
  | _ => exact ⟨rfl, fun _ _ => nofun, fun _ => nofun⟩

theorem Call.listedAfter_other {i : Nat} (other : c.session ≠ some i) (channel : String)
    (k : Nat) : c.listedAfter i channel k = k := by
  cases c with
  | subscribeIndex a ref cursor =>
      exact if_neg fun both => other (by rw [both.2]; rfl)
  | unsubscribeScrub a ref =>
      exact if_neg fun both => other (by rw [both.2]; rfl)
  | deregisterScrub who id ref =>
      exact if_neg fun same => other (by rw [same]; rfl)
  | _ => rfl

theorem Call.mapsAfter_other {i : Nat} (other : ∀ id, c.address ≠ some (id, i)) (channel : String)
    (b : Bool) : c.mapsAfter i channel b = b := by
  cases c with
  | subscribeInsert a ref cursor =>
      have apart : (i == ref) = false := beq_eq_false_iff_ne.mpr fun same => other _ (by rw [same]; rfl)
      simp only [Call.mapsAfter, apart, Bool.false_and, Bool.or_false]
  | unsubscribeRemove a ref =>
      have apart : (i == ref) = false := beq_eq_false_iff_ne.mpr fun same => other _ (by rw [same]; rfl)
      simp only [Call.mapsAfter, apart, Bool.false_and, Bool.not_false, Bool.and_true]
  | _ => rfl

end Act

namespace State

variable {s : State κ β τ} {c : Call τ} {n i ref : Nat}

theorem Indexed.registered (g : s.Indexed) (addressed : s.Addressed)
    (found : s.shared.registry.get i = some ref) : ref = i := by
  obtain ⟨old, id⟩ := addressed.registry i ref found
  exact (g.ids ref old).symm.trans id

theorem Indexed.address_eq (g : s.Indexed) (addressed : s.Addressed) (at_ : s.calls n = some c)
    (address : c.address = some (i, ref)) : ref = i :=
  (g.ids ref (addressed.held n c at_ ref (Call.address_holds address))).symm.trans
    (addressed.address n c i ref at_ address)

theorem Indexed.only (g : s.Indexed) {m k : Nat} {d : Call τ} {channel : String}
    (at_ : s.calls n = some c) (own : c.session = some i) (found : s.calls m = some d)
    (mark : d.mark = some (i, channel, k)) : d = c := by
  cases g.serial n m c d i at_ found own (mark_address mark).1
  exact Option.some.inj (found.symm.trans at_)

end State

section Advance

variable {H : Hub κ β τ ε} {s : State κ β τ} {n : Nat} {env : ε} {now : Nat} {c : Call τ}
  {o : Outcome κ β τ} (g : s.Indexed) (addressed : s.Addressed)
  (apart : IndexApart s (.advance n env now)) (at_ : s.calls n = some c)
  (acts : H.act s.shared n env now c = some o)

include g addressed apart at_ acts

omit g addressed apart in
theorem after_session {m i : Nat} {d : Call τ} (found : (s.after n c o).calls m = some d)
    (own : d.session = some i) : ∃ d', s.calls m = some d' ∧ d'.session = some i := by
  rcases after_call found with ⟨rfl, goes⟩ | ⟨_, old⟩
  · exact ⟨c, at_, act_session acts goes own⟩
  · exact ⟨d, old, own⟩

omit addressed in
theorem after_ids {ref : Nat} (old : ref < (s.after n c o).shared.nextRef) :
    ((s.after n c o).shared.heap ref).id = ref := by
  refine after_id g.ids g.counter ?_ acts old
  rintro capacity rfl
  exact apart.room n env now capacity rfl at_

omit apart in
theorem after_registered {i ref : Nat} (found : (s.after n c o).shared.registry.get i = some ref) :
    s.shared.registry.get i = some i ∨ c = .openRegister i := by
  rw [after_registry acts] at found
  rcases registryAfter_get found with old | ⟨rfl, id⟩
  · cases g.registered addressed old
    exact .inl old
  · have old := addressed.held n _ at_ ref (List.mem_singleton_self _)
    cases (g.ids ref old).symm.trans id
    exact .inr rfl

omit addressed apart in
theorem after_listed (i : Nat) (channel : String) :
    (s.after n c o).listed i channel = c.listedAfter i channel (s.listed i channel) := by
  simp only [State.listed, after_registry acts]
  refine listed_after i channel ?_
  rintro a ref rfl rfl
  exact g.reaping n a ref at_

theorem after_maps {i ref : Nat} (found : (s.after n c o).shared.registry.get i = some ref)
    (channel : String) :
    (s.after n c o).maps i channel = c.mapsAfter i channel (s.maps i channel) := by
  have acted := Hub.acted acts
  have quiet := quiet_after s n c o
  have old : i < s.shared.nextRef := by
    rcases after_registered g addressed at_ acts found with old | rfl
    · exact (addressed.registry i i old).1
    · exact addressed.held n _ at_ i (List.mem_singleton_self _)
  have next := step_addressed addressed (Hub.step_act at_ acts)
  have here : ref = i := by
    obtain ⟨known, id⟩ := next.registry i ref found
    exact (after_ids g apart at_ acts known).symm.trans id
  subst here
  have kept : ((s.after n c o).shared.heap ref).subscriptions =
      (o.shared.heap ref).subscriptions := by
    refine dropArcs_subscriptions (s := s.landed n o) (held_of_registered ?_) _
    have id := (next.registry ref ref found).2
    rw [quiet.id] at id
    rw [quiet.registry] at found
    change o.shared.registry.get (o.shared.heap ref).id = some ref
    rw [id]
    exact found
  simp only [State.maps, kept, acted.subscriptions]
  exact maps_after n old channel

theorem after_present {m i ref : Nat} {d : Call τ} (found : (s.after n c o).calls m = some d)
    (address : d.address = some (i, ref)) (stays : d.leaving = false) :
    (s.after n c o).shared.registry.get i = some ref := by
  rw [after_registry acts]
  rcases after_call found with ⟨rfl, goes⟩ | ⟨other, old⟩
  · obtain ⟨own, stay, known⟩ := act_staying acts goes address stays
    have there : s.shared.registry.get i = some ref := by
      rcases goes_address_origin (Hub.goes acts goes) address with before | looked
      · exact g.present m c i ref at_ before own
      · exact looked
    exact registryAfter_kept there (fun who => stay who i) fun r same => absurd same (known r)
  · refine registryAfter_kept (g.present m d i ref old address stays) ?_ ?_
    · rintro who rfl
      exact other (g.serial m n d _ i old at_ (address_session address) rfl)
    · rintro r rfl id
      have fresh := addressed.held n _ at_ r (List.mem_singleton_self _)
      cases (g.ids r fresh).symm.trans id
      cases g.address_eq addressed old address
      exact (g.unborn n i at_).2.2 m d i old address

theorem after_opening {m m' ref : Nat} (found : (s.after n c o).calls m = some (.openRegister ref))
    (found' : (s.after n c o).calls m' = some (.openRegister ref)) : m = m' := by
  have fresh : o.next = some (.openRegister ref) → ∀ m, s.calls m ≠ some (.openRegister ref) := by
    intro goes m old
    have known := addressed.held m _ old ref (List.mem_singleton_self _)
    rw [(act_openRegister acts goes).2] at known
    exact Nat.lt_irrefl _ known
  rcases after_call found with ⟨rfl, goes⟩ | ⟨_, old⟩ <;>
    rcases after_call found' with ⟨rfl, goes'⟩ | ⟨_, old'⟩
  · rfl
  · exact absurd old' (fresh goes m')
  · exact absurd old (fresh goes' m)
  · exact g.opening m m' ref old old'

theorem after_unborn {m ref : Nat} (found : (s.after n c o).calls m = some (.openRegister ref)) :
    (s.after n c o).shared.registry.get ref = none ∧
      ((s.after n c o).shared.heap ref).subscriptions = ∅ ∧
      ∀ m' d i, (s.after n c o).calls m' = some d → d.address ≠ some (i, ref) := by
  have acted := Hub.acted acts
  have quiet := quiet_after s n c o
  have before : s.shared.registry.get ref = none ∧ c ≠ .openRegister ref ∧
      s.shared.subscriptionsAfter n c ref = ∅ ∧
      ∀ m' d i, s.calls m' = some d → d.address ≠ some (i, ref) := by
    rcases after_call found with ⟨rfl, goes⟩ | ⟨other, old⟩
    · obtain ⟨⟨capacity, rfl⟩, rfl⟩ := act_openRegister acts goes
      refine ⟨?_, nofun, by simp [Shared.subscriptionsAfter], ?_⟩
      · cases there : s.shared.registry.get s.shared.nextRef with
        | none => rfl
        | some r =>
            cases g.registered addressed there
            exact absurd (addressed.registry _ _ there).1 (Nat.lt_irrefl _)
      · intro m' d i seen address
        exact Nat.lt_irrefl _ (addressed.held m' d seen _ (Call.address_holds address))
    · obtain ⟨absent, empty, alone⟩ := g.unborn m ref old
      have known := addressed.held m _ old ref (List.mem_singleton_self _)
      refine ⟨absent, ?_, ?_, alone⟩
      · rintro rfl
        exact other (g.opening m n ref old at_)
      · rw [← empty]
        cases c with
        | openSession capacity =>
            simp only [Shared.subscriptionsAfter, Function.update_of_ne (Nat.ne_of_lt known)]
        | subscribeInsert a r cursor =>
            have apart : ref ≠ r := fun same => alone n _ a.sessionId at_ (by rw [same]; rfl)
            simp only [Shared.subscriptionsAfter, Function.update_of_ne apart]
        | unsubscribeRemove a r =>
            have apart : ref ≠ r := fun same => alone n _ a.sessionId at_ (by rw [same]; rfl)
            simp only [Shared.subscriptionsAfter, Function.update_of_ne apart]
        | _ => rfl
  obtain ⟨absent, unmoved, empty, alone⟩ := before
  refine ⟨?_, ?_, ?_⟩
  · cases there : (s.after n c o).shared.registry.get ref with
    | none => rfl
    | some r =>
        rcases after_registered g addressed at_ acts there with old | same
        · cases absent.symm.trans old
        · exact absurd same unmoved
  · rcases quiet.subscriptions ref with same | emptied
    · rw [same, acted.subscriptions, empty]
    · exact emptied
  · intro m' d i seen address
    rcases after_call seen with ⟨rfl, goes⟩ | ⟨_, old⟩
    · rcases goes_address_origin (Hub.goes acts goes) address with same | looked
      · exact alone m' c i at_ same
      · cases g.registered addressed looked
        cases absent.symm.trans looked
    · exact alone m' d i old address

theorem after_elsewhere {i ref : Nat} (other : c.session ≠ some i)
    (found : (s.after n c o).shared.registry.get i = some ref) (channel : String) :
    (s.after n c o).listed i channel = s.listed i channel ∧
      (s.after n c o).maps i channel = s.maps i channel := by
  rw [after_listed g at_ acts, after_maps g addressed apart at_ acts found]
  refine ⟨Call.listedAfter_other other channel _, Call.mapsAfter_other ?_ channel _⟩
  intro id address
  cases g.address_eq addressed at_ address
  exact other (address_session address)

theorem after_marked {m i k : Nat} {d : Call τ} {channel : String}
    (found : (s.after n c o).calls m = some d) (mark : d.mark = some (i, channel, k)) :
    (s.after n c o).listed i channel = k ∧ (s.after n c o).maps i channel = decide (k = 0) := by
  obtain ⟨own, stays, ref, address⟩ := mark_address mark
  have there := after_present g addressed apart at_ acts found address stays
  rcases after_call found with ⟨rfl, goes⟩ | ⟨other, old⟩
  · rw [after_listed g at_ acts, after_maps g addressed apart at_ acts there]
    rcases act_mark acts goes mark with ⟨a, r, f, rfl, marked⟩ | ⟨a, r, cursor, rfl, fresh, same⟩ |
      ⟨a, r, rfl, there', same⟩
    · exact g.marked m _ i channel k at_ marked
    all_goals
      cases same
      have here : r = a.sessionId := g.address_eq addressed at_ rfl
      have unmarked : ∀ m' d' k', s.calls m' = some d' →
          d'.mark ≠ some (a.sessionId, a.channel, k') := by
        intro m' d' k' seen marked
        cases g.only at_ rfl seen marked
        cases marked
      have before := g.settled a.sessionId r a.channel (g.present m _ _ _ at_ rfl rfl) unmarked
      subst here
    · have empty : s.maps a.sessionId a.channel = false := fresh
      simp [Call.listedAfter, Call.mapsAfter, before, empty]
    · have full : s.maps a.sessionId a.channel = true := there'
      simp [Call.listedAfter, Call.mapsAfter, before, full]
  · have elsewhere : c.session ≠ some i := fun same =>
      other (g.serial m n d c i old at_ own same)
    rw [(after_elsewhere g addressed apart at_ acts elsewhere there channel).1,
      (after_elsewhere g addressed apart at_ acts elsewhere there channel).2]
    exact g.marked m d i channel k old mark

omit apart in
/-- A session's own call that owes no correction afterwards leaves the two sides equal. -/
theorem after_own {i : Nat} {channel : String} (own : c.session = some i)
    (old : s.shared.registry.get i = some i)
    (unmarked : ∀ d k, o.next = some d → d.mark ≠ some (i, channel, k)) :
    c.listedAfter i channel (s.listed i channel) =
      if c.mapsAfter i channel (s.maps i channel) then 1 else 0 := by
  have settled : (∀ k, c.mark ≠ some (i, channel, k)) →
      s.listed i channel = if s.maps i channel then 1 else 0 := by
    intro none_
    refine g.settled i i channel old ?_
    intro m d k seen mark
    cases g.only at_ own seen mark
    exact none_ k mark
  cases c with
  | subscribeIndex a ref cursor =>
      cases own
      by_cases here : channel = a.channel
      · obtain ⟨listed, maps⟩ := g.marked n _ a.sessionId a.channel 0 at_ rfl
        simp [Call.listedAfter, Call.mapsAfter, here, listed, maps]
      · simp only [Call.listedAfter, Call.mapsAfter, here, false_and, if_false]
        refine settled ?_
        rintro k ⟨⟩
        exact here rfl
  | unsubscribeAbort a ref f =>
      cases own
      cases acts
      refine settled ?_
      rintro k ⟨⟩
      exact unmarked _ 1 rfl rfl
  | unsubscribeScrub a ref =>
      cases own
      by_cases here : channel = a.channel
      · obtain ⟨listed, maps⟩ := g.marked n _ a.sessionId a.channel 1 at_ rfl
        simp [Call.listedAfter, Call.mapsAfter, here, maps]
      · simp only [Call.listedAfter, Call.mapsAfter, here, false_and, if_false]
        refine settled ?_
        rintro k ⟨⟩
        exact here rfl
  | subscribeInsert a ref cursor =>
      cases own
      cases g.address_eq addressed at_ rfl
      have before := settled (by rintro k ⟨⟩)
      by_cases here : channel = a.channel
      · subst here
        simp only [Hub.act] at acts
        split at acts
        · next there =>
            have full : s.maps a.sessionId a.channel = true := there
            simp [Call.listedAfter, Call.mapsAfter, before, full]
        · cases acts
          exact absurd rfl (unmarked _ 0 rfl)
      · simpa [Call.listedAfter, Call.mapsAfter, here] using before
  | unsubscribeRemove a ref =>
      cases own
      cases g.address_eq addressed at_ rfl
      have before := settled (by rintro k ⟨⟩)
      by_cases here : channel = a.channel
      · subst here
        simp only [Hub.act] at acts
        split at acts
        · next absent =>
            have empty : s.maps a.sessionId a.channel = false := by
              simp [State.maps, DashMap.containsKey, absent]
            simp [Call.listedAfter, Call.mapsAfter, before, empty]
        · cases acts
          exact absurd rfl (unmarked _ 1 rfl)
      · simpa [Call.listedAfter, Call.mapsAfter, here] using before
  | deregisterScrub who id ref =>
      cases own
      cases (g.gone n who i ref at_).symm.trans old
  | _ => exact settled (by rintro k ⟨⟩)

theorem after_settled {i ref : Nat} {channel : String}
    (found : (s.after n c o).shared.registry.get i = some ref)
    (unmarked : ∀ m d k, (s.after n c o).calls m = some d → d.mark ≠ some (i, channel, k)) :
    (s.after n c o).listed i channel = if (s.after n c o).maps i channel then 1 else 0 := by
  rcases after_registered g addressed at_ acts found with old | rfl
  · by_cases own : c.session = some i
    · rw [after_listed g at_ acts, after_maps g addressed apart at_ acts found]
      refine after_own g addressed at_ acts own old ?_
      intro d k goes
      exact unmarked n d k (by rw [after_calls, Function.update_self, goes])
    · obtain ⟨listed, maps⟩ := after_elsewhere g addressed apart at_ acts own found channel
      rw [listed, maps]
      refine g.settled i i channel old ?_
      intro m d k seen mark
      by_cases same : m = n
      · subst same
        cases at_.symm.trans seen
        exact own (mark_address mark).1
      · refine unmarked m d k ?_ mark
        rw [after_calls, Function.update_of_ne same, seen]
  · obtain ⟨absent, empty, alone⟩ := g.unborn n i at_
    have none_ : s.listed i channel = 0 := by
      refine g.vacant i channel absent ?_
      intro m who r leaving
      cases g.address_eq addressed leaving rfl
      exact alone m _ i leaving rfl
    rw [after_listed g at_ acts, after_maps g addressed apart at_ acts found]
    simp [Call.listedAfter, Call.mapsAfter, none_, State.maps, empty, DashMap.containsKey]

theorem after_gone {m i ref : Nat} {who : Closing}
    (found : (s.after n c o).calls m = some (.deregisterScrub who i ref)) :
    (s.after n c o).shared.registry.get i = none := by
  cases there : (s.after n c o).shared.registry.get i with
  | none => rfl
  | some r =>
      rcases after_call found with ⟨rfl, goes⟩ | ⟨_, old⟩
      · obtain ⟨rfl, known⟩ := act_deregistered acts goes
        rw [after_registry acts] at there
        simp only [Shared.registryAfter, known, Option.isSome_some, if_true] at there
        simp [SessionRegistry.removeSession, SessionRegistry.get] at there
      · rcases after_registered g addressed at_ acts there with known | rfl
        · cases (g.gone m who i ref old).symm.trans known
        · cases g.address_eq addressed old rfl
          exact absurd rfl ((g.unborn n i at_).2.2 m _ i old)

omit addressed apart in
theorem after_vacant {i : Nat} {channel : String}
    (absent : (s.after n c o).shared.registry.get i = none)
    (scrubbed : ∀ m who ref, (s.after n c o).calls m ≠ some (.deregisterScrub who i ref)) :
    (s.after n c o).listed i channel = 0 := by
  have still : ∀ m d, m ≠ n → s.calls m = some d → (s.after n c o).calls m = some d := by
    intro m d other seen
    rw [after_calls, Function.update_of_ne other, seen]
  have gone : s.shared.registry.get i = none := by
    rw [after_registry acts] at absent
    rcases registryAfter_none absent with old | ⟨who, rfl⟩
    · exact old
    · cases there : s.shared.registry.get i with
      | none => rfl
      | some r =>
          simp only [Hub.act, there] at acts
          cases acts
          exact absurd (Function.update_self ..) (scrubbed n who r)
  rw [after_listed g at_ acts]
  by_cases scrubs : ∃ who ref, c = .deregisterScrub who i ref
  · obtain ⟨who, ref, rfl⟩ := scrubs
    exact if_pos rfl
  · have before : s.listed i channel = 0 := by
      refine g.vacant i channel gone ?_
      intro m who ref seen
      by_cases same : m = n
      · subst same
        exact scrubs ⟨who, ref, Option.some.inj (at_.symm.trans seen)⟩
      · exact scrubbed m who ref (still m _ same seen)
    rw [before]
    cases c with
    | subscribeIndex a ref cursor =>
        refine if_neg fun own => ?_
        have there := g.present n _ a.sessionId ref at_ rfl rfl
        rw [← own.2, gone] at there
        cases there
    | unsubscribeScrub a ref =>
        simp only [Call.listedAfter]
        split <;> rfl
    | deregisterScrub who id ref =>
        simp only [Call.listedAfter]
        split <;> rfl
    | _ => rfl

omit addressed in
theorem after_reaping {m ref : Nat} {a : UnsubscribeArgs}
    (found : (s.after n c o).calls m = some (.unsubscribeReap a ref)) :
    (s.after n c o).shared.registry.subscribersOf a.channel = [] := by
  rw [after_registry acts]
  rcases after_call found with ⟨rfl, goes⟩ | ⟨_, old⟩
  · obtain ⟨rfl, verdict⟩ := act_reaping acts goes
    exact SessionRegistry.scrubChannel_verdict verdict
  · refine subscribersOf_after_nil (g.reaping m a ref old) ?_
    rintro b r cursor rfl
    exact apart.apart n env now b r cursor rfl at_ m a ref old

theorem advance_indexed : (s.after n c o).Indexed where
  ids _ := after_ids g apart at_ acts
  counter := after_nextId g.counter acts
  serial := by
    intro m m' d d' i found found' own own'
    obtain ⟨e, old, session⟩ := after_session at_ acts found own
    obtain ⟨e', old', session'⟩ := after_session at_ acts found' own'
    exact g.serial m m' e e' i old old' session session'
  present _ _ _ _ := after_present g addressed apart at_ acts
  opening _ _ _ := after_opening g addressed apart at_ acts
  unborn _ _ := after_unborn g addressed apart at_ acts
  marked _ _ _ _ _ := after_marked g addressed apart at_ acts
  settled _ _ _ := after_settled g addressed apart at_ acts
  gone _ _ _ _ := after_gone g addressed apart at_ acts
  vacant _ _ := after_vacant g at_ acts
  reaping _ _ _ := after_reaping g apart at_ acts

end Advance

section Run

variable {H : Hub κ β τ ε} {s t : State κ β τ} {l : Label ε}

theorem start_indexed (g : s.Indexed) (staged : s.Staged) {r : Request}
    (serial : Serial s (.start r : Label ε)) :
    ({ s with
        calls := Function.update s.calls s.nextCall (some r.entry)
        nextCall := s.nextCall + 1 } : State κ β τ).Indexed := by
  have called : ∀ m c, Function.update s.calls s.nextCall (some r.entry) m = some c →
      m = s.nextCall ∧ c = r.entry ∨ s.calls m = some c := by
    intro m c found
    rw [Function.update_apply] at found
    split at found
    · next same => exact .inl ⟨same, (Option.some.inj found).symm⟩
    · exact .inr found
  have still : ∀ m c, s.calls m = some c →
      Function.update s.calls s.nextCall (some r.entry) m = some c := by
    intro m c seen
    rw [Function.update_of_ne (Nat.ne_of_lt (staged.calls m c seen)), seen]
  have moved : ∀ m c i ref, Function.update s.calls s.nextCall (some r.entry) m = some c →
      c.address = some (i, ref) → s.calls m = some c := by
    intro m c i ref found address
    rcases called m c found with ⟨_, rfl⟩ | old
    · rw [entry_address] at address
      cases address
    · exact old
  have opened : ∀ m ref, Function.update s.calls s.nextCall (some r.entry) m =
      some (.openRegister ref) → s.calls m = some (.openRegister ref) := by
    intro m ref found
    rcases called m _ found with ⟨_, same⟩ | old
    · cases r <;> cases same
    · exact old
  refine ⟨g.ids, g.counter, ?_, ?_, ?_, ?_, ?_, ?_, ?_, ?_, ?_⟩
  · intro m m' c c' i found found' own own'
    rcases called m c found with ⟨rfl, rfl⟩ | old <;>
      rcases called m' c' found' with ⟨rfl, rfl⟩ | old'
    · rfl
    · rw [entry_session] at own
      exact absurd own' (serial r i rfl own m' c' old')
    · rw [entry_session] at own'
      exact absurd own (serial r i rfl own' m c old)
    · exact g.serial m m' c c' i old old' own own'
  · intro m c i ref found address
    exact g.present m c i ref (moved m c i ref found address) address
  · intro m m' ref found found'
    exact g.opening m m' ref (opened m ref found) (opened m' ref found')
  · intro m ref found
    obtain ⟨absent, empty, alone⟩ := g.unborn m ref (opened m ref found)
    exact ⟨absent, empty, fun m' c i seen address =>
      alone m' c i (moved m' c i ref seen address) address⟩
  · intro m c i channel k found mark
    obtain ⟨_, _, ref, address⟩ := mark_address mark
    exact g.marked m c i channel k (moved m c i ref found address) mark
  · intro i ref channel found unmarked
    exact g.settled i ref channel found fun m c k seen => unmarked m c k (still m c seen)
  · intro m who i ref found
    exact g.gone m who i ref (moved m _ i ref found rfl)
  · intro i channel absent scrubbed
    exact g.vacant i channel absent fun m who ref seen => scrubbed m who ref (still m _ seen)
  · intro m a ref found
    exact g.reaping m a ref (moved m _ a.sessionId ref found rfl)

/-- Steps of forwarders and transports leave the calls, the registry and the maps of
registered sessions alone. -/
theorem frame_indexed {x' : Shared κ β τ} {log : List Event} (g : s.Indexed)
    (addressed : s.Addressed) (registry : x'.registry = s.shared.registry)
    (nextRef : x'.nextRef = s.shared.nextRef) (id : ∀ r, (x'.heap r).id = (s.shared.heap r).id)
    (empty : ∀ r, (s.shared.heap r).subscriptions = ∅ → (x'.heap r).subscriptions = ∅)
    (kept : ∀ r, s.shared.registry.get (s.shared.heap r).id = some r →
      (x'.heap r).subscriptions = (s.shared.heap r).subscriptions) :
    ({ s with shared := x', log := log } : State κ β τ).Indexed := by
  have listed : ∀ i channel,
      ({ s with shared := x', log := log } : State κ β τ).listed i channel =
        s.listed i channel := by
    intro i channel
    simp only [State.listed, registry]
  have maps : ∀ i ref channel, s.shared.registry.get i = some ref →
      ({ s with shared := x', log := log } : State κ β τ).maps i channel = s.maps i channel := by
    intro i ref channel found
    cases g.registered addressed found
    have here := (addressed.registry i i found).2
    simp only [State.maps]
    rw [kept i (by rw [here]; exact found)]
  refine ⟨?_, ?_, g.serial, ?_, g.opening, ?_, ?_, ?_, ?_, ?_, ?_⟩
  · intro ref old
    rw [nextRef] at old
    exact (id ref).trans (g.ids ref old)
  · rw [registry, nextRef]
    exact g.counter
  · intro n c i ref found address stays
    rw [registry]
    exact g.present n c i ref found address stays
  · intro n ref found
    obtain ⟨absent, none_, alone⟩ := g.unborn n ref found
    rw [registry]
    exact ⟨absent, empty ref none_, alone⟩
  · intro n c i channel k found mark
    obtain ⟨_, stays, ref, address⟩ := mark_address mark
    rw [listed, maps i ref channel (g.present n c i ref found address stays)]
    exact g.marked n c i channel k found mark
  · intro i ref channel found unmarked
    rw [registry] at found
    rw [listed, maps i ref channel found]
    exact g.settled i ref channel found unmarked
  · intro n who i ref found
    rw [registry]
    exact g.gone n who i ref found
  · intro i channel absent scrubbed
    rw [registry] at absent
    rw [listed]
    exact g.vacant i channel absent scrubbed
  · intro n a ref found
    rw [registry]
    exact g.reaping n a ref found

theorem step_indexed (g : s.Indexed) (addressed : s.Addressed) (staged : s.Staged)
    (apart : IndexApart s l) (h : H.step s l = some t) : t.Indexed := by
  cases Hub.stepped h with
  | start r => exact start_indexed g staged apart.serial
  | advance at_ acts => exact advance_indexed g addressed apart at_ acts
  | forward task moves =>
      have frame := (Hub.forwarded moves).frame task
      exact frame_indexed g addressed frame.registry frame.nextRef frame.id
        (fun r empty => (frame.subscriptions r).trans empty) fun r _ => frame.subscriptions r
  | transport quiet sheds kept =>
      refine frame_indexed g addressed quiet.registry quiet.nextRef quiet.id ?_ kept
      intro r empty
      rcases quiet.subscriptions r with same | emptied
      · exact same.trans empty
      · exact emptied

theorem initial_indexed (kinds : Nat → κ) (broker : β) :
    (State.initial kinds broker : State κ β τ).Indexed where
  ids _ old := absurd old (Nat.not_lt_zero _)
  counter := rfl
  serial _ _ _ _ _ found := by cases found
  present _ _ _ _ found := by cases found
  opening _ _ _ found := by cases found
  unborn _ _ found := by cases found
  marked _ _ _ _ _ found := by cases found
  settled _ _ _ found := by
    simp [State.initial, SessionRegistry.new, SessionRegistry.get] at found
  gone _ _ _ _ found := by cases found
  vacant _ _ _ _ := rfl
  reaping _ _ _ found := by cases found

/-- `subscribers_of` lists each registered session whose map has the channel once, and
nothing else. -/
def State.IndexExact (s : State κ β τ) : Prop :=
  ∀ channel i, (s.shared.registry.subscribersOf channel).count i =
    if (s.shared.registry.get i).any
      fun ref => (s.shared.heap ref).subscriptions.containsKey channel then 1 else 0

theorem State.Indexed.exact (g : s.Indexed) (addressed : s.Addressed)
    (idle : ∀ n, s.calls n = none) : s.IndexExact := by
  intro channel i
  cases found : s.shared.registry.get i with
  | none =>
      refine g.vacant i channel found ?_
      intro n who ref called
      cases (idle n).symm.trans called
  | some ref =>
      cases g.registered addressed found
      refine g.settled i i channel found ?_
      intro n c k called
      cases (idle n).symm.trans called

theorem run_indexed {kinds : Nat → κ} {broker : β}
    (run : H.machine.Run IndexApart (State.initial kinds broker) s) : s.Indexed ∧ s.Addressed := by
  have kept := run.invariant (I := fun s => s.Indexed ∧ s.Addressed ∧ s.Staged)
    ⟨initial_indexed kinds broker, initial_addressed kinds broker, initial_staged kinds broker⟩
    fun s l t before apart h => ⟨step_indexed before.1 before.2.1 before.2.2 apart h,
      step_addressed before.2.1 h, step_staged before.2.2 h⟩
  exact ⟨kept.1, kept.2.1⟩

/-- In every run whose steps keep the two updates of the index apart, the index is exact
whenever no call is in flight. -/
theorem index_exact {kinds : Nat → κ} {broker : β}
    (run : H.machine.Run IndexApart (State.initial kinds broker) s)
    (idle : ∀ n, s.calls n = none) : s.IndexExact :=
  (run_indexed run).1.exact (run_indexed run).2 idle

end Run

section Schedules

def serial (s : State κ β τ) : Label ε → Bool
  | .start r => (List.range s.nextCall).all fun m =>
      (s.calls m).all fun c => c.session.all fun i => r.session != some i
  | _ => true

theorem serial_sound (s : State κ β τ) (l : Label ε) (staged : s.Staged)
    (h : serial s l = true) : Serial s l := by
  rintro r i rfl own m c called same
  simp only [serial, List.all_eq_true, List.mem_range] at h
  have apart := h m (staged.calls m c called)
  simp [called, same, own] at apart

/-- Session 0 subscribes and unsubscribes again; `k` steps into that and `rest` steps before
its end, session 1 subscribes. -/
def lostEntryRun (k rest : Nat) : List (Label Unit) :=
  Request.steps (.openSession 16) 0 5 ++ Request.steps (.openSession 16) 1 5 ++
  Request.steps (.subscribe ⟨0, 7, "rooms.lobby", 0⟩) 2 9 ++
  Request.steps (.unsubscribe ⟨0, 8, "rooms.lobby"⟩) 3 k ++
  Request.steps (.subscribe ⟨1, 9, "rooms.lobby", 0⟩) 4 9 ++
  List.replicate rest (.advance 3 () 0)

/-- Session 1 is subscribed and not in the index: its entry was put into the list that the
other session had found empty and then removed. -/
theorem index_entry_lost :
    ∃ s, defaults.hub.machine.Run Serial defaults.boot s ∧ (∀ n, s.calls n = none) ∧
      s.shared.registry.get 1 = some 1 ∧
      (s.shared.heap 1).subscriptions.containsKey "rooms.lobby" = true ∧
      s.shared.registry.subscribersOf "rooms.lobby" = [] ∧ ¬ s.IndexExact := by
  obtain ⟨s, run, silent, registered, subscribed, lost⟩ := Machine.execWithin_witness
    (M := defaults.hub.machine) serial_sound (fun _ _ _ staged _ h => step_staged staged h)
    (s := defaults.boot) (initial_staged _ _) (lostEntryRun 4 2)
    (fun s => idle s = true ∧ s.shared.registry.get 1 = some 1 ∧
      (s.shared.heap 1).subscriptions.containsKey "rooms.lobby" = true ∧
      s.shared.registry.subscribersOf "rooms.lobby" = []) (by decide +kernel)
  have staged : s.Staged :=
    run.invariant (initial_staged _ _) fun _ _ _ staged _ h => step_staged staged h
  refine ⟨s, run, idle_sound staged silent, registered, subscribed, lost, ?_⟩
  intro exact_
  have once := exact_ "rooms.lobby" 1
  simp [lost, registered, subscribed] at once

def indexApart (s : State κ β τ) (l : Label ε) : Bool :=
  serial s l &&
    match l with
    | .advance n _ _ =>
        match s.calls n with
        | some (.subscribeIndex a _ _) =>
            (List.range s.nextCall).all fun m =>
              match s.calls m with
              | some (.unsubscribeReap b _) => b.channel != a.channel
              | _ => true
        | some (.openSession _) => decide (s.shared.nextRef < 2 ^ 64)
        | _ => true
    | _ => true

theorem indexApart_sound (s : State κ β τ) (l : Label ε) (staged : s.Staged)
    (h : indexApart s l = true) : IndexApart s l := by
  simp only [indexApart, Bool.and_eq_true] at h
  refine ⟨serial_sound s l staged h.1, ?_, ?_⟩
  · rintro n env now a ref cursor rfl at_ m b r reaping
    have apart := h.2
    simp only [at_, List.all_eq_true, List.mem_range] at apart
    have differs := apart m (staged.calls m _ reaping)
    rw [reaping] at differs
    exact bne_iff_ne.mp differs
  · rintro n env now capacity rfl at_
    have room := h.2
    simp only [at_, decide_eq_true_eq] at room
    exact room

/-- The same calls with the subscription of session 1 before the list is emptied. -/
theorem index_exact_overlapping :
    ∃ s, defaults.hub.machine.Run IndexApart defaults.boot s ∧ (∀ n, s.calls n = none) ∧
      (s.shared.heap 1).subscriptions.containsKey "rooms.lobby" = true ∧ s.IndexExact := by
  obtain ⟨s, run, silent, subscribed⟩ := Machine.execWithin_witness
    (M := defaults.hub.machine) indexApart_sound (fun _ _ _ staged _ h => step_staged staged h)
    (s := defaults.boot) (initial_staged _ _) (lostEntryRun 3 2)
    (fun s => idle s = true ∧
      (s.shared.heap 1).subscriptions.containsKey "rooms.lobby" = true) (by decide +kernel)
  have staged : s.Staged :=
    run.invariant (initial_staged _ _) fun _ _ _ staged _ h => step_staged staged h
  have nothing := idle_sound staged silent
  exact ⟨s, run, nothing, subscribed, index_exact run nothing⟩

end Schedules

end Cherenkov
