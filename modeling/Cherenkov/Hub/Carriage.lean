import Cherenkov.Hub.Course
import Cherenkov.Hub.Delivery

/-! A hub makes up no publication. What a session gets was accepted by a kind of this hub, or came
out of its broker; in between it waits in a kind's history, in a call, with a forwarder or in the
broker. Kinds and brokers enter through what they hold: the publications they could still hand out.
-/

namespace Cherenkov

variable {κ β τ ε : Type}

/-- `holds` bounds what the kind replays, and only an accepted publication joins it. -/
structure ChannelKind.Archives (K : ChannelKind κ) (holds : κ → Publication → Prop) : Prop where
  onSubscribe : ∀ k now channel p, holds (K.onSubscribe k now channel).1 p → holds k p
  onUnsubscribe : ∀ k now channel p, holds (K.onUnsubscribe k now channel).1 p → holds k p
  onPublish : ∀ k now channel data p, holds (K.onPublish k now channel data).1 p →
    holds k p ∨ (K.onPublish k now channel data).2 = .ok p
  replaySince : ∀ k now channel since p, holds (K.replaySince k now channel since).1 p → holds k p
  replayed : ∀ k now channel since result, (K.replaySince k now channel since).2 = .ok result →
    ∀ p ∈ result, holds k p

/-- `holds` bounds what the streams yield, and only a published publication joins it. -/
structure Broker.Conveys (B : Broker β τ) (holds : β → Publication → Prop) : Prop where
  subscribe : ∀ b topic p, holds (B.subscribe b topic).1 p → holds b p
  publish : ∀ b topic q p, holds (B.publish b topic q).1 p → holds b p ∨ p = q
  next : ∀ b stream p, holds (B.next b stream).1 p → holds b p
  ready : ∀ b stream p, (B.next b stream).2 = .ready p → holds b p
  dropStream : ∀ b stream p, holds (B.dropStream b stream) p → holds b p

def Call.carries : Call τ → List Publication
  | .subscribeSend _ _ _ _ replayed => replayed
  | .publishBroker _ _ p => [p]
  | _ => []

theorem entry_carries (r : Request) : (r.entry : Call τ).carries = [] := by
  cases r <;> rfl

/-- Everything that a hub holds or has enqueued satisfies `P`. -/
structure State.Within (archived : κ → Publication → Prop) (conveyed : β → Publication → Prop)
    (P : Publication → Prop) (s : State κ β τ) : Prop where
  kinds : ∀ k p, archived (s.shared.kinds k) p → P p
  broker : ∀ p, conveyed s.shared.broker p → P p
  calls : ∀ n c, s.calls n = some c → ∀ p ∈ c.carries, P p
  forwarders : ∀ f w p, s.shared.forwarders f = some w → w.inHand = some p → P p
  log : ∀ n ref origin p, .enqueued n ref origin p ∈ s.log → P p

section Step

variable {H : Hub κ β τ ε} {archived : κ → Publication → Prop} {conveyed : β → Publication → Prop}
  {P : Publication → Prop} {s t : State κ β τ} {x : Shared κ β τ} {n : Nat} {env : ε} {now : Nat}
  {c next : Call τ} {o : Outcome κ β τ} {p : Publication}

theorem kindsAfter_archived (archives : H.kinds.Archives archived) {k : Nat}
    (h : archived (H.kindsAfter x now c k) p) :
    archived (x.kinds k) p ∨ ∃ a ref, c = .publishKind a ref ∧
      (H.kinds.onPublish (x.kinds (H.kindFor a.channel)) now a.channel a.data).2 = .ok p := by
  have updated : ∀ {i : Nat} {kind : κ} {Q : Prop},
      archived (Function.update x.kinds i kind k) p →
      (archived kind p → archived (x.kinds i) p ∨ Q) → archived (x.kinds k) p ∨ Q := by
    intro i kind Q there back
    rw [Function.update_apply] at there
    split at there
    · next same =>
        rw [same]
        exact back there
    · exact .inl there
  cases c with
  | subscribeKind a ref =>
      exact updated h fun there => .inl (archives.onSubscribe _ _ _ _ there)
  | subscribeReplay a ref cursor stream =>
      exact updated h fun there => .inl (archives.replaySince _ _ _ _ _ there)
  | subscribeUnwind a ref stream error =>
      exact updated h fun there => .inl (archives.onUnsubscribe _ _ _ _ there)
  | unsubscribeKind a ref =>
      exact updated h fun there => .inl (archives.onUnsubscribe _ _ _ _ there)
  | publishKind a ref =>
      refine updated h fun there => ?_
      rcases archives.onPublish _ _ _ _ _ there with old | new
      · exact .inl old
      · exact .inr ⟨a, ref, rfl, new⟩
  | _ => exact .inl h

theorem brokerAfter_conveyed (conveys : H.broker.Conveys conveyed)
    (h : conveyed (H.brokerAfter x c) p) : conveyed x.broker p ∨ p ∈ c.carries := by
  cases c with
  | subscribeBroker a ref cursor => exact .inl (conveys.subscribe _ _ _ h)
  | subscribeUnwind a ref stream error =>
      cases stream with
      | none => exact .inl h
      | some stream => exact .inl (conveys.dropStream _ _ _ h)
  | publishBroker a ref q =>
      rcases conveys.publish _ _ _ _ h with old | rfl
      · exact .inl old
      · exact .inr (List.mem_cons_self ..)
  | _ => exact .inl h

theorem goes_carries (archives : H.kinds.Archives archived) (goes : H.Goes x env now c next)
    (member : p ∈ next.carries) :
    p ∈ c.carries ∨ (∃ k, archived (x.kinds k) p) ∨ ∃ a ref, c = .publishKind a ref ∧
      (H.kinds.onPublish (x.kinds (H.kindFor a.channel)) now a.channel a.data).2 = .ok p := by
  cases goes with
  | replayed a ref cursor stream reads =>
      exact .inr (.inl ⟨_, archives.replayed _ _ _ _ _ reads p member⟩)
  | sent a ref cursor stream q rest room => exact .inl (List.mem_cons_of_mem _ member)
  | stamped a ref accepts =>
      cases List.mem_singleton.mp member
      exact .inr (.inr ⟨a, ref, rfl, accepts⟩)
  | _ => cases member

theorem advance_within (archives : H.kinds.Archives archived) (conveys : H.broker.Conveys conveyed)
    (g : s.Within archived conveyed P) (called : s.calls n = some c)
    (acts : H.act s.shared n env now c = some o)
    (fresh : ∀ a ref q, c = .publishKind a ref →
      (H.kinds.onPublish (s.shared.kinds (H.kindFor a.channel)) now a.channel a.data).2 = .ok q →
      P q) : (s.after n c o).Within archived conveyed P := by
  have acted := Hub.acted acts
  constructor
  · intro k p there
    rw [after_kinds acts] at there
    rcases kindsAfter_archived archives there with old | ⟨a, ref, own, accepts⟩
    · exact g.kinds k p old
    · exact fresh a ref p own accepts
  · intro p there
    rw [(quiet_after s n c o).broker, acted.broker] at there
    rcases brokerAfter_conveyed conveys there with old | carried
    · exact g.broker p old
    · exact g.calls n c called p carried
  · intro m d found p member
    rw [after_calls, Function.update_apply] at found
    split at found
    · rcases goes_carries archives (Hub.goes acts found) member with
        own | ⟨k, there⟩ | ⟨a, ref, own, accepts⟩
      · exact g.calls n c called p own
      · exact g.kinds k p there
      · exact fresh a ref p own accepts
    · exact g.calls m d found p member
  · intro f w' p found holding
    rcases after_forwarder_some acts found with ⟨_, _, _, _, rfl, rfl, rfl | rfl⟩ |
      ⟨w, older, rfl | rfl⟩
    · cases holding
    · cases holding
    · exact g.forwarders f w' p older holding
    · exact g.forwarders f w p older holding
  · intro m ref origin p member
    rw [after_log] at member
    rcases List.mem_append.mp member with new | old
    · rcases acted.event new with logs | ⟨_, ⟨⟩⟩
      cases logs with
      | sent a _ cursor stream _ rest room =>
          exact g.calls n _ called p (List.mem_cons_self ..)
    · exact g.log m ref origin p old

theorem forward_within (conveys : H.broker.Conveys conveyed) (g : s.Within archived conveyed P)
    {f : Nat} {w : Forwarder τ} {x' : Shared κ β τ} {events : List Event}
    (task : s.shared.forwarders f = some w) (moved : H.Forwarded s.shared f w x' events) :
    State.Within archived conveyed P { s with shared := x', log := events ++ s.log } := by
  have frame := moved.frame task
  have polled : ∀ b q, H.broker.next s.shared.broker w.stream = (b, q) →
      ∀ p, conveyed b p → P p := by
    intro b q next p there
    apply g.broker p
    apply conveys.next _ w.stream
    rwa [next]
  have moves : (∀ p, conveyed x'.broker p → P p) ∧ ∀ w' p, x'.forwarders f = some w' →
      w'.inHand = some p → P p := by
    cases moved with
    | scheduled =>
        refine ⟨g.broker, fun w' p found holding => ?_⟩
        cases (Function.update_self ..).symm.trans found
        exact g.forwarders f w p task holding
    | @took b q _ free ready =>
        refine ⟨polled _ _ ready, fun w' p found holding => ?_⟩
        cases (Function.update_self ..).symm.trans found
        cases holding
        exact g.broker q (conveys.ready _ _ _ (congrArg Prod.snd ready))
    | lagged _ free skipped => exact ⟨polled _ _ skipped, g.forwarders f⟩
    | waited _ free pending =>
        refine ⟨polled _ _ pending, fun w' p found holding => ?_⟩
        cases (Function.update_self ..).symm.trans found
        exact g.forwarders f w p task holding
    | exhausted _ free finished =>
        refine ⟨fun p there => polled _ _ finished p (conveys.dropStream _ _ _ there), ?_⟩
        intro w' p found
        cases (Function.update_self ..).symm.trans found
    | sent =>
        refine ⟨g.broker, fun w' p found holding => ?_⟩
        cases (Function.update_self ..).symm.trans found
        cases holding
    | ended =>
        refine ⟨fun p there => g.broker p (conveys.dropStream _ _ _ there), ?_⟩
        intro w' p found
        cases (Function.update_self ..).symm.trans found
  constructor
  · intro k p there
    rw [frame.kinds] at there
    exact g.kinds k p there
  · exact moves.1
  · exact g.calls
  · intro f' w' p found holding
    by_cases same : f' = f
    · subst same
      exact moves.2 w' p found holding
    · rw [frame.others f' same] at found
      exact g.forwarders f' w' p found holding
  · intro n ref origin p member
    rcases List.mem_append.mp member with new | old
    · cases moved with
      | sent _ holding room =>
          cases List.mem_singleton.mp new
          exact g.forwarders f w p task holding
      | lagged => cases List.mem_singleton.mp new
      | _ => cases new
    · exact g.log n ref origin p old

/-- A step keeps to `P` if what the kinds accept does. -/
theorem step_within (archives : H.kinds.Archives archived) (conveys : H.broker.Conveys conveyed)
    (g : s.Within archived conveyed P) {l : Label ε} (h : H.step s l = some t)
    (fresh : ∀ n ref channel data p, .onPublish n ref channel data (.ok p) ∈ t.log → P p) :
    t.Within archived conveyed P := by
  cases Hub.stepped h with
  | start r =>
      refine ⟨g.kinds, g.broker, ?_, g.forwarders, g.log⟩
      intro m d found p member
      simp only [Function.update_apply] at found
      split at found
      · cases found
        rw [entry_carries] at member
        cases member
      · exact g.calls m d found p member
  | @advance n env now c o called acts =>
      refine advance_within archives conveys g called acts ?_
      rintro a ref q rfl accepts
      refine fresh n ref a.channel a.data q (advance_logged called ?_ h)
      simp only [Hub.eventOf, accepts]
  | forward task moves => exact forward_within conveys g task (Hub.forwarded moves)
  | transport quiet sheds =>
      refine ⟨?_, ?_, g.calls, ?_, g.log⟩
      · rw [quiet.kinds]
        exact g.kinds
      · rw [quiet.broker]
        exact g.broker
      · intro f w' p found holding
        obtain ⟨w, older, rfl | rfl⟩ := quiet.forwarder_some found
        · exact g.forwarders f w' p older holding
        · exact g.forwarders f w p older holding

theorem State.Within.mono {Q : Publication → Prop} (g : s.Within archived conveyed P)
    (weaker : ∀ p, P p → Q p) : s.Within archived conveyed Q where
  kinds k p there := weaker p (g.kinds k p there)
  broker p there := weaker p (g.broker p there)
  calls n c called p member := weaker p (g.calls n c called p member)
  forwarders f w p found holding := weaker p (g.forwarders f w p found holding)
  log n ref origin p member := weaker p (g.log n ref origin p member)

end Step

def State.acceptances (s : State κ β τ) (channel : String) : List Publication :=
  s.log.filterMap (Event.acceptedOn channel)

section Acceptances

variable {H : Hub κ β τ ε} {s t : State κ β τ} {channel : String} {p : Publication}

theorem mem_acceptances : p ∈ s.acceptances channel ↔
    ∃ n ref data, .onPublish n ref channel data (.ok p) ∈ s.log := by
  rw [State.acceptances, List.mem_filterMap]
  constructor
  · rintro ⟨e, member, accepted⟩
    obtain ⟨n, ref, data, rfl⟩ := Event.acceptedOn_eq_some.mp accepted
    exact ⟨n, ref, data, member⟩
  · rintro ⟨n, ref, data, member⟩
    exact ⟨_, member, Event.acceptedOn_eq_some.mpr ⟨n, ref, data, rfl⟩⟩

/-- The step at which the kind of the channel accepts a publication on it. -/
structure Hub.AcceptsOn (H : Hub κ β τ ε) (channel : String) (s : State κ β τ) (l : Label ε)
    (t : State κ β τ) (n : Nat) (a : PublishArgs) (ref : Nat) (p : Publication) : Prop where
  label : ∃ env now, l = .advance n env now ∧
    H.kinds.onPublish (s.shared.kinds (H.kindFor channel)) now channel a.data =
      (t.shared.kinds (H.kindFor channel), .ok p)
  called : s.calls n = some (.publishKind a ref)
  here : a.channel = channel
  grown : t.acceptances channel = p :: s.acceptances channel

theorem step_acceptances (channel : String) {l : Label ε} (h : H.step s l = some t) :
    t.acceptances channel = s.acceptances channel ∨
      ∃ n a ref p, H.AcceptsOn channel s l t n a ref p := by
  cases Hub.stepped h with
  | start r => exact .inl rfl
  | @advance n env now c o called acts =>
      have events : o.events.filterMap (Event.acceptedOn channel) =
          ((H.eventOf s.shared n env now c).bind (Event.acceptedOn channel)).toList := by
        have own : ∀ found : Option Event, found.toList.filterMap (Event.acceptedOn channel) =
            (found.bind (Event.acceptedOn channel)).toList := by
          intro found
          cases found with
          | none => rfl
          | some e => cases here : Event.acceptedOn channel e <;> simp [here]
        rcases (Hub.acted acts).logged with ⟨_, _, logged⟩ | ⟨result, _, logged⟩
        · rw [logged, own]
        · rw [logged, List.filterMap_cons_none rfl, own]
      have grown : (s.after n c o).acceptances channel =
          ((H.eventOf s.shared n env now c).bind (Event.acceptedOn channel)).toList ++
            s.acceptances channel := by
        rw [State.acceptances, after_log, List.filterMap_append, events]
        rfl
      cases accepted : (H.eventOf s.shared n env now c).bind (Event.acceptedOn channel) with
      | none =>
          rw [accepted] at grown
          exact .inl grown
      | some p =>
          rw [accepted] at grown
          obtain ⟨e, logs, accepts⟩ := Option.bind_eq_some_iff.mp accepted
          obtain ⟨m, ref, data, rfl⟩ := Event.acceptedOn_eq_some.mp accepts
          refine .inr ?_
          cases Hub.logs logs with
          | accepted a ref answer =>
              refine ⟨n, a, ref, p, ⟨env, now, rfl, ?_⟩, called, rfl, grown⟩
              rw [after_kinds acts]
              refine Prod.ext ?_ answer
              simp only [Hub.kindsAfter, Function.update_self]
  | @forward f move w x' events task moves =>
      refine .inl ?_
      have none_ : events.filterMap (Event.acceptedOn channel) = [] := by
        cases Hub.forwarded moves <;> rfl
      simp only [State.acceptances, List.filterMap_append, none_, List.nil_append]
  | transport quiet sheds => exact .inl rfl

end Acceptances

end Cherenkov
