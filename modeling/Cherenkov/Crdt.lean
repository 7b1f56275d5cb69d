import Cherenkov.ChannelHistory
import Cherenkov.Library.Replica

/-! `YjsChannel` and `AutomergeChannel` keep one document per channel. A publish applies its payload
to the document and hands the same bytes on; a subscribe makes the document if there is none. The
entry of the map is held from the lookup to the return, so every call is one step. The engines are
parameters: what they make of a payload, and with what words they reject one. A document that
rejects an update is left as it was. -/

namespace Cherenkov

structure DocSlot (δ : Type) where
  doc : δ
  nextOffset : Nat

structure CrdtChannel (δ : Type) where
  docs : DashMap String (DocSlot δ)

/-- `CrdtError::InvalidUpdate`, as the kinds wrap it. -/
def invalidUpdate (engine channel reason : String) : ChannelError :=
  .rejectedPublication ("invalid " ++ engine ++ " update for channel `" ++ channel ++ "`: " ++ reason)

variable {δ υ : Type}

namespace CrdtChannel

def new : CrdtChannel δ := ⟨∅⟩

/-- `entry(..).or_insert_with(..)`. -/
def slot (k : CrdtChannel δ) (empty : δ) (channel : String) : DocSlot δ :=
  (k.docs.get channel).getD ⟨empty, 0⟩

def onSubscribe (empty : δ) (k : CrdtChannel δ) (channel : String) :
    CrdtChannel δ × Except ChannelError ChannelCursor :=
  if channel.isEmpty then (k, .error (.invalidChannel channel))
  else
    let slot := k.slot empty channel
    (⟨k.docs.put channel slot⟩, .ok ⟨1, slot.nextOffset - 1⟩)

def onUnsubscribe (k : CrdtChannel δ) (_channel : String) :
    CrdtChannel δ × Except ChannelError Unit := (k, .ok ())

/-- The part of `on_publish` that holds the slot: the update, then the next offset. -/
def publishLocked (engine : String) (empty : δ) (apply : δ → Except String δ) (k : CrdtChannel δ)
    (channel : String) (data : Bytes) : CrdtChannel δ × Except ChannelError Publication :=
  let slot := k.slot empty channel
  match apply slot.doc with
  | .error reason => (⟨k.docs.put channel slot⟩, .error (invalidUpdate engine channel reason))
  | .ok doc =>
      (⟨k.docs.put channel ⟨doc, (slot.nextOffset + 1) % 2 ^ 64⟩⟩,
        .ok ⟨channel, slot.nextOffset, data⟩)

def snapshot (encode : δ → Bytes) (k : CrdtChannel δ) (channel : String) : Option Bytes :=
  (k.docs.get channel).map fun slot => encode slot.doc

end CrdtChannel

structure Yrs (δ υ : Type) where
  new : δ
  decodeV1 : Bytes → Except String υ
  applyUpdate : δ → υ → Except String δ
  encodeStateAsUpdateV1 : δ → Bytes

structure Automerge (δ : Type) where
  new : δ
  loadIncremental : δ → Bytes → Except String δ
  save : δ → Bytes

structure CrdtOps (δ : Type) where
  onSubscribe : CrdtChannel δ → String → CrdtChannel δ × Except ChannelError ChannelCursor
  onPublish : CrdtChannel δ → String → Bytes → CrdtChannel δ × Except ChannelError Publication
  snapshot : CrdtChannel δ → String → Option Bytes

namespace YjsChannel

/-- Bytes that are no update are rejected before the slot is looked up. -/
def onPublish (Y : Yrs δ υ) (k : CrdtChannel δ) (channel : String) (data : Bytes) :
    CrdtChannel δ × Except ChannelError Publication :=
  if channel.isEmpty then (k, .error (.invalidChannel channel))
  else
    match Y.decodeV1 data with
    | .error reason => (k, .error (invalidUpdate "yjs" channel reason))
    | .ok update => k.publishLocked "yjs" Y.new (Y.applyUpdate · update) channel data

def ops (Y : Yrs δ υ) : CrdtOps δ where
  onSubscribe := CrdtChannel.onSubscribe Y.new
  onPublish := onPublish Y
  snapshot := CrdtChannel.snapshot Y.encodeStateAsUpdateV1

end YjsChannel

namespace AutomergeChannel

def onPublish (A : Automerge δ) (k : CrdtChannel δ) (channel : String) (data : Bytes) :
    CrdtChannel δ × Except ChannelError Publication :=
  if channel.isEmpty then (k, .error (.invalidChannel channel))
  else k.publishLocked "automerge" A.new (A.loadIncremental · data) channel data

def ops (A : Automerge δ) : CrdtOps δ where
  onSubscribe := CrdtChannel.onSubscribe A.new
  onPublish := onPublish A
  snapshot := CrdtChannel.snapshot A.save

end AutomergeChannel

/-- A document with partial updates. `refuses` gives the reason for which a payload is rejected
before the slot is looked up. -/
structure CrdtEngine (δ : Type) where
  engine : String
  empty : δ
  refuses : Bytes → Option String
  update : δ → Bytes → Except String δ
  encode : δ → Bytes

namespace CrdtEngine

def apply (E : CrdtEngine δ) (d : δ) (data : Bytes) : Option δ :=
  match E.refuses data, E.update d data with
  | none, .ok d' => some d'
  | _, _ => none

def onPublish (E : CrdtEngine δ) (k : CrdtChannel δ) (channel : String) (data : Bytes) :
    CrdtChannel δ × Except ChannelError Publication :=
  if channel.isEmpty then (k, .error (.invalidChannel channel))
  else
    match E.refuses data with
    | some reason => (k, .error (invalidUpdate E.engine channel reason))
    | none => k.publishLocked E.engine E.empty (E.update · data) channel data

def ops (E : CrdtEngine δ) : CrdtOps δ where
  onSubscribe := CrdtChannel.onSubscribe E.empty
  onPublish := E.onPublish
  snapshot := CrdtChannel.snapshot E.encode

end CrdtEngine

def Yrs.engine (Y : Yrs δ υ) : CrdtEngine δ where
  engine := "yjs"
  empty := Y.new
  refuses data :=
    match Y.decodeV1 data with
    | .error reason => some reason
    | .ok _ => none
  update d data := (Y.decodeV1 data).bind (Y.applyUpdate d)
  encode := Y.encodeStateAsUpdateV1

def Automerge.engine (A : Automerge δ) : CrdtEngine δ where
  engine := "automerge"
  empty := A.new
  refuses _ := none
  update := A.loadIncremental
  encode := A.save

theorem Yrs.ops_eq (Y : Yrs δ υ) : YjsChannel.ops Y = Y.engine.ops := by
  have publish : YjsChannel.onPublish Y = Y.engine.onPublish := by
    funext k channel data
    simp only [YjsChannel.onPublish, CrdtEngine.onPublish, Yrs.engine]
    cases Y.decodeV1 data <;> rfl
  rw [YjsChannel.ops, publish]
  rfl

theorem Automerge.ops_eq (A : Automerge δ) : AutomergeChannel.ops A = A.engine.ops := rfl

inductive CrdtEngine.Publishes (E : CrdtEngine δ) (k : CrdtChannel δ) (channel : String)
    (data : Bytes) : CrdtChannel δ × Except ChannelError Publication → Prop
  | nameless (empty : channel.isEmpty = true) :
      Publishes E k channel data (k, .error (.invalidChannel channel))
  | refused {reason : String} (named : channel.isEmpty = false)
      (refuses : E.refuses data = some reason) :
      Publishes E k channel data (k, .error (invalidUpdate E.engine channel reason))
  | rejected {reason : String} (named : channel.isEmpty = false)
      (admitted : E.refuses data = none)
      (rejects : E.update (k.slot E.empty channel).doc data = .error reason) :
      Publishes E k channel data (⟨k.docs.put channel (k.slot E.empty channel)⟩,
        .error (invalidUpdate E.engine channel reason))
  | accepted {doc : δ} (named : channel.isEmpty = false)
      (applies : E.apply (k.slot E.empty channel).doc data = some doc) :
      Publishes E k channel data
        (⟨k.docs.put channel ⟨doc, ((k.slot E.empty channel).nextOffset + 1) % 2 ^ 64⟩⟩,
          .ok ⟨channel, (k.slot E.empty channel).nextOffset, data⟩)

theorem CrdtEngine.publishes (E : CrdtEngine δ) (k : CrdtChannel δ) (channel : String)
    (data : Bytes) : E.Publishes k channel data (E.onPublish k channel data) := by
  unfold onPublish
  split
  · next empty => exact .nameless empty
  · next named =>
      have named := Bool.eq_false_iff.mpr named
      split
      · next reason refuses => exact .refused named refuses
      · next admitted =>
          cases updated : E.update (k.slot E.empty channel).doc data with
          | error reason =>
              simp only [CrdtChannel.publishLocked, updated]
              exact .rejected named admitted updated
          | ok doc =>
              simp only [CrdtChannel.publishLocked, updated]
              refine .accepted named ?_
              simp only [apply, admitted, updated]

namespace CrdtChannel

theorem slot_put (k : CrdtChannel δ) (empty : δ) (c channel : String) (made : DocSlot δ) :
    (⟨k.docs.put c made⟩ : CrdtChannel δ).slot empty channel =
      if channel = c then made else k.slot empty channel := by
  simp only [slot, DashMap.get_put]
  split <;> rfl

theorem slot_open (k : CrdtChannel δ) (empty : δ) (c channel : String) :
    (⟨k.docs.put c (k.slot empty c)⟩ : CrdtChannel δ).slot empty channel =
      k.slot empty channel := by
  rw [slot_put]
  split
  · next same => rw [same]
  · rfl

end CrdtChannel

inductive CrdtStep where
  | publish (channel : String) (data : Bytes)
  | subscribe (channel : String)
  | unsubscribe (channel : String)
  | snapshot (channel : String)

def CrdtStep.channel : CrdtStep → String
  | .publish channel _ | .subscribe channel | .unsubscribe channel | .snapshot channel => channel

inductive CrdtAnswer where
  | published (result : Except ChannelError Publication)
  | subscribed (result : Except ChannelError ChannelCursor)
  | unsubscribed (result : Except ChannelError Unit)
  | snapshot (bytes : Option Bytes)

structure CrdtState (δ : Type) where
  kind : CrdtChannel δ
  log : List (CrdtStep × CrdtAnswer)

namespace CrdtOps

def answer (ops : CrdtOps δ) (k : CrdtChannel δ) : CrdtStep → CrdtChannel δ × CrdtAnswer
  | .publish channel data =>
      let out := ops.onPublish k channel data
      (out.1, .published out.2)
  | .subscribe channel =>
      let out := ops.onSubscribe k channel
      (out.1, .subscribed out.2)
  | .unsubscribe channel =>
      let out := k.onUnsubscribe channel
      (out.1, .unsubscribed out.2)
  | .snapshot channel => (k, .snapshot (ops.snapshot k channel))

def machine (ops : CrdtOps δ) : Machine (CrdtState δ) CrdtStep where
  step s step :=
    let out := ops.answer s.kind step
    some ⟨out.1, (step, out.2) :: s.log⟩

end CrdtOps

namespace CrdtState

def boot : CrdtState δ := ⟨.new, []⟩

/-- The payload and the publication of an accepted publish on the channel. -/
def acceptance (channel : String) : CrdtStep × CrdtAnswer → Option (Bytes × Publication)
  | (.publish c data, .published (.ok p)) => if c = channel then some (data, p) else none
  | _ => none

def acceptances (s : CrdtState δ) (channel : String) : List (Bytes × Publication) :=
  (s.log.filterMap (acceptance channel)).reverse

def payloads (s : CrdtState δ) (channel : String) : List Bytes :=
  (s.acceptances channel).map Prod.fst

def publications (s : CrdtState δ) (channel : String) : List Publication :=
  (s.acceptances channel).map Prod.snd

theorem acceptances_cons (s : CrdtState δ) (k : CrdtChannel δ) (entry : CrdtStep × CrdtAnswer)
    (channel : String) : (CrdtState.mk k (entry :: s.log)).acceptances channel =
      s.acceptances channel ++ (acceptance channel entry).toList := by
  cases accepted : acceptance channel entry <;> simp [acceptances, accepted]

def counted (channel : String) (payloads : List Bytes) : List Publication :=
  payloads.zipIdx.map fun (data, i) => ⟨channel, i % 2 ^ 64, data⟩

theorem counted_append (channel : String) (payloads : List Bytes) (data : Bytes) :
    counted channel (payloads ++ [data]) =
      counted channel payloads ++ [⟨channel, payloads.length % 2 ^ 64, data⟩] := by
  simp [counted, List.zipIdx_append]

theorem counted_eq_numbered {channel : String} {payloads : List Bytes}
    (few : payloads.length < 2 ^ 64) :
    counted channel payloads = KindState.numbered channel payloads := by
  apply List.map_congr_left
  rintro ⟨data, i⟩ member
  have bound := (List.mem_zipIdx member).2.1
  have small : i < 2 ^ 64 := by omega
  simp only [Nat.mod_eq_of_lt small]

/-- The document and the numbers of a channel are made by what it has accepted. -/
structure Folded (E : CrdtEngine δ) (s : CrdtState δ) (channel : String) : Prop where
  document : Replica.replay E.apply E.empty (s.payloads channel) =
    some (s.kind.slot E.empty channel).doc
  next : (s.kind.slot E.empty channel).nextOffset = (s.payloads channel).length % 2 ^ 64
  counted : s.publications channel = counted channel (s.payloads channel)

variable {E : CrdtEngine δ} {s t : CrdtState δ} {channel : String}

theorem boot_folded : (boot : CrdtState δ).Folded E channel := ⟨rfl, rfl, rfl⟩

theorem Folded.still (folded : s.Folded E channel)
    (same : t.acceptances channel = s.acceptances channel)
    (slot : t.kind.slot E.empty channel = s.kind.slot E.empty channel) : t.Folded E channel := by
  obtain ⟨document, next, counted⟩ := folded
  constructor
  · rw [slot, payloads, same]
    exact document
  · rw [slot, payloads, same]
    exact next
  · rw [publications, payloads, same]
    exact counted

theorem Folded.grow {data : Bytes} {doc : δ} (folded : s.Folded E channel)
    (accepted : t.acceptances channel = s.acceptances channel ++
      [(data, ⟨channel, (s.kind.slot E.empty channel).nextOffset, data⟩)])
    (applies : E.apply (s.kind.slot E.empty channel).doc data = some doc)
    (slot : t.kind.slot E.empty channel =
      ⟨doc, ((s.kind.slot E.empty channel).nextOffset + 1) % 2 ^ 64⟩) : t.Folded E channel := by
  have payloads_eq : t.payloads channel = s.payloads channel ++ [data] := by
    simp [payloads, accepted]
  constructor
  · rw [payloads_eq, Replica.replay_append, folded.document, slot]
    simp [Replica.replay_cons, applies]
  · rw [payloads_eq, slot, folded.next, List.length_append, List.length_singleton]
    exact Nat.mod_add_mod _ _ _
  · have publications_eq : t.publications channel = s.publications channel ++
        [⟨channel, (s.kind.slot E.empty channel).nextOffset, data⟩] := by
      simp [publications, accepted]
    rw [publications_eq, payloads_eq, counted_append, folded.counted, folded.next]

theorem answer_elsewhere (E : CrdtEngine δ) (k : CrdtChannel δ) {step : CrdtStep}
    (other : step.channel ≠ channel) :
    (E.ops.answer k step).1.docs.get channel = k.docs.get channel := by
  have away : channel ≠ step.channel := Ne.symm other
  cases step with
  | publish c data =>
      have published := E.publishes k c data
      simp only [CrdtOps.answer, CrdtEngine.ops]
      generalize E.onPublish k c data = out at published ⊢
      cases published with
      | nameless empty => rfl
      | refused named refuses => rfl
      | rejected named admitted rejects => exact DashMap.get_put_ne _ _ away
      | accepted named applies => exact DashMap.get_put_ne _ _ away
  | subscribe c =>
      simp only [CrdtOps.answer, CrdtEngine.ops, CrdtChannel.onSubscribe]
      split
      · rfl
      · exact DashMap.get_put_ne _ _ away
  | unsubscribe c => rfl
  | snapshot c => rfl

theorem acceptance_elsewhere {step : CrdtStep} (other : step.channel ≠ channel)
    (given : CrdtAnswer) : acceptance channel (step, given) = none := by
  cases step with
  | publish c data =>
      have away : c ≠ channel := other
      cases given with
      | published result => cases result <;> simp [acceptance, away]
      | _ => rfl
  | _ => rfl

theorem step_folded {step : CrdtStep} (folded : s.Folded E channel)
    (stepped : E.ops.machine.step s step = some t) : t.Folded E channel := by
  cases stepped
  by_cases elsewhere : step.channel = channel
  · subst elsewhere
    cases step with
    | publish c data =>
        have published := E.publishes s.kind c data
        simp only [CrdtOps.answer, CrdtEngine.ops, CrdtStep.channel] at folded ⊢
        generalize E.onPublish s.kind c data = out at published ⊢
        cases published with
        | nameless empty | refused named refuses =>
            refine folded.still ?_ rfl
            rw [acceptances_cons]
            exact List.append_nil _
        | rejected named admitted rejects =>
            refine folded.still ?_ (CrdtChannel.slot_open ..)
            rw [acceptances_cons]
            exact List.append_nil _
        | accepted named applies =>
            refine folded.grow ?_ applies ?_
            · rw [acceptances_cons, acceptance, if_pos rfl]
              rfl
            · rw [CrdtChannel.slot_put, if_pos rfl]
    | subscribe c =>
        simp only [CrdtOps.answer, CrdtEngine.ops, CrdtChannel.onSubscribe]
        split
        · refine folded.still ?_ rfl
          rw [acceptances_cons]
          exact List.append_nil _
        · refine folded.still ?_ (CrdtChannel.slot_open ..)
          rw [acceptances_cons]
          exact List.append_nil _
    | unsubscribe c | snapshot c =>
        refine folded.still ?_ rfl
        rw [acceptances_cons]
        exact List.append_nil _
  · refine folded.still ?_ ?_
    · rw [acceptances_cons, acceptance_elsewhere elsewhere]
      exact List.append_nil _
    · simp only [CrdtChannel.slot, answer_elsewhere E s.kind elsewhere]

/-- The channel's publications are numbered and carry the accepted payloads, its document is
their fold, and so is every replica that has taken them all. -/
structure Converged (s : CrdtState δ) (empty : δ) (apply : δ → Bytes → Option δ)
    (channel : String) : Prop where
  numbered : (s.payloads channel).length < 2 ^ 64 →
    s.publications channel = KindState.numbered channel (s.payloads channel)
  document : Replica.replay apply empty (s.payloads channel) =
    some (s.kind.slot empty channel).doc
  replicas : ∀ updates : List Bytes, (∀ u, u ∈ updates ↔ u ∈ s.payloads channel) →
    Replica.replay apply empty updates = some (s.kind.slot empty channel).doc

/-- Every channel has converged, and no call has an effect on other channels. -/
def Convergence (ops : CrdtOps δ) (E : CrdtEngine δ) : Prop :=
  ∀ s : CrdtState δ, ops.machine.Run Machine.free boot s → ∀ channel,
    s.Converged E.empty E.apply channel ∧
      ∀ step t, ops.machine.step s step = some t → step.channel ≠ channel →
        t.kind.docs.get channel = s.kind.docs.get channel

theorem engine_convergence (laws : Replica.Convergent E.apply) : Convergence E.ops E := by
  intro s run channel
  have folded := run.invariant (I := fun s => s.Folded E channel) boot_folded
    fun _ _ _ folded _ stepped => step_folded folded stepped
  constructor
  · refine ⟨?_, folded.document, ?_⟩
    · intro few
      rw [folded.counted, counted_eq_numbered few]
    · intro updates same
      rw [laws.replay_congr same]
      exact folded.document
  · intro step t stepped elsewhere
    cases stepped
    exact answer_elsewhere E s.kind elsewhere

end CrdtState

/-- Both kinds converge, over engines whose updates may be taken in any order and again. -/
theorem documents_converge {δ' : Type} (Y : Yrs δ υ) (A : Automerge δ')
    (yjs : Replica.Convergent Y.engine.apply) (automerge : Replica.Convergent A.engine.apply) :
    CrdtState.Convergence (YjsChannel.ops Y) Y.engine ∧
      CrdtState.Convergence (AutomergeChannel.ops A) A.engine := by
  rw [Y.ops_eq, A.ops_eq]
  exact ⟨CrdtState.engine_convergence yjs, CrdtState.engine_convergence automerge⟩

/-- A document that is a number and grows to the number of each update that has one. -/
theorem max_convergent {α : Type} (size : α → Option Nat) :
    Replica.Convergent fun (d : Nat) (u : α) => (size u).map (max d) := by
  constructor
  · intro d u v d' both
    cases first : size u with
    | none => simp [first] at both
    | some m =>
        cases second : size v with
        | none => simp [first, second] at both
        | some n =>
            simp only [first, second, Option.map_some, Option.bind_some] at both ⊢
            rw [Nat.max_right_comm]
            exact both
  · intro d u d' once
    obtain ⟨n, first, rfl⟩ := Option.map_eq_some_iff.mp once
    simp [first]

def chunkMagic : Bytes := [0x85, 0x6f, 0x4a, 0x83]

/-- The length of the longest payload so far. No bytes are no change; others are one if they
begin as a chunk does. -/
def longest : Automerge Nat where
  new := 0
  loadIncremental d data :=
    if data.isEmpty || chunkMagic.isPrefixOf data then .ok (max d data.length)
    else .error "invalid magic bytes"
  save d := List.replicate d 0

/-- The same over decoded updates, of which long ones cannot be applied. -/
def longestShort : Yrs Nat Nat where
  new := 0
  decodeV1 data := if data.isEmpty then .error "empty" else .ok data.length
  applyUpdate d size := if 2 < size then .error "too long" else .ok (max d size)
  encodeStateAsUpdateV1 d := List.replicate d 0

theorem longest_convergent : Replica.Convergent longest.engine.apply := by
  have same : longest.engine.apply = fun d data =>
      (if data.isEmpty || chunkMagic.isPrefixOf data then some data.length else none).map
        (max d) := by
    funext d data
    simp only [CrdtEngine.apply, Automerge.engine, longest]
    cases data.isEmpty || chunkMagic.isPrefixOf data <;> rfl
  rw [same]
  exact max_convergent _

theorem longestShort_convergent : Replica.Convergent longestShort.engine.apply := by
  have same : longestShort.engine.apply = fun d data =>
      (if data.isEmpty ∨ 2 < data.length then none else some data.length).map (max d) := by
    funext d data
    simp only [CrdtEngine.apply, Yrs.engine, longestShort]
    cases data with
    | nil => rfl
    | cons byte rest =>
        rw [List.length_cons]
        by_cases long : 2 < rest.length + 1 <;> simp [long, Except.bind]
  rw [same]
  exact max_convergent _

/-- Each kind accepts two updates out of three. -/
theorem documents_converge_longest :
    CrdtState.Convergence (YjsChannel.ops longestShort) longestShort.engine ∧
      CrdtState.Convergence (AutomergeChannel.ops longest) longest.engine ∧
      (∃ s, (YjsChannel.ops longestShort).machine.Run Machine.free .boot s ∧
        s.payloads "docs.alpha" = [[7], [8, 9]] ∧
        s.Converged longestShort.engine.empty longestShort.engine.apply "docs.alpha") ∧
      ∃ s, (AutomergeChannel.ops longest).machine.Run Machine.free .boot s ∧
        s.payloads "sheets.beta" = [chunkMagic, chunkMagic ++ [1]] ∧
        s.Converged longest.engine.empty longest.engine.apply "sheets.beta" := by
  have converge :=
    documents_converge longestShort longest longestShort_convergent longest_convergent
  obtain ⟨s, -, run, payloads⟩ := Machine.exec_witness
    (M := (YjsChannel.ops longestShort).machine) (s := .boot)
    [.publish "docs.alpha" [7], .publish "docs.alpha" [1, 2, 3], .publish "docs.alpha" [8, 9]]
    (fun s => s.payloads "docs.alpha" = [[7], [8, 9]]) (by decide +kernel)
  obtain ⟨t, -, ran, accepted⟩ := Machine.exec_witness
    (M := (AutomergeChannel.ops longest).machine) (s := .boot)
    [.publish "sheets.beta" chunkMagic, .publish "sheets.beta" [1],
      .publish "sheets.beta" (chunkMagic ++ [1])]
    (fun s => s.payloads "sheets.beta" = [chunkMagic, chunkMagic ++ [1]]) (by decide +kernel)
  exact ⟨converge.1, converge.2, ⟨s, run, payloads, (converge.1 s run "docs.alpha").1⟩,
    t, ran, accepted, (converge.2 t ran "sheets.beta").1⟩

namespace CrdtState

/-- A publish that fails changes neither the channels that have a document nor any of their
documents and offsets. -/
def Traceless (ops : CrdtOps δ) (s : CrdtState δ) : CrdtStep → Prop
  | .publish channel data =>
      ∀ e, (ops.onPublish s.kind channel data).2 = .error e →
        ∀ c, (ops.onPublish s.kind channel data).1.docs.get c = s.kind.docs.get c
  | _ => True

/-- The channels with a snapshot are those that have accepted a publish. -/
def Earned (ops : CrdtOps δ) (s : CrdtState δ) : Prop :=
  ∀ channel, (ops.snapshot s.kind channel).isSome = true ↔ s.payloads channel ≠ []

def Clean (ops : CrdtOps δ) (s : CrdtState δ) (step : CrdtStep) : Prop :=
  s.Traceless ops step ∧ ∀ t, ops.machine.step s step = some t → t.Earned ops

/-- The call looks up the slot of its channel and accepts nothing. -/
def Opens (E : CrdtEngine δ) (s : CrdtState δ) : CrdtStep → Prop
  | .publish channel data =>
      channel.isEmpty = false ∧ E.refuses data = none ∧
        ∃ reason, E.update (s.kind.slot E.empty channel).doc data = .error reason
  | .subscribe channel => channel.isEmpty = false
  | _ => False

/-- Subscribes, and publishes that the document rejects, are made on channels that have one. -/
def Seeded (E : CrdtEngine δ) (s : CrdtState δ) (step : CrdtStep) : Prop :=
  s.Opens E step → (s.kind.docs.get step.channel).isSome = true

variable {E : CrdtEngine δ} {s t : CrdtState δ} {step : CrdtStep}

theorem earned_iff : s.Earned E.ops ↔
    ∀ channel, (s.kind.docs.get channel).isSome = true ↔ s.payloads channel ≠ [] := by
  simp only [Earned, CrdtEngine.ops, CrdtChannel.snapshot, Option.isSome_map]

/-- How a call ends, as far as the map of slots is concerned. -/
inductive Effect (E : CrdtEngine δ) (s : CrdtState δ) (step : CrdtStep) (t : CrdtState δ) : Prop
  | none (idle : ¬s.Opens E step) (docs : ∀ c, t.kind.docs.get c = s.kind.docs.get c)
      (payloads : ∀ c, t.payloads c = s.payloads c)
  | opened (opens : s.Opens E step)
      (docs : t.kind.docs = s.kind.docs.put step.channel (s.kind.slot E.empty step.channel))
      (payloads : ∀ c, t.payloads c = s.payloads c)
  | accepted (idle : ¬s.Opens E step) (made : DocSlot δ) (data : Bytes)
      (docs : t.kind.docs = s.kind.docs.put step.channel made)
      (payloads : ∀ c, t.payloads c = s.payloads c ++ if step.channel = c then [data] else [])

theorem payloads_cons (k : CrdtChannel δ) (entry : CrdtStep × CrdtAnswer) (c : String) :
    (CrdtState.mk k (entry :: s.log)).payloads c =
      s.payloads c ++ ((acceptance c entry).map Prod.fst).toList := by
  rw [payloads, acceptances_cons, List.map_append, payloads]
  cases acceptance c entry <;> rfl

theorem payloads_cons_none {k : CrdtChannel δ} {entry : CrdtStep × CrdtAnswer} {c : String}
    (fruitless : acceptance c entry = none) :
    (CrdtState.mk k (entry :: s.log)).payloads c = s.payloads c := by
  rw [payloads_cons, fruitless]
  exact List.append_nil _

theorem step_effect (stepped : E.ops.machine.step s step = some t) : s.Effect E step t := by
  cases stepped
  cases step with
  | publish channel data =>
      have published := E.publishes s.kind channel data
      simp only [CrdtOps.answer, CrdtEngine.ops]
      generalize E.onPublish s.kind channel data = out at published ⊢
      cases published with
      | nameless empty =>
          refine .none ?_ (fun _ => rfl) (fun _ => payloads_cons_none rfl)
          rintro ⟨named, -⟩
          cases named.symm.trans empty
      | refused named refuses =>
          refine .none ?_ (fun _ => rfl) (fun _ => payloads_cons_none rfl)
          rintro ⟨-, admitted, -⟩
          cases admitted.symm.trans refuses
      | rejected named admitted rejects =>
          exact .opened ⟨named, admitted, _, rejects⟩ rfl (fun _ => payloads_cons_none rfl)
      | @accepted doc named applies =>
          refine .accepted ?_ _ data rfl ?_
          · rintro ⟨-, admitted, reason, rejects⟩
            simp [CrdtEngine.apply, admitted, rejects] at applies
          · intro c
            rw [payloads_cons, acceptance]
            by_cases here : channel = c <;> simp [CrdtStep.channel, here]
  | subscribe channel =>
      simp only [CrdtOps.answer, CrdtEngine.ops, CrdtChannel.onSubscribe]
      split
      · next empty =>
          refine .none ?_ (fun _ => rfl) (fun _ => payloads_cons_none rfl)
          intro named
          cases (show channel.isEmpty = false from named).symm.trans empty
      · next named =>
          exact .opened (Bool.eq_false_iff.mpr named) rfl (fun _ => payloads_cons_none rfl)
  | unsubscribe channel | snapshot channel =>
      exact .none id (fun _ => rfl) (fun _ => payloads_cons_none rfl)

theorem get_open {k : CrdtChannel δ} {empty : δ} {channel : String}
    (present : (k.docs.get channel).isSome = true) (c : String) :
    (k.docs.put channel (k.slot empty channel)).get c = k.docs.get c := by
  obtain ⟨slot, found⟩ := Option.isSome_iff_exists.mp present
  rw [DashMap.get_put]
  split
  · next same => rw [same, CrdtChannel.slot, found, Option.getD_some]
  · rfl

theorem traceless_of_seeded (seeded : s.Seeded E step) : s.Traceless E.ops step := by
  cases step with
  | publish channel data =>
      intro e failed c
      have published := E.publishes s.kind channel data
      simp only [CrdtEngine.ops] at failed ⊢
      generalize E.onPublish s.kind channel data = out at published failed ⊢
      cases published with
      | nameless empty => rfl
      | refused named refuses => rfl
      | rejected named admitted rejects => exact get_open (seeded ⟨named, admitted, _, rejects⟩) c
      | accepted named applies => cases failed
  | _ => trivial

theorem earned_of_seeded (earned : s.Earned E.ops) (seeded : s.Seeded E step)
    (stepped : E.ops.machine.step s step = some t) : t.Earned E.ops := by
  rw [earned_iff] at earned ⊢
  intro c
  cases step_effect stepped with
  | none idle docs payloads =>
      rw [docs, payloads]
      exact earned c
  | opened opens docs payloads =>
      rw [docs, payloads, get_open (seeded opens)]
      exact earned c
  | accepted idle made data docs payloads =>
      rw [docs, payloads, DashMap.get_put]
      by_cases here : c = step.channel
      · simp [here]
      · rw [if_neg here, if_neg (Ne.symm here), List.append_nil]
        exact earned c

theorem seeded_iff_clean (earned : s.Earned E.ops) : s.Seeded E step ↔ s.Clean E.ops step := by
  constructor
  · intro seeded
    exact ⟨traceless_of_seeded seeded, fun t stepped => earned_of_seeded earned seeded stepped⟩
  · rintro ⟨-, after⟩ opens
    rw [earned_iff] at earned
    have next := earned_iff.mp (after _ rfl) step.channel
    have effect : s.Effect E step _ := step_effect rfl
    cases effect with
    | none idle docs payloads => exact absurd opens idle
    | opened opens docs payloads =>
        rw [docs, payloads, DashMap.get_put_self] at next
        exact (earned step.channel).mpr (next.mp rfl)
    | accepted idle made data docs payloads => exact absurd opens idle

theorem boot_earned : (boot : CrdtState δ).Earned E.ops := by
  rw [earned_iff]
  intro channel
  simp [boot, CrdtChannel.new, payloads, acceptances]

theorem seeded_along_iff (E : CrdtEngine δ) (schedule : List CrdtStep) :
    E.ops.machine.Along (Seeded E) boot schedule ↔
      E.ops.machine.Along (Clean E.ops) boot schedule := by
  apply Machine.along_congr (I := fun s => s.Earned E.ops)
  · intro s step earned
    exact seeded_iff_clean earned
  · intro s step t earned seeded stepped
    exact earned_of_seeded earned seeded stepped
  · exact boot_earned

end CrdtState

/-- Failed publishes leave no trace and snapshots tell which channels have accepted something
exactly in the runs in which no call but an accepted publish makes a document. -/
theorem failure_traceless {δ' : Type} (Y : Yrs δ υ) (A : Automerge δ') (schedule : List CrdtStep) :
    ((YjsChannel.ops Y).machine.Along (CrdtState.Seeded Y.engine) .boot schedule ↔
        (YjsChannel.ops Y).machine.Along (CrdtState.Clean (YjsChannel.ops Y)) .boot schedule) ∧
      ((AutomergeChannel.ops A).machine.Along (CrdtState.Seeded A.engine) .boot schedule ↔
        (AutomergeChannel.ops A).machine.Along (CrdtState.Clean (AutomergeChannel.ops A)) .boot
          schedule) := by
  rw [Y.ops_eq, A.ops_eq]
  exact ⟨CrdtState.seeded_along_iff Y.engine schedule, CrdtState.seeded_along_iff A.engine schedule⟩

/-- A subscribe makes a snapshot in either kind, and a rejected publish makes a document. -/
theorem failure_traced :
    ((YjsChannel.ops longestShort).snapshot
        ((YjsChannel.ops longestShort).onSubscribe .new "docs.alpha").1 "docs.alpha").isSome ∧
      ((AutomergeChannel.ops longest).snapshot
        ((AutomergeChannel.ops longest).onSubscribe .new "sheets.beta").1 "sheets.beta").isSome ∧
      (AutomergeChannel.ops longest).onPublish .new "sheets.beta" [1] =
        (⟨(∅ : DashMap String (DocSlot Nat)).put "sheets.beta" ⟨0, 0⟩⟩,
          .error (invalidUpdate "automerge" "sheets.beta" "invalid magic bytes")) := by
  exact ⟨by decide +kernel, by decide +kernel, rfl⟩

end Cherenkov
