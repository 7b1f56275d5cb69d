import Cherenkov.Proto
import Cherenkov.Protocol

/-! The conversions between the wrapper types and the generated ones, the functions that encode and
decode frames and publications, and that what is encoded is decoded to itself. A number or a length
that would not fit 64 bits cannot occur in the source; here its varint is too long to be read back.
-/

namespace Cherenkov

open Wire

inductive DecodeError where
  | prost
  | missingClientKind
  | missingServerKind
  deriving DecidableEq, Repr

/-- The text of a decode error; `reason` is what prost says about the bytes. -/
def DecodeError.display (reason : String) : DecodeError → String
  | .prost => "protobuf decode failed: " ++ reason
  | .missingClientKind => "client frame missing required `kind` oneof"
  | .missingServerKind => "server frame missing required `kind` oneof"

def Connect.toProto (value : Connect) : Proto.Connect where
  requestId := value.requestId
  token := value.token

def ConnectOk.toProto (value : ConnectOk) : Proto.ConnectOk where
  requestId := value.requestId
  subject := value.subject
  expiresAt := value.expiresAt

def Subscribe.toProto (value : Subscribe) : Proto.Subscribe where
  requestId := value.requestId
  channel := value.channel
  sinceOffset := value.sinceOffset

def Unsubscribe.toProto (value : Unsubscribe) : Proto.Unsubscribe where
  requestId := value.requestId
  channel := value.channel

def Publish.toProto (value : Publish) : Proto.Publish where
  requestId := value.requestId
  channel := value.channel
  data := value.data

def SubscribeOk.toProto (value : SubscribeOk) : Proto.SubscribeOk where
  requestId := value.requestId
  channel := value.channel
  epoch := value.epoch
  offset := value.offset

def UnsubscribeOk.toProto (value : UnsubscribeOk) : Proto.UnsubscribeOk where
  requestId := value.requestId
  channel := value.channel

def Publication.toProto (value : Publication) : Proto.Publication where
  channel := value.channel
  offset := value.offset
  data := value.data

def ProtocolError.toProto (value : ProtocolError) : Proto.Error where
  requestId := value.requestId
  code := value.code
  message := value.message

def ClientFrame.toProto : ClientFrame → Proto.ClientFrame
  | .subscribe value => ⟨some (.subscribe value.toProto)⟩
  | .unsubscribe value => ⟨some (.unsubscribe value.toProto)⟩
  | .publish value => ⟨some (.publish value.toProto)⟩
  | .connect value => ⟨some (.connect value.toProto)⟩

def ServerFrame.toProto : ServerFrame → Proto.ServerFrame
  | .subscribeOk value => ⟨some (.subscribeOk value.toProto)⟩
  | .unsubscribeOk value => ⟨some (.unsubscribeOk value.toProto)⟩
  | .publication value => ⟨some (.publication value.toProto)⟩
  | .error value => ⟨some (.error value.toProto)⟩
  | .connectOk value => ⟨some (.connectOk value.toProto)⟩

def Connect.ofProto (value : Proto.Connect) : Connect where
  requestId := value.requestId
  token := value.token

def ConnectOk.ofProto (value : Proto.ConnectOk) : ConnectOk where
  requestId := value.requestId
  subject := value.subject
  expiresAt := value.expiresAt

def Subscribe.ofProto (value : Proto.Subscribe) : Subscribe where
  requestId := value.requestId
  channel := value.channel
  sinceOffset := value.sinceOffset

def Unsubscribe.ofProto (value : Proto.Unsubscribe) : Unsubscribe where
  requestId := value.requestId
  channel := value.channel

def Publish.ofProto (value : Proto.Publish) : Publish where
  requestId := value.requestId
  channel := value.channel
  data := value.data

def SubscribeOk.ofProto (value : Proto.SubscribeOk) : SubscribeOk where
  requestId := value.requestId
  channel := value.channel
  epoch := value.epoch
  offset := value.offset

def UnsubscribeOk.ofProto (value : Proto.UnsubscribeOk) : UnsubscribeOk where
  requestId := value.requestId
  channel := value.channel

def Publication.ofProto (value : Proto.Publication) : Publication where
  channel := value.channel
  offset := value.offset
  data := value.data

def ProtocolError.ofProto (value : Proto.Error) : ProtocolError where
  requestId := value.requestId
  code := value.code
  message := value.message

def ClientFrame.ofProto (value : Proto.ClientFrame) : Except DecodeError ClientFrame :=
  match value.kind with
  | some (.subscribe m) => .ok (.subscribe (.ofProto m))
  | some (.unsubscribe m) => .ok (.unsubscribe (.ofProto m))
  | some (.publish m) => .ok (.publish (.ofProto m))
  | some (.connect m) => .ok (.connect (.ofProto m))
  | none => .error .missingClientKind

def ServerFrame.ofProto (value : Proto.ServerFrame) : Except DecodeError ServerFrame :=
  match value.kind with
  | some (.subscribeOk m) => .ok (.subscribeOk (.ofProto m))
  | some (.unsubscribeOk m) => .ok (.unsubscribeOk (.ofProto m))
  | some (.publication m) => .ok (.publication (.ofProto m))
  | some (.error m) => .ok (.error (.ofProto m))
  | some (.connectOk m) => .ok (.connectOk (.ofProto m))
  | none => .error .missingServerKind

def encodeClient (frame : ClientFrame) : Bytes := frame.toProto.encode

def encodeServer (frame : ServerFrame) : Bytes := frame.toProto.encode

def encodePublication (publication : Publication) : Bytes :=
  Proto.Publication.schema.encode publication.toProto

def decodePublication (bytes : Bytes) : Except DecodeError Publication :=
  match decode Proto.Publication.schema.merge Proto.Publication.schema.default bytes with
  | some proto => .ok (.ofProto proto)
  | none => .error .prost

def decodeClient (bytes : Bytes) : Except DecodeError ClientFrame :=
  match Proto.ClientFrame.decode bytes with
  | some proto => ClientFrame.ofProto proto
  | none => .error .prost

def decodeServer (bytes : Bytes) : Except DecodeError ServerFrame :=
  match Proto.ServerFrame.decode bytes with
  | some proto => ServerFrame.ofProto proto
  | none => .error .prost

theorem utf8ByteSize_ofList (chars : List Char) :
    (String.ofList chars).utf8ByteSize = (chars.map Char.utf8Size).sum := by
  induction chars with
  | nil => rfl
  | cons c chars ih =>
      rw [List.map_cons, List.sum_cons, ← ih, ← String.utf8ByteSize_singleton,
        ← String.utf8ByteSize_append]
      congr 1
      simp

/-- The sizes that the source's types guarantee. -/
def Publication.Fits (p : Publication) : Prop :=
  (utf8 p.channel).length < 2 ^ 64 ∧ p.offset < 2 ^ 64 ∧ p.data.length < 2 ^ 64

def ClientFrame.Fits (f : ClientFrame) : Prop :=
  (encodeClient f).length < 2 ^ 64 ∧
    match f with
    | .subscribe s =>
        s.requestId < 2 ^ 64 ∧ (utf8 s.channel).length < 2 ^ 64 ∧ s.sinceOffset < 2 ^ 64
    | .unsubscribe u => u.requestId < 2 ^ 64 ∧ (utf8 u.channel).length < 2 ^ 64
    | .publish p =>
        p.requestId < 2 ^ 64 ∧ (utf8 p.channel).length < 2 ^ 64 ∧ p.data.length < 2 ^ 64
    | .connect c => c.requestId < 2 ^ 64 ∧ (utf8 c.token).length < 2 ^ 64

def ServerFrame.Fits (g : ServerFrame) : Prop :=
  (encodeServer g).length < 2 ^ 64 ∧
    match g with
    | .subscribeOk ok =>
        ok.requestId < 2 ^ 64 ∧ (utf8 ok.channel).length < 2 ^ 64 ∧ ok.epoch < 2 ^ 64 ∧
          ok.offset < 2 ^ 64
    | .unsubscribeOk ok => ok.requestId < 2 ^ 64 ∧ (utf8 ok.channel).length < 2 ^ 64
    | .publication p => p.Fits
    | .error e => e.requestId < 2 ^ 64 ∧ e.code < 2 ^ 32 ∧ (utf8 e.message).length < 2 ^ 64
    | .connectOk ok =>
        ok.requestId < 2 ^ 64 ∧ (utf8 ok.subject).length < 2 ^ 64 ∧ ok.expiresAt < 2 ^ 64

theorem Publication.fits_toProto {p : Publication} :
    Proto.Publication.schema.fits p.toProto ↔ p.Fits := by
  simp [Schema.fits, Proto.Publication.schema, Publication.Fits, Publication.toProto, uint64,
    string, bytes]

theorem decodePublication_encode {p : Publication} (fits : p.Fits) :
    decodePublication (encodePublication p) = .ok p := by
  rw [decodePublication, encodePublication, Schema.decode_encode,
    if_pos (Publication.fits_toProto.mpr fits)]
  rfl

/-- Whatever is read back from an encoded publication is that publication. -/
theorem decodePublication_encode_eq {p q : Publication}
    (h : decodePublication (encodePublication p) = .ok q) : q = p := by
  rw [decodePublication, encodePublication, Schema.decode_encode] at h
  split at h
  · next decoded =>
      cases h
      split at decoded
      · cases decoded
        rfl
      · cases decoded
  · cases h

theorem decodeClient_of_kind {f : ClientFrame} {kind : Proto.ClientKind}
    (proto : f.toProto = ⟨some kind⟩)
    (decoded : decode (mergeOneof Proto.ClientKind.variants) none kind.encode = some (some kind))
    (back : ClientFrame.ofProto f.toProto = .ok f) : decodeClient (encodeClient f) = .ok f := by
  rw [decodeClient, encodeClient, Proto.ClientFrame.decode]
  rw [proto] at back ⊢
  simp only [Proto.ClientFrame.encode, decoded, Option.map_some, back]

theorem decodeClient_encode {f : ClientFrame} (fits : f.Fits) :
    decodeClient (encodeClient f) = .ok f := by
  obtain ⟨size, fits⟩ := fits
  cases f with
  | subscribe s =>
      refine decodeClient_of_kind rfl (decode_encodeVariant (by decide) rfl ?_ size) rfl
      simpa [Schema.fits, Proto.Subscribe.schema, Subscribe.toProto, uint64, string] using fits
  | unsubscribe u =>
      refine decodeClient_of_kind rfl (decode_encodeVariant (by decide) rfl ?_ size) rfl
      simpa [Schema.fits, Proto.Unsubscribe.schema, Unsubscribe.toProto, uint64, string] using fits
  | publish p =>
      refine decodeClient_of_kind rfl (decode_encodeVariant (by decide) rfl ?_ size) rfl
      simpa [Schema.fits, Proto.Publish.schema, Publish.toProto, uint64, string, bytes] using fits
  | connect c =>
      refine decodeClient_of_kind rfl (decode_encodeVariant (by decide) rfl ?_ size) rfl
      simpa [Schema.fits, Proto.Connect.schema, Connect.toProto, uint64, string] using fits

theorem decodeServer_of_kind {g : ServerFrame} {kind : Proto.ServerKind}
    (proto : g.toProto = ⟨some kind⟩)
    (decoded : decode (mergeOneof Proto.ServerKind.variants) none kind.encode = some (some kind))
    (back : ServerFrame.ofProto g.toProto = .ok g) : decodeServer (encodeServer g) = .ok g := by
  rw [decodeServer, encodeServer, Proto.ServerFrame.decode]
  rw [proto] at back ⊢
  simp only [Proto.ServerFrame.encode, decoded, Option.map_some, back]

theorem decodeServer_encode {g : ServerFrame} (fits : g.Fits) :
    decodeServer (encodeServer g) = .ok g := by
  obtain ⟨size, fits⟩ := fits
  cases g with
  | subscribeOk ok =>
      refine decodeServer_of_kind rfl (decode_encodeVariant (by decide) rfl ?_ size) rfl
      simpa [Schema.fits, Proto.SubscribeOk.schema, SubscribeOk.toProto, uint64, string] using fits
  | unsubscribeOk ok =>
      refine decodeServer_of_kind rfl (decode_encodeVariant (by decide) rfl ?_ size) rfl
      simpa [Schema.fits, Proto.UnsubscribeOk.schema, UnsubscribeOk.toProto, uint64, string]
        using fits
  | publication p =>
      exact decodeServer_of_kind rfl
        (decode_encodeVariant (by decide) rfl (Publication.fits_toProto.mpr fits) size) rfl
  | error e =>
      obtain ⟨requestId, code, message⟩ := fits
      have whole : Proto.Error.schema.norm e.toProto = e.toProto := by
        simp only [Proto.Error.schema, ProtocolError.toProto, Nat.mod_eq_of_lt code]
      have wide : e.code < 2 ^ 64 := Nat.lt_trans code (by decide)
      have bounds := And.intro requestId (And.intro wide message)
      have fits : Proto.Error.schema.fits e.toProto := by
        simpa [Schema.fits, Proto.Error.schema, ProtocolError.toProto, uint64, uint32, string]
          using bounds
      refine decodeServer_of_kind rfl ((decode_encodeVariant (by decide) rfl fits size).trans ?_) rfl
      rw [whole]
  | connectOk ok =>
      refine decodeServer_of_kind rfl (decode_encodeVariant (by decide) rfl ?_ size) rfl
      simpa [Schema.fits, Proto.ConnectOk.schema, ConnectOk.toProto, uint64, string] using fits

/-- Every frame and every publication is decoded to itself. -/
theorem codec_round_trip :
    (∀ f : ClientFrame, f.Fits → decodeClient (encodeClient f) = .ok f) ∧
      (∀ g : ServerFrame, g.Fits → decodeServer (encodeServer g) = .ok g) ∧
      ∀ p : Publication, p.Fits → decodePublication (encodePublication p) = .ok p :=
  ⟨fun _ => decodeClient_encode, fun _ => decodeServer_encode, fun _ => decodePublication_encode⟩

theorem codec_round_trip_empty :
    decodeClient (encodeClient (.publish ⟨0, "", []⟩)) = .ok (.publish ⟨0, "", []⟩) ∧
      decodeServer (encodeServer (.error ⟨9, 2 ^ 32 - 1, "é"⟩)) =
        .ok (.error ⟨9, 2 ^ 32 - 1, "é"⟩) ∧
      decodePublication (encodePublication ⟨"", 2 ^ 64 - 1, []⟩) = .ok ⟨"", 2 ^ 64 - 1, []⟩ :=
  ⟨codec_round_trip.1 _ ⟨by decide +kernel, by decide, by decide +kernel, by decide⟩,
    codec_round_trip.2.1 _ ⟨by decide +kernel, by decide, by decide, by decide +kernel⟩,
    codec_round_trip.2.2 _ ⟨by decide +kernel, by decide, by decide⟩⟩

example : encodeServer (.publication ⟨"rooms.lobby", 42, [104, 105]⟩) =
    [26, 19, 10, 11, 114, 111, 111, 109, 115, 46, 108, 111, 98, 98, 121, 16, 42, 26, 2, 104,
      105] := by
  decide +kernel

example : decodeClient [] = .error .missingClientKind := rfl

end Cherenkov
