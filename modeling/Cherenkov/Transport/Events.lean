import Cherenkov.Library.Base64
import Cherenkov.Library.Json
import Cherenkov.Transport.Sse

/-! `frame_to_event` formats an object around strings that serde_json has escaped and numbers. Its
text is one line and reads back as the members it was made of; the payload of a publication is in
base64. -/

namespace Cherenkov

variable {κ β τ ε : Type}

/-- The transport with what serde_json and the `base64` crate render. -/
def Sse.rendering (hub : Hub κ β τ ε) : Sse κ β τ ε := ⟨hub, Json.quote, Base64.encode⟩

def ServerFrame.fields : ServerFrame → List (String × Json.Scalar)
  | .publication p =>
      [("channel", .string p.channel), ("offset", .nat p.offset),
        ("data", .string (Base64.encode p.data))]
  | .error e =>
      [("request_id", .nat e.requestId), ("code", .nat e.code), ("message", .string e.message)]
  | .subscribeOk ok => [("request_id", .nat ok.requestId), ("channel", .string ok.channel)]
  | .unsubscribeOk ok => [("request_id", .nat ok.requestId), ("channel", .string ok.channel)]
  | .connectOk ok => [("request_id", .nat ok.requestId), ("subject", .string ok.subject)]

theorem quote_toList (text : String) : (Json.quote text).toList = Json.quoteChars text.toList :=
  String.toList_ofList

theorem Sse.frameToEvent_data (hub : Hub κ β τ ε) (frame : ServerFrame) :
    ((Sse.rendering hub).frameToEvent frame).data =
      some (String.ofList (Json.objectChars frame.fields)) := by
  have rendered : ∀ {text : String} {chars : List Char}, text.toList = chars →
      some text = some (String.ofList chars) := by
    intro text chars same
    rw [← same, String.ofList_toList]
  -- the pieces around the values are literals, which are computed
  cases frame
  all_goals
    dsimp only [frameToEvent, rendering, ServerFrame.fields]
    apply rendered
    simp only [String.toList_append, quote_toList, Nat.toString_eq_repr, Nat.toList_repr,
      Json.objectChars, Json.memberChars, Json.Scalar.chars, List.flatMap_cons, List.flatMap_nil,
      List.append_nil, List.append_assoc, List.cons_append]
    rfl

/-- The data of every event is one line and reads back as its members. -/
theorem Sse.event_line (hub : Hub κ β τ ε) (frame : ServerFrame) :
    ∃ data, ((Sse.rendering hub).frameToEvent frame).data = some data ∧
      Json.Printable data.toList ∧
      Json.parse data = some (.object (Json.members frame.fields)) := by
  refine ⟨_, Sse.frameToEvent_data hub frame, ?_, Json.parse_object frame.fields⟩
  rw [String.toList_ofList]
  exact Json.objectChars_printable frame.fields

/-- What a client makes of the data of a publication. -/
def readPublication (data : String) : Option Publication := do
  let json ← Json.parse data
  let channel ← (json.member? "channel").bind Json.Value.string?
  let offset ← (json.member? "offset").bind Json.Value.nat?
  let text ← (json.member? "data").bind Json.Value.string?
  let bytes ← Base64.decode text
  some ⟨channel, offset, bytes⟩

theorem readPublication_of_parse {data : String} {p : Publication}
    (parsed : Json.parse data = some (.object (Json.members (ServerFrame.publication p).fields))) :
    readPublication data = some p := by
  rw [readPublication, parsed]
  change (Base64.decode (Base64.encode p.data)).bind _ = _
  rw [Base64.decode_encode]
  rfl

/-- The event of a publication carries one line, an object from which the publication is read
back. -/
theorem publication_event_decodes (hub : Hub κ β τ ε) (p : Publication) :
    ∃ data, (Sse.rendering hub).frameToEvent (.publication p) = ⟨"publication", some data⟩ ∧
      '\r' ∉ data.toList ∧ '\n' ∉ data.toList ∧
      (∃ members, Json.parse data = some (.object members)) ∧
      readPublication data = some p := by
  obtain ⟨data, carried, line, parsed⟩ := Sse.event_line hub (.publication p)
  have event : (Sse.rendering hub).frameToEvent (.publication p) = ⟨"publication", some data⟩ := by
    rw [← carried]
    rfl
  refine ⟨data, event, ?_, ?_, ⟨_, parsed⟩, readPublication_of_parse parsed⟩
  · intro member
    exact absurd (line _ member) (by decide)
  · intro member
    exact absurd (line _ member) (by decide)

end Cherenkov
