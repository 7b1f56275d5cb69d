import Mathlib.Data.List.TakeWhile
import Cherenkov.Library.DashMap
import Cherenkov.Library.Fallible
import Cherenkov.Core

/-! `serde_json` and `jsonschema` are parameters: how bytes are parsed, how a schema document
compiles to a validator, and what a validator says of a value. The registry keeps one validator per
namespace and looks it up by the part of the channel before the first `.`. -/

namespace Cherenkov

open Fallible

variable {ν ω : Type}

/-- JSON values `ν` and compiled validators `ω`. -/
structure JsonSchema (ν ω : Type) where
  fromSlice : Bytes → Except String ν
  validatorFor : ν → Except String ω
  validate : ω → ν → Except String Unit

/-- The bytes are a JSON document that the schema accepts. -/
def JsonSchema.Accepts (J : JsonSchema ν ω) (schema : ν) (data : Bytes) : Prop :=
  ∃ validator value, J.validatorFor schema = .ok validator ∧ J.fromSlice data = .ok value ∧
    J.validate validator value = .ok ()

inductive RegistryError where
  | invalidSchema (name reason : String)
  deriving DecidableEq, Repr

def RegistryError.display : RegistryError → String
  | .invalidSchema name reason => "schema for namespace `" ++ name ++ "` is invalid: " ++ reason

structure JsonSchemaRegistry (ω : Type) where
  schemas : DashMap String ω

namespace JsonSchemaRegistry

def empty : JsonSchemaRegistry ω := ⟨∅⟩

/-- `JsonSchemaRegistryBuilder::with_namespace`; the builder is the registry under
construction. -/
def withNamespace (J : JsonSchema ν ω) (r : JsonSchemaRegistry ω) (name : String) (schema : ν) :
    Except RegistryError (JsonSchemaRegistry ω) :=
  match J.validatorFor schema with
  | .ok validator => .ok ⟨r.schemas.put name validator⟩
  | .error reason => .error (.invalidSchema name reason)

def validate (J : JsonSchema ν ω) (r : JsonSchemaRegistry ω) (channel : String) (data : Bytes) :
    Except SchemaError Unit :=
  match r.schemas.get (namespaceOf channel) with
  | none => .ok ()
  | some validator =>
      match J.fromSlice data with
      | .error e => .error (.payloadRejected channel ("payload is not valid JSON: " ++ e))
      | .ok value =>
          match J.validate validator value with
          | .error e => .error (.payloadRejected channel e)
          | .ok _ => .ok ()

variable {J : JsonSchema ν ω} {r : JsonSchemaRegistry ω}

theorem withNamespace_eq_ok {name : String} {schema : ν} {r' : JsonSchemaRegistry ω} :
    r.withNamespace J name schema = .ok r' ↔
      ∃ validator, J.validatorFor schema = .ok validator ∧ r' = ⟨r.schemas.put name validator⟩ := by
  unfold withNamespace
  cases J.validatorFor schema <;> simp [eq_comm]

theorem validate_eq_ok {channel : String} {data : Bytes} {u : Unit} :
    r.validate J channel data = .ok u ↔
      ∀ validator, r.schemas.get (namespaceOf channel) = some validator →
        ∃ value, J.fromSlice data = .ok value ∧ J.validate validator value = .ok () := by
  unfold validate
  cases r.schemas.get (namespaceOf channel) with
  | none => simp
  | some validator =>
      cases J.fromSlice data with
      | error e => simp
      | ok value => cases verdict : J.validate validator value <;> simp [verdict]

end JsonSchemaRegistry

/-- The channels that a reader of the configuration takes to belong to the key. -/
def Under (key channel : String) : Prop := channel = key ∨ ∃ suffix, channel = key ++ "." ++ suffix

def Dotless (key : String) : Prop := '.' ∉ key.toList

instance (key : String) : Decidable (Dotless key) := inferInstanceAs (Decidable (¬_))

theorem namespaceOf_dotless (channel : String) : Dotless (namespaceOf channel) := by
  unfold Dotless namespaceOf
  rw [String.toList_ofList]
  intro member
  have kept := List.mem_takeWhile_imp member
  simp at kept

theorem namespaceOf_under {key channel : String} (dotless : Dotless key)
    (under : Under key channel) : namespaceOf channel = key := by
  have kept : ∀ c ∈ key.toList, decide (c ≠ '.') = true := by
    intro c member
    rw [decide_eq_true_iff]
    rintro rfl
    exact dotless member
  rcases under with rfl | ⟨suffix, rfl⟩
  · rw [namespaceOf, List.takeWhile_eq_self_iff.mpr kept, String.ofList_toList]
  · have first : (key ++ "." ++ suffix).toList.takeWhile (· ≠ '.') = key.toList := by
      rw [String.toList_append, String.toList_append, List.append_assoc,
        List.takeWhile_append_of_pos kept]
      exact List.append_nil _
    rw [namespaceOf, first, String.ofList_toList]

/-- A key with a dot is the namespace of no channel. -/
theorem dotless_iff_consulted {key : String} :
    Dotless key ↔ ∃ channel, namespaceOf channel = key := by
  constructor
  · intro dotless
    exact ⟨key, namespaceOf_under dotless (.inl rfl)⟩
  · rintro ⟨channel, rfl⟩
    exact namespaceOf_dotless channel

/-- A `ValidationError`: which keyword of the schema was violated, where both are found, and the
value that violates it. -/
structure Violation (ν : Type) where
  keyword : String
  schemaPath : String
  instancePath : String
  value : ν

/-- `jsonschema` as far as its errors go: the first violation it finds, and the text of one, which
is the offending value followed by what the keyword asked for. -/
structure SchemaEngine (ν ω : Type) where
  fromSlice : Bytes → Except String ν
  validatorFor : ν → Except String ω
  violation : ω → ν → Option (Violation ν)
  render : ν → String
  phrase : String → String → String

namespace SchemaEngine

def display (E : SchemaEngine ν ω) (v : Violation ν) : String :=
  E.render v.value ++ E.phrase v.keyword v.schemaPath

def jsonSchema (E : SchemaEngine ν ω) : JsonSchema ν ω where
  fromSlice := E.fromSlice
  validatorFor := E.validatorFor
  validate validator value :=
    match E.violation validator value with
    | none => .ok ()
    | some v => .error (E.display v)

/-- The payload is JSON, and the channel's schema rejects it for the violation. -/
def Rejects (E : SchemaEngine ν ω) (r : JsonSchemaRegistry ω) (channel : String) (data : Bytes)
    (v : Violation ν) : Prop :=
  ∃ validator value, r.schemas.get (namespaceOf channel) = some validator ∧
    E.fromSlice data = .ok value ∧ E.violation validator value = some v

variable {E : SchemaEngine ν ω} {r : JsonSchemaRegistry ω} {channel : String}

theorem Rejects.validate_eq {data : Bytes} {v : Violation ν} (rejects : E.Rejects r channel data v) :
    r.validate E.jsonSchema channel data = .error (.payloadRejected channel (E.display v)) := by
  obtain ⟨validator, value, registered, parsed, found⟩ := rejects
  have verdict : E.jsonSchema.validate validator value = .error (E.display v) := by
    simp only [jsonSchema, found]
  unfold JsonSchemaRegistry.validate
  rw [registered]
  simp only [show E.jsonSchema.fromSlice data = .ok value from parsed, verdict]

theorem display_inj {v w : Violation ν} (keyword : v.keyword = w.keyword)
    (schemaPath : v.schemaPath = w.schemaPath) :
    E.display v = E.display w ↔ E.render v.value = E.render w.value := by
  unfold display
  rw [keyword, schemaPath]
  constructor
  · intro same
    have lists := congrArg String.toList same
    rw [String.toList_append, String.toList_append] at lists
    exact String.toList_injective (List.append_cancel_right lists)
  · intro same
    rw [same]

/-- Two payloads rejected at the same place for the same keyword get the same answer exactly if
their offending values are written the same. -/
theorem rejection_payload_free {first second : Bytes} {v w : Violation ν}
    (rejectsFirst : E.Rejects r channel first v) (rejectsSecond : E.Rejects r channel second w)
    (keyword : v.keyword = w.keyword) (schemaPath : v.schemaPath = w.schemaPath)
    (_ : v.instancePath = w.instancePath) :
    r.validate E.jsonSchema channel first = r.validate E.jsonSchema channel second ↔
      E.render v.value = E.render w.value := by
  rw [rejectsFirst.validate_eq, rejectsSecond.validate_eq, ← display_inj keyword schemaPath]
  constructor
  · intro same
    exact (SchemaError.payloadRejected.inj (Except.error.inj same)).2
  · intro same
    rw [same]

/-- Documents are JSON strings without escapes, and every schema asks for an integer. -/
def stringly : SchemaEngine String Unit where
  fromSlice data :=
    match data with
    | 34 :: rest =>
        .ok (String.ofList ((rest.takeWhile (· ≠ 34)).map fun byte => Char.ofNat byte.toNat))
    | _ => .error "expected value at line 1 column 1"
  validatorFor _ := .ok ()
  violation _ value := some ⟨"type", "/type", "", value⟩
  render value := "\"" ++ value ++ "\""
  phrase _ _ := " is not of type \"integer\""

def integers : JsonSchemaRegistry Unit := ⟨(∅ : DashMap String Unit).put "orders" ()⟩

/-- What was sent is in the answer, word for word. -/
theorem rejection_quotes_payload :
    stringly.Rejects integers "orders.eu" [34, 107, 101, 121, 34] ⟨"type", "/type", "", "key"⟩ ∧
      stringly.Rejects integers "orders.eu" [34, 112, 105, 110, 34] ⟨"type", "/type", "", "pin"⟩ ∧
      integers.validate stringly.jsonSchema "orders.eu" [34, 107, 101, 121, 34] =
        .error (.payloadRejected "orders.eu" "\"key\" is not of type \"integer\"") ∧
      integers.validate stringly.jsonSchema "orders.eu" [34, 112, 105, 110, 34] =
        .error (.payloadRejected "orders.eu" "\"pin\" is not of type \"integer\"") := by
  refine ⟨⟨(), "key", rfl, ?_, rfl⟩, ⟨(), "pin", rfl, ?_, rfl⟩, ?_, ?_⟩
  all_goals decide +kernel

/-- Blanks around the document do not show. -/
theorem rejection_payload_free_blank :
    integers.validate stringly.jsonSchema "orders.eu" [34, 107, 101, 121, 34] =
      integers.validate stringly.jsonSchema "orders.eu" [34, 107, 101, 121, 34, 32] := by
  have tight : stringly.Rejects integers "orders.eu" [34, 107, 101, 121, 34]
      ⟨"type", "/type", "", "key"⟩ := ⟨(), "key", rfl, by decide +kernel, rfl⟩
  have blank : stringly.Rejects integers "orders.eu" [34, 107, 101, 121, 34, 32]
      ⟨"type", "/type", "", "key"⟩ := ⟨(), "key", rfl, by decide +kernel, rfl⟩
  exact (rejection_payload_free tight blank rfl rfl rfl).mpr rfl

end SchemaEngine

end Cherenkov
