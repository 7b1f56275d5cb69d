import Cherenkov.Library.Json
import Cherenkov.Library.TypeScript

/-! `ts_type` writes a TypeScript type for the JSON Schema of a namespace. A `serde_json` map is its
list of entries, in whatever order it is traversed. Every payload that the schema accepts has the
type, as far as the text that is written is that type: property names are written without quotes, so
a name that is not an identifier ends up as something else. -/

namespace Cherenkov

open Json TypeScript SchemaVocabulary

/-- What the generator makes of the keyword `type`. -/
inductive SchemaType where
  | string
  | number
  | boolean
  | array
  | object
  | other

def schemaType (schema : Value) : SchemaType :=
  match (schema.member? "type").bind Value.string? with
  | some "string" => .string
  | some "integer" | some "number" => .number
  | some "boolean" => .boolean
  | some "array" => .array
  | some "object" => .object
  | _ => .other

def requiredNames (schema : Value) : List String :=
  match schema.member? "required" with
  | some (.array names) => names.filterMap Value.string?
  | _ => []

mutual

def tsType (schema : Value) : String :=
  match schemaType schema with
  | .string => "string"
  | .number => "number"
  | .boolean => "boolean"
  | .array =>
      match _found : schema.member? "items" with
      | some items => tsType items ++ "[]"
      | none => "unknown" ++ "[]"
  | .object => renderObject schema
  | .other => "unknown"
termination_by (sizeOf schema, 1)
decreasing_by
  · exact .left _ _ (sizeOf_member? _found)
  · exact .right _ Nat.zero_lt_one

def renderObject (schema : Value) : String :=
  match _found : schema.member? "properties" with
  | some (.object props) =>
      "\x7b " ++ "; ".intercalate (props.attach.map fun p =>
        p.1.1 ++ (if p.1.1 ∈ requiredNames schema then "" else "?") ++ ": " ++ tsType p.1.2) ++
        " \x7d"
  | _ => "Record<string, unknown>"
termination_by (sizeOf schema, 0)
decreasing_by
  exact .left _ _ (Nat.lt_trans (sizeOf_field p.2) (sizeOf_member? _found))

end

mutual

/-- The type that `ts_type` sets out to write. -/
def typeOf (schema : Value) : Ty :=
  match schemaType schema with
  | .string => .basic .string
  | .number => .basic .number
  | .boolean => .basic .boolean
  | .array =>
      match _found : schema.member? "items" with
      | some items => .array (typeOf items)
      | none => .array (.basic .unknown)
  | .object => objectType schema
  | .other => .basic .unknown
termination_by (sizeOf schema, 1)
decreasing_by
  · exact .left _ _ (sizeOf_member? _found)
  · exact .right _ Nat.zero_lt_one

def objectType (schema : Value) : Ty :=
  match _found : schema.member? "properties" with
  | some (.object props) =>
      .object (Members.ofList (props.attach.map fun p =>
        (p.1.1, decide (p.1.1 ∉ requiredNames schema), typeOf p.1.2)))
  | _ => .basic .record
termination_by (sizeOf schema, 0)
decreasing_by
  exact .left _ _ (Nat.lt_trans (sizeOf_field p.2) (sizeOf_member? _found))

end

theorem toList_mark (required : List String) (name : String) :
    (if name ∈ required then "" else "?").toList = mark (decide (name ∉ required)) := by
  by_cases member : name ∈ required <;> simp [member, mark]

theorem renderObject_chars {schema : Value}
    (inner : ∀ w, sizeOf w < sizeOf schema → (tsType w).toList = (typeOf w).chars) :
    (renderObject schema).toList = (objectType schema).chars := by
  rw [renderObject, objectType]
  split
  · next props found =>
      rw [String.toList_append, String.toList_append, String.toList_intercalate, List.map_map,
        Ty.chars, ofList_chars, List.map_map]
      have entries : ∀ p ∈ props.attach,
          (String.toList ∘ fun p : { p // p ∈ props } =>
            p.1.1 ++ (if p.1.1 ∈ requiredNames schema then "" else "?") ++ ": " ++
              tsType p.1.2) p =
            (entry ∘ fun p : { p // p ∈ props } =>
              (p.1.1, decide (p.1.1 ∉ requiredNames schema), typeOf p.1.2)) p := by
        intro p _
        have smaller := Nat.lt_trans (sizeOf_field p.2) (sizeOf_member? found)
        simp [toList_mark, inner p.1.2 smaller, entry, label]
      rw [List.map_congr_left entries]
      simp
  · simp [Ty.chars, Basic.chars]

/-- The text that `ts_type` returns is how the type is written. -/
theorem tsType_chars (schema : Value) : (tsType schema).toList = (typeOf schema).chars := by
  have inner : ∀ w, sizeOf w < sizeOf schema → (tsType w).toList = (typeOf w).chars :=
    fun w smaller => tsType_chars w
  rw [tsType, typeOf]
  cases schemaType schema with
  | string | number | boolean | other => simp [Ty.chars, Basic.chars]
  | object => exact renderObject_chars inner
  | array =>
      dsimp only
      split
      · next items found => simp [inner items (sizeOf_member? found), Ty.chars]
      · simp [Ty.chars, Basic.chars]
termination_by sizeOf schema

/-- The values that pass a `type` which the generator reads so. -/
def SchemaType.Fits : SchemaType → Value → Prop
  | .string, v => Basic.string.Inhabits v
  | .number, v => Basic.number.Inhabits v
  | .boolean, v => Basic.boolean.Inhabits v
  | .array, v => ∃ items, v = .array items
  | .object, v => ∃ fields, v = .object fields
  | .other, _ => True

section Acceptance

variable {further : Value → Value → Prop} {schema v : Value}

theorem accepts_fits (accepts : Accepts further schema v) : (schemaType schema).Fits v := by
  unfold schemaType
  split
  case h_7 => trivial
  all_goals
    next type =>
      have typed := accepts.typed type
      cases v <;> simp_all [HasType, SchemaType.Fits, Basic.Inhabits]

theorem mem_requiredNames {name : String} (member : name ∈ requiredNames schema) :
    ∃ names, schema.member? "required" = some (.array names) ∧ .string name ∈ names := by
  unfold requiredNames at member
  split at member
  · next names found =>
      obtain ⟨entry, inside, text⟩ := List.mem_filterMap.mp member
      cases entry with
      | string text' =>
          cases text
          exact ⟨names, found, inside⟩
      | _ => cases text
  · cases member

theorem objectType_admits {members fields : List (String × Value)}
    (properties : ∀ props, (Value.object members).member? "properties" = some (.object props) →
      ∀ p ∈ props, ∀ w, (Value.object fields).member? p.1 = some w → (typeOf p.2).Inhabits w)
    (required : ∀ name ∈ requiredNames (.object members),
      ((Value.object fields).member? name).isSome) :
    (objectType (.object members)).Inhabits (.object fields) := by
  rw [objectType]
  split
  · next props found =>
      refine ⟨⟨fields, rfl⟩, ofList_inhabits.mpr ?_⟩
      intro m member
      obtain ⟨p, -, rfl⟩ := List.mem_map.mp member
      refine ⟨properties props found p.1 p.2, ?_⟩
      intro mandatory
      exact required p.1.1 (by simpa using mandatory)
  · exact ⟨fields, rfl⟩

/-- A payload that the schema accepts inhabits the type. -/
theorem typeOf_admits (accepts : Accepts further schema v) : (typeOf schema).Inhabits v := by
  induction accepts with
  | always v =>
      rw [typeOf]
      trivial
  | @keywords members v type items properties required others itemsIh propertiesIh =>
      have fits := accepts_fits (.keywords type items properties required others)
      rw [typeOf]
      cases kind : schemaType (.object members) with
      | string | number | boolean | other =>
          rw [kind] at fits
          exact fits
      | array =>
          rw [kind] at fits
          obtain ⟨ws, rfl⟩ := fits
          dsimp only
          split
          · next schema found => exact ⟨ws, rfl, itemsIh schema found ws rfl⟩
          · exact ⟨ws, rfl, fun _ _ => trivial⟩
      | object =>
          rw [kind] at fits
          obtain ⟨fields, rfl⟩ := fits
          refine objectType_admits propertiesIh ?_
          intro name member
          obtain ⟨names, found, inside⟩ := mem_requiredNames member
          exact required names found name inside ⟨fields, rfl⟩

end Acceptance

/-- The text denotes a type, and every payload that the schema accepts has it, whatever other
keywords there are. -/
def Admits (N : PropertyNames) (schema : Value) : Prop :=
  ∃ type, N.Denotes (tsType schema) type ∧
    ∀ further v, Accepts further schema v → type.Inhabits v

theorem admits_of_named {N : PropertyNames} {schema : Value}
    (named : (typeOf schema).Named N.reads) : Admits N schema :=
  ⟨typeOf schema, ⟨named, (tsType_chars schema).symm⟩, fun _ _ => typeOf_admits⟩

def single (name : String) : Value :=
  .object [("type", .string "object"),
    ("properties", .object [(name, .object [("type", .string "string")])])]

theorem single_properties (name : String) :
    (single name).member? "properties" =
      some (.object [(name, .object [("type", .string "string")])]) := by
  simp [single, Value.member?]

theorem single_type (name : String) :
    typeOf (single name) = .object (.cons name true (.basic .string) .nil) := by
  have object : schemaType (single name) = .object := by
    simp [schemaType, single, Value.member?, Value.string?]
  have string : typeOf (.object [("type", .string "string")]) = .basic .string := by
    rw [typeOf]
    simp [schemaType, Value.member?, Value.string?]
  have optional : requiredNames (single name) = [] := by
    simp [requiredNames, single, Value.member?]
  rw [typeOf, object]
  dsimp only
  rw [objectType]
  split
  · next props found =>
      cases (single_properties name).symm.trans found
      simp [optional, string, Members.ofList]
  · next other => exact absurd (single_properties name) (other _)

theorem single_text (name : String) :
    tsType (single name) = "\x7b " ++ name ++ "?: string \x7d" := by
  apply String.toList_injective
  rw [tsType_chars, single_type]
  simp [Ty.chars, Members.chars, Members.more, label, mark, Basic.chars]

theorem single_accepts_own (name text : String) :
    Accepts bare (single name) (.object [(name, .string text)]) := by
  refine .keywords ?_ ?_ ?_ ?_ trivial
  · intro t found
    cases found
    rfl
  · intro schema found
    cases found
  · intro props found p member w here
    cases found
    cases List.mem_singleton.mp member
    simp only [Value.member?, List.find?_cons, decide_true, Option.map_some,
      Option.some.injEq] at here
    subst here
    refine .keywords ?_ nofun nofun nofun trivial
    intro t found
    cases found
    rfl
  · intro names found
    cases found

theorem single_accepts {name other : String} (apart : other ≠ name) (w : Value) :
    Accepts bare (single name) (.object [(other, w)]) := by
  refine .keywords ?_ ?_ ?_ ?_ trivial
  · intro t found
    cases found
    rfl
  · intro schema found
    cases found
  · intro props found p member w' here
    cases found
    cases List.mem_singleton.mp member
    simp [Value.member?, apart] at here
  · intro names found
    cases found

/-- For the names of a vocabulary, the generated types admit every accepted payload of every
schema that uses them just in case TypeScript reads all of them as they stand. -/
theorem generated_types_admit (N : PropertyNames) (vocabulary : String → Prop) :
    (∀ schema, (typeOf schema).Named vocabulary → Admits N schema) ↔
      ∀ name, vocabulary name → N.reads name := by
  constructor
  · intro admits name known
    have uses : (typeOf (single name)).Named vocabulary := by
      rw [single_type]
      exact ⟨known, trivial, trivial⟩
    obtain ⟨type, denotes, inhabits⟩ := admits (single name) uses
    rw [single_text] at denotes
    obtain ⟨other, reads, restricts⟩ := denotes.restricts
    by_contra unread
    have apart : other ≠ name := by
      rintro rfl
      exact unread reads
    have accepted := single_accepts apart (.number 5 0)
    obtain ⟨text, string⟩ := restricts _ (inhabits bare _ accepted) (.number 5 0)
      (by simp [Value.member?])
    cases string
  · intro reads schema named
    exact admits_of_named (Ty.named_mono reads _ named)

def identifierStart (c : Char) : Bool := c.isAlpha || c = '_' || c = '$'

def identifierPart (c : Char) : Bool := c.isAlphanum || c = '_' || c = '$'

def identifier (name : String) : Bool :=
  name.toList.head?.any identifierStart && name.toList.all identifierPart

/-- The identifiers that need no more than ASCII. -/
def asciiNames : PropertyNames where
  reads name := identifier name = true
  nonempty := by
    intro name reads empty
    simp [identifier, empty] at reads
  plain := by
    intro name reads c member
    simp only [identifier, Bool.and_eq_true] at reads
    have part := List.all_eq_true.mp reads.2 c member
    refine ⟨?_, ?_, ?_⟩ <;>
      · rintro rfl
        exact absurd part (by decide)

instance : DecidablePred asciiNames.reads := fun name =>
  inferInstanceAs (Decidable (identifier name = true))

/-- The text for a property `content-type` is no type, and the one for a property that is named
`a?: string; b` is the type of other objects. -/
theorem names_unquoted :
    ((∀ type, ¬asciiNames.Denotes (tsType (single "content-type")) type) ∧
      Accepts bare (single "content-type") (.object [("content-type", .string "text/html")])) ∧
    ∃ type, asciiNames.Denotes (tsType (single "a?: string; b")) type ∧
      Accepts bare (single "a?: string; b") (.object [("a", .number 5 0)]) ∧
      ¬type.Inhabits (.object [("a", .number 5 0)]) := by
  refine ⟨⟨?_, ?_⟩, .object (.cons "a" true (.basic .string) (.cons "b" true (.basic .string) .nil)),
    ?_, ?_, ?_⟩
  · rw [single_text]
    exact PropertyNames.undenoted (by decide +kernel) (by decide +kernel)
  · exact single_accepts_own "content-type" "text/html"
  · refine ⟨⟨by decide +kernel, trivial, by decide +kernel, trivial, trivial⟩, ?_⟩
    rw [single_text]
    decide +kernel
  · exact single_accepts (by decide) _
  · rintro ⟨-, restricts, -⟩
    obtain ⟨text, string⟩ := restricts (.number 5 0) (by simp [Value.member?])
    cases string

end Cherenkov
