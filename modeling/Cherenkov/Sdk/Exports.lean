import Mathlib
import Cherenkov.Sdk.Payloads

/-! `tsgen::render` declares one type and one function for each namespace, under a name that
`type_name` makes of the namespace: it drops what is neither letter nor digit, puts the first
character of each remaining piece in upper case and appends `Payload`. Different namespaces can get
the same name, and a name can begin with a digit. -/

namespace Cherenkov

open Json

/-- What the standard library and TypeScript know of characters: `char::is_alphanumeric`,
`char::to_uppercase`, `ID_Start` and `ID_Continue`. -/
structure Unicode where
  alphanumeric : Char → Bool
  uppercase : Char → List Char
  idStart : Char → Bool
  idContinue : Char → Bool
  alphanumeric_ascii : ∀ c, c.toNat < 128 → alphanumeric c = c.isAlphanum
  uppercase_ascii : ∀ c, c.toNat < 128 → uppercase c = [c.toUpper]
  idStart_ascii : ∀ c, c.toNat < 128 → idStart c = c.isAlpha
  idContinue_ascii : ∀ c, c.toNat < 128 → idContinue c = (c.isAlphanum || c = '_')
  uppercase_ne_nil : ∀ c, uppercase c ≠ []
  uppercase_upper : ∀ c, ∀ d ∈ uppercase c, d.isLower = false
  idContinue_of_idStart : ∀ c, idStart c = true → idContinue c = true

namespace Unicode

variable (U : Unicode)

/-- The loop of `type_name`: what is written so far, and `upper_next`. -/
def typeNameStep (s : String × Bool) (c : Char) : String × Bool :=
  if U.alphanumeric c then
    if s.2 then (s.1 ++ String.ofList (U.uppercase c), false) else (s.1.push c, s.2)
  else (s.1, true)

def typeName (name : String) : String :=
  let out := (name.toList.foldl U.typeNameStep ("", true)).1
  if out = "" then "Payload" else out ++ "Payload"

end Unicode

inductive Declaration where
  | type (name body : String)
  | function (name value : String)

namespace Declaration

def name : Declaration → String
  | .type name _ => name
  | .function name _ => name

def text : Declaration → String
  | .type name body => "export type " ++ name ++ " = " ++ body ++ ";\n"
  | .function name value =>
      "export function " ++ name ++ "(client: CherenkovClient, channel: string, value: " ++ value ++
        ", encode: (v: " ++ value ++ ") => Uint8Array): Promise<void> \x7b\n" ++
        "  return client.publish(channel, encode(value));\n\x7d\n"

end Declaration

def preludeLines : List String :=
  ["// AUTO-GENERATED by cherenkov-sdk-ts. Do not edit by hand.",
    "// Wire protocol: cherenkov.v1",
    "// Each declared namespace has a typed publish helper; channels in",
    "// undeclared namespaces accept arbitrary payloads.",
    "",
    "export interface CherenkovTransport \x7b",
    "  send(bytes: Uint8Array): Promise<void>;",
    "  onMessage(handler: (bytes: Uint8Array) => void): void;",
    "\x7d",
    "",
    "export interface PublishOptions \x7b",
    "  requestId?: number;",
    "\x7d",
    "",
    "export class CherenkovClient \x7b",
    "  private nextRequestId = 1;",
    "  constructor(private readonly transport: CherenkovTransport) \x7b\x7d",
    "",
    "  publish(channel: string, data: Uint8Array, opts: PublishOptions = \x7b\x7d): Promise<void> \x7b",
    "    // Encoding the v1 Publish frame is left to a wire library; this",
    "    // SDK passes the channel + payload through to the transport.",
    "    const requestId = opts.requestId ?? this.nextRequestId++;",
    "    return this.transport.send(encodePublishFrame(requestId, channel, data));",
    "  \x7d",
    "\x7d",
    "",
    "// Implemented in the runtime companion package.",
    "declare function encodePublishFrame(",
    "  requestId: number,",
    "  channel: string,",
    "  data: Uint8Array,",
    "): Uint8Array;"]

namespace Unicode

variable (U : Unicode)

def declarations (entry : String × Value) : List Declaration :=
  [.type (U.typeName entry.1) (tsType entry.2),
    .function ("publish" ++ U.typeName entry.1) (U.typeName entry.1)]

def render (namespaces : List (String × Value)) : String :=
  String.join (preludeLines.map (· ++ "\n")) ++ "\n" ++
    String.join (namespaces.map fun entry =>
      "\n// Namespace: " ++ entry.1 ++ "\n" ++
        String.join ((U.declarations entry).map Declaration.text))

def exported (namespaces : List (String × Value)) : List String :=
  namespaces.flatMap fun entry => (U.declarations entry).map Declaration.name

def startsIdentifier (c : Char) : Bool := U.idStart c || c = '$' || c = '_'

def continuesIdentifier (c : Char) : Bool :=
  U.idContinue c || c = '$' || c = '\u200c' || c = '\u200d'

/-- An identifier may begin so, and go on so. -/
def Spells : List Char → Prop
  | [] => True
  | c :: cs => U.startsIdentifier c = true ∧ ∀ d ∈ cs, U.continuesIdentifier d = true

end Unicode

/-- Words that are no identifiers, and the predefined types, after which no type can be named. -/
def reservedWords : List String :=
  ["break", "case", "catch", "class", "const", "continue", "debugger", "default", "delete", "do",
    "else", "enum", "export", "extends", "false", "finally", "for", "function", "if", "import",
    "in", "instanceof", "new", "null", "return", "super", "switch", "this", "throw", "true", "try",
    "typeof", "var", "void", "while", "with", "implements", "interface", "let", "package",
    "private", "protected", "public", "static", "yield", "await", "any", "unknown", "never",
    "boolean", "number", "string", "symbol", "object", "bigint", "undefined"]

def Unicode.Legal (U : Unicode) (name : String) : Prop :=
  name ≠ "" ∧ U.Spells name.toList ∧ name ∉ reservedWords

namespace Unicode

variable (U : Unicode)

def capital : List Char → List Char
  | [] => []
  | c :: cs => U.uppercase c ++ cs

def words (chars : List Char) : List (List Char) := chars.splitOnP fun c => !U.alphanumeric c

/-- The words of a text, capitalised and run together. -/
def pascal (name : String) : List Char := (U.words name.toList).flatMap U.capital

variable {U}

theorem words_alphanumeric {c : Char} (letter : U.alphanumeric c = true) (cs : List Char) :
    ∃ word rest, U.words cs = word :: rest ∧ U.words (c :: cs) = (c :: word) :: rest := by
  obtain ⟨word, rest, split⟩ := List.exists_cons_of_ne_nil
    (List.splitOnP_ne_nil (fun c => !U.alphanumeric c) cs)
  refine ⟨word, rest, split, ?_⟩
  rw [words, List.splitOnP_cons_eq_if_modifyHead, split, letter]
  rfl

theorem words_other {c : Char} (other : U.alphanumeric c = false) (cs : List Char) :
    U.words (c :: cs) = [] :: U.words cs := by
  rw [words, List.splitOnP_cons_eq_if_modifyHead, other]
  rfl

/-- What the loop still writes: the current word is capitalised if nothing of it is written. -/
def remainder (U : Unicode) (upper : Bool) (cs : List Char) : List Char :=
  if upper then (U.words cs).flatMap U.capital
  else (U.words cs).head?.getD [] ++ (U.words cs).tail.flatMap U.capital

theorem typeNameStep_loop (cs : List Char) (out : String) (upper : Bool) :
    (cs.foldl U.typeNameStep (out, upper)).1.toList = out.toList ++ U.remainder upper cs := by
  induction cs generalizing out upper with
  | nil => cases upper <;> simp [remainder, words, capital]
  | cons c cs ih =>
      rw [List.foldl_cons]
      by_cases letter : U.alphanumeric c = true
      · obtain ⟨word, rest, split, grown⟩ := words_alphanumeric letter cs
        cases upper with
        | true =>
            rw [typeNameStep, if_pos letter, if_pos rfl, ih]
            simp [remainder, split, grown, capital]
        | false =>
            rw [typeNameStep, if_pos letter, if_neg Bool.false_ne_true, ih]
            simp [remainder, split, grown]
      · rw [typeNameStep, if_neg letter, ih]
        have split := words_other (Bool.eq_false_iff.mpr letter) cs
        cases upper <;> simp [remainder, split, capital]

def payload : List Char := ['P', 'a', 'y', 'l', 'o', 'a', 'd']

theorem typeName_chars (name : String) : (U.typeName name).toList = U.pascal name ++ payload := by
  have loop := typeNameStep_loop (U := U) name.toList "" true
  rw [String.toList_empty, List.nil_append, remainder, if_pos rfl] at loop
  unfold typeName
  dsimp only
  split
  · next empty =>
      rw [empty, String.toList_empty] at loop
      rw [pascal, ← loop]
      decide +kernel
  · rw [String.toList_append, loop]
    rfl

theorem typeName_inj {a b : String} : U.typeName a = U.typeName b ↔ U.pascal a = U.pascal b := by
  rw [← String.toList_inj, typeName_chars, typeName_chars, List.append_left_inj]

theorem flatMap_capital_head {words : List (List Char)} {d : Char} {ds : List Char}
    (chars : words.flatMap U.capital = d :: ds) : d.isLower = false := by
  induction words with
  | nil => cases chars
  | cons word words ih =>
      cases word with
      | nil => exact ih chars
      | cons c cs =>
          obtain ⟨u, us, upper⟩ := List.exists_cons_of_ne_nil (U.uppercase_ne_nil c)
          rw [List.flatMap_cons, capital, upper] at chars
          have first : u = d := (List.cons.inj chars).1
          exact U.uppercase_upper c d (by rw [upper, first]; exact List.mem_cons_self)

theorem typeName_head (name : String) : ∃ c cs, (U.typeName name).toList = c :: cs ∧ c.isLower = false := by
  rw [typeName_chars]
  cases chars : U.pascal name with
  | nil => exact ⟨'P', _, rfl, by decide⟩
  | cons c cs => exact ⟨c, cs ++ payload, rfl, flatMap_capital_head chars⟩

theorem typeName_ne_publish (a b : String) : U.typeName a ≠ "publish" ++ U.typeName b := by
  intro same
  obtain ⟨c, cs, chars, upper⟩ := U.typeName_head a
  rw [same, String.toList_append] at chars
  cases chars
  exact absurd upper (by decide)

theorem exported_nodup (namespaces : List (String × Value)) :
    (U.exported namespaces).Nodup ↔ (namespaces.map fun entry => U.pascal entry.1).Nodup := by
  have own : ∀ entry ∈ namespaces, ((U.declarations entry).map Declaration.name).Nodup := by
    intro entry _
    simpa [declarations, Declaration.name] using typeName_ne_publish entry.1 entry.1
  have others : ∀ a b : String × Value,
      List.Disjoint ((U.declarations a).map Declaration.name)
        ((U.declarations b).map Declaration.name) ↔ U.pascal a.1 ≠ U.pascal b.1 := by
    intro a b
    rw [ne_eq, ← typeName_inj]
    simp [declarations, Declaration.name, List.disjoint_left, typeName_ne_publish,
      (typeName_ne_publish _ _).symm, String.append_right_inj]
  have distinct : (namespaces.map fun entry => U.pascal entry.1).Nodup ↔
      namespaces.Pairwise fun a b => U.pascal a.1 ≠ U.pascal b.1 := List.pairwise_map
  unfold exported
  rw [List.nodup_flatMap, distinct]
  constructor
  · rintro ⟨-, apart⟩
    exact apart.imp fun disjoint => (others _ _).mp disjoint
  · intro apart
    exact ⟨own, apart.imp fun ne => (others _ _).mpr ne⟩

theorem continues_of_starts {c : Char} (starts : U.startsIdentifier c = true) :
    U.continuesIdentifier c = true := by
  simp only [startsIdentifier, Bool.or_eq_true, decide_eq_true_eq] at starts
  rcases starts with (start | rfl) | rfl
  · simp [continuesIdentifier, U.idContinue_of_idStart c start]
  · simp [continuesIdentifier]
  · have ascii := U.idContinue_ascii '_' (by decide)
    simp [continuesIdentifier, ascii]

theorem continues_ascii {chars : List Char}
    (plain : (chars.all fun c => decide (c.toNat < 128) && c.isAlphanum) = true) :
    ∀ c ∈ chars, U.continuesIdentifier c = true := by
  intro c member
  have both := List.all_eq_true.mp plain c member
  simp only [Bool.and_eq_true, decide_eq_true_eq] at both
  simp [continuesIdentifier, U.idContinue_ascii c both.1, both.2]

theorem starts_ascii {c : Char} (ascii : c.toNat < 128) (letter : c.isAlpha = true) :
    U.startsIdentifier c = true := by
  simp [startsIdentifier, U.idStart_ascii c ascii, letter]

theorem payload_continues : ∀ c ∈ payload, U.continuesIdentifier c = true :=
  continues_ascii (by decide)

theorem spells_payload (chars : List Char) : U.Spells (chars ++ payload) ↔ U.Spells chars := by
  cases chars with
  | nil =>
      refine iff_of_true ⟨starts_ascii (by decide) (by decide), ?_⟩ trivial
      intro d member
      exact payload_continues d (List.mem_cons_of_mem _ member)
  | cons c cs =>
      simp only [Spells, List.cons_append, List.mem_append]
      refine and_congr_right fun _ => ⟨fun all d member => all d (.inl member), ?_⟩
      intro all d member
      rcases member with own | suffix
      · exact all d own
      · exact payload_continues d suffix

theorem Spells.continues {chars : List Char} (spells : U.Spells chars) :
    ∀ c ∈ chars, U.continuesIdentifier c = true := by
  cases chars with
  | nil => exact nofun
  | cons c cs => exact List.forall_mem_cons.mpr ⟨continues_of_starts spells.1, spells.2⟩

theorem spells_publish {chars : List Char} (spells : U.Spells chars) :
    U.Spells ("publish".toList ++ chars) := by
  refine ⟨starts_ascii (by decide) (by decide), ?_⟩
  intro d member
  rcases List.mem_append.mp (show d ∈ ['u', 'b', 'l', 'i', 's', 'h'] ++ chars from member) with
    own | suffix
  · exact continues_ascii (by decide) d own
  · exact spells.continues d suffix

theorem not_reserved {name : String} (ends : payload <:+ name.toList) : name ∉ reservedWords := by
  have none_ : ∀ word ∈ reservedWords, ¬payload <:+ word.toList := by decide +kernel
  intro member
  exact none_ name member ends

theorem typeName_legal (name : String) :
    U.Legal (U.typeName name) ↔ U.Spells (U.pascal name) := by
  have ends : payload <:+ (U.typeName name).toList := by
    rw [typeName_chars]
    exact List.suffix_append _ _
  obtain ⟨c, cs, chars, -⟩ := U.typeName_head name
  have nonempty : U.typeName name ≠ "" := by
    intro empty
    rw [empty] at chars
    cases chars
  rw [Legal, typeName_chars, spells_payload]
  exact ⟨fun legal => legal.2.1, fun spells => ⟨nonempty, spells, not_reserved ends⟩⟩

theorem publish_legal {name : String} (spells : U.Spells (U.pascal name)) :
    U.Legal ("publish" ++ U.typeName name) := by
  have chars : ("publish" ++ U.typeName name).toList =
      "publish".toList ++ (U.pascal name ++ payload) := by
    rw [String.toList_append, typeName_chars]
  refine ⟨?_, ?_, not_reserved ?_⟩
  · intro empty
    rw [empty] at chars
    simp at chars
  · rw [chars]
    exact spells_publish ((spells_payload _).mpr spells)
  · rw [chars, ← List.append_assoc]
    exact List.suffix_append _ _

/-- The names that the namespaces export are distinct and legal just in case the capitalised
words of no two namespaces are the same text, and each such text can begin an identifier. -/
theorem exported_distinct_legal (U : Unicode) (namespaces : List (String × Value)) :
    ((U.exported namespaces).Nodup ∧ ∀ name ∈ U.exported namespaces, U.Legal name) ↔
      (namespaces.map fun entry => U.pascal entry.1).Nodup ∧
        ∀ entry ∈ namespaces, U.Spells (U.pascal entry.1) := by
  rw [exported_nodup]
  refine and_congr_right fun _ => ⟨?_, ?_⟩
  · intro legal entry member
    rw [← typeName_legal]
    apply legal
    exact List.mem_flatMap.mpr ⟨entry, member, List.mem_cons_self⟩
  · intro spells name exports
    obtain ⟨entry, member, own⟩ := List.mem_flatMap.mp exports
    simp only [declarations, Declaration.name, List.map_cons, List.map_nil, List.mem_cons,
      List.not_mem_nil, or_false] at own
    rcases own with rfl | rfl
    · exact (typeName_legal entry.1).mpr (spells entry member)
    · exact publish_legal (spells entry member)

/-- A table that knows the letters and digits of ASCII only. -/
def ascii : Unicode where
  alphanumeric := Char.isAlphanum
  uppercase c := [c.toUpper]
  idStart := Char.isAlpha
  idContinue c := c.isAlphanum || c = '_'
  alphanumeric_ascii _ _ := rfl
  uppercase_ascii _ _ := rfl
  idStart_ascii _ _ := rfl
  idContinue_ascii _ _ := rfl
  uppercase_ne_nil _ := nofun
  uppercase_upper := by
    intro c d member
    cases List.mem_singleton.mp member
    exact Char.isLower_toUpper_eq_false c
  idContinue_of_idStart := by
    intro c letter
    simp [Char.isAlphanum, letter]

/-- All tables give a namespace in ASCII the same name. -/
theorem typeName_ascii (U : Unicode) (name : String)
    (plain : (name.toList.all fun c => decide (c.toNat < 128)) = true) :
    U.typeName name = ascii.typeName name := by
  have loop : name.toList.foldl U.typeNameStep ("", true) =
      name.toList.foldl ascii.typeNameStep ("", true) := by
    refine List.foldl_ext _ _ _ fun s c member => ?_
    have below := of_decide_eq_true (List.all_eq_true.mp plain c member)
    simp only [typeNameStep, U.alphanumeric_ascii c below, U.uppercase_ascii c below,
      ascii.alphanumeric_ascii c below, ascii.uppercase_ascii c below]
  simp only [typeName, loop]

example : ascii.typeName "rooms.lobby" = "RoomsLobbyPayload" := by decide +kernel

/-- Two namespaces with the same words, and one that begins with a digit. -/
theorem exported_clash :
    (∀ (U : Unicode) (a b : Value), U.exported [("a.b", a), ("a-b", b)] =
        ["ABPayload", "publishABPayload", "ABPayload", "publishABPayload"]) ∧
      ∀ (U : Unicode) (schema : Value), U.exported [("2fa", schema)] =
        ["2faPayload", "publish2faPayload"] ∧ ¬U.Legal "2faPayload" := by
  refine ⟨?_, ?_⟩
  · intro U a b
    have dot : U.typeName "a.b" = "ABPayload" :=
      (typeName_ascii U "a.b" (by decide +kernel)).trans (by decide +kernel)
    have dash : U.typeName "a-b" = "ABPayload" :=
      (typeName_ascii U "a-b" (by decide +kernel)).trans (by decide +kernel)
    simp [exported, declarations, Declaration.name, dot, dash]
  · intro U schema
    have digit : U.typeName "2fa" = "2faPayload" :=
      (typeName_ascii U "2fa" (by decide +kernel)).trans (by decide +kernel)
    refine ⟨?_, ?_⟩
    · simp [exported, declarations, Declaration.name, digit]
    · rintro ⟨-, spells, -⟩
      have starts : U.startsIdentifier '2' = true := spells.1
      simp [startsIdentifier, U.idStart_ascii '2' (by decide)] at starts

end Unicode

end Cherenkov
