import Mathlib.Data.List.Basic
import Cherenkov.Library.Json

/-! The types that a JSON value can be held against, how they are written, and which values they
admit. An object type says which members it knows and which of them must be there; members it does
not know are allowed. A text denotes a type if the type is written so and its member names are read
as they stand. -/

namespace TypeScript

open Json

/-- The types without parts; `record` is `Record<string, unknown>`. -/
inductive Basic where
  | string
  | number
  | boolean
  | unknown
  | record

mutual

inductive Ty where
  | basic (b : Basic)
  | array (item : Ty)
  | object (members : Members)

inductive Members where
  | nil
  | cons (name : String) (optional : Bool) (type : Ty) (rest : Members)

end

def Members.ofList : List (String × Bool × Ty) → Members
  | [] => .nil
  | (name, optional, type) :: rest => .cons name optional type (ofList rest)

def Basic.Inhabits : Basic → Value → Prop
  | .string, v => ∃ text, v = .string text
  | .number, v => ∃ mantissa exponent, v = .number mantissa exponent
  | .boolean, v => ∃ b, v = .bool b
  | .unknown, _ => True
  | .record, v => ∃ fields, v = .object fields

mutual

def Ty.Inhabits : Ty → Value → Prop
  | .basic b, v => b.Inhabits v
  | .array item, v => ∃ items, v = .array items ∧ ∀ w ∈ items, item.Inhabits w
  | .object members, v => (∃ fields, v = .object fields) ∧ members.Inhabits v

def Members.Inhabits : Members → Value → Prop
  | .nil, _ => True
  | .cons name optional type rest, v =>
      (∀ w, v.member? name = some w → type.Inhabits w) ∧
        (optional = false → (v.member? name).isSome) ∧ rest.Inhabits v

end

def Basic.chars : Basic → List Char
  | .string => ['s', 't', 'r', 'i', 'n', 'g']
  | .number => ['n', 'u', 'm', 'b', 'e', 'r']
  | .boolean => ['b', 'o', 'o', 'l', 'e', 'a', 'n']
  | .unknown => ['u', 'n', 'k', 'n', 'o', 'w', 'n']
  | .record => ['R', 'e', 'c', 'o', 'r', 'd', '<', 's', 't', 'r', 'i', 'n', 'g', ',', ' ',
      'u', 'n', 'k', 'n', 'o', 'w', 'n', '>']

def mark (optional : Bool) : List Char := if optional then ['?'] else []

def label (name : String) (optional : Bool) : List Char :=
  name.toList ++ (mark optional ++ [':', ' '])

mutual

def Ty.chars : Ty → List Char
  | .basic b => b.chars
  | .array item => item.chars ++ ['[', ']']
  | .object members => '\x7b' :: ' ' :: (members.chars ++ [' ', '\x7d'])

def Members.chars : Members → List Char
  | .nil => []
  | .cons name optional type rest => label name optional ++ (type.chars ++ rest.more)

def Members.more : Members → List Char
  | .nil => []
  | .cons name optional type rest =>
      ';' :: ' ' :: (label name optional ++ (type.chars ++ rest.more))

end

def entry (member : String × Bool × Ty) : List Char :=
  label member.1 member.2.1 ++ member.2.2.chars

theorem more_chars (first : String × Bool × Ty) (members : List (String × Bool × Ty)) :
    entry first ++ (Members.ofList members).more =
      [';', ' '].intercalate ((first :: members).map entry) := by
  induction members generalizing first with
  | nil => simp [Members.ofList, Members.more]
  | cons second members ih =>
      rw [List.map_cons, List.map_cons, List.intercalate_cons_cons, ← List.map_cons, ← ih second]
      simp [Members.ofList, Members.more, entry]

theorem ofList_chars (members : List (String × Bool × Ty)) :
    (Members.ofList members).chars = [';', ' '].intercalate (members.map entry) := by
  cases members with
  | nil => rfl
  | cons first members =>
      rw [← more_chars first members, Members.ofList, Members.chars, entry, List.append_assoc]

mutual

/-- All member names, at any depth, satisfy the predicate. -/
def Ty.Named (p : String → Prop) : Ty → Prop
  | .basic _ => True
  | .array item => item.Named p
  | .object members => members.Named p

def Members.Named (p : String → Prop) : Members → Prop
  | .nil => True
  | .cons name _ type rest => p name ∧ type.Named p ∧ rest.Named p

end

theorem ofList_inhabits {members : List (String × Bool × Ty)} {v : Value} :
    (Members.ofList members).Inhabits v ↔ ∀ m ∈ members,
      (∀ w, v.member? m.1 = some w → m.2.2.Inhabits w) ∧
        (m.2.1 = false → (v.member? m.1).isSome) := by
  induction members with
  | nil => simp [Members.ofList, Members.Inhabits]
  | cons first members ih =>
      simp only [Members.ofList, Members.Inhabits, ih, List.forall_mem_cons, and_assoc]

mutual

theorem Ty.named_mono {p q : String → Prop} (weaker : ∀ name, p name → q name) :
    ∀ type : Ty, type.Named p → type.Named q
  | .basic _, _ => trivial
  | .array item, named => item.named_mono weaker named
  | .object members, named => members.named_mono weaker named

theorem Members.named_mono {p q : String → Prop} (weaker : ∀ name, p name → q name) :
    ∀ members : Members, members.Named p → members.Named q
  | .nil, _ => trivial
  | .cons name _ type rest, named =>
      ⟨weaker name named.1, type.named_mono weaker named.2.1, rest.named_mono weaker named.2.2⟩

end

/-- The texts that TypeScript reads as a property name spelled just so: identifiers, and numbers
in the form they are printed in. -/
structure PropertyNames where
  reads : String → Prop
  nonempty : ∀ name, reads name → name.toList ≠ []
  plain : ∀ name, reads name → ∀ c ∈ name.toList, c ≠ '?' ∧ c ≠ ':' ∧ c ≠ ' '

def PropertyNames.Denotes (N : PropertyNames) (text : String) (type : Ty) : Prop :=
  type.Named N.reads ∧ type.chars = text.toList

theorem basic_ne_brace (b : Basic) (rest text : List Char) : b.chars ++ rest ≠ '\x7b' :: text := by
  cases b <;> simp [Basic.chars]

section Names

variable {N : PropertyNames}

theorem takeWhile_label {name : String} (reads : N.reads name) (optional : Bool)
    (rest : List Char) :
    (label name optional ++ rest).takeWhile (fun c => c ≠ '?' ∧ c ≠ ':') = name.toList := by
  have plain : ∀ c ∈ name.toList, decide (c ≠ '?' ∧ c ≠ ':') = true := by
    intro c member
    obtain ⟨question, colon, -⟩ := N.plain name reads c member
    exact decide_eq_true ⟨question, colon⟩
  rw [label, List.append_assoc, List.takeWhile_append_of_pos plain]
  cases optional <;> simp [mark]

theorem Members.last : ∀ (name : String) (optional : Bool) (type : Ty) (rest : Members),
    ∃ (front : List Char) (name' : String) (optional' : Bool) (type' : Ty),
      (Members.cons name optional type rest).chars =
        front ++ (label name' optional' ++ type'.chars) ∧
      ((Members.cons name optional type rest).Named N.reads → N.reads name') ∧
      ∀ v, (Members.cons name optional type rest).Inhabits v →
        ∀ w, v.member? name' = some w → type'.Inhabits w
  | name, optional, type, .nil =>
      ⟨[], name, optional, type, by simp [Members.chars, Members.more], fun named => named.1,
        fun _ inhabits => inhabits.1⟩
  | name, optional, type, .cons name₂ optional₂ type₂ rest => by
      obtain ⟨front, name', optional', type', chars, named, inhabits⟩ :=
        Members.last name₂ optional₂ type₂ rest
      refine ⟨label name optional ++ (type.chars ++ ';' :: ' ' :: front), name', optional', type',
        ?_, fun all => named all.2.2, fun v all => inhabits v all.2.2⟩
      rw [Members.chars, Members.more, ← Members.chars, chars]
      simp

theorem chars_ne_nil (type : Ty) : type.chars ≠ [] := by
  cases type with
  | basic b => cases b <;> exact nofun
  | array item => simp [Ty.chars]
  | object members => simp [Ty.chars]

theorem string_of_ends {type : Ty} {front rest : List Char}
    (same : front ++ type.chars = rest ++ Basic.string.chars) : type = .basic .string := by
  have nonempty : Basic.string.chars ≠ [] := nofun
  have last := congrArg List.getLast? same
  rw [List.getLast?_append_of_ne_nil _ (chars_ne_nil type),
    List.getLast?_append_of_ne_nil _ nonempty] at last
  cases type with
  | basic b => cases b <;> simp_all [Ty.chars, Basic.chars]
  | array item => simp [Ty.chars, Basic.chars] at last
  | object members => simp [Ty.chars, Basic.chars, List.getLast?_cons] at last

/-- What an object type with one optional string member can be read as. -/
theorem PropertyNames.Denotes.members {name : String} {type : Ty}
    (denotes : N.Denotes ("\x7b " ++ name ++ "?: string \x7d") type) :
    ∃ first optional inner rest, type = .object (.cons first optional inner rest) ∧
      (Members.cons first optional inner rest).Named N.reads ∧
      (Members.cons first optional inner rest).chars =
        name.toList ++ '?' :: ':' :: ' ' :: Basic.string.chars := by
  obtain ⟨named, chars⟩ := denotes
  have written : type.chars = '\x7b' :: ' ' ::
      ((name.toList ++ '?' :: ':' :: ' ' :: Basic.string.chars) ++ [' ', '\x7d']) := by
    rw [chars]
    simp [Basic.chars]
  cases type with
  | basic b => exact absurd ((List.append_nil _).trans written) (basic_ne_brace b [] _)
  | array item =>
      have ends := congrArg List.getLast? written
      simp [Ty.chars, List.getLast?_cons] at ends
  | object members =>
      simp only [Ty.chars, List.cons.injEq, true_and] at written
      have inner := List.append_cancel_right written
      cases members with
      | nil => simp [Members.chars] at inner
      | cons first optional type rest => exact ⟨first, optional, type, rest, rfl, named, inner⟩

theorem PropertyNames.Denotes.restricts {name : String} {type : Ty}
    (denotes : N.Denotes ("\x7b " ++ name ++ "?: string \x7d") type) :
    ∃ name', N.reads name' ∧ ∀ v, type.Inhabits v →
      ∀ w, v.member? name' = some w → Basic.string.Inhabits w := by
  obtain ⟨first, optional, inner, rest, rfl, named, chars⟩ := denotes.members
  obtain ⟨front, name', optional', type', last, reads, inhabits⟩ :=
    Members.last (N := N) first optional inner rest
  have ends : (front ++ label name' optional') ++ type'.chars =
      (name.toList ++ ['?', ':', ' ']) ++ Basic.string.chars := by
    rw [List.append_assoc, ← last, chars, List.append_assoc]
    rfl
  cases string_of_ends ends
  exact ⟨name', reads named, fun v holds => inhabits v holds.2⟩

/-- A name without question mark and colon can only be read as it stands. -/
theorem PropertyNames.undenoted {name : String} (unread : ¬N.reads name)
    (plain : (name.toList.all fun c => decide (c ≠ '?' ∧ c ≠ ':')) = true) (type : Ty) :
    ¬N.Denotes ("\x7b " ++ name ++ "?: string \x7d") type := by
  intro denotes
  obtain ⟨first, optional, inner, rest, rfl, named, chars⟩ := denotes.members
  have front := congrArg (List.takeWhile fun c => c ≠ '?' ∧ c ≠ ':') chars
  rw [Members.chars, takeWhile_label named.1,
    List.takeWhile_append_of_pos (List.all_eq_true.mp plain)] at front
  have same : first = name := by
    apply String.toList_injective
    simpa using front
  exact unread (same ▸ named.1)

end Names

end TypeScript
