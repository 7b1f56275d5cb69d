import Mathlib.Data.Int.Notation
import Mathlib.Algebra.Ring.Nat
import Cherenkov.Library.Digits

/-! Values, the texts they are read from, and the strings of a compact writer that escapes what has
to be escaped and nothing else. A reader takes a value off the front of a text and leaves the rest;
the fuel of `readValue` bounds the nesting. A schema is a boolean or has keywords, of which
`type`, `items`, `properties` and `required` are read at any depth; all others are left to a
predicate on a schema and a value that may restrict what is accepted in any way. -/

namespace Json

open Digits

/-- A number is its mantissa and the power of ten it is scaled by. -/
inductive Value where
  | null
  | bool (b : Bool)
  | number (mantissa exponent : ℤ)
  | string (text : String)
  | array (items : List Value)
  | object (members : List (String × Value))

def Value.member? (key : String) : Value → Option Value
  | .object members => (members.find? fun member => member.1 = key).map Prod.snd
  | _ => none

def Value.string? : Value → Option String
  | .string text => some text
  | _ => none

def Value.nat? : Value → Option ℕ
  | .number (.ofNat n) 0 => some n
  | _ => none

theorem sizeOf_field {members : List (String × Value)} {field : String × Value}
    (inside : field ∈ members) : sizeOf field.2 < sizeOf (Value.object members) := by
  have smaller := List.sizeOf_lt_of_mem inside
  obtain ⟨key, value⟩ := field
  simp only [Value.object.sizeOf_spec, Prod.mk.sizeOf_spec] at smaller ⊢
  omega

theorem sizeOf_member? {v w : Value} {key : String} (found : v.member? key = some w) :
    sizeOf w < sizeOf v := by
  cases v with
  | object members =>
      obtain ⟨field, there, rfl⟩ := Option.map_eq_some_iff.mp found
      exact sizeOf_field (List.mem_of_find?_eq_some there)
  | _ => cases found

def shorthand? : Char → Option Char
  | '"' => some '"'
  | '\\' => some '\\'
  | '\x08' => some 'b'
  | '\t' => some 't'
  | '\n' => some 'n'
  | '\x0c' => some 'f'
  | '\r' => some 'r'
  | _ => none

def escape (c : Char) : List Char :=
  match shorthand? c with
  | some letter => ['\\', letter]
  | none =>
      if c.toNat < 32 then
        ['\\', 'u', '0', '0', Nat.digitChar (c.toNat / 16), Nat.digitChar (c.toNat % 16)]
      else [c]

def quoteChars (chars : List Char) : List Char := '"' :: (chars.flatMap escape ++ ['"'])

def quote (text : String) : String := String.ofList (quoteChars text.toList)

def isSpace (c : Char) : Bool := c = ' ' || c = '\t' || c = '\n' || c = '\r'

def skipSpace (text : List Char) : List Char := text.dropWhile isSpace

def readHex : List Char → Option (ℕ × List Char)
  | a :: b :: c :: d :: rest => do
      let p ← digit? 16 a.toNat
      let q ← digit? 16 b.toNat
      let r ← digit? 16 c.toNat
      let s ← digit? 16 d.toNat
      some (((p * 16 + q) * 16 + r) * 16 + s, rest)
  | _ => none

/-- The code point of an escape; a high surrogate needs a low one after it. -/
def readCodePoint (text : List Char) : Option (Char × List Char) :=
  match readHex text with
  | none => none
  | some (code, rest) =>
      if 0xD800 ≤ code ∧ code < 0xDC00 then
        match rest with
        | '\\' :: 'u' :: after =>
            match readHex after with
            | none => none
            | some (low, rest) =>
                if 0xDC00 ≤ low ∧ low < 0xE000 then
                  some (Char.ofNat (0x10000 + (code - 0xD800) * 0x400 + (low - 0xDC00)), rest)
                else none
        | _ => none
      else if 0xDC00 ≤ code ∧ code < 0xE000 then none
      else some (Char.ofNat code, rest)

def readEscape : List Char → Option (Char × List Char)
  | '"' :: rest => some ('"', rest)
  | '\\' :: rest => some ('\\', rest)
  | '/' :: rest => some ('/', rest)
  | 'b' :: rest => some ('\x08', rest)
  | 'f' :: rest => some ('\x0c', rest)
  | 'n' :: rest => some ('\n', rest)
  | 'r' :: rest => some ('\r', rest)
  | 't' :: rest => some ('\t', rest)
  | 'u' :: rest => readCodePoint rest
  | _ => none

/-- The next character of a string, none at the closing quote. -/
def readChar : List Char → Option (Option Char × List Char)
  | [] => none
  | c :: rest =>
      if c = '"' then some (none, rest)
      else if c = '\\' then (readEscape rest).map fun read => (some read.1, read.2)
      else if c.toNat < 32 then none
      else some (some c, rest)

def readText : ℕ → List Char → Option (List Char × List Char)
  | 0, _ => none
  | fuel + 1, text =>
      match readChar text with
      | none => none
      | some (none, rest) => some ([], rest)
      | some (some c, rest) => (readText fuel rest).map fun read => (c :: read.1, read.2)

def readString (text : List Char) : Option (String × List Char) :=
  match text with
  | '"' :: rest => (readText rest.length rest).map fun read => (String.ofList read.1, read.2)
  | _ => none

/-- The digits in front, of which there has to be one. -/
def readDigits (text : List Char) : Option (List Char × List Char) :=
  match text.takeWhile Char.isDigit with
  | [] => none
  | digits => some (digits, text.dropWhile Char.isDigit)

def readFraction : List Char → Option (List Char × List Char)
  | '.' :: rest => readDigits rest
  | rest => some ([], rest)

def readSigned : List Char → Option (ℤ × List Char)
  | '-' :: rest =>
      (readDigits rest).map fun read => (-(Nat.ofDigitChars 10 read.1 0 : ℤ), read.2)
  | '+' :: rest =>
      (readDigits rest).map fun read => ((Nat.ofDigitChars 10 read.1 0 : ℤ), read.2)
  | rest => (readDigits rest).map fun read => ((Nat.ofDigitChars 10 read.1 0 : ℤ), read.2)

def readExponent : List Char → Option (ℤ × List Char)
  | [] => some (0, [])
  | c :: rest => if c = 'e' ∨ c = 'E' then readSigned rest else some (0, c :: rest)

/-- A number without its sign; its integer part has no leading zero. -/
def readUnsigned (text : List Char) : Option ((ℤ × ℤ) × List Char) := do
  let (integer, rest) ← readDigits text
  if 1 < integer.length ∧ integer.head? = some '0' then none
  else
    let (fraction, rest) ← readFraction rest
    let (exponent, rest) ← readExponent rest
    some (((Nat.ofDigitChars 10 (integer ++ fraction) 0 : ℤ), exponent - fraction.length), rest)

def readNumber : List Char → Option (Value × List Char)
  | [] => none
  | c :: rest =>
      if c = '-' then (readUnsigned rest).map fun read => (.number (-read.1.1) read.1.2, read.2)
      else (readUnsigned (c :: rest)).map fun read => (.number read.1.1 read.1.2, read.2)

def readLiteral : List Char → Option (Value × List Char)
  | 'n' :: 'u' :: 'l' :: 'l' :: rest => some (.null, rest)
  | 't' :: 'r' :: 'u' :: 'e' :: rest => some (.bool true, rest)
  | 'f' :: 'a' :: 'l' :: 's' :: 'e' :: rest => some (.bool false, rest)
  | _ => none

section

variable {α : Type}

/-- Items between commas, up to the closing character. -/
def readItems (item : List Char → Option (α × List Char)) (close : Char) :
    ℕ → List Char → Option (List α × List Char)
  | 0, _ => none
  | fuel + 1, text =>
      match item text with
      | none => none
      | some (first, rest) =>
          match skipSpace rest with
          | [] => none
          | c :: rest =>
              if c = close then some ([first], rest)
              else if c = ',' then
                (readItems item close fuel rest).map fun read => (first :: read.1, read.2)
              else none

def readSequence (item : List Char → Option (α × List Char)) (close : Char) (text : List Char) :
    Option (List α × List Char) :=
  match skipSpace text with
  | [] => none
  | c :: rest =>
      if c = close then some ([], rest) else readItems item close (rest.length + 1) (c :: rest)

end

def readMember (value : List Char → Option (Value × List Char)) (text : List Char) :
    Option ((String × Value) × List Char) :=
  match readString (skipSpace text) with
  | none => none
  | some (key, rest) =>
      match skipSpace rest with
      | ':' :: rest => (value rest).map fun read => ((key, read.1), read.2)
      | _ => none

def readValue : ℕ → List Char → Option (Value × List Char)
  | 0, _ => none
  | fuel + 1, text =>
      match skipSpace text with
      | [] => none
      | c :: rest =>
          if c = '"' then (readString (c :: rest)).map fun read => (.string read.1, read.2)
          else if c = '[' then
            (readSequence (readValue fuel) ']' rest).map fun read => (.array read.1, read.2)
          else if c = '\x7b' then
            (readSequence (readMember (readValue fuel)) '\x7d' rest).map fun read =>
              (.object read.1, read.2)
          else if c = '-' ∨ c.isDigit then readNumber (c :: rest)
          else readLiteral (c :: rest)

/-- A text is one value and space around it. -/
def parse (text : String) : Option Value :=
  match readValue (text.toList.length + 1) text.toList with
  | some (value, rest) => if skipSpace rest = [] then some value else none
  | none => none

theorem digit?_digitChar {d : ℕ} (small : d < 16) : digit? 16 (Nat.digitChar d).toNat = some d := by
  have all : ∀ d < 16, digit? 16 (Nat.digitChar d).toNat = some d := by
    decide
  exact all d small

theorem readCodePoint_control {n : ℕ} (small : n < 32) (rest : List Char) :
    readCodePoint ('0' :: '0' :: Nat.digitChar (n / 16) :: Nat.digitChar (n % 16) :: rest) =
      some (Char.ofNat n, rest) := by
  have zero : digit? 16 '0'.toNat = some 0 := rfl
  have hex : readHex ('0' :: '0' :: Nat.digitChar (n / 16) :: Nat.digitChar (n % 16) :: rest) =
      some (n, rest) := by
    rw [readHex, zero, digit?_digitChar (by omega), digit?_digitChar (by omega)]
    dsimp only [Option.bind_eq_bind, Option.bind_some]
    rw [Nat.zero_mul, Nat.zero_add, Nat.div_add_mod']
  rw [readCodePoint, hex]
  dsimp only
  rw [if_neg (by omega), if_neg (by omega)]

theorem readEscape_shorthand {c letter : Char} (short : shorthand? c = some letter)
    (rest : List Char) : readEscape (letter :: rest) = some (c, rest) := by
  unfold shorthand? at short
  split at short
  all_goals cases short
  all_goals rfl

theorem readChar_escape (c : Char) (rest : List Char) :
    readChar (escape c ++ rest) = some (some c, rest) := by
  unfold escape
  split
  · rename_i letter short
    change (readEscape (letter :: rest)).map _ = _
    rw [readEscape_shorthand short]
    rfl
  · rename_i none_
    split
    · rename_i control
      have point := readCodePoint_control control rest
      rw [Char.ofNat_toNat] at point
      change (readCodePoint (_ :: _ :: _ :: _ :: rest)).map _ = _
      rw [point]
      rfl
    · rename_i plain
      have noQuote : c ≠ '"' := by
        intro same
        subst same
        cases none_
      have noBackslash : c ≠ '\\' := by
        intro same
        subst same
        cases none_
      rw [List.cons_append, List.nil_append, readChar, if_neg noQuote, if_neg noBackslash,
        if_neg plain]

theorem readText_escape (chars rest : List Char) {fuel : ℕ} (enough : chars.length < fuel) :
    readText fuel (chars.flatMap escape ++ '"' :: rest) = some (chars, rest) := by
  induction chars generalizing fuel with
  | nil =>
      cases fuel with
      | zero => cases enough
      | succ fuel => rfl
  | cons c chars ih =>
      cases fuel with
      | zero => cases enough
      | succ fuel =>
          rw [List.flatMap_cons, List.append_assoc, readText, readChar_escape]
          dsimp only
          rw [ih (Nat.lt_of_succ_lt_succ enough)]
          rfl

theorem escape_ne_nil (c : Char) : escape c ≠ [] := by
  unfold escape
  split
  · exact List.cons_ne_nil _ _
  · split
    all_goals exact List.cons_ne_nil _ _

theorem length_le_escape (chars : List Char) : chars.length ≤ (chars.flatMap escape).length := by
  induction chars with
  | nil => exact Nat.le_refl 0
  | cons c chars ih =>
      have one := List.length_pos_iff.mpr (escape_ne_nil c)
      rw [List.flatMap_cons, List.length_append, List.length_cons]
      omega

theorem readString_quote (chars rest : List Char) :
    readString (quoteChars chars ++ rest) = some (String.ofList chars, rest) := by
  have text : quoteChars chars ++ rest = '"' :: (chars.flatMap escape ++ '"' :: rest) := by
    rw [quoteChars, List.cons_append, List.append_assoc, List.cons_append, List.nil_append]
  have enough : chars.length < (chars.flatMap escape ++ '"' :: rest).length := by
    have short := length_le_escape chars
    rw [List.length_append, List.length_cons]
    omega
  rw [text, readString, readText_escape chars rest enough]
  rfl

/-- What may come after a number: nothing that would go on with it. -/
def Follows (rest : List Char) : Prop :=
  ∀ c ∈ rest.head?, c.isDigit = false ∧ c ≠ '.' ∧ c ≠ 'e' ∧ c ≠ 'E'

theorem readDigits_append {digits rest : List Char} (nonempty : digits ≠ [])
    (all : ∀ c ∈ digits, c.isDigit) (follows : Follows rest) :
    readDigits (digits ++ rest) = some (digits, rest) := by
  have stops : rest.takeWhile Char.isDigit = [] ∧ rest.dropWhile Char.isDigit = rest := by
    cases rest with
    | nil => exact ⟨rfl, rfl⟩
    | cons c rest =>
        have other := (follows c rfl).1
        exact ⟨List.takeWhile_cons_of_neg (by simp [other]),
          List.dropWhile_cons_of_neg (by simp [other])⟩
  rw [readDigits, List.takeWhile_append_of_pos all, List.dropWhile_append_of_pos all, stops.1,
    stops.2, List.append_nil]
  cases digits with
  | nil => exact absurd rfl nonempty
  | cons c digits => rfl

theorem isDigit_of_mem {n : ℕ} {c : Char} (member : c ∈ Nat.toDigits 10 n) : c.isDigit :=
  Nat.isDigit_of_mem_toDigits (by decide) (Nat.le_refl 10) member

theorem toDigits_head {n : ℕ} (positive : 0 < n) : (Nat.toDigits 10 n).head? ≠ some '0' := by
  induction n using Nat.strongRecOn with
  | ind n ih =>
      by_cases small : n < 10
      · rw [Nat.toDigits_of_lt_base small]
        intro zero
        have value := Nat.digitChar_eq_zero.mp (Option.some.inj zero)
        omega
      · have shorter := ih (n / 10) (by omega) (by omega)
        rw [Nat.toDigits_of_base_le (by decide) (by omega)]
        cases shape : Nat.toDigits 10 (n / 10) with
        | nil => exact absurd shape Nat.toDigits_ne_nil
        | cons c tail =>
            rw [shape] at shorter
            exact shorter

theorem readUnsigned_nat (n : ℕ) {rest : List Char} (follows : Follows rest) :
    readUnsigned (Nat.toDigits 10 n ++ rest) = some (((n : ℤ), 0), rest) := by
  have digits : readDigits (Nat.toDigits 10 n ++ rest) = _ :=
    readDigits_append Nat.toDigits_ne_nil (fun _ member => isDigit_of_mem member) follows
  have noZero : ¬(1 < (Nat.toDigits 10 n).length ∧ (Nat.toDigits 10 n).head? = some '0') := by
    rintro ⟨long, zero⟩
    apply toDigits_head _ zero
    apply Nat.pos_of_ne_zero
    intro none_
    subst none_
    exact absurd long (by decide)
  have fraction : readFraction rest = some ([], rest) := by
    cases rest with
    | nil => rfl
    | cons c rest =>
        rw [readFraction]
        intro after same
        cases same
        exact (follows _ rfl).2.1 rfl
  have exponent : readExponent rest = some (0, rest) := by
    cases rest with
    | nil => rfl
    | cons c rest =>
        obtain ⟨-, -, lower, upper⟩ := follows c rfl
        rw [readExponent, if_neg (not_or.mpr ⟨lower, upper⟩)]
  rw [readUnsigned, digits]
  dsimp only [Option.bind_eq_bind, Option.bind_some]
  rw [if_neg noZero, fraction, Option.bind_some]
  dsimp only
  rw [exponent, Option.bind_some, List.append_nil, Nat.ofDigitChars_ten_toDigits]
  rfl

theorem skipSpace_cons {c : Char} (visible : isSpace c = false) (rest : List Char) :
    skipSpace (c :: rest) = c :: rest :=
  List.dropWhile_cons_of_neg (by simp [visible])

theorem readValue_string (fuel : ℕ) (chars rest : List Char) :
    readValue (fuel + 1) (quoteChars chars ++ rest) = some (.string (String.ofList chars), rest) := by
  have read := readString_quote chars rest
  rw [quoteChars, List.cons_append] at read ⊢
  rw [readValue, skipSpace_cons (by decide)]
  dsimp only
  rw [if_pos rfl, read]
  rfl

theorem digit_ne {c d : Char} (digit : c.isDigit) (other : d.isDigit = false) : c ≠ d := by
  intro same
  rw [same, other] at digit
  cases digit

theorem readValue_nat (fuel n : ℕ) {rest : List Char} (follows : Follows rest) :
    readValue (fuel + 1) (Nat.toDigits 10 n ++ rest) = some (.number n 0, rest) := by
  have read := readUnsigned_nat n follows
  have digits : ∀ c ∈ Nat.toDigits 10 n, c.isDigit := fun _ member => isDigit_of_mem member
  cases shape : Nat.toDigits 10 n with
  | nil => exact absurd shape Nat.toDigits_ne_nil
  | cons c tail =>
      rw [shape] at read digits
      have digit := digits c List.mem_cons_self
      have visible : isSpace c = false := by
        simp [isSpace, digit_ne digit]
      rw [List.cons_append] at read ⊢
      rw [readValue, skipSpace_cons visible]
      dsimp only
      rw [if_neg (digit_ne digit rfl), if_neg (digit_ne digit rfl), if_neg (digit_ne digit rfl),
        if_pos (Or.inr digit), readNumber, if_neg (digit_ne digit rfl), read]
      rfl

/-- What the writer puts into an object: strings and natural numbers. -/
inductive Scalar where
  | string (text : String)
  | nat (n : ℕ)

def Scalar.value : Scalar → Value
  | .string text => .string text
  | .nat n => .number n 0

def Scalar.chars : Scalar → List Char
  | .string text => quoteChars text.toList
  | .nat n => Nat.toDigits 10 n

def memberChars (member : String × Scalar) : List Char :=
  quoteChars member.1.toList ++ ':' :: member.2.chars

def objectChars : List (String × Scalar) → List Char
  | [] => ['\x7b', '\x7d']
  | first :: rest =>
      '\x7b' :: (memberChars first ++ (rest.flatMap fun member => ',' :: memberChars member) ++
        ['\x7d'])

def members (fields : List (String × Scalar)) : List (String × Value) :=
  fields.map fun field => (field.1, field.2.value)

theorem readValue_scalar (fuel : ℕ) (scalar : Scalar) {rest : List Char} (follows : Follows rest) :
    readValue (fuel + 1) (scalar.chars ++ rest) = some (scalar.value, rest) := by
  cases scalar with
  | string text =>
      have read := readValue_string fuel text.toList rest
      rwa [String.ofList_toList] at read
  | nat n => exact readValue_nat fuel n follows

theorem readMember_chars (fuel : ℕ) (member : String × Scalar) {rest : List Char}
    (follows : Follows rest) :
    readMember (readValue (fuel + 1)) (memberChars member ++ rest) =
      some ((member.1, member.2.value), rest) := by
  have key := readString_quote member.1.toList (':' :: (member.2.chars ++ rest))
  have value := readValue_scalar fuel member.2 follows
  have visible : skipSpace (memberChars member ++ rest) = memberChars member ++ rest :=
    skipSpace_cons (by decide) _
  rw [readMember, visible, memberChars, List.append_assoc, List.cons_append, key]
  dsimp only
  rw [skipSpace_cons (by decide), String.ofList_toList]
  change (readValue (fuel + 1) (member.2.chars ++ rest)).map _ = _
  rw [value]
  rfl

theorem follows_comma (rest : List Char) : Follows (',' :: rest) := by
  intro c same
  cases same
  decide

theorem follows_brace (rest : List Char) : Follows ('\x7d' :: rest) := by
  intro c same
  cases same
  decide

theorem readItems_members (depth : ℕ) (first : String × Scalar) (tail : List (String × Scalar))
    (after : List Char) {fuel : ℕ} (enough : tail.length < fuel) :
    readItems (readMember (readValue (depth + 1))) '\x7d' fuel
      (memberChars first ++ (tail.flatMap fun member => ',' :: memberChars member) ++
        '\x7d' :: after) = some (members (first :: tail), after) := by
  induction tail generalizing first fuel with
  | nil =>
      cases fuel with
      | zero => cases enough
      | succ fuel =>
          rw [List.flatMap_nil, List.append_nil, readItems,
            readMember_chars depth first (follows_brace after)]
          dsimp only
          rw [skipSpace_cons (by decide)]
          rfl
  | cons second tail ih =>
      cases fuel with
      | zero => cases enough
      | succ fuel =>
          have more := ih second (Nat.lt_of_succ_lt_succ enough)
          rw [List.flatMap_cons, List.cons_append, List.append_assoc, List.cons_append, readItems,
            readMember_chars depth first (follows_comma _)]
          dsimp only
          rw [skipSpace_cons (by decide)]
          dsimp only
          rw [if_neg (by decide), if_pos rfl, more]
          rfl

theorem length_le_members (tail : List (String × Scalar)) :
    tail.length ≤ (tail.flatMap fun member => ',' :: memberChars member).length := by
  induction tail with
  | nil => exact Nat.le_refl 0
  | cons second tail ih =>
      rw [List.flatMap_cons, List.length_append, List.length_cons, List.length_cons]
      omega

theorem readSequence_members (depth : ℕ) (first : String × Scalar) (tail : List (String × Scalar))
    (after : List Char) :
    readSequence (readMember (readValue (depth + 1))) '\x7d'
      (memberChars first ++ (tail.flatMap fun member => ',' :: memberChars member) ++
        '\x7d' :: after) = some (members (first :: tail), after) := by
  have short := length_le_members tail
  have items := @readItems_members depth first tail after
  obtain ⟨inside, shape⟩ : ∃ inside, memberChars first = '"' :: inside := ⟨_, rfl⟩
  rw [shape] at items ⊢
  rw [readSequence, List.cons_append, List.cons_append, skipSpace_cons (by decide)]
  dsimp only
  rw [if_neg (by decide)]
  apply items
  rw [List.length_append, List.length_append]
  omega

theorem readValue_object (fuel : ℕ) (fields : List (String × Scalar)) (rest : List Char) :
    readValue (fuel + 2) (objectChars fields ++ rest) = some (.object (members fields), rest) := by
  cases fields with
  | nil => rfl
  | cons first tail =>
      have read := readSequence_members fuel first tail rest
      have text : objectChars (first :: tail) ++ rest =
          '\x7b' :: (memberChars first ++ (tail.flatMap fun member => ',' :: memberChars member) ++
            '\x7d' :: rest) := by
        rw [objectChars, List.cons_append, List.append_assoc _ ['\x7d'], List.cons_append,
          List.nil_append]
      rw [text, readValue, skipSpace_cons (by decide)]
      dsimp only
      rw [if_neg (by decide), if_neg (by decide), if_pos rfl, read]
      rfl

theorem parse_object (fields : List (String × Scalar)) :
    parse (String.ofList (objectChars fields)) = some (.object (members fields)) := by
  have long : 1 ≤ (objectChars fields).length := by
    cases fields <;> exact Nat.succ_le_succ (Nat.zero_le _)
  obtain ⟨fuel, enough⟩ := Nat.exists_eq_add_of_le long
  have read := readValue_object fuel fields []
  rw [List.append_nil] at read
  rw [parse, String.toList_ofList, enough, Nat.add_comm 1 fuel, read]
  rfl

/-- No character is a control character, so the text is one line. -/
def Printable (text : List Char) : Prop := ∀ c ∈ text, 32 ≤ c.toNat

theorem shorthand?_printable {c letter : Char} (short : shorthand? c = some letter) :
    32 ≤ letter.toNat := by
  unfold shorthand? at short
  split at short
  all_goals cases short
  all_goals decide

theorem digitChar_printable {d : ℕ} (small : d < 16) : 32 ≤ (Nat.digitChar d).toNat := by
  have all : ∀ d < 16, 32 ≤ (Nat.digitChar d).toNat := by
    decide
  exact all d small

theorem Printable.cons {c : Char} {text : List Char} (first : 32 ≤ c.toNat)
    (rest : Printable text) : Printable (c :: text) :=
  List.forall_mem_cons.mpr ⟨first, rest⟩

theorem Printable.append {front back : List Char} (first : Printable front)
    (second : Printable back) : Printable (front ++ back) :=
  List.forall_mem_append.mpr ⟨first, second⟩

theorem Printable.flatMap {α : Type} {items : List α} {f : α → List Char}
    (each : ∀ item, Printable (f item)) : Printable (items.flatMap f) := by
  intro c member
  obtain ⟨item, -, part⟩ := List.mem_flatMap.mp member
  exact each item c part

theorem printable_nil : Printable [] := fun _ absent => absurd absent List.not_mem_nil

theorem escape_printable (c : Char) : Printable (escape c) := by
  unfold escape
  split
  · rename_i letter short
    exact .cons (by decide) (.cons (shorthand?_printable short) printable_nil)
  · split
    · rename_i control
      have high := digitChar_printable (d := c.toNat / 16) (by omega)
      have low := digitChar_printable (d := c.toNat % 16) (by omega)
      exact .cons (by decide) (.cons (by decide) (.cons (by decide) (.cons (by decide)
        (.cons high (.cons low printable_nil)))))
    · rename_i plain
      exact .cons (Nat.le_of_not_lt plain) printable_nil

theorem quoteChars_printable (chars : List Char) : Printable (quoteChars chars) :=
  .cons (by decide) (.append (.flatMap escape_printable) (.cons (by decide) printable_nil))

theorem Scalar.chars_printable (scalar : Scalar) : Printable scalar.chars := by
  cases scalar with
  | string text => exact quoteChars_printable text.toList
  | nat n =>
      intro c member
      have digit := isDigit_of_mem member
      have first : '0'.val ≤ c.val := of_decide_eq_true (Bool.and_eq_true_iff.mp digit).1
      exact Nat.le_trans (by decide) (UInt32.le_iff_toNat_le.mp first)

theorem memberChars_printable (member : String × Scalar) : Printable (memberChars member) :=
  .append (quoteChars_printable _) (.cons (by decide) member.2.chars_printable)

theorem objectChars_printable (fields : List (String × Scalar)) :
    Printable (objectChars fields) := by
  cases fields with
  | nil => exact .cons (by decide) (.cons (by decide) printable_nil)
  | cons first rest =>
      have tail : Printable (rest.flatMap fun member => ',' :: memberChars member) :=
        .flatMap fun member => .cons (by decide) (memberChars_printable member)
      exact .cons (by decide) (.append (.append (memberChars_printable first) tail)
        (.cons (by decide) printable_nil))

end Json

namespace SchemaVocabulary

open Json

/-- The number has no fractional part. -/
def Integral (mantissa exponent : ℤ) : Prop :=
  0 ≤ exponent ∨ mantissa.natAbs % 10 ^ exponent.natAbs = 0

def HasType (name : String) : Value → Prop
  | .null => name = "null"
  | .bool _ => name = "boolean"
  | .number mantissa exponent =>
      name = "number" ∨ (name = "integer" ∧ Integral mantissa exponent)
  | .string _ => name = "string"
  | .array _ => name = "array"
  | .object _ => name = "object"

/-- The keyword `type` is one name or a list of names. -/
def Typed (v : Value) : Value → Prop
  | .string name => HasType name v
  | .array names => ∃ name, .string name ∈ names ∧ HasType name v
  | _ => False

inductive Accepts (further : Value → Value → Prop) : Value → Value → Prop
  | always (v : Value) : Accepts further (.bool true) v
  | keywords {members : List (String × Value)} {v : Value}
      (type : ∀ t, (Value.object members).member? "type" = some t → Typed v t)
      (items : ∀ schema, (Value.object members).member? "items" = some schema →
        ∀ ws, v = .array ws → ∀ w ∈ ws, Accepts further schema w)
      (properties : ∀ props, (Value.object members).member? "properties" = some (.object props) →
        ∀ p ∈ props, ∀ w, v.member? p.1 = some w → Accepts further p.2 w)
      (required : ∀ names, (Value.object members).member? "required" = some (.array names) →
        ∀ name, .string name ∈ names → (∃ fields, v = .object fields) →
          (v.member? name).isSome)
      (others : further (.object members) v) : Accepts further (.object members) v

def bare : Value → Value → Prop := fun _ _ => True

theorem Accepts.typed {further : Value → Value → Prop} {schema v : Value}
    (accepts : Accepts further schema v) {name : String}
    (type : (schema.member? "type").bind Value.string? = some name) : HasType name v := by
  cases accepts with
  | always => cases type
  | keywords typed =>
      obtain ⟨t, found, text⟩ := Option.bind_eq_some_iff.mp type
      cases t with
      | string text' =>
          cases text
          exact typed _ found
      | _ => cases text

end SchemaVocabulary
