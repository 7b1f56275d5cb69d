import Cherenkov.Library.Digits
import Cherenkov.Library.Message

/-! The decoder and the parser of `application/x-www-form-urlencoded`: pairs are separated by `&`,
name and value by the first `=`, a `+` is a space, `%` before two hexadecimal digits is a byte and
any other `%` stands for itself. A text is written by leaving unreserved characters as they are and
escaping bytes. A header value is bytes, and a body is a stream of frames that may break off. -/

namespace FormUrlencoded

open Digits Wire

theorem utf8_of_fromUtf8 {bytes : List UInt8} {text : String}
    (read : fromUtf8 bytes = some text) : utf8 text = bytes := by
  unfold fromUtf8 String.fromUTF8? at read
  split at read
  · cases read
    rfl
  · cases read

theorem utf8_ofList (chars : List Char) :
    utf8 (String.ofList chars) = chars.flatMap String.utf8EncodeChar := by
  unfold utf8
  simp [String.toUTF8, String.ofList, List.utf8Encode, List.data_toByteArray]

theorem utf8_ofList_cons {c : Char} (ascii : c.toNat < 128) (chars : List Char) :
    utf8 (String.ofList (c :: chars)) = UInt8.ofNat c.toNat :: utf8 (String.ofList chars) := by
  have single : String.utf8EncodeChar c = [UInt8.ofNat c.toNat] :=
    if_pos (Nat.le_of_lt_succ ascii)
  rw [utf8_ofList, utf8_ofList, List.flatMap_cons, single]
  rfl

theorem toNat_ofNat_ascii {n : ℕ} (ascii : n < 128) : (UInt8.ofNat n).toNat = n := by
  apply UInt8.toNat_ofNat_of_lt'
  simp only [UInt8.size]
  omega

theorem utf8_append (first second : String) : utf8 (first ++ second) = utf8 first ++ utf8 second := by
  rw [← String.ofList_toList (s := first), ← String.ofList_toList (s := second),
    ← String.ofList_append, utf8_ofList, utf8_ofList, utf8_ofList, List.flatMap_append]

theorem toNat_of_mem_utf8EncodeChar {b : UInt8} {c : Char} (ascii : b.toNat < 128)
    (part : b ∈ String.utf8EncodeChar c) : c.toNat = b.toNat := by
  have large : ∀ n, 128 ≤ n → n < 256 → b ≠ UInt8.ofNat n := by
    intro n low high same
    rw [same, UInt8.toNat_ofNat_of_lt' high] at ascii
    omega
  change b ∈ (if c.val.toNat ≤ 127 then _ else if _ then _ else if _ then _ else _) at part
  split at part
  · rename_i short
    rw [List.mem_singleton.mp part, toNat_ofNat_ascii (by omega)]
    rfl
  · exfalso
    split at part
    · simp only [List.mem_cons, List.not_mem_nil, or_false] at part
      rcases part with same | same
      all_goals exact large _ (by omega) (by omega) same
    · split at part
      · simp only [List.mem_cons, List.not_mem_nil, or_false] at part
        rcases part with same | same | same
        all_goals exact large _ (by omega) (by omega) same
      · simp only [List.mem_cons, List.not_mem_nil, or_false] at part
        rcases part with same | same | same | same
        all_goals exact large _ (by omega) (by omega) same

theorem mem_of_mem_utf8 {c : Char} {text : String} (ascii : c.toNat < 128)
    (found : UInt8.ofNat c.toNat ∈ utf8 text) : c ∈ text.toList := by
  rw [← String.ofList_toList (s := text), utf8_ofList] at found
  obtain ⟨d, member, part⟩ := List.mem_flatMap.mp found
  have code := toNat_ofNat_ascii ascii
  have same := toNat_of_mem_utf8EncodeChar (by rw [code]; exact ascii) part
  rw [code] at same
  rwa [← Char.toNat_inj.mp same]

theorem fromUtf8_ascii_pair {a b : UInt8} (first : a.toNat < 128) (second : b.toNat < 128) :
    (fromUtf8 [a, b]).isSome := by
  have code : ∀ byte : UInt8, byte.toNat < 128 → (Char.ofNat byte.toNat).toNat = byte.toNat := by
    intro byte ascii
    rw [Char.ofNat, dif_pos (Or.inl (by omega))]
    rfl
  have bytes : [a, b] = utf8 (String.ofList [Char.ofNat a.toNat, Char.ofNat b.toNat]) := by
    rw [utf8_ofList_cons (by rw [code a first]; exact first),
      utf8_ofList_cons (by rw [code b second]; exact second), code a first, code b second,
      UInt8.ofNat_toNat, UInt8.ofNat_toNat]
    rfl
  rw [bytes, fromUtf8_utf8]
  rfl

def decode : List UInt8 → List UInt8
  | [] => []
  | 43 :: rest => 32 :: decode rest
  | 37 :: a :: b :: rest =>
      match digit? 16 a.toNat, digit? 16 b.toNat with
      | some hi, some lo => UInt8.ofNat (hi * 16 + lo) :: decode rest
      | _, _ => 37 :: decode (a :: b :: rest)
  | other :: rest => other :: decode rest

theorem decode_plain {b : UInt8} (noPlus : b ≠ 43) (noPercent : b ≠ 37) (rest : List UInt8) :
    decode (b :: rest) = b :: decode rest := by
  rw [decode]
  · exact noPlus
  · intro a c after percent
    exact absurd percent noPercent

theorem decode_escape {a b : UInt8} {hi lo : ℕ} (high : digit? 16 a.toNat = some hi)
    (low : digit? 16 b.toNat = some lo) (rest : List UInt8) :
    decode (37 :: a :: b :: rest) = UInt8.ofNat (hi * 16 + lo) :: decode rest := by
  rw [decode, high, low]

theorem decode_literal {a b : UInt8}
    (noEscape : digit? 16 a.toNat = none ∨ digit? 16 b.toNat = none) (rest : List UInt8) :
    decode (37 :: a :: b :: rest) = 37 :: decode (a :: b :: rest) := by
  rw [decode]
  rcases noEscape with missing | missing
  · rw [missing]
  · rw [missing]
    cases digit? 16 a.toNat <;> rfl

def Unreserved (c : Char) : Prop :=
  (alphanumeric? c.toNat).isSome ∨ c = '-' ∨ c = '.' ∨ c = '_' ∨ c = '~'

/-- The bytes are written as the text: unreserved characters as they are or escaped, a space
also as `+`, and all other bytes escaped, with digits of either case. -/
inductive Encodes : List UInt8 → List Char → Prop
  | nil : Encodes [] []
  | plain {c : Char} {bytes : List UInt8} {text : List Char} (free : Unreserved c)
      (after : Encodes bytes text) : Encodes (UInt8.ofNat c.toNat :: bytes) (c :: text)
  | space {bytes : List UInt8} {text : List Char} (after : Encodes bytes text) :
      Encodes (32 :: bytes) ('+' :: text)
  | escape {x y : Char} {hi lo : ℕ} {bytes : List UInt8} {text : List Char}
      (high : digit? 16 x.toNat = some hi) (low : digit? 16 y.toNat = some lo)
      (after : Encodes bytes text) :
      Encodes (UInt8.ofNat (hi * 16 + lo) :: bytes) ('%' :: x :: y :: text)

/-- The characters of a written text. -/
def Written (c : Char) : Prop := (alphanumeric? c.toNat).isSome ∨ c ∈ ['-', '.', '_', '~', '+', '%']

theorem Unreserved.written {c : Char} (free : Unreserved c) : Written c := by
  rcases free with named | rfl | rfl | rfl | rfl
  · exact Or.inl named
  all_goals exact Or.inr (by decide)

theorem written_of_digit? {radix d : ℕ} {c : Char} (read : digit? radix c.toNat = some d) :
    Written c := by
  have value := (Option.filter_eq_some_iff.mp read).1
  exact Or.inl (Option.isSome_of_eq_some value)

theorem Encodes.written {bytes : List UInt8} {text : List Char} (encoded : Encodes bytes text) :
    ∀ c ∈ text, Written c := by
  induction encoded with
  | nil => exact fun _ absent => absurd absent List.not_mem_nil
  | plain free _ ih => exact List.forall_mem_cons.mpr ⟨free.written, ih⟩
  | space _ ih => exact List.forall_mem_cons.mpr ⟨Or.inr (by decide), ih⟩
  | escape high low _ ih =>
      have digits := List.forall_mem_cons.mpr ⟨written_of_digit? low, ih⟩
      exact List.forall_mem_cons.mpr
        ⟨Or.inr (by decide), List.forall_mem_cons.mpr ⟨written_of_digit? high, digits⟩⟩

theorem Encodes.notMem {bytes : List UInt8} {text : List Char} {c : Char}
    (encoded : Encodes bytes text) (foreign : ¬Written c) : c ∉ text :=
  fun member => foreign (encoded.written c member)

theorem not_written_amp : ¬Written '&' := by
  unfold Written
  decide

theorem not_written_eq : ¬Written '=' := by
  unfold Written
  decide

theorem Unreserved.ascii {c : Char} (free : Unreserved c) :
    c.toNat < 128 ∧ c.toNat ≠ 43 ∧ c.toNat ≠ 37 := by
  rcases free with named | rfl | rfl | rfl | rfl
  · exact alphanumeric?_ascii named
  all_goals decide

theorem Unreserved.byte {c : Char} (free : Unreserved c) :
    UInt8.ofNat c.toNat ≠ 43 ∧ UInt8.ofNat c.toNat ≠ 37 := by
  obtain ⟨ascii, noPlus, noPercent⟩ := free.ascii
  have code := toNat_ofNat_ascii ascii
  constructor
  · intro same
    rw [same] at code
    exact noPlus code.symm
  · intro same
    rw [same] at code
    exact noPercent code.symm

theorem utf8_escape {x y : Char} {hi lo : ℕ} (high : digit? 16 x.toNat = some hi)
    (low : digit? 16 y.toNat = some lo) (text : List Char) :
    utf8 (String.ofList ('%' :: x :: y :: text)) =
      37 :: UInt8.ofNat x.toNat :: UInt8.ofNat y.toNat :: utf8 (String.ofList text) := by
  rw [utf8_ofList_cons (by decide), utf8_ofList_cons (digit?_ascii high),
    utf8_ofList_cons (digit?_ascii low)]
  rfl

theorem decode_encodes {bytes : List UInt8} {text : List Char} (encoded : Encodes bytes text) :
    decode (utf8 (String.ofList text)) = bytes := by
  induction encoded with
  | nil => rfl
  | plain free _ ih =>
      rw [utf8_ofList_cons free.ascii.1, decode_plain free.byte.1 free.byte.2, ih]
  | space _ ih =>
      rw [utf8_ofList_cons (by decide)]
      change 32 :: decode _ = _
      rw [ih]
  | escape high low _ ih =>
      rw [utf8_escape high low, decode_escape (by rwa [toNat_ofNat_ascii (digit?_ascii high)])
        (by rwa [toNat_ofNat_ascii (digit?_ascii low)]), ih]

def splitOnce {α : Type} [DecidableEq α] (sep : α) : List α → Option (List α × List α)
  | [] => none
  | c :: rest =>
      if c = sep then some ([], rest)
      else (splitOnce sep rest).map fun halves => (c :: halves.1, halves.2)

theorem splitOnce_append {α : Type} [DecidableEq α] {sep : α} {front : List α}
    (absent : sep ∉ front) (rest : List α) :
    splitOnce sep (front ++ sep :: rest) = some (front, rest) := by
  induction front with
  | nil => exact if_pos rfl
  | cons c front ih =>
      have other : c ≠ sep := by
        intro same
        exact absent (same ▸ List.mem_cons_self)
      rw [List.cons_append, splitOnce, if_neg other,
        ih fun member => absent (List.mem_cons_of_mem c member)]
      rfl

theorem splitOnce_none {α : Type} [DecidableEq α] {sep : α} {text : List α}
    (absent : sep ∉ text) : splitOnce sep text = none := by
  induction text with
  | nil => rfl
  | cons c text ih =>
      have other : c ≠ sep := by
        intro same
        exact absent (same ▸ List.mem_cons_self)
      rw [splitOnce, if_neg other, ih fun member => absent (List.mem_cons_of_mem c member)]
      rfl

/-- A reading of bytes as text that replaces what is not UTF-8. -/
structure Lossy where
  read : List UInt8 → String
  read_utf8 : ∀ text, read (utf8 text) = text

def parsePair (L : Lossy) (piece : List UInt8) : String × String :=
  let halves := (splitOnce 61 piece).getD (piece, [])
  (L.read (decode halves.1), L.read (decode halves.2))

def parse (L : Lossy) (bytes : List UInt8) : List (String × String) :=
  ((bytes.splitOn 38).filter (· ≠ [])).map (parsePair L)

theorem parse_pair (L : Lossy) {name value : List UInt8} (noAmp : 38 ∉ name ++ 61 :: value)
    (noEq : 61 ∉ name) :
    parse L (name ++ 61 :: value) = [(L.read (decode name), L.read (decode value))] := by
  rw [parse, List.splitOn_eq_singleton noAmp, List.filter_cons_of_pos (by simp), List.filter_nil,
    List.map_cons, List.map_nil, parsePair, splitOnce_append noEq]
  rfl

end FormUrlencoded

namespace Http

def visible (b : UInt8) : Bool := (decide (32 ≤ b) && decide (b < 127)) || b == 9

def toStr (value : List UInt8) : Option String :=
  if value.all visible then some (String.ofList (value.map fun b => Char.ofNat b.toNat)) else none

/-- The token of an `Authorization` header, if the header uses the bearer scheme. -/
def bearer (authorization : Option (List UInt8)) : Option String :=
  (authorization.bind toStr).bind fun text =>
    if "Bearer ".toList.isPrefixOf text.toList then some (String.ofList (text.toList.drop 7))
    else none

/-- Collect the frames of a body up to `limit` bytes. -/
def toBytes : Nat → List (Except String (List UInt8)) → Except String (List UInt8)
  | _, [] => .ok []
  | _, .error e :: _ => .error e
  | limit, .ok data :: rest =>
      if limit < data.length then .error "length limit exceeded"
      else (toBytes (limit - data.length) rest).map (data ++ ·)

theorem toBytes_ok {limit : Nat} {frames : List (Except String (List UInt8))}
    {bytes : List UInt8} (h : toBytes limit frames = .ok bytes) :
    ∃ chunks : List (List UInt8), frames = chunks.map .ok ∧ bytes = chunks.flatten ∧
      bytes.length ≤ limit := by
  induction frames generalizing limit bytes with
  | nil =>
      cases h
      exact ⟨[], rfl, rfl, Nat.zero_le _⟩
  | cons frame rest ih =>
      cases frame with
      | error e => cases h
      | ok data =>
          simp only [toBytes] at h
          split at h
          · cases h
          · next room =>
              cases read : toBytes (limit - data.length) rest with
              | error e =>
                  rw [read] at h
                  cases h
              | ok more =>
                  rw [read] at h
                  cases h
                  obtain ⟨chunks, rfl, rfl, short⟩ := ih read
                  refine ⟨data :: chunks, rfl, rfl, ?_⟩
                  rw [List.length_append]
                  omega

end Http
