import Mathlib.Data.List.Forall2
import Cherenkov.Library.Http
import Cherenkov.Protocol

/-! `subscribe_handler` takes its channels off the raw query with a decoder of its own;
`publish_handler` leaves the query to axum's `Query`, which is a form deserialized by
serde_urlencoded. -/

namespace Cherenkov

open Digits FormUrlencoded
open Wire (utf8 fromUtf8 fromUtf8_utf8)

/-- The loop of `urlencoding_decode`; the two bytes after a `%` have to be UTF-8 on their own. -/
def urlencodingBytes : Bytes → Option Bytes
  | [] => some []
  | 43 :: rest => (urlencodingBytes rest).map (32 :: ·)
  | 37 :: a :: b :: rest =>
      if (fromUtf8 [a, b]).isSome then
        match fromStrRadix 16 256 [a, b] with
        | some byte => (urlencodingBytes rest).map (UInt8.ofNat byte :: ·)
        | none => (urlencodingBytes (a :: b :: rest)).map (37 :: ·)
      else none
  | other :: rest => (urlencodingBytes rest).map (other :: ·)

def urlencodingDecode (text : String) : Option String :=
  (urlencodingBytes (utf8 text)).bind fromUtf8

def channelOfPair (pair : List Char) : Option String :=
  match splitOnce '=' pair with
  | none => none
  | some (key, value) =>
      if String.ofList key ≠ "channel" then none
      else (urlencodingDecode (String.ofList value)).filter fun decoded => decoded ≠ ""

def channelsFromRawQuery : Option String → List String
  | none => []
  | some query => (query.toList.splitOn '&').filterMap channelOfPair

structure PublishQuery where
  channel : String
  requestId : Nat
  deriving DecidableEq

/-- The derived `Deserialize`: fields may come in any order, other keys are ignored, a field
twice or a missing channel is an error. -/
def PublishQuery.visit : Option String → Option Nat → List (String × String) → Option PublishQuery
  | channel, requestId, [] => channel.map fun name => ⟨name, requestId.getD 0⟩
  | channel, requestId, (key, value) :: rest =>
      if key = "channel" then
        if channel.isSome then none else visit (some value) requestId rest
      else if key = "request_id" then
        match requestId, fromStrRadix 10 (2 ^ 64) (utf8 value) with
        | none, some n => visit channel (some n) rest
        | _, _ => none
      else visit channel requestId rest

def publishQuery (L : Lossy) (query : Option String) : Option PublishQuery :=
  PublishQuery.visit none none (parse L (utf8 (query.getD "")))

/-- What follows each `%` of a text, if two bytes do. -/
def escapes : Bytes → List (UInt8 × UInt8)
  | [] => []
  | 37 :: a :: b :: rest => (a, b) :: escapes (a :: b :: rest)
  | _ :: rest => escapes rest

def Readable (e : UInt8 × UInt8) : Prop := (fromUtf8 [e.1, e.2]).isSome

/-- A sign and a digit, which `from_str_radix` takes for a number. -/
def Signed (e : UInt8 × UInt8) : Prop := e.1 = 43 ∧ (digit? 16 e.2.toNat).isSome

instance (e : UInt8 × UInt8) : Decidable (Readable e) := inferInstanceAs (Decidable (_ = _))

instance (e : UInt8 × UInt8) : Decidable (Signed e) := inferInstanceAs (Decidable (_ ∧ _))

theorem escapes_plain {b : UInt8} (noPercent : b ≠ 37) (rest : Bytes) :
    escapes (b :: rest) = escapes rest := by
  rw [escapes]
  intro a c after percent
  exact absurd percent noPercent

theorem ne_percent {b : UInt8} {d : ℕ} (read : digit? 16 b.toNat = some d) : b ≠ 37 := by
  intro percent
  subst percent
  cases read

/-- Both decoders read two digits as a byte; only one reads a sign and a digit, and neither
anything else. -/
theorem escape_cases (a b : UInt8) :
    (a = 43 ∧ ∃ lo, digit? 16 b.toNat = some lo ∧ fromStrRadix 16 256 [a, b] = some lo) ∨
    (∃ hi lo, digit? 16 a.toNat = some hi ∧ digit? 16 b.toNat = some lo ∧
      fromStrRadix 16 256 [a, b] = some (hi * 16 + lo)) ∨
    ((digit? 16 a.toNat = none ∨ digit? 16 b.toNat = none) ∧ ¬Signed (a, b) ∧
      fromStrRadix 16 256 [a, b] = none) := by
  rw [fromStrRadix_pair]
  by_cases sign : a = 43
  · subst sign
    rw [if_pos rfl]
    cases low : digit? 16 b.toNat with
    | none =>
        right
        right
        refine ⟨Or.inr rfl, ?_, rfl⟩
        rintro ⟨-, digit⟩
        rw [low] at digit
        cases digit
    | some lo =>
        left
        exact ⟨rfl, lo, rfl, rfl⟩
  · right
    rw [if_neg sign]
    have unsigned : ¬Signed (a, b) := fun signed => sign signed.1
    cases high : digit? 16 a.toNat with
    | none =>
        right
        exact ⟨Or.inl rfl, unsigned, rfl⟩
    | some hi =>
        cases low : digit? 16 b.toNat with
        | none =>
            right
            exact ⟨Or.inr rfl, unsigned, rfl⟩
        | some lo =>
            left
            exact ⟨hi, lo, rfl, rfl, rfl⟩

theorem ne_plus {b : UInt8} {d : ℕ} (read : digit? 16 b.toNat = some d) : b ≠ 43 := by
  intro plus
  subst plus
  cases read

theorem escapes_escape {a b : UInt8} (noPercent : a ≠ 37) (noSecond : b ≠ 37) (rest : Bytes) :
    escapes (37 :: a :: b :: rest) = (a, b) :: escapes rest := by
  rw [escapes, escapes_plain noPercent, escapes_plain noSecond]

/-- Where the loop gets through, it has read every pair, and it is two bytes short of the form
for each sign. -/
theorem urlencodingBytes_accounts {bytes out : Bytes} (read : urlencodingBytes bytes = some out) :
    (∀ e ∈ escapes bytes, Readable e) ∧
      out.length + 2 * (escapes bytes).countP Signed = (decode bytes).length := by
  fun_induction urlencodingBytes bytes generalizing out with
  | case1 =>
      cases read
      exact ⟨fun _ absent => absurd absent List.not_mem_nil, rfl⟩
  | case2 rest ih =>
      obtain ⟨tail, before, rfl⟩ := Option.map_eq_some_iff.mp read
      obtain ⟨readable, count⟩ := ih before
      rw [escapes_plain (by decide), decode]
      refine ⟨readable, ?_⟩
      rw [List.length_cons, List.length_cons, ← count]
      omega
  | case3 a b rest valid byte number ih =>
      obtain ⟨tail, before, rfl⟩ := Option.map_eq_some_iff.mp read
      obtain ⟨readable, count⟩ := ih before
      rcases escape_cases a b with ⟨rfl, lo, low, -⟩ | ⟨hi, lo, high, low, -⟩ | ⟨-, -, none_⟩
      · have signed : Signed (43, b) := ⟨rfl, by rw [low]; rfl⟩
        rw [escapes_escape (by decide) (ne_percent low), decode_literal (Or.inl rfl), decode,
          decode_plain (ne_plus low) (ne_percent low),
          List.countP_cons_of_pos (by simpa using signed)]
        refine ⟨List.forall_mem_cons.mpr ⟨valid, readable⟩, ?_⟩
        simp only [List.length_cons, ← count]
        omega
      · have unsigned : ¬Signed (a, b) := fun signed => ne_plus high signed.1
        rw [escapes_escape (ne_percent high) (ne_percent low), decode_escape high low,
          List.countP_cons_of_neg (by simpa using unsigned)]
        refine ⟨List.forall_mem_cons.mpr ⟨valid, readable⟩, ?_⟩
        simp only [List.length_cons, ← count]
        omega
      · rw [none_] at number
        cases number
  | case4 a b rest valid number ih =>
      obtain ⟨tail, before, rfl⟩ := Option.map_eq_some_iff.mp read
      obtain ⟨readable, count⟩ := ih before
      rcases escape_cases a b with ⟨-, lo, -, some_⟩ | ⟨hi, lo, -, -, some_⟩ | ⟨literal, unsigned, -⟩
      · rw [some_] at number
        cases number
      · rw [some_] at number
        cases number
      · rw [escapes, decode_literal literal, List.countP_cons_of_neg (by simpa using unsigned)]
        refine ⟨List.forall_mem_cons.mpr ⟨valid, readable⟩, ?_⟩
        simp only [List.length_cons, ← count]
        omega
  | case5 => cases read
  | case6 other rest noPlus noEscape ih =>
      obtain ⟨tail, before, rfl⟩ := Option.map_eq_some_iff.mp read
      obtain ⟨readable, count⟩ := ih before
      rw [escapes, decode]
      · refine ⟨readable, ?_⟩
        rw [List.length_cons, List.length_cons, ← count]
        omega
      · exact noPlus
      · exact noEscape
      · exact noEscape

theorem urlencodingBytes_agrees {bytes : Bytes}
    (agreed : ∀ e ∈ escapes bytes, Readable e ∧ ¬Signed e) :
    urlencodingBytes bytes = some (decode bytes) := by
  fun_induction urlencodingBytes bytes with
  | case1 => rfl
  | case2 rest ih =>
      rw [escapes_plain (by decide)] at agreed
      rw [ih agreed]
      rfl
  | case3 a b rest valid byte number ih =>
      rcases escape_cases a b with ⟨rfl, lo, low, -⟩ | ⟨hi, lo, high, low, some_⟩ | ⟨-, -, none_⟩
      · rw [escapes] at agreed
        have signed : Signed (43, b) := ⟨rfl, by rw [low]; rfl⟩
        exact absurd signed (List.forall_mem_cons.mp agreed).1.2
      · rw [escapes_escape (ne_percent high) (ne_percent low)] at agreed
        cases some_.symm.trans number
        rw [ih (List.forall_mem_cons.mp agreed).2, decode_escape high low]
        rfl
      · rw [none_] at number
        cases number
  | case4 a b rest valid number ih =>
      rw [escapes] at agreed
      rcases escape_cases a b with ⟨-, lo, -, some_⟩ | ⟨hi, lo, -, -, some_⟩ | ⟨literal, -, -⟩
      · rw [some_] at number
        cases number
      · rw [some_] at number
        cases number
      · rw [ih (List.forall_mem_cons.mp agreed).2, decode_literal literal]
        rfl
  | case5 a b rest invalid =>
      rw [escapes] at agreed
      exact absurd (List.forall_mem_cons.mp agreed).1.1 invalid
  | case6 other rest noPlus noEscape ih =>
      rw [escapes.eq_3 _ _ noEscape] at agreed
      rw [ih agreed, decode]
      · rfl
      · exact noPlus
      · exact noEscape

theorem escapes_encodes {bytes : Bytes} {text : List Char} (encoded : Encodes bytes text) :
    ∀ e ∈ escapes (utf8 (String.ofList text)), Readable e ∧ ¬Signed e := by
  induction encoded with
  | nil => exact fun _ absent => absurd absent List.not_mem_nil
  | plain free _ ih =>
      rw [utf8_ofList_cons free.ascii.1, escapes_plain free.byte.2]
      exact ih
  | space _ ih =>
      rw [utf8_ofList_cons (by decide), escapes_plain (by decide)]
      exact ih
  | @escape x y hi lo _ _ high low _ ih =>
      have first := toNat_ofNat_ascii (digit?_ascii high)
      have second := toNat_ofNat_ascii (digit?_ascii low)
      have highByte : digit? 16 (UInt8.ofNat x.toNat).toNat = some hi := by
        rwa [first]
      have lowByte : digit? 16 (UInt8.ofNat y.toNat).toNat = some lo := by
        rwa [second]
      rw [utf8_escape high low, escapes_escape (ne_percent highByte) (ne_percent lowByte)]
      have readable : Readable (UInt8.ofNat x.toNat, UInt8.ofNat y.toNat) :=
        fromUtf8_ascii_pair (digit?_ascii highByte) (digit?_ascii lowByte)
      exact List.forall_mem_cons.mpr
        ⟨⟨readable, fun signed => ne_plus highByte signed.1⟩, ih⟩

theorem urlencodingDecode_encodes {name : String} {text : List Char}
    (encoded : Encodes (utf8 name) text) :
    urlencodingDecode (String.ofList text) = some name := by
  rw [urlencodingDecode, urlencodingBytes_agrees (escapes_encodes encoded),
    decode_encodes encoded, Option.bind_some, fromUtf8_utf8]

theorem decode_channel : decode (utf8 "channel") = utf8 "channel" := by
  decide

theorem channelOfPair_channel (value : List Char) :
    channelOfPair ("channel=".toList ++ value) =
      (urlencodingDecode (String.ofList value)).filter fun decoded => decoded ≠ "" := by
  have absent : '=' ∉ "channel".toList := by
    decide
  have split : splitOnce '=' ("channel=".toList ++ value) = some ("channel".toList, value) :=
    splitOnce_append absent value
  rw [channelOfPair, split]
  dsimp only
  rw [String.ofList_toList, if_neg (not_not.mpr rfl)]

theorem raw_ne_channel {key : String} {text : List Char} (encoded : Encodes (utf8 key) text)
    (other : key ≠ "channel") : String.ofList text ≠ "channel" := by
  intro same
  have bytes := decode_encodes encoded
  rw [same] at bytes
  have again := fromUtf8_utf8 key
  rw [← bytes, decode_channel, fromUtf8_utf8] at again
  exact other (Option.some.inj again).symm

inductive QueryPair where
  | channel (name : String)
  | other (key : String) (value : Option String)

def QueryPair.name? : QueryPair → Option String
  | .channel name => some name
  | .other _ _ => none

/-- The pair as it stands in a query. -/
inductive QueryPair.Written : QueryPair → List Char → Prop
  | channel {name : String} {text : List Char} (nonempty : name ≠ "")
      (encoded : Encodes (utf8 name) text) :
      Written (.channel name) ("channel=".toList ++ text)
  | flag {key : String} {text : List Char} (encoded : Encodes (utf8 key) text) :
      Written (.other key none) text
  | other {key value : String} {first second : List Char} (foreign : key ≠ "channel")
      (encodedKey : Encodes (utf8 key) first) (encodedValue : Encodes (utf8 value) second) :
      Written (.other key (some value)) (first ++ '=' :: second)

theorem QueryPair.Written.noAmp {pair : QueryPair} {text : List Char}
    (written : pair.Written text) : '&' ∉ text := by
  cases written with
  | channel _ encoded =>
      intro member
      rcases List.mem_append.mp member with key | value
      · revert key
        decide
      · exact encoded.notMem not_written_amp value
  | flag encoded => exact encoded.notMem not_written_amp
  | other _ encodedKey encodedValue =>
      intro member
      rcases List.mem_append.mp member with key | rest
      · exact encodedKey.notMem not_written_amp key
      · rcases List.mem_cons.mp rest with same | value
        · revert same
          decide
        · exact encodedValue.notMem not_written_amp value

theorem QueryPair.Written.channelOfPair {pair : QueryPair} {text : List Char}
    (written : pair.Written text) : channelOfPair text = pair.name? := by
  cases written with
  | @channel name text nonempty encoded =>
      rw [channelOfPair_channel, urlencodingDecode_encodes encoded, Option.filter_some,
        if_pos (decide_eq_true nonempty)]
      rfl
  | flag encoded =>
      rw [Cherenkov.channelOfPair, splitOnce_none (encoded.notMem not_written_eq)]
      rfl
  | @other _ _ _ second foreign encodedKey _ =>
      rw [Cherenkov.channelOfPair, splitOnce_append (encodedKey.notMem not_written_eq) second]
      exact if_pos (raw_ne_channel encodedKey foreign)

theorem QueryPair.written_texts {pairs : List QueryPair} {texts : List (List Char)}
    (written : List.Forall₂ QueryPair.Written pairs texts) :
    (∀ text ∈ texts, '&' ∉ text) ∧
      texts.filterMap channelOfPair = pairs.filterMap QueryPair.name? := by
  induction written with
  | nil => exact ⟨fun _ absent => absurd absent List.not_mem_nil, rfl⟩
  | cons first _ ih =>
      refine ⟨List.forall_mem_cons.mpr ⟨first.noAmp, ih.1⟩, ?_⟩
      rw [List.filterMap_cons, List.filterMap_cons, first.channelOfPair, ih.2]

/-- The channels written into a query come out of it in their order, whatever stands between
them. -/
theorem channels_survive_query {pairs : List QueryPair} {texts : List (List Char)}
    (written : List.Forall₂ QueryPair.Written pairs texts) :
    channelsFromRawQuery (some (String.ofList (['&'].intercalate texts))) =
      pairs.filterMap QueryPair.name? := by
  obtain ⟨noAmp, channels⟩ := QueryPair.written_texts written
  rw [channelsFromRawQuery, String.toList_ofList]
  cases written with
  | nil => rfl
  | cons first rest => rw [List.splitOn_intercalate '&' noAmp (List.cons_ne_nil _ _), channels]

/-- A non-ASCII letter, a space, a `%` and an `&`, around a pair of another key. -/
theorem channels_survive_query_mixed :
    channelsFromRawQuery (some "channel=%C3%a9+&limit=1&channel=%25%26a") = ["é ", "%&a"] := by
  have accented : Encodes [UInt8.ofNat (12 * 16 + 3), UInt8.ofNat (10 * 16 + 9), 32]
      ['%', 'C', '3', '%', 'a', '9', '+'] :=
    .escape rfl rfl (.escape rfl rfl (.space .nil))
  have escaped : Encodes [UInt8.ofNat (2 * 16 + 5), UInt8.ofNat (2 * 16 + 6), UInt8.ofNat 'a'.toNat]
      ['%', '2', '5', '%', '2', '6', 'a'] :=
    .escape rfl rfl (.escape rfl rfl (.plain (Or.inl rfl) .nil))
  have key : Encodes (utf8 "limit") "limit".toList :=
    .plain (Or.inl rfl) (.plain (Or.inl rfl) (.plain (Or.inl rfl) (.plain (Or.inl rfl)
      (.plain (Or.inl rfl) .nil))))
  have one : Encodes (utf8 "1") "1".toList := .plain (Or.inl rfl) .nil
  have first : QueryPair.Written (.channel "é ") _ := .channel (by decide) accented
  have limit : QueryPair.Written (.other "limit" (some "1")) _ := .other (by decide) key one
  have second : QueryPair.Written (.channel "%&a") _ := .channel (by decide) escaped
  have query : "channel=%C3%a9+&limit=1&channel=%25%26a" = String.ofList (['&'].intercalate
      ["channel=%C3%a9+".toList, "limit=1".toList, "channel=%25%26a".toList]) := by
    decide +kernel
  rw [query]
  exact channels_survive_query (.cons first (.cons limit (.cons second .nil)))

theorem channelsFromRawQuery_channel {value : String} (noAmp : '&' ∉ value.toList) :
    channelsFromRawQuery (some ("channel=" ++ value)) =
      ((urlencodingDecode value).filter fun decoded => decoded ≠ "").toList := by
  have single : '&' ∉ ("channel=" ++ value).toList := by
    rw [String.toList_append]
    intro member
    rcases List.mem_append.mp member with key | rest
    · revert key
      decide
    · exact noAmp rest
  have pair := channelOfPair_channel value.toList
  rw [String.ofList_toList, ← String.toList_append] at pair
  rw [channelsFromRawQuery, List.splitOn_eq_singleton single, List.filterMap_cons, pair]
  cases (urlencodingDecode value).filter fun decoded => decoded ≠ "" <;> rfl

theorem publishQuery_channel (L : Lossy) {value : String} (noAmp : '&' ∉ value.toList) :
    publishQuery L (some ("channel=" ++ value)) = some ⟨L.read (decode (utf8 value)), 0⟩ := by
  have bytes : utf8 ("channel=" ++ value) = utf8 "channel" ++ 61 :: utf8 value := by
    rw [utf8_append]
    rfl
  have noSplit : 38 ∉ utf8 "channel" ++ 61 :: utf8 value := by
    intro member
    rcases List.mem_append.mp member with key | rest
    · revert key
      decide
    · rcases List.mem_cons.mp rest with same | found
      · revert same
        decide
      · exact noAmp (mem_of_mem_utf8 (c := '&') (by decide) found)
  have key : L.read (decode (utf8 "channel")) = "channel" := by
    rw [decode_channel, L.read_utf8]
  have form : parse L (utf8 ("channel=" ++ value)) =
      [("channel", L.read (decode (utf8 value)))] := by
    rw [bytes, parse_pair L noSplit (by decide), key]
  rw [publishQuery, Option.getD_some, form]
  rfl

/-- A publisher and a subscriber with one parameter meet just where every pair of bytes after a
`%` is UTF-8 on its own and no sign. -/
theorem publish_meets_subscribe (L : Lossy) {value : String} {query : PublishQuery}
    (noAmp : '&' ∉ value.toList)
    (accepted : publishQuery L (some ("channel=" ++ value)) = some query)
    (valid : (fromUtf8 (decode (utf8 value))).isSome) (nonempty : query.channel ≠ "") :
    channelsFromRawQuery (some ("channel=" ++ value)) = [query.channel] ↔
      ∀ e ∈ escapes (utf8 value), Readable e ∧ ¬Signed e := by
  obtain ⟨channel, decoded⟩ := Option.isSome_iff_exists.mp valid
  have form := utf8_of_fromUtf8 decoded
  have published : query.channel = channel := by
    rw [publishQuery_channel L noAmp] at accepted
    rw [← Option.some.inj accepted, ← form, L.read_utf8]
  rw [published] at nonempty
  rw [published, channelsFromRawQuery_channel noAmp]
  constructor
  · intro same
    have read : (urlencodingDecode value).filter (fun decoded => decoded ≠ "") = some channel := by
      rwa [Option.toList_eq_singleton_iff] at same
    obtain ⟨out, loop, text⟩ := Option.bind_eq_some_iff.mp (Option.filter_eq_some_iff.mp read).1
    obtain ⟨readable, count⟩ := urlencodingBytes_accounts loop
    have unsigned : (escapes (utf8 value)).countP Signed = 0 := by
      rw [← form, utf8_of_fromUtf8 text] at count
      omega
    intro e member
    have plain := List.countP_eq_zero.mp unsigned e member
    exact ⟨readable e member, fun signed => plain (decide_eq_true signed)⟩
  · intro agreed
    rw [urlencodingDecode, urlencodingBytes_agrees agreed, Option.bind_some, decoded,
      Option.filter_some, if_pos (decide_eq_true nonempty)]
    rfl

/-- A sign before the digit, and a letter of two bytes after one digit. -/
theorem publish_misses_subscribe :
    channelsFromRawQuery (some "channel=%+1") = ["\x01"] ∧
    channelsFromRawQuery (some "channel=%aé") = [] ∧
    ∀ L : Lossy, publishQuery L (some "channel=%+1") = some ⟨"% 1", 0⟩ ∧
      publishQuery L (some "channel=%aé") = some ⟨"%aé", 0⟩ := by
  refine ⟨by decide +kernel, by decide +kernel, fun L => ⟨?_, ?_⟩⟩
  · have bytes : decode (utf8 "%+1") = utf8 "% 1" := by
      decide
    have form : publishQuery L (some ("channel=" ++ "%+1")) = _ :=
      publishQuery_channel L (by decide)
    rwa [bytes, L.read_utf8] at form
  · have bytes : decode (utf8 "%aé") = utf8 "%aé" := by
      decide
    have form : publishQuery L (some ("channel=" ++ "%aé")) = _ :=
      publishQuery_channel L (by decide)
    rwa [bytes, L.read_utf8] at form

/-- A reading that replaces a text as a whole. -/
def replacing : Lossy where
  read bytes := (fromUtf8 bytes).getD "\uFFFD"
  read_utf8 text := by rw [fromUtf8_utf8]; rfl

theorem publish_meets_subscribe_escaped :
    channelsFromRawQuery (some "channel=%C3%A9%") = ["é%"] := by
  have published : publishQuery replacing (some ("channel=" ++ "%C3%A9%")) = some ⟨"é%", 0⟩ := by
    decide +kernel
  have pairs : escapes (utf8 "%C3%A9%") = [(67, 51), (65, 57)] := by
    decide +kernel
  have first : Readable (67, 51) ∧ ¬Signed (67, 51) := by
    decide +kernel
  have second : Readable (65, 57) ∧ ¬Signed (65, 57) := by
    decide +kernel
  have agreed : ∀ e ∈ escapes (utf8 "%C3%A9%"), Readable e ∧ ¬Signed e := by
    rw [pairs]
    exact List.forall_mem_cons.mpr ⟨first, List.forall_mem_singleton.mpr second⟩
  exact (publish_meets_subscribe replacing (by decide) published (by decide +kernel)
    (by decide)).mpr agreed

end Cherenkov
