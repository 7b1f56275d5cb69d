import Cherenkov.Library.Fallible
import Cherenkov.Core

/-! `jsonwebtoken` lies outside the repository. How it splits a token, checks a signature and parses
a body are parameters; which of these checks its `decode` makes for a `Validation` is written out.
The body keeps an `aud` or `iss` that is neither a string nor a list of strings as absent, which is
how the library treats it. The clock is an argument. -/

namespace Cherenkov

open Fallible

inductive Algorithm where
  | hs256 | hs384 | hs512
  | es256 | es384
  | rs256 | rs384 | rs512
  | ps256 | ps384 | ps512
  | edDsa
  deriving DecidableEq, Repr

inductive JwtAlgorithm where
  | hs256
  | hs384
  | hs512
  deriving DecidableEq, Repr

def JwtAlgorithm.toAlgorithm : JwtAlgorithm → Algorithm
  | .hs256 => .hs256
  | .hs384 => .hs384
  | .hs512 => .hs512

inductive OneOrMany where
  | single (value : String)
  | multiple (values : List String)
  deriving DecidableEq, Repr

def OneOrMany.values : OneOrMany → List String
  | .single value => [value]
  | .multiple values => values

structure TokenBody where
  sub : Option String
  permissions : Option (List String)
  exp : Option Nat
  aud : Option OneOrMany
  iss : Option OneOrMany
  deriving DecidableEq, Repr

inductive SpecClaim where
  | exp
  | aud
  | iss
  | sub
  deriving DecidableEq, Repr

def SpecClaim.name : SpecClaim → String
  | .exp => "exp"
  | .aud => "aud"
  | .iss => "iss"
  | .sub => "sub"

def TokenBody.has (body : TokenBody) : SpecClaim → Bool
  | .exp => body.exp.isSome
  | .aud => body.aud.isSome
  | .iss => body.iss.isSome
  | .sub => body.sub.isSome

inductive JwtError where
  | invalidToken
  | invalidAlgorithm
  | invalidSignature
  | json (message : String)
  | missingRequiredClaim (claim : SpecClaim)
  | expiredSignature
  | invalidIssuer
  | invalidAudience
  deriving DecidableEq, Repr

def JwtError.display : JwtError → String
  | .invalidToken => "InvalidToken"
  | .invalidAlgorithm => "InvalidAlgorithm"
  | .invalidSignature => "InvalidSignature"
  | .json message => "JSON error: " ++ message
  | .missingRequiredClaim claim => "Missing required claim: " ++ claim.name
  | .expiredSignature => "ExpiredSignature"
  | .invalidIssuer => "InvalidIssuer"
  | .invalidAudience => "InvalidAudience"

structure Validation where
  requiredSpecClaims : List SpecClaim
  leeway : Nat
  validateExp : Bool
  validateAud : Bool
  aud : Option (List String)
  iss : Option (List String)
  algorithms : List Algorithm

namespace Validation

def new (algorithm : Algorithm) : Validation where
  requiredSpecClaims := [.exp]
  leeway := 60
  validateExp := true
  validateAud := true
  aud := none
  iss := none
  algorithms := [algorithm]

def setAudience (v : Validation) (items : List String) : Validation := { v with aud := some items }

def setIssuer (v : Validation) (items : List String) : Validation := { v with iss := some items }

def overlaps (accepted : List String) (given : OneOrMany) : Bool :=
  given.values.any fun value => accepted.contains value

def issuerMismatch (v : Validation) (body : TokenBody) : Bool :=
  match body.iss, v.iss with
  | some given, some accepted => !overlaps accepted given
  | _, _ => false

def audienceMismatch (v : Validation) (body : TokenBody) : Bool :=
  match body.aud, v.aud with
  | some _, none => true
  | some given, some accepted => !overlaps accepted given
  | none, _ => false

def validate (v : Validation) (now : Nat) (body : TokenBody) : Except JwtError Unit := do
  forM v.requiredSpecClaims fun claim =>
    require (body.has claim = true) (.missingRequiredClaim claim)
  require (v.validateExp = true → ∀ exp ∈ body.exp, now ≤ exp + v.leeway) .expiredSignature
  require (v.issuerMismatch body = false) .invalidIssuer
  require (v.validateAud = true → v.audienceMismatch body = false) .invalidAudience

end Validation

/-- How the library takes a token apart: the algorithm its header names, whether its signature
verifies under a key, its body, and what `serde_json` says when the body lacks a field. -/
structure Jws where
  header : String → Except JwtError Algorithm
  verify : Algorithm → Bytes → String → Bool
  body : String → Except JwtError TokenBody
  missingField : String → String → String

structure CherenkovClaims where
  sub : String
  permissions : List String
  exp : Nat

/-- `permissions` and `exp` have serde defaults, `sub` has none. -/
def CherenkovClaims.deserialize (J : Jws) (token : String) (body : TokenBody) :
    Except JwtError CherenkovClaims :=
  match body.sub with
  | some sub => .ok ⟨sub, body.permissions.getD [], body.exp.getD 0⟩
  | none => .error (.json (J.missingField token "sub"))

def Jws.decode (J : Jws) (token : String) (key : Bytes) (v : Validation) (now : Nat) :
    Except JwtError CherenkovClaims := do
  let algorithm ← J.header token
  require (algorithm ∈ v.algorithms) .invalidAlgorithm
  require (J.verify algorithm key token = true) .invalidSignature
  let body ← J.body token
  let claims ← CherenkovClaims.deserialize J token body
  v.validate now body
  return claims

structure JwtAuthenticator where
  key : Bytes
  validation : Validation

structure JwtAuthBuilder where
  secret : Option Bytes
  algorithm : JwtAlgorithm
  audiences : List String
  issuer : Option String

namespace JwtAuthBuilder

def new : JwtAuthBuilder := ⟨none, .hs256, [], none⟩

def withHmacSecret (b : JwtAuthBuilder) (secret : Bytes) : JwtAuthBuilder :=
  { b with secret := some secret }

def withAlgorithm (b : JwtAuthBuilder) (algorithm : JwtAlgorithm) : JwtAuthBuilder :=
  { b with algorithm }

def withAudience (b : JwtAuthBuilder) (audience : String) : JwtAuthBuilder :=
  { b with audiences := b.audiences ++ [audience] }

def withIssuer (b : JwtAuthBuilder) (issuer : String) : JwtAuthBuilder :=
  { b with issuer := some issuer }

def validation (b : JwtAuthBuilder) : Validation :=
  let v := Validation.new b.algorithm.toAlgorithm
  let v := if b.audiences.isEmpty then { v with validateAud := false } else v.setAudience b.audiences
  match b.issuer with
  | some issuer => v.setIssuer [issuer]
  | none => v

/-- Without a secret the builder panics. -/
def build (b : JwtAuthBuilder) : Option JwtAuthenticator :=
  b.secret.map fun secret => ⟨secret, b.validation⟩

end JwtAuthBuilder

def JwtAuthenticator.authenticate (auth : JwtAuthenticator) (J : Jws) (now : Nat)
    (token : String) : Except AuthError SessionClaims :=
  match J.decode token auth.key auth.validation now with
  | .ok claims => .ok ⟨claims.sub, claims.permissions, claims.exp⟩
  | .error e => .error (.invalidToken e.display)

/-- The checks that are made of a token, for a builder and a clock reading. -/
structure JwtAuthBuilder.Admits (b : JwtAuthBuilder) (J : Jws) (now : Nat) (token : String)
    (secret : Bytes) (body : TokenBody) (sub : String) : Prop where
  keyed : b.secret = some secret
  header : J.header token = .ok b.algorithm.toAlgorithm
  verified : J.verify b.algorithm.toAlgorithm secret token = true
  parsed : J.body token = .ok body
  named : body.sub = some sub
  dated : ∃ exp, body.exp = some exp ∧ now ≤ exp + 60
  issuer : ∀ issuer, b.issuer = some issuer → ∀ given, body.iss = some given →
    issuer ∈ given.values
  audience : b.audiences ≠ [] → ∀ given, body.aud = some given →
    ∃ value ∈ given.values, value ∈ b.audiences

theorem Validation.validate_eq_ok {v : Validation} {now : Nat} {body : TokenBody} {u : Unit} :
    v.validate now body = .ok u ↔
      (∀ claim ∈ v.requiredSpecClaims, body.has claim = true) ∧
        (v.validateExp = true → ∀ exp ∈ body.exp, now ≤ exp + v.leeway) ∧
        v.issuerMismatch body = false ∧
        (v.validateAud = true → v.audienceMismatch body = false) := by
  simp only [validate, bind_eq_ok, forM_eq_ok, require_eq_ok, exists_and_left, exists_const]

theorem CherenkovClaims.deserialize_eq_ok {J : Jws} {token : String} {body : TokenBody}
    {claims : CherenkovClaims} : deserialize J token body = .ok claims ↔
      ∃ sub, body.sub = some sub ∧ claims = ⟨sub, body.permissions.getD [], body.exp.getD 0⟩ := by
  unfold deserialize
  cases body.sub <;> simp [eq_comm]

namespace JwtAuthBuilder

variable {b : JwtAuthBuilder} {J : Jws} {now : Nat} {token : String}

theorem validation_fixed (b : JwtAuthBuilder) :
    b.validation.requiredSpecClaims = [.exp] ∧ b.validation.leeway = 60 ∧
      b.validation.validateExp = true ∧
      b.validation.algorithms = [b.algorithm.toAlgorithm] := by
  unfold validation
  split <;> split <;> exact ⟨rfl, rfl, rfl, rfl⟩

theorem validation_issuerMismatch {body : TokenBody} :
    b.validation.issuerMismatch body = false ↔
      ∀ issuer, b.issuer = some issuer → ∀ given, body.iss = some given →
        issuer ∈ given.values := by
  cases named : b.issuer <;> cases given : body.iss <;>
    simp [validation, named, given, Validation.issuerMismatch, Validation.setIssuer,
      Validation.setAudience, Validation.new, Validation.overlaps, apply_ite]

theorem validation_audienceMismatch {body : TokenBody} :
    (b.validation.validateAud = true → b.validation.audienceMismatch body = false) ↔
      (b.audiences ≠ [] → ∀ given, body.aud = some given →
        ∃ value ∈ given.values, value ∈ b.audiences) := by
  cases listed : b.audiences <;> cases named : b.issuer <;> cases given : body.aud <;>
    simp [validation, listed, named, given, Validation.audienceMismatch, Validation.setIssuer,
      Validation.setAudience, Validation.new, Validation.overlaps]

theorem validation_eq_ok {body : TokenBody} {u : Unit} :
    b.validation.validate now body = .ok u ↔
      (∃ exp, body.exp = some exp ∧ now ≤ exp + 60) ∧
        (∀ issuer, b.issuer = some issuer → ∀ given, body.iss = some given →
          issuer ∈ given.values) ∧
        (b.audiences ≠ [] → ∀ given, body.aud = some given →
          ∃ value ∈ given.values, value ∈ b.audiences) := by
  obtain ⟨required, leeway, expires, -⟩ := b.validation_fixed
  rw [Validation.validate_eq_ok, validation_issuerMismatch, validation_audienceMismatch,
    required, leeway, expires]
  cases dated : body.exp <;> simp [TokenBody.has, dated]

/-- The authenticator answers with the claims of the token exactly when its checks pass. -/
theorem authenticate_eq_ok {claims : SessionClaims} :
    (∃ auth, b.build = some auth ∧ auth.authenticate J now token = .ok claims) ↔
      ∃ secret body sub, b.Admits J now token secret body sub ∧
        claims = ⟨sub, body.permissions.getD [], body.exp.getD 0⟩ := by
  have decoded : ∀ auth : JwtAuthenticator, auth.authenticate J now token = .ok claims ↔
      ∃ decoded, J.decode token auth.key auth.validation now = .ok decoded ∧
        claims = ⟨decoded.sub, decoded.permissions, decoded.exp⟩ := by
    intro auth
    unfold JwtAuthenticator.authenticate
    cases J.decode token auth.key auth.validation now <;> simp [eq_comm]
  constructor
  · rintro ⟨auth, built, accepted⟩
    obtain ⟨secret, keyed, rfl⟩ := Option.map_eq_some_iff.mp built
    obtain ⟨_, returned, rfl⟩ := (decoded _).mp accepted
    simp only [Jws.decode, bind_eq_ok, require_eq_ok, CherenkovClaims.deserialize_eq_ok,
      validation_eq_ok, b.validation_fixed.2.2.2, List.mem_singleton, pure, Except.pure] at returned
    obtain ⟨_, header, _, rfl, _, verified, body, parsed, _, ⟨sub, named, rfl⟩, _,
      ⟨dated, issuer, audience⟩, ⟨⟩⟩ := returned
    exact ⟨secret, body, sub, ⟨keyed, header, verified, parsed, named, dated, issuer, audience⟩, rfl⟩
  · rintro ⟨secret, body, sub, admits, rfl⟩
    refine ⟨⟨secret, b.validation⟩, by rw [build, admits.keyed]; rfl, (decoded _).mpr ?_⟩
    refine ⟨⟨sub, body.permissions.getD [], body.exp.getD 0⟩, ?_, rfl⟩
    simp only [Jws.decode, bind_eq_ok, require_eq_ok, CherenkovClaims.deserialize_eq_ok,
      validation_eq_ok, b.validation_fixed.2.2.2, List.mem_singleton]
    exact ⟨_, admits.header, (), rfl, (), admits.verified, body, admits.parsed, _,
      ⟨sub, admits.named, rfl⟩, (), ⟨admits.dated, admits.issuer, admits.audience⟩, rfl⟩

/-- What the builder is told to enforce, of a token that was answered with `claims`. -/
structure Policy (b : JwtAuthBuilder) (J : Jws) (now : Nat) (token : String) (secret : Bytes)
    (body : TokenBody) (claims : SessionClaims) : Prop where
  keyed : b.secret = some secret
  header : J.header token = .ok b.algorithm.toAlgorithm
  verified : J.verify b.algorithm.toAlgorithm secret token = true
  parsed : J.body token = .ok body
  current : ∃ exp, body.exp = some exp ∧ now ≤ exp
  audience : b.audiences ≠ [] → ∃ given, body.aud = some given ∧
    ∃ value ∈ given.values, value ∈ b.audiences
  issuer : ∀ issuer, b.issuer = some issuer → body.iss = some (.single issuer)
  subject : body.sub = some claims.subject
  permissions : claims.permissions = body.permissions.getD []
  expiresAt : body.exp = some claims.expiresAt

/-- The token is not yet expired and carries what the builder asks about. -/
structure Complete (b : JwtAuthBuilder) (now : Nat) (body : TokenBody) : Prop where
  current : ∀ exp, body.exp = some exp → now ≤ exp
  audience : b.audiences ≠ [] → body.aud.isSome = true
  issuer : b.issuer.isSome = true → ∃ value, body.iss = some (.single value)

theorem Admits.policy {secret : Bytes} {body : TokenBody} {sub : String}
    (admits : b.Admits J now token secret body sub) (complete : b.Complete now body) :
    b.Policy J now token secret body ⟨sub, body.permissions.getD [], body.exp.getD 0⟩ := by
  obtain ⟨exp, dated, -⟩ := admits.dated
  refine { admits with
    current := ⟨exp, dated, complete.current exp dated⟩
    audience := ?_
    issuer := ?_
    subject := admits.named
    permissions := rfl
    expiresAt := by rw [dated]; rfl }
  · intro listed
    obtain ⟨given, carried⟩ := Option.isSome_iff_exists.mp (complete.audience listed)
    exact ⟨given, carried, admits.audience listed given carried⟩
  · intro issuer configured
    obtain ⟨value, carried⟩ := complete.issuer (Option.isSome_of_mem configured)
    have same := admits.issuer issuer configured _ carried
    rw [carried, List.mem_singleton.mp same]

end JwtAuthBuilder

/-- An authenticator enforces its policy on a token exactly if the token, should it pass the
checks that are made, is not expired and carries the claims that are configured. -/
theorem token_policy (b : JwtAuthBuilder) (J : Jws) (now : Nat) (token : String) :
    (∀ auth claims, b.build = some auth → auth.authenticate J now token = .ok claims →
        ∃ secret body, b.Policy J now token secret body claims) ↔
      ∀ secret body sub, b.Admits J now token secret body sub → b.Complete now body := by
  constructor
  · intro enforced secret body sub admits
    obtain ⟨auth, built, accepted⟩ :=
      JwtAuthBuilder.authenticate_eq_ok.mpr ⟨secret, body, sub, admits, rfl⟩
    obtain ⟨_, body', policy⟩ := enforced auth _ built accepted
    cases admits.parsed.symm.trans policy.parsed
    obtain ⟨exp, dated, current⟩ := policy.current
    constructor
    · intro other found
      cases dated.symm.trans found
      exact current
    · intro listed
      obtain ⟨given, carried, -⟩ := policy.audience listed
      rw [carried, Option.isSome_some]
    · intro configured
      obtain ⟨issuer, named⟩ := Option.isSome_iff_exists.mp configured
      exact ⟨issuer, policy.issuer issuer named⟩
  · intro complete auth claims built accepted
    obtain ⟨secret, body, sub, admits, rfl⟩ :=
      JwtAuthBuilder.authenticate_eq_ok.mp ⟨auth, built, accepted⟩
    exact ⟨secret, body, admits.policy (complete secret body sub admits)⟩

/-- Two tokens that verify under any key: one without `aud` and `iss`, and one that expired a
minute before 1000. -/
def lenient : Jws where
  header _ := .ok .hs256
  verify _ _ _ := true
  body token :=
    if token = "bare" then .ok ⟨some "alice", none, some 2000, none, none⟩
    else if token = "stale" then .ok ⟨some "alice", none, some 940, none, none⟩
    else .error .invalidToken
  missingField _ field := "missing field `" ++ field ++ "` at line 1 column 2"

/-- A token without `aud` and `iss` passes an authenticator that has both configured, and a
token passes a minute after it has expired. -/
theorem token_policy_missed :
    (∃ auth, (((JwtAuthBuilder.new.withHmacSecret [1]).withAudience "cherenkov-prod").withIssuer
        "issuer").build = some auth ∧
      auth.authenticate lenient 1000 "bare" = .ok ⟨"alice", [], 2000⟩) ∧
    ∃ auth, (JwtAuthBuilder.new.withHmacSecret [1]).build = some auth ∧
      auth.authenticate lenient 1000 "stale" = .ok ⟨"alice", [], 940⟩ := by
  exact ⟨⟨_, rfl, by rfl⟩, _, rfl, by rfl⟩

end Cherenkov
