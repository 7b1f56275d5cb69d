import Cherenkov.Library.FirstMatch
import Cherenkov.Server

/-! A section is read in file order: the first rule that applies to a request decides, and if none
does the default. `build_acl` compiles the rules one by one and refuses the whole section at the
first glob that does not compile. -/

namespace Cherenkov

open Fallible

variable {ν ω δ υ δ' β τ : Type} {host : Host ν ω δ υ δ' β τ}

/-- The rule covers the action, and its globs match the subject, if it names one, and the
channel. -/
structure AclRuleConfig.Applies (host : Host ν ω δ υ δ' β τ) (claims : SessionClaims)
    (action : AclAction) (channel : String) (rule : AclRuleConfig) : Prop where
  action : rule.action = .any ∨ rule.action = .subscribe ∧ action = .subscribe ∨
    rule.action = .publish ∧ action = .publish
  subject : ∀ pattern, rule.subject = some pattern →
    ∃ glob, host.glob pattern = .ok glob ∧ glob claims.subject = true
  channel : ∃ glob, host.glob rule.channel = .ok glob ∧ glob channel = true

/-- What the section says about a request. -/
def AclConfig.Allows (host : Host ν ω δ υ δ' β τ) (cfg : AclConfig) (claims : SessionClaims)
    (action : AclAction) (channel : String) : Prop :=
  FirstMatch (AclRuleConfig.Applies host claims action channel) (fun rule => rule.effect = .allow)
    (cfg.defaultAllow = true) cfg.rules

structure AclRuleConfig.Compiles (host : Host ν ω δ υ δ' β τ) (rule : AclRuleConfig) : Prop where
  channel : ∃ glob, host.glob rule.channel = .ok glob
  subject : ∀ pattern, rule.subject = some pattern → ∃ glob, host.glob pattern = .ok glob

/-- Edits of a rule list that do not concern a request. -/
inductive Rearranged (applies : AclRuleConfig → Prop) :
    List AclRuleConfig → List AclRuleConfig → Prop
  | insert (earlier later : List AclRuleConfig) {rule : AclRuleConfig} (passed : ¬applies rule) :
      Rearranged applies (earlier ++ later) (earlier ++ rule :: later)
  | reorder (earlier : List AclRuleConfig) {rule : AclRuleConfig} {later later' : List AclRuleConfig}
      (first : applies rule) (same : later.Perm later') :
      Rearranged applies (earlier ++ rule :: later) (earlier ++ rule :: later')

theorem Rearranged.firstMatch {applies good : AclRuleConfig → Prop} {otherwise : Prop}
    {rules rules' : List AclRuleConfig} (rearranged : Rearranged applies rules rules') :
    FirstMatch applies good otherwise rules ↔ FirstMatch applies good otherwise rules' := by
  cases rearranged with
  | insert earlier later passed =>
      exact FirstMatch.append_congr (FirstMatch.cons_of_passed passed).symm earlier
  | reorder earlier first same =>
      refine FirstMatch.append_congr ?_ earlier
      rw [FirstMatch.cons_of_applies first, FirstMatch.cons_of_applies first]

theorem toMatch_covers (configured : AclActionConfig) (action : AclAction) :
    configured.toMatch.covers action = true ↔
      configured = .any ∨ configured = .subscribe ∧ action = .subscribe ∨
        configured = .publish ∧ action = .publish := by
  cases configured <;> cases action <;> decide

/-- A compiled rule has the effect of its source and applies when that does. -/
structure Compiled (host : Host ν ω δ υ δ' β τ) (rule : AclRuleConfig) (compiled : AclRule) :
    Prop where
  effect : compiled.effect = rule.effect
  action : compiled.action = rule.action.toMatch
  channel : host.glob rule.channel = .ok compiled.channel
  subject : rule.subject = none ∧ compiled.subject = none ∨
    ∃ pattern glob, rule.subject = some pattern ∧ host.glob pattern = .ok glob ∧
      compiled.subject = some glob

theorem compileRule_eq_ok {rule : AclRuleConfig} {compiled : AclRule}
    (accepted : compileRule host rule = .ok compiled) : Compiled host rule compiled := by
  rw [compileRule, bind_eq_ok] at accepted
  obtain ⟨glob, found, accepted⟩ := accepted
  rw [mapError_eq_ok] at found
  cases named : rule.subject with
  | none =>
      rw [named] at accepted
      cases accepted
      exact ⟨rfl, rfl, found, .inl ⟨named, rfl⟩⟩
  | some pattern =>
      rw [named] at accepted
      obtain ⟨subject, matched, accepted⟩ := bind_eq_ok.mp accepted
      cases accepted
      exact ⟨rfl, rfl, found, .inr ⟨pattern, subject, named, mapError_eq_ok.mp matched, rfl⟩⟩

theorem matches_eq_true {rule : AclRule} {claims : SessionClaims} {action : AclAction}
    {channel : String} : rule.matches claims action channel = true ↔
      rule.action.covers action = true ∧ (∀ glob ∈ rule.subject, glob claims.subject = true) ∧
        rule.channel channel = true := by
  cases covers : rule.action.covers action with
  | false => simp [AclRule.matches, covers]
  | true =>
      cases named : rule.subject with
      | none => simp [AclRule.matches, covers, named]
      | some glob => cases fits : glob claims.subject <;> simp [AclRule.matches, covers, named, fits]

theorem Compiled.matches_iff {rule : AclRuleConfig} {compiled : AclRule}
    (source : Compiled host rule compiled) (claims : SessionClaims) (action : AclAction)
    (channel : String) :
    compiled.matches claims action channel = true ↔ rule.Applies host claims action channel := by
  rw [matches_eq_true, source.action, toMatch_covers]
  constructor
  · rintro ⟨covers, subject, fits⟩
    refine ⟨covers, ?_, compiled.channel, source.channel, fits⟩
    intro pattern named
    rcases source.subject with ⟨unnamed, -⟩ | ⟨other, glob, same, found, kept⟩
    · rw [unnamed] at named
      cases named
    · rw [same] at named
      cases named
      exact ⟨glob, found, subject glob kept⟩
  · rintro ⟨covers, subject, glob, found, fits⟩
    rw [source.channel] at found
    cases found
    refine ⟨covers, ?_, fits⟩
    intro glob named
    rcases source.subject with ⟨-, unnamed⟩ | ⟨pattern, own, same, found, kept⟩
    · rw [unnamed] at named
      cases named
    · rw [kept] at named
      cases named
      obtain ⟨matched, again, fits⟩ := subject pattern same
      rw [found] at again
      cases again
      exact fits

theorem compileRule_compiles {rule : AclRuleConfig} :
    rule.Compiles host ↔ ∃ compiled, compileRule host rule = .ok compiled := by
  constructor
  · rintro ⟨⟨glob, found⟩, subject⟩
    cases named : rule.subject with
    | none =>
        refine ⟨⟨rule.effect, glob, none, rule.action.toMatch⟩, ?_⟩
        rw [compileRule, found, named]
        rfl
    | some pattern =>
        obtain ⟨own, matched⟩ := subject pattern named
        refine ⟨⟨rule.effect, glob, some own, rule.action.toMatch⟩, ?_⟩
        simp only [compileRule, found, named, matched]
        rfl
  · rintro ⟨compiled, accepted⟩
    have source := compileRule_eq_ok accepted
    refine ⟨⟨_, source.channel⟩, ?_⟩
    intro pattern named
    rcases source.subject with ⟨unnamed, -⟩ | ⟨other, glob, same, found, -⟩
    · rw [unnamed] at named
      cases named
    · rw [same] at named
      cases named
      exact ⟨glob, found⟩

theorem check_eq_allow (acl : NamespaceAcl) (claims : SessionClaims) (action : AclAction)
    (channel : String) : acl.check claims action channel = .allow ↔
      FirstMatch (fun rule => AclRule.matches rule claims action channel = true)
        (fun rule => rule.effect = .allow) (acl.defaultAllow = true) acl.rules := by
  rw [← FirstMatch.find?_iff, NamespaceAcl.check]
  cases acl.rules.find? fun rule => rule.matches claims action channel with
  | none => cases acl.defaultAllow <;> simp
  | some rule => cases effect : rule.effect <;> simp [effect]

theorem buildAcl_eq_ok {cfg : AclConfig}
    {check : SessionClaims → AclAction → String → Except AclError AclDecision}
    (accepted : buildAcl host (some cfg) = .ok check) (claims : SessionClaims) (action : AclAction)
    (channel : String) : ∃ decision, check claims action channel = .ok decision ∧
      (decision = .allow ↔ cfg.Allows host claims action channel) := by
  rw [buildAcl, bind_eq_ok] at accepted
  obtain ⟨rules, compiled, same⟩ := accepted
  cases same
  refine ⟨_, rfl, ?_⟩
  rw [check_eq_allow, AclConfig.Allows]
  refine Iff.symm (FirstMatch.forall₂_congr ((mapM_eq_ok.mp compiled).imp ?_))
  intro rule target accepted
  have source := compileRule_eq_ok accepted
  exact ⟨(source.matches_iff claims action channel).symm, by rw [source.effect]⟩

theorem buildAcl_compiles {cfg : AclConfig} :
    (∀ rule ∈ cfg.rules, rule.Compiles host) ↔ ∃ check, buildAcl host (some cfg) = .ok check := by
  simp only [compileRule_compiles, ← exists_mapM_eq_ok, buildAcl, bind_eq_ok]
  constructor
  · rintro ⟨rules, compiled⟩
    exact ⟨_, rules, compiled, rfl⟩
  · rintro ⟨check, rules, compiled, -⟩
    exact ⟨rules, compiled⟩

theorem decision_ext {first second : AclDecision} (same : first = .allow ↔ second = .allow) :
    first = second := by
  revert same
  cases first <;> cases second <;> decide

/-- The checker decides what the section says, whatever rules that do not concern the request are
added or moved; a section with a bad glob makes no checker and no hub. -/
theorem acl_means (host : Host ν ω δ υ δ' β τ) (cfg : AclConfig) :
    ((∀ rule ∈ cfg.rules, rule.Compiles host) →
      ∃ check, buildAcl host (some cfg) = .ok check ∧ ∀ claims action channel,
        (check claims action channel = .ok .allow ↔ cfg.Allows host claims action channel) ∧
        (check claims action channel = .ok .deny ↔ ¬cfg.Allows host claims action channel) ∧
        ∀ rules check', Rearranged (AclRuleConfig.Applies host claims action channel) cfg.rules rules →
          buildAcl host (some ⟨rules, cfg.defaultAllow⟩) = .ok check' →
          check' claims action channel = check claims action channel) ∧
    (¬(∀ rule ∈ cfg.rules, rule.Compiles host) →
      (∃ e, buildAcl host (some cfg) = .error e) ∧
        ∀ config : ServerConfig ν, config.acl = some cfg → ∃ e, buildHub host config = .error e) := by
  rw [buildAcl_compiles]
  constructor
  · rintro ⟨check, accepted⟩
    refine ⟨check, accepted, ?_⟩
    intro claims action channel
    obtain ⟨decision, decided, allows⟩ := buildAcl_eq_ok accepted claims action channel
    refine ⟨?_, ?_, ?_⟩
    · rw [decided, ← allows, Except.ok.injEq]
    · rw [decided, ← allows, Except.ok.injEq]
      cases decision <;> decide
    · intro rules check' rearranged accepted'
      obtain ⟨decision', decided', allows'⟩ := buildAcl_eq_ok accepted' claims action channel
      have same : decision' = .allow ↔ decision = .allow :=
        allows'.trans (rearranged.firstMatch.symm.trans allows.symm)
      rw [decided, decided', decision_ext same]
  · intro refused
    cases built : buildAcl host (some cfg) with
    | ok check => exact absurd ⟨check, built⟩ refused
    | error e =>
        refine ⟨⟨e, rfl⟩, ?_⟩
        intro config section_
        cases composed : buildHub host config with
        | error e => exact ⟨e, rfl⟩
        | ok hub =>
            simp only [buildHub, section_, built, bind_eq_ok] at composed
            obtain ⟨_, -, _, -, _, -, _, made, -⟩ := composed
            cases made

/-- A process whose only globs are names, `*` and, as one that does not compile, `[`. -/
def naming : Host Bool Bool Nat Nat Nat MemoryBroker MemoryStream :=
  { binary with
    glob := fun pattern =>
      if pattern = "[" then .error "unclosed character class"
      else .ok fun text => pattern = "*" || pattern = text }

def secretive : AclConfig :=
  ⟨[⟨.deny, "rooms.secret", none, .any⟩, ⟨.allow, "*", some "alice", .subscribe⟩], false⟩

theorem acl_means_secretive :
    (∃ check, buildAcl naming (some secretive) = .ok check ∧
      check ⟨"alice", [], 0⟩ .subscribe "rooms.lobby" = .ok .allow ∧
      ¬secretive.Allows naming ⟨"alice", [], 0⟩ .subscribe "rooms.secret") ∧
    ∃ e, buildAcl naming (some ⟨[⟨.allow, "[", none, .any⟩], true⟩) = .error e := by
  constructor
  · have compiles : ∀ rule ∈ secretive.rules, rule.Compiles naming := by
      intro rule member
      rcases List.mem_pair.mp member with rfl | rfl
      · exact ⟨⟨_, rfl⟩, nofun⟩
      · refine ⟨⟨_, rfl⟩, ?_⟩
        rintro pattern ⟨⟩
        exact ⟨_, rfl⟩
    obtain ⟨check, accepted, means⟩ := (acl_means naming secretive).1 compiles
    refine ⟨check, accepted, ?_, (means _ _ _).2.1.mp ?_⟩
    · cases accepted
      decide
    · cases accepted
      decide
  · refine ((acl_means naming ⟨[⟨.allow, "[", none, .any⟩], true⟩).2 ?_).1
    intro compiles
    obtain ⟨⟨glob, found⟩, -⟩ := compiles _ List.mem_cons_self
    cases found

end Cherenkov
