import Unalix.CleanUrl.Clean

/-!
# What of the store a call depends on

Two stores lead to the same result when they do the same for every URL that the call meets, that is
the source URL and each one a redirection replaces it by (`unalixCleanUrl_congr`). So a category
of patterns that is ignored has no effect, whatever it holds (`ignored_category`), and neither has
a provider that is inactive for every URL met (`inactive_provider`).
-/

namespace Unalix

open Chains

variable {Code : Type} {pcre : Pcre Code} {rulesets rulesets' : Rulesets Code}

/-! ## One call -/

/-- What the next call gets. -/
theorem cleanStep_eq_inl {args next : CleanArgs}
    (h : cleanStep pcre rulesets args = .inl next) :
    next.flags = args.flags ∧ ∃ sourceUrl ovector url, args.sourceUrl = some sourceUrl ∧
      firstRedirection pcre args.flags sourceUrl rulesets.items = some ovector ∧
      redirectionUrl sourceUrl ovector = .ok url ∧ next.sourceUrl = some url := by
  obtain ⟨sourceUrl, flags⟩ := args
  rcases sourceUrl with _ | _ | ⟨c, sourceUrl⟩
  · cases h
  · cases h
  · simp only [cleanStep, cleanRulesets_eq] at h
    split at h
    · cases h
    · split at h
      · cases h
      · split at h
        · rename_i ovector hfirst
          split at h
          · cases h
          · rename_i url hurl
            cases h
            refine ⟨rfl, c :: sourceUrl, ovector, url, rfl, ?_, hurl, rfl⟩
            split at hfirst
            · rename_i hredirection
              rw [hredirection]
              exact congrArg some (Sum.inl.inj hfirst)
            · cases hfirst
        · cases h

/-- The flags are passed on unchanged. -/
theorem flags_of_met {args args' : CleanArgs} (h : Met (cleanStep pcre rulesets) args args') :
    args'.flags = args.flags := by
  refine Met.induct (P := fun a => a.flags = args.flags) ?_ rfl h
  intro a b ha hab
  rw [(cleanStep_eq_inl hab).1, ha]

/-- Two stores that do the same for a URL. -/
theorem cleanStep_congr {args : CleanArgs} (hoffset : rulesets.offset < 1 ↔ rulesets'.offset < 1)
    (h : ∀ sourceUrl, args.sourceUrl = some sourceUrl → ∀ uri,
      cleanRulesets pcre args.flags sourceUrl rulesets.items uri =
        cleanRulesets pcre args.flags sourceUrl rulesets'.items uri) :
    cleanStep pcre rulesets args = cleanStep pcre rulesets' args := by
  obtain ⟨sourceUrl, flags⟩ := args
  rcases sourceUrl with _ | _ | ⟨c, sourceUrl⟩
  · rfl
  · rfl
  · simp only [cleanStep, h _ rfl, hoffset]

/-- **Two stores that do the same for every URL met** lead to the same result. -/
theorem unalixCleanUrl_congr {sourceUrl : Option Bytes} {flags : Flags}
    (hoffset : rulesets.offset < 1 ↔ rulesets'.offset < 1)
    (h : ∀ args, Met (cleanStep pcre rulesets) ⟨sourceUrl, flags⟩ args →
      ∀ url, args.sourceUrl = some url → ∀ uri,
        cleanRulesets pcre args.flags url rulesets.items uri =
          cleanRulesets pcre args.flags url rulesets'.items uri) (fuel : ℕ) :
    unalixCleanUrl pcre rulesets fuel sourceUrl flags =
      unalixCleanUrl pcre rulesets' fuel sourceUrl flags := by
  apply follow_congr
  intro args hmet
  exact cleanStep_congr hoffset (h args hmet)

/-! ## Ignored categories -/

/-- The categories of patterns that a flag disables. -/
inductive Category
  | rules
  | referralMarketing
  | exceptions
  | rawRules
  | redirections
  deriving DecidableEq, Repr

namespace Category

/-- The flag of a category. -/
def flag : Category → Flags → ℤ
  | rules, flags => flags.ignoreRules
  | referralMarketing, flags => flags.ignoreReferralMarketing
  | exceptions, flags => flags.ignoreExceptions
  | rawRules, flags => flags.ignoreRawRules
  | redirections, flags => flags.ignoreRedirections

/-- The provider without its patterns of a category. -/
def clear : Category → Ruleset Code → Ruleset Code
  | rules, ruleset => { ruleset with rules := [] }
  | referralMarketing, ruleset => { ruleset with referralMarketing := [] }
  | exceptions, ruleset => { ruleset with exceptions := [] }
  | rawRules, ruleset => { ruleset with rawRules := [] }
  | redirections, ruleset => { ruleset with redirections := [] }

end Category

section Ignored

variable {X : Category} {flags : Flags} {subject : Bytes}

/-- An ignored list of patterns leaves the field as it is. -/
theorem stripField_of_ignored {ignore : ℤ} (h : ignore ≠ 0) (items : List Code)
    (field : Option Bytes) : stripField pcre ignore items field = field := by
  cases field with
  | none => rfl
  | some destination => rw [stripField, if_neg h]

theorem stripRuleset_clear (h : X.flag flags ≠ 0) (uri : URI) (ruleset : Ruleset Code) :
    stripRuleset pcre flags uri (X.clear ruleset) = stripRuleset pcre flags uri ruleset := by
  cases X with
  | rules =>
    have hignore (items : List Code) (field : Option Bytes) :
        stripField pcre flags.ignoreRules items field = field := stripField_of_ignored h items field
    simp only [stripRuleset, Category.clear, hignore]
  | referralMarketing =>
    have hignore (items : List Code) (field : Option Bytes) :
        stripField pcre flags.ignoreReferralMarketing items field = field :=
      stripField_of_ignored h items field
    simp only [stripRuleset, Category.clear, hignore]
  | exceptions => rfl
  | rawRules =>
    have hignore (items : List Code) (field : Option Bytes) :
        stripField pcre flags.ignoreRawRules items field = field :=
      stripField_of_ignored h items field
    simp only [stripRuleset, Category.clear, hignore]
  | redirections => rfl

theorem active_clear_iff (h : X.flag flags ≠ 0) (ruleset : Ruleset Code) :
    Active pcre flags subject (X.clear ruleset) ↔ Active pcre flags subject ruleset := by
  cases X with
  | exceptions =>
    have hflag : ¬ flags.ignoreExceptions = 0 := h
    simp only [Active, Category.clear, hflag, false_imp_iff]
  | _ => rfl

theorem findRedirection_clear (h : X.flag flags ≠ 0) (ruleset : Ruleset Code) :
    (if flags.ignoreRedirections = 0 then findRedirection pcre (X.clear ruleset) subject
      else none) =
      if flags.ignoreRedirections = 0 then findRedirection pcre ruleset subject else none := by
  cases X with
  | redirections =>
    have hflag : ¬ flags.ignoreRedirections = 0 := h
    rw [if_neg hflag, if_neg hflag]
  | _ => rfl

/-- The loop over the providers does not see a category that is ignored. -/
theorem cleanRulesets_clear (h : X.flag flags ≠ 0) (items : List (Ruleset Code)) (uri : URI) :
    cleanRulesets pcre flags subject (items.map X.clear) uri =
      cleanRulesets pcre flags subject items uri := by
  induction items generalizing uri with
  | nil => rfl
  | cons ruleset items ih =>
    rw [List.map_cons]
    by_cases hactive : Active pcre flags subject ruleset
    · rw [cleanRulesets_cons_of_active ((active_clear_iff h ruleset).2 hactive),
        cleanRulesets_cons_of_active hactive, findRedirection_clear h, stripRuleset_clear h, ih]
    · have hclear : ¬ Active pcre flags subject (X.clear ruleset) := fun hclear =>
        hactive ((active_clear_iff h ruleset).1 hclear)
      rw [cleanRulesets_cons_of_not_active hclear, cleanRulesets_cons_of_not_active hactive, ih]

end Ignored

/-- **An ignored category has no effect**: two stores that are equal up to its patterns clean every
URL alike, in runs of any length. -/
theorem ignored_category (pcre : Pcre Code) (X : Category) {rulesets rulesets' : Rulesets Code}
    (hstores : rulesets.items.map X.clear = rulesets'.items.map X.clear) (sourceUrl : Option Bytes)
    {flags : Flags} (hignored : X.flag flags ≠ 0) (fuel : ℕ) :
    unalixCleanUrl pcre rulesets fuel sourceUrl flags =
      unalixCleanUrl pcre rulesets' fuel sourceUrl flags := by
  have hlength : rulesets.items.length = rulesets'.items.length := by
    simpa using congrArg List.length hstores
  apply unalixCleanUrl_congr
  · rw [Rulesets.offset, Rulesets.offset, hlength]
  · intro args hmet url _ uri
    have hflags : X.flag args.flags ≠ 0 := by
      rw [flags_of_met hmet]
      exact hignored
    rw [← cleanRulesets_clear hflags, hstores, cleanRulesets_clear hflags]

/-- A provider with a rule and a redirection. -/
def sampleRuleset : Ruleset Pattern where
  urlPattern := .literal (str "http")
  rules := [.literal (str "utm=1")]
  redirections := [.capture (str "url=")]

/-- The rules of the first store are ignored, so the second one may lack them. -/
theorem ignored_category_rules :
    unalixCleanUrl Pattern.pcre ⟨88, [sampleRuleset]⟩ 2 (some (str "http://a.com/?url=b.com"))
        { ignoreRules := 1 } =
      unalixCleanUrl Pattern.pcre ⟨88, [Category.rules.clear sampleRuleset]⟩ 2
        (some (str "http://a.com/?url=b.com")) { ignoreRules := 1 } :=
  ignored_category Pattern.pcre .rules rfl _ (by decide) 2

/-! ## Inactive providers -/

/-- A provider that has no part in cleaning a URL: its pattern does not match, or one of its
exceptions does and exceptions are not ignored. -/
def Inactive (pcre : Pcre Code) (flags : Flags) (subject : Bytes) (ruleset : Ruleset Code) : Prop :=
  regexMatch pcre ruleset.urlPattern subject = false ∨
    flags.ignoreExceptions = 0 ∧
      ∃ pattern ∈ ruleset.exceptions, regexMatch pcre pattern subject = true

theorem Inactive.not_active {flags : Flags} {subject : Bytes} {ruleset : Ruleset Code}
    (h : Inactive pcre flags subject ruleset) : ¬ Active pcre flags subject ruleset := by
  intro hactive
  rcases h with hurl | ⟨hflag, hexception⟩
  · rw [hactive.1] at hurl
    cases hurl
  · have hmatched : exceptionMatched pcre ruleset subject = true := List.any_eq_true.2 hexception
    rw [hactive.2 hflag] at hmatched
    cases hmatched

/-- The loop over the providers passes an inactive one over, wherever it stands. -/
theorem cleanRulesets_insert {flags : Flags} {subject : Bytes} {P : Ruleset Code}
    (h : ¬ Active pcre flags subject P) (before after : List (Ruleset Code)) (uri : URI) :
    cleanRulesets pcre flags subject (before ++ P :: after) uri =
      cleanRulesets pcre flags subject (before ++ after) uri := by
  induction before generalizing uri with
  | nil => exact cleanRulesets_cons_of_not_active h after uri
  | cons ruleset before ih =>
    rw [List.cons_append, List.cons_append]
    by_cases hactive : Active pcre flags subject ruleset
    · rw [cleanRulesets_cons_of_active hactive, cleanRulesets_cons_of_active hactive, ih]
    · rw [cleanRulesets_cons_of_not_active hactive, cleanRulesets_cons_of_not_active hactive, ih]

/-- **A provider that is inactive for every URL met has no effect**, wherever it is put into a
store that is not empty. -/
theorem inactive_provider (pcre : Pcre Code) (size size' : ℕ) (before after : List (Ruleset Code))
    (P : Ruleset Code) (hstore : before ++ after ≠ []) (sourceUrl : Option Bytes) (flags : Flags)
    (hinactive : ∀ args, Met (cleanStep pcre ⟨size, before ++ after⟩) ⟨sourceUrl, flags⟩ args →
      ∀ url, args.sourceUrl = some url → Inactive pcre flags url P) (fuel : ℕ) :
    unalixCleanUrl pcre ⟨size', before ++ P :: after⟩ fuel sourceUrl flags =
      unalixCleanUrl pcre ⟨size, before ++ after⟩ fuel sourceUrl flags := by
  symm
  apply unalixCleanUrl_congr
  · have hlength := List.length_pos_of_ne_nil hstore
    simp only [Rulesets.offset, List.length_append, List.length_cons] at hlength ⊢
    omega
  · intro args hmet url hurl uri
    have hactive : ¬ Active pcre args.flags url P := by
      rw [flags_of_met hmet]
      exact (hinactive args hmet url hurl).not_active
    exact (cleanRulesets_insert hactive before after uri).symm

/-- A provider for other URLs, put before one that redirects. -/
theorem inactive_provider_ftp :
    unalixCleanUrl Pattern.pcre ⟨176, [⟨.literal (str "ftp"), [], [], [], [], []⟩, sampleRuleset]⟩ 2
        (some (str "http://a.com/?url=b.com")) {} =
      unalixCleanUrl Pattern.pcre ⟨88, [sampleRuleset]⟩ 2
        (some (str "http://a.com/?url=b.com")) {} := by
  apply inactive_provider Pattern.pcre 88 176 [] [sampleRuleset]
  · exact List.cons_ne_nil _ _
  · intro args hmet url hurl
    have hfirst : cleanStep Pattern.pcre ⟨88, [sampleRuleset]⟩
        ⟨some (str "http://a.com/?url=b.com"), {}⟩ = .inl ⟨some (str "http://b.com"), {}⟩ := by
      decide +kernel
    have hsecond : cleanStep Pattern.pcre ⟨88, [sampleRuleset]⟩ ⟨some (str "http://b.com"), {}⟩ =
        .inr (.ok (str "http://b.com/")) := by
      decide +kernel
    left
    rcases hmet.of_inl hfirst with rfl | hmet
    · cases hurl
      decide +kernel
    · rw [hmet.of_inr hsecond] at hurl
      cases hurl
      decide +kernel

end Unalix
