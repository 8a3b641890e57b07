import Unalix.Foundations.Chains
import Unalix.CleanUrl.Regex
import Unalix.Ruleset.Load
import Unalix.Query

/-!
# Cleaning a URL (`clean_url.c`)

`unalix_clean_url` goes over the providers whose pattern matches the URL. The first redirection
that matches ends the call: the text of its first group is decoded, gets a scheme if it has none,
and is cleaned in place of the URL. Otherwise each provider strips query, fragment and path in
place, and the query that is left is written again parameter by parameter.

A call is a chain of steps (`cleanStep`), one for each URL that replaces the one before. What one
step does is `cleanRulesets_eq`: it depends on the providers that are active for the URL, on the
first redirection among them that matches, and else on what they strip.
-/

namespace Unalix

open Ascii CString

/-! ## Embedded URLs -/

def percent : UInt8 := '%'.toUInt8

def uriSafeSymbols : Bytes := str "!#$%&'()*+,-./:;=?@[]_~"

/-- `from_hex`. -/
def fromHex (ch : UInt8) : UInt8 :=
  if ch ≤ 57 && 48 ≤ ch then ch - 48
  else if ch ≤ 102 && 97 ≤ ch then ch - (97 - 10)
  else if ch ≤ 70 && 65 ≤ ch then ch - (65 - 10)
  else 0

/-- `rfc3986_unquote_safe`: the bytes written before the terminator. The test for a safe symbol is
about the percent sign itself. -/
def rfc3986UnquoteSafe : Bytes → Bytes
  | ch :: ch1 :: ch2 :: src =>
    if ch = percent then
      if isalnum ch || ch ∈ uriSafeSymbols then
        (fromHex ch1 <<< 4 ||| fromHex ch2) :: rfc3986UnquoteSafe src
      else ch :: rfc3986UnquoteSafe (ch1 :: ch2 :: src)
    else ch :: rfc3986UnquoteSafe (ch1 :: ch2 :: src)
  | src => src

/-- `prepend_scheme_if_needed`. -/
def prependSchemeIfNeeded (src : Bytes) : Outcome Bytes :=
  match uriParse {} src with
  | .error (.code .uriSchemeMissing) => .ok (httpScheme ++ schemeSeparator ++ src)
  | .error (.fault f) => .error (.fault f)
  | _ => .ok src

/-- The text between the third and the fourth offset, that is of the first group. The offsets of a
group that took no part in the match are equal. -/
def captureGroup (subject : Bytes) (ovector : List ℕ) : Outcome Bytes :=
  match ovector[2]?, ovector[3]? with
  | some start, some stop =>
    if stop = start then .ok []
    else if stop < start then .error (.fault .negativeSize)
    else if subject.length < stop then .error (.fault .outOfBounds)
    else .ok ((subject.drop start).take (stop - start))
  | _, _ => .error (.fault .outOfBounds)

/-- The URL that a match of a redirection leads to. -/
def redirectionUrl (subject : Bytes) (ovector : List ℕ) : Outcome Bytes := do
  let url ← captureGroup subject ovector
  prependSchemeIfNeeded (cString (rfc3986UnquoteSafe url))

/-! ## The loop over the providers -/

/-- The flags of `unalix_clean_url`, in the order of its parameters. -/
structure Flags where
  ignoreReferralMarketing : ℤ := 0
  ignoreRules : ℤ := 0
  ignoreExceptions : ℤ := 0
  ignoreRawRules : ℤ := 0
  ignoreRedirections : ℤ := 0
  stripEmpty : ℤ := 0
  stripDuplicates : ℤ := 0
  deriving DecidableEq, Repr

section Pcre

variable {Code : Type} (pcre : Pcre Code)

/-- The loop over a list of patterns that are stripped, up to the null pointer. -/
def stripItems : List Code → Bytes → Option Bytes
  | [], destination => some destination
  | pattern :: items, destination =>
    match regexStrip pcre pattern destination with
    | none => none
    | some destination => stripItems items destination

/-- A list of patterns is applied to a field that is not null, unless its flag is set. -/
def stripField (ignore : ℤ) (items : List Code) (field : Option Bytes) : Option Bytes :=
  match field with
  | none => none
  | some destination => if ignore = 0 then stripItems pcre items destination else some destination

/-- What a provider strips: the query, the fragment and the path. -/
def stripRuleset (flags : Flags) (uri : URI) (ruleset : Ruleset Code) : URI :=
  let query := stripField pcre flags.ignoreRules ruleset.rules uri.query
  let query := stripField pcre flags.ignoreReferralMarketing ruleset.referralMarketing query
  let fragment := stripField pcre flags.ignoreRules ruleset.rules uri.fragment
  let fragment := stripField pcre flags.ignoreReferralMarketing ruleset.referralMarketing fragment
  let path := stripField pcre flags.ignoreRawRules ruleset.rawRules uri.path
  { uri with query := query, fragment := fragment, path := path }

/-- The loop over the exceptions of a provider. -/
def exceptionMatched (ruleset : Ruleset Code) (subject : Bytes) : Bool :=
  ruleset.exceptions.any fun pattern => regexMatch pcre pattern subject

/-- The loop over the redirections of a provider: the offsets of the first one that matches. -/
def findRedirection (ruleset : Ruleset Code) (subject : Bytes) : Option (List ℕ) :=
  ruleset.redirections.findSome? fun redirection => pcre.pcre2Match redirection subject

/-- The loop over the providers: it is left with the offsets of a redirection, or ends with the
URI that is left. -/
def cleanRulesets (flags : Flags) (subject : Bytes) : List (Ruleset Code) → URI → List ℕ ⊕ URI
  | [], uri => .inr uri
  | ruleset :: rulesets, uri =>
    if regexMatch pcre ruleset.urlPattern subject then
      if flags.ignoreExceptions = 0 && exceptionMatched pcre ruleset subject then
        cleanRulesets flags subject rulesets uri
      else match (if flags.ignoreRedirections = 0 then findRedirection pcre ruleset subject
          else none) with
        | some ovector => .inl ovector
        | none => cleanRulesets flags subject rulesets (stripRuleset pcre flags uri ruleset)
    else cleanRulesets flags subject rulesets uri

end Pcre

/-! ## The query is written again -/

/-- The comparison of two keys. -/
def sameKey (parameter other : Parameter) : Bool :=
  match parameter.key, other.key with
  | none, none => true
  | some key, some otherKey => key = otherKey
  | _, _ => false

/-- The body of the loop over the parameters: the text so far, and the parameters in it when
duplicates are stripped. -/
def rebuildParameter (flags : Flags) (state : Bytes × List Parameter) (parameter : Parameter) :
    Bytes × List Parameter :=
  if flags.stripEmpty ≠ 0 && (parameter.key.isNone || parameter.value.isNone) then state
  else if flags.stripDuplicates ≠ 0 then
    if state.2.any (sameKey parameter) then state
    else (appendParameter state.1 parameter, state.2 ++ [parameter])
  else (appendParameter state.1 parameter, state.2)

/-- The query that is written, null when it is empty. -/
def rebuildQuery (flags : Flags) (query : Option Bytes) : Option Bytes :=
  match query with
  | none => none
  | some query => nonempty ((queryParse query).foldl (rebuildParameter flags) ([], [])).1

/-! ## `unalix_clean_url` -/

/-- The arguments of `unalix_clean_url` other than the place for the result. -/
structure CleanArgs where
  sourceUrl : Option Bytes
  flags : Flags
  deriving DecidableEq, Repr

section Clean

variable {Code : Type} (pcre : Pcre Code) (rulesets : Rulesets Code)

/-- The body of `unalix_clean_url` up to its recursive call: the arguments of that call, or what
the function returns with the target URL. -/
def cleanStep (args : CleanArgs) : CleanArgs ⊕ Outcome Bytes :=
  match args.sourceUrl with
  | none => .inr (fail .argInvalid)
  | some [] => .inr (fail .argInvalid)
  | some sourceUrl =>
    if rulesets.offset < 1 then .inr (fail .rulesetsEmpty)
    else match uriParse {} sourceUrl with
      | .error e => .inr (.error e)
      | .ok uri =>
        match cleanRulesets pcre args.flags sourceUrl rulesets.items uri with
        | .inl ovector =>
          match redirectionUrl sourceUrl ovector with
          | .error e => .inr (.error e)
          | .ok url => .inl
            { sourceUrl := some url
              flags := ⟨args.flags.ignoreReferralMarketing, args.flags.ignoreRules,
                args.flags.ignoreExceptions, args.flags.ignoreRawRules,
                args.flags.ignoreRedirections, args.flags.stripEmpty,
                args.flags.stripDuplicates⟩ }
        | .inr uri =>
          .inr (.ok (uriStringify { uri with query := rebuildQuery args.flags uri.query }))

/-- `unalix_clean_url`, in a run of at most `fuel` calls. -/
def unalixCleanUrl (fuel : ℕ) (sourceUrl : Option Bytes) (flags : Flags) :
    Option (Outcome Bytes) :=
  Chains.follow (cleanStep pcre rulesets) fuel ⟨sourceUrl, flags⟩

end Clean

/-! ## What one call does -/

section Spec

variable {Code : Type} (pcre : Pcre Code)

/-- The provider takes part in cleaning the URL: its pattern matches, and none of its exceptions
keeps it out. -/
def Active (flags : Flags) (subject : Bytes) (ruleset : Ruleset Code) : Prop :=
  regexMatch pcre ruleset.urlPattern subject = true ∧
    (flags.ignoreExceptions = 0 → exceptionMatched pcre ruleset subject = false)

instance (flags : Flags) (subject : Bytes) (ruleset : Ruleset Code) :
    Decidable (Active pcre flags subject ruleset) :=
  inferInstanceAs (Decidable (_ ∧ _))

/-- The first redirection that matches, among the active providers. -/
def firstRedirection (flags : Flags) (subject : Bytes) (rulesets : List (Ruleset Code)) :
    Option (List ℕ) :=
  if flags.ignoreRedirections = 0 then
    (rulesets.filter (Active pcre flags subject)).findSome? fun ruleset =>
      findRedirection pcre ruleset subject
  else none

/-- The URI that is left when every active provider has stripped it. -/
def strippedUri (flags : Flags) (subject : Bytes) (rulesets : List (Ruleset Code)) (uri : URI) :
    URI :=
  (rulesets.filter (Active pcre flags subject)).foldl (stripRuleset pcre flags) uri

variable {pcre} {flags : Flags} {subject : Bytes}

theorem cleanRulesets_cons_of_not_active {ruleset : Ruleset Code}
    (h : ¬ Active pcre flags subject ruleset) (rulesets : List (Ruleset Code)) (uri : URI) :
    cleanRulesets pcre flags subject (ruleset :: rulesets) uri =
      cleanRulesets pcre flags subject rulesets uri := by
  rw [cleanRulesets]
  by_cases hurl : regexMatch pcre ruleset.urlPattern subject = true
  · have hexception : (flags.ignoreExceptions = 0 && exceptionMatched pcre ruleset subject) =
        true := by
      simp only [Active, not_and, not_forall, Bool.not_eq_false] at h
      obtain ⟨hflag, hmatched⟩ := h hurl
      simp [hflag, hmatched]
    rw [if_pos hurl, if_pos hexception]
  · rw [if_neg hurl]

theorem cleanRulesets_cons_of_active {ruleset : Ruleset Code}
    (h : Active pcre flags subject ruleset) (rulesets : List (Ruleset Code)) (uri : URI) :
    cleanRulesets pcre flags subject (ruleset :: rulesets) uri =
      match (if flags.ignoreRedirections = 0 then findRedirection pcre ruleset subject
        else none) with
      | some ovector => .inl ovector
      | none => cleanRulesets pcre flags subject rulesets (stripRuleset pcre flags uri ruleset) := by
  have hexception : ¬ (flags.ignoreExceptions = 0 && exceptionMatched pcre ruleset subject) =
      true := by
    intro hmatched
    simp only [Bool.and_eq_true, decide_eq_true_eq] at hmatched
    rw [h.2 hmatched.1] at hmatched
    simp at hmatched
  rw [cleanRulesets, if_pos h.1, if_neg hexception]

/-- **What the loop over the providers does**: it is left by the first redirection of an active
provider that matches, and otherwise every active provider strips the URI. -/
theorem cleanRulesets_eq (rulesets : List (Ruleset Code)) (uri : URI) :
    cleanRulesets pcre flags subject rulesets uri =
      match firstRedirection pcre flags subject rulesets with
      | some ovector => .inl ovector
      | none => .inr (strippedUri pcre flags subject rulesets uri) := by
  induction rulesets generalizing uri with
  | nil => simp [cleanRulesets, firstRedirection, strippedUri]
  | cons ruleset rulesets ih =>
    by_cases h : Active pcre flags subject ruleset
    · rw [cleanRulesets_cons_of_active h, firstRedirection, strippedUri,
        List.filter_cons_of_pos (by simpa using h), List.findSome?_cons, List.foldl_cons]
      by_cases hflag : flags.ignoreRedirections = 0
      · rw [if_pos hflag, if_pos hflag]
        cases findRedirection pcre ruleset subject with
        | some ovector => rfl
        | none =>
          rw [ih, firstRedirection, if_pos hflag]
          rfl
      · rw [if_neg hflag, if_neg hflag, ih, firstRedirection, if_neg hflag]
        rfl
    · rw [cleanRulesets_cons_of_not_active h, ih, firstRedirection, firstRedirection, strippedUri,
        strippedUri, List.filter_cons_of_neg (by simpa using h)]

end Spec

end Unalix
