import Unalix.CleanUrl.Clean
import Unalix.Uri.Returns

/-!
# Captures and targets of redirections

When a redirection matches, `unalix_clean_url` copies the text between the third and the fourth
offset of the match, and cleans that text in place of the URL. Two things are taken for granted.

* The offsets are those of the first group. A pattern without groups has no such offsets, and those
  of a group that took no part in the match are `PCRE2_UNSET`. So the copy is in bounds exactly when
  the pattern has a first group and the group took part (`redirection_inBounds_iff`).
* A target has no scheme when `uri_parse` says so, and it says so when there is no `://` at all in
  the target. A target without a scheme of its own that contains another URL is therefore left as
  it is (`redirection_scheme_iff`).
-/

namespace Unalix

open CString Ascii Outcome

variable {Code : Type}

/-! ## Captures -/

/-- The two offsets of a group, from the span it matched, if it took part. -/
def offsetPair (span : Option (ℕ × ℕ)) : List ℕ :=
  match span with
  | some (start, stop) => [start, stop]
  | none => [pcre2Unset, pcre2Unset]

/-- What PCRE2 promises of the offsets of a match. The pattern has `groups` groups, and `span` is
what the match is of the subject (group zero) and of each group. -/
structure Pcre.Documented (pcre : Pcre Code) (groups : Code → ℕ)
    (span : Code → Bytes → ℕ → Option (ℕ × ℕ)) : Prop where
  /-- There is a pair of offsets for the match and one for each group. -/
  offsets : ∀ pattern subject ovector, pcre.pcre2Match pattern subject = some ovector →
    ovector = (List.range (groups pattern + 1)).flatMap fun i => offsetPair (span pattern subject i)
  /-- A group that took part matched a part of the subject. -/
  inside : ∀ pattern subject i start stop, span pattern subject (i + 1) = some (start, stop) →
    start ≤ stop ∧ stop ≤ subject.length

/-- The third and the fourth offset exist and are a span of the subject. -/
def CaptureInBounds (subject : Bytes) (ovector : List ℕ) : Prop :=
  ∃ start stop, ovector[2]? = some start ∧ ovector[3]? = some stop ∧
    start ≤ stop ∧ stop ≤ subject.length

/-- The redirection that ends a call, with its offsets: the first one of an active provider that
matches. -/
def takenRedirection (pcre : Pcre Code) (flags : Flags) (subject : Bytes)
    (rulesets : List (Ruleset Code)) : Option (Code × List ℕ) :=
  if flags.ignoreRedirections = 0 then
    (rulesets.filter (Active pcre flags subject)).findSome? fun ruleset =>
      ruleset.redirections.findSome? fun redirection =>
        (pcre.pcre2Match redirection subject).map fun ovector => (redirection, ovector)
  else none

/-- In a call for the subject, the redirection that the loop over the providers ends with has its
capture in bounds. -/
def CapturesInBounds (pcre : Pcre Code) (flags : Flags) (subject : Bytes)
    (rulesets : Rulesets Code) : Prop :=
  ∀ uri ovector, cleanRulesets pcre flags subject rulesets.items uri = .inl ovector →
    CaptureInBounds subject ovector

theorem map_findSome? {α β γ : Type*} (f : α → Option β) (g : β → γ) (l : List α) :
    (l.findSome? f).map g = l.findSome? fun a => (f a).map g := by
  induction l with
  | nil => rfl
  | cons a l ih =>
    rw [List.findSome?_cons, List.findSome?_cons]
    cases f a with
    | none => exact ih
    | some b => rfl

/-- The offsets that the loop over the providers is left with are those of the redirection. -/
theorem firstRedirection_eq (pcre : Pcre Code) (flags : Flags) (subject : Bytes)
    (rulesets : List (Ruleset Code)) : firstRedirection pcre flags subject rulesets =
      (takenRedirection pcre flags subject rulesets).map Prod.snd := by
  unfold firstRedirection takenRedirection
  split_ifs
  · rw [map_findSome?]
    congr 1
    funext ruleset
    rw [map_findSome?, findRedirection]
    congr 1
    funext redirection
    cases pcre.pcre2Match redirection subject <;> rfl
  · rfl

/-- The redirection that is taken matches. -/
theorem match_of_takenRedirection {pcre : Pcre Code} {flags : Flags} {subject : Bytes}
    {rulesets : List (Ruleset Code)} {redirection : Code} {ovector : List ℕ}
    (h : takenRedirection pcre flags subject rulesets = some (redirection, ovector)) :
    pcre.pcre2Match redirection subject = some ovector := by
  unfold takenRedirection at h
  split_ifs at h
  obtain ⟨ruleset, -, hruleset⟩ := List.exists_of_findSome?_eq_some h
  obtain ⟨redirection', -, hmatch⟩ := List.exists_of_findSome?_eq_some hruleset
  obtain ⟨ovector', hmatch', heq⟩ := Option.map_eq_some_iff.1 hmatch
  obtain ⟨rfl, rfl⟩ := Prod.mk.inj heq
  exact hmatch'

/-- A capture in bounds is copied. -/
theorem CaptureInBounds.captureGroup {subject : Bytes} {ovector : List ℕ}
    (h : CaptureInBounds subject ovector) : ∃ start stop, ovector[2]? = some start ∧
      ovector[3]? = some stop ∧
      captureGroup subject ovector = .ok ((subject.drop start).take (stop - start)) := by
  obtain ⟨start, stop, hstart, hstop, hle, hlength⟩ := h
  refine ⟨start, stop, hstart, hstop, ?_⟩
  simp only [Unalix.captureGroup, hstart, hstop]
  split_ifs with heq
  · rw [heq, Nat.sub_self, List.take_zero]
  · omega
  · omega
  · rfl

/-- The third and the fourth offset of a match. -/
theorem captureInBounds_iff {pcre : Pcre Code} {groups : Code → ℕ}
    {span : Code → Bytes → ℕ → Option (ℕ × ℕ)} (hpcre : pcre.Documented groups span)
    {pattern : Code} {subject : Bytes} {ovector : List ℕ} (hsubject : subject.length < pcre2Unset)
    (hmatch : pcre.pcre2Match pattern subject = some ovector) :
    CaptureInBounds subject ovector ↔
      0 < groups pattern ∧ span pattern subject 1 ≠ none := by
  have hovector := hpcre.offsets _ _ _ hmatch
  have hlength (s : Option (ℕ × ℕ)) : (offsetPair s).length = 2 := by
    rcases s with _ | ⟨start, stop⟩ <;> rfl
  rcases hgroups : groups pattern with _ | n
  · -- one pair only
    refine iff_of_false ?_ (by omega)
    rintro ⟨start, stop, hstart, -⟩
    rw [hovector, hgroups, List.getElem?_eq_none (by simp [hlength])] at hstart
    cases hstart
  · have hcons : ovector = offsetPair (span pattern subject 0) ++
        (offsetPair (span pattern subject 1) ++
          (List.range n).flatMap fun i => offsetPair (span pattern subject (i + 2))) := by
      rw [hovector, hgroups, List.range_succ_eq_map, List.range_succ_eq_map]
      simp [List.flatMap_map]
    have hget (k : ℕ) : ovector[2 + k]? = (offsetPair (span pattern subject 1) ++
        (List.range n).flatMap fun i => offsetPair (span pattern subject (i + 2)))[k]? := by
      rw [hcons, List.getElem?_append_right (by rw [hlength]; omega), hlength]
      congr 1
      omega
    have hstart := hget 0
    have hstop := hget 1
    rcases hspan : span pattern subject 1 with _ | ⟨a, b⟩
    · refine iff_of_false ?_ (by simp)
      rintro ⟨start, stop, -, hstop', -, hle⟩
      rw [hspan, hstop'] at hstop
      simp only [offsetPair, List.cons_append, List.getElem?_cons_succ, List.getElem?_cons_zero,
        Option.some.injEq] at hstop
      omega
    · refine iff_of_true ⟨a, b, ?_, ?_, hpcre.inside _ _ 0 a b hspan⟩ ⟨by omega, by simp⟩
      · rw [hspan] at hstart
        exact hstart
      · rw [hspan] at hstop
        exact hstop

/-- The loop over the providers ends with the redirection that is taken. -/
theorem cleanRulesets_eq_inl_iff {pcre : Pcre Code} {flags : Flags} {subject : Bytes}
    {rulesets : List (Ruleset Code)} {uri : URI} {ovector : List ℕ} :
    cleanRulesets pcre flags subject rulesets uri = .inl ovector ↔
      ∃ redirection, takenRedirection pcre flags subject rulesets = some (redirection, ovector) := by
  rw [cleanRulesets_eq, firstRedirection_eq]
  cases takenRedirection pcre flags subject rulesets with
  | none => simp
  | some taken =>
    obtain ⟨redirection, ovector'⟩ := taken
    simp

/-- **The copy of a capture is in bounds** if and only if the redirection that is taken has a first
group, and the group took part in the match. The string is shorter than `PCRE2_UNSET`, as every
string is. -/
theorem redirection_inBounds_iff {pcre : Pcre Code} {groups : Code → ℕ}
    {span : Code → Bytes → ℕ → Option (ℕ × ℕ)} (hpcre : pcre.Documented groups span)
    (flags : Flags) {subject : Bytes} (hsubject : subject.length < pcre2Unset)
    (rulesets : Rulesets Code) :
    CapturesInBounds pcre flags subject rulesets ↔
      ∀ redirection ovector,
        takenRedirection pcre flags subject rulesets.items = some (redirection, ovector) →
        0 < groups redirection ∧ span redirection subject 1 ≠ none := by
  simp only [CapturesInBounds, cleanRulesets_eq_inl_iff]
  constructor
  · intro h redirection ovector htaken
    exact (captureInBounds_iff hpcre hsubject (match_of_takenRedirection htaken)).1
      (h {} ovector ⟨redirection, htaken⟩)
  · rintro h uri ovector ⟨redirection, htaken⟩
    exact (captureInBounds_iff hpcre hsubject (match_of_takenRedirection htaken)).2
      (h redirection ovector htaken)

/-- The groups of the two kinds of patterns. -/
def Pattern.groups : Pattern → ℕ
  | literal _ => 0
  | capture _ => 1

/-- What the search for a text matches: the text, with what follows it on the line as its group. -/
def Pattern.span (pattern : Pattern) (subject : Bytes) (i : ℕ) : Option (ℕ × ℕ) :=
  match pattern, i with
  | literal text, 0 => (strstr subject text).map fun rest =>
    let start := subject.length - rest.length
    (start, start + text.length)
  | capture text, 0 => (strstr subject text).map fun rest =>
    let start := subject.length - rest.length
    (start, start + text.length + (line (rest.drop text.length)).length)
  | capture text, 1 => (strstr subject text).map fun rest =>
    let group := subject.length - rest.length + text.length
    (group, group + (line (rest.drop text.length)).length)
  | _, _ => none

theorem Pattern.pcre_documented : Pattern.pcre.Documented Pattern.groups Pattern.span := by
  refine ⟨fun pattern subject ovector h => ?_, fun pattern subject i start stop h => ?_⟩
  · cases pattern with
    | literal text =>
      obtain ⟨rest, hrest, rfl⟩ := Option.map_eq_some_iff.1 h
      simp [groups, span, hrest, offsetPair]
    | capture text =>
      obtain ⟨rest, hrest, rfl⟩ := Option.map_eq_some_iff.1 h
      simp [groups, span, hrest, offsetPair, List.range_succ]
  · cases pattern with
    | literal text => cases h
    | capture text =>
      cases i with
      | zero =>
        obtain ⟨rest, hrest, heq⟩ := Option.map_eq_some_iff.1 h
        obtain ⟨rfl, rfl⟩ := Prod.mk.inj heq
        have hlength := length_le_of_strstr hrest
        have hline : (line (rest.drop text.length)).length ≤ (rest.drop text.length).length :=
          (List.takeWhile_sublist _).length_le
        rw [List.length_drop] at hline
        omega
      | succ i => cases h

/-- The rules of a provider with one redirection. -/
def redirectionTree (redirection : Bytes) : Json :=
  .object [(providersKey, .object [(str "provider", .object
    [(urlPatternKey, .string (str "example")),
      (redirectionsKey, .array [.string redirection])])])]

/-- The store that they are loaded to. -/
def redirectionStore (redirection : Pattern) : Rulesets Pattern :=
  ⟨88, [⟨.literal (str "example"), [], [], [], [], [redirection]⟩]⟩

/-- A redirection whose pattern has a group that is no option. -/
theorem redirection_inBounds_capture :
    CapturesInBounds Pattern.pcre {} (str "http://example.com/?u=a.org")
        (redirectionStore (.capture (str "u="))) ↔
      ∀ redirection ovector,
        takenRedirection Pattern.pcre {} (str "http://example.com/?u=a.org")
          (redirectionStore (.capture (str "u="))).items = some (redirection, ovector) →
        0 < redirection.groups ∧
          redirection.span (str "http://example.com/?u=a.org") 1 ≠ none :=
  redirection_inBounds_iff Pattern.pcre_documented {} (by decide) _

/-- A redirection without a group is loaded, and the copy reads past its offsets. -/
theorem not_inBounds_noGroup :
    loadRuleset Pattern.compile (redirectionTree (str "u=")) {} =
        (.ok (), redirectionStore (.literal (str "u="))) ∧
      cleanRulesets Pattern.pcre {} (str "http://example.com/?u=a.org")
        (redirectionStore (.literal (str "u="))).items {} = .inl [20, 22] ∧
      captureGroup (str "http://example.com/?u=a.org") [20, 22] = .error (.fault .outOfBounds) ∧
      ¬ CapturesInBounds Pattern.pcre {} (str "http://example.com/?u=a.org")
        (redirectionStore (.literal (str "u="))) := by
  have hloop : cleanRulesets Pattern.pcre {} (str "http://example.com/?u=a.org")
      (redirectionStore (.literal (str "u="))).items {} = .inl [20, 22] := by decide +kernel
  refine ⟨by rfl, hloop, by rfl, fun h => ?_⟩
  obtain ⟨start, stop, hstart, -⟩ := h _ _ hloop
  cases hstart

/-! ## Targets without a scheme -/

/-- The text begins with a scheme and `://`. -/
def HasScheme (target : Bytes) : Prop :=
  ∃ scheme rest, SchemeOk scheme ∧ target = scheme ++ (schemeSeparator ++ rest)

/-- A call that a redirection ends, whose capture is decoded to the target. -/
def Redirects (pcre : Pcre Code) (rulesets : Rulesets Code) (args : CleanArgs)
    (target : Bytes) : Prop :=
  ∃ sourceUrl uri ovector url, args.sourceUrl = some sourceUrl ∧ sourceUrl ≠ [] ∧
    1 ≤ rulesets.offset ∧ uriParse {} sourceUrl = .ok uri ∧
    cleanRulesets pcre args.flags sourceUrl rulesets.items uri = .inl ovector ∧
    captureGroup sourceUrl ovector = .ok url ∧ target = cString (rfc3986UnquoteSafe url)

/-- The recursive call receives the target, with `http://` in front if it has no scheme. -/
def ReceivesScheme (pcre : Pcre Code) (rulesets : Rulesets Code) (args : CleanArgs)
    (target : Bytes) : Prop :=
  (HasScheme target →
    cleanStep pcre rulesets args = .inl { args with sourceUrl := some target }) ∧
  (¬ HasScheme target →
    cleanStep pcre rulesets args = .inl { args with sourceUrl := some (str "http://" ++ target) })

/-- What a redirection does with its target. -/
theorem Redirects.cleanStep {pcre : Pcre Code} {rulesets : Rulesets Code} {args : CleanArgs}
    {target url : Bytes} (h : Redirects pcre rulesets args target)
    (hurl : prependSchemeIfNeeded target = .ok url) :
    cleanStep pcre rulesets args = .inl { args with sourceUrl := some url } := by
  obtain ⟨sourceUrl, uri, ovector, captured, hsource, hne, hoffset, hparse, hloop, hcapture, rfl⟩ :=
    h
  obtain ⟨c, sourceUrl, rfl⟩ := List.exists_cons_of_ne_nil hne
  have hoffset' : ¬ rulesets.offset < 1 := by omega
  have hredirection : redirectionUrl (c :: sourceUrl) ovector = .ok url := by
    rw [redirectionUrl, hcapture, ok_bind, hurl]
  simp only [Unalix.cleanStep, hsource, hoffset', if_false, hparse, hloop, hredirection]

/-- Only a target without a `://` is taken to have no scheme. -/
theorem prependSchemeIfNeeded_eq (target : Bytes) : prependSchemeIfNeeded target =
    .ok (if schemeSeparator <:+: target then target else str "http://" ++ target) := by
  unfold prependSchemeIfNeeded
  by_cases h : schemeSeparator <:+: target
  · have hpast := uriParse_pastScheme fun hnone => strstr_eq_none_iff.1 hnone h
    rw [if_pos h]
    cases hparse : uriParse {} target with
    | ok uri => rfl
    | error e =>
      obtain ⟨c, rfl, hc⟩ := hpast e hparse
      cases c <;> first | rfl | exact absurd rfl hc
  · rw [if_neg h, uriParse_of_no_separator (strstr_eq_none_iff.2 h)]
    rfl

/-- A call returns when its redirection, if it takes one, captures in bounds. -/
theorem returns_of_cleanStep {pcre : Pcre Code} {rulesets : Rulesets Code} {args : CleanArgs}
    {result : Outcome Bytes} (hcaptures : ∀ sourceUrl, args.sourceUrl = some sourceUrl →
      CapturesInBounds pcre args.flags sourceUrl rulesets)
    (h : cleanStep pcre rulesets args = .inr result) : Returns result := by
  obtain ⟨_ | _ | ⟨c, source⟩, flags⟩ := args
  · cases h
    exact returns_fail _
  · cases h
    exact returns_fail _
  · rw [cleanStep] at h
    simp only at h
    split_ifs at h
    · cases h
      exact returns_fail _
    · have hparse := returns_uriParse (c :: source)
      cases huri : uriParse {} (c :: source) with
      | error e =>
        rw [huri] at h hparse
        cases h
        exact fun f hf => hparse f (congrArg Except.error (Except.error.inj hf))
      | ok uri =>
        rw [huri] at h
        simp only at h
        cases hloop : cleanRulesets pcre flags (c :: source) rulesets.items uri with
        | inl ovector =>
          obtain ⟨_, _, -, -, hgroup⟩ := (hcaptures _ rfl uri ovector hloop).captureGroup
          have hurl : ∃ url, redirectionUrl (c :: source) ovector = .ok url := by
            rw [redirectionUrl, hgroup, ok_bind, prependSchemeIfNeeded_eq]
            exact ⟨_, rfl⟩
          obtain ⟨url, hurl⟩ := hurl
          rw [hloop] at h
          simp only [hurl] at h
          cases h
        | inr uri' =>
          rw [hloop] at h
          cases h
          exact returns_ok _

/-- In a chain of calls every redirection that is taken captures in bounds. -/
def CapturesAlong (pcre : Pcre Code) (rulesets : Rulesets Code) (args : CleanArgs) : Prop :=
  ∀ args' sourceUrl, Chains.Met (cleanStep pcre rulesets) args args' →
    args'.sourceUrl = some sourceUrl → CapturesInBounds pcre args'.flags sourceUrl rulesets

/-- Then the chain returns. -/
theorem CapturesAlong.returns {pcre : Pcre Code} {rulesets : Rulesets Code}
    {sourceUrl : Option Bytes} {flags : Flags} {fuel : ℕ} {result : Outcome Bytes}
    (hcaptures : CapturesAlong pcre rulesets ⟨sourceUrl, flags⟩)
    (h : unalixCleanUrl pcre rulesets fuel sourceUrl flags = some result) : Returns result := by
  obtain ⟨args', hmet, hlast⟩ := Chains.exists_met_of_follow h
  exact returns_of_cleanStep (fun _ => hcaptures args' _ hmet) hlast

/-- **A target gets a scheme when it has none** if and only if it has one or contains no `://`. -/
theorem redirection_scheme_iff {pcre : Pcre Code} {rulesets : Rulesets Code} {args : CleanArgs}
    {target : Bytes} (h : Redirects pcre rulesets args target) :
    ReceivesScheme pcre rulesets args target ↔ (schemeSeparator <:+: target → HasScheme target) := by
  have hstep := h.cleanStep (prependSchemeIfNeeded_eq target)
  constructor
  · rintro ⟨-, hnone⟩ hinfix
    by_contra hscheme
    rw [if_pos hinfix] at hstep
    have heq := hstep.symm.trans (hnone hscheme)
    simp only [Sum.inl.injEq, CleanArgs.mk.injEq, Option.some.injEq, and_true] at heq
    have hlength := congrArg List.length heq
    rw [List.length_append] at hlength
    have hprefix : (str "http://").length = 7 := rfl
    omega
  · intro hcond
    refine ⟨fun hscheme => ?_, fun hscheme => ?_⟩
    · obtain ⟨scheme, rest, -, rfl⟩ := hscheme
      have hinfix : schemeSeparator <:+: scheme ++ (schemeSeparator ++ rest) :=
        ⟨scheme, rest, by simp⟩
      rwa [if_pos hinfix] at hstep
    · rwa [if_neg fun hinfix => hscheme (hcond hinfix)] at hstep

theorem redirects_nested : Redirects Pattern.pcre (redirectionStore (.capture (str "u=")))
    ⟨some (str "http://example.com/?u=a.org/?v=http://b.org"), {}⟩ (str "a.org/?v=http://b.org") :=
  ⟨str "http://example.com/?u=a.org/?v=http://b.org",
    { scheme := some (str "http"), hostname := some (str "example.com"),
      query := some (str "u=a.org/?v=http://b.org") }, [20, 43, 22, 43],
    str "a.org/?v=http://b.org", rfl, by decide, by decide, by decide +kernel, by decide +kernel,
    by decide +kernel, by decide +kernel⟩

/-- A target with a URL in its query. -/
theorem redirection_scheme_nested :
    ReceivesScheme Pattern.pcre (redirectionStore (.capture (str "u=")))
        ⟨some (str "http://example.com/?u=a.org/?v=http://b.org"), {}⟩
        (str "a.org/?v=http://b.org") ↔
      (schemeSeparator <:+: str "a.org/?v=http://b.org" →
        HasScheme (str "a.org/?v=http://b.org")) :=
  redirection_scheme_iff redirects_nested

/-- Such a target is passed on without a scheme. -/
theorem not_receivesScheme_nested :
    cleanStep Pattern.pcre (redirectionStore (.capture (str "u=")))
        ⟨some (str "http://example.com/?u=a.org/?v=http://b.org"), {}⟩ =
      .inl ⟨some (str "a.org/?v=http://b.org"), {}⟩ ∧
    ¬ HasScheme (str "a.org/?v=http://b.org") ∧
    ¬ ReceivesScheme Pattern.pcre (redirectionStore (.capture (str "u=")))
        ⟨some (str "http://example.com/?u=a.org/?v=http://b.org"), {}⟩
        (str "a.org/?v=http://b.org") := by
  have hinfix : schemeSeparator <:+: str "a.org/?v=http://b.org" :=
    ⟨str "a.org/?v=http", str "b.org", by decide⟩
  have hstep := redirects_nested.cleanStep (prependSchemeIfNeeded_eq _)
  rw [if_pos hinfix] at hstep
  have hscheme : ¬ HasScheme (str "a.org/?v=http://b.org") := by
    rintro ⟨scheme, rest, hscheme, heq⟩
    have hparse := parseScheme_cut (r := rest) hscheme
    rw [← heq] at hparse
    have hfails : (parseScheme (str "a.org/?v=http://b.org")).toOption = none := by decide +kernel
    rw [hparse] at hfails
    cases hfails
  refine ⟨hstep, hscheme, fun h => ?_⟩
  have heq := hstep.symm.trans (h.2 hscheme)
  revert heq
  decide +kernel

end Unalix
