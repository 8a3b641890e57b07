import Unalix.OnHeap.ParseUri
import Unalix.OnHeap.RebuildQuery
import Unalix.CleanUrl.KeyRules
import Unalix.CleanUrl.Redirections

/-!
# Cleaning a URL in memory (`clean_url.c`)

A call of `unalix_clean_url` owns a URI, and the data of the match while the call for a redirection
is running, so that a chain of redirections has as many of them in memory as it is long. Whichever
way a call returns, with the target or with an error code, it has freed what it owned: after any
chain there is one block more than before, the text of the target, or none, and no byte outside of a
block was accessed (`unalixCleanUrl_memory`).

The store of the rules is only read; it is not part of the heap here.
-/

namespace Unalix.OnHeap

open Calls Heaps CString Ascii

/-! ## Matching and stripping -/

section Pcre

variable {Code : Type} (pcre : Pcre Code)

/-- `pcre2_match_data_create_from_pattern`. -/
def createMatchData : HeapCall ℕ := alloc .matchData

/-- `regex_match`. -/
def regexMatch (pattern : Code) (subject : Bytes) : HeapCall Bool := do
  let matchData ← createMatchData
  let code := pcre.pcre2Match pattern subject
  free invalid matchData
  return code.isSome

/-- The matches are taken out: the pointer that is left. What does not get shorter stays as it was,
and what gets shorter is written in place. -/
def stripMatches (pattern : Code) (destination : ℕ) (subject : Bytes) : HeapCall (Option ℕ) :=
  match pcre2Substitute pcre pattern subject subject.length with
  | none => pure (some destination)
  | some output =>
    if output.length < 1 then do
      free invalid destination
      return none
    else do
      writeString destination output
      return some destination

/-- `regex_strip`. -/
def regexStrip (pattern : Code) (destination : ℕ) : HeapCall (Option ℕ) := do
  let subject ← readString destination
  let matched ← regexMatch pcre pattern subject
  if matched then stripMatches pcre pattern destination subject else return some destination

/-- The loop over a list of patterns that are stripped, up to the null pointer. -/
def stripItems : List Code → ℕ → HeapCall (Option ℕ)
  | [], destination => pure (some destination)
  | pattern :: items, destination => do
    match ← regexStrip pcre pattern destination with
    | none => return none
    | some destination => stripItems items destination

/-- A list of patterns is applied to a field that is not null, unless its flag is set. -/
def stripField (ignore : ℤ) (items : List Code) (field : Option ℕ) : HeapCall (Option ℕ) :=
  match field with
  | none => pure none
  | some destination => if ignore = 0 then stripItems pcre items destination
    else pure (some destination)

/-- What a provider strips: the query, the fragment and the path. -/
def stripRuleset (flags : Flags) (uri : URI) (ruleset : Ruleset Code) : HeapCall URI := do
  let query ← stripField pcre flags.ignoreRules ruleset.rules uri.query
  let query ← stripField pcre flags.ignoreReferralMarketing ruleset.referralMarketing query
  let fragment ← stripField pcre flags.ignoreRules ruleset.rules uri.fragment
  let fragment ← stripField pcre flags.ignoreReferralMarketing ruleset.referralMarketing fragment
  let path ← stripField pcre flags.ignoreRawRules ruleset.rawRules uri.path
  return { uri with query := query, fragment := fragment, path := path }

/-- The loop over the exceptions of a provider, up to the first one that matches. -/
def exceptionMatched (subject : Bytes) : List Code → HeapCall Bool
  | [] => pure false
  | pattern :: exceptions => do
    let matched ← regexMatch pcre pattern subject
    if matched then pure true else exceptionMatched subject exceptions

/-- The loop over the redirections of a provider: the offsets of the first one that matches, with
the data of the match, which are kept. -/
def findRedirection (subject : Bytes) : List Code → HeapCall (Option (List ℕ × ℕ))
  | [] => pure none
  | redirection :: redirections => do
    let matchData ← createMatchData
    match pcre.pcre2Match redirection subject with
    | some ovector => return some (ovector, matchData)
    | none => do
      free invalid matchData
      findRedirection subject redirections

/-- The loop over the providers: it is left with the offsets of a redirection and the data of its
match, or ends; in both cases with the URI that is left. -/
def cleanRulesets (flags : Flags) (subject : Bytes) :
    List (Ruleset Code) → URI → HeapCall (Option (List ℕ × ℕ) × URI)
  | [], uri => pure (none, uri)
  | ruleset :: rulesets, uri => do
    let matched ← regexMatch pcre ruleset.urlPattern subject
    if matched then do
      let exception ← (if flags.ignoreExceptions = 0 then
        exceptionMatched pcre subject ruleset.exceptions else pure false)
      if exception then cleanRulesets flags subject rulesets uri
      else do
        match ← (if flags.ignoreRedirections = 0 then
          findRedirection pcre subject ruleset.redirections else pure none) with
        | some found => return (some found, uri)
        | none => do
          let uri ← stripRuleset pcre flags uri ruleset
          cleanRulesets flags subject rulesets uri
    else cleanRulesets flags subject rulesets uri

end Pcre

/-! ## `unalix_clean_url` -/

/-- `prepend_scheme_if_needed`: `uri_free` comes after every code. -/
def prependSchemeIfNeeded (src : Bytes) : HeapCall Bytes := fun h =>
  match uriParse {} src h with
  | .ok uri h => (uriFree uri >>= fun _ => pure src) h
  | .error (.code e) h => (uriFree {} >>= fun _ => pure
      (if e = .uriSchemeMissing then httpScheme ++ schemeSeparator ++ src else src)) h
  | .error (.fault f) h => .error (.fault f) h

/-- The URL that a match of a redirection leads to. -/
def redirectionUrl (subject : Bytes) (ovector : List ℕ) : HeapCall Bytes := do
  let url ← ofOutcome (captureGroup subject ovector)
  prependSchemeIfNeeded (cString (rfc3986UnquoteSafe url))

/-- What a call owns while the call for a redirection is running, and the arguments of that call. -/
structure Redirection where
  args : CleanArgs
  uri : URI
  matchData : ℕ

section Clean

variable {Code : Type} (pcre : Pcre Code) (rulesets : Rulesets Code)

/-- The body of `unalix_clean_url` up to its recursive call, or to its end. -/
def cleanStep (args : CleanArgs) : HeapCall (Redirection ⊕ ℕ) :=
  match args.sourceUrl with
  | none => throw (.code .argInvalid)
  | some [] => throw (.code .argInvalid)
  | some sourceUrl =>
    if rulesets.offset < 1 then throw (.code .rulesetsEmpty)
    else do
      let uri ← uriParse {} sourceUrl
      let (found, uri) ← cleanRulesets pcre args.flags sourceUrl rulesets.items uri
      match found with
      | some (ovector, matchData) => do
        let url ← redirectionUrl sourceUrl ovector
        let flags : Flags := ⟨args.flags.ignoreReferralMarketing, args.flags.ignoreRules,
          args.flags.ignoreExceptions, args.flags.ignoreRawRules, args.flags.ignoreRedirections,
          args.flags.stripEmpty, args.flags.stripDuplicates⟩
        return .inl { args := { sourceUrl := some url, flags := flags }, uri := uri,
                      matchData := matchData }
      | none => do
        let uri ← rebuildQuery args.flags uri
        let targetUrl ← uriStringify uri
        uriFree uri
        return .inr targetUrl

/-- What is done after the recursive call, before its code is returned. -/
def cleanEnd (redirection : Redirection) : HeapCall Unit := do
  uriFree redirection.uri
  free invalid redirection.matchData

/-- `unalix_clean_url`, in a run of at most `fuel` calls. -/
def unalixCleanUrl : ℕ → CleanArgs → Heap Block → Option (EStateM.Result Failure (Heap Block) ℕ)
  | 0, _, _ => none
  | fuel + 1, args, h =>
    match cleanStep pcre rulesets args h with
    | .error e h => some (.error e h)
    | .ok (.inr targetUrl) h => some (.ok targetUrl h)
    | .ok (.inl redirection) h =>
      match unalixCleanUrl fuel redirection.args h with
      | none => none
      | some (.ok targetUrl h) => some ((cleanEnd redirection >>= fun _ => pure targetUrl) h)
      | some (.error (.code e) h) => some ((cleanEnd redirection >>= fun _ => throw (.code e)) h)
      | some (.error (.fault f) h) => some (.error (.fault f) h)

end Clean

/-! ## What matching and stripping leave -/

section Strip

variable {Code : Type} {pcre : Pcre Code} {k : ℕ} {h : Heap Block}
  {rest : Multiset (ℕ × Block)}

theorem exists_regexMatch (hh : Holds k h rest) (pattern : Code) (subject : Bytes) :
    ∃ h', regexMatch pcre pattern subject h =
        .ok (Unalix.regexMatch pcre pattern subject) h' ∧ Holds k h' rest := by
  obtain ⟨a, h₁, halloc, hh⟩ := hh.alloc (ε := Failure) .matchData
  obtain ⟨h', hfree, hh⟩ := hh.free invalid
  exact ⟨h', (run_bind_of_ok halloc _).trans (run_bind_of_ok hfree _), hh⟩

theorem exists_stripMatches {a : ℕ} {s : Text} (hh : Holds k h ((a, .string s) ::ₘ rest))
    (pattern : Code) :
    ∃ (t : PlacedText) (h' : Heap Block),
      stripMatches pcre pattern a s.content h = .ok t.record h' ∧
      t.value = (match pcre2Substitute pcre pattern s.content s.content.length with
        | none => some s.content
        | some output => if output.length < 1 then none else some output) ∧
      Holds k h' (t.cells + rest) := by
  rw [stripMatches]
  cases hsubstitute : pcre2Substitute pcre pattern s.content s.content.length with
  | none =>
    refine ⟨some (a, s), h, rfl, rfl, ?_⟩
    rwa [PlacedText.cells_some, Multiset.singleton_add]
  | some output =>
    by_cases hlength : output.length < 1
    · obtain ⟨h', hfree, hh⟩ := hh.free invalid
      simp only [if_pos hlength]
      refine ⟨none, h', run_bind_of_ok hfree _, rfl, ?_⟩
      rwa [PlacedText.cells_none, zero_add]
    · have hfits : output.length < s.size :=
        (length_lt_of_pcre2Substitute hsubstitute).trans s.fits
      obtain ⟨h', hwrite, hh⟩ := exists_writeString hh hfits
      simp only [if_neg hlength]
      refine ⟨some (a, ⟨s.size, output, hfits⟩), h', run_bind_of_ok hwrite _, rfl, ?_⟩
      rwa [PlacedText.cells_some, Multiset.singleton_add]

/-- A text that is stripped stays where it is, or is freed. -/
theorem exists_regexStrip {a : ℕ} {s : Text} (hh : Holds k h ((a, .string s) ::ₘ rest))
    (pattern : Code) :
    ∃ (t : PlacedText) (h' : Heap Block), regexStrip pcre pattern a h = .ok t.record h' ∧
      t.value = Unalix.regexStrip pcre pattern s.content ∧ Holds k h' (t.cells + rest) := by
  have hread := readString_of_mem hh (Multiset.mem_cons_self _ _)
  obtain ⟨h₁, hmatch, hh⟩ := @exists_regexMatch _ pcre _ _ _ hh pattern s.content
  rw [Unalix.regexStrip]
  cases hmatched : Unalix.regexMatch pcre pattern s.content with
  | false =>
    rw [hmatched] at hmatch
    refine ⟨some (a, s), h₁, ?_, rfl, ?_⟩
    · exact (run_bind_of_ok hread _).trans (run_bind_of_ok hmatch _)
    · rwa [PlacedText.cells_some, Multiset.singleton_add]
  | true =>
    rw [hmatched] at hmatch
    obtain ⟨t, h', hstrip, ht, hh⟩ := @exists_stripMatches _ pcre _ _ _ _ _ hh pattern
    refine ⟨t, h', ?_, ht, hh⟩
    exact (run_bind_of_ok hread _).trans ((run_bind_of_ok hmatch _).trans hstrip)

/-- The loop over a list of patterns. -/
theorem exists_stripItems (items : List Code) {a : ℕ} {s : Text}
    (hh : Holds k h ((a, .string s) ::ₘ rest)) :
    ∃ (t : PlacedText) (h' : Heap Block), stripItems pcre items a h = .ok t.record h' ∧
      t.value = Unalix.stripItems pcre items s.content ∧ Holds k h' (t.cells + rest) := by
  induction items generalizing a s h with
  | nil =>
    refine ⟨some (a, s), h, rfl, rfl, ?_⟩
    rwa [PlacedText.cells_some, Multiset.singleton_add]
  | cons pattern items ih =>
    obtain ⟨t, h₁, hstrip, ht, hh⟩ := @exists_regexStrip _ pcre _ _ _ _ _ hh pattern
    rw [Unalix.stripItems, ← ht]
    cases t with
    | none => exact ⟨none, h₁, run_bind_of_ok hstrip _, rfl, hh⟩
    | some t =>
      rw [PlacedText.cells_some, Multiset.singleton_add] at hh
      obtain ⟨t', h', hitems, ht', hh⟩ := ih hh
      exact ⟨t', h', (run_bind_of_ok hstrip _).trans hitems, ht', hh⟩

/-- A field of a URI is stripped. -/
theorem exists_stripField {p : PlacedUri} (hh : Holds k h (p.cells + rest)) (field : Field)
    (ignore : ℤ) (items : List Code) :
    ∃ (t : PlacedText) (h' : Heap Block),
      stripField pcre ignore items (p.texts field).record h = .ok t.record h' ∧
      t.value = Unalix.stripField pcre ignore items (p.texts field).value ∧
      Holds k h' ((p.put field t).cells + rest) := by
  rw [p.cells_eq field, add_assoc] at hh
  simp only [PlacedUri.cells_put, add_assoc]
  cases htext : p.texts field with
  | none =>
    rw [htext] at hh
    exact ⟨none, h, rfl, rfl, hh⟩
  | some t =>
    rw [htext] at hh
    by_cases hignore : ignore = 0
    · rw [PlacedText.cells_some, Multiset.singleton_add] at hh
      obtain ⟨t', h', hitems, ht', hh⟩ := @exists_stripItems _ pcre _ _ _ items _ _ hh
      exact ⟨t', h', (congrFun (if_pos hignore) h).trans hitems, ht'.trans (if_pos hignore).symm, hh⟩
    · exact ⟨some t, h, congrFun (if_neg hignore) h, (if_neg hignore).symm, hh⟩

/-- A provider strips the URI. -/
theorem exists_stripRuleset (flags : Flags) {p : PlacedUri} (hh : Holds k h (p.cells + rest))
    (ruleset : Ruleset Code) :
    ∃ (p' : PlacedUri) (h' : Heap Block),
      stripRuleset pcre flags p.record ruleset h = .ok p'.record h' ∧
      p'.value = Unalix.stripRuleset pcre flags p.value ruleset ∧ Holds k h' (p'.cells + rest) := by
  obtain ⟨t₁, h₁, hrun₁, ht₁, hh⟩ :=
    @exists_stripField _ pcre _ _ _ _ hh .query flags.ignoreRules ruleset.rules
  obtain ⟨t₂, h₂, hrun₂, ht₂, hh⟩ := @exists_stripField _ pcre _ _ _ _ hh .query
    flags.ignoreReferralMarketing ruleset.referralMarketing
  obtain ⟨t₃, h₃, hrun₃, ht₃, hh⟩ :=
    @exists_stripField _ pcre _ _ _ _ hh .fragment flags.ignoreRules ruleset.rules
  obtain ⟨t₄, h₄, hrun₄, ht₄, hh⟩ := @exists_stripField _ pcre _ _ _ _ hh .fragment
    flags.ignoreReferralMarketing ruleset.referralMarketing
  obtain ⟨t₅, h₅, hrun₅, ht₅, hh⟩ :=
    @exists_stripField _ pcre _ _ _ _ hh .path flags.ignoreRawRules ruleset.rawRules
  refine ⟨_, h₅, ?_, ?_, hh⟩
  · refine (run_bind_of_ok hrun₁ _).trans ((run_bind_of_ok hrun₂ _).trans ?_)
    refine (run_bind_of_ok hrun₃ _).trans ((run_bind_of_ok hrun₄ _).trans ?_)
    exact run_bind_of_ok hrun₅ _
  · rw [PlacedUri.texts_put, ht₁] at ht₂
    rw [PlacedUri.texts_put, ht₃] at ht₄
    calc _ = { p.value with query := t₂.value, fragment := t₄.value, path := t₅.value } := rfl
      _ = Unalix.stripRuleset pcre flags p.value ruleset := by
        rw [ht₂, ht₄, ht₅]
        rfl

theorem exists_exceptionMatched (subject : Bytes) (exceptions : List Code) (hh : Holds k h rest) :
    ∃ h', exceptionMatched pcre subject exceptions h =
        .ok (exceptions.any fun pattern => Unalix.regexMatch pcre pattern subject) h' ∧
      Holds k h' rest := by
  induction exceptions generalizing h with
  | nil => exact ⟨h, rfl, hh⟩
  | cons pattern exceptions ih =>
    obtain ⟨h₁, hmatch, hh⟩ := @exists_regexMatch _ pcre _ _ _ hh pattern subject
    rw [List.any_cons]
    cases hmatched : Unalix.regexMatch pcre pattern subject with
    | true =>
      rw [hmatched] at hmatch
      exact ⟨h₁, run_bind_of_ok hmatch _, hh⟩
    | false =>
      rw [hmatched] at hmatch
      obtain ⟨h', hrest, hh⟩ := ih hh
      exact ⟨h', (run_bind_of_ok hmatch _).trans hrest, hh⟩

/-- The data of the match of a redirection that was found. -/
def matchCells (found : Option (List ℕ × ℕ)) : Multiset (ℕ × Block) :=
  found.elim 0 fun found => {(found.2, .matchData)}

/-- The data of every match but the last one are freed. -/
theorem exists_findRedirection (subject : Bytes) (redirections : List Code) (hh : Holds k h rest) :
    ∃ (found : Option (List ℕ × ℕ)) (h' : Heap Block),
      findRedirection pcre subject redirections h = .ok found h' ∧
      found.map Prod.fst =
        redirections.findSome? (fun redirection => pcre.pcre2Match redirection subject) ∧
      Holds k h' (matchCells found + rest) := by
  induction redirections generalizing h with
  | nil => exact ⟨none, h, rfl, rfl, by rwa [matchCells, Option.elim_none, zero_add]⟩
  | cons redirection redirections ih =>
    obtain ⟨a, h₁, halloc, hh₁⟩ := hh.alloc (ε := Failure) .matchData
    rw [List.findSome?_cons, findRedirection]
    cases hmatch : pcre.pcre2Match redirection subject with
    | some ovector =>
      refine ⟨some (ovector, a), h₁, run_bind_of_ok halloc _, rfl, ?_⟩
      rwa [matchCells, Option.elim_some, Multiset.singleton_add]
    | none =>
      obtain ⟨h₂, hfree, hh₂⟩ := hh₁.free invalid
      obtain ⟨found, h', hrest, hfound, hh'⟩ := ih hh₂
      exact ⟨found, h', (run_bind_of_ok halloc _).trans ((run_bind_of_ok hfree _).trans hrest),
        hfound, hh'⟩

/-- Exceptions count unless their flag is set. -/
theorem exists_checkExceptions (flags : Flags) (subject : Bytes) (ruleset : Ruleset Code)
    (hh : Holds k h rest) :
    ∃ h', (if flags.ignoreExceptions = 0 then exceptionMatched pcre subject ruleset.exceptions
        else pure false : HeapCall Bool) h =
          .ok (flags.ignoreExceptions = 0 && Unalix.exceptionMatched pcre ruleset subject) h' ∧
      Holds k h' rest := by
  by_cases hflag : flags.ignoreExceptions = 0
  · obtain ⟨h', hrun, hh⟩ := @exists_exceptionMatched _ pcre _ _ _ subject ruleset.exceptions hh
    refine ⟨h', ?_, hh⟩
    rw [if_pos hflag, hrun, decide_eq_true hflag, Bool.true_and]
    rfl
  · refine ⟨h, ?_, hh⟩
    rw [if_neg hflag, decide_eq_false hflag, Bool.false_and]
    rfl

/-- Redirections count unless their flag is set. -/
theorem exists_checkRedirections (flags : Flags) (subject : Bytes) (ruleset : Ruleset Code)
    (hh : Holds k h rest) :
    ∃ (found : Option (List ℕ × ℕ)) (h' : Heap Block),
      (if flags.ignoreRedirections = 0 then findRedirection pcre subject ruleset.redirections
        else pure none : HeapCall (Option (List ℕ × ℕ))) h = .ok found h' ∧
      found.map Prod.fst = (if flags.ignoreRedirections = 0
        then Unalix.findRedirection pcre ruleset subject else none) ∧
      Holds k h' (matchCells found + rest) := by
  by_cases hflag : flags.ignoreRedirections = 0
  · rw [if_pos hflag, if_pos hflag]
    exact exists_findRedirection subject ruleset.redirections hh
  · rw [if_neg hflag, if_neg hflag]
    exact ⟨none, h, rfl, rfl, by rwa [matchCells, Option.elim_none, zero_add]⟩

/-- **The loop over the providers**: it ends as it does on values, and besides the URI the data of
the match are in memory that it was left with. -/
theorem exists_cleanRulesets (flags : Flags) (subject : Bytes) (rulesets : List (Ruleset Code))
    {p : PlacedUri} (hh : Holds k h (p.cells + rest)) :
    ∃ (found : Option (List ℕ × ℕ)) (p' : PlacedUri) (h' : Heap Block),
      cleanRulesets pcre flags subject rulesets p.record h = .ok (found, p'.record) h' ∧
      Unalix.cleanRulesets pcre flags subject rulesets p.value =
        found.elim (.inr p'.value) (fun found => .inl found.1) ∧
      Holds k h' (matchCells found + (p'.cells + rest)) := by
  induction rulesets generalizing p h with
  | nil => exact ⟨none, p, h, rfl, rfl, by rwa [matchCells, Option.elim_none, zero_add]⟩
  | cons ruleset rulesets ih =>
    obtain ⟨h₁, hmatch, hh⟩ := @exists_regexMatch _ pcre _ _ _ hh ruleset.urlPattern subject
    rw [Unalix.cleanRulesets, cleanRulesets]
    cases hmatched : Unalix.regexMatch pcre ruleset.urlPattern subject with
    | false =>
      rw [hmatched] at hmatch
      obtain ⟨found, p', h', hrest, hvalue, hh⟩ := ih hh
      exact ⟨found, p', h', (run_bind_of_ok hmatch _).trans hrest, hvalue, hh⟩
    | true =>
      rw [hmatched] at hmatch
      obtain ⟨h₂, hexceptions, hh⟩ := @exists_checkExceptions _ pcre _ _ _ flags subject ruleset hh
      rw [if_pos rfl]
      cases hmatched' : (flags.ignoreExceptions = 0 &&
          Unalix.exceptionMatched pcre ruleset subject : Bool) with
      | true =>
        rw [hmatched'] at hexceptions
        obtain ⟨found, p', h', hrest, hvalue, hh⟩ := ih hh
        refine ⟨found, p', h', ?_, hvalue, hh⟩
        exact (run_bind_of_ok hmatch _).trans ((run_bind_of_ok hexceptions _).trans hrest)
      | false =>
        rw [hmatched'] at hexceptions
        obtain ⟨found, h₃, hfind, hfound, hh⟩ :=
          @exists_checkRedirections _ pcre _ _ _ flags subject ruleset hh
        rw [if_neg Bool.false_ne_true, ← hfound]
        cases found with
        | some found =>
          refine ⟨some found, p, h₃, ?_, rfl, hh⟩
          refine (run_bind_of_ok hmatch _).trans ((run_bind_of_ok hexceptions _).trans ?_)
          exact run_bind_of_ok hfind _
        | none =>
          rw [matchCells, Option.elim_none, zero_add] at hh
          obtain ⟨p₁, h₄, hstrip, hp₁, hh⟩ := @exists_stripRuleset _ pcre _ _ _ flags _ hh ruleset
          obtain ⟨found, p', h', hrest, hvalue, hh⟩ := ih hh
          refine ⟨found, p', h', ?_, ?_, hh⟩
          · refine (run_bind_of_ok hmatch _).trans ((run_bind_of_ok hexceptions _).trans ?_)
            exact (run_bind_of_ok hfind _).trans ((run_bind_of_ok hstrip _).trans hrest)
          · rw [hp₁] at hvalue
            exact hvalue

end Strip

/-! ## What a call leaves -/

section Spec

variable {Code : Type} (pcre : Pcre Code) (rulesets : Rulesets Code) {k : ℕ}
  {rest : Multiset (ℕ × Block)}

/-- The URL that was parsed to look for its scheme is freed. -/
theorem prependSchemeIfNeeded_simulates (src : Bytes) :
    Simulates (fun h => Holds k h rest) (prependSchemeIfNeeded src)
      (Unalix.prependSchemeIfNeeded src) (fun v url h => url = v ∧ Holds k h rest)
      (Returned k rest) := by
  intro h hh
  have hparse := uriParse_simulates src h hh
  rw [Unalix.prependSchemeIfNeeded, prependSchemeIfNeeded]
  cases hr : Unalix.uriParse {} src with
  | ok v =>
    rw [hr] at hparse
    obtain ⟨obj, h₁, hrun, p, -, rfl, hh⟩ := hparse
    obtain ⟨h', hfree, hh⟩ := exists_uriFree hh
    refine ⟨src, h', ?_, rfl, hh⟩
    rw [hrun]
    exact run_bind_of_ok hfree _
  | error e =>
    rw [hr] at hparse
    obtain ⟨h₁, hrun, hh⟩ := hparse
    cases e with
    | fault f => exact ⟨h₁, by rw [hrun], returned_fault f h₁⟩
    | code e =>
      rw [hrun]
      by_cases he : e = .uriSchemeMissing
      · subst he
        exact ⟨_, h₁, rfl, rfl, hh _ rfl⟩
      · have hsame : Unalix.prependSchemeIfNeeded src = .ok src := by
          rw [Unalix.prependSchemeIfNeeded, hr]
          cases e <;> first | rfl | exact absurd rfl he
        rw [Unalix.prependSchemeIfNeeded, hr] at hsame
        rw [hsame]
        refine ⟨src, h₁, ?_, rfl, hh _ rfl⟩
        simp only [if_neg he]
        rfl

/-- The URL of a redirection is calculated, and nothing is left of it in memory. -/
theorem redirectionUrl_simulates (subject : Bytes) (ovector : List ℕ) :
    Simulates (fun h => Holds k h rest) (redirectionUrl subject ovector)
      (Unalix.redirectionUrl subject ovector) (fun v url h => url = v ∧ Holds k h rest)
      (Returned k rest) := by
  refine Simulates.bind (simulates_ofOutcome _ fun e h hh _ _ => hh) fun url _ _ => ?_
  refine Simulates.assume ?_
  rintro rfl
  exact prependSchemeIfNeeded_simulates _

/-- What a call owns while the call for a redirection is running. -/
def Redirection.Owned (redirection : Redirection) (owned : Multiset (ℕ × Block)) : Prop :=
  ∃ p : PlacedUri, redirection.uri = p.record ∧
    owned = p.cells + {(redirection.matchData, .matchData)}

/-- What is in memory when the body of `unalix_clean_url` has come to its recursive call, or to its
end. -/
def Stepped (k : ℕ) (rest : Multiset (ℕ × Block)) (next : CleanArgs ⊕ Outcome Bytes)
    (result : EStateM.Result Failure (Heap Block) (Redirection ⊕ ℕ)) : Prop :=
  match next with
  | .inl args => ∃ redirection h owned, result = .ok (.inl redirection) h ∧
      redirection.args = args ∧ redirection.Owned owned ∧ Holds k h (owned + rest)
  | .inr (.ok text) => ∃ a h, result = .ok (.inr a) h ∧ Holds k h ((a, .string (.exact text)) ::ₘ rest)
  | .inr (.error e) => ∃ h, result = .error e h ∧ Returned k rest e h

theorem captureGroup_ne_code (subject : Bytes) (ovector : List ℕ) (e : ErrorCode) :
    captureGroup subject ovector ≠ .error (.code e) := by
  unfold captureGroup
  split
  · split_ifs <;> nofun
  · nofun

/-- No error code comes between a match and the recursive call. -/
theorem redirectionUrl_ne_code (subject : Bytes) (ovector : List ℕ) (e : ErrorCode) :
    Unalix.redirectionUrl subject ovector ≠ .error (.code e) := by
  intro h
  rw [Unalix.redirectionUrl] at h
  cases hgroup : captureGroup subject ovector with
  | error e' =>
    rw [hgroup] at h
    cases h
    exact captureGroup_ne_code _ _ _ hgroup
  | ok url =>
    rw [hgroup, Outcome.ok_bind, prependSchemeIfNeeded_eq] at h
    cases h

/-- With no redirection the URI is printed with its new query, and freed. -/
theorem exists_rebuiltUrl (flags : Flags) {p : PlacedUri} {h : Heap Block}
    (hne : NotEmpty p.value.query) (hh : Holds k h (p.cells + rest)) :
    ∃ a h', (rebuildQuery flags p.record >>= fun uri => uriStringify uri >>= fun targetUrl =>
        uriFree uri >>= fun _ => pure (.inr targetUrl : Redirection ⊕ ℕ)) h =
      .ok (.inr a) h' ∧
      Holds k h' ((a, .string (.exact (Unalix.uriStringify
        { p.value with query := Unalix.rebuildQuery flags p.value.query }))) ::ₘ rest) := by
  obtain ⟨p₁, h₁, hrebuild, hp₁, hh⟩ := exists_rebuildQuery flags hne hh
  obtain ⟨a, h₂, hstringify, hh⟩ := exists_uriStringify hh
  rw [← Multiset.add_cons] at hh
  obtain ⟨h', hfree, hh⟩ := exists_uriFree hh
  rw [hp₁] at hh
  refine ⟨a, h', ?_, hh⟩
  exact (run_bind_of_ok hrebuild _).trans ((run_bind_of_ok hstringify _).trans
    (run_bind_of_ok hfree _))

/-- **One call**, up to its recursive call or to its end. -/
theorem cleanStep_stepped (args : CleanArgs) {h : Heap Block} (hh : Holds k h rest) :
    Stepped k rest (Unalix.cleanStep pcre rulesets args) (cleanStep pcre rulesets args h) := by
  obtain ⟨sourceUrl, flags⟩ := args
  cases sourceUrl with
  | none => exact ⟨h, rfl, fun _ _ => hh⟩
  | some sourceUrl =>
    cases sourceUrl with
    | nil => exact ⟨h, rfl, fun _ _ => hh⟩
    | cons ch sourceUrl =>
      rw [Unalix.cleanStep, cleanStep]
      by_cases hoffset : rulesets.offset < 1
      · simp only [if_pos hoffset]
        exact ⟨h, rfl, fun _ _ => hh⟩
      · simp only [if_neg hoffset]
        have hparse := uriParse_simulates (ch :: sourceUrl) h hh
        cases hr : Unalix.uriParse {} (ch :: sourceUrl) with
        | error e =>
          rw [hr] at hparse
          obtain ⟨h₁, hrun, hh⟩ := hparse
          exact ⟨h₁, run_bind_of_error hrun _, hh⟩
        | ok v =>
          rw [hr] at hparse
          obtain ⟨obj, h₁, hrun, p, rfl, rfl, hh⟩ := hparse
          obtain ⟨found, p', h₂, hclean, hvalue, hh⟩ :=
            @exists_cleanRulesets _ pcre _ _ _ flags (ch :: sourceUrl) rulesets.items _ hh
          have hrun {f : Option (List ℕ × ℕ) × URI → HeapCall (Redirection ⊕ ℕ)} :=
            (run_bind_of_ok hrun fun uri => cleanRulesets pcre flags (ch :: sourceUrl)
              rulesets.items uri >>= f).trans (run_bind_of_ok hclean f)
          simp only [hvalue]
          cases found with
          | some found =>
            obtain ⟨ovector, matchData⟩ := found
            have hurl := redirectionUrl_simulates (ch :: sourceUrl) ovector h₂ hh
            simp only [Option.elim_some]
            cases hredirection : Unalix.redirectionUrl (ch :: sourceUrl) ovector with
            | error e =>
              rw [hredirection] at hurl
              obtain ⟨h', hrun', -⟩ := hurl
              refine ⟨h', hrun.trans (run_bind_of_error hrun' _), fun code he => ?_⟩
              subst he
              exact absurd hredirection (redirectionUrl_ne_code _ _ _)
            | ok url =>
              rw [hredirection] at hurl
              obtain ⟨_, h', hrun', rfl, hh⟩ := hurl
              refine ⟨_, h', p'.cells + {(matchData, .matchData)},
                hrun.trans (run_bind_of_ok hrun' _), rfl, ⟨p', rfl, rfl⟩, ?_⟩
              rw [add_left_comm, ← add_assoc] at hh
              exact hh
          | none =>
            rw [matchCells, Option.elim_none, zero_add] at hh
            have hne : NotEmpty p'.value.query :=
              query_notEmpty_of_cleanRulesets (fieldsNotEmpty_of_uriParse hr).query hvalue
            obtain ⟨a, h', hrebuilt, hh⟩ := exists_rebuiltUrl flags hne hh
            simp only [Option.elim_none]
            exact ⟨a, h', hrun.trans hrebuilt, hh⟩

/-- What a call owns is freed at its end. -/
theorem exists_cleanEnd {redirection : Redirection} {owned : Multiset (ℕ × Block)}
    {h : Heap Block} (howned : redirection.Owned owned) (hh : Holds k h (owned + rest)) :
    ∃ h', cleanEnd redirection h = .ok () h' ∧ Holds k h' rest := by
  obtain ⟨p, huri, rfl⟩ := howned
  rw [add_assoc] at hh
  obtain ⟨h₁, hfree, hh⟩ := exists_uriFree hh
  rw [Multiset.singleton_add] at hh
  obtain ⟨h', hfree', hh⟩ := hh.free invalid
  rw [← huri] at hfree
  exact ⟨h', (run_bind_of_ok hfree _).trans hfree', hh⟩

/-- The end of a chain of calls in memory, when it ends on values with `expected`. -/
def Ended (k : ℕ) (rest : Multiset (ℕ × Block)) (expected : Option (Outcome Bytes))
    (result : Option (EStateM.Result Failure (Heap Block) ℕ)) : Prop :=
  match expected with
  | none => result = none
  | some (.ok text) => ∃ a h, result = some (.ok a h) ∧ Holds k h ((a, .string (.exact text)) ::ₘ rest)
  | some (.error e) => ∃ h, result = some (.error e h) ∧ Returned k rest e h

/-- The chain of calls: each frees what it owns when the call for its redirection has returned. -/
theorem ended_unalixCleanUrl (fuel : ℕ) (args : CleanArgs) {h : Heap Block} (hh : Holds k h rest) :
    Ended k rest (Chains.follow (Unalix.cleanStep pcre rulesets) fuel args)
      (unalixCleanUrl pcre rulesets fuel args h) := by
  induction fuel generalizing args h rest with
  | zero => rfl
  | succ fuel ih =>
    have hstep := cleanStep_stepped pcre rulesets args hh
    rw [unalixCleanUrl]
    cases hnext : Unalix.cleanStep pcre rulesets args with
    | inr outcome =>
      rw [hnext] at hstep
      rw [Chains.follow_succ_of_inr hnext]
      cases outcome with
      | ok text =>
        obtain ⟨a, h', hrun, hh⟩ := hstep
        exact ⟨a, h', by rw [hrun], hh⟩
      | error e =>
        obtain ⟨h', hrun, hh⟩ := hstep
        exact ⟨h', by rw [hrun], hh⟩
    | inl args' =>
      rw [hnext] at hstep
      obtain ⟨redirection, h₁, owned, hrun, rfl, howned, hh⟩ := hstep
      rw [Chains.follow_succ_of_inl hnext, hrun]
      have hrest := ih redirection.args hh
      -- the recursive call has left what this call owns, which is freed now
      cases hexpected : Chains.follow (Unalix.cleanStep pcre rulesets) fuel redirection.args with
      | none =>
        rw [hexpected] at hrest
        have hnone : unalixCleanUrl pcre rulesets fuel redirection.args h₁ = none := hrest
        simp only [hnone]
        rfl
      | some outcome =>
        rw [hexpected] at hrest
        cases outcome with
        | ok text =>
          obtain ⟨a, h₂, hrun₂, hh⟩ := hrest
          rw [← Multiset.add_cons] at hh
          obtain ⟨h', hend, hh⟩ := exists_cleanEnd howned hh
          simp only [hrun₂]
          exact ⟨a, h', congrArg some (run_bind_of_ok hend _), hh⟩
        | error e =>
          obtain ⟨h₂, hrun₂, hh⟩ := hrest
          cases e with
          | fault f =>
            simp only [hrun₂]
            exact ⟨h₂, rfl, returned_fault f h₂⟩
          | code e =>
            obtain ⟨h', hend, hh⟩ := exists_cleanEnd howned (hh e rfl)
            simp only [hrun₂]
            exact ⟨h', congrArg some (run_bind_of_ok hend _), fun _ _ => hh⟩

/-- **`unalix_clean_url` in memory.** From any memory it ends as it does on values, after as many
calls: with the target it leaves one block more than before, the text of the target, with an error
code the memory as it was, and in both cases it has accessed no byte outside of its blocks and freed
nothing twice. It crashes in no run in which the redirections that are taken capture in bounds. -/
theorem unalixCleanUrl_memory (fuel : ℕ) (args : CleanArgs) {h : Heap Block}
    (hh : Holds k h rest) :
    Ended k rest (Unalix.unalixCleanUrl pcre rulesets fuel args.sourceUrl args.flags)
        (unalixCleanUrl pcre rulesets fuel args h) ∧
      (CapturesAlong pcre rulesets args →
        ∀ result, unalixCleanUrl pcre rulesets fuel args h = some result → ¬ Crashed result) := by
  have hended := ended_unalixCleanUrl pcre rulesets fuel args hh
  refine ⟨hended, fun hcaptures result hresult => ?_⟩
  cases hvalue : Chains.follow (Unalix.cleanStep pcre rulesets) fuel args with
  | none =>
    rw [hvalue, hresult] at hended
    cases hended
  | some outcome =>
    have hreturns := hcaptures.returns hvalue
    rw [hvalue, hresult] at hended
    rcases outcome with (e | f) | text
    · obtain ⟨h', hrun, -⟩ := hended
      rw [Option.some.inj hrun]
      exact not_crashed_code e h'
    · exact absurd rfl (hreturns f)
    · obtain ⟨a, h', hrun, -⟩ := hended
      rw [Option.some.inj hrun]
      exact not_crashed_ok a h'

/-- A chain of two calls leaves the text of the target. -/
theorem unalixCleanUrl_memory_redirected : ∃ a h,
    unalixCleanUrl Pattern.pcre (redirectionStore (.capture (str "u="))) 2
      ⟨some (str "http://example.com/?u=a.org"), {}⟩ Heap.empty = some (.ok a h) ∧
    Holds 0 h {(a, .string (.exact (str "http://a.org/")))} := by
  have hvalue : Unalix.unalixCleanUrl Pattern.pcre (redirectionStore (.capture (str "u="))) 2
      (some (str "http://example.com/?u=a.org")) {} = some (.ok (str "http://a.org/")) := by
    decide +kernel
  have hended := (unalixCleanUrl_memory Pattern.pcre (redirectionStore (.capture (str "u="))) 2
    ⟨some (str "http://example.com/?u=a.org"), {}⟩ holds_empty).1
  rw [hvalue] at hended
  exact hended

end Spec

end Unalix.OnHeap
