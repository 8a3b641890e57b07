import Unalix.CleanUrl.LiteralRule
import Unalix.Parameters

/-!
# Many rules that are keys (`clean_url.c`)

The patterns of all active providers are stripped from the query one after the other, the rules of
a provider before its referral marketing. When all of them are keys and empty parameters are
stripped, what is written in the end are the parameters whose key is none of these keys, provided
that no rule clips a parameter: the first rule that finds something in it must have its key
(`keyRules_exact`). So rules for `utm` and `utms` must not come in this order, if there are
parameters `utms`. The empty piece that a removed first parameter leaves does not matter here, as
it is read as an empty parameter.
-/

namespace Unalix

open Ascii CString Deletion

variable {Code : Type} {pcre : Pcre Code} {compile : Bytes → Option Code}

/-! ## The patterns that are stripped from a query -/

/-- The patterns that a provider strips from the query, in their order. -/
def queryPatterns (flags : Flags) (ruleset : Ruleset Code) : List Code :=
  (if flags.ignoreRules = 0 then ruleset.rules else []) ++
    if flags.ignoreReferralMarketing = 0 then ruleset.referralMarketing else []

/-- The patterns that all active providers strip from the query. -/
def patternsInForce (pcre : Pcre Code) (flags : Flags) (subject : Bytes)
    (rulesets : List (Ruleset Code)) : List Code :=
  (rulesets.filter (Active pcre flags subject)).flatMap (queryPatterns flags)

theorem stripItems_append (patterns patterns' : List Code) (destination : Bytes) :
    stripItems pcre (patterns ++ patterns') destination =
      (stripItems pcre patterns destination).bind (stripItems pcre patterns') := by
  induction patterns generalizing destination with
  | nil => rfl
  | cons pattern patterns ih =>
    rw [List.cons_append, stripItems, stripItems]
    cases regexStrip pcre pattern destination with
    | none => rfl
    | some output => exact ih output

theorem stripField_eq (ignore : ℤ) (items : List Code) (field : Option Bytes) :
    stripField pcre ignore items field =
      field.bind (stripItems pcre (if ignore = 0 then items else [])) := by
  cases field with
  | none => rfl
  | some destination =>
    rw [stripField, Option.bind_some]
    split <;> rfl

/-- What a provider leaves of the query. -/
theorem query_stripRuleset (flags : Flags) (uri : URI) (ruleset : Ruleset Code) :
    (stripRuleset pcre flags uri ruleset).query =
      uri.query.bind (stripItems pcre (queryPatterns flags ruleset)) := by
  simp only [stripRuleset, stripField_eq, queryPatterns, Option.bind_assoc]
  exact Option.bind_congr fun query _ => (stripItems_append _ _ query).symm

theorem query_foldl_stripRuleset (flags : Flags) (rulesets : List (Ruleset Code)) (uri : URI) :
    (rulesets.foldl (stripRuleset pcre flags) uri).query =
      uri.query.bind (stripItems pcre (rulesets.flatMap (queryPatterns flags))) := by
  induction rulesets generalizing uri with
  | nil => exact (Option.bind_fun_some uri.query).symm
  | cons ruleset rulesets ih =>
    rw [List.foldl_cons, ih, query_stripRuleset, List.flatMap_cons, Option.bind_assoc]
    exact Option.bind_congr fun query _ => (stripItems_append _ _ query).symm

/-- **The query that all providers leave.** -/
theorem query_strippedUri_eq (flags : Flags) (subject : Bytes) (rulesets : List (Ruleset Code))
    (uri : URI) : (strippedUri pcre flags subject rulesets uri).query =
      uri.query.bind (stripItems pcre (patternsInForce pcre flags subject rulesets)) :=
  query_foldl_stripRuleset flags _ uri

/-- What is left of a query is not the empty text. -/
theorem query_notEmpty_of_cleanRulesets {flags : Flags} {subject : Bytes}
    {rulesets : List (Ruleset Code)} {uri uri' : URI} (hquery : NotEmpty uri.query)
    (h : cleanRulesets pcre flags subject rulesets uri = .inr uri') : NotEmpty uri'.query := by
  rw [cleanRulesets_eq] at h
  cases hfirst : firstRedirection pcre flags subject rulesets with
  | some ovector =>
    rw [hfirst] at h
    cases h
  | none =>
    rw [hfirst] at h
    cases h
    rw [query_strippedUri_eq]
    intro query hstrip
    obtain ⟨destination, hdestination, hstrip⟩ := Option.bind_eq_some_iff.1 hstrip
    exact stripItems_notEmpty _ (hquery destination hdestination) query hstrip

/-! ## Pieces that no rule clips -/

/-- The first rule that finds something in the piece, if there is one, has its key. -/
def Intact : List Bytes → Bytes → Prop
  | [], _ => True
  | key :: keys, piece => HasKey key piece ∨ ¬ Touched key piece ∧ Intact keys piece

instance decidableIntact (keys : List Bytes) (piece : Bytes) : Decidable (Intact keys piece) :=
  match keys with
  | [] => inferInstanceAs (Decidable True)
  | key :: keys =>
    have := decidableIntact keys piece
    inferInstanceAs (Decidable (HasKey key piece ∨ ¬ Touched key piece ∧ Intact keys piece))

/-- The piece has one of the keys. -/
def Listed (keys : List Bytes) (piece : Bytes) : Prop := ∃ key ∈ keys, HasKey key piece

instance (keys : List Bytes) (piece : Bytes) : Decidable (Listed keys piece) :=
  inferInstanceAs (Decidable (∃ key ∈ keys, HasKey key piece))

theorem listed_cons (key : Bytes) (keys : List Bytes) (piece : Bytes) :
    Listed (key :: keys) piece ↔ HasKey key piece ∨ Listed keys piece := by
  simp [Listed]

theorem intact_nil (keys : List Bytes) (h : ∀ key ∈ keys, IsKey key) : Intact keys [] := by
  induction keys with
  | nil => trivial
  | cons key keys ih =>
    rw [List.forall_mem_cons] at h
    refine .inr ⟨?_, ih h.2⟩
    rintro (hbegins | hinside)
    · exact h.1.ne_nil (List.prefix_nil.1 hbegins)
    · simp at hinside

/-- The first piece, empty when it has one of the keys. -/
def firstOf (keys : List Bytes) (piece : Bytes) : Bytes := if Listed keys piece then [] else piece

theorem firstOf_nil (keys : List Bytes) : firstOf keys [] = [] := ite_self _

theorem firstOf_cons (key : Bytes) (keys : List Bytes) (piece : Bytes) :
    firstOf (key :: keys) piece = firstOf keys (if HasKey key piece then [] else piece) := by
  by_cases h : HasKey key piece
  · rw [if_pos h, firstOf_nil, firstOf, if_pos ((listed_cons key keys piece).2 (.inl h))]
  · rw [if_neg h, firstOf, firstOf]
    simp only [listed_cons, h, false_or]

theorem filter_not_listed_cons (key : Bytes) (keys : List Bytes) (pieces : List Bytes) :
    (pieces.filter fun piece => ¬ Listed (key :: keys) piece) =
      (pieces.filter fun piece => ¬ HasKey key piece).filter fun piece => ¬ Listed keys piece := by
  rw [List.filter_filter]
  simp only [listed_cons, not_or, Bool.decide_and, Bool.and_comm]

/-- The patterns are those that the loader compiles of the keys. -/
def CompiledKeys (compile : Bytes → Option Code) (patterns : List Code) (keys : List Bytes) : Prop :=
  List.Forall₂ (fun pattern key => IsKey key ∧ compile (extendedPattern key) = some pattern)
    patterns keys

theorem CompiledKeys.isKey {patterns : List Code} {keys : List Bytes}
    (h : CompiledKeys compile patterns keys) : ∀ key ∈ keys, IsKey key := by
  induction h with
  | nil => simp
  | cons hkey _ ih => exact List.forall_mem_cons.2 ⟨hkey.1, ih⟩

/-- One rule, when it clips no piece. -/
theorem IsKey.leftQuery_intercalate {key first : Bytes} {rest : List Bytes} (hkey : IsKey key)
    (hpieces : ∀ piece ∈ first :: rest, andSign ∉ piece)
    (hclip : ∀ piece ∈ first :: rest, HasKey key piece ∨ ¬ Touched key piece) :
    leftQuery key ([andSign].intercalate (first :: rest)) = [andSign].intercalate
      ((if HasKey key first then [] else first) ::
        rest.filter fun piece => ¬ HasKey key piece) := by
  have hsplit := List.splitOn_intercalate andSign hpieces (List.cons_ne_nil first rest)
  obtain ⟨ls, hsplit', -⟩ := exists_splitOn andSign ([andSign].intercalate (first :: rest))
  have hfirst : before andSign ([andSign].intercalate (first :: rest)) = first := by
    rw [hsplit] at hsplit'
    exact (List.cons.inj hsplit').1.symm
  have huntouched : ∀ piece ∈ keptPieces key ([andSign].intercalate (first :: rest)),
      ¬ Touched key piece := by
    intro piece hmem
    rw [keptPieces, hsplit, List.mem_filter, decide_eq_true_iff] at hmem
    exact (hclip piece hmem.1).resolve_left hmem.2
  rw [hkey.leftQuery_of_untouched (by rw [hsplit, hfirst]) (List.forall_mem_cons.1 hpieces).2
    huntouched, firstLeft, hfirst]

/-- **All rules, one after the other**: the pieces with one of the keys are left out; only the first
one leaves an empty piece. -/
theorem stripItems_compiledKeys
    (hpcre : ∀ key pattern, IsKey key → compile (extendedPattern key) = some pattern →
      pcre.FindsParameter pattern key)
    {patterns : List Code} {keys : List Bytes} (hkeys : CompiledKeys compile patterns keys)
    {first : Bytes} {rest : List Bytes} (hpieces : ∀ piece ∈ first :: rest, andSign ∉ piece)
    (hintact : ∀ piece ∈ first :: rest, Intact keys piece)
    (hne : [andSign].intercalate (first :: rest) ≠ []) :
    stripItems pcre patterns ([andSign].intercalate (first :: rest)) =
      nonempty ([andSign].intercalate
        (firstOf keys first :: rest.filter fun piece => ¬ Listed keys piece)) := by
  induction hkeys generalizing first rest with
  | nil =>
    have hfirst : firstOf [] first = first := if_neg (by simp [Listed])
    have hrest : (rest.filter fun piece => ¬ Listed [] piece) = rest := by
      rw [List.filter_eq_self]
      simp [Listed]
    rw [hfirst, hrest, nonempty_of_ne_nil hne]
    rfl
  | @cons pattern key patterns keys hkey hkeys ih =>
    have hclip (piece : Bytes) (hmem : piece ∈ first :: rest) :
        HasKey key piece ∨ ¬ Touched key piece := (hintact piece hmem).imp_right And.left
    rw [stripItems, regexStrip_of_findsParameter hkey.1 (hpcre key pattern hkey.1 hkey.2) hne,
      hkey.1.leftQuery_intercalate hpieces hclip, firstOf_cons, filter_not_listed_cons]
    -- the pieces that this rule leaves
    have hrest (P : Bytes → Prop) (hnil : P []) (hP : ∀ piece ∈ first :: rest, ¬ HasKey key piece →
        P piece) : ∀ piece ∈ (if HasKey key first then [] else first) ::
          rest.filter fun piece => ¬ HasKey key piece, P piece := by
      rw [List.forall_mem_cons] at hP ⊢
      refine ⟨?_, fun piece hmem => ?_⟩
      · split_ifs with hfirst
        · exact hnil
        · exact hP.1 hfirst
      · rw [List.mem_filter, decide_eq_true_iff] at hmem
        exact hP.2 piece hmem.1 hmem.2
    have hpieces' := hrest (andSign ∉ ·) List.not_mem_nil fun piece hmem _ => hpieces piece hmem
    have hintact' := hrest (Intact keys) (intact_nil keys (CompiledKeys.isKey hkeys)) fun piece hmem hnot =>
      ((hintact piece hmem).resolve_left hnot).2
    by_cases hnil : [andSign].intercalate ((if HasKey key first then [] else first) ::
        rest.filter fun piece => ¬ HasKey key piece) = []
    · obtain ⟨hfirst, hfilter⟩ := List.cons.inj (intercalate_eq_nil_iff.1 hnil)
      rw [hnil, hfirst, hfilter, firstOf_nil]
      rfl
    · rw [nonempty_of_ne_nil hnil]
      exact ih hpieces' hintact' hnil

/-! ## The query that is written -/

/-- Parameters without a key are not kept when empty ones are stripped. -/
theorem remainingParameters_firstOf {flags : Flags} (hflag : flags.stripEmpty ≠ 0)
    (keys : List Bytes) (first : Bytes) (rest : List Bytes) :
    remainingParameters flags
        ((firstOf keys first :: rest.filter fun piece => ¬ Listed keys piece).map readParameter) =
      remainingParameters flags
        (((first :: rest).filter fun piece => ¬ Listed keys piece).map readParameter) := by
  rw [remainingParameters, remainingParameters, if_pos hflag, if_pos hflag]
  by_cases hfirst : Listed keys first
  · rw [firstOf, if_pos hfirst, List.filter_cons_of_neg (by simpa using hfirst), List.map_cons,
      List.filter_cons_of_neg (by decide)]
  · rw [firstOf, if_neg hfirst, List.filter_cons_of_pos (by simpa using hfirst)]

theorem keptParameters_congr {flags : Flags} {parameters parameters' : List Parameter}
    (h : remainingParameters flags parameters = remainingParameters flags parameters') :
    keptParameters flags parameters = keptParameters flags parameters' := by
  rw [keptParameters, keptParameters, h]

/-- The parameters whose key is none of the keys. -/
def unlistedParameters (keys : List Bytes) (query : Bytes) : List Parameter :=
  (queryParse query).filter fun parameter => ∀ key ∈ keys, parameter.key ≠ some key

theorem unlistedParameters_eq (keys : List Bytes) (query : Bytes) :
    unlistedParameters keys query =
      ((query.splitOn andSign).filter fun piece => ¬ Listed keys piece).map readParameter := by
  rw [unlistedParameters, queryParse_eq, List.filter_map]
  congr 1
  apply List.filter_congr
  intro piece _
  simp only [Function.comp_apply, Listed, HasKey, not_exists, not_and, ne_eq]

/-- The query that is written again after all rules. -/
theorem rebuildQuery_firstOf {flags : Flags} (hflag : flags.stripEmpty ≠ 0) {keys : List Bytes}
    {first : Bytes} {rest : List Bytes} (hpieces : ∀ piece ∈ first :: rest, andSign ∉ piece) :
    rebuildQuery flags (nonempty ([andSign].intercalate
        (firstOf keys first :: rest.filter fun piece => ¬ Listed keys piece))) =
      renderedQuery (keptParameters flags
        (((first :: rest).filter fun piece => ¬ Listed keys piece).map readParameter)) := by
  rw [← keptParameters_congr (remainingParameters_firstOf hflag keys first rest)]
  have hpieces' : ∀ piece ∈ firstOf keys first :: rest.filter fun piece => ¬ Listed keys piece,
      andSign ∉ piece := by
    rw [List.forall_mem_cons] at hpieces ⊢
    refine ⟨?_, fun piece hmem => hpieces.2 piece (List.mem_filter.1 hmem).1⟩
    rw [firstOf]
    split_ifs
    · exact List.not_mem_nil
    · exact hpieces.1
  by_cases hnil : [andSign].intercalate
      (firstOf keys first :: rest.filter fun piece => ¬ Listed keys piece) = []
  · -- a single empty piece is left
    have hkept : keptParameters flags ([[]].map readParameter) = keptParameters flags [] := by
      apply keptParameters_congr
      rw [remainingParameters, remainingParameters, if_pos hflag, if_pos hflag]
      decide
    rw [hnil, intercalate_eq_nil_iff.1 hnil, hkept, keptParameters_nil]
    rfl
  · rw [nonempty_of_ne_nil hnil, rebuildQuery_eq, queryParse_eq,
      List.splitOn_intercalate andSign hpieces' (List.cons_ne_nil _ _)]

/-- The query that is printed when some patterns have been stripped. -/
def cleanedQuery (pcre : Pcre Code) (flags : Flags) (patterns : List Code)
    (query : Option Bytes) : Option Bytes :=
  rebuildQuery flags (query.bind (stripItems pcre patterns))

theorem printedUri_eq (flags : Flags) (subject : Bytes) (rulesets : List (Ruleset Code))
    (uri : URI) : printedUri pcre flags subject rulesets uri =
      { strippedUri pcre flags subject rulesets uri with
        query := cleanedQuery pcre flags (patternsInForce pcre flags subject rulesets)
          uri.query } := by
  rw [cleanedQuery, ← query_strippedUri_eq]
  rfl

/-- Rules that are keys leave the parameters with other keys. -/
theorem cleanedQuery_eq
    (hpcre : ∀ key pattern, IsKey key → compile (extendedPattern key) = some pattern →
      pcre.FindsParameter pattern key)
    {flags : Flags} {query : Bytes} {patterns : List Code} {keys : List Bytes}
    (hempty : flags.stripEmpty ≠ 0) (hne : query ≠ [])
    (hkeys : CompiledKeys compile patterns keys)
    (hintact : ∀ piece ∈ query.splitOn andSign, Intact keys piece) :
    cleanedQuery pcre flags patterns (some query) =
      renderedQuery (keptParameters flags (unlistedParameters keys query)) := by
  obtain ⟨rest, hsplit, hfirst, hrest⟩ := exists_splitOn andSign query
  have hpieces : ∀ piece ∈ before andSign query :: rest, andSign ∉ piece :=
    List.forall_mem_cons.2 ⟨hfirst, hrest⟩
  have hjoined : [andSign].intercalate (before andSign query :: rest) = query := by
    rw [← hsplit]
    exact List.intercalate_splitOn andSign
  have hstrip := stripItems_compiledKeys hpcre hkeys hpieces (by rwa [← hsplit])
    (by rwa [hjoined])
  rw [hjoined] at hstrip
  rw [cleanedQuery, Option.bind_some, hstrip, rebuildQuery_firstOf hempty hpieces, ← hsplit,
    ← unlistedParameters_eq]

/-- **Rules that are keys** take out of the query exactly the parameters with one of the keys, and
empty ones, if no rule clips a parameter. -/
theorem keyRules_exact
    (hpcre : ∀ key pattern, IsKey key → compile (extendedPattern key) = some pattern →
      pcre.FindsParameter pattern key)
    {rulesets : Rulesets Code} {flags : Flags} {sourceUrl query : Bytes} {uri : URI}
    {keys : List Bytes} (hempty : flags.stripEmpty ≠ 0)
    (hparse : uriParse {} sourceUrl = .ok uri) (hquery : uri.query = some query)
    (hstore : ¬ rulesets.offset < 1)
    (hredirection : firstRedirection pcre flags sourceUrl rulesets.items = none)
    (hkeys : CompiledKeys compile (patternsInForce pcre flags sourceUrl rulesets.items) keys)
    (hintact : ∀ piece ∈ query.splitOn andSign, Intact keys piece) :
    unalixCleanUrl pcre rulesets 1 (some sourceUrl) flags = some (.ok (uriStringify
      { strippedUri pcre flags sourceUrl rulesets.items uri with
        query := renderedQuery (keptParameters flags (unlistedParameters keys query)) })) := by
  have hne : query ≠ [] := (fieldsNotEmpty_of_uriParse hparse).query query hquery
  rw [unalixCleanUrl, Chains.follow_succ_of_inr
    (cleanStep_of_firstRedirection hparse hstore hredirection), printedUri_eq, hquery,
    cleanedQuery_eq hpcre hempty hne hkeys hintact]

theorem compileRule_extendedPattern (key : Bytes) :
    compileRule (extendedPattern key) = some (.inr key) := by
  have hfront : (str "(?:^|&|\\?)").length = 10 := by decide
  have hfirst : (extendedPattern []).take 10 = str "(?:^|&|\\?)" := by decide
  have hlength : (extendedPattern key).length - 21 = key.length := by
    have hback : (str "(?:=[^&]*)?").length = 11 := by decide
    rw [extendedPattern, List.length_append, List.length_append, hfront, hback]
    omega
  have hbegins : str "(?:^|&|\\?)" <+: extendedPattern key := by
    rw [extendedPattern, List.append_assoc]
    exact List.prefix_append _ _
  have hdrop : (extendedPattern key).drop 10 = key ++ str "(?:=[^&]*)?" := by
    rw [extendedPattern, List.append_assoc, ← hfront, List.drop_left]
  rw [compileRule, if_pos (by rwa [hfirst]), hlength, hdrop, List.take_left]

theorem findsParameter_compileRule (key : Bytes) (pattern : Pattern ⊕ Bytes) (_ : IsKey key)
    (hpattern : compileRule (extendedPattern key) = some pattern) :
    rulePcre.FindsParameter pattern key := by
  rw [compileRule_extendedPattern] at hpattern
  obtain rfl := Option.some.inj hpattern
  exact ⟨fun _ => rfl, fun _ => rfl⟩

/-- Two providers whose three rules are keys. -/
def keysStore : Rulesets (Pattern ⊕ Bytes) where
  size := sizeofRuleset * 2
  items := [
    { urlPattern := .inl (.literal (str "http")), rules := [.inr (str "ref")]
      referralMarketing := [.inr (str "utm")] },
    { urlPattern := .inl (.literal (str "a.com")), rules := [.inr (str "gclid")] }]

/-- The first parameter and two others are removed, an empty one and a second one with its key. -/
theorem keyRules_exact_keys :
    let uri : URI :=
      { scheme := some (str "http"), hostname := some (str "a.com")
        query := some (str "utm=1&b=2&ref=x&c&b=3&gclid") }
    let flags : Flags := { stripEmpty := 1, stripDuplicates := 1 }
    unalixCleanUrl rulePcre keysStore 1 (some (str "http://a.com/?utm=1&b=2&ref=x&c&b=3&gclid"))
        flags = some (.ok (uriStringify
      { strippedUri rulePcre flags (str "http://a.com/?utm=1&b=2&ref=x&c&b=3&gclid")
          keysStore.items uri with
        query := renderedQuery (keptParameters flags (unlistedParameters
          [str "ref", str "utm", str "gclid"] (str "utm=1&b=2&ref=x&c&b=3&gclid"))) })) ∧
      renderedQuery (keptParameters flags (unlistedParameters
        [str "ref", str "utm", str "gclid"] (str "utm=1&b=2&ref=x&c&b=3&gclid"))) =
          some (str "b=2") := by
  intro uri flags
  have hkeys : CompiledKeys compileRule (patternsInForce rulePcre flags
      (str "http://a.com/?utm=1&b=2&ref=x&c&b=3&gclid") keysStore.items)
        [str "ref", str "utm", str "gclid"] := by
    have hpatterns : patternsInForce rulePcre flags
        (str "http://a.com/?utm=1&b=2&ref=x&c&b=3&gclid") keysStore.items =
          [.inr (str "ref"), .inr (str "utm"), .inr (str "gclid")] := by
      decide +kernel
    rw [hpatterns]
    exact .cons ⟨⟨by decide, by decide⟩, compileRule_extendedPattern _⟩
      (.cons ⟨⟨by decide, by decide⟩, compileRule_extendedPattern _⟩
        (.cons ⟨⟨by decide, by decide⟩, compileRule_extendedPattern _⟩ .nil))
  have hparse : uriParse {} (str "http://a.com/?utm=1&b=2&ref=x&c&b=3&gclid") = .ok uri := by
    decide +kernel
  refine ⟨keyRules_exact findsParameter_compileRule (by decide) hparse rfl (by decide) (by decide +kernel) hkeys ?_, ?_⟩
  · decide +kernel
  · decide +kernel

/-! ## Cleaning again -/

theorem firstOfKey_idem {α κ : Type*} [DecidableEq κ] (key : α → κ) (l : List α) :
    firstOfKey key (firstOfKey key l) = firstOfKey key l := by
  induction l using List.reverseRecOn with
  | nil => rfl
  | append_singleton l x ih =>
    rw [firstOfKey_concat]
    split
    · exact ih
    · rename_i hx
      rw [firstOfKey_concat, if_neg (mt (mem_map_firstOfKey key).1 hx), ih]

/-- The parameters that are kept have a key and a value, if empty ones are stripped. -/
theorem isSome_of_mem_keptParameters {flags : Flags} (hflag : flags.stripEmpty ≠ 0)
    {parameters : List Parameter} {parameter : Parameter}
    (h : parameter ∈ keptParameters flags parameters) :
    parameter.key.isSome = true ∧ parameter.value.isSome = true := by
  induction parameters using List.reverseRecOn with
  | nil => simp at h
  | append_singleton parameters last ih =>
    rw [keptParameters_concat] at h
    split at h
    · exact ih h
    · rename_i hlast
      have hsome : last.key.isSome = true ∧ last.value.isSome = true := by
        simpa [hflag, Option.isSome_iff_ne_none] using hlast
      split at h
      · split at h
        · exact ih h
        · rcases List.mem_append.1 h with h | h
          · exact ih h
          · rwa [List.mem_singleton.1 h]
      · rcases List.mem_append.1 h with h | h
        · exact ih h
        · rwa [List.mem_singleton.1 h]

/-- Nothing more is left out of what was kept. -/
theorem keptParameters_idem (flags : Flags) (parameters : List Parameter) :
    keptParameters flags (keptParameters flags parameters) = keptParameters flags parameters := by
  have hremaining : remainingParameters flags (keptParameters flags parameters) =
      keptParameters flags parameters := by
    rw [remainingParameters]
    split
    · rename_i hflag
      rw [List.filter_eq_self]
      intro parameter hmem
      rw [Bool.and_eq_true]
      exact isSome_of_mem_keptParameters hflag hmem
    · rfl
  rw [keptParameters, hremaining]
  split
  · rename_i hflag
    rw [keptParameters, if_pos hflag, firstOfKey_idem]
  · rfl

/-- **Writing a query again** is done once: the query that was written stays as it is, whatever the
flags. -/
theorem rebuildQuery_idem (flags : Flags) (query : Option Bytes) :
    rebuildQuery flags (rebuildQuery flags query) = rebuildQuery flags query := by
  cases query with
  | none => rfl
  | some query =>
    rw [rebuildQuery_eq]
    by_cases hkept : keptParameters flags (queryParse query) = []
    · rw [hkept]
      rfl
    · have hplain : ∀ parameter ∈ keptParameters flags (queryParse query), parameter.Plain :=
        fun parameter hmem => plain_of_mem_queryParse ((keptParameters_sublist flags _).subset hmem)
      rw [renderedQuery, if_neg hkept, ← queryStringify_eq, rebuildQuery_eq,
        queryParse_queryStringify hkept hplain, keptParameters_idem, renderedQuery, if_neg hkept,
        ← queryStringify_eq]

/-- A piece with a value is printed as it is. -/
theorem text_readParameter {piece : Bytes} (h : (readParameter piece).value.isSome = true) :
    (readParameter piece).text = piece := by
  have hmem : equalSign ∈ piece := by
    by_contra hnot
    rw [readParameter, after_of_not_mem hnot] at h
    cases h
  rw [Parameter.text, readParameter]
  simp only [text_nonempty]
  exact before_append_cut hmem

/-- **Cleaning a query again** with rules that are keys changes nothing. -/
theorem cleanedQuery_idem
    (hpcre : ∀ key pattern, IsKey key → compile (extendedPattern key) = some pattern →
      pcre.FindsParameter pattern key)
    {flags : Flags} {query : Bytes} {patterns : List Code} {keys : List Bytes}
    (hempty : flags.stripEmpty ≠ 0) (hne : query ≠ [])
    (hkeys : CompiledKeys compile patterns keys)
    (hintact : ∀ piece ∈ query.splitOn andSign, Intact keys piece) :
    cleanedQuery pcre flags patterns (cleanedQuery pcre flags patterns (some query)) =
      cleanedQuery pcre flags patterns (some query) := by
  have hfirst := cleanedQuery_eq hpcre hempty hne hkeys hintact
  rw [hfirst]
  obtain ⟨kept, hkept⟩ : ∃ kept, keptParameters flags (unlistedParameters keys query) = kept :=
    ⟨_, rfl⟩
  have hidem := keptParameters_idem flags (unlistedParameters keys query)
  have hsome := @isSome_of_mem_keptParameters _ hempty (unlistedParameters keys query)
  have hsub := (keptParameters_sublist flags (unlistedParameters keys query)).subset
  rw [hkept] at hidem hsub hsome ⊢
  by_cases hnil : kept = []
  · rw [hnil]
    rfl
  · -- the pieces that are printed are pieces of the query
    have hpiece (parameter : Parameter) (hmem : parameter ∈ kept) :
        ∃ piece ∈ query.splitOn andSign, ¬ Listed keys piece ∧ parameter = readParameter piece ∧
          parameter.text = piece := by
      have hunlisted := hsub hmem
      rw [unlistedParameters_eq, List.mem_map] at hunlisted
      obtain ⟨piece, hpiece, rfl⟩ := hunlisted
      rw [List.mem_filter, decide_eq_true_iff] at hpiece
      exact ⟨piece, hpiece.1, hpiece.2, rfl, text_readParameter (hsome hmem).2⟩
    have hplain : ∀ parameter ∈ kept, parameter.Plain := by
      intro parameter hmem
      obtain ⟨piece, hquery, -, rfl, -⟩ := hpiece parameter hmem
      exact Parameter.plain_readParameter (not_mem_of_mem_splitOn hquery)
    have hsplit : (queryStringify kept).splitOn andSign = kept.map Parameter.text := by
      rw [queryStringify_eq, List.splitOn_intercalate andSign _ (by simpa using hnil)]
      intro piece hmem
      obtain ⟨parameter, hparameter, rfl⟩ := List.mem_map.1 hmem
      exact (hplain parameter hparameter).andSign_not_mem
    have hintact' : ∀ piece ∈ (queryStringify kept).splitOn andSign, Intact keys piece := by
      intro piece hmem
      rw [hsplit] at hmem
      obtain ⟨parameter, hparameter, rfl⟩ := List.mem_map.1 hmem
      obtain ⟨piece, hquery, -, -, htext⟩ := hpiece parameter hparameter
      rw [htext]
      exact hintact piece hquery
    have hunlisted : unlistedParameters keys (queryStringify kept) = kept := by
      rw [unlistedParameters, queryParse_queryStringify hnil hplain, List.filter_eq_self]
      intro parameter hmem
      obtain ⟨piece, -, hnot, rfl, -⟩ := hpiece parameter hmem
      rw [decide_eq_true_iff]
      exact fun key hkey heq => hnot ⟨key, hkey, heq⟩
    rw [renderedQuery, if_neg hnil, ← queryStringify_eq,
      cleanedQuery_eq hpcre hempty (queryStringify_ne_nil hnil) hkeys hintact', hunlisted, hidem,
      renderedQuery, if_neg hnil, ← queryStringify_eq]

/-- The query is `b=2&d=4` after both rounds. -/
theorem cleanedQuery_idem_keys :
    let flags : Flags := { stripEmpty := 1 }
    cleanedQuery rulePcre flags [.inr (str "utm")]
        (cleanedQuery rulePcre flags [.inr (str "utm")] (some (str "utm=1&b=2&c&d=4"))) =
      cleanedQuery rulePcre flags [.inr (str "utm")] (some (str "utm=1&b=2&c&d=4")) := by
  intro flags
  have hkeys : CompiledKeys compileRule [.inr (str "utm")] [str "utm"] :=
    .cons ⟨⟨by decide, by decide⟩, compileRule_extendedPattern _⟩ .nil
  exact cleanedQuery_idem findsParameter_compileRule (by decide) (by decide) hkeys
    (by decide +kernel)

end Unalix
