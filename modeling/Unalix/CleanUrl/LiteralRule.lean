import Unalix.CleanUrl.Frame
import Unalix.CleanUrl.KeyPattern
import Unalix.CleanUrl.Rebuild

/-!
# Rules that are a key (`clean_url.c`)

A rule that is a key is to remove the parameters with this key. The query that is left is written
again piece by piece. It is the one that is wanted if no piece with another key is touched by the
pattern, the first parameter is kept or none is, and what is kept is not a single empty piece
(`literalRule_exact_iff`): behind a first parameter that is removed its `&` stays, which is read
as a parameter without key and value; and an empty query is not written at all.
-/

namespace Unalix

open Ascii CString Deletion Outcome

variable {key query : Bytes}

/-! ## The query is written again -/

theorem countP_readParameter (piece : Bytes) :
    (readParameter piece).text.countP isLetter = piece.countP isLetter := by
  rw [Parameter.text, readParameter]
  simp only [text_nonempty]
  by_cases h : equalSign ∈ piece
  · rw [before_append_cut h]
  · rw [before_of_not_mem h, after_of_not_mem h, List.countP_append, List.countP_singleton]
    simp [isLetter]

theorem countP_intercalate (pieces : List Bytes) :
    ([andSign].intercalate pieces).countP isLetter =
      (pieces.map (List.countP isLetter)).sum := by
  have hsign (s : Bytes) : (andSign :: s).countP isLetter = s.countP isLetter :=
    List.countP_cons_of_neg (by decide)
  cases pieces with
  | nil => rfl
  | cons piece pieces =>
    rw [intercalate_cons, List.countP_append, List.countP_flatten, List.map_map, List.map_cons,
      List.sum_cons]
    simp only [Function.comp_def, hsign]

theorem queryStringify_queryParse (query : Bytes) : queryStringify (queryParse query) =
    [andSign].intercalate ((query.splitOn andSign).map fun piece => (readParameter piece).text) := by
  rw [queryStringify_eq, queryParse_eq, List.map_map]
  rfl

/-- Writing a query again neither adds nor removes letters. -/
theorem countP_queryStringify (query : Bytes) :
    (queryStringify (queryParse query)).countP isLetter = query.countP isLetter := by
  have hquery : [andSign].intercalate (query.splitOn andSign) = query :=
    List.intercalate_splitOn andSign
  conv_rhs => rw [← hquery]
  rw [queryStringify_queryParse, countP_intercalate, countP_intercalate, List.map_map]
  congr 1
  exact List.map_congr_left fun piece _ => countP_readParameter piece

theorem rebuildQuery_nonempty (query : Bytes) : rebuildQuery {} (nonempty query) =
    if query = [] then none else some (queryStringify (queryParse query)) := by
  have hkept (parameters : List Parameter) : keptParameters {} parameters = parameters := rfl
  split
  · rename_i h
    rw [h]
    rfl
  · rename_i h
    rw [nonempty_of_ne_nil h, rebuildQuery_eq, hkept, renderedQuery,
      if_neg (queryParse_ne_nil query), ← queryStringify_eq]

/-! ## What a rule leaves of a query -/

/-- The query when the pattern of a rule has been stripped. -/
def leftQuery (key query : Bytes) : Bytes := deleteAll (parameterMatch key) 0 true query

/-- The pieces whose key is another one. -/
def keptPieces (key query : Bytes) : List Bytes :=
  (query.splitOn andSign).filter fun piece => ¬ HasKey key piece

/-- What is left has the letters that are left of the pieces. -/
theorem IsKey.countP_leftQuery (h : IsKey key) (query : Bytes) :
    (leftQuery key query).countP isLetter =
      ((query.splitOn andSign).map fun piece => (leftOf key piece).countP isLetter).sum := by
  obtain ⟨pieces, hsplit, hfirst, hall⟩ := exists_splitOn andSign query
  have hquery : [andSign].intercalate (query.splitOn andSign) = query :=
    List.intercalate_splitOn andSign
  rw [hsplit] at hquery ⊢
  have hleft : leftQuery key query = _ := hquery ▸ h.deleteAll_pieces hfirst hall
  rw [hleft, List.countP_append, List.countP_flatten, List.map_map, List.map_cons, List.sum_cons]
  simp only [Function.comp_def, countP_leftBehind]

/-- The letters that are wanted. -/
theorem countP_keptPieces (key query : Bytes) :
    ((keptPieces key query).map (List.countP isLetter)).sum =
      ((query.splitOn andSign).map fun piece =>
        if HasKey key piece then 0 else piece.countP isLetter).sum := by
  rw [keptPieces]
  induction query.splitOn andSign with
  | nil => rfl
  | cons piece pieces ih =>
    rw [List.map_cons, List.sum_cons, ← ih]
    by_cases hkey : HasKey key piece
    · rw [List.filter_cons_of_neg (by simpa using hkey), if_pos hkey, Nat.zero_add]
    · rw [List.filter_cons_of_pos (by simpa using hkey), if_neg hkey, List.map_cons, List.sum_cons]

/-- **When a piece that is kept is touched**, letters are missing. -/
theorem IsKey.countP_leftQuery_lt (h : IsKey key) {piece : Bytes}
    (hkept : piece ∈ keptPieces key query) (htouched : Touched key piece) :
    (leftQuery key query).countP isLetter <
      ((keptPieces key query).map (List.countP isLetter)).sum := by
  obtain ⟨pieces, hsplit, hfirst, hall⟩ := exists_splitOn andSign query
  have hpieces : ∀ piece ∈ query.splitOn andSign, andSign ∉ piece := by
    rw [hsplit]
    exact List.forall_mem_cons.2 ⟨hfirst, hall⟩
  obtain ⟨hmem, hkey⟩ := List.mem_filter.1 hkept
  rw [decide_eq_true_iff] at hkey
  rw [h.countP_leftQuery, countP_keptPieces]
  apply List.sum_lt_sum
  · intro other hother
    split_ifs with hother'
    · rw [(h.leftBehind_of_hasKey (hpieces other hother) hother').1]
      rfl
    · exact countP_leftOf_le key other
  · refine ⟨piece, hmem, ?_⟩
    rw [if_neg hkey]
    exact h.countP_leftOf_lt (hpieces piece hmem) htouched

/-- The first piece, empty when it has the key. -/
def firstLeft (key query : Bytes) : Bytes :=
  if HasKey key (before andSign query) then [] else before andSign query

/-- The pieces behind the first one: those with the key are left out with the `&` in front. -/
theorem IsKey.flatten_leftBehind (h : IsKey key) {pieces : List Bytes}
    (hpieces : ∀ piece ∈ pieces, andSign ∉ piece)
    (huntouched : ∀ piece ∈ pieces, ¬ HasKey key piece → ¬ Touched key piece) :
    (pieces.map (leftBehind key)).flatten =
      ((pieces.filter fun piece => ¬ HasKey key piece).map (andSign :: ·)).flatten := by
  induction pieces with
  | nil => rfl
  | cons piece pieces ih =>
    obtain ⟨hpiece, hrest⟩ := List.forall_mem_cons.1 hpieces
    obtain ⟨hthis, huntouched'⟩ := List.forall_mem_cons.1 huntouched
    rw [List.map_cons, List.flatten_cons, ih hrest huntouched']
    by_cases hkey : HasKey key piece
    · rw [(h.leftBehind_of_hasKey hpiece hkey).2, List.nil_append,
        List.filter_cons_of_neg (by simpa using hkey)]
    · rw [(leftBehind_of_not_touched hpiece (hthis hkey)).2,
        List.filter_cons_of_pos (by simpa using hkey), List.map_cons, List.flatten_cons]

/-- **When no piece that is kept is touched**, the pieces with the key are left out; only the first
one leaves an empty piece. -/
theorem IsKey.leftQuery_of_untouched (h : IsKey key) {pieces : List Bytes}
    (hsplit : query.splitOn andSign = before andSign query :: pieces)
    (hall : ∀ piece ∈ pieces, andSign ∉ piece)
    (huntouched : ∀ piece ∈ keptPieces key query, ¬ Touched key piece) :
    leftQuery key query = [andSign].intercalate
      (firstLeft key query :: pieces.filter fun piece => ¬ HasKey key piece) := by
  have hquery : [andSign].intercalate (query.splitOn andSign) = query :=
    List.intercalate_splitOn andSign
  have hkept (piece : Bytes) (hmem : piece ∈ query.splitOn andSign) (hkey : ¬ HasKey key piece) :
      ¬ Touched key piece :=
    huntouched piece (List.mem_filter.2 ⟨hmem, by simpa using hkey⟩)
  rw [hsplit] at hquery hkept
  obtain ⟨hfirst, hrest⟩ := List.forall_mem_cons.1 hkept
  have hleft : leftQuery key query = _ := hquery ▸ h.deleteAll_pieces (not_mem_before _ _) hall
  rw [hleft, h.flatten_leftBehind hall hrest, intercalate_cons, firstLeft]
  congr 1
  split_ifs with hkey
  · exact (h.leftBehind_of_hasKey (not_mem_before _ _) hkey).1
  · exact (leftBehind_of_not_touched (not_mem_before _ _) (hfirst hkey)).1

/-! ## The query that is wanted -/

/-- The query that is wanted: the parameters with another key. -/
def wantedQuery (key query : Bytes) : Option Bytes :=
  nonempty (queryStringify ((queryParse query).filter fun parameter => parameter.key ≠ some key))

/-- The rule removes exactly the parameters with its key. -/
structure RemovesExactly (key query : Bytes) : Prop where
  untouched : ∀ piece ∈ keptPieces key query, ¬ Touched key piece
  first : keptPieces key query = [] ∨ ¬ HasKey key (before andSign query)
  ne_empty : keptPieces key query ≠ [[]]

theorem wantedQuery_eq (key query : Bytes) : wantedQuery key query =
    nonempty ([andSign].intercalate
      ((keptPieces key query).map fun piece => (readParameter piece).text)) := by
  rw [wantedQuery, queryStringify_eq, queryParse_eq, List.filter_map, List.map_map, keptPieces]
  rfl

theorem wantedQuery_eq_none_iff (key query : Bytes) :
    wantedQuery key query = none ↔ keptPieces key query = [] := by
  rw [wantedQuery_eq, nonempty_eq_none_iff]
  rcases keptPieces key query with _ | ⟨piece, pieces⟩
  · simp
  · refine iff_of_false ?_ (List.cons_ne_nil _ _)
    rw [List.map_cons, intercalate_cons]
    exact List.append_ne_nil_of_left_ne_nil (Parameter.text_ne_nil _) _

/-- What is written for pieces that are joined. -/
theorem queryStringify_intercalate {pieces : List Bytes} (hne : pieces ≠ [])
    (hpieces : ∀ piece ∈ pieces, andSign ∉ piece) :
    queryStringify (queryParse ([andSign].intercalate pieces)) =
      [andSign].intercalate (pieces.map fun piece => (readParameter piece).text) := by
  rw [queryStringify_queryParse, List.splitOn_intercalate andSign hpieces hne]

theorem intercalate_eq_nil_iff {piece : Bytes} {pieces : List Bytes} :
    [andSign].intercalate (piece :: pieces) = [] ↔ piece :: pieces = [[]] := by
  rw [intercalate_cons, List.append_eq_nil_iff]
  rcases pieces with _ | ⟨other, pieces⟩ <;> simp

/-- The letters of the query that is wanted. -/
theorem countP_of_wantedQuery {wanted : Bytes} (h : wantedQuery key query = some wanted) :
    wanted.countP isLetter = ((keptPieces key query).map (List.countP isLetter)).sum := by
  have htext := text_nonempty ([andSign].intercalate
    ((keptPieces key query).map fun piece => (readParameter piece).text))
  rw [← wantedQuery_eq, h] at htext
  have hwanted : wanted = _ := htext
  rw [hwanted, countP_intercalate, List.map_map]
  congr 1
  exact List.map_congr_left fun piece _ => countP_readParameter piece

/-- A piece that is kept is touched: the query is another one. -/
theorem IsKey.rebuildQuery_ne_of_touched (h : IsKey key) {piece : Bytes}
    (hkept : piece ∈ keptPieces key query) (htouched : Touched key piece) :
    rebuildQuery {} (nonempty (leftQuery key query)) ≠ wantedQuery key query := by
  have hlt := h.countP_leftQuery_lt hkept htouched
  rw [rebuildQuery_nonempty]
  intro heq
  split_ifs at heq
  · rw [(wantedQuery_eq_none_iff key query).1 heq.symm] at hkept
    cases hkept
  · have hwanted := countP_of_wantedQuery heq.symm
    rw [countP_queryStringify] at hwanted
    omega

/-- The first parameter is removed and others are kept: the query begins with a parameter without key
and value. -/
theorem rebuildQuery_ne_of_first {piece : Bytes} {pieces : List Bytes}
    (hpieces : ∀ p ∈ piece :: pieces, andSign ∉ p) (hkept : keptPieces key query = piece :: pieces)
    (hleft : leftQuery key query = [andSign].intercalate ([] :: piece :: pieces)) :
    rebuildQuery {} (nonempty (leftQuery key query)) ≠ wantedQuery key query := by
  have hall : ∀ p ∈ [] :: piece :: pieces, andSign ∉ p :=
    List.forall_mem_cons.2 ⟨List.not_mem_nil, hpieces⟩
  rw [rebuildQuery_nonempty, hleft, queryStringify_intercalate (List.cons_ne_nil _ _) hall,
    wantedQuery_eq, hkept]
  intro heq
  split_ifs at heq with hnil
  · rw [intercalate_eq_nil_iff] at hnil
    cases hnil
  · have hsome (s : Bytes) : text (some s) = s := rfl
    have hwanted := congrArg (fun field => (text field).length) heq
    simp only [text_nonempty, hsome] at hwanted
    rw [List.map_cons, List.map_cons, intercalate_cons, intercalate_cons] at hwanted
    simp only [List.map_cons, List.flatten_cons, List.cons_append, List.length_append,
      List.length_cons] at hwanted
    omega

/-- **The query that is written is the one that is wanted** if and only if the rule removes exactly the
parameters with its key. -/
theorem IsKey.rebuildQuery_eq_iff (h : IsKey key) (query : Bytes) :
    rebuildQuery {} (nonempty (leftQuery key query)) = wantedQuery key query ↔
      RemovesExactly key query := by
  by_cases huntouched : ∀ piece ∈ keptPieces key query, ¬ Touched key piece
  · obtain ⟨pieces, hsplit, hfirst, hall⟩ := exists_splitOn andSign query
    have hleft := h.leftQuery_of_untouched hsplit hall huntouched
    have hrest : ∀ piece ∈ pieces.filter fun piece => ¬ HasKey key piece, andSign ∉ piece :=
      fun piece hmem => hall piece (List.mem_filter.1 hmem).1
    by_cases hkey : HasKey key (before andSign query)
    · have hkept : keptPieces key query = pieces.filter fun piece => ¬ HasKey key piece := by
        rw [keptPieces, hsplit, List.filter_cons_of_neg (by simpa using hkey)]
      rw [firstLeft, if_pos hkey, ← hkept] at hleft
      rw [← hkept] at hrest
      rcases hpieces : keptPieces key query with _ | ⟨piece, rest⟩
      · -- no parameter is kept
        refine iff_of_true ?_ ⟨huntouched, .inl hpieces, by rw [hpieces]; exact nofun⟩
        rw [hpieces, List.intercalate_singleton] at hleft
        rw [rebuildQuery_nonempty, if_pos hleft, (wantedQuery_eq_none_iff key query).2 hpieces]
      · rw [hpieces] at hleft hrest
        refine iff_of_false (rebuildQuery_ne_of_first hrest hpieces hleft) ?_
        intro hexact
        rcases hexact.first with hnil | hnot
        · rw [hpieces] at hnil
          cases hnil
        · exact hnot hkey
    · have hkept : keptPieces key query =
          before andSign query :: pieces.filter fun piece => ¬ HasKey key piece := by
        rw [keptPieces, hsplit, List.filter_cons_of_pos (by simpa using hkey)]
      have hkeptAll : ∀ piece ∈ keptPieces key query, andSign ∉ piece := by
        rw [hkept]
        exact List.forall_mem_cons.2 ⟨hfirst, hrest⟩
      have hne : keptPieces key query ≠ [] := by
        rw [hkept]
        exact List.cons_ne_nil _ _
      rw [firstLeft, if_neg hkey, ← hkept] at hleft
      have hnil : leftQuery key query = [] ↔ keptPieces key query = [[]] := by
        rw [hleft, hkept, intercalate_eq_nil_iff]
      rw [rebuildQuery_nonempty]
      by_cases hempty : keptPieces key query = [[]]
      · -- a single empty piece is kept
        rw [if_pos (hnil.2 hempty)]
        refine iff_of_false ?_ fun hexact => hexact.ne_empty hempty
        exact fun heq => hne ((wantedQuery_eq_none_iff key query).1 heq.symm)
      · refine iff_of_true ?_ ⟨huntouched, .inr hkey, hempty⟩
        rw [if_neg (mt hnil.1 hempty), hleft, queryStringify_intercalate hne hkeptAll,
          wantedQuery_eq, nonempty_of_ne_nil]
        intro hwanted
        refine hne ((wantedQuery_eq_none_iff key query).1 ?_)
        rw [wantedQuery_eq, hwanted]
        rfl
  · obtain ⟨piece, hpiece⟩ := not_forall.1 huntouched
    obtain ⟨hkept, htouched⟩ := Classical.not_imp.1 hpiece
    rw [not_not] at htouched
    exact iff_of_false (h.rebuildQuery_ne_of_touched hkept htouched)
      fun hexact => huntouched hexact.untouched

/-! ## The store -/

variable {Code : Type} {pcre : Pcre Code} {compile : Bytes → Option Code}
  {rulesets : Rulesets Code}

/-- A store with one provider whose only entry is a rule, as `load_ruleset` compiles it. -/
def OnlyRule (compile : Bytes → Option Code) (rulesets : Rulesets Code) (key : Bytes) : Prop :=
  ∃ urlPattern pattern, compile (extendedPattern key) = some pattern ∧
    rulesets.items = [{ urlPattern := urlPattern, rules := [pattern] }]

theorem loadArrays_of_none {value : Json} {names : List Bytes}
    (h : ∀ name ∈ names, jsonObjectGet value name = none) (ruleset : Ruleset Code) :
    loadArrays compile value names ruleset = .ok ruleset := by
  induction names with
  | nil => rfl
  | cons name names ih =>
    obtain ⟨hname, hrest⟩ := List.forall_mem_cons.1 h
    rw [loadArrays, loadArray, hname]
    exact ih hrest

/-- The arrays of a provider with one rule. -/
theorem loadArrays_of_rules {value : Json} {ruleset ruleset' : Ruleset Code}
    (hrules : jsonObjectGet value rulesKey = some (.array [.string key]))
    (hother : ∀ name ∈ arrayKeys.tail, jsonObjectGet value name = none)
    (hload : loadArrays compile value arrayKeys ruleset = .ok ruleset') :
    ∃ pattern, compile (extendedPattern key) = some pattern ∧
      ruleset' = { ruleset with rules := [pattern] } := by
  have hkeys : arrayKeys = rulesKey :: arrayKeys.tail := rfl
  have hitem : loadItems compile rulesKey [.string key] =
      regexCompile compile (extendedPattern key) >>= fun pattern => .ok [pattern] := rfl
  rw [hkeys, loadArrays, loadArray, hrules, bind_eq_ok] at hload
  obtain ⟨rules, hrules', hrest⟩ := hload
  simp only [hitem, regexCompile] at hrules'
  rw [loadArrays_of_none hother] at hrest
  cases hcompile : compile (extendedPattern key) with
  | none =>
    rw [hcompile] at hrules'
    cases hrules'
  | some pattern =>
    rw [hcompile] at hrules'
    obtain rfl := Except.ok.inj hrules'
    exact ⟨pattern, rfl, (Except.ok.inj hrest).symm⟩

/-- A ruleset that is made has read its arrays. -/
theorem exists_of_loadProvider {name : Bytes} {value : Json} {ruleset : Ruleset Code}
    (h : loadProvider compile name value = .ok (some ruleset)) :
    ∃ urlPattern, loadArrays compile value arrayKeys { urlPattern := urlPattern } =
      .ok ruleset := by
  unfold loadProvider at h
  split at h
  · cases h
  · split at h
    · obtain ⟨complete, -, h⟩ := bind_eq_ok.1 h
      cases complete with
      | true => cases h
      | false =>
        obtain ⟨urlPattern, -, h⟩ := bind_eq_ok.1 h
        obtain ⟨loaded, harrays, hsome⟩ := bind_eq_ok.1 h
        obtain rfl := Option.some.inj (Except.ok.inj hsome)
        exact ⟨urlPattern, harrays⟩
    · cases h

/-- The loader makes such a store of a provider with one rule. -/
theorem onlyRule_of_loadRuleset {name : Bytes} {value : Json}
    (hrules : jsonObjectGet value rulesKey = some (.array [.string key]))
    (hother : ∀ other ∈ arrayKeys.tail, jsonObjectGet value other = none)
    (hload : loadRuleset compile (.object [(providersKey, .object [(name, value)])]) {} =
      (.ok (), rulesets))
    (hne : rulesets.items ≠ []) : OnlyRule compile rulesets key := by
  have hproviders : jsonObjectGet (.object [(providersKey, .object [(name, value)])])
      providersKey = some (.object [(name, value)]) := by
    simp [jsonObjectGet]
  rw [loadRuleset, hproviders] at hload
  simp only [loadProviders] at hload
  cases hprovider : loadProvider compile name value with
  | error e =>
    rw [hprovider] at hload
    cases (Prod.mk.inj hload).1
  | ok provider =>
    rw [hprovider] at hload
    obtain ⟨-, rfl⟩ := Prod.mk.inj hload
    cases provider with
    | none => exact absurd rfl hne
    | some ruleset =>
      obtain ⟨urlPattern, harrays⟩ := exists_of_loadProvider hprovider
      obtain ⟨pattern, hcompile, rfl⟩ := loadArrays_of_rules hrules hother harrays
      exact ⟨urlPattern, pattern, hcompile, rfl⟩

/-! ## Cleaning with one rule -/

/-- What PCRE2 does with the pattern of a rule that is a key: it finds the leftmost match, and a global
substitution takes out the leftmost matches that do not overlap. -/
structure Pcre.FindsParameter (pcre : Pcre Code) (pattern : Code) (key : Bytes) : Prop where
  pcre2Match : ∀ subject, pcre.pcre2Match pattern subject =
    (firstMatch (parameterMatch key) 0 true subject).map fun place => [place.1, place.2]
  substitute : ∀ subject, pcre.substitute pattern subject =
    some (deleteAll (parameterMatch key) 0 true subject)

/-- `regex_strip` with the pattern of the rule. -/
theorem regexStrip_of_findsParameter {pattern : Code} (h : IsKey key)
    (hpcre : pcre.FindsParameter pattern key) (hquery : query ≠ []) :
    regexStrip pcre pattern query = nonempty (leftQuery key query) := by
  rw [regexStrip, regexMatch, hpcre.pcre2Match, Option.isSome_map, pcre2Substitute,
    hpcre.substitute]
  cases hmatch : (firstMatch (parameterMatch key) 0 true query).isSome with
  | false =>
    rw [leftQuery, deleteAll_of_firstMatch hmatch, nonempty_of_ne_nil hquery]
    rfl
  | true =>
    -- the output is shorter, so it fits
    have hlt := countP_deleteAll_lt h.countP_parameterMatch hmatch
    have hsub := deleteAll_sublist (parameterMatch key) 0 true query
    have hle := hsub.length_le
    have hne : (deleteAll (parameterMatch key) 0 true query).length ≠ query.length := by
      intro heq
      rw [hsub.eq_of_length heq] at hlt
      exact Nat.lt_irrefl _ hlt
    rw [if_pos rfl]
    simp only
    rw [if_pos (by omega)]
    simp only
    rw [leftQuery]
    rcases deleteAll (parameterMatch key) 0 true query with _ | ⟨c, s⟩
    · rfl
    · rfl

/-- What the provider leaves of the query. -/
theorem query_strippedUri {pattern urlPattern : Code} (h : IsKey key)
    (hpcre : pcre.FindsParameter pattern key) {uri : URI} (hquery : uri.query = some query)
    (hne : query ≠ []) {sourceUrl : Bytes}
    (hurl : regexMatch pcre urlPattern sourceUrl = true) :
    (strippedUri pcre {} sourceUrl [{ urlPattern := urlPattern, rules := [pattern] }] uri).query =
      nonempty (leftQuery key query) := by
  have hactive : Active pcre {} sourceUrl { urlPattern := urlPattern, rules := [pattern] } :=
    ⟨hurl, fun _ => rfl⟩
  rw [strippedUri, List.filter_cons_of_pos (by simpa using hactive), List.filter_nil,
    List.foldl_cons, List.foldl_nil, stripRuleset]
  simp only [hquery, stripField, stripItems, if_true, regexStrip_of_findsParameter h hpcre hne]
  cases nonempty (leftQuery key query) <;> rfl

/-- The query of a URL can be read from its text when the rest is known. -/
theorem uriStringify_query_inj {uri : URI} {q q' : Option Bytes} :
    uriStringify { uri with query := q } = uriStringify { uri with query := q' } ↔ q = q' := by
  refine ⟨fun h => ?_, fun h => by rw [h]⟩
  simp only [uriStringify] at h
  have hquery := List.append_cancel_left (List.append_cancel_right h)
  cases q with
  | none =>
    cases q' with
    | none => rfl
    | some s' => cases hquery
  | some s =>
    cases q' with
    | none => cases hquery
    | some s' => exact congrArg some (List.cons.inj hquery).2

/-- **A rule that is a key**: with a store whose only rule it is, cleaning a URL writes the query with
the parameters that have another key, as they are and in their order, if and only if the rule
removes exactly the parameters with its key. -/
theorem literalRule_exact_iff (hkey : IsKey key)
    (hpcre : ∀ pattern, compile (extendedPattern key) = some pattern →
      pcre.FindsParameter pattern key)
    (hstore : OnlyRule compile rulesets key) {sourceUrl : Bytes} {uri : URI}
    (hparse : uriParse {} sourceUrl = .ok uri) (hquery : uri.query = some query)
    (hurl : ∀ ruleset ∈ rulesets.items, regexMatch pcre ruleset.urlPattern sourceUrl = true) :
    ∃ target, unalixCleanUrl pcre rulesets 1 (some sourceUrl) {} = some (.ok target) ∧
      (target = uriStringify { strippedUri pcre {} sourceUrl rulesets.items uri with
          query := wantedQuery key query } ↔
        RemovesExactly key query) := by
  obtain ⟨urlPattern, pattern, hcompile, hitems⟩ := hstore
  have hne : query ≠ [] := (fieldsNotEmpty_of_uriParse hparse).query query hquery
  have hmatch : regexMatch pcre urlPattern sourceUrl = true := by
    rw [hitems] at hurl
    exact hurl _ (List.mem_singleton_self _)
  have hoffset : ¬ rulesets.offset < 1 := by
    rw [Rulesets.offset, hitems]
    exact Nat.lt_irrefl 1
  have hnone : firstRedirection pcre {} sourceUrl rulesets.items = none := by
    rw [hitems, firstRedirection, if_pos rfl, List.findSome?_eq_none_iff]
    intro ruleset hmem
    rw [List.mem_singleton.1 (List.mem_filter.1 hmem).1]
    rfl
  have hstep := cleanStep_of_firstRedirection hparse hoffset hnone
  refine ⟨_, Chains.follow_succ_of_inr hstep 0, ?_⟩
  rw [printedUri]
  simp only
  rw [uriStringify_query_inj, hitems,
    query_strippedUri hkey (hpcre pattern hcompile) hquery hne hmatch]
  exact hkey.rebuildQuery_eq_iff query

/-! ## Examples -/

/-- PCRE2 on texts without metacharacters and on the patterns of rules that are a key. -/
def rulePcre : Pcre (Pattern ⊕ Bytes) where
  pcre2Match pattern subject :=
    match pattern with
    | .inl pattern => Pattern.pcre.pcre2Match pattern subject
    | .inr key => (firstMatch (parameterMatch key) 0 true subject).map fun place =>
      [place.1, place.2]
  substitute pattern subject :=
    match pattern with
    | .inl pattern => Pattern.pcre.substitute pattern subject
    | .inr key => some (deleteAll (parameterMatch key) 0 true subject)

/-- `pcre2_compile` on these patterns: the key is between the text in front of it and the text behind
it. -/
def compileRule (src : Bytes) : Option (Pattern ⊕ Bytes) :=
  if (extendedPattern []).take 10 <+: src then some (.inr ((src.drop 10).take (src.length - 21)))
  else (Pattern.compile src).map .inl

/-- A store for the rule `utm`. -/
def utmStore : Rulesets (Pattern ⊕ Bytes) where
  size := sizeofRuleset
  items := [{ urlPattern := .inl (.literal (str "http")), rules := [.inr (str "utm")] }]

/-- A parameter between two others is removed. -/
theorem literalRule_exact_utm :
    let uri : URI :=
      { scheme := some (str "http"), hostname := some (str "a.com")
        query := some (str "b=1&utm=2&c") }
    ∃ target,
      unalixCleanUrl rulePcre utmStore 1 (some (str "http://a.com/?b=1&utm=2&c")) {} =
        some (.ok target) ∧
      (target = uriStringify { strippedUri rulePcre {} (str "http://a.com/?b=1&utm=2&c")
          utmStore.items uri with query := wantedQuery (str "utm") (str "b=1&utm=2&c") } ↔
        RemovesExactly (str "utm") (str "b=1&utm=2&c")) := by
  intro uri
  have hkey : IsKey (str "utm") := ⟨by decide, by decide⟩
  have hcompile : compileRule (extendedPattern (str "utm")) = some (.inr (str "utm")) := by
    decide +kernel
  have hpcre : ∀ pattern, compileRule (extendedPattern (str "utm")) = some pattern →
      rulePcre.FindsParameter pattern (str "utm") := by
    intro pattern hpattern
    rw [hcompile] at hpattern
    obtain rfl := Option.some.inj hpattern
    exact ⟨fun _ => rfl, fun _ => rfl⟩
  have hparse : uriParse {} (str "http://a.com/?b=1&utm=2&c") = .ok uri := by decide +kernel
  exact literalRule_exact_iff hkey hpcre ⟨_, _, hcompile, rfl⟩ hparse rfl (by decide +kernel)

/-- The `&` behind a first parameter that is removed stays, and a longer key loses its beginning. -/
theorem not_literalRule_exact :
    (unalixCleanUrl rulePcre utmStore 1 (some (str "http://a.com/?utm=1&b=2")) {} =
        some (.ok (str "http://a.com/?=&b=2")) ∧
      wantedQuery (str "utm") (str "utm=1&b=2") = some (str "b=2")) ∧
    unalixCleanUrl rulePcre utmStore 1 (some (str "http://a.com/?b=1&utmx=2")) {} =
        some (.ok (str "http://a.com/?b=1x=2")) ∧
      wantedQuery (str "utm") (str "b=1&utmx=2") = some (str "b=1&utmx=2") := by
  refine ⟨⟨?_, ?_⟩, ?_, ?_⟩ <;> decide +kernel

end Unalix
