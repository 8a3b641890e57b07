import Unalix.Foundations.CString
import Unalix.Foundations.Ascii
import Unalix.Errors

/-!
# Loading rules (`ruleset.c`)

`load_ruleset` goes over the providers of a JSON tree. It checks one provider completely before it
extends the store, and an ill-formed provider ends the loop, but what the providers before it have
added stays. So loading is all-or-nothing exactly when every provider before the first ill-formed
one is skipped (`unalixLoad_allOrNothing_iff`).

The compiler of regular expressions and the JSON parser are parameters.
-/

namespace Unalix

open Outcome

/-! ## JSON -/

/-- A `json_t` of jansson; the members of an object are in the order of insertion. -/
inductive Json
  | null
  | boolean (value : Bool)
  | integer (value : ℤ)
  | real (text : Bytes)
  | string (value : Bytes)
  | array (items : List Json)
  | object (members : List (Bytes × Json))

/-- `json_object_get`; null for a value that is not an object. -/
def jsonObjectGet (json : Json) (key : Bytes) : Option Json :=
  match json with
  | .object members => (members.find? fun member => member.1 = key).map Prod.snd
  | _ => none

/-! ## Keys and patterns -/

def urlPatternKey : Bytes := str "urlPattern"

def completeProviderKey : Bytes := str "completeProvider"

def rulesKey : Bytes := str "rules"

def rawRulesKey : Bytes := str "rawRules"

def referralMarketingKey : Bytes := str "referralMarketing"

def exceptionsKey : Bytes := str "exceptions"

def redirectionsKey : Bytes := str "redirections"

def providersKey : Bytes := str "providers"

/-- `ARRAY_KEYS`. -/
def arrayKeys : List Bytes :=
  [rulesKey, rawRulesKey, referralMarketingKey, exceptionsKey, redirectionsKey]

/-- `PREFIX_PROVIDER_IGNORE`. -/
def prefixProviderIgnore : Bytes := str "ClearURLsTest"

/-- `PREFIX_EXTENDED_PATTERN`, the text, `SUFFIX_EXTENDED_PATTERN`. -/
def extendedPattern (src : Bytes) : Bytes := str "(?:^|&|\\?)" ++ src ++ str "(?:=[^&]*)?"

/-- `should_modify_pattern`. -/
def shouldModifyPattern (name : Bytes) : Bool := name = rulesKey || name = referralMarketingKey

/-- The pattern that is compiled for an item of the array `name`. -/
def itemPattern (name src : Bytes) : Bytes :=
  if shouldModifyPattern name then extendedPattern src else src

/-! ## The store -/

/-- `struct Ruleset`; an array of patterns that is not set is empty. -/
structure Ruleset (Code : Type) where
  urlPattern : Code
  rules : List Code := []
  rawRules : List Code := []
  referralMarketing : List Code := []
  exceptions : List Code := []
  redirections : List Code := []
  deriving DecidableEq, Repr

/-- `sizeof(struct Ruleset)`: a pointer and five pairs of a size and a pointer. -/
def sizeofRuleset : ℕ := 88

/-- `struct Rulesets`; `offset` is the length of `items`. -/
@[ext] structure Rulesets (Code : Type) where
  size : ℕ := 0
  items : List (Ruleset Code) := []
  deriving DecidableEq, Repr

variable {Code : Type}

namespace Rulesets

def offset (rulesets : Rulesets Code) : ℕ := rulesets.items.length

/-- The end of the loop over the providers: the store is extended. -/
def append (rulesets : Rulesets Code) (ruleset : Ruleset Code) : Rulesets Code where
  size := rulesets.size + sizeofRuleset * 1
  items := rulesets.items ++ [ruleset]

end Rulesets

/-- The field of a ruleset that an array of patterns goes to. -/
def setRules (ruleset : Ruleset Code) (name : Bytes) (rules : List Code) : Ruleset Code :=
  if name = rulesKey then { ruleset with rules := rules }
  else if name = rawRulesKey then { ruleset with rawRules := rules }
  else if name = referralMarketingKey then { ruleset with referralMarketing := rules }
  else if name = exceptionsKey then { ruleset with exceptions := rules }
  else if name = redirectionsKey then { ruleset with redirections := rules }
  else ruleset

/-! ## `load_ruleset` -/

section Load

variable (compile : Bytes → Option Code)

/-- `regex_compile`. -/
def regexCompile (src : Bytes) : Outcome Code :=
  match compile src with
  | none => fail .regexCompilePatternFailure
  | some code => .ok code

/-- The loop over the items of an array. -/
def loadItems (name : Bytes) : List Json → Outcome (List Code)
  | [] => .ok []
  | .string src :: items => do
    let code ← regexCompile compile (itemPattern name src)
    let codes ← loadItems name items
    return code :: codes
  | _ :: _ => fail .jsonNonMatchingType

/-- One of the array keys: nothing when it is absent, null or empty. -/
def loadArray (value : Json) (name : Bytes) : Outcome (Option (List Code)) :=
  match jsonObjectGet value name with
  | none => .ok none
  | some .null => .ok none
  | some (.array []) => .ok none
  | some (.array items) => some <$> loadItems compile name items
  | some _ => fail .jsonNonMatchingType

/-- The loop over the array keys. -/
def loadArrays (value : Json) : List Bytes → Ruleset Code → Outcome (Ruleset Code)
  | [], ruleset => .ok ruleset
  | name :: names, ruleset => do
    let rules ← loadArray compile value name
    loadArrays value names (rules.elim ruleset (setRules ruleset name))

/-- `completeProvider`. -/
def readCompleteProvider (value : Json) : Outcome Bool :=
  match jsonObjectGet value completeProviderKey with
  | none => .ok false
  | some .null => .ok false
  | some (.boolean completeProvider) => .ok completeProvider
  | some _ => fail .jsonNonMatchingType

/-- `urlPattern`. -/
def loadUrlPattern (value : Json) : Outcome Code :=
  match jsonObjectGet value urlPatternKey with
  | none => fail .jsonMissingRequiredKey
  | some (.string urlPattern) => regexCompile compile urlPattern
  | some _ => fail .jsonNonMatchingType

/-- The body of the loop over the providers up to the extension of the store; nothing for a
provider that is skipped. -/
def loadProvider (key : Bytes) (value : Json) : Outcome (Option (Ruleset Code)) :=
  if prefixProviderIgnore <+: key then .ok none
  else match value with
    | .object _ => do
      let completeProvider ← readCompleteProvider value
      if completeProvider then return none
      let urlPattern ← loadUrlPattern compile value
      let ruleset ← loadArrays compile value arrayKeys { urlPattern := urlPattern }
      return some ruleset
    | _ => fail .jsonNonMatchingType

/-- The loop over the providers. -/
def loadProviders : List (Bytes × Json) → Rulesets Code → Outcome Unit × Rulesets Code
  | [], rulesets => (.ok (), rulesets)
  | (key, value) :: providers, rulesets =>
    match loadProvider compile key value with
    | .error e => (.error e, rulesets)
    | .ok none => loadProviders providers rulesets
    | .ok (some ruleset) => loadProviders providers (rulesets.append ruleset)

/-- `load_ruleset`: the code it returns, and the store. -/
def loadRuleset (tree : Json) (rulesets : Rulesets Code) : Outcome Unit × Rulesets Code :=
  match jsonObjectGet tree providersKey with
  | none => (fail .jsonMissingRequiredKey, rulesets)
  | some (.object providers) => loadProviders compile providers rulesets
  | some _ => (fail .jsonNonMatchingType, rulesets)

/-- A text is parsed, and the rules of its tree are loaded. -/
def loadParsed (parse : Bytes → Option Json) (source : Bytes) (dst : Rulesets Code) :
    Outcome Unit × Rulesets Code :=
  match parse source with
  | none => (fail .jsonCannotParse, dst)
  | some tree => loadRuleset compile tree dst

/-- `load_file`. -/
def loadFile (jsonLoadFile : Bytes → Option Json) (filename : Bytes) (dst : Rulesets Code) :
    Outcome Unit × Rulesets Code :=
  loadParsed compile jsonLoadFile filename dst

/-- `unalix_load_file`. -/
def unalixLoadFile (jsonLoadFile : Bytes → Option Json) (filename : Option Bytes)
    (rulesets : Rulesets Code) : Outcome Unit × Rulesets Code :=
  match filename with
  | none => (fail .argInvalid, rulesets)
  | some [] => (fail .argInvalid, rulesets)
  | some filename => loadFile compile jsonLoadFile filename rulesets

/-- `unalix_load_string`. -/
def unalixLoadString (jsonLoads : Bytes → Option Json) (string : Option Bytes)
    (rulesets : Rulesets Code) : Outcome Unit × Rulesets Code :=
  match string with
  | none => (fail .argInvalid, rulesets)
  | some [] => (fail .argInvalid, rulesets)
  | some string => loadParsed compile jsonLoads string rulesets

end Load

/-! ## Well-formed providers -/

/-- A provider that is passed over: one for tests, or a complete one. -/
def Skipped (provider : Bytes × Json) : Prop :=
  prefixProviderIgnore <+: provider.1 ∨
    jsonObjectGet provider.2 completeProviderKey = some (.boolean true)

section WellFormed

variable (compile : Bytes → Option Code)

/-- A string whose pattern compiles. -/
def WellFormedItem (name : Bytes) (item : Json) : Prop :=
  ∃ src, item = .string src ∧ (compile (itemPattern name src)).isSome = true

/-- An array of patterns, if there is one. -/
def WellFormedArray (name : Bytes) : Option Json → Prop
  | none => True
  | some .null => True
  | some (.array items) => ∀ item ∈ items, WellFormedItem compile name item
  | some _ => False

/-- A provider that a ruleset is made of. -/
structure WellFormedProvider (value : Json) : Prop where
  completeProvider : jsonObjectGet value completeProviderKey = none ∨
    jsonObjectGet value completeProviderKey = some .null ∨
    jsonObjectGet value completeProviderKey = some (.boolean false)
  urlPattern : ∃ src, jsonObjectGet value urlPatternKey = some (.string src) ∧
    (compile src).isSome = true
  arrays : ∀ name ∈ arrayKeys, WellFormedArray compile name (jsonObjectGet value name)

/-- A provider that ends the loop with an error. -/
def IllFormed (provider : Bytes × Json) : Prop :=
  ¬ Skipped provider ∧ ¬ WellFormedProvider compile provider.2

variable {compile}

/-- A call that returns success. -/
def Succeeds {α : Type} (r : Outcome α) : Prop := ∃ x, r = .ok x

theorem succeeds_ok {α : Type} (x : α) : Succeeds (.ok x : Outcome α) := ⟨x, rfl⟩

theorem not_succeeds_fail {α : Type} (e : ErrorCode) : ¬ Succeeds (fail e : Outcome α) := by
  intro ⟨x, h⟩
  exact fail_ne_ok e x h

theorem succeeds_regexCompile_iff (src : Bytes) :
    Succeeds (regexCompile compile src) ↔ (compile src).isSome = true := by
  rw [regexCompile]
  cases compile src with
  | none => simp [not_succeeds_fail]
  | some code => simp [succeeds_ok]

/-- A sequence of two calls where the second succeeds on every result or on none. -/
theorem succeeds_bind_iff {α β : Type} {r : Outcome α} {f : α → Outcome β} {P : Prop}
    (h : ∀ x, Succeeds (f x) ↔ P) : Succeeds (r >>= f) ↔ Succeeds r ∧ P := by
  cases r with
  | error e => simp [Succeeds]
  | ok x => rw [ok_bind, h x, and_iff_right (succeeds_ok x)]

theorem succeeds_loadItems_iff (name : Bytes) (items : List Json) :
    Succeeds (loadItems compile name items) ↔ ∀ item ∈ items, WellFormedItem compile name item := by
  induction items with
  | nil => simp [loadItems, succeeds_ok]
  | cons item items ih =>
    rw [List.forall_mem_cons, ← ih]
    cases item with
    | string src =>
      have hitem : WellFormedItem compile name (.string src) ↔
          Succeeds (regexCompile compile (itemPattern name src)) := by
        simp [WellFormedItem, succeeds_regexCompile_iff]
      rw [loadItems, hitem]
      apply succeeds_bind_iff
      intro code
      have hreturn (codes : List Code) : Succeeds (pure (code :: codes) : Outcome _) ↔ True :=
        iff_true_intro (succeeds_ok _)
      rw [succeeds_bind_iff hreturn, and_true]
    | _ => simp [loadItems, WellFormedItem, not_succeeds_fail]

theorem succeeds_loadArray_iff (value : Json) (name : Bytes) :
    Succeeds (loadArray compile value name) ↔
      WellFormedArray compile name (jsonObjectGet value name) := by
  rw [loadArray]
  rcases jsonObjectGet value name with _ | json
  · simp [WellFormedArray, succeeds_ok]
  · cases json with
    | null => simp [WellFormedArray, succeeds_ok]
    | array items =>
      cases items with
      | nil => simp [WellFormedArray, succeeds_ok]
      | cons item items =>
        rw [WellFormedArray, ← succeeds_loadItems_iff]
        simp only
        cases loadItems compile name (item :: items) <;> simp [Succeeds]
    | _ => simp [WellFormedArray, not_succeeds_fail]

theorem succeeds_loadArrays_iff (value : Json) (names : List Bytes) (ruleset : Ruleset Code) :
    Succeeds (loadArrays compile value names ruleset) ↔
      ∀ name ∈ names, WellFormedArray compile name (jsonObjectGet value name) := by
  induction names generalizing ruleset with
  | nil => simp [loadArrays, succeeds_ok]
  | cons name names ih =>
    rw [loadArrays, List.forall_mem_cons, ← succeeds_loadArray_iff]
    exact succeeds_bind_iff fun rules => ih _

theorem succeeds_loadUrlPattern_iff (value : Json) :
    Succeeds (loadUrlPattern compile value) ↔
      ∃ src, jsonObjectGet value urlPatternKey = some (.string src) ∧
        (compile src).isSome = true := by
  rw [loadUrlPattern]
  rcases jsonObjectGet value urlPatternKey with _ | json
  · simp [not_succeeds_fail]
  · cases json with
    | string src => simp [succeeds_regexCompile_iff]
    | _ => simp [not_succeeds_fail]

/-- `completeProvider` of a provider that is not skipped. -/
theorem readCompleteProvider_cases {provider : Bytes × Json} (h : ¬ Skipped provider) :
    (readCompleteProvider provider.2 = .ok false ∧
        (jsonObjectGet provider.2 completeProviderKey = none ∨
          jsonObjectGet provider.2 completeProviderKey = some .null ∨
          jsonObjectGet provider.2 completeProviderKey = some (.boolean false))) ∨
      ((∃ e, readCompleteProvider provider.2 = .error e) ∧
        ¬ WellFormedProvider compile provider.2) := by
  have htrue : jsonObjectGet provider.2 completeProviderKey ≠ some (.boolean true) := fun hget =>
    h (.inr hget)
  unfold readCompleteProvider
  rcases hget : jsonObjectGet provider.2 completeProviderKey with _ | json
  · simp
  · have hwell (hwell : WellFormedProvider compile provider.2) := hwell.completeProvider
    rw [hget] at htrue hwell
    cases json with
    | null => simp
    | boolean value =>
      cases value with
      | false => simp
      | true => exact absurd rfl htrue
    | _ => exact .inr ⟨⟨_, rfl⟩, fun h => by simpa using hwell h⟩

/-- The keys of a value that is no object are absent. -/
theorem exists_object_of_jsonObjectGet {value json : Json} {key : Bytes}
    (h : jsonObjectGet value key = some json) : ∃ members, value = .object members := by
  cases value with
  | object members => exact ⟨members, rfl⟩
  | _ => simp [jsonObjectGet] at h

/-- A provider whose `completeProvider` is read as false. -/
theorem loadProvider_of_false {key : Bytes} {members : List (Bytes × Json)}
    (hkey : ¬ prefixProviderIgnore <+: key)
    (hread : readCompleteProvider (.object members) = .ok false) :
    loadProvider compile key (.object members) = (do
      let urlPattern ← loadUrlPattern compile (.object members)
      let ruleset ← loadArrays compile (.object members) arrayKeys { urlPattern := urlPattern }
      return some ruleset) := by
  simp only [loadProvider, if_neg hkey, hread, ok_bind, Bool.false_eq_true, if_false]

theorem succeeds_loadProvider_iff {key : Bytes} {members : List (Bytes × Json)}
    (hkey : ¬ prefixProviderIgnore <+: key)
    (hread : readCompleteProvider (.object members) = .ok false) :
    Succeeds (loadProvider compile key (.object members)) ↔
      (∃ src, jsonObjectGet (.object members) urlPatternKey = some (.string src) ∧
        (compile src).isSome = true) ∧
      ∀ name ∈ arrayKeys, WellFormedArray compile name (jsonObjectGet (.object members) name) := by
  rw [loadProvider_of_false hkey hread, ← succeeds_loadUrlPattern_iff]
  apply succeeds_bind_iff
  intro urlPattern
  have hreturn (ruleset : Ruleset Code) : Succeeds (pure (some ruleset) : Outcome _) ↔ True :=
    iff_true_intro (succeeds_ok _)
  rw [succeeds_bind_iff hreturn, and_true, succeeds_loadArrays_iff]

/-- **What the loop does with one provider**: it is skipped, or it gives a ruleset, or it is
ill-formed and ends the loop. -/
theorem loadProvider_cases (provider : Bytes × Json) :
    (Skipped provider ∧ loadProvider compile provider.1 provider.2 = .ok none) ∨
      (¬ Skipped provider ∧ WellFormedProvider compile provider.2 ∧
        ∃ ruleset, loadProvider compile provider.1 provider.2 = .ok (some ruleset)) ∨
      (IllFormed compile provider ∧
        ∃ e, loadProvider compile provider.1 provider.2 = .error e) := by
  obtain ⟨key, value⟩ := provider
  by_cases hskip : Skipped (key, value)
  · left
    refine ⟨hskip, ?_⟩
    by_cases hkey : prefixProviderIgnore <+: key
    · simp only [loadProvider, if_pos hkey]
    · have hget := hskip.resolve_left hkey
      obtain ⟨members, rfl⟩ := exists_object_of_jsonObjectGet hget
      simp [loadProvider, hkey, readCompleteProvider, hget]
  · have hkey : ¬ prefixProviderIgnore <+: key := fun hkey => hskip (.inl hkey)
    right
    by_cases hobject : ∃ members, value = .object members
    · obtain ⟨members, rfl⟩ := hobject
      rcases @readCompleteProvider_cases Code compile _ hskip with
        ⟨hread, hcomplete⟩ | ⟨⟨e, hread⟩, hill⟩
      · have hiff := @succeeds_loadProvider_iff Code compile _ _ hkey hread
        rcases hload : loadProvider compile key (.object members) with e | result
        · right
          refine ⟨⟨hskip, fun hwell => ?_⟩, e, rfl⟩
          obtain ⟨result, hresult⟩ := hiff.2 ⟨hwell.urlPattern, hwell.arrays⟩
          rw [hload] at hresult
          cases hresult
        · left
          obtain ⟨hurl, harrays⟩ := hiff.1 ⟨result, hload⟩
          refine ⟨hskip, ⟨hcomplete, hurl, harrays⟩, ?_⟩
          rw [loadProvider_of_false hkey hread, bind_eq_ok] at hload
          obtain ⟨urlPattern, -, hload⟩ := hload
          rw [bind_eq_ok] at hload
          obtain ⟨ruleset, -, hresult⟩ := hload
          exact ⟨ruleset, congrArg _ (Except.ok.inj hresult).symm⟩
      · right
        refine ⟨⟨hskip, hill⟩, e, ?_⟩
        simp only [loadProvider, if_neg hkey]
        rw [hread, error_bind]
    · right
      refine ⟨⟨hskip, fun hwell => ?_⟩, ?_⟩
      · obtain ⟨src, hget, -⟩ := hwell.urlPattern
        exact hobject (exists_object_of_jsonObjectGet hget)
      · rw [loadProvider, if_neg hkey]
        · exact ⟨_, rfl⟩
        · exact fun members hvalue => hobject ⟨members, hvalue⟩

theorem Skipped.loadProvider {provider : Bytes × Json} (h : Skipped provider) :
    loadProvider compile provider.1 provider.2 = .ok none := by
  rcases @loadProvider_cases Code compile provider with h' | h' | h'
  · exact h'.2
  · exact absurd h h'.1
  · exact absurd h h'.1.1

theorem IllFormed.loadProvider {provider : Bytes × Json} (h : IllFormed compile provider) :
    ∃ e, loadProvider compile provider.1 provider.2 = .error e := by
  rcases @loadProvider_cases Code compile provider with h' | h' | h'
  · exact absurd h'.1 h.1
  · exact absurd h'.2.1 h.2
  · exact h'.2

/-- The store after some rulesets have been added. -/
def Rulesets.appendAll (rulesets : Rulesets Code) (added : List (Ruleset Code)) : Rulesets Code :=
  added.foldl Rulesets.append rulesets

theorem Rulesets.appendAll_cons (rulesets : Rulesets Code) (ruleset : Ruleset Code)
    (added : List (Ruleset Code)) :
    rulesets.appendAll (ruleset :: added) = (rulesets.append ruleset).appendAll added := rfl

theorem Rulesets.items_appendAll (rulesets : Rulesets Code) (added : List (Ruleset Code)) :
    (rulesets.appendAll added).items = rulesets.items ++ added := by
  induction added generalizing rulesets with
  | nil => simp [appendAll]
  | cons ruleset added ih =>
    rw [appendAll_cons, ih, append, List.append_assoc, List.singleton_append]

theorem Rulesets.appendAll_eq_self_iff {rulesets : Rulesets Code} {added : List (Ruleset Code)} :
    rulesets.appendAll added = rulesets ↔ added = [] := by
  refine ⟨fun h => ?_, fun h => by rw [h]; rfl⟩
  have hitems := congrArg Rulesets.items h
  rw [items_appendAll] at hitems
  exact List.append_right_eq_self.1 hitems

/-- **The loop over providers none of which is ill-formed** adds a ruleset for each one that is
not skipped. -/
theorem loadProviders_append {before : List (Bytes × Json)}
    (h : ∀ provider ∈ before, ¬ IllFormed compile provider) (rest : List (Bytes × Json))
    (rulesets : Rulesets Code) :
    ∃ added, loadProviders compile (before ++ rest) rulesets =
        loadProviders compile rest (rulesets.appendAll added) ∧
      (added = [] ↔ ∀ provider ∈ before, Skipped provider) := by
  induction before generalizing rulesets with
  | nil => exact ⟨[], rfl, by simp⟩
  | cons provider before ih =>
    rw [List.forall_mem_cons] at h
    obtain ⟨key, value⟩ := provider
    rw [List.cons_append]
    rcases @loadProvider_cases Code compile (key, value) with
      ⟨hskip, hload⟩ | ⟨hkept, -, ruleset, hload⟩ | ⟨hill, -⟩
    · obtain ⟨added, hrun, hadded⟩ := ih h.2 rulesets
      refine ⟨added, ?_, ?_⟩
      · rw [loadProviders, hload]
        exact hrun
      · rw [hadded, List.forall_mem_cons, and_iff_right hskip]
    · obtain ⟨added, hrun, -⟩ := ih h.2 (rulesets.append ruleset)
      refine ⟨ruleset :: added, ?_, ?_⟩
      · rw [loadProviders, hload]
        exact hrun
      · simp [hkept]
    · exact absurd hill h.1

/-! ## All or nothing -/

/-- A call that returns an error code leaves the store as it was. -/
def AllOrNothing (result : Outcome Unit × Rulesets Code) (rulesets : Rulesets Code) : Prop :=
  ¬ Succeeds result.1 → result.2 = rulesets

/-- Before the first ill-formed provider of a list there are only skipped ones. -/
def SkipsToError (compile : Bytes → Option Code) (providers : List (Bytes × Json)) : Prop :=
  ∀ before provider after, providers = before ++ provider :: after →
    (∀ p ∈ before, ¬ IllFormed compile p) → IllFormed compile provider → ∀ p ∈ before, Skipped p

theorem loadProviders_allOrNothing_iff (providers : List (Bytes × Json))
    (rulesets : Rulesets Code) :
    AllOrNothing (loadProviders compile providers rulesets) rulesets ↔
      SkipsToError compile providers := by
  classical
  obtain ⟨before, rest, rfl, hbefore, hrest⟩ :=
    CString.exists_head_tail (IllFormed compile) providers
  obtain ⟨added, hrun, hadded⟩ := loadProviders_append hbefore rest rulesets
  rcases hrest with rfl | ⟨provider, rest, rfl, hill⟩
  · -- no provider is ill-formed
    have hok : Succeeds (loadProviders compile (before ++ []) rulesets).1 := by
      rw [hrun]
      exact succeeds_ok ()
    refine iff_of_true (fun h => absurd hok h) ?_
    intro before' provider after heq _ hill
    have hmem : provider ∈ before := by
      rw [List.append_nil] at heq
      rw [heq]
      simp
    exact absurd hill (hbefore provider hmem)
  · obtain ⟨e, hload⟩ := hill.loadProvider
    have hresult : loadProviders compile (before ++ provider :: rest) rulesets =
        (.error e, rulesets.appendAll added) := by
      rw [hrun, loadProviders, hload]
    have herror : ¬ Succeeds (.error e : Outcome Unit) := by
      intro ⟨x, h⟩
      cases h
    rw [hresult, AllOrNothing, imp_iff_right herror, Rulesets.appendAll_eq_self_iff, hadded]
    refine ⟨fun h => ?_, fun h => h before provider rest rfl hbefore hill⟩
    intro before' provider' rest' heq hbefore' hill'
    have hcut := CString.head_tail_unique heq hbefore (.inr ⟨provider, rest, rfl, hill⟩) hbefore'
      (.inr ⟨provider', rest', rfl, hill'⟩)
    rwa [← hcut.1]

/-- The providers of a tree, if there are any. -/
def providersOf (tree : Json) : List (Bytes × Json) :=
  match jsonObjectGet tree providersKey with
  | some (.object providers) => providers
  | _ => []

theorem loadRuleset_allOrNothing_iff (tree : Json) (rulesets : Rulesets Code) :
    AllOrNothing (loadRuleset compile tree rulesets) rulesets ↔
      SkipsToError compile (providersOf tree) := by
  have hnil : SkipsToError compile [] := by
    intro before provider after h
    simp at h
  unfold loadRuleset providersOf
  rcases jsonObjectGet tree providersKey with _ | json
  · exact iff_of_true (fun _ => rfl) hnil
  · cases json with
    | object providers => exact loadProviders_allOrNothing_iff providers rulesets
    | _ => exact iff_of_true (fun _ => rfl) hnil

/-- The tree that a call loads. -/
def loadedTree (parse : Bytes → Option Json) (source : Option Bytes) : Option Json :=
  match source with
  | none => none
  | some [] => none
  | some source => parse source

theorem loadParsed_allOrNothing_iff (parse : Bytes → Option Json) (source : Bytes)
    (rulesets : Rulesets Code) :
    AllOrNothing (loadParsed compile parse source rulesets) rulesets ↔
      ∀ tree, parse source = some tree → SkipsToError compile (providersOf tree) := by
  unfold loadParsed
  rcases parse source with _ | tree
  · exact iff_of_true (fun _ => rfl) nofun
  · simp [loadRuleset_allOrNothing_iff]

end WellFormed

/-- **Loading is all-or-nothing** if and only if every provider before the first ill-formed one is
skipped. -/
theorem unalixLoad_allOrNothing_iff (compile : Bytes → Option Code)
    (jsonLoadFile jsonLoads : Bytes → Option Json) (source : Option Bytes)
    (rulesets : Rulesets Code) :
    (AllOrNothing (unalixLoadFile compile jsonLoadFile source rulesets) rulesets ↔
        ∀ tree, loadedTree jsonLoadFile source = some tree →
          SkipsToError compile (providersOf tree)) ∧
      (AllOrNothing (unalixLoadString compile jsonLoads source rulesets) rulesets ↔
        ∀ tree, loadedTree jsonLoads source = some tree →
          SkipsToError compile (providersOf tree)) := by
  match source with
  | none => exact ⟨iff_of_true (fun _ => rfl) nofun, iff_of_true (fun _ => rfl) nofun⟩
  | some [] => exact ⟨iff_of_true (fun _ => rfl) nofun, iff_of_true (fun _ => rfl) nofun⟩
  | some (c :: s) =>
    exact ⟨loadParsed_allOrNothing_iff jsonLoadFile (c :: s) rulesets,
      loadParsed_allOrNothing_iff jsonLoads (c :: s) rulesets⟩

/-- The text of a tree with a well-formed provider before an ill-formed one. -/
def partialText : Bytes :=
  str "\x7b\"providers\":\x7b\"a\":\x7b\"urlPattern\":\"a\"\x7d,\"b\":true\x7d\x7d"

def partialTree : Json :=
  .object [(providersKey, .object [(str "a", .object [(urlPatternKey, .string (str "a"))]),
    (str "b", .boolean true)])]

/-- The first of two providers stays in the store when the second is ill-formed. -/
theorem not_allOrNothing_partial :
    unalixLoadString some (fun s => if s = partialText then some partialTree else none)
        (some partialText) {} =
      (fail .jsonNonMatchingType, ⟨88, [⟨str "a", [], [], [], [], []⟩]⟩) ∧
    ¬ AllOrNothing (unalixLoadString some
      (fun s => if s = partialText then some partialTree else none) (some partialText) {}) {} := by
  have hresult : unalixLoadString some
      (fun s => if s = partialText then some partialTree else none) (some partialText) {} =
        (fail .jsonNonMatchingType, ⟨88, [⟨str "a", [], [], [], [], []⟩]⟩) := by rfl
  refine ⟨hresult, fun h => ?_⟩
  rw [hresult] at h
  have hstore := h (not_succeeds_fail _)
  exact absurd (congrArg Rulesets.size hstore) (by decide)

end Unalix
