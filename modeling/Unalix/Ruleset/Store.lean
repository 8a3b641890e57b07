import Unalix.Ruleset.Load

/-!
# The store that a tree is loaded to

`load_ruleset` accepts the trees of one shape (`WellShaped`), and then extends the store by one
ruleset for each provider that is not passed over, in their order, each list of it being the
compiled entries of its own key (`BuiltFrom`). This is `loadRuleset_wellShaped_iff`. The shape is
said here without the loop: a key with its type, and what has to compile.
-/

namespace Unalix

open Outcome

variable {Code : Type} (compile : Bytes → Option Code)

/-! ## The shape of a tree -/

/-- A list of patterns that may be absent or null; `pattern` is what is compiled of an entry. -/
def WellShapedList (pattern : Bytes → Bytes) (json : Option Json) : Prop :=
  json = none ∨ json = some .null ∨ ∃ items, json = some (.array items) ∧
    ∀ item ∈ items, ∃ src, item = .string src ∧ (compile (pattern src)).isSome = true

/-- A provider that is no test provider. -/
structure WellShapedProvider (value : Json) : Prop where
  object : ∃ members, value = .object members
  completeProvider : jsonObjectGet value completeProviderKey = none ∨
    jsonObjectGet value completeProviderKey = some .null ∨
    ∃ b, jsonObjectGet value completeProviderKey = some (.boolean b)
  content : jsonObjectGet value completeProviderKey ≠ some (.boolean true) →
    (∃ src, jsonObjectGet value urlPatternKey = some (.string src) ∧
      (compile src).isSome = true) ∧
    WellShapedList compile extendedPattern (jsonObjectGet value rulesKey) ∧
    WellShapedList compile id (jsonObjectGet value rawRulesKey) ∧
    WellShapedList compile extendedPattern (jsonObjectGet value referralMarketingKey) ∧
    WellShapedList compile id (jsonObjectGet value exceptionsKey) ∧
    WellShapedList compile id (jsonObjectGet value redirectionsKey)

/-- A tree whose providers are all well-shaped, apart from the test providers. -/
def WellShaped (tree : Json) : Prop :=
  ∃ providers, jsonObjectGet tree providersKey = some (.object providers) ∧
    ∀ provider ∈ providers, ¬ prefixProviderIgnore <+: provider.1 →
      WellShapedProvider compile provider.2

/-! ## The rulesets of a tree -/

/-- The code of an entry. -/
def Compiles (pattern : Bytes → Bytes) (item : Json) (code : Code) : Prop :=
  ∃ src, item = .string src ∧ compile (pattern src) = some code

/-- The codes of a list, in its order. -/
def CompilesTo (pattern : Bytes → Bytes) (json : Option Json) (codes : List Code) : Prop :=
  (json = none ∨ json = some .null) ∧ codes = [] ∨
    ∃ items, json = some (.array items) ∧ List.Forall₂ (Compiles compile pattern) items codes

/-- The ruleset of a provider: each list is compiled from the entries of its own key. -/
structure BuiltFrom (value : Json) (ruleset : Ruleset Code) : Prop where
  urlPattern : ∃ src, jsonObjectGet value urlPatternKey = some (.string src) ∧
    compile src = some ruleset.urlPattern
  rules : CompilesTo compile extendedPattern (jsonObjectGet value rulesKey) ruleset.rules
  rawRules : CompilesTo compile id (jsonObjectGet value rawRulesKey) ruleset.rawRules
  referralMarketing : CompilesTo compile extendedPattern
    (jsonObjectGet value referralMarketingKey) ruleset.referralMarketing
  exceptions : CompilesTo compile id (jsonObjectGet value exceptionsKey) ruleset.exceptions
  redirections : CompilesTo compile id (jsonObjectGet value redirectionsKey) ruleset.redirections

/-- The provider is neither a test provider nor a complete one. -/
def isKept (provider : Bytes × Json) : Bool :=
  !(prefixProviderIgnore <+: provider.1 : Bool) &&
    match jsonObjectGet provider.2 completeProviderKey with
    | some (.boolean true) => false
    | _ => true

variable {compile}

theorem isKept_iff (provider : Bytes × Json) : isKept provider = true ↔ ¬ Skipped provider := by
  unfold isKept Skipped
  rw [Bool.and_eq_true, Bool.not_eq_true', decide_eq_false_iff_not, not_or]
  refine and_congr_right fun _ => ?_
  split
  · rename_i hget
    simp [hget]
  · rename_i hget
    simpa using hget

/-! ## Accepted providers -/

theorem wellFormedArray_iff {name : Bytes} {json : Option Json} :
    WellFormedArray compile name json ↔ WellShapedList compile (itemPattern name) json := by
  cases json with
  | none => simp [WellFormedArray, WellShapedList]
  | some json => cases json <;> simp [WellFormedArray, WellShapedList, WellFormedItem]

theorem itemPattern_of_extended {name : Bytes} (h : shouldModifyPattern name = true) :
    itemPattern name = extendedPattern := by
  funext src
  rw [itemPattern, if_pos h]

theorem itemPattern_of_verbatim {name : Bytes} (h : shouldModifyPattern name = false) :
    itemPattern name = id := by
  funext src
  rw [itemPattern, h]
  rfl

/-- The patterns of the five keys. -/
theorem itemPattern_keys : itemPattern rulesKey = extendedPattern ∧
    itemPattern rawRulesKey = id ∧ itemPattern referralMarketingKey = extendedPattern ∧
    itemPattern exceptionsKey = id ∧ itemPattern redirectionsKey = id :=
  ⟨itemPattern_of_extended (by decide), itemPattern_of_verbatim (by decide),
    itemPattern_of_extended (by decide), itemPattern_of_verbatim (by decide),
    itemPattern_of_verbatim (by decide)⟩

/-- A provider does not end the loop when it is a test provider or well-shaped. -/
theorem not_illFormed_iff (provider : Bytes × Json) : ¬ IllFormed compile provider ↔
    (¬ prefixProviderIgnore <+: provider.1 → WellShapedProvider compile provider.2) := by
  obtain ⟨key, value⟩ := provider
  obtain ⟨hrules, hraw, hreferral, hexceptions, hredirections⟩ := itemPattern_keys
  have harrays : (∀ name ∈ arrayKeys, WellFormedArray compile name (jsonObjectGet value name)) ↔
      WellShapedList compile extendedPattern (jsonObjectGet value rulesKey) ∧
      WellShapedList compile id (jsonObjectGet value rawRulesKey) ∧
      WellShapedList compile extendedPattern (jsonObjectGet value referralMarketingKey) ∧
      WellShapedList compile id (jsonObjectGet value exceptionsKey) ∧
      WellShapedList compile id (jsonObjectGet value redirectionsKey) := by
    simp only [arrayKeys, List.forall_mem_cons, wellFormedArray_iff, hrules, hraw, hreferral,
      hexceptions, hredirections, List.not_mem_nil, false_imp_iff, implies_true, and_true]
  simp only [IllFormed, Skipped, not_and, not_or, not_not]
  constructor
  · intro h hkey
    by_cases htrue : jsonObjectGet value completeProviderKey = some (.boolean true)
    · exact ⟨exists_object_of_jsonObjectGet htrue, .inr (.inr ⟨true, htrue⟩),
        fun hne => absurd htrue hne⟩
    · have hwell := h ⟨hkey, htrue⟩
      obtain ⟨src, hsrc, hcompile⟩ := hwell.urlPattern
      refine ⟨exists_object_of_jsonObjectGet hsrc, ?_, fun _ => ?_⟩
      · exact hwell.completeProvider.imp_right fun h => h.imp_right fun h => ⟨false, h⟩
      · exact ⟨⟨src, hsrc, hcompile⟩, harrays.1 hwell.arrays⟩
  · rintro h ⟨hkey, htrue⟩
    have hshape := h hkey
    obtain ⟨hurl, hlists⟩ := hshape.content htrue
    refine ⟨?_, hurl, harrays.2 hlists⟩
    refine hshape.completeProvider.imp_right fun h => h.imp_right ?_
    rintro ⟨b, hb⟩
    cases b with
    | false => exact hb
    | true => exact absurd hb htrue

/-! ## What is built -/

theorem forall₂_of_loadItems {name : Bytes} {items : List Json} {codes : List Code}
    (h : loadItems compile name items = .ok codes) :
    List.Forall₂ (Compiles compile (itemPattern name)) items codes := by
  induction items generalizing codes with
  | nil =>
    cases h
    exact .nil
  | cons item items ih =>
    cases item with
    | string src =>
      rw [loadItems, bind_eq_ok] at h
      obtain ⟨code, hcode, h⟩ := h
      rw [bind_eq_ok] at h
      obtain ⟨codes', hcodes, h⟩ := h
      cases h
      refine .cons ⟨src, rfl, ?_⟩ (ih hcodes)
      rw [regexCompile] at hcode
      cases hcompile : compile (itemPattern name src) with
      | none =>
        rw [hcompile] at hcode
        exact absurd hcode (fail_ne_ok _ _)
      | some code' =>
        rw [hcompile] at hcode
        cases hcode
        rfl
    | _ => exact absurd h (fail_ne_ok _ _)

/-- A key that is skipped leaves the list of the ruleset empty. -/
theorem compilesTo_of_loadArray {value : Json} {name : Bytes} {rules : Option (List Code)}
    (h : loadArray compile value name = .ok rules) :
    CompilesTo compile (itemPattern name) (jsonObjectGet value name) (rules.getD []) := by
  rw [loadArray] at h
  generalize jsonObjectGet value name = json at h ⊢
  cases json with
  | none =>
    cases h
    exact .inl ⟨.inl rfl, rfl⟩
  | some json =>
    cases json with
    | null =>
      cases h
      exact .inl ⟨.inr rfl, rfl⟩
    | array items =>
      cases items with
      | nil =>
        cases h
        exact .inr ⟨[], rfl, .nil⟩
      | cons item items =>
        simp only at h
        rcases hload : loadItems compile name (item :: items) with e | codes
        · rw [hload] at h
          cases h
        · rw [hload] at h
          cases h
          exact .inr ⟨_, rfl, forall₂_of_loadItems hload⟩
    | _ => exact absurd h (fail_ne_ok _ _)

section SetRules

variable (ruleset : Ruleset Code) (rules : Option (List Code))

theorem setRules_rules : rules.elim ruleset (setRules ruleset rulesKey) =
    { ruleset with rules := rules.getD ruleset.rules } := by
  cases rules <;> rfl

theorem setRules_rawRules : rules.elim ruleset (setRules ruleset rawRulesKey) =
    { ruleset with rawRules := rules.getD ruleset.rawRules } := by
  cases rules <;> rfl

theorem setRules_referralMarketing : rules.elim ruleset (setRules ruleset referralMarketingKey) =
    { ruleset with referralMarketing := rules.getD ruleset.referralMarketing } := by
  cases rules <;> rfl

theorem setRules_exceptions : rules.elim ruleset (setRules ruleset exceptionsKey) =
    { ruleset with exceptions := rules.getD ruleset.exceptions } := by
  cases rules <;> rfl

theorem setRules_redirections : rules.elim ruleset (setRules ruleset redirectionsKey) =
    { ruleset with redirections := rules.getD ruleset.redirections } := by
  cases rules <;> rfl

end SetRules

/-- **The ruleset of a provider**: the dispatch on the key sends each list to its own field. -/
theorem builtFrom_of_loadProvider {key : Bytes} {value : Json} {ruleset : Ruleset Code}
    (h : loadProvider compile key value = .ok (some ruleset)) : BuiltFrom compile value ruleset := by
  obtain ⟨hrules, hraw, hreferral, hexceptions, hredirections⟩ := itemPattern_keys
  have hkey : ¬ prefixProviderIgnore <+: key := by
    intro hkey
    unfold loadProvider at h
    rw [if_pos hkey] at h
    cases h
  unfold loadProvider at h
  rw [if_neg hkey] at h
  cases value with
  | object members =>
    obtain ⟨completeProvider, -, h⟩ := bind_eq_ok.1 h
    cases completeProvider with
    | true => cases h
    | false =>
      simp only [Bool.false_eq_true, if_false, bind_eq_ok, arrayKeys, loadArrays, setRules_rules,
        setRules_rawRules, setRules_referralMarketing, setRules_exceptions,
        setRules_redirections, pure_eq, Except.ok.injEq, Option.some.injEq] at h
      obtain ⟨urlPattern, hurl, _, ⟨l₁, h₁, l₂, h₂, l₃, h₃, l₄, h₄, l₅, h₅, rfl⟩, rfl⟩ := h
      refine ⟨?_, ?_, ?_, ?_, ?_, ?_⟩
      · rw [loadUrlPattern] at hurl
        rcases hget : jsonObjectGet (.object members) urlPatternKey with _ | json
        · rw [hget] at hurl
          exact absurd hurl (fail_ne_ok _ _)
        · rw [hget] at hurl
          cases json with
          | string src =>
            refine ⟨src, rfl, ?_⟩
            simp only [regexCompile] at hurl
            cases hcompile : compile src with
            | none =>
              rw [hcompile] at hurl
              exact absurd hurl (fail_ne_ok _ _)
            | some code =>
              rw [hcompile] at hurl
              cases hurl
              rfl
          | _ => exact absurd hurl (fail_ne_ok _ _)
      · exact hrules ▸ compilesTo_of_loadArray h₁
      · exact hraw ▸ compilesTo_of_loadArray h₂
      · exact hreferral ▸ compilesTo_of_loadArray h₃
      · exact hexceptions ▸ compilesTo_of_loadArray h₄
      · exact hredirections ▸ compilesTo_of_loadArray h₅
  | _ => exact absurd h (fail_ne_ok _ _)

/-! ## The loop -/

/-- The sizes that the store counts. -/
theorem Rulesets.size_appendAll (rulesets : Rulesets Code) (added : List (Ruleset Code)) :
    (rulesets.appendAll added).size = rulesets.size + sizeofRuleset * added.length := by
  induction added generalizing rulesets with
  | nil => simp [appendAll]
  | cons ruleset added ih =>
    rw [appendAll_cons, ih, append, List.length_cons]
    ring

/-- The loop succeeds when no provider is ill-formed, and then has added a ruleset for each
provider that is kept. -/
theorem loadProviders_spec (providers : List (Bytes × Json)) (rulesets : Rulesets Code) :
    (Succeeds (loadProviders compile providers rulesets).1 ↔
      ∀ provider ∈ providers, ¬ IllFormed compile provider) ∧
    (Succeeds (loadProviders compile providers rulesets).1 → ∃ added,
      (loadProviders compile providers rulesets).2 = rulesets.appendAll added ∧
      List.Forall₂ (fun provider ruleset => BuiltFrom compile provider.2 ruleset)
        (providers.filter isKept) added) := by
  induction providers generalizing rulesets with
  | nil => exact ⟨iff_of_true (succeeds_ok ()) (by simp), fun _ => ⟨[], rfl, .nil⟩⟩
  | cons provider providers ih =>
    obtain ⟨key, value⟩ := provider
    rw [List.forall_mem_cons]
    rcases @loadProvider_cases Code compile (key, value) with
      ⟨hskip, hload⟩ | ⟨hkept, hwell, ruleset, hload⟩ | ⟨hill, e, hload⟩
    · have hnot : ¬ isKept (key, value) = true := by simpa [isKept_iff] using hskip
      have hill : ¬ IllFormed compile (key, value) := fun h => h.1 hskip
      simp only [loadProviders, hload, and_iff_right hill, List.filter_cons_of_neg hnot]
      exact ih rulesets
    · have hill : ¬ IllFormed compile (key, value) := fun h => h.2 hwell
      simp only [loadProviders, hload, and_iff_right hill,
        List.filter_cons_of_pos ((isKept_iff _).2 hkept)]
      refine ⟨(ih _).1, fun hsucceeds => ?_⟩
      obtain ⟨added, hstore, hbuilt⟩ := (ih _).2 hsucceeds
      exact ⟨ruleset :: added, hstore, .cons (builtFrom_of_loadProvider hload) hbuilt⟩
    · have hfails : ¬ Succeeds (.error e : Outcome Unit) := by
        rintro ⟨x, h⟩
        cases h
      simp only [loadProviders, hload]
      exact ⟨iff_of_false hfails fun h => h.1 hill, fun h => absurd h hfails⟩

/-- **`load_ruleset` accepts the well-shaped trees**, and then has added to the store a ruleset for
each provider that is kept. -/
theorem loadRuleset_wellShaped_iff (compile : Bytes → Option Code) (tree : Json)
    (rulesets : Rulesets Code) :
    (Succeeds (loadRuleset compile tree rulesets).1 ↔ WellShaped compile tree) ∧
    (Succeeds (loadRuleset compile tree rulesets).1 → ∃ added,
      (loadRuleset compile tree rulesets).2.items = rulesets.items ++ added ∧
      (loadRuleset compile tree rulesets).2.size =
        rulesets.size + sizeofRuleset * added.length ∧
      List.Forall₂ (fun provider ruleset => BuiltFrom compile provider.2 ruleset)
        ((providersOf tree).filter isKept) added) := by
  unfold loadRuleset WellShaped providersOf
  rcases jsonObjectGet tree providersKey with _ | json
  · exact ⟨iff_of_false (not_succeeds_fail _) (by simp), fun h => absurd h (not_succeeds_fail _)⟩
  · cases json with
    | object providers =>
      obtain ⟨hiff, hstore⟩ := @loadProviders_spec Code compile providers rulesets
      simp only [Option.some.injEq, Json.object.injEq, exists_eq_left', ← not_illFormed_iff]
      refine ⟨hiff, fun hsucceeds => ?_⟩
      obtain ⟨added, hadded, hbuilt⟩ := hstore hsucceeds
      refine ⟨added, ?_, ?_, hbuilt⟩
      · rw [hadded, Rulesets.items_appendAll]
      · rw [hadded, Rulesets.size_appendAll]
    | _ =>
      exact ⟨iff_of_false (not_succeeds_fail _) (by simp), fun h => absurd h (not_succeeds_fail _)⟩

end Unalix
