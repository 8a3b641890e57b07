import Unalix.CleanUrl.Clean
import Unalix.Ruleset.Represented

/-!
# Sessions

A session is a sequence of calls of a program that uses the library: files and texts are loaded,
URLs are cleaned, a downloaded file is tried out and the rules are unloaded, in any order. On the
memory every call is answered as it is on values (`session_refines`): nothing is freed twice or used
after it was freed, cleaning works on the rules that were loaded, and the bytes behind short keys of
providers are all that is read outside of its block. When the rules are unloaded in the end, what
stays allocated is what the loads that failed behind the pattern of a provider have left
(`session_leak_iff`).
-/

namespace Unalix.InMemory

open Calls Heaps

variable {Code : Type}

/-! ## Requests -/

/-- A call of the library; a parser comes with what it is given, as files change. -/
inductive Request
  | loadFile (jsonLoadFile : Bytes → Option Json) (filename : Option Bytes)
  | loadString (jsonLoads : Bytes → Option Json) (string : Option Bytes)
  | tryLoad (jsonLoadFile : Bytes → Option Json) (rulesetFile : Bytes)
  | clean (sourceUrl : Option Bytes) (flags : Flags)
  | unload

/-- What a call returns; for cleaning, nothing when it does not end within its bound. -/
inductive Response
  | returned (r : Outcome Unit)
  | cleaned (r : Option (Outcome Bytes))
  deriving DecidableEq

section Session

variable (compile : Bytes → Option Code) (pcre : Pcre Code) (fuel : ℕ)

/-- A call on the memory. -/
def respond (m : Memory Code) : Request → Response × Memory Code
  | .loadFile jsonLoadFile filename =>
    let r := unalixLoadFile compile jsonLoadFile filename m
    (.returned (outcome r), final r)
  | .loadString jsonLoads string =>
    let r := unalixLoadString compile jsonLoads string m
    (.returned (outcome r), final r)
  | .tryLoad jsonLoadFile rulesetFile =>
    let r := tryLoad compile jsonLoadFile rulesetFile m
    (.returned (outcome r), final r)
  | .clean sourceUrl flags =>
    match getRulesets m.rulesets m.heap with
    | .error e heap => (.cleaned (some (.error e)), { m with heap := heap })
    | .ok rulesets heap =>
      (.cleaned (unalixCleanUrl pcre rulesets fuel sourceUrl flags), { m with heap := heap })
  | .unload =>
    let r := unalixUnloadRulesets m
    (.returned (outcome r), final r)

/-- The same call on values. -/
def answer (rulesets : Unalix.Rulesets Code) : Request → Response × Unalix.Rulesets Code
  | .loadFile jsonLoadFile filename =>
    let r := Unalix.unalixLoadFile compile jsonLoadFile filename rulesets
    (.returned r.1, r.2)
  | .loadString jsonLoads string =>
    let r := Unalix.unalixLoadString compile jsonLoads string rulesets
    (.returned r.1, r.2)
  | .tryLoad jsonLoadFile rulesetFile =>
    (.returned (Unalix.loadFile compile jsonLoadFile rulesetFile {}).1, rulesets)
  | .clean sourceUrl flags =>
    (.cleaned (unalixCleanUrl pcre rulesets fuel sourceUrl flags), rulesets)
  | .unload => (.returned (.ok ()), {})

/-- A sequence of calls. -/
def session {σ : Type} (call : σ → Request → Response × σ) (s : σ) :
    List Request → List Response × σ
  | [] => ([], s)
  | request :: requests =>
    let r := session call (call s request).2 requests
    ((call s request).1 :: r.1, r.2)

/-- The memory of a process in which nothing was loaded. -/
def start : Memory Code := { heap := Heap.empty, rulesets := {} }

/-- The tree that a call loads, if it loads one. -/
def requestTree : Request → Option Json
  | .loadFile jsonLoadFile filename => loadedTree jsonLoadFile filename
  | .loadString jsonLoads string => loadedTree jsonLoads string
  | .tryLoad jsonLoadFile rulesetFile => jsonLoadFile rulesetFile
  | .clean _ _ => none
  | .unload => none

/-- The keys of providers that are compared for the tree of a call. -/
def treeKeys (tree : Option Json) : List Bytes :=
  tree.elim [] fun tree => comparedKeys compile (providersOf tree)

/-- The keys of providers that a call compares. -/
def requestKeys (request : Request) : List Bytes := treeKeys compile (requestTree request)

/-- How many blocks are lost by a call. -/
def lostBy (request : Request) : ℕ :=
  (requestTree request).elim 0 fun tree => lostProviders compile (providersOf tree)

end Session

/-! ## One call -/

section Respond

variable {compile : Bytes → Option Code} {pcre : Pcre Code} {fuel k : ℕ} {m : Memory Code}
  {rulesets : Unalix.Rulesets Code} {rest : Multiset (ℕ × Block Code)}

/-- A call that loads the tree `tree`, if there is one, does what it does on values. -/
def Answers (compile : Bytes → Option Code) (tree : Option Json)
    (r : EStateM.Result Failure (Memory Code) Unit) (v : Outcome Unit × Unalix.Rulesets Code)
    (k : ℕ) (rest : Multiset (ℕ × Block Code)) : Prop :=
  outcome r = v.1 ∧ ∃ lost, Multiset.card lost =
      tree.elim 0 (fun tree => lostProviders compile (providersOf tree)) ∧
    Represents (k + overreads (treeKeys compile tree)) (final r) v.2 (lost + rest)

theorem answers_throw (hm : Represents k m rulesets rest) (e : ErrorCode) :
    Answers compile none (.error (.code e) m) (fail e, rulesets) k rest :=
  ⟨rfl, 0, rfl, by rwa [zero_add]⟩

theorem loadParsed_answers (hm : Represents k m rulesets rest) (parse : Bytes → Option Json)
    (source : Bytes) :
    Answers compile (parse source) (loadParsed compile parse source m)
      (Unalix.loadParsed compile parse source rulesets) k rest := by
  rw [loadParsed, Unalix.loadParsed]
  cases parse source with
  | none => exact answers_throw hm _
  | some tree => exact loadRuleset_represents compile tree hm

theorem unalixLoadFile_answers (hm : Represents k m rulesets rest)
    (jsonLoadFile : Bytes → Option Json) (filename : Option Bytes) :
    Answers compile (loadedTree jsonLoadFile filename)
      (unalixLoadFile compile jsonLoadFile filename m)
      (Unalix.unalixLoadFile compile jsonLoadFile filename rulesets) k rest := by
  match filename with
  | none => exact answers_throw hm _
  | some [] => exact answers_throw hm _
  | some (c :: s) => exact loadParsed_answers hm jsonLoadFile (c :: s)

theorem unalixLoadString_answers (hm : Represents k m rulesets rest)
    (jsonLoads : Bytes → Option Json) (string : Option Bytes) :
    Answers compile (loadedTree jsonLoads string)
      (unalixLoadString compile jsonLoads string m)
      (Unalix.unalixLoadString compile jsonLoads string rulesets) k rest := by
  match string with
  | none => exact answers_throw hm _
  | some [] => exact answers_throw hm _
  | some (c :: s) => exact loadParsed_answers hm jsonLoads (c :: s)

/-- A file that is tried out leaves the store as it is. -/
theorem tryLoad_answers (hm : Represents k m rulesets rest) (jsonLoadFile : Bytes → Option Json)
    (rulesetFile : Bytes) :
    Answers compile (jsonLoadFile rulesetFile) (tryLoad compile jsonLoadFile rulesetFile m)
      ((Unalix.loadFile compile jsonLoadFile rulesetFile {}).1, rulesets) k rest := by
  obtain ⟨placed, hrecord, hvalue, hh⟩ := hm
  have hempty : Represents k { m with rulesets := {} } {} (placed.cells + rest) :=
    represents_empty hh
  obtain ⟨houtcome, lost, hcard, placed', hrecord', -, hh'⟩ :=
    @loadParsed_answers Code compile _ _ _ _ hempty jsonLoadFile rulesetFile
  obtain ⟨h', hfree, hheld⟩ := exists_rulesetsFree hh'
  rw [← hrecord'] at hfree
  have hheap : Represents (k + overreads (treeKeys compile (jsonLoadFile rulesetFile)))
      { m with heap := h' } rulesets (lost + rest) :=
    ⟨placed, hrecord, hvalue, by rwa [add_left_comm]⟩
  change outcome (loadFile compile jsonLoadFile rulesetFile { m with rulesets := {} }) =
    (Unalix.loadFile compile jsonLoadFile rulesetFile {}).1 at houtcome
  change rulesetsFree (final (loadFile compile jsonLoadFile rulesetFile
      { m with rulesets := {} })).rulesets
    (final (loadFile compile jsonLoadFile rulesetFile { m with rulesets := {} })).heap = _ at hfree
  rw [Answers, tryLoad, hfree, houtcome]
  cases (Unalix.loadFile compile jsonLoadFile rulesetFile {}).1 with
  | ok u => exact ⟨rfl, lost, hcard, hheap⟩
  | error e => exact ⟨rfl, lost, hcard, hheap⟩

/-- **One call**: the memory answers as the values do, and stays their representation. -/
theorem respond_represents (hm : Represents k m rulesets rest) (request : Request) :
    (respond compile pcre fuel m request).1 = (answer compile pcre fuel rulesets request).1 ∧
      ∃ lost, Multiset.card lost = lostBy compile request ∧
        Represents (k + overreads (requestKeys compile request))
          (respond compile pcre fuel m request).2
          (answer compile pcre fuel rulesets request).2 (lost + rest) := by
  cases request with
  | loadFile jsonLoadFile filename =>
    obtain ⟨houtcome, hlost⟩ := @unalixLoadFile_answers _ compile _ _ _ _ hm jsonLoadFile filename
    exact ⟨congrArg Response.returned houtcome, hlost⟩
  | loadString jsonLoads string =>
    obtain ⟨houtcome, hlost⟩ := @unalixLoadString_answers _ compile _ _ _ _ hm jsonLoads string
    exact ⟨congrArg Response.returned houtcome, hlost⟩
  | tryLoad jsonLoadFile rulesetFile =>
    obtain ⟨houtcome, hlost⟩ := @tryLoad_answers _ compile _ _ _ _ hm jsonLoadFile rulesetFile
    exact ⟨congrArg Response.returned houtcome, hlost⟩
  | clean sourceUrl flags =>
    rw [respond, getRulesets_represents hm]
    exact ⟨rfl, 0, rfl, by rwa [zero_add]⟩
  | unload =>
    obtain ⟨h, hunload, hh⟩ := exists_unload hm
    rw [respond, hunload]
    exact ⟨rfl, 0, rfl, represents_empty (by rwa [zero_add])⟩

/-! ## Sessions -/

/-- A sequence of calls, each of which is answered as it is on values. -/
theorem session_represents (hm : Represents k m rulesets rest) (requests : List Request) :
    (session (respond compile pcre fuel) m requests).1 =
        (session (answer compile pcre fuel) rulesets requests).1 ∧
      ∃ lost, Multiset.card lost = (requests.map (lostBy compile)).sum ∧
        Represents (k + overreads (requests.flatMap (requestKeys compile)))
          (session (respond compile pcre fuel) m requests).2
          (session (answer compile pcre fuel) rulesets requests).2 (lost + rest) := by
  induction requests generalizing k m rulesets rest with
  | nil => exact ⟨rfl, 0, rfl, by rwa [zero_add]⟩
  | cons request requests ih =>
    obtain ⟨hresponse, lost, hcard, hm'⟩ :=
      @respond_represents _ compile pcre fuel _ _ _ _ hm request
    obtain ⟨hresponses, lost', hcard', hm''⟩ := ih hm'
    refine ⟨congrArg₂ List.cons hresponse hresponses, lost' + lost, ?_, ?_⟩
    · rw [Multiset.card_add, hcard, hcard', List.map_cons, List.sum_cons, Nat.add_comm]
    · rwa [add_assoc, List.flatMap_cons, overreads_append, ← Nat.add_assoc]

theorem represents_start : Represents 0 (start : Memory Code) {} 0 := represents_empty holds_empty

theorem session_append {σ : Type} (call : σ → Request → Response × σ) (s : σ)
    (requests requests' : List Request) :
    session call s (requests ++ requests') =
      ((session call s requests).1 ++ (session call (session call s requests).2 requests').1,
        (session call (session call s requests).2 requests').2) := by
  induction requests generalizing s with
  | nil => rfl
  | cons request requests ih =>
    rw [List.cons_append, session, ih]
    rfl

end Respond

/-! ## What a load returns -/

section Returns

open Outcome

variable (compile : Bytes → Option Code)

theorem returns_regexCompile (src : Bytes) : Returns (Unalix.regexCompile compile src) := by
  rw [Unalix.regexCompile]
  cases compile src with
  | none => exact returns_fail _
  | some code => exact returns_ok code

theorem returns_loadItems (name : Bytes) (items : List Json) :
    Returns (Unalix.loadItems compile name items) := by
  induction items with
  | nil => exact returns_ok _
  | cons item items ih =>
    cases item with
    | string src =>
      rw [Unalix.loadItems, returns_bind_iff]
      refine ⟨returns_regexCompile compile _, fun code _ => ?_⟩
      rw [returns_bind_iff]
      exact ⟨ih, fun codes _ => returns_ok _⟩
    | _ => exact returns_fail _

theorem returns_loadArray (value : Json) (name : Bytes) :
    Returns (Unalix.loadArray compile value name) := by
  unfold Unalix.loadArray
  rcases jsonObjectGet value name with _ | json
  · exact returns_ok _
  · cases json with
    | null => exact returns_ok _
    | array items =>
      cases items with
      | nil => exact returns_ok _
      | cons item items =>
        simp only
        rw [← bind_pure_comp, returns_bind_iff]
        exact ⟨returns_loadItems compile name _, fun codes _ => returns_ok _⟩
    | _ => exact returns_fail _

theorem returns_loadArrays (value : Json) (names : List Bytes) (ruleset : Unalix.Ruleset Code) :
    Returns (Unalix.loadArrays compile value names ruleset) := by
  induction names generalizing ruleset with
  | nil => exact returns_ok _
  | cons name names ih =>
    rw [Unalix.loadArrays, returns_bind_iff]
    exact ⟨returns_loadArray compile value name, fun rules _ => ih _⟩

theorem returns_loadProvider (key : Bytes) (value : Json) :
    Returns (Unalix.loadProvider compile key value) := by
  have hcomplete : Returns (readCompleteProvider value) := by
    unfold readCompleteProvider
    split <;> simp
  have hurl : Returns (Unalix.loadUrlPattern compile value) := by
    unfold Unalix.loadUrlPattern
    split
    · exact returns_fail _
    · exact returns_regexCompile compile _
    · exact returns_fail _
  unfold Unalix.loadProvider
  split_ifs with hkey
  · exact returns_ok _
  · cases value with
    | object members =>
      refine returns_bind_iff.2 ⟨hcomplete, fun complete _ => ?_⟩
      cases complete with
      | true => exact returns_ok _
      | false =>
        refine returns_bind_iff.2 ⟨hurl, fun urlPattern _ => ?_⟩
        refine returns_bind_iff.2 ⟨returns_loadArrays compile _ _ _, fun ruleset _ => ?_⟩
        exact returns_ok _
    | _ => exact returns_fail _

/-- What the loop over the providers returns and adds does not depend on the store. -/
theorem exists_loadProviders_eq (providers : List (Bytes × Json)) :
    ∃ (r : Outcome Unit) (added : List (Unalix.Ruleset Code)), Returns r ∧
      ∀ rulesets, Unalix.loadProviders compile providers rulesets =
        (r, rulesets.appendAll added) := by
  induction providers with
  | nil => exact ⟨.ok (), [], returns_ok _, fun rulesets => rfl⟩
  | cons provider providers ih =>
    obtain ⟨key, value⟩ := provider
    obtain ⟨r, added, hr, hloop⟩ := ih
    have hreturns := returns_loadProvider compile key value
    cases hload : Unalix.loadProvider compile key value with
    | error e =>
      refine ⟨.error e, [], ?_, fun rulesets => ?_⟩
      · intro f he
        cases he
        exact hreturns f hload
      · rw [Unalix.loadProviders, hload]
        rfl
    | ok result =>
      cases result with
      | none =>
        refine ⟨r, added, hr, fun rulesets => ?_⟩
        rw [Unalix.loadProviders, hload]
        exact hloop rulesets
      | some ruleset =>
        refine ⟨r, ruleset :: added, hr, fun rulesets => ?_⟩
        rw [Unalix.loadProviders, hload]
        exact hloop (rulesets.append ruleset)

/-- The rulesets that a tree adds to a store. -/
def treeRules (tree : Option Json) : List (Unalix.Ruleset Code) :=
  tree.elim [] fun tree => (Unalix.loadRuleset compile tree {}).2.items

/-- The store with some rulesets. -/
def storeOf (rules : List (Unalix.Ruleset Code)) : Unalix.Rulesets Code where
  size := sizeofRuleset * rules.length
  items := rules

theorem storeOf_appendAll (rules added : List (Unalix.Ruleset Code)) :
    (storeOf rules).appendAll added = storeOf (rules ++ added) := by
  induction added generalizing rules with
  | nil => rw [List.append_nil]; rfl
  | cons ruleset added ih =>
    have happend : (storeOf rules).append ruleset = storeOf (rules ++ [ruleset]) := by
      simp [storeOf, Unalix.Rulesets.append, Nat.mul_add]
    rw [Unalix.Rulesets.appendAll_cons, happend, ih, List.append_assoc, List.singleton_append]

theorem exists_loadRuleset_eq (tree : Json) :
    ∃ r : Outcome Unit, Returns r ∧ ∀ rules,
      Unalix.loadRuleset compile tree (storeOf rules) =
        (r, storeOf (rules ++ treeRules compile (some tree))) := by
  have hnone (e : ErrorCode) (h : ∀ rulesets, Unalix.loadRuleset compile tree rulesets =
      (fail e, rulesets)) : ∃ r : Outcome Unit, Returns r ∧ ∀ rules,
      Unalix.loadRuleset compile tree (storeOf rules) =
        (r, storeOf (rules ++ treeRules compile (some tree))) := by
    refine ⟨fail e, returns_fail e, fun rules => ?_⟩
    rw [treeRules, Option.elim_some, h, h, List.append_nil]
  rcases hjson : jsonObjectGet tree providersKey with _ | json
  · exact hnone .jsonMissingRequiredKey fun rulesets => by rw [Unalix.loadRuleset, hjson]
  · cases json with
    | object providers =>
      obtain ⟨r, added, hr, hloop⟩ := exists_loadProviders_eq compile providers
      have hload (rulesets : Unalix.Rulesets Code) :
          Unalix.loadRuleset compile tree rulesets = (r, rulesets.appendAll added) := by
        rw [Unalix.loadRuleset, hjson]
        exact hloop rulesets
      refine ⟨r, hr, fun rules => ?_⟩
      rw [treeRules, Option.elim_some, hload, hload, storeOf_appendAll,
        Unalix.Rulesets.items_appendAll, List.nil_append]
    | _ => exact hnone .jsonNonMatchingType fun rulesets => by rw [Unalix.loadRuleset, hjson]

theorem exists_loadParsed_eq (parse : Bytes → Option Json) (source : Bytes) :
    ∃ r : Outcome Unit, Returns r ∧ ∀ rules,
      Unalix.loadParsed compile parse source (storeOf rules) =
        (r, storeOf (rules ++ treeRules compile (parse source))) := by
  cases htree : parse source with
  | none =>
    refine ⟨fail .jsonCannotParse, returns_fail _, fun rules => ?_⟩
    rw [Unalix.loadParsed, htree, treeRules, Option.elim_none, List.append_nil]
  | some tree =>
    obtain ⟨r, hr, hload⟩ := exists_loadRuleset_eq compile tree
    refine ⟨r, hr, fun rules => ?_⟩
    rw [Unalix.loadParsed, htree]
    exact hload rules

theorem exists_unalixLoadFile_eq (parse : Bytes → Option Json) (source : Option Bytes) :
    ∃ r : Outcome Unit, Returns r ∧ ∀ rules,
      Unalix.unalixLoadFile compile parse source (storeOf rules) =
        (r, storeOf (rules ++ treeRules compile (loadedTree parse source))) := by
  have hinvalid (rules : List (Unalix.Ruleset Code)) :
      ((fail .argInvalid : Outcome Unit), storeOf rules) =
        (fail .argInvalid, storeOf (rules ++ treeRules compile none)) := by
    rw [treeRules, Option.elim_none, List.append_nil]
  match source with
  | none => exact ⟨fail .argInvalid, returns_fail _, hinvalid⟩
  | some [] => exact ⟨fail .argInvalid, returns_fail _, hinvalid⟩
  | some (c :: s) => exact exists_loadParsed_eq compile parse (c :: s)

theorem unalixLoadString_eq_unalixLoadFile (parse : Bytes → Option Json) (source : Option Bytes)
    (rulesets : Unalix.Rulesets Code) :
    Unalix.unalixLoadString compile parse source rulesets =
      Unalix.unalixLoadFile compile parse source rulesets := by
  match source with
  | none => rfl
  | some [] => rfl
  | some (c :: s) => rfl

/-- The rulesets in force after a call: a load adds some behind the others, and unloading leaves
none. -/
def inForce (rules : List (Unalix.Ruleset Code)) : Request → List (Unalix.Ruleset Code)
  | .loadFile jsonLoadFile filename => rules ++ treeRules compile (loadedTree jsonLoadFile filename)
  | .loadString jsonLoads string => rules ++ treeRules compile (loadedTree jsonLoads string)
  | .tryLoad _ _ => rules
  | .clean _ _ => rules
  | .unload => []

variable (pcre : Pcre Code) (fuel : ℕ)

/-- Apart from cleaning, what a call returns does not depend on the rules in force. -/
theorem exists_answer_eq (request : Request) (h : ∀ sourceUrl flags, request ≠ .clean sourceUrl flags) :
    ∃ r : Outcome Unit, Returns r ∧ ∀ rules, answer compile pcre fuel (storeOf rules) request =
      (.returned r, storeOf (inForce compile rules request)) := by
  cases request with
  | loadFile jsonLoadFile filename =>
    obtain ⟨r, hr, hload⟩ := exists_unalixLoadFile_eq compile jsonLoadFile filename
    exact ⟨r, hr, fun rules => by rw [answer, hload]; rfl⟩
  | loadString jsonLoads string =>
    obtain ⟨r, hr, hload⟩ := exists_unalixLoadFile_eq compile jsonLoads string
    exact ⟨r, hr, fun rules => by rw [answer, unalixLoadString_eq_unalixLoadFile, hload]; rfl⟩
  | tryLoad jsonLoadFile rulesetFile =>
    obtain ⟨r, hr, hload⟩ := exists_loadParsed_eq compile jsonLoadFile rulesetFile
    exact ⟨r, hr, fun rules => by
      rw [answer, Unalix.loadFile]
      exact congrArg (fun p => (Response.returned p.1, storeOf rules)) (hload [])⟩
  | clean sourceUrl flags => exact absurd rfl (h sourceUrl flags)
  | unload => exact ⟨.ok (), returns_ok _, fun rules => rfl⟩

theorem answer_storeOf (rules : List (Unalix.Ruleset Code)) (request : Request) :
    (answer compile pcre fuel (storeOf rules) request).2 =
      storeOf (inForce compile rules request) := by
  by_cases h : ∃ sourceUrl flags, request = .clean sourceUrl flags
  · obtain ⟨sourceUrl, flags, rfl⟩ := h
    rfl
  · obtain ⟨r, -, hanswer⟩ := exists_answer_eq compile pcre fuel request
      fun sourceUrl flags heq => h ⟨sourceUrl, flags, heq⟩
    rw [hanswer]

theorem session_storeOf (requests : List Request) (rules : List (Unalix.Ruleset Code)) :
    (session (answer compile pcre fuel) (storeOf rules) requests).2 =
      storeOf (requests.foldl (inForce compile) rules) := by
  induction requests generalizing rules with
  | nil => rfl
  | cons request requests ih =>
    rw [session, answer_storeOf]
    exact ih _

/-- A call on values ends without a fault, unless it cleans. -/
theorem returns_of_mem_session (requests : List Request) (rules : List (Unalix.Ruleset Code))
    {r : Outcome Unit}
    (hr : .returned r ∈ (session (answer compile pcre fuel) (storeOf rules) requests).1) :
    Returns r := by
  induction requests generalizing rules with
  | nil => simp [session] at hr
  | cons request requests ih =>
    rw [session, answer_storeOf, List.mem_cons] at hr
    rcases hr with hr | hr
    · by_cases h : ∃ sourceUrl flags, request = .clean sourceUrl flags
      · obtain ⟨sourceUrl, flags, rfl⟩ := h
        cases hr
      · obtain ⟨r', hr', hanswer⟩ := exists_answer_eq compile pcre fuel request
          fun sourceUrl flags heq => h ⟨sourceUrl, flags, heq⟩
        rw [hanswer, Response.returned.injEq] at hr
        rwa [hr]
    · exact ih _ hr

end Returns

/-! ## What a load leaves behind -/

section Lost

variable (compile : Bytes → Option Code)

/-- The pattern of a provider compiles, and what is read before it is in order. -/
def PatternCompiled (value : Json) : Prop :=
  (∃ complete, readCompleteProvider value = .ok complete) ∧
    ∃ src, jsonObjectGet value urlPatternKey = some (.string src) ∧ (compile src).isSome = true

/-- The first ill-formed provider has a pattern that compiles. -/
def StopsBehindPattern (providers : List (Bytes × Json)) : Prop :=
  ∃ before provider after, providers = before ++ provider :: after ∧
    (∀ p ∈ before, ¬ IllFormed compile p) ∧ IllFormed compile provider ∧
      PatternCompiled compile provider.2

variable {compile}

theorem lostBlocks_pos_iff (value : Json) :
    0 < lostBlocks compile value ↔ PatternCompiled compile value := by
  rw [PatternCompiled, ← succeeds_loadUrlPattern_iff, lostBlocks, Succeeds]
  cases readCompleteProvider value with
  | error e => simp
  | ok complete =>
    cases Unalix.loadUrlPattern compile value with
    | error e => simp
    | ok code => simp

theorem stopsBehindPattern_cons_of_illFormed {provider : Bytes × Json}
    (h : IllFormed compile provider) (providers : List (Bytes × Json)) :
    StopsBehindPattern compile (provider :: providers) ↔ PatternCompiled compile provider.2 := by
  refine ⟨?_, fun hpattern => ⟨[], provider, providers, rfl, by simp, h, hpattern⟩⟩
  rintro ⟨before, stop, after, heq, hbefore, -, hpattern⟩
  cases before with
  | nil =>
    cases heq
    exact hpattern
  | cons first before =>
    cases heq
    exact absurd h (hbefore _ List.mem_cons_self)

theorem stopsBehindPattern_cons_of_not_illFormed {provider : Bytes × Json}
    (h : ¬ IllFormed compile provider) (providers : List (Bytes × Json)) :
    StopsBehindPattern compile (provider :: providers) ↔ StopsBehindPattern compile providers := by
  constructor
  · rintro ⟨before, stop, after, heq, hbefore, hill, hpattern⟩
    cases before with
    | nil =>
      cases heq
      exact absurd hill h
    | cons first before =>
      cases heq
      exact ⟨before, stop, after, rfl, fun p hp => hbefore p (List.mem_cons_of_mem _ hp), hill,
        hpattern⟩
  · rintro ⟨before, stop, after, rfl, hbefore, hill, hpattern⟩
    refine ⟨provider :: before, stop, after, rfl, ?_, hill, hpattern⟩
    rw [List.forall_mem_cons]
    exact ⟨h, hbefore⟩

/-- Blocks are lost when the first ill-formed provider has a pattern that compiles. -/
theorem lostProviders_pos_iff (providers : List (Bytes × Json)) :
    0 < lostProviders compile providers ↔ StopsBehindPattern compile providers := by
  induction providers with
  | nil => simp [lostProviders, StopsBehindPattern]
  | cons provider providers ih =>
    rw [lostProviders]
    rcases @loadProvider_cases Code compile provider with
      ⟨hskip, hload⟩ | ⟨-, hwell, ruleset, hload⟩ | ⟨hill, e, hload⟩
    · rw [stopsBehindPattern_cons_of_not_illFormed fun hill => hill.1 hskip, hload]
      exact ih
    · rw [stopsBehindPattern_cons_of_not_illFormed fun hill => hill.2 hwell, hload]
      exact ih
    · rw [stopsBehindPattern_cons_of_illFormed hill, hload]
      exact lostBlocks_pos_iff provider.2

theorem lostBy_eq_zero_iff (request : Request) :
    lostBy compile request = 0 ↔ ∀ tree, requestTree request = some tree →
      ¬ StopsBehindPattern compile (providersOf tree) := by
  rw [lostBy]
  cases requestTree request with
  | none => simp
  | some tree => simp [← lostProviders_pos_iff]

end Lost

/-! ## What holds of every session -/

section Main

variable (compile : Bytes → Option Code) (pcre : Pcre Code) (fuel : ℕ)

/-- **The memory refines the values** in every session: all calls are answered as they are on
values, and no load, trial or unloading runs into an invalid access. The one thing that is read
outside of its block is what lies behind the key of a provider when that is shorter than twelve bytes:
so nothing is if and only if no load compares such a key. -/
theorem session_refines (requests : List Request) :
    (session (respond compile pcre fuel) start requests).1 =
        (session (answer compile pcre fuel) {} requests).1 ∧
      (∀ r, .returned r ∈ (session (respond compile pcre fuel) start requests).1 →
        Outcome.Returns r) ∧
      (session (respond compile pcre fuel) start requests).2.heap.outside =
        overreads (requests.flatMap (requestKeys compile)) ∧
      ((session (respond compile pcre fuel) start requests).2.heap.outside = 0 ↔
        ∀ request ∈ requests, ∀ key ∈ requestKeys compile request, 12 ≤ key.length) := by
  obtain ⟨hresponses, lost, -, placed, -, -, hh⟩ :=
    @session_represents _ compile pcre fuel _ _ _ _ represents_start requests
  have houtside := hh.outside_eq
  rw [Nat.zero_add] at houtside
  refine ⟨hresponses, fun r hr => ?_, houtside, ?_⟩
  · rw [hresponses] at hr
    exact returns_of_mem_session compile pcre fuel requests [] hr
  · rw [houtside, overreads_eq_zero_iff]
    simp only [List.mem_flatMap, forall_exists_index, and_imp]
    exact ⟨fun h request hmem key hkey => h key request hmem hkey,
      fun h key request hmem hkey => h request hmem key hkey⟩

/-- **What a session leaves allocated** when the rules are unloaded in the end: the blocks that were
lost by its loads. There are none if and only if no load has stopped at a provider whose pattern was
compiled. -/
theorem session_leak_iff (requests : List Request) :
    HasBlocks (session (respond compile pcre fuel) start (requests ++ [.unload])).2.heap
        ((requests.map (lostBy compile)).sum) ∧
      ((∀ a, (session (respond compile pcre fuel) start (requests ++ [.unload])).2.heap.blocks a =
          none) ↔
        ∀ request ∈ requests, ∀ tree, requestTree request = some tree →
          ¬ StopsBehindPattern compile (providersOf tree)) := by
  obtain ⟨-, lost, hcard, hm⟩ :=
    @session_represents _ compile pcre fuel _ _ _ _ represents_start requests
  obtain ⟨h, hunload, hh⟩ := exists_unload hm
  have hfinal : (session (respond compile pcre fuel) start (requests ++ [.unload])).2.heap = h := by
    rw [session_append]
    simp only [session, respond, hunload, final_ok]
  have hblocks : HasBlocks h ((requests.map (lostBy compile)).sum) :=
    ⟨_, lost + 0, hh, by rw [add_zero, hcard]⟩
  rw [hfinal]
  refine ⟨hblocks, ?_⟩
  rw [hblocks.eq_zero_iff, List.sum_eq_zero_iff, List.forall_mem_map]
  exact forall₂_congr fun request _ => lostBy_eq_zero_iff request

/-- **Unloading starts afresh**: behind it all calls are answered as in a process in which nothing
was loaded before. -/
theorem session_unload (requests requests' : List Request) :
    (session (respond compile pcre fuel) start (requests ++ .unload :: requests')).1 =
      (session (respond compile pcre fuel) start requests).1 ++
        .returned (.ok ()) :: (session (respond compile pcre fuel) start requests').1 := by
  obtain ⟨-, lost, -, hm⟩ :=
    @session_represents _ compile pcre fuel _ _ _ _ represents_start requests
  obtain ⟨hresponse, lost', -, hm'⟩ := @respond_represents _ compile pcre fuel _ _ _ _ hm .unload
  obtain ⟨hbehind, -⟩ := @session_represents _ compile pcre fuel _ _ _ _ hm' requests'
  obtain ⟨hfresh, -⟩ :=
    @session_represents _ compile pcre fuel _ _ _ _ represents_start requests'
  rw [session_append, session, hresponse, hbehind, hfresh]
  rfl

/-- **The store after a session** holds what was loaded since the last unloading, in this order.
Apart from cleaning, every call returns then what it returns in a new process. -/
theorem session_store (requests : List Request) :
    (getRulesets (session (respond compile pcre fuel) start requests).2.rulesets
        (session (respond compile pcre fuel) start requests).2.heap =
      .ok (storeOf (requests.foldl (inForce compile) []))
        (session (respond compile pcre fuel) start requests).2.heap) ∧
      ∀ request, (∀ sourceUrl flags, request ≠ .clean sourceUrl flags) →
        (respond compile pcre fuel (session (respond compile pcre fuel) start requests).2
            request).1 =
          (respond compile pcre fuel start request).1 := by
  obtain ⟨-, lost, -, hm⟩ :=
    @session_represents _ compile pcre fuel _ _ _ _ represents_start requests
  have hstore : (session (answer compile pcre fuel) {} requests).2 =
      storeOf (requests.foldl (inForce compile) []) := session_storeOf compile pcre fuel requests []
  rw [hstore] at hm
  refine ⟨getRulesets_represents hm, fun request hrequest => ?_⟩
  obtain ⟨r, -, hanswer⟩ := exists_answer_eq compile pcre fuel request hrequest
  have hfresh : answer compile pcre fuel {} request =
      (.returned r, storeOf (inForce compile [] request)) := hanswer []
  rw [(respond_represents hm request).1, (respond_represents represents_start request).1, hanswer,
    hfresh]

end Main

end Unalix.InMemory
