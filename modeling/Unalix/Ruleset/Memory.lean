import Unalix.Foundations.Heap
import Unalix.Foundations.Simulation
import Unalix.Ruleset.Load

/-!
# The rules in memory (`ruleset.c`)

A compiled pattern, an array of patterns and the array of the store are blocks, and the store is a
record of two numbers and a pointer. `load_ruleset` builds the arrays of a provider before it
extends the store by it, and leaves them where they are when it ends with an error. The key of each
provider is compared as if it had thirteen bytes, so that `memcmp` runs over the end of a short one.

The functions here have the names of those of `Ruleset/Load`, which calculate with the values the
pointers lead to.
-/

namespace Unalix.InMemory

open Calls Heaps

/-! ## Records -/

/-- `struct Rules`. -/
structure Rules where
  totalItems : ℕ := 0
  items : Option ℕ := none
  deriving DecidableEq, Repr

/-- `struct Ruleset`. -/
structure Ruleset where
  urlPattern : Option ℕ := none
  rules : Rules := {}
  rawRules : Rules := {}
  referralMarketing : Rules := {}
  exceptions : Rules := {}
  redirections : Rules := {}
  deriving DecidableEq, Repr

/-- `struct Rulesets`. -/
structure Rulesets where
  size : ℕ := 0
  offset : ℕ := 0
  items : Option ℕ := none
  deriving DecidableEq, Repr

/-- What a block holds: a `pcre2_code`, the array of a `struct Rules`, or that of a
`struct Rulesets`. An element that was not written yet is `none`. -/
inductive Block (Code : Type)
  | pattern (code : Code)
  | patterns (items : List (Option ℕ))
  | rulesets (items : List (Option Ruleset))

/-- The field of a ruleset that an array of patterns goes to. -/
def setRules (ruleset : Ruleset) (name : Bytes) (rules : Rules) : Ruleset :=
  if name = rulesKey then { ruleset with rules := rules }
  else if name = rawRulesKey then { ruleset with rawRules := rules }
  else if name = referralMarketingKey then { ruleset with referralMarketing := rules }
  else if name = exceptionsKey then { ruleset with exceptions := rules }
  else if name = redirectionsKey then { ruleset with redirections := rules }
  else ruleset

/-! ## Accesses -/

variable {Code : Type}

abbrev HeapCall (Code α : Type) := EStateM Failure (Heap (Block Code)) α

/-- An access to what is not allocated, or was not written, or lies outside. -/
def invalid : Failure := .fault .outOfBounds

def readPattern (a : ℕ) : HeapCall Code Code := do
  match ← read invalid a with
  | .pattern code => return code
  | _ => throw invalid

def patternArray : ArrayKind (Block Code) ℕ where
  block := .patterns
  items
    | .patterns items => some items
    | _ => none
  items_block _ := rfl

def rulesetArray : ArrayKind (Block Code) Ruleset where
  block := .rulesets
  items
    | .rulesets items => some items
    | _ => none
  items_block _ := rfl

def getPattern (array index : ℕ) : HeapCall Code ℕ := getAt patternArray invalid array index

def setPattern (array index pattern : ℕ) : HeapCall Code Unit :=
  setAt patternArray invalid array index pattern

def getRuleset (items index : ℕ) : HeapCall Code Ruleset := getAt rulesetArray invalid items index

def setRuleset (items index : ℕ) (ruleset : Ruleset) : HeapCall Code Unit :=
  setAt rulesetArray invalid items index ruleset

/-! ## `load_ruleset` -/

section Load

variable (compile : Bytes → Option Code)

/-- `regex_compile`. -/
def regexCompile (src : Bytes) : HeapCall Code ℕ :=
  match compile src with
  | none => throw (.code .regexCompilePatternFailure)
  | some code => alloc (.pattern code)

/-- The loop over the items of an array, from `index` on. -/
def loadItems (name : Bytes) (array : ℕ) : ℕ → List Json → HeapCall Code Unit
  | _, [] => pure ()
  | index, .string src :: items => do
    let dst ← regexCompile compile (itemPattern name src)
    setPattern array index dst
    loadItems name array (index + 1) items
  | _, _ :: _ => throw (.code .jsonNonMatchingType)

/-- One of the array keys: nothing when it is absent, null or empty. -/
def loadArray (value : Json) (name : Bytes) : HeapCall Code (Option Rules) :=
  match jsonObjectGet value name with
  | none => pure none
  | some .null => pure none
  | some (.array []) => pure none
  | some (.array items) => do
    let array ← alloc (.patterns (List.replicate items.length none))
    loadItems compile name array 0 items
    return some { totalItems := items.length, items := some array }
  | some _ => throw (.code .jsonNonMatchingType)

/-- The loop over the array keys. -/
def loadArrays (value : Json) : List Bytes → Ruleset → HeapCall Code Ruleset
  | [], ruleset => pure ruleset
  | name :: names, ruleset => do
    let rules ← loadArray compile value name
    loadArrays value names (rules.elim ruleset (setRules ruleset name))

/-- `urlPattern`. -/
def loadUrlPattern (value : Json) : HeapCall Code ℕ :=
  match jsonObjectGet value urlPatternKey with
  | none => throw (.code .jsonMissingRequiredKey)
  | some (.string urlPattern) => regexCompile compile urlPattern
  | some _ => throw (.code .jsonNonMatchingType)

/-- The result of a function that does not touch the heap. -/
def ofOutcome {α : Type} (r : Outcome α) : HeapCall Code α := fun h =>
  match r with
  | .ok a => .ok a h
  | .error e => .error e h

/-- `memcmp(key, PREFIX_PROVIDER_IGNORE, strlen(PREFIX_PROVIDER_IGNORE)) == 0` for the bytes that are
at a key. -/
def memcmpIgnore (memory : Bytes) : Bool :=
  memory.take prefixProviderIgnore.length = prefixProviderIgnore

/-- How many bytes `memcmp` reads behind the NUL of a key. -/
def overread (key : Bytes) : ℕ := prefixProviderIgnore.length - (key.length + 1)

/-- Whether a provider is ignored. Its key is a block with a text and its NUL, and `memcmp` reads as
many bytes of it as the other text has, whether it is shorter or not. -/
def ignoreProvider (key : Bytes) : HeapCall Code Bool := do
  beyond (overread key)
  return memcmpIgnore (key ++ [0])

/-- The body of the loop over the providers up to the extension of the store; nothing for a
provider that is skipped. -/
def loadProvider (key : Bytes) (value : Json) : HeapCall Code (Option Ruleset) := do
  let ignored ← ignoreProvider key
  if ignored then return none
  else match value with
    | .object _ => do
      let completeProvider ← ofOutcome (readCompleteProvider value)
      if completeProvider then return none
      let urlPattern ← loadUrlPattern compile value
      let ruleset ← loadArrays compile value arrayKeys { urlPattern := some urlPattern }
      return some ruleset
    | _ => throw (.code .jsonNonMatchingType)

/-- **What lies behind a key does not matter**: at its NUL at the latest it differs. -/
theorem memcmpIgnore_eq (key behind : Bytes) :
    memcmpIgnore (key ++ 0 :: behind) = decide (prefixProviderIgnore <+: key) := by
  have hbegins : prefixProviderIgnore <+: key ++ 0 :: behind ↔ prefixProviderIgnore <+: key := by
    refine ⟨fun h => ?_, fun h => h.trans (List.prefix_append _ _)⟩
    rcases List.prefix_or_prefix_of_prefix h (List.prefix_append key _) with hkey | ⟨t, ht⟩
    · exact hkey
    · rw [← ht, List.prefix_append_right_inj] at h
      cases t with
      | nil => rw [← ht, List.append_nil]
      | cons c t =>
        -- the next byte is the NUL of the key, and the other text has none
        have hnul : (0 : UInt8) ∉ prefixProviderIgnore := by decide
        rw [← ht, (List.cons_prefix_cons.1 h).1] at hnul
        simp at hnul
  rw [memcmpIgnore, decide_eq_decide, eq_comm, ← List.prefix_iff_eq_take, hbegins]

/-- `realloc` of the array of the store: what was in it is moved. -/
def reallocRulesets (items : Option ℕ) (size : ℕ) : HeapCall Code ℕ :=
  reallocArray rulesetArray invalid items (size / sizeofRuleset)

/-- The end of the loop over the providers: the store is extended. -/
def appendRuleset (rulesets : Rulesets) (ruleset : Ruleset) : HeapCall Code Rulesets := do
  let size := rulesets.size + sizeofRuleset * 1
  let items ← reallocRulesets rulesets.items size
  setRuleset items rulesets.offset ruleset
  return { size := size, offset := rulesets.offset + 1, items := some items }

end Load

/-- The heap, and the record of the store that is loaded to. -/
structure Memory (Code : Type) where
  heap : Heap (Block Code)
  rulesets : Rulesets

abbrev MemoryCall (Code α : Type) := EStateM Failure (Memory Code) α

/-- The heap as a part of the memory. -/
def heapPart : Part (Memory Code) (Heap (Block Code)) where
  get := Memory.heap
  set m heap := { m with heap := heap }

/-- A call on the heap that gives the record its new value. -/
def updateRulesets (call : Rulesets → HeapCall Code Rulesets) : MemoryCall Code Unit := do
  let m ← get
  let rulesets ← heapPart.run (call m.rulesets)
  modify fun m => { m with rulesets := rulesets }

section Load

variable (compile : Bytes → Option Code)

/-- The loop over the providers. -/
def loadProviders : List (Bytes × Json) → MemoryCall Code Unit
  | [] => pure ()
  | (key, value) :: providers => do
    match ← heapPart.run (loadProvider compile key value) with
    | none => loadProviders providers
    | some ruleset =>
      updateRulesets fun rulesets => appendRuleset rulesets ruleset
      loadProviders providers

/-- `load_ruleset`. -/
def loadRuleset (tree : Json) : MemoryCall Code Unit :=
  match jsonObjectGet tree providersKey with
  | none => throw (.code .jsonMissingRequiredKey)
  | some (.object providers) => loadProviders compile providers
  | some _ => throw (.code .jsonNonMatchingType)

/-- A text is parsed, and the rules of its tree are loaded. -/
def loadParsed (parse : Bytes → Option Json) (source : Bytes) : MemoryCall Code Unit :=
  match parse source with
  | none => throw (.code .jsonCannotParse)
  | some tree => loadRuleset compile tree

/-- `load_file`. -/
def loadFile (jsonLoadFile : Bytes → Option Json) (filename : Bytes) : MemoryCall Code Unit :=
  loadParsed compile jsonLoadFile filename

/-- `unalix_load_file`. -/
def unalixLoadFile (jsonLoadFile : Bytes → Option Json) (filename : Option Bytes) :
    MemoryCall Code Unit :=
  match filename with
  | none => throw (.code .argInvalid)
  | some [] => throw (.code .argInvalid)
  | some filename => loadFile compile jsonLoadFile filename

/-- `unalix_load_string`. -/
def unalixLoadString (jsonLoads : Bytes → Option Json) (string : Option Bytes) :
    MemoryCall Code Unit :=
  match string with
  | none => throw (.code .argInvalid)
  | some [] => throw (.code .argInvalid)
  | some string => loadParsed compile jsonLoads string

end Load

/-! ## `rulesets_free` -/

/-- `pcre2_code_free`. -/
def pcre2CodeFree (pattern : Option ℕ) : HeapCall Code Unit :=
  match pattern with
  | none => pure ()
  | some a => do
    let _ ← readPattern a
    free invalid a

/-- The body of the loop over the patterns of an array. -/
def freeItem (array index : ℕ) : HeapCall Code Unit := do
  let pattern ← getPattern array index
  pcre2CodeFree (some pattern)

/-- The patterns of an array and the array. -/
def freeRules (object : Rules) : HeapCall Code Unit :=
  match object.items with
  | none => pure ()
  | some array => do
    forRange (freeItem array) object.totalItems 0
    free invalid array

/-- The loop over the five arrays of a ruleset. -/
def freeObjects : List Rules → HeapCall Code Unit
  | [] => pure ()
  | object :: objects => do
    freeRules object
    freeObjects objects

/-- A pointer that is followed. -/
def deref (pointer : Option ℕ) : HeapCall Code ℕ :=
  match pointer with
  | none => throw (.fault .nullPointer)
  | some a => pure a

/-- The pattern of a ruleset is freed, and its pointer is set to null. -/
def freeUrlPattern (items index : ℕ) (ruleset : Ruleset) : HeapCall Code Unit :=
  match ruleset.urlPattern with
  | none => pure ()
  | some urlPattern => do
    pcre2CodeFree (some urlPattern)
    setRuleset items index { ruleset with urlPattern := none }

/-- The body of the loop over the rulesets. -/
def freeRuleset (rulesets : Rulesets) (index : ℕ) : HeapCall Code Unit := do
  let items ← deref rulesets.items
  let ruleset ← getRuleset items index
  freeUrlPattern items index ruleset
  freeObjects [ruleset.rules, ruleset.rawRules, ruleset.referralMarketing, ruleset.exceptions,
    ruleset.redirections]

/-- `rulesets_free`: the record that is left. -/
def rulesetsFree (rulesets : Rulesets) : HeapCall Code Rulesets := do
  forRange (freeRuleset rulesets) rulesets.offset 0
  match rulesets.items with
  | none => return {}
  | some items =>
    free invalid items
    return {}

/-- `unalix_unload_rulesets`. -/
def unalixUnloadRulesets : MemoryCall Code Unit := updateRulesets rulesetsFree

/-- The end of `ruleset_update`: a file is loaded to a store of its own, which is freed. -/
def tryLoad (compile : Bytes → Option Code) (jsonLoadFile : Bytes → Option Json)
    (rulesetFile : Bytes) : MemoryCall Code Unit := fun m =>
  let loaded := loadFile compile jsonLoadFile rulesetFile { m with rulesets := {} }
  match rulesetsFree (final loaded).rulesets (final loaded).heap, outcome loaded with
  | .error e heap, _ => .error e { m with heap := heap }
  | .ok _ heap, .ok () => .ok () { m with heap := heap }
  | .ok _ heap, .error e => .error e { m with heap := heap }

/-! ## Reading the store -/

/-- A pattern of an array. -/
def readItem (object : Rules) (index : ℕ) : HeapCall Code Code := do
  let array ← deref object.items
  let pattern ← getPattern array index
  readPattern pattern

/-- The patterns of an array. -/
def readRules (object : Rules) : HeapCall Code (List Code) :=
  mapRange (readItem object) object.totalItems 0

/-- What the pointers of a ruleset lead to. -/
def readRuleset (rulesets : Rulesets) (index : ℕ) : HeapCall Code (Unalix.Ruleset Code) := do
  let items ← deref rulesets.items
  let ruleset ← getRuleset items index
  let urlPattern ← deref ruleset.urlPattern
  let urlPattern ← readPattern urlPattern
  let rules ← readRules ruleset.rules
  let rawRules ← readRules ruleset.rawRules
  let referralMarketing ← readRules ruleset.referralMarketing
  let exceptions ← readRules ruleset.exceptions
  let redirections ← readRules ruleset.redirections
  return { urlPattern, rules, rawRules, referralMarketing, exceptions, redirections }

/-- `get_rulesets`, with all that its pointers lead to. -/
def getRulesets (rulesets : Rulesets) : HeapCall Code (Unalix.Rulesets Code) := do
  let items ← mapRange (readRuleset rulesets) rulesets.offset 0
  return { size := rulesets.size, items }

end Unalix.InMemory
