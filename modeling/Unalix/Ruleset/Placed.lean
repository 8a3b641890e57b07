import Unalix.Ruleset.Memory

/-!
# Loading rules into memory

`load_ruleset` on the memory does what it does on values: it returns the same code, and the store
it leaves is that of `Ruleset/Load`, at addresses of its own (`loadRuleset_simulates`). What else
is allocated when it ends is what the ill-formed provider has left behind, as many blocks as
`lostBlocks` says.

A placed value is a value together with the addresses of its blocks; from it one gets the record of
the source (`record`), the value (`value`) and the blocks (`cells`).
-/

namespace Unalix.InMemory

open Calls Heaps

variable {Code : Type}

/-! ## Placed values -/

/-- Patterns with their addresses. -/
def patternCells (patterns : List (ℕ × Code)) : Multiset (ℕ × Block Code) :=
  (patterns.map fun pattern => (pattern.1, Block.pattern pattern.2) : List (ℕ × Block Code))

@[simp] theorem patternCells_nil : patternCells ([] : List (ℕ × Code)) = 0 := rfl

@[simp] theorem patternCells_cons (pattern : ℕ × Code) (patterns : List (ℕ × Code)) :
    patternCells (pattern :: patterns) =
      (pattern.1, Block.pattern pattern.2) ::ₘ patternCells patterns := rfl

@[simp] theorem patternCells_append (patterns patterns' : List (ℕ × Code)) :
    patternCells (patterns ++ patterns') = patternCells patterns + patternCells patterns' := by
  simp [patternCells]

@[simp] theorem card_patternCells (patterns : List (ℕ × Code)) :
    (patternCells patterns).card = patterns.length := by
  simp [patternCells]

/-- The elements of an array of patterns. -/
def pointers (patterns : List (ℕ × Code)) : List (Option ℕ) :=
  patterns.map fun pattern => some pattern.1

theorem length_pointers (patterns : List (ℕ × Code)) :
    (pointers patterns).length = patterns.length := List.length_map _

theorem pointers_append (patterns patterns' : List (ℕ × Code)) :
    pointers (patterns ++ patterns') = pointers patterns ++ pointers patterns' := List.map_append

/-- A `struct Rules` with its array and its patterns. -/
abbrev PlacedRules (Code : Type) := Option (ℕ × List (ℕ × Code))

namespace PlacedRules

def record (rules : PlacedRules Code) : Rules :=
  rules.elim {} fun rules => { totalItems := rules.2.length, items := some rules.1 }

def value (rules : PlacedRules Code) : List Code :=
  rules.elim [] fun rules => rules.2.map Prod.snd

def cells (rules : PlacedRules Code) : Multiset (ℕ × Block Code) :=
  rules.elim 0 fun rules => (rules.1, .patterns (pointers rules.2)) ::ₘ patternCells rules.2

theorem cells_none : cells (none : PlacedRules Code) = 0 := rfl

end PlacedRules

/-- A `struct Ruleset` with its arrays and its patterns. -/
structure PlacedRuleset (Code : Type) where
  urlPattern : ℕ × Code
  rules : PlacedRules Code := none
  rawRules : PlacedRules Code := none
  referralMarketing : PlacedRules Code := none
  exceptions : PlacedRules Code := none
  redirections : PlacedRules Code := none

namespace PlacedRuleset

def record (ruleset : PlacedRuleset Code) : Ruleset where
  urlPattern := some ruleset.urlPattern.1
  rules := ruleset.rules.record
  rawRules := ruleset.rawRules.record
  referralMarketing := ruleset.referralMarketing.record
  exceptions := ruleset.exceptions.record
  redirections := ruleset.redirections.record

def value (ruleset : PlacedRuleset Code) : Unalix.Ruleset Code where
  urlPattern := ruleset.urlPattern.2
  rules := ruleset.rules.value
  rawRules := ruleset.rawRules.value
  referralMarketing := ruleset.referralMarketing.value
  exceptions := ruleset.exceptions.value
  redirections := ruleset.redirections.value

/-- The blocks of the five arrays. -/
def arrayCells (ruleset : PlacedRuleset Code) : Multiset (ℕ × Block Code) :=
  ruleset.rules.cells + (ruleset.rawRules.cells + (ruleset.referralMarketing.cells +
    (ruleset.exceptions.cells + ruleset.redirections.cells)))

def cells (ruleset : PlacedRuleset Code) : Multiset (ℕ × Block Code) :=
  (ruleset.urlPattern.1, .pattern ruleset.urlPattern.2) ::ₘ ruleset.arrayCells

/-- The field of a ruleset that an array of patterns goes to. -/
def setRules (ruleset : PlacedRuleset Code) (name : Bytes) (rules : PlacedRules Code) :
    PlacedRuleset Code :=
  if name = rulesKey then { ruleset with rules := rules }
  else if name = rawRulesKey then { ruleset with rawRules := rules }
  else if name = referralMarketingKey then { ruleset with referralMarketing := rules }
  else if name = exceptionsKey then { ruleset with exceptions := rules }
  else if name = redirectionsKey then { ruleset with redirections := rules }
  else ruleset

/-- The array of a key. -/
def getRules (ruleset : PlacedRuleset Code) (name : Bytes) : PlacedRules Code :=
  if name = rulesKey then ruleset.rules
  else if name = rawRulesKey then ruleset.rawRules
  else if name = referralMarketingKey then ruleset.referralMarketing
  else if name = exceptionsKey then ruleset.exceptions
  else if name = redirectionsKey then ruleset.redirections
  else none

theorem getRules_new (urlPattern : ℕ × Code) (name : Bytes) :
    ({ urlPattern := urlPattern } : PlacedRuleset Code).getRules name = none := by
  unfold getRules
  split_ifs <;> rfl

theorem cells_new (urlPattern : ℕ × Code) :
    ({ urlPattern := urlPattern } : PlacedRuleset Code).cells =
      (urlPattern.1, .pattern urlPattern.2) ::ₘ 0 := by
  simp only [cells, arrayCells, PlacedRules.cells_none, zero_add]

theorem record_setRules (ruleset : PlacedRuleset Code) (name : Bytes) (rules : PlacedRules Code) :
    (ruleset.setRules name rules).record =
      InMemory.setRules ruleset.record name rules.record := by
  unfold setRules InMemory.setRules
  split_ifs <;> rfl

theorem value_setRules (ruleset : PlacedRuleset Code) (name : Bytes) (rules : PlacedRules Code) :
    (ruleset.setRules name rules).value = Unalix.setRules ruleset.value name rules.value := by
  unfold setRules Unalix.setRules
  split_ifs <;> rfl

theorem getRules_setRules_of_ne {name other : Bytes} (h : other ≠ name)
    (ruleset : PlacedRuleset Code) (rules : PlacedRules Code) :
    (ruleset.setRules name rules).getRules other = ruleset.getRules other := by
  unfold setRules
  split_ifs with h₁ h₂ h₃ h₄ h₅
  · rw [h₁] at h
    simp only [getRules, if_neg h]
  · rw [h₂] at h
    simp only [getRules, if_neg h]
  · rw [h₃] at h
    simp only [getRules, if_neg h]
  · rw [h₄] at h
    simp only [getRules, if_neg h]
  · rw [h₅] at h
    simp only [getRules, if_neg h]
  · rfl

/-- An array that is set for the first time only adds its blocks. -/
theorem cells_setRules {ruleset : PlacedRuleset Code} {name : Bytes} (hname : name ∈ arrayKeys)
    (h : ruleset.getRules name = none) (rules : PlacedRules Code) :
    (ruleset.setRules name rules).cells = rules.cells + ruleset.cells := by
  unfold getRules at h
  unfold setRules
  split_ifs at h ⊢
  · simp only [cells, arrayCells, h, PlacedRules.cells_none, Multiset.add_cons, zero_add]
  · simp only [cells, arrayCells, h, PlacedRules.cells_none, Multiset.add_cons, zero_add,
      add_left_comm]
  · simp only [cells, arrayCells, h, PlacedRules.cells_none, Multiset.add_cons, zero_add,
      add_left_comm]
  · simp only [cells, arrayCells, h, PlacedRules.cells_none, Multiset.add_cons, zero_add,
      add_left_comm]
  · simp only [cells, arrayCells, h, PlacedRules.cells_none, Multiset.add_cons, zero_add,
      add_left_comm, add_comm]
  · simp_all [arrayKeys]

end PlacedRuleset

/-- A `struct Rulesets` with its array and its rulesets. -/
abbrev PlacedRulesets (Code : Type) := Option (ℕ × List (PlacedRuleset Code))

namespace PlacedRulesets

/-- The rulesets in their order. -/
def list (rulesets : PlacedRulesets Code) : List (PlacedRuleset Code) :=
  rulesets.elim [] Prod.snd

/-- The elements of the array of the store. -/
def elements (items : List (PlacedRuleset Code)) : List (Option Ruleset) :=
  items.map fun ruleset => some ruleset.record

def record (rulesets : PlacedRulesets Code) : Rulesets where
  size := sizeofRuleset * rulesets.list.length
  offset := rulesets.list.length
  items := rulesets.map Prod.fst

def value (rulesets : PlacedRulesets Code) : Unalix.Rulesets Code where
  size := sizeofRuleset * rulesets.list.length
  items := rulesets.list.map PlacedRuleset.value

/-- The blocks of some rulesets. -/
def itemCells (items : List (PlacedRuleset Code)) : Multiset (ℕ × Block Code) :=
  (items.map PlacedRuleset.cells).sum

def cells (rulesets : PlacedRulesets Code) : Multiset (ℕ × Block Code) :=
  rulesets.elim 0 fun rulesets =>
    (rulesets.1, .rulesets (elements rulesets.2)) ::ₘ itemCells rulesets.2

end PlacedRulesets

/-! ## Accesses -/

section Accesses

variable {k : ℕ} {h : Heap (Block Code)} {a : ℕ} {cells : Multiset (ℕ × Block Code)}

theorem readPattern_eq {code : Code} (hh : Holds k h ((a, .pattern code) ::ₘ cells)) :
    readPattern a h = .ok code h := by
  rw [readPattern, run_bind, hh.read]
  rfl

theorem getPattern_eq {w z : List (Option ℕ)} {pattern : ℕ}
    (hh : Holds k h ((a, .patterns (w ++ some pattern :: z)) ::ₘ cells)) :
    getPattern a w.length h = .ok pattern h :=
  Holds.getAt (K := patternArray) hh invalid

theorem exists_setPattern {w z : List (Option ℕ)} {y : Option ℕ}
    (hh : Holds k h ((a, .patterns (w ++ y :: z)) ::ₘ cells)) (pattern : ℕ) :
    ∃ h', setPattern a w.length pattern h = .ok () h' ∧
      Holds k h' ((a, .patterns (w ++ some pattern :: z)) ::ₘ cells) :=
  Holds.setAt (K := patternArray) hh invalid pattern

theorem getRuleset_eq {w z : List (Option Ruleset)} {ruleset : Ruleset}
    (hh : Holds k h ((a, .rulesets (w ++ some ruleset :: z)) ::ₘ cells)) :
    getRuleset a w.length h = .ok ruleset h :=
  Holds.getAt (K := rulesetArray) hh invalid

theorem exists_setRuleset {w z : List (Option Ruleset)} {y : Option Ruleset}
    (hh : Holds k h ((a, .rulesets (w ++ y :: z)) ::ₘ cells)) (ruleset : Ruleset) :
    ∃ h', setRuleset a w.length ruleset h = .ok () h' ∧
      Holds k h' ((a, .rulesets (w ++ some ruleset :: z)) ::ₘ cells) :=
  Holds.setAt (K := rulesetArray) hh invalid ruleset

end Accesses

/-! ## What an ill-formed provider leaves behind -/

section Load

variable (compile : Bytes → Option Code)

/-- How many items of an array are compiled before the first one that is not. -/
def compiledItems (name : Bytes) : List Json → ℕ
  | .string src :: items =>
    if (compile (itemPattern name src)).isSome then compiledItems name items + 1 else 0
  | _ => 0

/-- How many blocks are allocated for one of the array keys. -/
def arrayBlocks (value : Json) (name : Bytes) : ℕ :=
  match jsonObjectGet value name with
  | some (.array []) => 0
  | some (.array items) => compiledItems compile name items + 1
  | _ => 0

/-- How many blocks are allocated for the array keys, up to the first one that is not loaded. -/
def arraysBlocks (value : Json) : List Bytes → ℕ
  | [] => 0
  | name :: names =>
    arrayBlocks compile value name +
      match Unalix.loadArray compile value name with
      | .ok _ => arraysBlocks value names
      | .error _ => 0

/-- How many blocks an ill-formed provider has allocated when it ends the loop. -/
def lostBlocks (value : Json) : ℕ :=
  match readCompleteProvider value, Unalix.loadUrlPattern compile value with
  | .ok _, .ok _ => arraysBlocks compile value arrayKeys + 1
  | _, _ => 0

/-- The pattern, the array and its first item are lost at the second item. -/
example : lostBlocks some (.object [(urlPatternKey, .string (str "a")),
    (rulesKey, .array [.string (str "b"), .boolean true])]) = 3 := rfl

/-- How many blocks are lost when the providers are loaded. -/
def lostProviders : List (Bytes × Json) → ℕ
  | [] => 0
  | (key, value) :: providers =>
    match Unalix.loadProvider compile key value with
    | .ok _ => lostProviders providers
    | .error _ => lostBlocks compile value

/-- The keys that are compared when the providers are loaded, the last one being that of the
provider that ends the loop. -/
def comparedKeys : List (Bytes × Json) → List Bytes
  | [] => []
  | (key, value) :: providers =>
    key :: match Unalix.loadProvider compile key value with
      | .ok _ => comparedKeys providers
      | .error _ => []

/-- How many bytes are read behind some keys. -/
def overreads (keys : List Bytes) : ℕ := (keys.map overread).sum

@[simp] theorem overreads_nil : overreads [] = 0 := rfl

@[simp] theorem overreads_cons (key : Bytes) (keys : List Bytes) :
    overreads (key :: keys) = overread key + overreads keys := by
  simp [overreads]

@[simp] theorem overreads_append (keys keys' : List Bytes) :
    overreads (keys ++ keys') = overreads keys + overreads keys' := by
  simp [overreads]

/-- Nothing is read behind keys that are not short. -/
theorem overreads_eq_zero_iff (keys : List Bytes) :
    overreads keys = 0 ↔ ∀ key ∈ keys, 12 ≤ key.length := by
  have hlength : prefixProviderIgnore.length = 13 := by decide
  rw [overreads, List.sum_eq_zero_iff, List.forall_mem_map]
  refine forall₂_congr fun key _ => ?_
  rw [overread, hlength]
  omega

/-- Besides the blocks of `rest` there are `n` blocks. -/
def Loses (k : ℕ) (rest : Multiset (ℕ × Block Code)) (n : ℕ) (h : Heap (Block Code)) : Prop :=
  ∃ lost, Multiset.card lost = n ∧ Holds k h (lost + rest)

variable {compile} {k : ℕ} {rest : Multiset (ℕ × Block Code)}

theorem loses_zero {h : Heap (Block Code)} : Loses k rest 0 h ↔ Holds k h rest := by
  simp [Loses]

/-! ## Loading a provider -/

theorem regexCompile_simulates (src : Bytes) :
    Simulates (fun h => Holds k h rest) (regexCompile compile src) (Unalix.regexCompile compile src)
      (fun code a h => Holds k h ((a, .pattern code) ::ₘ rest)) (fun _ h => Holds k h rest) := by
  rw [regexCompile, Unalix.regexCompile]
  cases compile src with
  | none => exact Simulates.throw fun h hh => hh
  | some code => exact fun h hh => hh.alloc (.pattern code)

theorem compiledItems_of_ok {name src : Bytes} {code : Code}
    (h : Unalix.regexCompile compile (itemPattern name src) = .ok code) (items : List Json) :
    compiledItems compile name (.string src :: items) = compiledItems compile name items + 1 := by
  rw [compiledItems, if_pos ((succeeds_regexCompile_iff _).1 ⟨code, h⟩)]

theorem compiledItems_of_error {name src : Bytes} {e : Failure}
    (h : Unalix.regexCompile compile (itemPattern name src) = .error e) (items : List Json) :
    compiledItems compile name (.string src :: items) = 0 := by
  rw [compiledItems, if_neg]
  intro hsome
  obtain ⟨code, hcode⟩ := (succeeds_regexCompile_iff _).2 hsome
  rw [h] at hcode
  cases hcode

theorem Loses.absorb {cells : Multiset (ℕ × Block Code)} {n : ℕ} {h : Heap (Block Code)}
    (hh : Loses k (cells + rest) n h) : Loses k rest (cells.card + n) h := by
  obtain ⟨lost, rfl, hh⟩ := hh
  refine ⟨cells + lost, Multiset.card_add cells lost, ?_⟩
  rwa [add_comm cells, add_assoc]

/-- An array with the patterns `done`, and room for `count` others. -/
def Filling (k array : ℕ) (done : List (ℕ × Code)) (count : ℕ)
    (rest : Multiset (ℕ × Block Code)) (h : Heap (Block Code)) : Prop :=
  Holds k h ((array, .patterns (pointers done ++ List.replicate count none)) ::ₘ
    (patternCells done + rest))

theorem Filling.loses {array count : ℕ} {done : List (ℕ × Code)} {h : Heap (Block Code)}
    (hh : Filling k array done count rest h) : Loses k rest (done.length + 1) h := by
  refine ⟨_ ::ₘ patternCells done, ?_, by rwa [Multiset.cons_add]⟩
  rw [Multiset.card_cons, card_patternCells]

/-- The next element of the array is assigned. -/
theorem exists_setPattern_filling {array count dst : ℕ} {done : List (ℕ × Code)} {code : Code}
    {h : Heap (Block Code)}
    (hh : Filling k array done (count + 1) ((dst, .pattern code) ::ₘ rest) h) :
    ∃ u h', setPattern array done.length dst h = .ok u h' ∧
      Filling k array (done ++ [(dst, code)]) count rest h' := by
  obtain ⟨h', hset, hh'⟩ := exists_setPattern hh dst
  rw [length_pointers] at hset
  refine ⟨(), h', hset, ?_⟩
  rw [Filling, pointers_append, List.append_assoc, patternCells_append, add_assoc,
    patternCells_cons, Multiset.cons_add, patternCells_nil, zero_add]
  exact hh'

/-- The loop over the items of an array, when those of `done` are behind it. -/
theorem loadItems_simulates (name : Bytes) (array : ℕ) (items : List Json)
    (done : List (ℕ × Code)) :
    Simulates (Filling k array done items.length rest)
      (loadItems compile name array done.length items) (Unalix.loadItems compile name items)
      (fun codes _ h => ∃ patterns, patterns.map Prod.snd = codes ∧
        patterns.length = items.length ∧ Filling k array (done ++ patterns) 0 rest h)
      (fun _ => Loses k rest (done.length + compiledItems compile name items + 1)) := by
  induction items generalizing done with
  | nil =>
    refine Simulates.pure fun h hh => ⟨[], rfl, rfl, ?_⟩
    rwa [List.append_nil]
  | cons item items ih =>
    cases item with
    | string src =>
      rw [loadItems, Unalix.loadItems]
      refine Simulates.bind ((regexCompile_simulates _).weaken (fun _ hh => hh)
        (fun _ _ _ _ hh => hh) fun e h hcode hh => ?_) fun code dst hcode => ?_
      · rw [compiledItems_of_error hcode]
        exact Filling.loses hh
      · have hstep (h : Heap (Block Code)) (hh : Holds k h ((dst, .pattern code) ::ₘ
            ((array, .patterns (pointers done ++ List.replicate (items.length + 1) none)) ::ₘ
              (patternCells done + rest)))) := exists_setPattern_filling
          (show Filling k array done (items.length + 1) ((dst, .pattern code) ::ₘ rest) h by
            rwa [Filling, Multiset.add_cons, Multiset.cons_swap])
        have hrest := ih (done ++ [(dst, code)])
        rw [List.length_append, List.length_singleton] at hrest
        rw [compiledItems_of_ok hcode]
        refine Simulates.step hstep fun _ => (Simulates.weaken hrest (fun _ hh => hh)
          (fun _ _ _ _ hh => hh) fun e h _ hh => ?_).map ?_
        · rwa [Nat.add_right_comm done.length 1] at hh
        · rintro codes _ h - ⟨patterns, hcodes, hlength, hh⟩
          refine ⟨(dst, code) :: patterns, ?_, ?_, ?_⟩
          · rw [List.map_cons, hcodes]
          · rw [List.length_cons, List.length_cons, hlength]
          · rwa [List.append_cons]
    | _ => exact Simulates.throw fun h => Filling.loses

theorem compiledItems_eq_length {name : Bytes} {items : List Json} {codes : List Code}
    (h : Unalix.loadItems compile name items = .ok codes) :
    compiledItems compile name items = items.length := by
  induction items generalizing codes with
  | nil => rfl
  | cons item items ih =>
    cases item with
    | string src =>
      rw [Unalix.loadItems, Outcome.bind_eq_ok] at h
      obtain ⟨code, hcode, h⟩ := h
      rw [Outcome.bind_eq_ok] at h
      obtain ⟨codes, hcodes, -⟩ := h
      rw [compiledItems_of_ok hcode, ih hcodes, List.length_cons]
    | _ => exact absurd h (Outcome.fail_ne_ok _ _)

/-- One of the array keys. -/
theorem loadArray_simulates (value : Json) (name : Bytes) :
    Simulates (fun h => Holds k h rest) (loadArray compile value name)
      (Unalix.loadArray compile value name)
      (fun codes rules h => ∃ placed : Option (PlacedRules Code),
        placed.map PlacedRules.record = rules ∧ placed.map PlacedRules.value = codes ∧
          (placed.elim 0 PlacedRules.cells).card = arrayBlocks compile value name ∧
          Holds k h (placed.elim 0 PlacedRules.cells + rest))
      (fun _ => Loses k rest (arrayBlocks compile value name)) := by
  unfold loadArray Unalix.loadArray arrayBlocks
  have habsent (h : Heap (Block Code)) (hh : Holds k h rest) :
      ∃ placed : Option (PlacedRules Code),
        placed.map PlacedRules.record = none ∧ placed.map PlacedRules.value = none ∧
          (placed.elim 0 PlacedRules.cells).card = 0 ∧
          Holds k h (placed.elim 0 PlacedRules.cells + rest) :=
    ⟨none, rfl, rfl, rfl, by rwa [Option.elim_none, zero_add]⟩
  rcases jsonObjectGet value name with _ | json
  · exact Simulates.pure habsent
  · cases json with
    | null => exact Simulates.pure habsent
    | array items =>
      cases items with
      | nil => exact Simulates.pure habsent
      | cons item items =>
        have hroom (h : Heap (Block Code)) (hh : Holds k h rest) :
            ∃ array h', (alloc (.patterns (List.replicate (item :: items).length none)) :
                HeapCall Code ℕ) h = .ok array h' ∧
              Filling k array [] (item :: items).length rest h' := by
          obtain ⟨array, h', halloc, hh'⟩ := hh.alloc
            (.patterns (List.replicate (item :: items).length none))
          refine ⟨array, h', halloc, ?_⟩
          rwa [Filling, patternCells_nil, zero_add]
        simp only
        rw [← bind_pure_comp]
        refine Simulates.step hroom fun array => ?_
        refine Simulates.bind ((loadItems_simulates name array (item :: items) []).weaken
          (fun _ hh => hh) (fun _ _ _ _ hh => hh) fun e h _ hh => ?_) fun codes _ hcodes => ?_
        · rwa [List.length_nil, Nat.zero_add] at hh
        · refine Simulates.pure ?_
          rintro h ⟨patterns, rfl, hlength, hh⟩
          refine ⟨some (some (array, patterns)), ?_, rfl, ?_, ?_⟩
          · rw [Option.map_some, PlacedRules.record, Option.elim_some, hlength]
          · rw [compiledItems_eq_length hcodes, ← hlength, Option.elim_some, PlacedRules.cells,
              Option.elim_some, Multiset.card_cons, card_patternCells]
          · rwa [Filling, List.nil_append, List.replicate_zero, List.append_nil,
              ← Multiset.cons_add] at hh
    | _ => exact Simulates.throw fun h => loses_zero.2

/-- The loop over the array keys, when the array of none of them is set. -/
theorem loadArrays_simulates (value : Json) (names : List Bytes) (hnodup : names.Nodup)
    (hnames : ∀ name ∈ names, name ∈ arrayKeys) (ruleset : PlacedRuleset Code)
    (hunset : ∀ name ∈ names, ruleset.getRules name = none) :
    Simulates (fun h => Holds k h (ruleset.cells + rest))
      (loadArrays compile value names ruleset.record)
      (Unalix.loadArrays compile value names ruleset.value)
      (fun codes record h => ∃ placed : PlacedRuleset Code, placed.record = record ∧
        placed.value = codes ∧ Holds k h (placed.cells + rest))
      (fun _ => Loses k rest (ruleset.cells.card + arraysBlocks compile value names)) := by
  induction names generalizing ruleset with
  | nil => exact Simulates.pure fun h hh => ⟨ruleset, rfl, rfl, hh⟩
  | cons name names ih =>
    rw [List.nodup_cons] at hnodup
    rw [List.forall_mem_cons] at hnames hunset
    rw [loadArrays, Unalix.loadArrays, arraysBlocks]
    refine Simulates.bind ((loadArray_simulates value name).weaken (fun _ hh => hh)
      (fun _ _ _ _ hh => hh) fun e h he hh => ?_) fun codes rules hcodes => ?_
    · rw [he, Nat.add_zero]
      exact hh.absorb
    · rintro h ⟨placed, rfl, hvalue, hcard, hh⟩
      rw [hcodes, ← hvalue, ← hcard]
      cases placed with
      | none =>
        rw [Option.elim_none, zero_add] at hh
        simp only [Option.map_none, Option.elim_none, Multiset.card_zero, Nat.zero_add]
        exact ih hnodup.2 hnames.2 ruleset hunset.2 h hh
      | some rules =>
        have hother (other : Bytes) (hmem : other ∈ names) :
            (ruleset.setRules name rules).getRules other = none := by
          have hne : other ≠ name := ne_of_mem_of_not_mem hmem hnodup.1
          rw [PlacedRuleset.getRules_setRules_of_ne hne]
          exact hunset.2 other hmem
        have hrest := ih hnodup.2 hnames.2 (ruleset.setRules name rules) hother h
        rw [PlacedRuleset.cells_setRules hnames.1 hunset.1, PlacedRuleset.record_setRules,
          PlacedRuleset.value_setRules, Multiset.card_add, Nat.add_comm rules.cells.card,
          Nat.add_assoc] at hrest
        simp only [Option.map_some, Option.elim_some] at hh ⊢
        apply hrest
        rwa [add_assoc]

theorem ofOutcome_simulates {α : Type} (r : Outcome α) :
    Simulates (fun h => Holds k h rest) (ofOutcome r) r (fun v a h => a = v ∧ Holds k h rest)
      (fun _ h => Holds k h rest) := by
  cases r with
  | ok a => exact fun h hh => ⟨a, h, rfl, rfl, hh⟩
  | error e => exact fun h hh => ⟨h, rfl, hh⟩

/-- `urlPattern`. -/
theorem loadUrlPattern_simulates (value : Json) :
    Simulates (fun h => Holds k h rest) (loadUrlPattern compile value)
      (Unalix.loadUrlPattern compile value)
      (fun code a h => Holds k h ((a, .pattern code) ::ₘ rest)) (fun _ h => Holds k h rest) := by
  rw [loadUrlPattern, Unalix.loadUrlPattern]
  rcases jsonObjectGet value urlPatternKey with _ | json
  · exact Simulates.throw fun h hh => hh
  · cases json with
    | string src => exact regexCompile_simulates src
    | _ => exact Simulates.throw fun h hh => hh

/-- Whether a provider is ignored is found out by reading behind its key, if it is short. -/
theorem exists_ignoreProvider (key : Bytes) (h : Heap (Block Code)) (hh : Holds k h rest) :
    ∃ ignored h', ignoreProvider key h = .ok ignored h' ∧
      ignored = decide (prefixProviderIgnore <+: key) ∧ Holds (k + overread key) h' rest := by
  obtain ⟨h', hbeyond, hh'⟩ := hh.beyond (ε := Failure) (overread key)
  exact ⟨_, h', run_bind_of_ok hbeyond _, memcmpIgnore_eq key [], hh'⟩

/-- **One provider**: a ruleset with all its blocks, or what is lost. -/
theorem loadProvider_simulates (key : Bytes) (value : Json) :
    Simulates (fun h => Holds k h rest) (loadProvider compile key value)
      (Unalix.loadProvider compile key value)
      (fun ruleset record h => ∃ placed : Option (PlacedRuleset Code),
        placed.map PlacedRuleset.record = record ∧ placed.map PlacedRuleset.value = ruleset ∧
          Holds (k + overread key) h (placed.elim 0 PlacedRuleset.cells + rest))
      (fun _ => Loses (k + overread key) rest (lostBlocks compile value)) := by
  have hskipped (h : Heap (Block Code)) (hh : Holds (k + overread key) h rest) :
      ∃ placed : Option (PlacedRuleset Code),
        placed.map PlacedRuleset.record = none ∧ placed.map PlacedRuleset.value = none ∧
          Holds (k + overread key) h (placed.elim 0 PlacedRuleset.cells + rest) :=
    ⟨none, rfl, rfl, by rwa [Option.elim_none, zero_add]⟩
  unfold loadProvider Unalix.loadProvider
  refine Simulates.step (exists_ignoreProvider key) fun ignored => Simulates.assume ?_
  rintro rfl
  by_cases hkey : prefixProviderIgnore <+: key
  · simp only [decide_eq_true hkey, if_pos hkey, if_true]
    exact Simulates.pure hskipped
  · simp only [decide_eq_false hkey, if_neg hkey, Bool.false_eq_true, if_false]
    cases value with
    | object members =>
      refine Simulates.bind ((ofOutcome_simulates _).weaken (fun _ hh => hh)
        (fun _ _ _ _ hh => hh) fun e h he hh => ?_) fun _ complete hcomplete => ?_
      · rw [lostBlocks, he]
        exact loses_zero.2 hh
      refine Simulates.assume ?_
      rintro rfl
      cases complete with
      | true => exact Simulates.pure hskipped
      | false =>
        simp only [Bool.false_eq_true, if_false]
        refine Simulates.bind ((loadUrlPattern_simulates _).weaken (fun _ hh => hh)
          (fun _ _ _ _ hh => hh) fun e h he hh => ?_) fun code a hcode => ?_
        · rw [lostBlocks, hcomplete, he]
          exact loses_zero.2 hh
        · have harrays := @loadArrays_simulates Code compile (k + overread key) rest (.object members) arrayKeys
            (by decide) (fun _ h => h) { urlPattern := (a, code) }
            fun name _ => PlacedRuleset.getRules_new (a, code) name
          rw [PlacedRuleset.cells_new] at harrays
          refine Simulates.bind (harrays.weaken (fun h hh => ?_) (fun _ _ _ _ hh => hh)
            fun e h _ hh => ?_) fun ruleset record _ => Simulates.pure ?_
          · rwa [Multiset.cons_add, zero_add]
          · rw [lostBlocks, hcomplete, hcode]
            rwa [Multiset.card_cons, Multiset.card_zero, Nat.zero_add, Nat.add_comm 1] at hh
          · rintro h ⟨placed, rfl, rfl, hh⟩
            exact ⟨some placed, rfl, rfl, hh⟩
    | _ => exact Simulates.throw fun h hh => loses_zero.2 hh

end Load

end Unalix.InMemory
