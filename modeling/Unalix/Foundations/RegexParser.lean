import Unalix.Foundations.Ascii
import Unalix.Foundations.Regex

/-!
# The syntax of patterns

A parser of Perl-compatible patterns that goes over the pattern byte by byte: literal characters,
also behind a backslash, groups, alternation, the repetitions `*`, `+`, `?` and `{n,m}`, the anchor
`^` and negated classes. A pattern that PCRE2 refuses, or that uses something else, is not
compiled. There are no limits on the size of a pattern and the depth of its groups.

The state of the parser holds the branches of each group that is open (`State.inner`) and of the
pattern as a whole (`State.base`), and the last item, which a repetition may follow.
-/

namespace Unalix.Regex

open Ascii

/-- The roles of a character in a pattern. -/
inductive Sign
  | backslash
  | caret
  | bracket
  | opening
  | closing
  | bar
  | star
  | plus
  | question
  | brace
  /-- `$` and `.`, which are not covered. -/
  | other
  | literal
  deriving DecidableEq, Repr

/-- The metacharacters outside a class. -/
def sign (c : UInt8) : Sign :=
  if c = '\\'.toUInt8 then .backslash
  else if c = '^'.toUInt8 then .caret
  else if c = '['.toUInt8 then .bracket
  else if c = '('.toUInt8 then .opening
  else if c = ')'.toUInt8 then .closing
  else if c = '|'.toUInt8 then .bar
  else if c = '*'.toUInt8 then .star
  else if c = '+'.toUInt8 then .plus
  else if c = '?'.toUInt8 then .question
  else if c = '\x7b'.toUInt8 then .brace
  else if c = '$'.toUInt8 ∨ c = '.'.toUInt8 then .other
  else .literal

theorem eq_of_sign_brace {c : UInt8} (h : sign c = .brace) : c = '\x7b'.toUInt8 :=
  forall_byte (p := fun c => sign c = .brace → c = '\x7b'.toUInt8) (by decide +kernel) c h

/-! ## The state of the parser -/

/-- Branches of a group, of which the last one comes first, as does the last item of each. -/
abbrev Branches := List (List (Expr UInt8))

/-- The last item of the current branch. -/
inductive Last
  /-- Nothing that can be repeated. -/
  | nothing
  /-- An item that has not been added to the branch yet. -/
  | item (e : Expr UInt8)
  /-- A repetition, which a `?` may follow. -/
  | repetition
  deriving DecidableEq, Repr

/-- Where in an item the parser is. -/
inductive Mode
  | plain
  /-- Behind a backslash. -/
  | escape
  /-- Behind the parenthesis that opens a group. -/
  | opened
  /-- Behind the `(?` that opens a group. -/
  | option
  /-- Behind the bracket that opens a class. -/
  | classOpened
  | inClass (cs : List UInt8)
  /-- Behind a brace, which opens a repetition unless what follows is not of that form. -/
  | braces (counts : Bytes)
  deriving DecidableEq, Repr

/-- The state of the parser. -/
structure State where
  inner : List Branches := []
  base : Branches := [[]]
  last : Last := .nothing
  mode : Mode := .plain
  deriving DecidableEq, Repr

/-- An item is added to the current branch. -/
def push (e : Expr UInt8) : Branches → Branches
  | [] => []
  | items :: branches => (e :: items) :: branches

namespace State

/-- The branches of the innermost group change. -/
def modify (f : Branches → Branches) (st : State) : State :=
  match st.inner with
  | [] => { st with base := f st.base }
  | group :: inner => { st with inner := f group :: inner }

/-- The last item can no longer be repeated. -/
def settle (st : State) : State :=
  match st.last with
  | .item e => { st.modify (push e) with last := .nothing }
  | _ => { st with last := .nothing }

def openGroup (st : State) : State := { st.settle with inner := [[]] :: st.settle.inner }

/-- The group is an item of the branch around it. -/
def closeGroup (st : State) : Option State :=
  match st.inner with
  | [] => none
  | group :: inner => some { st with inner := inner, last := .item (alts group) }

/-- The last item is repeated. -/
def quantify (least : ℕ) (most : Option ℕ) (st : State) : Option State :=
  match st.last with
  | .item e => some { st.modify (push (.rep least most e)) with last := .repetition }
  | _ => none

def literal (c : UInt8) (st : State) : State := { st.settle with last := .item (.char c) }

end State

/-! ## Repetitions in braces -/

/-- What stands between two braces. -/
inductive Counts
  | notCounts
  | invalid
  | counts (least : ℕ) (most : Option ℕ)
  deriving DecidableEq, Repr

/-- `MAX_REPEAT_COUNT`. -/
def maxRepeatCount : ℕ := 65535

/-- The text between the braces consists of digits and at most one comma. -/
def readCounts (text : Bytes) : Counts :=
  let first := text.takeWhile isdigit
  let least := digitsValue first
  if first = [] then .notCounts
  else if maxRepeatCount < least then .invalid
  else match text.dropWhile isdigit with
    | [] => .counts least (some least)
    | [_] => .counts least none
    | _ :: second =>
      let most := digitsValue second
      if maxRepeatCount < most then .invalid
      else if most < least then .invalid
      else .counts least (some most)

theorem least_le_most {text : Bytes} {least : ℕ} {most : Option ℕ}
    (h : readCounts text = .counts least most) : ∀ m ∈ most, least ≤ m := by
  unfold readCounts at h
  simp only at h
  split at h
  · cases h
  · split at h
    · cases h
    · split at h
      · cases h
        simp
      · cases h
        simp
      · split at h
        · cases h
        · split at h
          · cases h
          · cases h
            rename_i hle
            simpa using hle

/-! ## One byte -/

/-- The brace and what was read behind it are literal characters. -/
def State.unbrace (counts : Bytes) (st : State) : State :=
  counts.foldl (fun st c => st.literal c) { st.literal '\x7b'.toUInt8 with mode := .plain }

/-- What literal characters keep, holds when they have been read. -/
theorem State.unbrace_induct {P : State → Prop} {counts : Bytes} {st : State}
    (hbrace : P { st.literal '\x7b'.toUInt8 with mode := .plain })
    (hliteral : ∀ next c, c ∈ counts → P next → P (next.literal c)) : P (st.unbrace counts) :=
  List.foldlRecOn (motive := P) counts _ hbrace fun next hnext c hc => hliteral next c hc hnext

/-- A byte between items. -/
def plainStep (st : State) (c : UInt8) : Option State :=
  match sign c with
  | .backslash => some { st with mode := .escape }
  | .caret => some (st.settle.modify (push .start))
  | .bracket => some { st with mode := .classOpened }
  | .opening => some { st with mode := .opened }
  | .closing => st.settle.closeGroup
  | .bar => some (st.settle.modify ([] :: ·))
  | .star => st.quantify 0 none
  | .plus => st.quantify 1 none
  | .question =>
    if st.last = .repetition then some { st with last := .nothing } else st.quantify 0 (some 1)
  | .brace => some { st with mode := .braces [] }
  | .other => none
  | .literal => some (st.literal c)

/-- The parser reads a byte. -/
def step (st : State) (c : UInt8) : Option State :=
  match st.mode with
  | .plain => plainStep st c
  | .escape => if isalnum c then none else some { st.literal c with mode := .plain }
  | .opened =>
    if c = '?'.toUInt8 then some { st with mode := .option }
    else plainStep { st.openGroup with mode := .plain } c
  | .option => if c = ':'.toUInt8 then some { st.openGroup with mode := .plain } else none
  | .classOpened => if c = '^'.toUInt8 then some { st with mode := .inClass [] } else none
  | .inClass cs =>
    if c = ']'.toUInt8 then
      if cs = [] then none else some { st.settle with last := .item (.noneOf cs), mode := .plain }
    else if c = '\\'.toUInt8 ∨ c = '['.toUInt8 ∨ c = '-'.toUInt8 then none
    else some { st with mode := .inClass (c :: cs) }
  | .braces counts =>
    if isdigit c ∨ c = ','.toUInt8 ∧ c ∉ counts then
      some { st with mode := .braces (counts ++ [c]) }
    else if c = '\x7d'.toUInt8 then
      match readCounts counts with
      | .notCounts => plainStep (st.unbrace counts) c
      | .invalid => none
      | .counts least most => ({ st with mode := .plain } : State).quantify least most
    else plainStep (st.unbrace counts) c

/-! ## A pattern -/

/-- The parser reads some bytes. -/
def run (st : State) (src : Bytes) : Option State := src.foldlM step st

/-- At the end no group and no class is open. -/
def State.finish (st : State) : Option State :=
  match st.inner, st.mode with
  | [], .plain => some st.settle
  | [], .braces counts => some (st.unbrace counts).settle
  | _, _ => none

/-- The branches of a pattern. -/
def parse (src : Bytes) : Option Branches := do
  let st ← run {} src
  let st ← st.finish
  return st.base

/-- The expression that a pattern stands for. -/
def compile (src : Bytes) : Option (Expr UInt8) := (parse src).map alts

/-- An alternative of a literal text and a group that is repeated. -/
example : parse (str "a\x7b2|(?:b|c)*?") =
    some [[.rep 0 none (.alt (seqs [.char 98]) (seqs [.char 99]))],
      [.char 50, .char 123, .char 97]] := by
  decide

theorem run_append (st : State) (a b : Bytes) :
    run st (a ++ b) = (run st a).bind fun st => run st b := List.foldlM_append

theorem run_cons_eq_some {st t : State} {c : UInt8} {src : Bytes} :
    run st (c :: src) = some t ↔ ∃ next, step st c = some next ∧ run next src = some t :=
  Option.bind_eq_some_iff

theorem parse_eq_some {src : Bytes} {branches : Branches} : parse src = some branches ↔
    ∃ st t, run {} src = some st ∧ st.finish = some t ∧ t.base = branches := by
  simp [parse, Option.bind_eq_some_iff]

/-! ## What is written in a pattern -/

section Written

variable {x c : UInt8} {st t : State} {branches : Branches}

/-- The letter is written in none of the branches. -/
def NotIn (x : UInt8) (branches : Branches) : Prop :=
  ∀ items ∈ branches, ∀ e ∈ items, e.Written x

theorem written_seqs {items : List (Expr UInt8)} (h : ∀ e ∈ items, e.Written x) :
    (seqs items).Written x := by
  induction items with
  | nil => exact trivial
  | cons e items ih =>
    rw [List.forall_mem_cons] at h
    exact ⟨ih h.2, h.1⟩

theorem NotIn.alts (h : NotIn x branches) : (alts branches).Written x := by
  induction branches with
  | nil => exact trivial
  | cons items branches ih =>
    have hitems := written_seqs (h items List.mem_cons_self)
    cases branches with
    | nil => exact hitems
    | cons items' branches =>
      exact ⟨ih fun items hmem => h items (List.mem_cons_of_mem _ hmem), hitems⟩

theorem NotIn.push {e : Expr UInt8} (h : NotIn x branches) (he : e.Written x) :
    NotIn x (push e branches) := by
  cases branches with
  | nil => exact h
  | cons items branches =>
    unfold NotIn at *
    simp only [Regex.push, List.forall_mem_cons] at *
    exact ⟨⟨he, h.1⟩, h.2⟩

/-- The letter is nowhere in what the parser has read. -/
structure State.NotIn (x : UInt8) (st : State) : Prop where
  inner : ∀ group ∈ st.inner, Regex.NotIn x group
  base : Regex.NotIn x st.base
  last : ∀ e, st.last = .item e → e.Written x
  mode : ∀ counts, st.mode = .braces counts → '\x7b'.toUInt8 ≠ x ∧ x ∉ counts

namespace State.NotIn

theorem setMode (h : st.NotIn x) {mode : Mode} (hmode : ∀ counts, mode ≠ .braces counts) :
    ({ st with mode := mode } : State).NotIn x :=
  ⟨h.inner, h.base, h.last, fun counts heq => absurd heq (hmode counts)⟩

theorem setPlain (h : st.NotIn x) : ({ st with mode := .plain } : State).NotIn x :=
  h.setMode nofun

theorem setLast (h : st.NotIn x) {e : Expr UInt8} (he : e.Written x) :
    ({ st with last := .item e } : State).NotIn x := by
  refine ⟨h.inner, h.base, ?_, h.mode⟩
  rintro e' heq
  cases heq
  exact he

theorem modify (h : st.NotIn x) {f : Branches → Branches}
    (hf : ∀ branches, Regex.NotIn x branches → Regex.NotIn x (f branches)) :
    (st.modify f).NotIn x := by
  unfold State.modify
  split
  · exact ⟨h.inner, hf _ h.base, h.last, h.mode⟩
  · rename_i group inner hinner
    have hall := h.inner
    rw [hinner, List.forall_mem_cons] at hall
    exact ⟨List.forall_mem_cons.2 ⟨hf _ hall.1, hall.2⟩, h.base, h.last, h.mode⟩

theorem settle (h : st.NotIn x) : st.settle.NotIn x := by
  unfold State.settle
  split
  · rename_i e hlast
    have hpush := h.modify fun _ hbranches => hbranches.push (h.last e hlast)
    exact ⟨hpush.inner, hpush.base, nofun, hpush.mode⟩
  · exact ⟨h.inner, h.base, nofun, h.mode⟩

theorem literal (h : st.NotIn x) (hc : c ≠ x) : (st.literal c).NotIn x := h.settle.setLast hc

theorem openGroup (h : st.NotIn x) : st.openGroup.NotIn x := by
  have hsettle := h.settle
  refine ⟨List.forall_mem_cons.2 ⟨?_, hsettle.inner⟩, hsettle.base, hsettle.last, hsettle.mode⟩
  intro items hitems
  rw [List.mem_singleton.1 hitems]
  exact nofun

theorem closeGroup (h : st.NotIn x) (hclose : st.closeGroup = some t) : t.NotIn x := by
  unfold State.closeGroup at hclose
  split at hclose
  · cases hclose
  · rename_i group inner hinner
    cases hclose
    have hall := h.inner
    rw [hinner, List.forall_mem_cons] at hall
    refine ⟨hall.2, h.base, ?_, h.mode⟩
    rintro e heq
    cases heq
    exact hall.1.alts

theorem quantify (h : st.NotIn x) {least : ℕ} {most : Option ℕ} (hmost : ∀ m ∈ most, least ≤ m)
    (hquantify : st.quantify least most = some t) : t.NotIn x := by
  unfold State.quantify at hquantify
  split at hquantify
  · rename_i e hlast
    cases hquantify
    have hpush := h.modify fun _ hbranches =>
      hbranches.push (e := .rep least most e) ⟨hmost, h.last e hlast⟩
    exact ⟨hpush.inner, hpush.base, nofun, hpush.mode⟩
  · cases hquantify

theorem unbrace (h : st.NotIn x) {counts : Bytes} (hmode : st.mode = .braces counts) :
    (st.unbrace counts).NotIn x := by
  obtain ⟨hbrace, hcounts⟩ := h.mode counts hmode
  refine State.unbrace_induct (h.literal hbrace).setPlain ?_
  intro next c hc hnext
  exact hnext.literal (ne_of_mem_of_not_mem hc hcounts)

/-- A byte other than the letter adds nothing with it. -/
theorem plainStep (h : st.NotIn x) (hc : c ≠ x) (hstep : plainStep st c = some t) : t.NotIn x := by
  unfold Regex.plainStep at hstep
  split at hstep
  · cases hstep
    exact h.setMode nofun
  · cases hstep
    exact h.settle.modify fun _ hbranches => hbranches.push trivial
  · cases hstep
    exact h.setMode nofun
  · cases hstep
    exact h.setMode nofun
  · exact h.settle.closeGroup hstep
  · cases hstep
    exact h.settle.modify fun _ hbranches => List.forall_mem_cons.2 ⟨nofun, hbranches⟩
  · exact h.quantify (by simp) hstep
  · exact h.quantify (by simp) hstep
  · split at hstep
    · cases hstep
      exact ⟨h.inner, h.base, nofun, h.mode⟩
    · exact h.quantify (by simp) hstep
  · rename_i hsign
    cases hstep
    refine ⟨h.inner, h.base, h.last, ?_⟩
    rintro counts heq
    cases heq
    exact ⟨eq_of_sign_brace hsign ▸ hc, List.not_mem_nil⟩
  · cases hstep
  · cases hstep
    exact h.literal hc

theorem step (h : st.NotIn x) (hc : c ≠ x) (hstep : step st c = some t) : t.NotIn x := by
  unfold Regex.step at hstep
  split at hstep
  · exact h.plainStep hc hstep
  · split at hstep
    · cases hstep
    · cases hstep
      exact (h.literal hc).setPlain
  · split at hstep
    · cases hstep
      exact h.setMode nofun
    · exact h.openGroup.setPlain.plainStep hc hstep
  · split at hstep
    · cases hstep
      exact h.openGroup.setPlain
    · cases hstep
  · split at hstep
    · cases hstep
      exact h.setMode nofun
    · cases hstep
  · rename_i cs hmode
    split at hstep
    · split at hstep
      · cases hstep
      · cases hstep
        exact (h.settle.setLast (e := .noneOf cs) trivial).setPlain
    · split at hstep
      · cases hstep
      · cases hstep
        exact h.setMode nofun
  · rename_i counts hmode
    split at hstep
    · cases hstep
      obtain ⟨hbrace, hcounts⟩ := h.mode counts hmode
      refine ⟨h.inner, h.base, h.last, ?_⟩
      rintro counts' heq
      cases heq
      exact ⟨hbrace, by simp [hcounts, Ne.symm hc]⟩
    · split at hstep
      · split at hstep
        · exact (h.unbrace hmode).plainStep hc hstep
        · cases hstep
        · rename_i least most hcounts
          exact h.setPlain.quantify (least_le_most hcounts) hstep
      · exact (h.unbrace hmode).plainStep hc hstep

theorem run (h : st.NotIn x) {src : Bytes} (hsrc : x ∉ src) (hrun : run st src = some t) :
    t.NotIn x := by
  induction src generalizing st with
  | nil =>
    cases hrun
    exact h
  | cons c src ih =>
    rw [List.mem_cons, not_or] at hsrc
    obtain ⟨next, hstep, hrun⟩ := run_cons_eq_some.1 hrun
    exact ih (h.step (Ne.symm hsrc.1) hstep) hsrc.2 hrun

theorem finish (h : st.NotIn x) (hfinish : st.finish = some t) : t.NotIn x := by
  unfold State.finish at hfinish
  split at hfinish
  · cases hfinish
    exact h.settle
  · rename_i counts hinner hmode
    cases hfinish
    exact (h.unbrace hmode).settle
  · cases hfinish

end State.NotIn

/-- **A letter that does not occur in a pattern** is not written in its branches. -/
theorem notIn_parse {src : Bytes} (hsrc : x ∉ src) (h : parse src = some branches) :
    NotIn x branches := by
  obtain ⟨st, t, hrun, hfinish, rfl⟩ := parse_eq_some.1 h
  have hinit : State.NotIn x {} := by
    refine ⟨nofun, ?_, nofun, nofun⟩
    intro items hitems
    rw [List.mem_singleton.1 hitems]
    exact nofun
  exact ((hinit.run hsrc hrun).finish hfinish).base

end Written

/-! ## Alternatives outside groups -/

/-- The character that separates alternatives. -/
def bar : UInt8 := '|'.toUInt8

/-- The pattern has a bar outside its groups: what stands before it is a pattern of its own. -/
def OuterBar (src : Bytes) : Prop := ∃ a b, src = a ++ bar :: b ∧ (parse a).isSome = true

section OuterBar

variable {c : UInt8} {st t : State} {branches : Branches}

theorem eq_of_sign_bar {c : UInt8} (h : sign c = .bar) : c = bar :=
  forall_byte (p := fun c => sign c = .bar → c = bar) (by decide +kernel) c h

@[simp] theorem length_push (e : Expr UInt8) (branches : Branches) :
    (push e branches).length = branches.length := by
  cases branches <;> rfl

namespace State

@[simp] theorem mode_modify (st : State) (f : Branches → Branches) :
    (st.modify f).mode = st.mode := by
  unfold modify
  split <;> rfl

@[simp] theorem inner_modify_eq_nil {st : State} {f : Branches → Branches} :
    (st.modify f).inner = [] ↔ st.inner = [] := by
  unfold modify
  split
  · rfl
  · rename_i h
    simp [h]

@[simp] theorem length_base_modify_push (st : State) (e : Expr UInt8) :
    (st.modify (push e)).base.length = st.base.length := by
  unfold modify
  split <;> simp

@[simp] theorem length_base_settle (st : State) : st.settle.base.length = st.base.length := by
  unfold settle
  split <;> simp

@[simp] theorem inner_settle_eq_nil {st : State} : st.settle.inner = [] ↔ st.inner = [] := by
  unfold settle
  split <;> simp

@[simp] theorem length_base_openGroup (st : State) :
    st.openGroup.base.length = st.base.length := length_base_settle st

@[simp] theorem length_base_literal (st : State) (c : UInt8) :
    (st.literal c).base.length = st.base.length := length_base_settle st

@[simp] theorem inner_literal_eq_nil {st : State} {c : UInt8} :
    (st.literal c).inner = [] ↔ st.inner = [] := inner_settle_eq_nil

@[simp] theorem length_base_unbrace (st : State) (counts : Bytes) :
    (st.unbrace counts).base.length = st.base.length := by
  refine unbrace_induct (P := fun next => next.base.length = st.base.length)
    (length_base_literal st '\x7b'.toUInt8) ?_
  intro next c _ hnext
  rw [length_base_literal, hnext]

@[simp] theorem inner_unbrace_eq_nil {st : State} {counts : Bytes} :
    (st.unbrace counts).inner = [] ↔ st.inner = [] := by
  refine unbrace_induct (P := fun next => next.inner = [] ↔ st.inner = [])
    (inner_literal_eq_nil (c := '\x7b'.toUInt8)) ?_
  intro next c _ hnext
  rw [inner_literal_eq_nil, hnext]

theorem length_base_quantify {least : ℕ} {most : Option ℕ}
    (h : st.quantify least most = some t) : t.base.length = st.base.length := by
  unfold quantify at h
  split at h
  · cases h
    simp
  · cases h

end State

/-- Only a bar outside the groups begins another branch of the pattern. -/
theorem length_base_plainStep (h : plainStep st c = some t) :
    t.base.length = st.base.length ∨
      c = bar ∧ st.inner = [] ∧ t.base.length = st.base.length + 1 := by
  unfold plainStep at h
  split at h
  · cases h
    exact .inl rfl
  · cases h
    exact .inl (by simp)
  · cases h
    exact .inl rfl
  · cases h
    exact .inl rfl
  · left
    unfold State.closeGroup at h
    split at h
    · cases h
    · cases h
      simp
  · rename_i hsign
    cases h
    by_cases hinner : st.inner = []
    · right
      refine ⟨eq_of_sign_bar hsign, hinner, ?_⟩
      rw [← State.length_base_settle st]
      simp [State.modify, State.inner_settle_eq_nil.2 hinner]
    · left
      rw [← State.length_base_settle st]
      have hsettle := mt State.inner_settle_eq_nil.1 hinner
      obtain ⟨group, inner, heq⟩ := List.exists_cons_of_ne_nil hsettle
      simp [State.modify, heq]
  · exact .inl (State.length_base_quantify h)
  · exact .inl (State.length_base_quantify h)
  · split at h
    · cases h
      exact .inl rfl
    · exact .inl (State.length_base_quantify h)
  · cases h
    exact .inl rfl
  · cases h
  · cases h
    exact .inl (by simp)

/-- What stands before such a bar is a pattern. -/
theorem length_base_step (h : step st c = some t) :
    t.base.length = st.base.length ∨
      c = bar ∧ st.finish.isSome = true ∧ t.base.length = st.base.length + 1 := by
  have hunbrace (counts : Bytes) (hmode : st.mode = .braces counts)
      (h : plainStep (st.unbrace counts) c = some t) : t.base.length = st.base.length ∨
        c = bar ∧ st.finish.isSome = true ∧ t.base.length = st.base.length + 1 := by
    rcases length_base_plainStep h with h | ⟨hc, hinner, h⟩
    · exact .inl (by simpa using h)
    · refine .inr ⟨hc, ?_, by simpa using h⟩
      rw [State.inner_unbrace_eq_nil] at hinner
      simp [State.finish, hinner, hmode]
  unfold step at h
  split at h
  · rename_i hmode
    rcases length_base_plainStep h with h | ⟨hc, hinner, h⟩
    · exact .inl h
    · exact .inr ⟨hc, by simp [State.finish, hinner, hmode], h⟩
  · split at h
    · cases h
    · cases h
      exact .inl (by simp)
  · split at h
    · cases h
      exact .inl rfl
    · rcases length_base_plainStep h with h | ⟨-, hinner, -⟩
      · exact .inl (by simpa using h)
      · cases hinner
  · split at h
    · cases h
      exact .inl (by simp)
    · cases h
  · split at h
    · cases h
      exact .inl rfl
    · cases h
  · split at h
    · split at h
      · cases h
      · cases h
        exact .inl (by simp)
    · split at h
      · cases h
      · cases h
        exact .inl rfl
  · rename_i counts hmode
    split at h
    · cases h
      exact .inl rfl
    · split at h
      · split at h
        · exact hunbrace counts hmode h
        · cases h
        · have hlength := State.length_base_quantify h
          exact .inl hlength
      · exact hunbrace counts hmode h

theorem length_base_finish (h : st.finish = some t) : t.base.length = st.base.length := by
  unfold State.finish at h
  split at h
  · cases h
    simp
  · cases h
    simp
  · cases h

/-- At the end of a pattern a bar begins another branch. -/
theorem step_bar (h : st.finish = some t) :
    ∃ next, step st bar = some next ∧ next.base.length = st.base.length + 1 := by
  have hbar (st : State) (hinner : st.inner = []) :
      ∃ next, plainStep st bar = some next ∧ next.base.length = st.base.length + 1 := by
    refine ⟨st.settle.modify ([] :: ·), rfl, ?_⟩
    rw [State.modify, State.inner_settle_eq_nil.2 hinner]
    simp
  unfold State.finish at h
  split at h
  · rename_i hinner hmode
    obtain ⟨next, hstep, hlength⟩ := hbar st hinner
    refine ⟨next, ?_, hlength⟩
    rw [step, hmode]
    exact hstep
  · rename_i counts hinner hmode
    obtain ⟨next, hstep, hlength⟩ := hbar (st.unbrace counts) (State.inner_unbrace_eq_nil.2 hinner)
    refine ⟨next, ?_, by simpa using hlength⟩
    rw [step, hmode]
    exact hstep
  · cases h

theorem length_base_run {src : Bytes} (h : run st src = some t) :
    st.base.length ≤ t.base.length := by
  induction src generalizing st with
  | nil =>
    cases h
    exact le_rfl
  | cons c src ih =>
    obtain ⟨next, hstep, hrun⟩ := run_cons_eq_some.1 h
    have hle := ih hrun
    have hlength := length_base_step hstep
    omega

/-- The bar that began the second branch. -/
theorem outerBar_of_run {src : Bytes} (h : run {} src = some t) (hlength : 2 ≤ t.base.length) :
    OuterBar src := by
  induction src using List.reverseRecOn generalizing t with
  | nil =>
    cases h
    exact absurd hlength (by decide)
  | append_singleton src c ih =>
    rw [run_append, Option.bind_eq_some_iff] at h
    obtain ⟨st, hrun, h⟩ := h
    obtain ⟨next, hstep, hnext⟩ := run_cons_eq_some.1 h
    cases hnext
    by_cases hst : 2 ≤ st.base.length
    · obtain ⟨a, b, rfl, ha⟩ := ih hrun hst
      exact ⟨a, b ++ [c], by simp, ha⟩
    · rcases length_base_step hstep with heq | ⟨rfl, hfinish, -⟩
      · omega
      · obtain ⟨u, hu⟩ := Option.isSome_iff_exists.1 hfinish
        refine ⟨src, [], rfl, ?_⟩
        simp [parse, hrun, hu]

/-- **A pattern has more than one branch** if it has a bar outside its groups, and only then. -/
theorem two_le_length_parse_iff {src : Bytes} (h : parse src = some branches) :
    2 ≤ branches.length ↔ OuterBar src := by
  obtain ⟨st, t, hrun, hfinish, rfl⟩ := parse_eq_some.1 h
  rw [length_base_finish hfinish]
  constructor
  · exact outerBar_of_run hrun
  · rintro ⟨a, b, rfl, ha⟩
    obtain ⟨left, hleft⟩ := Option.isSome_iff_exists.1 ha
    obtain ⟨sa, ta, hruna, hfinisha, -⟩ := parse_eq_some.1 hleft
    rw [run_append, hruna, Option.bind_some] at hrun
    obtain ⟨next, hstep, hrest⟩ := run_cons_eq_some.1 hrun
    obtain ⟨next', hbar, hlength⟩ := step_bar hfinisha
    rw [hstep, Option.some.injEq] at hbar
    subst hbar
    have hfirst : 1 ≤ sa.base.length := length_base_run hruna
    have hle := length_base_run hrest
    omega

end OuterBar

end Unalix.Regex
