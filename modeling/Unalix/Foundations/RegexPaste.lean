import Unalix.Foundations.RegexParser

/-!
# Patterns pasted together

A pattern is written between two texts that are patterns too. The parser does what it does for the
pattern alone, except that an item stands in front of the first branch (`Follows`), and at the end
an item is added to the last branch. So the branches of the whole are those of the pattern, with
one item in front of the first and one behind the last (`parse_between`), and the meaning is the
concatenation when these are one and the same branch (`denotes_between`).
-/

namespace Unalix.Regex

variable {p : Expr UInt8} {c : UInt8} {st st' t : State}

/-! ## An item in front -/

/-- The item stands in front of the first branch. -/
def Grafted (p : Expr UInt8) (branches branches' : Branches) : Prop :=
  ∃ later first, branches = later ++ [first] ∧ branches' = later ++ [first ++ [p]]

/-- The states agree, but for the item in front of the first branch of the pattern. -/
inductive Follows (p : Expr UInt8) : State → State → Prop
  | mk (inner : List Branches) {base base' : Branches} (h : Grafted p base base') (last : Last)
    (mode : Mode) : Follows p ⟨inner, base, last, mode⟩ ⟨inner, base', last, mode⟩

/-- At the beginning of the pattern the item is the last one. -/
inductive After (p : Expr UInt8) : State → State → Prop
  | early (mode : Mode) : After p ⟨[], [[]], .nothing, mode⟩ ⟨[], [[]], .item p, mode⟩
  | follows {st st' : State} (h : Follows p st st') : After p st st'

/-- What the one run can do, the other can do as well. -/
def Simulates (p : Expr UInt8) (r r' : Option State) : Prop :=
  ∀ t, r = some t → ∃ t', r' = some t' ∧ After p t t'

theorem simulates_none (r' : Option State) : Simulates p none r' := nofun

theorem After.simulates (h : After p st st') : Simulates p (some st) (some st') := by
  rintro t heq
  cases heq
  exact ⟨st', rfl, h⟩

theorem Grafted.push {branches branches' : Branches} (h : Grafted p branches branches')
    (e : Expr UInt8) : Grafted p (push e branches) (push e branches') := by
  obtain ⟨later, first, rfl, rfl⟩ := h
  cases later with
  | nil => exact ⟨[], e :: first, rfl, rfl⟩
  | cons items later => exact ⟨(e :: items) :: later, first, rfl, rfl⟩

theorem Grafted.cons {branches branches' : Branches} (h : Grafted p branches branches') :
    Grafted p ([] :: branches) ([] :: branches') := by
  obtain ⟨later, first, rfl, rfl⟩ := h
  exact ⟨[] :: later, first, rfl, rfl⟩

namespace Follows

theorem modify (h : Follows p st st') {f : Branches → Branches}
    (hf : ∀ {branches branches'}, Grafted p branches branches' →
      Grafted p (f branches) (f branches')) : Follows p (st.modify f) (st'.modify f) := by
  obtain ⟨inner, hbase, last, mode⟩ := h
  cases inner with
  | nil => exact ⟨[], hf hbase, last, mode⟩
  | cons group inner => exact ⟨f group :: inner, hbase, last, mode⟩

theorem setMode (h : Follows p st st') (mode : Mode) :
    Follows p { st with mode := mode } { st' with mode := mode } := by
  obtain ⟨inner, hbase, last, _⟩ := h
  exact ⟨inner, hbase, last, mode⟩

theorem setLast (h : Follows p st st') (last : Last) :
    Follows p { st with last := last } { st' with last := last } := by
  obtain ⟨inner, hbase, _, mode⟩ := h
  exact ⟨inner, hbase, last, mode⟩

theorem closeGroup (h : Follows p st st') : Simulates p st.closeGroup st'.closeGroup := by
  obtain ⟨inner, hbase, last, mode⟩ := h
  cases inner with
  | nil => exact simulates_none _
  | cons group inner => exact (After.follows ⟨inner, hbase, .item (alts group), mode⟩).simulates

theorem settle (h : Follows p st st') : Follows p st.settle st'.settle := by
  obtain ⟨inner, hbase, last, mode⟩ := h
  cases last with
  | nothing => exact ⟨inner, hbase, .nothing, mode⟩
  | item e =>
    exact (modify ⟨inner, hbase, .item e, mode⟩ fun hgrafted => hgrafted.push e).setLast .nothing
  | repetition => exact ⟨inner, hbase, .nothing, mode⟩

theorem openGroup (h : Follows p st st') : Follows p st.openGroup st'.openGroup := by
  have hsettle := h.settle
  unfold State.openGroup
  generalize st.settle = settled at hsettle ⊢
  generalize st'.settle = settled' at hsettle ⊢
  obtain ⟨inner, hbase, last, mode⟩ := hsettle
  exact ⟨[[]] :: inner, hbase, last, mode⟩

theorem quantify (h : Follows p st st') (least : ℕ) (most : Option ℕ) :
    Simulates p (st.quantify least most) (st'.quantify least most) := by
  obtain ⟨inner, hbase, last, mode⟩ := h
  cases last with
  | nothing => exact simulates_none _
  | item e =>
    have hpush := modify ⟨inner, hbase, .item e, mode⟩ fun hgrafted =>
      hgrafted.push (.rep least most e)
    exact (After.follows (hpush.setLast .repetition)).simulates
  | repetition => exact simulates_none _

theorem literal (h : Follows p st st') (c : UInt8) : Follows p (st.literal c) (st'.literal c) :=
  h.settle.setLast _

end Follows

namespace After

theorem settle (h : After p st st') : Follows p st.settle st'.settle := by
  cases h with
  | early mode => exact ⟨[], ⟨[], [], rfl, rfl⟩, .nothing, mode⟩
  | follows h => exact h.settle

theorem setMode (h : After p st st') (mode : Mode) :
    After p { st with mode := mode } { st' with mode := mode } := by
  cases h with
  | early _ => exact .early mode
  | follows h => exact .follows (h.setMode mode)

theorem openGroup (h : After p st st') : Follows p st.openGroup st'.openGroup := by
  cases h with
  | early mode => exact ⟨[[[]]], ⟨[], [], rfl, rfl⟩, .nothing, mode⟩
  | follows h => exact h.openGroup

theorem literal (h : After p st st') (c : UInt8) : Follows p (st.literal c) (st'.literal c) :=
  h.settle.setLast _

theorem unbrace (h : After p st st') (counts : Bytes) :
    Follows p (st.unbrace counts) (st'.unbrace counts) := by
  have hfold : ∀ (counts : Bytes) {st st' : State}, Follows p st st' →
      Follows p (counts.foldl (fun st c => st.literal c) st)
        (counts.foldl (fun st c => st.literal c) st') := by
    intro counts
    induction counts with
    | nil => exact fun h => h
    | cons c counts ih => exact fun h => ih (h.literal c)
  exact hfold counts ((h.literal _).setMode .plain)

/-- At the beginning there is nothing to repeat. -/
theorem quantify (h : After p st st') (least : ℕ) (most : Option ℕ) :
    Simulates p (st.quantify least most) (st'.quantify least most) := by
  cases h with
  | early _ => exact simulates_none _
  | follows h => exact h.quantify least most

/-- A `?` makes a repetition lazy. -/
theorem question (h : After p st st') :
    Simulates p
      (if st.last = .repetition then some { st with last := .nothing } else st.quantify 0 (some 1))
      (if st'.last = .repetition then some { st' with last := .nothing }
        else st'.quantify 0 (some 1)) := by
  cases h with
  | early _ => exact simulates_none _
  | follows h =>
    obtain ⟨inner, hbase, last, mode⟩ := h
    by_cases hlast : last = .repetition
    · simp only [if_pos hlast]
      exact (After.follows ⟨inner, hbase, .nothing, mode⟩).simulates
    · simp only [if_neg hlast]
      exact Follows.quantify ⟨inner, hbase, last, mode⟩ 0 (some 1)

theorem plainStep (h : After p st st') (c : UInt8) :
    Simulates p (plainStep st c) (plainStep st' c) := by
  unfold Regex.plainStep
  cases sign c with
  | backslash => exact (h.setMode .escape).simulates
  | caret => exact (After.follows (h.settle.modify fun hgrafted => hgrafted.push .start)).simulates
  | bracket => exact (h.setMode .classOpened).simulates
  | opening => exact (h.setMode .opened).simulates
  | closing => exact h.settle.closeGroup
  | bar => exact (After.follows (h.settle.modify Grafted.cons)).simulates
  | star => exact h.quantify 0 none
  | plus => exact h.quantify 1 none
  | question => exact h.question
  | brace => exact (h.setMode (.braces [])).simulates
  | other => exact simulates_none _
  | literal => exact (After.follows (h.literal c)).simulates

theorem mode_eq (h : After p st st') : st'.mode = st.mode := by
  cases h with
  | early mode => rfl
  | follows h => cases h with | mk => rfl

theorem step (h : After p st st') (c : UInt8) : Simulates p (step st c) (step st' c) := by
  have hplain := h.setMode .plain
  unfold Regex.step
  rw [h.mode_eq]
  cases st.mode with
  | plain => exact h.plainStep c
  | escape =>
    simp only
    split
    · exact simulates_none _
    · exact (After.follows ((h.literal c).setMode .plain)).simulates
  | opened =>
    simp only
    split
    · exact (h.setMode .option).simulates
    · exact (After.follows (h.openGroup.setMode .plain)).plainStep c
  | option =>
    simp only
    split
    · exact (After.follows (h.openGroup.setMode .plain)).simulates
    · exact simulates_none _
  | classOpened =>
    simp only
    split
    · exact (h.setMode (.inClass [])).simulates
    · exact simulates_none _
  | inClass cs =>
    simp only
    split
    · split
      · exact simulates_none _
      · exact (After.follows ((h.settle.setLast (.item (.noneOf cs))).setMode .plain)).simulates
    · split
      · exact simulates_none _
      · exact (h.setMode (.inClass (c :: cs))).simulates
  | braces counts =>
    have hunbrace := After.follows (h.unbrace counts)
    simp only
    split
    · exact (h.setMode (.braces (counts ++ [c]))).simulates
    · split
      · cases readCounts counts with
        | notCounts => exact hunbrace.plainStep c
        | invalid => exact simulates_none _
        | counts least most => exact hplain.quantify least most
      · exact hunbrace.plainStep c

/-- **What the parser does with a pattern**, it does behind the item. -/
theorem run (h : After p st st') (src : Bytes) : Simulates p (run st src) (run st' src) := by
  induction src generalizing st st' with
  | nil => exact h.simulates
  | cons c src ih =>
    intro t ht
    obtain ⟨next, hstep, hrun⟩ := run_cons_eq_some.1 ht
    obtain ⟨next', hstep', hnext⟩ := h.step c next hstep
    obtain ⟨t', hrun', hafter⟩ := ih hnext t hrun
    exact ⟨t', run_cons_eq_some.2 ⟨next', hstep', hrun'⟩, hafter⟩

theorem finish (h : After p st st') (hfinish : st.finish = some t) :
    ∃ t', st'.finish = some t' ∧ Follows p t t' := by
  have hinner : st'.inner = st.inner := by
    cases h with
    | early mode => rfl
    | follows h => cases h with | mk => rfl
  unfold State.finish at *
  rw [h.mode_eq, hinner]
  split at hfinish
  · cases hfinish
    exact ⟨_, rfl, h.settle⟩
  · cases hfinish
    exact ⟨_, rfl, (h.unbrace _).settle⟩
  · cases hfinish

end After

/-! ## A pattern between two texts -/

/-- The text is read as an item in front of a pattern. -/
def Begins (pre : Bytes) (p : Expr UInt8) : Prop := run {} pre = some ⟨[], [[]], .item p, .plain⟩

/-- The text is read as an item behind a pattern. -/
def Ends (suf : Bytes) (s : Expr UInt8) : Prop :=
  ∀ {st t : State}, st.finish = some t →
    ∃ st' t', run st suf = some st' ∧ st'.finish = some t' ∧ t'.base = push s t.base

variable {pre suf src : Bytes} {s e : Expr UInt8} {branches : Branches}

/-- **The branches of the whole**: the one item is in front of the first branch, and the other
behind the last. -/
theorem parse_between (hpre : Begins pre p) (hsuf : Ends suf s) (h : parse src = some branches) :
    ∃ branches', Grafted p branches branches' ∧
      parse (pre ++ src ++ suf) = some (push s branches') := by
  obtain ⟨st, t, hrun, hfinish, rfl⟩ := parse_eq_some.1 h
  obtain ⟨st', hrun', hafter⟩ := (After.early .plain).run src st hrun
  obtain ⟨t', hfinish', hfollows⟩ := hafter.finish hfinish
  obtain ⟨st'', t'', hrun'', hfinish'', hbase⟩ := hsuf hfinish'
  refine ⟨t'.base, ?_, parse_eq_some.2 ⟨st'', t'', ?_, hfinish'', hbase⟩⟩
  · obtain ⟨inner, hgrafted, last, mode⟩ := hfollows
    exact hgrafted
  · rw [run_append, run_append, show run {} pre = _ from hpre, Option.bind_some, hrun',
      Option.bind_some, hrun'']

/-- **The meaning of the whole** is the concatenation, when the pattern has one branch. -/
theorem denotes_between (hpre : Begins pre p) (hsuf : Ends suf s) (h : compile src = some e)
    (hbar : ¬ OuterBar src) : ∃ e', compile (pre ++ src ++ suf) = some e' ∧
      e'.Denotes = cat p.Denotes (cat e.Denotes s.Denotes) := by
  obtain ⟨branches, hparse, rfl⟩ := Option.map_eq_some_iff.1 h
  obtain ⟨branches', ⟨later, first, rfl, rfl⟩, hbetween⟩ := parse_between hpre hsuf hparse
  have hlater : later = [] := by
    have hlength := mt (two_le_length_parse_iff hparse).1 hbar
    rw [List.length_append, List.length_singleton] at hlength
    exact List.length_eq_zero_iff.1 (by omega)
  subst hlater
  refine ⟨_, by rw [compile, hbetween]; rfl, ?_⟩
  show cat (seqs (first ++ [p])).Denotes s.Denotes = _
  rw [denotes_seqs_concat, cat_assoc]
  rfl

/-! ## A group -/

theorem State.mode_unbrace (st : State) (counts : Bytes) : (st.unbrace counts).mode = .plain := by
  refine unbrace_induct (P := fun next => next.mode = .plain) rfl ?_
  intro next c _ hnext
  show next.settle.mode = .plain
  unfold State.settle
  split
  · exact (next.mode_modify _).trans hnext
  · exact hnext

/-- Behind a pattern a parenthesis opens a group. -/
theorem run_group (h : st.finish = some t) :
    run st (str "(?:") = some ⟨[[[]]], t.base, .nothing, .plain⟩ := by
  have hplain (st : State) (hinner : st.inner = []) (hmode : st.mode = .plain) :
      run st (str "(?:") = some ⟨[[[]]], st.settle.base, .nothing, .plain⟩ := by
    obtain ⟨inner, base, last, mode⟩ := st
    obtain rfl : inner = [] := hinner
    obtain rfl : mode = .plain := hmode
    cases last <;> rfl
  unfold State.finish at h
  split at h
  · rename_i hinner hmode
    cases h
    exact hplain st hinner hmode
  · rename_i counts hinner hmode
    cases h
    rw [← hplain _ (State.inner_unbrace_eq_nil.2 hinner) (st.mode_unbrace counts)]
    have hstep : step st '('.toUInt8 = step (st.unbrace counts) '('.toUInt8 := by
      rw [step, step, hmode, st.mode_unbrace]
      rfl
    exact congrArg (Option.bind · fun st => run st (str "?:")) hstep
  · cases h

end Unalix.Regex
