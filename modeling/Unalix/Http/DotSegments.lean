import Unalix.Foundations.Walk
import Unalix.Http.NormPath

/-!
# Dot segments (`utils.c`)

RFC 3986 lets a `.` contribute nothing and a `..` remove the segment before it. `httpnormpath` cuts
its text once for each dot, so both remove one segment too many. A `..` that finds a single segment
cuts the text of none, and writes the byte before the buffer. How many segments there are is a
matter of counting names and dots, so this happens exactly at the places where the count is one
(`httpnormpath_inBounds_iff`). The result is that of the RFC exactly when the dot segments come
first and take everything before them away (`httpnormpath_dotSegments_iff`).
-/

namespace Unalix

open CString Walk

/-! ## Writes before the buffer -/

/-- What a component counts: one for a name, and minus its dots for a dot segment. -/
def weight (comp : Bytes) : ℤ := if isDotted comp then -(countp comp dot : ℤ) else 1

theorem length_stackComponent (comps : List Bytes) (comp : Bytes) :
    ((stackComponent comps comp).length : ℤ) = max 0 (comps.length + weight comp) := by
  unfold stackComponent weight
  split_ifs
  · rw [List.rdrop, List.length_take]
    omega
  · rw [List.length_append, List.length_singleton]
    omega

/-- The height of the stack is where names and dots lead to. -/
theorem length_foldl_stackComponent (cs : List Bytes) :
    ((cs.foldl stackComponent []).length : ℤ) = walk weight cs := by
  induction cs using List.reverseRecOn with
  | nil => rfl
  | append_singleton cs comp ih =>
    rw [List.foldl_concat, length_stackComponent, ih, walk_concat]

/-- Only two dots on a single component write before the buffer. -/
theorem IsStack.outOfBounds_addComponent {st : NormPath} {comps : List Bytes} {comp : Bytes}
    (h : IsStack st comps) (hcomp : IsComponent comp) :
    (Unalix.addComponent st comp).outOfBounds = true ↔
      st.outOfBounds = true ∨ comp = [dot, dot] ∧ comps.length = 1 := by
  cases hd : isDotted comp
  · have hadd : Unalix.addComponent st comp =
        { st with normalized := st.normalized ++ [slash] ++ comp } := by
      simp [Unalix.addComponent, hd]
    have hne : comp ≠ [dot, dot] := by
      rintro rfl
      exact absurd hd (by decide)
    simp [hadd, hne]
  · rw [(addComponent_of_dotted h hd).2, ← List.length_pos_iff]
    refine or_congr_right ?_
    rcases isDotted_iff.1 hd with rfl | rfl
    · have hcount : countp [dot] dot = 1 := by decide
      rw [hcount]
      refine iff_of_false (by omega) ?_
      rintro ⟨hne, -⟩
      exact absurd hne (by decide)
    · have hcount : countp [dot, dot] dot = 2 := by decide
      rw [hcount, and_iff_right rfl]
      omega

/-- **Along the components** it is a `..` at which one component is left. -/
theorem IsStack.outOfBounds_foldl {st : NormPath} {comps cs : List Bytes} (h : IsStack st comps)
    (hcs : ∀ comp ∈ cs, IsComponent comp) :
    (cs.foldl Unalix.addComponent st).outOfBounds = true ↔ st.outOfBounds = true ∨
      ∃ l r, cs = l ++ [dot, dot] :: r ∧ (l.foldl stackComponent comps).length = 1 := by
  induction cs generalizing st comps with
  | nil => simp
  | cons comp cs ih =>
    rw [List.forall_mem_cons] at hcs
    rw [List.foldl_cons, ih (h.addComponent hcs.1) hcs.2, h.outOfBounds_addComponent hcs.1,
      or_assoc]
    refine or_congr_right ?_
    constructor
    · rintro (⟨rfl, hone⟩ | ⟨l, r, rfl, hone⟩)
      · exact ⟨[], cs, rfl, hone⟩
      · exact ⟨comp :: l, r, rfl, hone⟩
    · rintro ⟨l, r, heq, hone⟩
      cases l with
      | nil =>
        obtain ⟨rfl, -⟩ := List.cons.inj heq
        exact .inl ⟨rfl, hone⟩
      | cons c l =>
        obtain ⟨rfl, rfl⟩ := List.cons.inj heq
        exact .inr ⟨l, r, rfl, hone⟩

/-- **No byte before the buffer is written** if and only if no `..` of the path stands where the
stretches of components before it have at most one name more than dots, and one of them has. -/
theorem httpnormpath_inBounds_iff (path : Bytes) : (normLoop {} [] path).1.outOfBounds = false ↔
    ∀ l r, (readComponents [] path).1 = l ++ [dot, dot] :: r →
      ¬ IsGreatest {n | ∃ e, e <:+ l ∧ total weight e = n} 1 := by
  have hcs := (readComponents_spec noDelim_nil path).1
  rw [← Bool.not_eq_true, normLoop_eq, IsStack.outOfBounds_foldl isStack_nil hcs,
    or_iff_right Bool.false_ne_true]
  have hone (l : List Bytes) : (l.foldl stackComponent []).length = 1 ↔
      IsGreatest {n | ∃ e, e <:+ l ∧ total weight e = n} 1 := by
    have hlength := length_foldl_stackComponent l
    constructor
    · intro h
      have hwalk : walk weight l = 1 := by omega
      exact hwalk ▸ walk_isGreatest weight l
    · intro h
      have hwalk := (walk_isGreatest weight l).unique h
      omega
  simp only [hone, not_exists, not_and]

/-- `..` after a single component. -/
theorem not_httpnormpath_inBounds_parent :
    ¬ (normLoop {} [] (str "/a/..")).1.outOfBounds = false := by decide

/-! ## Segments -/

/-- The segments of a path that are not empty. -/
def segments (path : Bytes) : List Bytes := (path.splitOn slash).filter (· ≠ [])

theorem segments_append (x y : Bytes) : segments (x ++ slash :: y) = segments x ++ segments y := by
  rw [segments, List.splitOn_append_cons_self, List.filter_append]
  rfl

theorem segments_nil : segments [] = [] := by decide

theorem segments_cons_slash (y : Bytes) : segments (slash :: y) = segments y :=
  segments_append [] y

theorem segments_concat_slash (x : Bytes) : segments (x ++ [slash]) = segments x := by
  rw [segments_append, segments_nil, List.append_nil]

/-- A segment of a path: not empty, and without slashes. -/
def IsSegment (seg : Bytes) : Prop := seg ≠ [] ∧ slash ∉ seg

instance (seg : Bytes) : Decidable (IsSegment seg) :=
  inferInstanceAs (Decidable (seg ≠ [] ∧ slash ∉ seg))

theorem IsComponent.isSegment {comp : Bytes} (h : IsComponent comp) : IsSegment comp :=
  ⟨h.1, h.2.not_mem isDelim_slash⟩

theorem NormalComponent.isSegment {comp : Bytes} (h : NormalComponent comp) : IsSegment comp :=
  h.isComponent.isSegment

theorem IsSegment.segments_eq {seg : Bytes} (h : IsSegment seg) : segments seg = [seg] := by
  rw [segments, splitOn_of_not_mem h.2]
  simp [h.1]

theorem segments_joinComponents {comps : List Bytes} (h : ∀ comp ∈ comps, IsSegment comp) :
    segments (joinComponents comps) = comps := by
  induction comps using List.reverseRecOn with
  | nil => exact segments_nil
  | append_singleton comps comp ih =>
    rw [joinComponents_concat, segments_append, ih fun c hc => h c (by simp [hc]),
      (h comp (by simp)).segments_eq]

theorem segments_pathText {comps : List Bytes} (h : ∀ comp ∈ comps, IsComponent comp) :
    segments (pathText comps) = comps := by
  unfold pathText
  split_ifs with hnil
  · rw [hnil, segments_cons_slash, segments_nil]
  · exact segments_joinComponents fun comp hcomp => (h comp hcomp).isSegment

/-- In a path without `?` and `#` the components that are read are its segments. -/
theorem readComponents_eq_segments {comp path : Bytes} (hcomp : NoDelim comp)
    (hpath : ∀ c ∈ path, ¬ IsSuffixStart c) :
    readComponents comp path = (segments (comp ++ path), none) := by
  induction path generalizing comp with
  | nil =>
    rw [readComponents, List.append_nil]
    split_ifs with hnil
    · rw [hnil, segments_nil]
    · rw [(IsComponent.isSegment ⟨hnil, hcomp⟩).segments_eq]
  | cons ch path ih =>
    rw [List.forall_mem_cons] at hpath
    by_cases hslash : ch = slash
    · subst hslash
      have hrest := ih noDelim_nil hpath.2
      rw [List.nil_append] at hrest
      by_cases hnil : comp = []
      · rw [hnil, readComponents_slash_nil, hrest, List.nil_append, segments_cons_slash]
      · rw [readComponents_slash hnil, hrest, segments_append,
          (IsComponent.isSegment ⟨hnil, hcomp⟩).segments_eq, List.singleton_append]
    · have hch : ¬ IsDelim ch := by
        rintro (hd | hd)
        · exact hslash hd
        · exact hpath.1 hd
      rw [readComponents_cons hch, ih (hcomp.concat hch) hpath.2, List.append_assoc,
        List.singleton_append]

section NoSuffix

variable {path : Bytes} (hpath : ∀ c ∈ path, ¬ IsSuffixStart c)

include hpath

theorem isComponent_of_mem_segments : ∀ seg ∈ segments path, IsComponent seg := by
  have hspec := (readComponents_spec noDelim_nil path).1
  rwa [readComponents_eq_segments noDelim_nil hpath] at hspec

theorem pathStack_eq : pathStack path = (segments path).foldl stackComponent [] := by
  rw [pathStack, readComponents_eq_segments noDelim_nil hpath, List.nil_append]

theorem httpnormpath_eq_pathText : httpnormpath path = pathText (pathStack path) := by
  rw [httpnormpath_eq, pathSuffix, readComponents_eq_segments noDelim_nil hpath]
  exact List.append_nil _

end NoSuffix

/-- The same text, but for a slash at the end of one of them. -/
def UpToSlash (x y : Bytes) : Prop := x = y ∨ x ++ [slash] = y ∨ x = y ++ [slash]

instance (x y : Bytes) : Decidable (UpToSlash x y) :=
  inferInstanceAs (Decidable (x = y ∨ x ++ [slash] = y ∨ x = y ++ [slash]))

theorem upToSlash_pathText {comps comps' : List Bytes} (h : ∀ comp ∈ comps, IsComponent comp)
    (h' : ∀ comp ∈ comps', IsComponent comp) :
    UpToSlash (pathText comps) (pathText comps') ↔ comps = comps' := by
  constructor
  · intro heq
    rw [← segments_pathText h, ← segments_pathText h']
    rcases heq with heq | heq | heq
    · rw [heq]
    · rw [← heq, segments_concat_slash]
    · rw [heq, segments_concat_slash]
  · rintro rfl
    exact .inl rfl

/-! ## Dot segments as in RFC 3986 -/

/-- A `.` contributes nothing, and a `..` removes the last segment that was kept. -/
def rfcStep (kept : List Bytes) (seg : Bytes) : List Bytes :=
  if seg = [dot] then kept else if seg = [dot, dot] then kept.dropLast else kept ++ [seg]

/-- A path without its dot segments. -/
def removeDotSegments (path : Bytes) : Bytes := pathText ((segments path).foldl rfcStep [])

theorem rfcStep_of_name {seg : Bytes} (h : isDotted seg = false) (kept : List Bytes) :
    rfcStep kept seg = kept ++ [seg] := by
  rw [← Bool.not_eq_true, isDotted_iff, not_or] at h
  rw [rfcStep, if_neg h.1, if_neg h.2]

theorem foldl_rfcStep {segs : List Bytes} (h : ∀ seg ∈ segs, isDotted seg = false)
    (kept : List Bytes) : segs.foldl rfcStep kept = kept ++ segs := by
  induction segs generalizing kept with
  | nil => simp
  | cons seg segs ih =>
    rw [List.forall_mem_cons] at h
    rw [List.foldl_cons, rfcStep_of_name h.1, ih h.2, List.append_assoc, List.singleton_append]

/-- Nothing is kept that is not a segment. -/
theorem mem_of_mem_foldl_rfcStep {segs : List Bytes} {seg : Bytes}
    (h : seg ∈ segs.foldl rfcStep []) : seg ∈ segs := by
  induction segs using List.reverseRecOn with
  | nil => exact h
  | append_singleton segs last ih =>
    rw [List.foldl_concat, rfcStep] at h
    rw [List.mem_append, List.mem_singleton]
    split_ifs at h
    · exact .inl (ih h)
    · exact .inl (ih (List.mem_of_mem_dropLast h))
    · rcases List.mem_append.1 h with h | h
      · exact .inl (ih h)
      · exact .inr (List.mem_singleton.1 h)

/-- A dot segment leaves fewer components than it should, unless nothing should be left. -/
theorem length_stackComponent_lt {comps kept : List Bytes} {seg : Bytes}
    (hlen : comps.length ≤ kept.length) (hd : isDotted seg = true) :
    (stackComponent comps seg).length ≤ (rfcStep kept seg).length - 1 := by
  have hstack := length_stackComponent comps seg
  rw [weight, if_pos hd] at hstack
  rcases isDotted_iff.1 hd with rfl | rfl
  · have hcount : countp [dot] dot = 1 := by decide
    rw [hcount] at hstack
    rw [rfcStep, if_pos rfl]
    omega
  · have hcount : countp [dot, dot] dot = 2 := by decide
    rw [hcount] at hstack
    rw [rfcStep, if_neg (by decide), if_pos rfl, List.length_dropLast]
    omega

/-- The stack is never higher than it should be. -/
theorem length_foldl_stackComponent_le (segs : List Bytes) :
    (segs.foldl stackComponent []).length ≤ (segs.foldl rfcStep []).length := by
  induction segs using List.reverseRecOn with
  | nil => exact le_rfl
  | append_singleton segs seg ih =>
    rw [List.foldl_concat, List.foldl_concat]
    cases hd : isDotted seg
    · rw [stackComponent_of_name hd, rfcStep_of_name hd, List.length_append, List.length_append]
      omega
    · have hlt := length_stackComponent_lt ih hd
      omega

/-- **The two stacks agree** if and only if nothing should be left after the last dot segment. -/
theorem foldl_stackComponent_eq_iff (segs : List Bytes) :
    segs.foldl stackComponent [] = segs.foldl rfcStep [] ↔
      ∃ l r, segs = l ++ r ∧ l.foldl rfcStep [] = [] ∧ ∀ seg ∈ r, isDotted seg = false := by
  constructor
  · intro heq
    induction segs using List.reverseRecOn with
    | nil => exact ⟨[], [], rfl, rfl, nofun⟩
    | append_singleton segs seg ih =>
      cases hd : isDotted seg
      · rw [List.foldl_concat, List.foldl_concat, stackComponent_of_name hd,
          rfcStep_of_name hd] at heq
        obtain ⟨l, r, rfl, hl, hr⟩ := ih (List.append_cancel_right heq)
        refine ⟨l, r ++ [seg], List.append_assoc l r [seg], hl, fun c hc => ?_⟩
        rcases List.mem_append.1 hc with hc | hc
        · exact hr c hc
        · rwa [List.mem_singleton.1 hc]
      · refine ⟨segs ++ [seg], [], (List.append_nil _).symm, ?_, nofun⟩
        have hlt := length_stackComponent_lt (length_foldl_stackComponent_le segs) hd
        rw [List.foldl_concat, List.foldl_concat] at heq
        rw [heq] at hlt
        rw [List.foldl_concat]
        exact List.eq_nil_of_length_eq_zero (by omega)
  · rintro ⟨l, r, rfl, hl, hr⟩
    have hle := length_foldl_stackComponent_le l
    rw [hl, List.length_nil, Nat.le_zero, List.length_eq_zero_iff] at hle
    rw [List.foldl_append, List.foldl_append, hl, hle, foldl_stackComponent hr, foldl_rfcStep hr]

/-- **Dot segments are removed as in RFC 3986** if and only if those up to the last dot segment
leave nothing. -/
theorem httpnormpath_dotSegments_iff {path : Bytes} (hpath : ∀ c ∈ path, ¬ IsSuffixStart c) :
    UpToSlash (httpnormpath path) (removeDotSegments path) ↔
      ∃ l r, segments path = l ++ r ∧ l.foldl rfcStep [] = [] ∧
        ∀ seg ∈ r, isDotted seg = false := by
  have hstack : ∀ comp ∈ pathStack path, IsComponent comp := fun comp hcomp =>
    ((isStack_pathStack path).2 comp hcomp).isComponent
  have hkept : ∀ comp ∈ (segments path).foldl rfcStep [], IsComponent comp := fun comp hcomp =>
    isComponent_of_mem_segments hpath comp (mem_of_mem_foldl_rfcStep hcomp)
  rw [httpnormpath_eq_pathText hpath, removeDotSegments, upToSlash_pathText hstack hkept,
    pathStack_eq hpath, foldl_stackComponent_eq_iff]

/-- A `..` that takes everything away, and names after it. -/
theorem httpnormpath_dotSegments_leading :
    UpToSlash (httpnormpath (str "/a/../b/c")) (removeDotSegments (str "/a/../b/c")) ↔
      ∃ l r, segments (str "/a/../b/c") = l ++ r ∧ l.foldl rfcStep [] = [] ∧
        ∀ seg ∈ r, isDotted seg = false :=
  httpnormpath_dotSegments_iff (by decide)

/-- A `.` takes the segment before it away. -/
theorem not_httpnormpath_dotSegments_dot :
    ¬ UpToSlash (httpnormpath (str "/a/./b")) (removeDotSegments (str "/a/./b")) := by
  decide

end Unalix
