import Unalix.Uri.Tail
import Mathlib.Data.List.DropRight

/-!
# Path normalisation (`utils.c`)

`httpnormpath` walks over a path and keeps the text of the components read so far, each after a
slash. A component of one or two dots shortens that text by as many components as it has dots.

Seen from outside there are two things in this. The path is read as a list of components and a
suffix (`readComponents`, `normLoop_eq`), and the text is a stack of components
(`joinComponents`): a component is pushed (`addComponent_of_normal`) or the dots pop
(`addComponent_of_dotted`). So the result is the text of the stack that the components leave, and
the suffix (`httpnormpath_eq`).
-/

namespace Unalix

open CString Ascii

/-- `basename`: the text after the last slash. -/
def basename (path : Bytes) : Bytes := (path.reverse.takeWhile (· ≠ slash)).reverse

/-- `countp`: how many times `p` appears in the leading part of a string. -/
def countp (s : Bytes) (p : UInt8) : ℕ := (s.takeWhile (· = p)).length

/-- `in_range`. -/
def inRange (index min max : ℕ) : Bool := min ≤ index && index ≤ max

/-- The buffer `normalized_path`, and whether a byte before it has been written. -/
structure NormPath where
  normalized : Bytes := []
  outOfBounds : Bool := false
  deriving DecidableEq, Repr

/-- `*(basename(normalized_path) - 1) = 0`: the text is cut at its last slash; without a slash the
byte before the buffer is written. -/
def truncate (st : NormPath) : NormPath :=
  if slash ∈ st.normalized then
    { st with normalized :=
        st.normalized.take (st.normalized.length - (basename st.normalized).length - 1) }
  else { st with outOfBounds := true }

/-- One or two characters, all of them dots. -/
def isDotted (comp : Bytes) : Bool :=
  inRange comp.length 1 2 && countp comp dot = comp.length

theorem isDotted_iff {comp : Bytes} : isDotted comp = true ↔ comp = [dot] ∨ comp = [dot, dot] := by
  rcases comp with _ | ⟨a, _ | ⟨b, _ | ⟨c, comp⟩⟩⟩
  · decide
  · by_cases ha : a = dot <;> simp [isDotted, inRange, countp, ha]
  · by_cases ha : a = dot <;> by_cases hb : b = dot <;> simp [isDotted, inRange, countp, ha, hb]
  · simp [isDotted, inRange]

/-- A component that is not empty: appended, or, for dots, cut off as often as there are dots. -/
def addComponent (st : NormPath) (comp : Bytes) : NormPath :=
  if !isDotted comp || isDotted (basename st.normalized) then
    { st with normalized := st.normalized ++ [slash] ++ comp }
  else if st.normalized ≠ [] then truncate^[countp comp dot] st
  else st

/-- The loop of `httpnormpath`; `comp` are the characters since `comp_start`. A `?` or `#` after a
component ends it, and is the beginning of the suffix; after an empty one it is skipped. -/
def normLoop (st : NormPath) (comp : Bytes) : Bytes → NormPath × Option Bytes
  | [] => (if comp = [] then st else addComponent st comp, none)
  | ch :: path =>
    if ch = slash || ch = questionMark || ch = hashtag then
      if comp = [] then normLoop st [] path
      else if ch = questionMark || ch = hashtag then (addComponent st comp, some (ch :: path))
      else normLoop (addComponent st comp) [] path
    else normLoop st (comp ++ [ch]) path

/-- `httpnormpath`. -/
def httpnormpath (path : Bytes) : Bytes :=
  let result := normLoop {} [] path
  (if result.1.normalized = [] then [slash] else result.1.normalized) ++ text result.2

example : httpnormpath (str "/a//b/./c/../d?e/../f") = str "/d?e/../f" := by decide

/-! ## Components -/

/-- A component that is kept: not empty, without delimiters, not one or two dots. -/
structure NormalComponent (comp : Bytes) : Prop where
  ne_nil : comp ≠ []
  noDelim : NoDelim comp
  not_dotted : isDotted comp = false

instance (comp : Bytes) : Decidable (NormalComponent comp) :=
  decidable_of_iff (comp ≠ [] ∧ NoDelim comp ∧ isDotted comp = false)
    ⟨fun h => ⟨h.1, h.2.1, h.2.2⟩, fun h => ⟨h.1, h.2, h.3⟩⟩

/-- The text of a stack of components. -/
def joinComponents (comps : List Bytes) : Bytes := comps.flatMap fun comp => slash :: comp

@[simp] theorem joinComponents_nil : joinComponents [] = [] := rfl

theorem joinComponents_append (comps comps' : List Bytes) :
    joinComponents (comps ++ comps') = joinComponents comps ++ joinComponents comps' :=
  List.flatMap_append

theorem joinComponents_singleton (comp : Bytes) : joinComponents [comp] = slash :: comp := by
  simp [joinComponents]

theorem joinComponents_concat (comps : List Bytes) (comp : Bytes) :
    joinComponents (comps ++ [comp]) = joinComponents comps ++ slash :: comp := by
  rw [joinComponents_append, joinComponents_singleton]

theorem joinComponents_eq_nil_iff {comps : List Bytes} : joinComponents comps = [] ↔ comps = [] := by
  cases comps <;> simp [joinComponents]

theorem basename_append {x comp : Bytes} (h : slash ∉ comp) : basename (x ++ slash :: comp) = comp := by
  have hrev : (x ++ slash :: comp).reverse = comp.reverse ++ slash :: x.reverse := by simp
  have htake : (comp.reverse ++ slash :: x.reverse).takeWhile (· ≠ slash) = comp.reverse :=
    before_cut (by simpa using h) x.reverse
  rw [basename, hrev, htake, List.reverse_reverse]

theorem basename_joinComponents {comps : List Bytes} {comp : Bytes} (h : slash ∉ comp) :
    basename (joinComponents (comps ++ [comp])) = comp := by
  rw [joinComponents_concat, basename_append h]

/-- A stack of components that are kept. -/
def IsStack (st : NormPath) (comps : List Bytes) : Prop :=
  st.normalized = joinComponents comps ∧ ∀ comp ∈ comps, NormalComponent comp

/-- Cutting the text at its last slash pops a component; on an empty stack there is none to cut. -/
theorem IsStack.truncate {st : NormPath} {comps : List Bytes} (h : IsStack st comps) :
    IsStack (truncate st) comps.dropLast ∧
      ((truncate st).outOfBounds = true ↔ st.outOfBounds = true ∨ comps = []) := by
  obtain ⟨hst, hcomps⟩ := h
  rcases comps.eq_nil_or_concat' with rfl | ⟨comps, comp, rfl⟩
  · have hmem : slash ∉ st.normalized := by simp [hst]
    rw [Unalix.truncate, if_neg hmem]
    exact ⟨⟨hst, hcomps⟩, by simp⟩
  · have hcomp : slash ∉ comp := (hcomps comp (by simp)).noDelim.not_mem isDelim_slash
    have hmem : slash ∈ st.normalized := by
      rw [hst, joinComponents_concat]
      simp
    rw [Unalix.truncate, if_pos hmem]
    refine ⟨⟨?_, fun c hc => hcomps c (List.mem_of_mem_dropLast hc)⟩, by simp⟩
    simp only [hst, basename_joinComponents hcomp, List.dropLast_concat]
    rw [joinComponents_concat]
    exact List.take_left' (by simp; omega)

/-- Cutting it `n` times. -/
theorem IsStack.iterate_truncate {st : NormPath} {comps : List Bytes} (h : IsStack st comps)
    (n : ℕ) : IsStack (Unalix.truncate^[n] st) (comps.rdrop n) ∧
      ((Unalix.truncate^[n] st).outOfBounds = true ↔
        st.outOfBounds = true ∨ comps.length < n) := by
  induction n generalizing st comps with
  | zero => simpa using h
  | succ n ih =>
    rw [Function.iterate_succ_apply]
    obtain ⟨hcut, hbounds⟩ := h.truncate
    obtain ⟨hrest, hrestBounds⟩ := ih hcut
    have hdrop : comps.dropLast.rdrop n = comps.rdrop (n + 1) := by
      rcases comps.eq_nil_or_concat' with rfl | ⟨comps, comp, rfl⟩
      · simp
      · rw [List.dropLast_concat, List.rdrop_concat_succ]
    refine ⟨hdrop ▸ hrest, ?_⟩
    rw [hrestBounds, hbounds, List.length_dropLast, or_assoc]
    refine or_congr_right ?_
    rw [← List.length_eq_zero_iff]
    omega

theorem not_isDotted_basename {st : NormPath} {comps : List Bytes} (h : IsStack st comps) :
    isDotted (basename st.normalized) = false := by
  obtain ⟨hst, hcomps⟩ := h
  rcases comps.eq_nil_or_concat' with rfl | ⟨comps, comp, rfl⟩
  · rw [hst]
    decide
  · have hcomp := hcomps comp (by simp)
    rw [hst, basename_joinComponents (hcomp.noDelim.not_mem isDelim_slash)]
    exact hcomp.not_dotted

/-- A component that is kept is pushed. -/
theorem addComponent_of_normal {st : NormPath} {comps : List Bytes} {comp : Bytes}
    (h : IsStack st comps) (hcomp : NormalComponent comp) :
    IsStack (addComponent st comp) (comps ++ [comp]) := by
  have hadd : addComponent st comp = { st with normalized := st.normalized ++ [slash] ++ comp } :=
    by simp [addComponent, hcomp.not_dotted]
  refine ⟨?_, fun c hc => ?_⟩
  · rw [hadd, joinComponents_concat, ← h.1]
    simp
  · rcases List.mem_append.1 hc with hc | hc
    · exact h.2 c hc
    · rw [List.mem_singleton.1 hc]
      exact hcomp

/-- A component of dots pops as many components as it has dots, unless there are none at all. -/
theorem addComponent_of_dotted {st : NormPath} {comps : List Bytes} {comp : Bytes}
    (h : IsStack st comps) (hcomp : isDotted comp = true) :
    IsStack (addComponent st comp) (comps.rdrop (countp comp dot)) ∧
      ((addComponent st comp).outOfBounds = true ↔
        st.outOfBounds = true ∨ comps ≠ [] ∧ comps.length < countp comp dot) := by
  have hadd : addComponent st comp =
      if st.normalized ≠ [] then truncate^[countp comp dot] st else st := by
    simp [addComponent, hcomp, not_isDotted_basename h]
  have hempty : st.normalized ≠ [] ↔ comps ≠ [] := by
    rw [h.1, ne_eq, joinComponents_eq_nil_iff]
  rw [hadd]
  by_cases hne : comps = []
  · rw [if_neg (by rwa [hempty, not_not]), hne, List.rdrop_nil]
    exact ⟨hne ▸ h, by simp⟩
  · rw [if_pos (hempty.2 hne), and_iff_right hne]
    exact h.iterate_truncate _

/-- What a component does to a stack. -/
def stackComponent (comps : List Bytes) (comp : Bytes) : List Bytes :=
  if isDotted comp then comps.rdrop (countp comp dot) else comps ++ [comp]

theorem stackComponent_of_name {comp : Bytes} (h : isDotted comp = false) (comps : List Bytes) :
    stackComponent comps comp = comps ++ [comp] := by
  simp [stackComponent, h]

/-- A component as it is read: not empty, and without delimiters. -/
def IsComponent (comp : Bytes) : Prop := comp ≠ [] ∧ NoDelim comp

/-- **Every component leaves a stack of components.** -/
theorem IsStack.addComponent {st : NormPath} {comps : List Bytes} {comp : Bytes}
    (h : IsStack st comps) (hcomp : IsComponent comp) :
    IsStack (addComponent st comp) (stackComponent comps comp) := by
  cases hd : isDotted comp
  · rw [stackComponent_of_name hd]
    exact addComponent_of_normal h ⟨hcomp.1, hcomp.2, hd⟩
  · rw [stackComponent, if_pos hd]
    exact (addComponent_of_dotted h hd).1

theorem IsStack.foldl_addComponent {st : NormPath} {comps cs : List Bytes} (h : IsStack st comps)
    (hcs : ∀ comp ∈ cs, IsComponent comp) :
    IsStack (cs.foldl Unalix.addComponent st) (cs.foldl stackComponent comps) := by
  induction cs generalizing st comps with
  | nil => exact h
  | cons comp cs ih =>
    rw [List.forall_mem_cons] at hcs
    exact ih (h.addComponent hcs.1) hcs.2

/-! ## The loop -/

/-- The characters that begin a suffix. -/
def IsSuffixStart (c : UInt8) : Prop := c = questionMark ∨ c = hashtag

instance (c : UInt8) : Decidable (IsSuffixStart c) :=
  inferInstanceAs (Decidable (c = questionMark ∨ c = hashtag))

/-- A suffix of a path that is left as it is. -/
def IsSuffixText (s : Bytes) : Prop := s = [] ∨ ∃ c x, s = c :: x ∧ IsSuffixStart c

/-- The components of a path, `comp` being the characters of the first one that have been read, and
the suffix that ends them. -/
def readComponents (comp : Bytes) : Bytes → List Bytes × Option Bytes
  | [] => (if comp = [] then [] else [comp], none)
  | ch :: path =>
    if ch = slash || ch = questionMark || ch = hashtag then
      if comp = [] then readComponents [] path
      else if ch = questionMark || ch = hashtag then ([comp], some (ch :: path))
      else (comp :: (readComponents [] path).1, (readComponents [] path).2)
    else readComponents (comp ++ [ch]) path

/-- **The loop adds the components** one after the other. -/
theorem normLoop_eq (st : NormPath) (comp path : Bytes) : normLoop st comp path =
    ((readComponents comp path).1.foldl addComponent st, (readComponents comp path).2) := by
  induction path generalizing st comp with
  | nil =>
    rw [normLoop, readComponents]
    split_ifs <;> rfl
  | cons ch path ih =>
    rw [normLoop, readComponents]
    split_ifs
    · exact ih st []
    · rfl
    · exact ih (addComponent st comp) []
    · exact ih st (comp ++ [ch])

theorem readComponents_slash_nil (path : Bytes) :
    readComponents [] (slash :: path) = readComponents [] path := by
  simp [readComponents]

theorem readComponents_slash {comp : Bytes} (h : comp ≠ []) (path : Bytes) :
    readComponents comp (slash :: path) =
      (comp :: (readComponents [] path).1, (readComponents [] path).2) := by
  have hq : ¬ (slash = questionMark) ∧ ¬ (slash = hashtag) := by decide
  simp [readComponents, h, hq]

theorem readComponents_suffixStart_nil {c : UInt8} (hc : IsSuffixStart c) (path : Bytes) :
    readComponents [] (c :: path) = readComponents [] path := by
  rcases hc with rfl | rfl <;> simp [readComponents]

theorem readComponents_suffixStart {c : UInt8} (hc : IsSuffixStart c) {comp : Bytes}
    (h : comp ≠ []) (path : Bytes) :
    readComponents comp (c :: path) = ([comp], some (c :: path)) := by
  rcases hc with rfl | rfl <;> simp [readComponents, h]

theorem readComponents_cons {ch : UInt8} (hch : ¬ IsDelim ch) (comp path : Bytes) :
    readComponents comp (ch :: path) = readComponents (comp ++ [ch]) path := by
  rw [IsDelim, not_or, not_or] at hch
  simp [readComponents, hch]

/-- The characters of a component are collected. -/
theorem readComponents_append {c : Bytes} (hc : NoDelim c) (comp path : Bytes) :
    readComponents comp (c ++ path) = readComponents (comp ++ c) path := by
  induction c generalizing comp with
  | nil => rw [List.nil_append, List.append_nil]
  | cons ch c ih =>
    have hc' : NoDelim c := fun x hx => hc x (List.mem_cons_of_mem ch hx)
    rw [List.cons_append, readComponents_cons (hc ch List.mem_cons_self), ih hc',
      List.append_assoc, List.singleton_append]

theorem noDelim_nil : NoDelim [] := by simp [NoDelim]

theorem NoDelim.concat {comp : Bytes} (h : NoDelim comp) {ch : UInt8} (hch : ¬ IsDelim ch) :
    NoDelim (comp ++ [ch]) := by
  intro x hx
  rcases List.mem_append.1 hx with hx | hx
  · exact h x hx
  · rwa [List.mem_singleton.1 hx]

/-- **What is read**: components, and an end of the path that begins with `?` or `#`. -/
theorem readComponents_spec {comp : Bytes} (hcomp : NoDelim comp) (path : Bytes) :
    (∀ c ∈ (readComponents comp path).1, IsComponent c) ∧
      text (readComponents comp path).2 <:+ path ∧
      IsSuffixText (text (readComponents comp path).2) := by
  induction path generalizing comp with
  | nil =>
    refine ⟨fun c hc => ?_, List.nil_suffix, .inl rfl⟩
    rw [readComponents] at hc
    split_ifs at hc with hnil
    · cases hc
    · rw [List.mem_singleton.1 hc]
      exact ⟨hnil, hcomp⟩
  | cons ch path ih =>
    by_cases hd : IsDelim ch
    · obtain ⟨hcs, hsuf, htext⟩ := ih noDelim_nil
      by_cases hnil : comp = []
      · have hstep : readComponents comp (ch :: path) = readComponents [] path := by
          rw [hnil]
          rcases hd with rfl | hd
          · exact readComponents_slash_nil path
          · exact readComponents_suffixStart_nil hd path
        rw [hstep]
        exact ⟨hcs, hsuf.trans (List.suffix_cons ch path), htext⟩
      · rcases hd with rfl | hd
        · rw [readComponents_slash hnil]
          exact ⟨List.forall_mem_cons.2 ⟨⟨hnil, hcomp⟩, hcs⟩,
            hsuf.trans (List.suffix_cons slash path), htext⟩
        · rw [readComponents_suffixStart hd hnil, List.forall_mem_singleton]
          exact ⟨⟨hnil, hcomp⟩, List.suffix_rfl, .inr ⟨ch, path, rfl, hd⟩⟩
    · obtain ⟨hcs, hsuf, htext⟩ := ih (hcomp.concat hd)
      rw [readComponents_cons hd]
      exact ⟨hcs, hsuf.trans (List.suffix_cons ch path), htext⟩

/-- A slash either belongs to the suffix, or the components on its two sides are read one after the
other. -/
theorem readComponents_cut (comp x y : Bytes) :
    (∃ s, readComponents comp (x ++ slash :: y) = ((readComponents comp x).1, some (s ++ slash :: y))) ∨
      readComponents comp (x ++ slash :: y) =
        ((readComponents comp x).1 ++ (readComponents [] y).1, (readComponents [] y).2) := by
  induction x generalizing comp with
  | nil =>
    right
    by_cases hnil : comp = []
    · rw [hnil, List.nil_append, readComponents_slash_nil]
      rfl
    · rw [List.nil_append, readComponents_slash hnil, readComponents, if_neg hnil]
      rfl
  | cons ch x ih =>
    rw [List.cons_append]
    by_cases hd : IsDelim ch
    · by_cases hnil : comp = []
      · subst hnil
        rcases hd with rfl | hd
        · simpa only [readComponents_slash_nil] using ih []
        · simpa only [readComponents_suffixStart_nil hd] using ih []
      · rcases hd with rfl | hd
        · rw [readComponents_slash hnil, readComponents_slash hnil]
          rcases ih [] with ⟨s, hs⟩ | hs
          · exact .inl ⟨s, by rw [hs]⟩
          · exact .inr (by rw [hs, List.cons_append])
        · left
          rw [readComponents_suffixStart hd hnil, readComponents_suffixStart hd hnil]
          exact ⟨ch :: x, rfl⟩
    · simpa only [readComponents_cons hd] using ih (comp ++ [ch])

/-- The components of a joined path are read back. -/
theorem readComponents_joinComponents {cs : List Bytes} {comp s : Bytes} (hcomp : comp ≠ [])
    (hcs : ∀ c ∈ cs, IsComponent c) (hs : IsSuffixText s) :
    (readComponents comp (joinComponents cs ++ s)).1 = comp :: cs ∧
      text (readComponents comp (joinComponents cs ++ s)).2 = s := by
  induction cs generalizing comp with
  | nil =>
    rw [joinComponents_nil, List.nil_append]
    rcases hs with rfl | ⟨c, x, rfl, hc⟩
    · rw [readComponents, if_neg hcomp]
      exact ⟨rfl, rfl⟩
    · rw [readComponents_suffixStart hc hcomp]
      exact ⟨rfl, rfl⟩
  | cons c cs ih =>
    rw [List.forall_mem_cons] at hcs
    have hjoin : joinComponents (c :: cs) ++ s = slash :: (c ++ (joinComponents cs ++ s)) := by
      simp [joinComponents]
    rw [hjoin, readComponents_slash hcomp, readComponents_append hcs.1.2, List.nil_append]
    obtain ⟨hread, htext⟩ := ih hcs.1.1 hcs.2
    exact ⟨by rw [hread], htext⟩

/-! ## The result -/

/-- The stack that the components of a path leave. -/
def pathStack (path : Bytes) : List Bytes := (readComponents [] path).1.foldl stackComponent []

/-- The suffix of a path. -/
def pathSuffix (path : Bytes) : Bytes := text (readComponents [] path).2

/-- The text of a stack, which is a slash when it is empty. -/
def pathText (comps : List Bytes) : Bytes := if comps = [] then [slash] else joinComponents comps

theorem isStack_nil : IsStack {} [] := ⟨rfl, by simp⟩

theorem isStack_pathStack (path : Bytes) :
    IsStack ((readComponents [] path).1.foldl addComponent {}) (pathStack path) :=
  isStack_nil.foldl_addComponent (readComponents_spec noDelim_nil path).1

/-- **The result** is the text of the stack and the suffix. -/
theorem httpnormpath_eq (path : Bytes) :
    httpnormpath path = pathText (pathStack path) ++ pathSuffix path := by
  simp only [httpnormpath, normLoop_eq, (isStack_pathStack path).1, joinComponents_eq_nil_iff,
    pathText, pathSuffix]

/-- **The result is a joined stack of components** and a suffix of the path. -/
theorem exists_httpnormpath_eq (path : Bytes) : ∃ comps s, httpnormpath path = pathText comps ++ s ∧
    (∀ comp ∈ comps, NormalComponent comp) ∧ s <:+ path ∧ IsSuffixText s := by
  obtain ⟨-, hsuf, htext⟩ := readComponents_spec noDelim_nil path
  exact ⟨_, _, httpnormpath_eq path, (isStack_pathStack path).2, hsuf, htext⟩

theorem not_isSuffixStart_slash : ¬ IsSuffixStart slash := by decide

theorem not_isSuffixStart_joinComponents {comps : List Bytes}
    (h : ∀ comp ∈ comps, NormalComponent comp) :
    ∀ c ∈ joinComponents comps, ¬ IsSuffixStart c := by
  intro c hc hs
  obtain ⟨comp, hcomp, hmem⟩ := List.mem_flatMap.1 hc
  rcases List.mem_cons.1 hmem with rfl | hmem
  · exact not_isSuffixStart_slash hs
  · exact (h comp hcomp).noDelim c hmem (.inr hs)

theorem not_isSuffixStart_pathText {comps : List Bytes}
    (h : ∀ comp ∈ comps, NormalComponent comp) :
    ∀ c ∈ pathText comps, ¬ IsSuffixStart c := by
  unfold pathText
  split_ifs
  · simpa using not_isSuffixStart_slash
  · exact not_isSuffixStart_joinComponents h

/-- Components that are not dots are pushed one after the other. -/
theorem foldl_stackComponent {cs : List Bytes} (h : ∀ c ∈ cs, isDotted c = false)
    (comps : List Bytes) : cs.foldl stackComponent comps = comps ++ cs := by
  induction cs generalizing comps with
  | nil => simp
  | cons c cs ih =>
    rw [List.forall_mem_cons] at h
    rw [List.foldl_cons, stackComponent_of_name h.1, ih h.2, List.append_assoc,
      List.singleton_append]

theorem NormalComponent.isComponent {comp : Bytes} (h : NormalComponent comp) : IsComponent comp :=
  ⟨h.ne_nil, h.noDelim⟩

/-- Behind a part of the path that ends with a slash, the rest is read from its beginning, or the
suffix contains all of it. -/
theorem pathStack_cut {base : Bytes} (hbase : base = [] ∨ ∃ x, base = x ++ [slash]) (y : Bytes) :
    y.length < (pathSuffix (base ++ y)).length ∨
      ∃ comps, pathStack (base ++ y) = (readComponents [] y).1.foldl stackComponent comps ∧
        pathSuffix (base ++ y) = pathSuffix y := by
  rcases hbase with rfl | ⟨x, rfl⟩
  · exact .inr ⟨[], rfl, rfl⟩
  · rw [List.append_assoc, List.singleton_append]
    rcases readComponents_cut [] x y with ⟨s, hs⟩ | hs
    · left
      simp only [pathSuffix, hs, text, Option.getD_some, List.length_append, List.length_cons]
      omega
    · right
      refine ⟨(readComponents [] x).1.foldl stackComponent [], ?_, ?_⟩
      · rw [pathStack, hs, List.foldl_append]
      · rw [pathSuffix, hs, pathSuffix]

/-- **No path is its own normal form behind a component that is kept.** -/
theorem httpnormpath_ne {base comp path : Bytes} (hbase : base = [] ∨ ∃ x, base = x ++ [slash])
    (hcomp : NormalComponent comp) : httpnormpath (base ++ (comp ++ path)) ≠ path := by
  intro heq
  have hpath := heq.symm.trans (httpnormpath_eq _)
  rcases pathStack_cut hbase (comp ++ path) with hlt | ⟨comps, hstack, hsuffix⟩
  · have hlen := congrArg List.length hpath
    simp only [List.length_append] at hlen hlt
    omega
  · obtain ⟨-, -, hs⟩ := readComponents_spec noDelim_nil (base ++ (comp ++ path))
    have hcs := (isStack_pathStack (base ++ (comp ++ path))).2
    change IsSuffixText (pathSuffix (base ++ (comp ++ path))) at hs
    have hread : readComponents [] (comp ++ path) = readComponents comp path :=
      readComponents_append hcomp.noDelim [] path
    have hrest : pathSuffix (comp ++ path) = text (readComponents comp path).2 := by
      rw [pathSuffix, hread]
    rw [hrest] at hsuffix
    rw [hread] at hstack
    -- the path is what it comes to, so it is read as a stack and a suffix once more
    generalize pathStack (base ++ (comp ++ path)) = cs at hpath hstack hcs
    generalize pathSuffix (base ++ (comp ++ path)) = s at hpath hsuffix hs
    rcases eq_or_ne cs [] with rfl | hne
    · rw [pathText, if_pos rfl, List.singleton_append] at hpath
      rw [hpath, readComponents_slash hcomp.ne_nil] at hstack hsuffix
      rcases hs with rfl | ⟨c, x, rfl, hc⟩
      · rw [readComponents, if_pos rfl, foldl_stackComponent (by simpa using hcomp.not_dotted)] at hstack
        simp at hstack
      · rw [readComponents_suffixStart_nil hc] at hsuffix
        have hle := (readComponents_spec noDelim_nil x).2.1.length_le
        rw [← hsuffix, List.length_cons] at hle
        omega
    · rw [pathText, if_neg hne] at hpath
      have hread := (readComponents_joinComponents hcomp.ne_nil
        (fun c hc => (hcs c hc).isComponent) hs).1
      have hnames : ∀ c ∈ comp :: cs, isDotted c = false :=
        List.forall_mem_cons.2 ⟨hcomp.not_dotted, fun c hc => (hcs c hc).not_dotted⟩
      rw [hpath, hread, foldl_stackComponent hnames] at hstack
      have hlen := congrArg List.length hstack
      simp only [List.length_append, List.length_cons] at hlen
      omega

end Unalix
