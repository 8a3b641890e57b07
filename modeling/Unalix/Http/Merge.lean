import Unalix.Http.NormalPaths

/-!
# Relative references (`http.c`)

A relative reference is appended to the whole path of the request, not to its directory. The path
can hold a `?` or `#`, since `uri_parse` copies what comes after a `#` into the path as well, and at
the beginning of a segment `httpnormpath` skips it. So the reference is merged against the directory
if there is no path, or if what is left of the segments comes to the directory by chance
(`httpGetRedirect_merge_iff`). The dot segments make up for the mistake: the one component too many
that a `.` removes is the last one of the base (`httpGetRedirect_dotSlash`).
-/

namespace Unalix

open CString Ascii Outcome

/-! ## Directories -/

/-- A path up to its last slash, and with it. -/
def directory (path : Bytes) : Bytes := path.take (path.length - (basename path).length)

/-- Names with slashes between them, without `?` and `#`. -/
def IsNames (path : Bytes) : Prop :=
  ∃ segs, segs ≠ [] ∧ (∀ seg ∈ segs, NormalComponent seg) ∧ path = [slash].intercalate segs

theorem slash_intercalate {segs : List Bytes} (h : segs ≠ []) :
    slash :: [slash].intercalate segs = joinComponents segs := by
  cases segs with
  | nil => exact absurd rfl h
  | cons seg segs =>
    rw [intercalate_cons, joinComponents, List.flatMap_cons, List.cons_append, List.flatMap_def]

theorem IsNames.exists_joinComponents {path : Bytes} (h : IsNames path) :
    ∃ segs, segs ≠ [] ∧ (∀ seg ∈ segs, NormalComponent seg) ∧
      slash :: path = joinComponents segs := by
  obtain ⟨segs, hne, hsegs, rfl⟩ := h
  exact ⟨segs, hne, hsegs, slash_intercalate hne⟩

theorem directory_append {x comp : Bytes} (h : slash ∉ comp) :
    directory (x ++ slash :: comp) = x ++ [slash] := by
  rw [directory, basename_append h]
  have hassoc : x ++ slash :: comp = x ++ [slash] ++ comp := by simp
  rw [hassoc, List.length_append, Nat.add_sub_cancel, List.take_left' rfl]

theorem directory_of_not_mem {comp : Bytes} (h : slash ∉ comp) : directory comp = [] := by
  have hbase : basename comp = comp := by
    rw [basename, List.takeWhile_eq_self_iff.2, List.reverse_reverse]
    intro c hc
    simp only [ne_eq, decide_eq_true_eq]
    rintro rfl
    exact h (List.mem_reverse.1 hc)
  rw [directory, hbase, Nat.sub_self, List.take_zero]

/-- The directory of segments is all but the last one. -/
theorem slash_directory {path : Bytes} {segs : List Bytes}
    (hsegs : ∀ seg ∈ segs, IsSegment seg) (h : slash :: path = joinComponents segs) :
    slash :: directory path = joinComponents segs.dropLast ++ [slash] := by
  rcases segs.eq_nil_or_concat' with rfl | ⟨segs, last, rfl⟩
  · simp at h
  have hlast : slash ∉ last := (hsegs last (by simp)).2
  rw [joinComponents_concat] at h
  rw [List.dropLast_concat]
  rcases hjoin : joinComponents segs with _ | ⟨c, x⟩
  · rw [hjoin, List.nil_append] at h
    obtain ⟨-, rfl⟩ := List.cons.inj h
    rw [directory_of_not_mem hlast, List.nil_append]
  · rw [hjoin, List.cons_append] at h
    obtain ⟨rfl, rfl⟩ := List.cons.inj h
    rw [directory_append hlast, List.cons_append]

theorem head?_of_names {path : Bytes} {segs : List Bytes}
    (hsegs : ∀ seg ∈ segs, NormalComponent seg) (h : slash :: path = joinComponents segs) :
    path.head? ≠ some slash := by
  cases segs with
  | nil => simp at h
  | cons seg segs =>
    have hseg := hsegs seg (by simp)
    rw [joinComponents, List.flatMap_cons, List.cons_append] at h
    obtain ⟨-, rfl⟩ := List.cons.inj h
    rw [List.head?_append_of_ne_nil _ hseg.ne_nil]
    intro hhead
    exact hseg.noDelim.not_mem isDelim_slash (List.mem_of_head? hhead)

/-- Segments with slashes between them: none is empty, and none is a dot segment. -/
def IsSegments (path : Bytes) : Prop :=
  ∃ segs, segs ≠ [] ∧ (∀ seg ∈ segs, IsSegment seg ∧ isDotted seg = false) ∧
    path = [slash].intercalate segs

theorem joinComponents_inj {segs segs' : List Bytes} (h : ∀ seg ∈ segs, IsSegment seg)
    (h' : ∀ seg ∈ segs', IsSegment seg) :
    joinComponents segs = joinComponents segs' ↔ segs = segs' := by
  refine ⟨fun heq => ?_, fun heq => by rw [heq]⟩
  rw [← segments_joinComponents h, ← segments_joinComponents h', heq]

/-! ## What is read of a segment -/

/-- A segment without the `?` and `#` at its beginning. -/
def unmarked (seg : Bytes) : Bytes := seg.dropWhile fun c => IsSuffixStart c

/-- Nothing in a segment is read as the beginning of a suffix. -/
def Plain (seg : Bytes) : Prop := ∀ c ∈ unmarked seg, ¬ IsSuffixStart c

/-- The names that are read of plain segments. -/
def namesOf (segs : List Bytes) : List Bytes := (segs.map unmarked).filter (· ≠ [])

/-- One `?` or `#` at least, and nothing else. -/
def IsMarks (marks : Bytes) : Prop := marks ≠ [] ∧ ∀ c ∈ marks, IsSuffixStart c

theorem unmarked_of_marks {marks : Bytes} (h : ∀ c ∈ marks, IsSuffixStart c) (x : Bytes) :
    unmarked (marks ++ x) = unmarked x := by
  rw [unmarked, List.dropWhile_append_of_pos (by simpa using h)]
  rfl

theorem unmarked_of_noDelim {x : Bytes} (h : NoDelim x) : unmarked x = x := by
  cases x with
  | nil => rfl
  | cons c x =>
    have hc : ¬ IsSuffixStart c := fun hc => h c List.mem_cons_self (.inr hc)
    simp [unmarked, hc]

theorem NormalComponent.unmarked_eq {seg : Bytes} (h : NormalComponent seg) : unmarked seg = seg :=
  unmarked_of_noDelim h.noDelim

theorem exists_marks (seg : Bytes) :
    ∃ marks, (∀ c ∈ marks, IsSuffixStart c) ∧ seg = marks ++ unmarked seg := by
  refine ⟨seg.takeWhile fun c => IsSuffixStart c, fun c hc => ?_, ?_⟩
  · simpa using List.mem_takeWhile_imp hc
  · exact List.takeWhile_append_dropWhile.symm

theorem Plain.noDelim {seg : Bytes} (h : Plain seg) (hseg : IsSegment seg) :
    NoDelim (unmarked seg) := by
  rintro c hc (rfl | hd)
  · exact hseg.2 ((List.dropWhile_suffix _).subset hc)
  · exact h c hc hd

theorem isComponent_of_mem_namesOf {segs : List Bytes} (hsegs : ∀ seg ∈ segs, IsSegment seg)
    (hplain : ∀ seg ∈ segs, Plain seg) {comp : Bytes} (h : comp ∈ namesOf segs) :
    IsComponent comp := by
  obtain ⟨hmem, hnil⟩ := List.mem_filter.1 h
  obtain ⟨seg, hseg, rfl⟩ := List.mem_map.1 hmem
  exact ⟨by simpa using hnil, (hplain seg hseg).noDelim (hsegs seg hseg)⟩

theorem namesOf_append (segs segs' : List Bytes) :
    namesOf (segs ++ segs') = namesOf segs ++ namesOf segs' := by
  rw [namesOf, List.map_append, List.filter_append]
  rfl

theorem namesOf_of_normal {names : List Bytes} (h : ∀ name ∈ names, NormalComponent name) :
    namesOf names = names := by
  rw [namesOf, List.map_congr_left fun name hname => (h name hname).unmarked_eq, List.map_id',
    List.filter_eq_self.2 fun name hname => by simpa using (h name hname).ne_nil]

theorem readComponents_marks {marks : Bytes} (h : ∀ c ∈ marks, IsSuffixStart c) (path : Bytes) :
    readComponents [] (marks ++ path) = readComponents [] path := by
  induction marks with
  | nil => rfl
  | cons c marks ih =>
    rw [List.forall_mem_cons] at h
    rw [List.cons_append, readComponents_suffixStart_nil h.1, ih h.2]

/-- Of plain segments the names are read. -/
theorem readComponents_plain {segs : List Bytes} (hsegs : ∀ seg ∈ segs, IsSegment seg)
    (hplain : ∀ seg ∈ segs, Plain seg) (y : Bytes) :
    readComponents [] (joinComponents segs ++ slash :: y) =
      (namesOf segs ++ (readComponents [] y).1, (readComponents [] y).2) := by
  induction segs with
  | nil => exact readComponents_slash_nil y
  | cons seg segs ih =>
    rw [List.forall_mem_cons] at hsegs hplain
    obtain ⟨marks, hmarks, hseg⟩ := exists_marks seg
    obtain ⟨z, hz⟩ : ∃ z, joinComponents segs ++ slash :: y = slash :: z := by
      cases segs with
      | nil => exact ⟨y, rfl⟩
      | cons seg segs => exact ⟨_, rfl⟩
    have hrest := ih hsegs.2 hplain.2
    rw [hz, readComponents_slash_nil] at hrest
    have hjoin : joinComponents (seg :: segs) ++ slash :: y =
        slash :: (marks ++ (unmarked seg ++ slash :: z)) := by
      rw [← hz, ← List.append_assoc marks, ← hseg]
      simp [joinComponents]
    rw [hjoin, readComponents_slash_nil, readComponents_marks hmarks,
      readComponents_append (hplain.1.noDelim hsegs.1), List.nil_append]
    by_cases hnil : unmarked seg = []
    · rw [hnil, readComponents_slash_nil, hrest]
      simp [namesOf, hnil]
    · rw [readComponents_slash hnil, hrest]
      simp [namesOf, hnil]

theorem of_dropWhile_eq_cons {p : UInt8 → Bool} {l r : Bytes} {c : UInt8}
    (h : l.dropWhile p = c :: r) : p c = false := by
  have hhead := List.head_dropWhile_not p (by rw [h]; exact List.cons_ne_nil c r)
  simpa only [h, List.head_cons] using hhead

/-- A segment that is not plain has a name, and a suffix behind it. -/
theorem exists_suffix_of_not_plain {seg : Bytes} (hseg : IsSegment seg) (h : ¬ Plain seg) :
    ∃ marks name c r, (∀ c ∈ marks, IsSuffixStart c) ∧ name ≠ [] ∧ NoDelim name ∧
      IsSuffixStart c ∧ seg = marks ++ (name ++ c :: r) := by
  obtain ⟨marks, hmarks, heq⟩ := exists_marks seg
  have hcut := @List.takeWhile_append_dropWhile _ (fun c => ¬ IsSuffixStart c) (unmarked seg)
  have hname := fun c (hc : c ∈ (unmarked seg).takeWhile fun c => ¬ IsSuffixStart c) =>
    List.mem_takeWhile_imp hc
  generalize (unmarked seg).takeWhile (fun c => ¬ IsSuffixStart c) = name at hcut hname
  cases hsuffix : (unmarked seg).dropWhile fun c => ¬ IsSuffixStart c with
  | nil =>
    rw [hsuffix, List.append_nil] at hcut
    refine absurd (fun c hc => ?_) h
    rw [← hcut] at hc
    simpa using hname c hc
  | cons c r =>
    have hc : IsSuffixStart c := by simpa using of_dropWhile_eq_cons hsuffix
    rw [hsuffix] at hcut
    refine ⟨marks, name, c, r, hmarks, ?_, ?_, hc, by rw [hcut, ← heq]⟩
    · rintro rfl
      have hfirst : ¬ IsSuffixStart c := by simpa using of_dropWhile_eq_cons hcut.symm
      exact hfirst hc
    · rintro x hx (rfl | hd)
      · refine hseg.2 ?_
        rw [heq, ← hcut]
        exact List.mem_append_right _ (List.mem_append_left _ hx)
      · have hx' : ¬ IsSuffixStart x := by simpa only [decide_eq_true_eq] using hname x hx
        exact hx' hd

/-- The first of the segments that are not plain. -/
theorem exists_first_not_plain {segs : List Bytes} (h : ¬ ∀ seg ∈ segs, Plain seg) :
    ∃ pre seg post, segs = pre ++ seg :: post ∧ (∀ seg ∈ pre, Plain seg) ∧ ¬ Plain seg := by
  induction segs with
  | nil => exact absurd nofun h
  | cons seg segs ih =>
    by_cases hseg : Plain seg
    · rw [List.forall_mem_cons, and_iff_right hseg] at h
      obtain ⟨pre, seg', post, rfl, hpre, hnot⟩ := ih h
      exact ⟨seg :: pre, seg', post, rfl, List.forall_mem_cons.2 ⟨hseg, hpre⟩, hnot⟩
    · exact ⟨[], seg, segs, rfl, nofun, hseg⟩

/-! ## The base before a reference -/

/-- Segments that are read as all but the last one: the last one is a mark, or a single segment is
read as dots, or the suffix that begins in the second one repeats the first. -/
inductive ReadAsDirectory : List Bytes → Prop
  | marks {names : List Bytes} {marks : Bytes} (hnames : ∀ name ∈ names, NormalComponent name)
      (hmarks : IsMarks marks) : ReadAsDirectory (names ++ [marks])
  | dots {marks dots : Bytes} (hmarks : IsMarks marks) (hdots : isDotted dots = true) :
      ReadAsDirectory [marks ++ dots]
  | repeated {marks name marks' dots : Bytes} (n : ℕ) (hmarks : IsMarks marks)
      (hname : NoDelim name) (hmarks' : ∀ c ∈ marks', IsSuffixStart c)
      (hdots : isDotted dots = true) :
      ReadAsDirectory ((marks ++ name) ::
        List.replicate (n + 1) (marks' ++ (dots ++ (marks ++ name))))

theorem isComponent_of_isDotted {dots : Bytes} (h : isDotted dots = true) : IsComponent dots := by
  rcases isDotted_iff.1 h with rfl | rfl
  · exact ⟨by decide, by decide⟩
  · exact ⟨by decide, by decide⟩

theorem countp_pos_of_isDotted {dots : Bytes} (h : isDotted dots = true) : 0 < countp dots dot := by
  rcases isDotted_iff.1 h with rfl | rfl <;> decide

theorem stackComponent_of_length_le_one {comps : List Bytes} {dots : Bytes}
    (hcomps : comps.length ≤ 1) (h : isDotted dots = true) : stackComponent comps dots = [] := by
  have hcount := countp_pos_of_isDotted h
  rw [stackComponent, if_pos h, List.rdrop, List.take_eq_nil_iff]
  omega

/-- A dot segment takes something away. -/
theorem stackComponent_eq_self {comps : List Bytes} {comp : Bytes}
    (h : stackComponent comps comp = comps) : isDotted comp = true ∧ comps = [] := by
  have hlength := congrArg List.length h
  unfold stackComponent at hlength
  split_ifs at hlength with hdots
  · refine ⟨hdots, List.eq_nil_of_length_eq_zero ?_⟩
    have hcount := countp_pos_of_isDotted hdots
    rw [List.rdrop, List.length_take] at hlength
    omega
  · rw [List.length_append, List.length_singleton] at hlength
    omega

theorem eq_replicate_of_dropLast {a : Bytes} {l : List Bytes} (h : l = (a :: l).dropLast) :
    l = List.replicate l.length a := by
  induction l with
  | nil => rfl
  | cons b l ih =>
    rw [List.dropLast_cons_cons] at h
    obtain ⟨rfl, hrest⟩ := List.cons.inj h
    rw [List.length_cons, List.replicate_succ, ← ih hrest]

section Base

variable {segs rsegs : List Bytes}

theorem readComponents_names (hr : ∀ seg ∈ rsegs, NormalComponent seg) {y : Bytes}
    (h : joinComponents rsegs = slash :: y) : readComponents [] y = (rsegs, none) := by
  have hstart := not_isSuffixStart_joinComponents hr
  rw [h, List.forall_mem_cons] at hstart
  rw [readComponents_eq_segments noDelim_nil hstart.2, List.nil_append, ← segments_cons_slash, ← h,
    segments_joinComponents fun seg hseg => (hr seg hseg).isSegment]

/-- Before a reference, plain segments leave the stack of their names. -/
theorem httpnormpath_plain (hsegs : ∀ seg ∈ segs, IsSegment seg) (hplain : ∀ seg ∈ segs, Plain seg)
    (hr : ∀ seg ∈ rsegs, NormalComponent seg) (hne : rsegs ≠ []) :
    httpnormpath (joinComponents segs ++ joinComponents rsegs) =
      joinComponents ((namesOf segs).foldl stackComponent [] ++ rsegs) := by
  obtain ⟨y, hy⟩ : ∃ y, joinComponents rsegs = slash :: y := by
    cases rsegs with
    | nil => exact absurd rfl hne
    | cons seg rsegs => exact ⟨_, rfl⟩
  have hread := readComponents_plain hsegs hplain y
  rw [readComponents_names hr hy, ← hy] at hread
  rw [httpnormpath_eq, pathStack, pathSuffix, hread, List.foldl_append,
    foldl_stackComponent fun seg hseg => (hr seg hseg).not_dotted, pathText,
    if_neg (by simp [hne])]
  exact List.append_nil _

/-- The first suffix ends what is read. -/
theorem httpnormpath_suffix {pre post : List Bytes} {marks name r : Bytes} {c : UInt8}
    (hpre : ∀ seg ∈ pre, IsSegment seg) (hplain : ∀ seg ∈ pre, Plain seg)
    (hmarks : ∀ c ∈ marks, IsSuffixStart c) (hne : name ≠ []) (hname : NoDelim name)
    (hc : IsSuffixStart c) (x : Bytes) :
    httpnormpath (joinComponents (pre ++ (marks ++ (name ++ c :: r)) :: post) ++ x) =
      pathText ((namesOf pre ++ [name]).foldl stackComponent []) ++
        (c :: r ++ joinComponents post) ++ x := by
  have hjoin : joinComponents (pre ++ (marks ++ (name ++ c :: r)) :: post) ++ x =
      joinComponents pre ++ slash :: (marks ++ (name ++ c :: (r ++ joinComponents post ++ x))) := by
    simp [joinComponents]
  rw [hjoin, httpnormpath_eq, pathStack, pathSuffix, readComponents_plain hpre hplain,
    readComponents_marks hmarks, readComponents_append hname, List.nil_append,
    readComponents_suffixStart hc hne, List.append_assoc]
  simp [text]

/-- Plain segments are read as their directory. -/
theorem readAsDirectory_of_plain (hsegs : ∀ seg ∈ segs, IsSegment seg ∧ isDotted seg = false)
    (hplain : ∀ seg ∈ segs, Plain seg) (hne : segs ≠ [])
    (h : (namesOf segs).foldl stackComponent [] = segs.dropLast) : ReadAsDirectory segs := by
  rcases segs.eq_nil_or_concat' with rfl | ⟨names, last, rfl⟩
  · exact absurd rfl hne
  rw [List.dropLast_concat] at h
  have hlast := hsegs last (by simp)
  obtain ⟨marks, hmarks, heq⟩ := exists_marks last
  have hcomps : ∀ comp ∈ namesOf (names ++ [last]), IsComponent comp := fun comp =>
    isComponent_of_mem_namesOf (fun seg hseg => (hsegs seg hseg).1) hplain
  have hnames : ∀ name ∈ names, NormalComponent name := by
    rw [← h]
    exact (isStack_nil.foldl_addComponent hcomps).2
  rw [namesOf_append, namesOf_of_normal hnames, List.foldl_append,
    foldl_stackComponent fun name hname => (hnames name hname).not_dotted, List.nil_append] at h
  by_cases hnil : unmarked last = []
  · rw [hnil, List.append_nil] at heq
    exact .marks hnames ⟨hlast.1.1, fun c hc => hmarks c (by rwa [← heq])⟩
  · have hone : namesOf [last] = [unmarked last] := by simp [namesOf, hnil]
    rw [hone] at h
    obtain ⟨hdots, rfl⟩ := stackComponent_eq_self h
    have hmarks' : marks ≠ [] := by
      rintro rfl
      rw [List.nil_append] at heq
      rw [← heq, hlast.2] at hdots
      cases hdots
    rw [List.nil_append, heq]
    exact .dots ⟨hmarks', hmarks⟩ hdots

section Suffix

variable {pre post : List Bytes} {marks name r : Bytes} {c : UInt8}

/-- A suffix that begins the directory repeats the first segment. -/
theorem readAsDirectory_of_first (hsegs : ∀ seg ∈ pre, IsSegment seg)
    (hplain : ∀ seg ∈ pre, Plain seg) (hmarks : ∀ c ∈ marks, IsSuffixStart c)
    (hdots : isDotted name = true) (hc : IsSuffixStart c)
    (h : (c :: r) :: post = (pre ++ (marks ++ (name ++ c :: r)) :: post).dropLast) :
    ReadAsDirectory (pre ++ (marks ++ (name ++ c :: r)) :: post) := by
  obtain ⟨p, rfl⟩ : ∃ p, pre = [p] := by
    have hlength := congrArg List.length h
    simp only [List.length_cons, List.length_dropLast, List.length_append] at hlength
    exact List.length_eq_one_iff.1 (by omega)
  rw [List.singleton_append, List.dropLast_cons_cons] at h
  obtain ⟨hp, hrest⟩ := List.cons.inj h
  have hplainP := hplain p (by simp)
  have hsegP := hsegs p (by simp)
  obtain ⟨marks', hmarks', heq⟩ := exists_marks p
  have hnoDelim := hplainP.noDelim hsegP
  have hne : marks' ≠ [] := by
    rintro rfl
    rw [List.nil_append] at heq
    rw [Plain, ← heq, ← hp] at hplainP
    exact hplainP c List.mem_cons_self hc
  rw [List.singleton_append, eq_replicate_of_dropLast hrest, hp, heq]
  generalize unmarked p = name' at hnoDelim
  exact .repeated post.length ⟨hne, hmarks'⟩ hnoDelim hmarks hdots

/-- No plain segment has the suffix behind a name. -/
theorem ne_dropLast_of_name {comps : List Bytes} {last x : Bytes} (hlast : NormalComponent last)
    (hplain : ∀ seg ∈ pre, Plain seg) (hc : IsSuffixStart c) :
    comps ++ (last ++ c :: r) :: post ≠ (pre ++ x :: post).dropLast := by
  intro h
  have hlength := congrArg List.length h
  simp only [List.length_cons, List.length_dropLast, List.length_append] at hlength
  rcases pre.eq_nil_or_concat' with rfl | ⟨pre, p, rfl⟩
  · rw [List.length_nil] at hlength
    omega
  rw [List.length_append, List.length_singleton] at hlength
  rw [List.append_assoc, List.singleton_append, List.dropLast_append_of_ne_nil (by simp),
    List.dropLast_cons_cons] at h
  obtain ⟨-, hrest⟩ := List.append_inj h (by omega)
  obtain ⟨hp, -⟩ := List.cons.inj hrest
  obtain ⟨d, y, rfl⟩ := List.exists_cons_of_ne_nil hlast.ne_nil
  have hd : ¬ IsSuffixStart d := fun hd => hlast.noDelim d List.mem_cons_self (.inr hd)
  have hplainP := hplain p (by simp)
  have hunmarked : unmarked p = p := by
    rw [← hp, unmarked, List.cons_append, List.dropWhile_cons_of_neg (by simpa using hd)]
  rw [Plain, hunmarked, ← hp] at hplainP
  exact hplainP c (by simp) hc

/-- A suffix is read as the directory when it repeats the first segment. -/
theorem readAsDirectory_of_suffix
    (hsegs : ∀ seg ∈ pre ++ (marks ++ (name ++ c :: r)) :: post, IsSegment seg)
    (hplain : ∀ seg ∈ pre, Plain seg) (hmarks : ∀ c ∈ marks, IsSuffixStart c) (hne : name ≠ [])
    (hname : NoDelim name) (hc : IsSuffixStart c)
    (h : pathText ((namesOf pre ++ [name]).foldl stackComponent []) ++
        (c :: r ++ joinComponents post) =
      joinComponents (pre ++ (marks ++ (name ++ c :: r)) :: post).dropLast) :
    ReadAsDirectory (pre ++ (marks ++ (name ++ c :: r)) :: post) := by
  have hpre : ∀ seg ∈ pre, IsSegment seg := fun seg hmem => hsegs seg (List.mem_append_left _ hmem)
  have hcomps : ∀ comp ∈ namesOf pre ++ [name], IsComponent comp := by
    intro comp hcomp
    rcases List.mem_append.1 hcomp with hcomp | hcomp
    · exact isComponent_of_mem_namesOf hpre hplain hcomp
    · rw [List.mem_singleton.1 hcomp]
      exact ⟨hne, hname⟩
  have hstack := (isStack_nil.foldl_addComponent hcomps).2
  have hseg := hsegs (marks ++ (name ++ c :: r)) (by simp)
  have hpost : ∀ seg ∈ post, IsSegment seg := fun seg hmem => hsegs seg (by simp [hmem])
  have hslash : slash ∉ c :: r := fun hmem =>
    hseg.2 (List.mem_append_right _ (List.mem_append_right _ hmem))
  have hdrop : ∀ seg ∈ (pre ++ (marks ++ (name ++ c :: r)) :: post).dropLast, IsSegment seg :=
    fun seg hmem => hsegs seg (List.mem_of_mem_dropLast hmem)
  rcases ((namesOf pre ++ [name]).foldl stackComponent []).eq_nil_or_concat' with
    hnil | ⟨comps, last, hconcat⟩
  · -- the suffix comes first, so it is the first segment
    rw [hnil, pathText, if_pos rfl] at h
    have hjoin : [slash] ++ (c :: r ++ joinComponents post) = joinComponents ((c :: r) :: post) :=
      rfl
    rw [hjoin, joinComponents_inj (List.forall_mem_cons.2 ⟨⟨List.cons_ne_nil c r, hslash⟩, hpost⟩)
      hdrop] at h
    have hdots : isDotted name = true := by
      by_contra hnot
      rw [List.foldl_append, List.foldl_cons, List.foldl_nil,
        stackComponent_of_name (by simpa using hnot)] at hnil
      simp at hnil
    exact readAsDirectory_of_first hpre hplain hmarks hdots hc h
  · -- the suffix is behind a name, and no plain segment has one there
    have hlast : NormalComponent last := hstack last (by rw [hconcat]; simp)
    have hsegLast : IsSegment (last ++ c :: r) :=
      ⟨by simp, fun hmem => (List.mem_append.1 hmem).elim hlast.isSegment.2 hslash⟩
    have hjoin : joinComponents (comps ++ [last]) ++ (c :: r ++ joinComponents post) =
        joinComponents (comps ++ (last ++ c :: r) :: post) := by
      simp [joinComponents]
    rw [hconcat, pathText, if_neg (by simp), hjoin,
      joinComponents_inj (List.forall_mem_append.2
        ⟨fun seg hmem => (hstack seg (by rw [hconcat]; simp [hmem])).isSegment,
          List.forall_mem_cons.2 ⟨hsegLast, hpost⟩⟩) hdrop] at h
    exact absurd h (ne_dropLast_of_name hlast hplain hc)

end Suffix

theorem httpnormpath_of_readAsDirectory (hsegs : ∀ seg ∈ segs, IsSegment seg)
    (hr : ∀ seg ∈ rsegs, NormalComponent seg) (hrne : rsegs ≠ []) (h : ReadAsDirectory segs) :
    httpnormpath (joinComponents segs ++ joinComponents rsegs) =
      joinComponents segs.dropLast ++ joinComponents rsegs := by
  cases h with
  | @marks names marks hnames hmarks =>
    have hunmarked : unmarked marks = [] := by
      rw [← List.append_nil marks, unmarked_of_marks hmarks.2]
      rfl
    have hplain : ∀ seg ∈ names ++ [marks], Plain seg := by
      refine List.forall_mem_append.2 ⟨fun seg hseg c hc hs => ?_, ?_⟩
      · rw [(hnames seg hseg).unmarked_eq] at hc
        exact (hnames seg hseg).noDelim c hc (.inr hs)
      · simp [Plain, hunmarked]
    have hread : namesOf (names ++ [marks]) = names := by
      rw [namesOf_append, namesOf_of_normal hnames]
      simp [namesOf, hunmarked]
    rw [httpnormpath_plain hsegs hplain hr hrne, hread,
      foldl_stackComponent fun name hname => (hnames name hname).not_dotted, List.nil_append,
      List.dropLast_concat, joinComponents_append]
  | @dots marks dots hmarks hdots =>
    have hcomp := isComponent_of_isDotted hdots
    have hunmarked : unmarked (marks ++ dots) = dots := by
      rw [unmarked_of_marks hmarks.2, unmarked_of_noDelim hcomp.2]
    have hplain : ∀ seg ∈ [marks ++ dots], Plain seg := by
      rw [List.forall_mem_singleton, Plain, hunmarked]
      exact fun c hc hs => hcomp.2 c hc (.inr hs)
    have hread : namesOf [marks ++ dots] = [dots] := by simp [namesOf, hunmarked, hcomp.1]
    rw [httpnormpath_plain hsegs hplain hr hrne, hread, List.foldl_cons, List.foldl_nil,
      stackComponent_of_length_le_one (Nat.zero_le _) hdots]
    rfl
  | @repeated marks name marks' dots n hmarks hname hmarks' hdots =>
    have hcomp := isComponent_of_isDotted hdots
    obtain ⟨c, rest, rfl⟩ := List.exists_cons_of_ne_nil hmarks.1
    have hunmarked : unmarked (c :: rest ++ name) = name := by
      rw [unmarked_of_marks hmarks.2, unmarked_of_noDelim hname]
    have hplain : ∀ seg ∈ [c :: rest ++ name], Plain seg := by
      rw [List.forall_mem_singleton, Plain, hunmarked]
      exact fun c hc hs => hname c hc (.inr hs)
    have hempty : (namesOf [c :: rest ++ name] ++ [dots]).foldl stackComponent [] = [] := by
      rw [List.foldl_append, List.foldl_cons, List.foldl_nil]
      refine stackComponent_of_length_le_one ?_ hdots
      rw [namesOf, List.map_singleton, hunmarked]
      by_cases hnil : name = []
      · simp [hnil]
      · have hweight : weight name ≤ 1 := by
          unfold weight
          split_ifs <;> omega
        have hlength := length_stackComponent [] name
        rw [List.length_nil] at hlength
        rw [List.filter_eq_self.2 (by simpa using hnil), List.foldl_cons, List.foldl_nil]
        omega
    have hsuffix := @httpnormpath_suffix [c :: rest ++ name]
      (List.replicate n (marks' ++ (dots ++ (c :: rest ++ name)))) marks' dots (rest ++ name) c
      (List.forall_mem_singleton.2 (hsegs _ List.mem_cons_self)) hplain hmarks' hcomp.1 hcomp.2
      (hmarks.2 c List.mem_cons_self) (joinComponents rsegs)
    rw [hempty, pathText, if_pos rfl] at hsuffix
    rw [List.dropLast_cons_of_ne_nil (by simp), List.dropLast_replicate, List.replicate_succ]
    refine hsuffix.trans ?_
    simp [joinComponents]

/-- **The base before a reference is read as its directory** in three cases. -/
theorem httpnormpath_base_iff (hsegs : ∀ seg ∈ segs, IsSegment seg ∧ isDotted seg = false)
    (hne : segs ≠ []) (hr : ∀ seg ∈ rsegs, NormalComponent seg) (hrne : rsegs ≠ []) :
    httpnormpath (joinComponents segs ++ joinComponents rsegs) =
      joinComponents segs.dropLast ++ joinComponents rsegs ↔ ReadAsDirectory segs := by
  have hsegs' : ∀ seg ∈ segs, IsSegment seg := fun seg hseg => (hsegs seg hseg).1
  constructor
  · intro h
    by_cases hplain : ∀ seg ∈ segs, Plain seg
    · have hstack : ∀ seg ∈ (namesOf segs).foldl stackComponent [], IsSegment seg := fun seg hseg =>
        ((isStack_nil.foldl_addComponent fun comp =>
          isComponent_of_mem_namesOf hsegs' hplain).2 seg hseg).isSegment
      rw [httpnormpath_plain hsegs' hplain hr hrne, joinComponents_append,
        List.append_cancel_right_eq, joinComponents_inj hstack
          fun seg hseg => hsegs' seg (List.mem_of_mem_dropLast hseg)] at h
      exact readAsDirectory_of_plain hsegs hplain hne h
    · obtain ⟨pre, seg, post, rfl, hpre, hnot⟩ := exists_first_not_plain hplain
      obtain ⟨marks, name, c, r, hmarks, hname, hnoDelim, hc, rfl⟩ :=
        exists_suffix_of_not_plain (hsegs' seg (by simp)) hnot
      rw [httpnormpath_suffix (fun seg hseg => hsegs' seg (List.mem_append_left _ hseg)) hpre hmarks
        hname hnoDelim hc, List.append_cancel_right_eq] at h
      exact readAsDirectory_of_suffix hsegs' hpre hmarks hname hnoDelim hc h
  · exact httpnormpath_of_readAsDirectory hsegs' hr hrne

end Base

/-- A dot between names takes the last name before it away. -/
theorem httpnormpath_dot {base segs : List Bytes} (hbase : ∀ seg ∈ base, NormalComponent seg)
    (hsegs : ∀ seg ∈ segs, NormalComponent seg) (hne : segs ≠ []) :
    httpnormpath (joinComponents base ++ slash :: dot :: joinComponents segs) =
      joinComponents (base.dropLast ++ segs) := by
  obtain ⟨rest, hjoin⟩ : ∃ rest, joinComponents segs = slash :: rest := by
    cases segs with
    | nil => exact absurd rfl hne
    | cons seg segs => exact ⟨_, rfl⟩
  have hrest : segments rest = segs := by
    rw [← segments_cons_slash, ← hjoin,
      segments_joinComponents fun c hc => (hsegs c hc).isSegment]
  have hstart : ∀ c ∈ joinComponents base ++ slash :: dot :: joinComponents segs,
      ¬ IsSuffixStart c :=
    List.forall_mem_append.2 ⟨not_isSuffixStart_joinComponents hbase,
      List.forall_mem_cons.2 ⟨not_isSuffixStart_slash,
        List.forall_mem_cons.2 ⟨by decide, not_isSuffixStart_joinComponents hsegs⟩⟩⟩
  have hsegments : segments (joinComponents base ++ slash :: dot :: joinComponents segs) =
      base ++ [dot] :: segs := by
    have hdot : segments (dot :: slash :: rest) = [dot] :: segs := by
      rw [← hrest]
      exact segments_append [dot] rest
    rw [segments_append, segments_joinComponents fun c hc => (hbase c hc).isSegment, hjoin, hdot]
  have hpop : stackComponent base [dot] = base.dropLast := by
    rw [List.dropLast_eq_take]
    rfl
  rw [httpnormpath_eq_pathText hstart, pathStack_eq hstart, hsegments, List.foldl_append,
    foldl_stackComponent fun c hc => (hbase c hc).not_dotted, List.nil_append, List.foldl_cons,
    hpop, foldl_stackComponent fun c hc => (hsegs c hc).not_dotted, pathText,
    if_neg (by simp [hne])]

section Relative

variable {request : HTTPRequest} {response : HTTPResponse} {connection : Connection}
  {scheme reference : Bytes} {host location : HTTPHeader}

/-- A value that does not begin with a slash or with `http` is appended to the base. -/
theorem httpGetRedirect_relative (hscheme : request.uri.scheme = some scheme)
    (hhost : httpHeadersGet request.headers hostKey = some host)
    (hstatus : isRedirectStatus response.status.code = true)
    (hlocation : httpHeadersGet response.headers httpHeaderLocation = some location)
    (hslash : location.value.head? ≠ some slash) (hhttp : ¬ httpScheme <+: location.value) :
    httpGetRedirect ⟨request, response, connection⟩ =
      .ok (some (scheme ++ schemeSeparator ++ host.value ++
        httpnormpath (redirectBase request ++ location.value))) := by
  have hhttps : ¬ httpsScheme <+: location.value := fun hp =>
    hhttp (isPrefix_httpScheme_of_https hp)
  simp [httpGetRedirect, joinRedirect, hlocation, hstatus, hhttp, hhttps, hslash, hhost, hscheme,
    deref]

/-- What a reference is appended to, and what it should be appended to. -/
theorem exists_redirectBase {P : Bytes → Prop} (hP : ∀ seg, P seg → IsSegment seg)
    (h : ∀ path ∈ request.uri.path, ∃ segs, segs ≠ [] ∧ (∀ seg ∈ segs, P seg) ∧
      path = [slash].intercalate segs) :
    ∃ base, (∀ seg ∈ base, P seg) ∧
      (∀ path, request.uri.path = some path → base = path.splitOn slash) ∧
      (base = [] ↔ request.uri.path = none) ∧
      redirectBase request = joinComponents base ++ [slash] ∧
      [slash] ++ directory (text request.uri.path) = joinComponents base.dropLast ++ [slash] := by
  cases hpath : request.uri.path with
  | none => exact ⟨[], by simp, by simp, by simp, by simp [redirectBase, hpath], by decide⟩
  | some path =>
    obtain ⟨segs, hne, hsegs, rfl⟩ := h path hpath
    have hjoin := slash_intercalate hne
    refine ⟨segs, hsegs, ?_, by simp [hne], ?_, slash_directory (fun seg hseg => hP seg (hsegs seg hseg))
      hjoin⟩
    · rintro _ ⟨⟩
      exact (List.splitOn_intercalate slash (fun seg hseg => (hP seg (hsegs seg hseg)).2) hne).symm
    · rw [← hjoin]
      simp [redirectBase, hpath]

/-- **Relative references are merged** against the directory of the base if and only if the request
has no path, or its segments are read as the directory. -/
theorem httpGetRedirect_merge_iff (hscheme : request.uri.scheme = some scheme)
    (hhost : httpHeadersGet request.headers hostKey = some host)
    (hpath : ∀ path ∈ request.uri.path, IsSegments path)
    (hstatus : isRedirectStatus response.status.code = true)
    (hlocation : httpHeadersGet response.headers httpHeaderLocation = some location)
    (hnames : IsNames location.value) (hhttp : ¬ httpScheme <+: location.value) :
    httpGetRedirect ⟨request, response, connection⟩ =
        .ok (some (scheme ++ schemeSeparator ++ host.value ++
          ([slash] ++ directory (text request.uri.path) ++ location.value))) ↔
      ∀ path, request.uri.path = some path → ReadAsDirectory (path.splitOn slash) := by
  obtain ⟨base, hbase, hsplit, hnone, heq, hdirectory⟩ :=
    exists_redirectBase (fun seg hseg => hseg.1) hpath
  obtain ⟨segs, hne, hsegs, hjoin⟩ := hnames.exists_joinComponents
  have hslash : location.value.head? ≠ some slash := head?_of_names hsegs hjoin
  rw [httpGetRedirect_relative hscheme hhost hstatus hlocation hslash hhttp, ok_some_inj,
    List.append_cancel_left_eq, heq, hdirectory, List.append_assoc, List.append_assoc,
    List.singleton_append, hjoin]
  cases hpath : request.uri.path with
  | none =>
    obtain rfl := hnone.2 hpath
    refine iff_of_true ?_ nofun
    have hstart := not_isSuffixStart_joinComponents hsegs
    rw [joinComponents_nil, List.nil_append, httpnormpath_of_segments hsegs hstart
      (segments_joinComponents fun seg hseg => (hsegs seg hseg).isSegment), pathText, if_neg hne]
    rfl
  | some path =>
    have hbaseNe : base ≠ [] := by
      rw [ne_eq, hnone, hpath]
      exact Option.some_ne_none path
    rw [httpnormpath_base_iff hbase hbaseNe hsegs hne, hsplit path hpath]
    exact ⟨fun h _ hsome => Option.some.inj hsome ▸ h, fun h => h path rfl⟩

/-- A `#` behind the last slash is kept in the path, and skipped. -/
theorem httpGetRedirect_merge_marked :
    let request := (httpRequestSetUrl {} (str "http://example.com/a/#")).toOption.getD {}
    httpGetRedirect ⟨request, redirectExample (str "c"), {}⟩ =
      .ok (some (str "http" ++ schemeSeparator ++ str "example.com" ++
        ([slash] ++ directory (text request.uri.path) ++ str "c"))) := by
  intro request
  have hpath : request.uri.path = some (str "a/#") := by rfl
  have hsegments : IsSegments (str "a/#") := ⟨[str "a", str "#"], by decide, by decide, by decide⟩
  have hnames : IsNames (str "c") := ⟨[str "c"], by decide, by decide, by decide⟩
  have hread : ReadAsDirectory ([str "a"] ++ [str "#"]) := .marks (by decide) ⟨by decide, by decide⟩
  have hscheme : request.uri.scheme = some (str "http") := by rfl
  have hhost : httpHeadersGet request.headers hostKey = some ⟨hostKey, str "example.com"⟩ := by rfl
  have hlocation : httpHeadersGet (redirectExample (str "c")).headers httpHeaderLocation =
      some ⟨httpHeaderLocation, str "c"⟩ := by rfl
  refine (httpGetRedirect_merge_iff hscheme hhost ?_ (by decide) hlocation hnames (by decide)).2 ?_
  · rintro path hmem
    obtain rfl := Option.some.inj (hpath.symm.trans hmem)
    exact hsegments
  · rintro path hmem
    obtain rfl := Option.some.inj (hpath.symm.trans hmem)
    have hsplit : (str "a/#").splitOn slash = [str "a"] ++ [str "#"] := by decide
    rw [hsplit]
    exact hread

/-- The whole path of the request stays in front of the reference. -/
theorem not_httpGetRedirect_merge_path : ∃ request,
    httpRequestSetUrl {} (str "http://example.com/a/b") = .ok request ∧
      httpGetRedirect ⟨request, redirectExample (str "c"), {}⟩ =
        .ok (some (str "http://example.com/a/b/c")) ∧
      httpGetRedirect ⟨request, redirectExample (str "c"), {}⟩ ≠
        .ok (some (str "http" ++ schemeSeparator ++ str "example.com" ++
          ([slash] ++ directory (text request.uri.path) ++ str "c"))) := by
  refine ⟨_, rfl, rfl, fun heq => ?_⟩
  have hresult : str "http://example.com/a/b/c" = str "http://example.com/a/c" :=
    ok_some_inj.1 heq
  exact absurd hresult (by decide)

/-- **After `./` the same reference is merged**: the dot removes the last component of the base. -/
theorem httpGetRedirect_dotSlash (hscheme : request.uri.scheme = some scheme)
    (hhost : httpHeadersGet request.headers hostKey = some host)
    (hpath : ∀ path ∈ request.uri.path, IsNames path)
    (hstatus : isRedirectStatus response.status.code = true)
    (hlocation : httpHeadersGet response.headers httpHeaderLocation = some location)
    (hvalue : location.value = [dot, slash] ++ reference) (hnames : IsNames reference) :
    httpGetRedirect ⟨request, response, connection⟩ =
      .ok (some (scheme ++ schemeSeparator ++ host.value ++
        ([slash] ++ directory (text request.uri.path) ++ reference))) := by
  obtain ⟨base, hbase, -, -, heq, hdirectory⟩ :=
    exists_redirectBase (fun seg (hseg : NormalComponent seg) => hseg.isSegment) hpath
  obtain ⟨segs, hne, hsegs, hjoin⟩ := hnames.exists_joinComponents
  have hslash : location.value.head? ≠ some slash := by
    rw [hvalue]
    intro hhead
    exact absurd (Option.some.inj hhead) (by decide)
  have hhttp : ¬ httpScheme <+: location.value := by
    rw [hvalue]
    intro hp
    exact absurd (List.cons_prefix_cons.1 hp).1 (by decide)
  have hwhole : redirectBase request ++ location.value =
      joinComponents base ++ slash :: dot :: joinComponents segs := by
    rw [heq, hvalue, ← hjoin]
    simp
  have hresult : httpnormpath (redirectBase request ++ location.value) =
      [slash] ++ directory (text request.uri.path) ++ reference := by
    rw [hwhole, httpnormpath_dot hbase hsegs hne, joinComponents_append, ← hjoin, hdirectory,
      List.append_assoc, List.singleton_append]
  rw [httpGetRedirect_relative hscheme hhost hstatus hlocation hslash hhttp, hresult]

end Relative

end Unalix
