import Unalix.Foundations.RegexPaste
import Unalix.Ruleset.Load
import Unalix.Query

/-!
# Extending a rule (`ruleset.c`)

The loader pastes a rule between `(?:^|&|\?)` and `(?:=[^&]*)?` and compiles the text. This means a
match of the first, then one of the rule, then one of the last, as long as every `|` of the rule
stands in a group (`keepsMeaning_of_not_outerBar`). The text puts no group around the rule, so
with a `|` outside the groups only the first alternative needs what is in front, only the last
one takes a value, and the meaning is another one for every rule (`not_keepsMeaning_of_outerBar`).
-/

namespace Unalix

open Regex

/-! ## What surrounds a rule -/

def prefixExtendedPattern : Bytes := str "(?:^|&|\\?)"

def suffixExtendedPattern : Bytes := str "(?:=[^&]*)?"

theorem extendedPattern_eq (src : Bytes) :
    extendedPattern src = prefixExtendedPattern ++ src ++ suffixExtendedPattern := rfl

/-- The expression for what stands in front of a rule. -/
def prefixExpr : Expr UInt8 := alts [[.char questionMark], [.char andSign], [.start]]

/-- The expression for what stands behind a rule. -/
def suffixExpr : Expr UInt8 :=
  .rep 0 (some 1) (seqs [.rep 0 none (.noneOf [andSign]), .char equalSign])

theorem begins_prefix : Begins prefixExtendedPattern prefixExpr := rfl

theorem ends_suffix : Ends suffixExtendedPattern suffixExpr := by
  intro st t h
  refine ⟨⟨[], push suffixExpr t.base, .repetition, .plain⟩, _, ?_, rfl, rfl⟩
  have hgroup := run_group h
  rw [show suffixExtendedPattern = str "(?:" ++ str "=[^&]*)?" from rfl, run_append, hgroup,
    Option.bind_some]
  rfl

theorem compile_prefix : compile prefixExtendedPattern = some (seqs [prefixExpr]) := rfl

theorem compile_suffix : compile suffixExtendedPattern = some (seqs [suffixExpr]) := rfl

theorem denotes_prefixExpr {start : Bool} {u : Bytes} : prefixExpr.Denotes start u ↔
    (start = true ∧ u = []) ∨ u = [andSign] ∨ u = [questionMark] := by
  show ((seqs [.start]).Denotes start u ∨ (seqs [.char andSign]).Denotes start u) ∨
    (seqs [.char questionMark]).Denotes start u ↔ _
  rw [denotes_seqs_singleton, denotes_seqs_singleton, denotes_seqs_singleton, or_assoc]
  rfl

theorem denotes_suffixExpr {start : Bool} {t : Bytes} : suffixExpr.Denotes start t ↔
    t = [] ∨ ∃ value, t = equalSign :: value ∧ andSign ∉ value := by
  have hvalue {start : Bool} {t : Bytes} :
      (seqs [.rep 0 none (.noneOf [andSign]), .char equalSign]).Denotes start t ↔
        ∃ value, t = equalSign :: value ∧ andSign ∉ value := by
    show cat (seqs [.char equalSign]).Denotes (Expr.rep 0 none (.noneOf [andSign])).Denotes
      start t ↔ _
    rw [denotes_seqs_singleton]
    constructor
    · rintro ⟨_, value, rfl, rfl, hmem⟩
      refine ⟨value, rfl, fun hand => ?_⟩
      exact denotes_rep_noneOf.1 hmem andSign hand (List.mem_singleton.2 rfl)
    · rintro ⟨value, rfl, hand⟩
      refine ⟨[equalSign], value, rfl, rfl, denotes_rep_noneOf.2 ?_⟩
      rintro c hc hmem
      exact hand (List.mem_singleton.1 hmem ▸ hc)
  constructor
  · rintro ⟨n, -, hn, h⟩
    rcases n with _ | _ | n
    · exact .inl h
    · rw [pow, pow, unit_cat] at h
      exact .inr (hvalue.1 h)
    · have := hn 1 rfl
      omega
  · rintro (rfl | h)
    · exact ⟨0, le_rfl, by simp, rfl⟩
    · refine ⟨1, Nat.zero_le 1, by simp, ?_⟩
      rw [pow, pow, unit_cat]
      exact hvalue.2 h

/-! ## Meanings -/

/-- The pattern matches the word, at the start of the subject or elsewhere. -/
def Matches (src : Bytes) (start : Bool) (w : Bytes) : Prop :=
  ∃ e, compile src = some e ∧ e.Denotes start w

/-- A match of what is in front, then one of the rule, then one of what is behind. -/
def MatchesBetween (src : Bytes) (start : Bool) (w : Bytes) : Prop :=
  ∃ u v t, u ++ (v ++ t) = w ∧ Matches prefixExtendedPattern start u ∧
    Matches src (start && u.isEmpty) v ∧
    Matches suffixExtendedPattern (start && u.isEmpty && v.isEmpty) t

/-- The pattern that is compiled for the rule matches exactly these words. -/
def KeepsMeaning (name src : Bytes) : Prop :=
  ∃ e, regexCompile compile (itemPattern name src) = .ok e ∧
    ∀ start w, e.Denotes start w ↔ MatchesBetween src start w

theorem matches_iff {src : Bytes} {e : Expr UInt8} (h : compile src = some e) {start : Bool}
    {w : Bytes} : Matches src start w ↔ e.Denotes start w := by
  simp [Matches, h]

theorem matchesBetween_iff {src : Bytes} {e : Expr UInt8} (h : compile src = some e) {start : Bool}
    {w : Bytes} : MatchesBetween src start w ↔
      cat prefixExpr.Denotes (cat e.Denotes suffixExpr.Denotes) start w := by
  simp only [MatchesBetween, matches_iff h, matches_iff compile_prefix, matches_iff compile_suffix,
    denotes_seqs_singleton]
  constructor
  · rintro ⟨u, v, t, rfl, hu, hv, ht⟩
    exact ⟨u, v ++ t, rfl, hu, v, t, rfl, hv, ht⟩
  · rintro ⟨u, _, rfl, hu, v, t, rfl, hv, ht⟩
    exact ⟨u, v, t, rfl, hu, hv, ht⟩

/-- **A rule without a bar outside its groups** keeps its meaning. -/
theorem keepsMeaning_of_not_outerBar {name src : Bytes} {e : Expr UInt8}
    (hname : shouldModifyPattern name = true) (h : compile src = some e) (hbar : ¬ OuterBar src) :
    KeepsMeaning name src := by
  obtain ⟨e', hcompile, hdenotes⟩ := denotes_between begins_prefix ends_suffix h hbar
  refine ⟨e', ?_, fun start w => ?_⟩
  · rw [itemPattern, if_pos hname, extendedPattern_eq, regexCompile, hcompile]
  · rw [hdenotes, matchesBetween_iff h]

/-- An array of such rules is loaded, and each of them keeps its meaning. -/
theorem loadItems_keepMeaning {name : Bytes} (hname : shouldModifyPattern name = true)
    {srcs : List Bytes} (h : ∀ src ∈ srcs, (compile src).isSome = true ∧ ¬ OuterBar src) :
    ∃ codes, loadItems compile name (srcs.map .string) = .ok codes ∧
      List.Forall₂ (fun src code => ∀ start w, code.Denotes start w ↔ MatchesBetween src start w)
        srcs codes := by
  induction srcs with
  | nil => exact ⟨[], rfl, .nil⟩
  | cons src srcs ih =>
    rw [List.forall_mem_cons] at h
    obtain ⟨⟨hcompile, hbar⟩, hrest⟩ := h
    obtain ⟨e, he⟩ := Option.isSome_iff_exists.1 hcompile
    obtain ⟨code, hcode, hmeaning⟩ := keepsMeaning_of_not_outerBar hname he hbar
    obtain ⟨codes, hcodes, hall⟩ := ih hrest
    refine ⟨code :: codes, ?_, .cons hmeaning hall⟩
    rw [List.map_cons, loadItems, hcode, Outcome.ok_bind, hcodes]
    rfl

/-! ## Rules with a bar outside their groups -/

/-- The words of a branch. -/
def branchLang (items : List (Expr UInt8)) : Lang UInt8 := (seqs items).Denotes

/-- The words of all branches. -/
def anyBranch (branches : Branches) : Lang UInt8 := fun start w =>
  ∃ items ∈ branches, branchLang items start w

/-- A shortest word of some branches. -/
theorem exists_shortest {branches : Branches} (hne : branches ≠ [])
    (h : ∀ items ∈ branches, Plain 255 (branchLang items)) :
    ∃ w, anyBranch branches true w ∧
      ∀ start v, anyBranch branches start v → w.length ≤ v.length := by
  classical
  obtain ⟨items, hitems⟩ := List.exists_mem_of_ne_nil branches hne
  obtain ⟨w, hw⟩ := (h items hitems).inhabited
  have hex : ∃ n w, anyBranch branches true w ∧ w.length = n := ⟨_, w, ⟨items, hitems, hw⟩, rfl⟩
  obtain ⟨short, hshort, hlength⟩ := Nat.find_spec hex
  refine ⟨short, hshort, ?_⟩
  rintro start v ⟨items, hitems, hv⟩
  rw [hlength]
  exact Nat.find_min' hex ⟨v, ⟨items, hitems, (h items hitems).anywhere hv⟩, rfl⟩

section Alternatives

variable {first last : List (Expr UInt8)} {middle : Branches} {w : Bytes}

/-- The words of the extended rule, whose branches are the last one with a value, those in the
middle and the first one with what is in front. -/
def ExtendedLang (last : List (Expr UInt8)) (middle : Branches) (first : List (Expr UInt8)) :
    Lang UInt8 := fun start w =>
  cat (branchLang last) suffixExpr.Denotes start w ∨ anyBranch middle start w ∨
    cat prefixExpr.Denotes (branchLang first) start w

/-- The extended rule, branch by branch. -/
theorem denotes_extended :
    (alts ((suffixExpr :: last) :: (middle ++ [first ++ [prefixExpr]]))).Denotes =
      ExtendedLang last middle first := by
  funext start w
  have hfirst : branchLang (first ++ [prefixExpr]) = cat prefixExpr.Denotes (branchLang first) :=
    denotes_seqs_concat first prefixExpr
  rw [denotes_alts (List.cons_ne_nil _ _), ExtendedLang, ← hfirst]
  apply propext
  constructor
  · rintro ⟨items, hitems, h⟩
    rcases List.mem_cons.1 hitems with rfl | hitems
    · exact .inl h
    · rcases List.mem_append.1 hitems with hitems | hitems
      · exact .inr (.inl ⟨items, hitems, h⟩)
      · exact .inr (.inr (List.mem_singleton.1 hitems ▸ h))
  · rintro (h | ⟨items, hitems, h⟩ | h)
    · exact ⟨_, List.mem_cons_self, h⟩
    · exact ⟨items, by simp [hitems], h⟩
    · exact ⟨_, by simp, h⟩

/-- Elsewhere than at the start, what is in front of a rule is a character. -/
theorem length_lt_of_between {L : Lang UInt8} (h : cat prefixExpr.Denotes (cat L suffixExpr.Denotes)
    false w) : ∃ v, L false v ∧ v.length < w.length := by
  obtain ⟨u, _, rfl, hu, v, t, rfl, hv, -⟩ := h
  refine ⟨v, hv, ?_⟩
  have hlength : u.length = 1 := by
    rcases denotes_prefixExpr.1 hu with ⟨hstart, -⟩ | rfl | rfl
    · cases hstart
    · rfl
    · rfl
  simp only [List.length_append]
  omega

/-- At the start, a word of the rule may be followed by a value. -/
theorem between_value {L : Lang UInt8} (h : L true w) {value : Bytes} (hvalue : andSign ∉ value) :
    cat prefixExpr.Denotes (cat L suffixExpr.Denotes) true (w ++ equalSign :: value) :=
  ⟨[], _, rfl, denotes_prefixExpr.2 (.inl ⟨rfl, rfl⟩), w, _, rfl, h,
    denotes_suffixExpr.2 (.inr ⟨value, rfl, hvalue⟩)⟩

/-- Nothing but a value adds a new letter to a shortest word. -/
theorem extendedLang_value (hplain : ∀ items ∈ last :: middle ++ [first], Plain 255 (branchLang items))
    (hshort : ∀ start v, branchLang last start v → w.length ≤ v.length)
    (h : ExtendedLang last middle first true (w ++ [equalSign, 255])) : branchLang last true w := by
  have hmem : (255 : UInt8) ∈ w ++ [equalSign, 255] := by simp
  rcases h with ⟨v, t, heq, hv, ht⟩ | ⟨items, hitems, hv⟩ | ⟨u, v, heq, hu, hv⟩
  · have hlast := (hplain last (by simp)).avoids hv
    rcases denotes_suffixExpr.1 ht with rfl | ⟨value, rfl, -⟩
    · rw [← heq, List.append_nil] at hmem
      exact absurd hmem hlast
    · have hle := hshort true v hv
      rcases List.append_eq_append_iff.1 heq with ⟨rest, rfl, -⟩ | ⟨rest, rfl, hrest⟩
      · rw [List.length_append] at hle
        rw [List.length_eq_zero_iff.1 (show rest.length = 0 by omega), List.append_nil]
        exact hv
      · cases rest with
        | nil => rwa [List.append_nil] at hv
        | cons c rest =>
          rw [List.cons_append, List.cons.injEq] at hrest
          cases rest with
          | nil => exact absurd (List.cons.inj hrest.2).1 (by decide)
          | cons d rest => simp at hrest
  · exact absurd hmem ((hplain items (by simp [hitems])).avoids hv)
  · have hfirst := (hplain first (by simp)).avoids hv
    rw [← heq, List.mem_append] at hmem
    rcases hmem with hmem | hmem
    · rcases denotes_prefixExpr.1 hu with ⟨-, rfl⟩ | rfl | rfl
      · cases hmem
      · exact absurd hmem (by decide)
      · exact absurd hmem (by decide)
    · exact absurd hmem hfirst

/-- With more than one branch, the extended rule has another meaning. -/
theorem extendedLang_ne (hplain : ∀ items ∈ last :: middle ++ [first], Plain 255 (branchLang items)) :
    ¬ ∀ start w, ExtendedLang last middle first start w ↔
      cat prefixExpr.Denotes (cat (anyBranch (last :: middle ++ [first])) suffixExpr.Denotes)
        start w := by
  intro hsame
  obtain ⟨w, hw, hshort⟩ := exists_shortest (by simp) hplain
  -- elsewhere than at the start such a word is too short to have something in front
  have hnot : ¬ ExtendedLang last middle first false w := by
    intro h
    obtain ⟨v, hv, hlt⟩ := length_lt_of_between ((hsame false w).1 h)
    exact absurd (hshort false v hv) (by omega)
  have hvalue : andSign ∉ [(255 : UInt8)] := by decide
  have hlast := extendedLang_value hplain
    (fun start v hv => hshort start v ⟨last, by simp, hv⟩)
    ((hsame true _).2 (between_value hw hvalue))
  refine hnot (.inl ⟨w, [], List.append_nil w, ?_, denotes_suffixExpr.2 (.inl rfl)⟩)
  exact (hplain last (by simp)).anywhere hlast

end Alternatives

/-- **A rule with a bar outside its groups** does not keep its meaning. -/
theorem not_keepsMeaning_of_outerBar {name src : Bytes} {e : Expr UInt8}
    (hname : shouldModifyPattern name = true) (h : compile src = some e) (hbasic : e.Basic)
    (hsrc : 255 ∉ src) (hbar : OuterBar src) : ¬ KeepsMeaning name src := by
  rintro ⟨e', hcompile, hlang⟩
  obtain ⟨branches, hparse, rfl⟩ := Option.map_eq_some_iff.1 h
  obtain ⟨branches', ⟨later, first, rfl, rfl⟩, hbetween⟩ :=
    parse_between begins_prefix ends_suffix hparse
  have hlength := (two_le_length_parse_iff hparse).2 hbar
  rcases later with _ | ⟨last, middle⟩
  · exact absurd hlength (by simp)
  have hplain : ∀ items ∈ last :: middle ++ [first], Plain 255 (branchLang items) := by
    intro items hitems
    have hwritten := written_seqs (notIn_parse hsrc hparse items hitems)
    exact (alts_basic hbasic hitems).plain hwritten
  have hextended : e' = alts ((suffixExpr :: last) :: (middle ++ [first ++ [prefixExpr]])) := by
    rw [itemPattern, if_pos hname, extendedPattern_eq, regexCompile, compile, hbetween] at hcompile
    exact (Except.ok.inj hcompile).symm
  apply extendedLang_ne hplain
  intro start w
  have hany : (alts (last :: middle ++ [first])).Denotes = anyBranch (last :: middle ++ [first]) := by
    funext start w
    exact propext (denotes_alts (by simp) start w)
  rw [← hany, ← matchesBetween_iff h, ← hlang, hextended, denotes_extended]

/-! ## The rules that keep their meaning -/

/-- **A rule keeps its meaning when it is extended** if and only if every bar in it stands in a
group. The rule is made of literal characters, groups, alternatives and repetitions; the strings of
a JSON text are UTF-8, in which the byte 255 does not occur. -/
theorem keepsMeaning_iff {name src : Bytes} {e : Expr UInt8}
    (hname : shouldModifyPattern name = true) (h : compile src = some e) (hbasic : e.Basic)
    (hsrc : 255 ∉ src) : KeepsMeaning name src ↔ ¬ OuterBar src := by
  constructor
  · intro hkeeps hbar
    exact not_keepsMeaning_of_outerBar hname h hbasic hsrc hbar hkeeps
  · exact keepsMeaning_of_not_outerBar hname h

/-- An alternative in a group. -/
theorem keepsMeaning_group :
    KeepsMeaning rulesKey (str "utm_(?:id|term)+") ↔ ¬ OuterBar (str "utm_(?:id|term)+") := by
  have hcompile : compile (str "utm_(?:id|term)+") = some (seqs
      [.rep 1 none (.alt (seqs [.char 100, .char 105])
        (seqs [.char 109, .char 114, .char 101, .char 116])),
        .char 95, .char 109, .char 116, .char 117]) := by
    decide +kernel
  exact keepsMeaning_iff (by decide) hcompile (by simp [seqs, Expr.Basic]) (by decide)

/-- The second alternative of this rule is found anywhere. -/
theorem not_keepsMeaning_alternative :
    (∃ e, compile (str "a|b") = some e ∧ e.Basic) ∧
      (∃ e, regexCompile compile (itemPattern rulesKey (str "a|b")) = .ok e ∧
        e.Denotes false (str "b")) ∧
      ¬ MatchesBetween (str "a|b") false (str "b") ∧ ¬ KeepsMeaning rulesKey (str "a|b") := by
  have hcompile : compile (str "a|b") = some (.alt (seqs [.char 97]) (seqs [.char 98])) := by decide
  have hextended : regexCompile compile (itemPattern rulesKey (str "a|b")) =
      .ok (alts [[suffixExpr, .char 98], [.char 97, prefixExpr]]) := by
    rfl
  have hfound : (alts [[suffixExpr, .char 98], [.char 97, prefixExpr]]).Denotes false (str "b") :=
    .inr ⟨[98], [], rfl, ⟨[], [98], rfl, rfl, rfl⟩, denotes_suffixExpr.2 (.inl rfl)⟩
  have hnot : ¬ MatchesBetween (str "a|b") false (str "b") := by
    rw [matchesBetween_iff hcompile]
    intro h
    obtain ⟨v, hv, hlength⟩ := length_lt_of_between h
    obtain rfl : v = [] := List.length_eq_zero_iff.1 (Nat.lt_one_iff.1 hlength)
    rcases hv with ⟨u, v, huv, -, rfl⟩ | ⟨u, v, huv, -, rfl⟩
    · simp at huv
    · simp at huv
  refine ⟨⟨_, hcompile, by simp [seqs, Expr.Basic]⟩, ⟨_, hextended, hfound⟩, hnot, ?_⟩
  rintro ⟨e, he, hmeaning⟩
  rw [hextended, Except.ok.injEq] at he
  exact hnot ((hmeaning false (str "b")).1 (he ▸ hfound))

end Unalix
