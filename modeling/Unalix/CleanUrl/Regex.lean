import Unalix.Foundations.Ascii
import Unalix.Foundations.CString
import Unalix.Foundations.Deletion
import Unalix.Errors

/-!
# Regular expressions (`regex.c`)

The library uses three functions of PCRE2 on compiled patterns: one to compile them, one to match a
subject and one to delete every match from it. They are parameters of the model, `compile` of the
loader and the two fields of `Pcre`.

`regex_strip` gives the substitution an output as long as its subject, terminator included. So a
text that does not get shorter is an error of the substitution, and stays as it was.
-/

namespace Unalix

/-- What PCRE2 does with a compiled pattern and a subject. -/
structure Pcre (Code : Type) where
  /-- `pcre2_match`: the vector of offsets of the first match, two for the match and two for each
  group of the pattern; nothing when the code returned is not positive. -/
  pcre2Match : Code → Bytes → Option (List ℕ)
  /-- The subject after a global substitution by the empty text, nothing on an error. -/
  substitute : Code → Bytes → Option Bytes

/-- `PCRE2_UNSET`, the largest `size_t`. -/
def pcre2Unset : ℕ := 2 ^ 64 - 1

variable {Code : Type}

/-- `pcre2_substitute`: the text must fit an output of `size` bytes with its terminator. -/
def pcre2Substitute (pcre : Pcre Code) (pattern : Code) (subject : Bytes) (size : ℕ) :
    Option Bytes :=
  match pcre.substitute pattern subject with
  | none => none
  | some output => if output.length + 1 ≤ size then some output else none

/-- What is left is shorter, since its output has no byte more. -/
theorem length_lt_of_pcre2Substitute {pcre : Pcre Code} {pattern : Code} {subject output : Bytes}
    (h : pcre2Substitute pcre pattern subject subject.length = some output) :
    output.length < subject.length := by
  unfold pcre2Substitute at h
  split at h
  · cases h
  · split_ifs at h with hfits
    cases h
    exact hfits

/-- `regex_match`. -/
def regexMatch (pcre : Pcre Code) (pattern : Code) (subject : Bytes) : Bool :=
  (pcre.pcre2Match pattern subject).isSome

/-- `regex_strip`: what is left of the text, nothing for the null pointer. An error of the
substitution leaves `PCRE2_UNSET` in the length of the output, and then no byte is copied. -/
def regexStrip (pcre : Pcre Code) (pattern : Code) (destination : Bytes) : Option Bytes :=
  if regexMatch pcre pattern destination then
    match pcre2Substitute pcre pattern destination destination.length with
    | none => some destination
    | some output => if output.length < 1 then none else some output
  else some destination

/-- A global substitution by the empty text takes matches out of the subject, so what is left is a
subsequence of it. -/
def Pcre.Deletes (pcre : Pcre Code) : Prop :=
  ∀ pattern subject output, pcre.substitute pattern subject = some output →
    output.Sublist subject

/-- What the three ends of `regex_strip` leave: the text as it was, nothing, or a shorter text. -/
theorem regexStrip_cases (pcre : Pcre Code) (pattern : Code) (destination : Bytes) :
    regexStrip pcre pattern destination = some destination ∨
      regexStrip pcre pattern destination = none ∨
      ∃ output, regexStrip pcre pattern destination = some output ∧ output ≠ [] ∧
        pcre.substitute pattern destination = some output := by
  unfold regexStrip pcre2Substitute
  split
  · cases h : pcre.substitute pattern destination with
    | none => exact .inl rfl
    | some output =>
      by_cases hfit : output.length + 1 ≤ destination.length
      · cases output with
        | nil =>
          right
          left
          simp only [if_pos hfit]
          rfl
        | cons c output =>
          refine .inr (.inr ⟨c :: output, ?_, List.cons_ne_nil c output, rfl⟩)
          simp only [if_pos hfit]
          rfl
      · left
        simp only [if_neg hfit]
  · exact .inl rfl

/-- `regex_strip` only deletes. -/
theorem regexStrip_sublist {pcre : Pcre Code} (h : pcre.Deletes) {pattern : Code}
    {destination output : Bytes} (hdestination : destination ≠ [])
    (hstrip : regexStrip pcre pattern destination = some output) :
    output ≠ [] ∧ output.Sublist destination := by
  rcases regexStrip_cases pcre pattern destination with heq | heq | ⟨text, heq, hne, hsub⟩
  · rw [heq, Option.some.injEq] at hstrip
    subst hstrip
    exact ⟨hdestination, List.Sublist.refl _⟩
  · rw [heq] at hstrip
    cases hstrip
  · rw [heq, Option.some.injEq] at hstrip
    subst hstrip
    exact ⟨hne, h _ _ _ hsub⟩

/-! ## Two kinds of patterns -/

/-- Patterns whose matching is a search for a text. -/
inductive Pattern
  /-- A text without metacharacters. -/
  | literal (text : Bytes)
  /-- Such a text and `(.*)`, which takes the rest of the line. -/
  | capture (text : Bytes)
  deriving DecidableEq, Repr

namespace Pattern

open CString Deletion

/-- `pcre2_compile` on these patterns. -/
def compile (src : Bytes) : Option Pattern :=
  if str "(.*)" <:+ src then some (capture (src.take (src.length - 4))) else some (literal src)

/-- What `.*` takes. -/
def line (s : Bytes) : Bytes := s.takeWhile (· ≠ 10)

/-- The length of the match at a place. -/
def matchLength : Pattern → Bool → Bytes → ℕ
  | literal text, _, s => if text <+: s then text.length else 0
  | capture text, _, s =>
    if text <+: s then text.length + (line (s.drop text.length)).length else 0

/-- PCRE2 on these patterns. -/
def pcre : Pcre Pattern where
  pcre2Match pattern subject :=
    match pattern with
    | literal text => (strstr subject text).map fun rest =>
      let start := subject.length - rest.length
      [start, start + text.length]
    | capture text => (strstr subject text).map fun rest =>
      let start := subject.length - rest.length
      let group := start + text.length
      let stop := group + (line (rest.drop text.length)).length
      [start, stop, group, stop]
  substitute pattern subject := some (deleteAll pattern.matchLength 0 true subject)

theorem pcre_deletes : pcre.Deletes := by
  intro pattern subject output h
  simp only [pcre, Option.some.injEq] at h
  subst h
  exact deleteAll_sublist _ _ _ _

end Pattern

end Unalix
