import Unalix.Foundations.Ascii

/-!
# Scanning a text by a format (`sscanf`)

White space in a format skips white space, another character has to be there, and a conversion reads
a number or a word. A word is all that comes before white space: a character of the format that is
to follow it directly is never found (`scan_word_text`).
-/

namespace Unalix.Scan

open Ascii

/-- White space, a character, `%d`, or `%s`; the word of `%*s` is not assigned. -/
inductive Directive
  | space
  | text (c : UInt8)
  | decimal
  | word (assigned : Bool)
  deriving DecidableEq, Repr

/-- What a conversion assigns. -/
inductive Value
  | int (n : ℤ)
  | string (s : Bytes)
  deriving DecidableEq, Repr

/-- The directive of a character outside of a conversion. -/
def literal (c : UInt8) : Directive := if isspace c then .space else .text c

/-- A percent sign, 37, begins a conversion, and an asterisk, 42, after it suppresses the
assignment. -/
def parseFormat : Bytes → Option (List Directive)
  | [] => some []
  | [c] => if c = 37 then none else some [literal c]
  | [c, d] =>
    if c ≠ 37 then do return literal c :: (← parseFormat [d])
    else if d = 100 then some [.decimal]
    else if d = 115 then some [.word true]
    else none
  | c :: d :: e :: rest =>
    if c ≠ 37 then do return literal c :: (← parseFormat (d :: e :: rest))
    else if d = 42 ∧ e = 115 then do return .word false :: (← parseFormat rest)
    else if d = 100 then do return .decimal :: (← parseFormat (e :: rest))
    else if d = 115 then do return .word true :: (← parseFormat (e :: rest))
    else none

example : parseFormat (str "%*s %d:%s") =
    some [.word false, .space, .decimal, .text 58, .word true] := by decide

/-- `%d`: white space, a sign and digits, of which there is at least one. -/
def readInt (s : Bytes) : Option (ℤ × Bytes) :=
  let s := s.dropWhile isspace
  let unsigned := if s.head? = some 45 ∨ s.head? = some 43 then s.drop 1 else s
  if unsigned.takeWhile isdigit = [] then none else some (atoi s, unsigned.dropWhile isdigit)

/-- `%s`: white space and a word. -/
def readWord (s : Bytes) : Option (Bytes × Bytes) :=
  let s := s.dropWhile isspace
  let word := s.takeWhile fun c => !isspace c
  if word = [] then none else some (word, s.dropWhile fun c => !isspace c)

/-- `sscanf`: the values that are assigned until a directive fails; their number is returned. -/
def scan : List Directive → Bytes → List Value
  | [], _ => []
  | .space :: format, s => scan format (s.dropWhile isspace)
  | .text c :: format, s =>
    match s with
    | [] => []
    | d :: s => if c = d then scan format s else []
  | .decimal :: format, s =>
    match readInt s with
    | none => []
    | some (n, s) => .int n :: scan format s
  | .word assigned :: format, s =>
    match readWord s with
    | none => []
    | some (word, s) => (if assigned then [.string word] else []) ++ scan format s

/-- What comes after a word begins with white space. -/
theorem isspace_of_readWord {s word rest : Bytes} (h : readWord s = some (word, rest)) :
    ∀ c ∈ rest.head?, isspace c = true := by
  simp only [readWord] at h
  split_ifs at h
  obtain ⟨-, rfl⟩ := Prod.mk.inj (Option.some.inj h)
  intro c hc
  have hne := List.head?_dropWhile_not (fun c => !isspace c) (s.dropWhile isspace)
  rw [Option.mem_def.1 hc] at hne
  simpa using hne

/-- **No character follows a word directly**: the scan ends with the word. -/
theorem scan_word_text {c : UInt8} (hc : isspace c = false) (assigned : Bool)
    (format : List Directive) (s : Bytes) :
    scan (.word assigned :: .text c :: format) s = scan [.word assigned] s := by
  simp only [scan]
  cases hread : readWord s with
  | none => rfl
  | some r =>
    obtain ⟨word, rest⟩ := r
    have hspace := isspace_of_readWord hread
    cases rest with
    | nil => rfl
    | cons d rest =>
      have hcd : c ≠ d := by
        rintro rfl
        rw [hspace c rfl] at hc
        exact absurd hc (by decide)
      simp only [if_neg hcd]

end Unalix.Scan
