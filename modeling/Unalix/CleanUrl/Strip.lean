import Unalix.Foundations.Buffers
import Unalix.CleanUrl.Regex

/-!
# Stripping in memory (`regex.c`)

`regex_strip` has `pcre2_substitute` write to an array as long as the text, without a byte for the
terminator, does not look at what it returns, and copies as many bytes back as the length it has
set and one more. Where the text does not fit, or PCRE2 fails, that length is `PCRE2_UNSET`, the
largest `size_t`, and one more is zero. So the text is what is left of it without the matches, or
as it was, and every copy stays in its array (`regexStrip_exact`).
-/

namespace Unalix

open Buffers Deletion

/-- What a global search for a pattern in a subject comes to: the matches that were found, the offsets
of the groups of the first one, and whether an error ended the search. -/
structure GlobalMatches (subject : Bytes) extends Cut subject where
  groups : List ℕ := []
  failed : Bool := false

/-- What compiled patterns find in their subjects. -/
abbrev Searcher (Code : Type) := Code → (subject : Bytes) → GlobalMatches subject

variable {Code : Type}

/-- PCRE2 with such patterns: a match is the first one of the global search, and a substitution by the
empty text takes out all of them. -/
def Searcher.pcre (searcher : Searcher Code) : Pcre Code where
  pcre2Match pattern subject :=
    match (searcher pattern subject).pieces with
    | [] => none
    | (kept, found) :: _ =>
      some (kept.length :: (kept ++ found).length :: (searcher pattern subject).groups)
  substitute pattern subject :=
    if (searcher pattern subject).failed then none else some (searcher pattern subject).deleted

/-- What `regex_strip` leaves of a text: without its matches, unless the search fails; nothing instead
of an empty text. -/
def strippedText {subject : Bytes} (found : GlobalMatches subject) : Option Bytes :=
  if found.failed then some subject else if found.deleted = [] then none else some found.deleted

/-! ## The function -/

/-- `pcre2_substitute` into an array: the array and the length it sets. When it fails it has written
`spoiled` up to the end of the array. -/
def pcre2SubstituteInto (output : Buffer UInt8) (spoiled : Bytes) (result : Option Bytes) :
    Buffer UInt8 × ℕ :=
  match result with
  | none => (output.memcpyEnd (spoiled.take output.size), pcre2Unset)
  | some result =>
    if result.length + 1 ≤ output.size then (output.strcpy result, result.length)
    else (output.memcpyEnd (spoiled.take output.size), pcre2Unset)

/-- What `regex_strip` leaves behind: the text, if it was not released, the array for the output, and
how many of its bytes were copied back. -/
structure StripBuffers where
  destination : Option (Buffer UInt8)
  output : Buffer UInt8
  copied : ℕ

/-- `regex_strip` over its arrays; `sizeof(output)` and the number of bytes are a `size_t`. -/
def regexStripBuffers (pcre : Pcre Code) (pattern : Code) (spoiled : Bytes)
    (destination : Buffer UInt8) : StripBuffers :=
  let subject := destination.content
  if regexMatch pcre pattern subject then
    let output := Buffer.ofSize subject.length
    let (output, outputLength) :=
      pcre2SubstituteInto output spoiled (pcre.substitute pattern subject)
    if outputLength < 1 then { destination := none, output := output, copied := 0 }
    else
      let count := (outputLength + 1) % 2 ^ 64
      { destination := some (destination.strncpy output.content count)
        output := output
        copied := count }
  else { destination := some destination, output := Buffer.ofSize 0, copied := 0 }

/-- Every copy stays in the arrays it goes between. -/
structure StripBuffers.Fits (b : StripBuffers) : Prop where
  destination : ∀ destination ∈ b.destination, destination.Fits
  output : b.output.Fits
  copied : b.copied ≤ b.output.size

/-! ## Its two readings -/

/-- Without a match there is nothing to take out. -/
theorem strippedText_of_pieces_nil {subject : Bytes} {found : GlobalMatches subject}
    (h : found.pieces = []) (hne : subject ≠ []) : strippedText found = some subject := by
  have hdeleted : found.deleted = subject := by
    apply found.deleted_of_forall_nil
    rw [h]
    simp
  rw [strippedText, hdeleted, if_neg hne, ite_self]

theorem regexMatch_pcre (searcher : Searcher Code) (pattern : Code) (subject : Bytes) :
    regexMatch searcher.pcre pattern subject = true ↔ (searcher pattern subject).pieces ≠ [] := by
  cases hpieces : (searcher pattern subject).pieces <;> simp [regexMatch, Searcher.pcre, hpieces]

/-- **The function without its arrays** leaves the stripped text. -/
theorem regexStrip_pcre (searcher : Searcher Code) (pattern : Code) {subject : Bytes}
    (hne : subject ≠ []) :
    regexStrip searcher.pcre pattern subject = strippedText (searcher pattern subject) := by
  rw [regexStrip]
  split_ifs with hmatch
  · have hsubstitute : searcher.pcre.substitute pattern subject =
        if (searcher pattern subject).failed then none
        else some (searcher pattern subject).deleted := rfl
    rw [strippedText, pcre2Substitute, hsubstitute]
    by_cases hfailed : (searcher pattern subject).failed = true
    · simp only [if_pos hfailed]
    · simp only [if_neg hfailed]
      by_cases hfit : (searcher pattern subject).deleted.length + 1 ≤ subject.length
      · simp only [if_pos hfit, Nat.lt_one_iff, List.length_eq_zero_iff]
      · -- the output is as long as the subject, so no match has a character
        have heq := (searcher pattern subject).deleted_of_length_le (by omega)
        simp only [if_neg hfit]
        rw [heq, if_neg hne]
  · rw [regexMatch_pcre, not_not] at hmatch
    exact (strippedText_of_pieces_nil hmatch hne).symm

/-- `pcre2_substitute` writes what fits the array, or stays in it and sets `PCRE2_UNSET`. -/
theorem pcre2SubstituteInto_cases (pcre : Pcre Code) (pattern : Code) (subject : Bytes) (n : ℕ)
    (spoiled : Bytes) :
    (∃ text, pcre2Substitute pcre pattern subject n = some text ∧ text.length + 1 ≤ n ∧
      pcre2SubstituteInto (Buffer.ofSize n) spoiled (pcre.substitute pattern subject) =
        ((Buffer.ofSize n).strcpy text, text.length)) ∨
    (pcre2Substitute pcre pattern subject n = none ∧ ∃ output : Buffer UInt8,
      pcre2SubstituteInto (Buffer.ofSize n) spoiled (pcre.substitute pattern subject) =
        (output, pcre2Unset) ∧ output.Fits ∧ output.size = n) := by
  have hspoiled : ((Buffer.ofSize n).memcpyEnd (spoiled.take n)).Fits := by
    simp only [Buffer.Fits, Buffer.memcpyEnd, Buffer.ofSize, List.length_nil, List.length_take]
    omega
  rw [pcre2Substitute]
  cases pcre.substitute pattern subject with
  | none => exact .inr ⟨rfl, _, rfl, hspoiled, rfl⟩
  | some text =>
    by_cases hfit : text.length + 1 ≤ n
    · exact .inl ⟨text, if_pos hfit, hfit, if_pos hfit⟩
    · exact .inr ⟨if_neg hfit, _, if_neg hfit, hspoiled, rfl⟩

/-- The length `PCRE2_UNSET` has no successor, so nothing is copied back. -/
theorem strncpy_pcre2Unset {α : Type} (b : Buffer α) (s : List α) :
    b.strncpy s ((pcre2Unset + 1) % 2 ^ 64) = b := by
  rw [show (pcre2Unset + 1) % 2 ^ 64 = 0 by decide]
  simp [Buffer.strncpy]

/-- **The function over its arrays** leaves the same text, and stays in them. -/
theorem regexStripBuffers_spec (pcre : Pcre Code) (pattern : Code) (spoiled : Bytes)
    {destination : Buffer UInt8} (hfits : destination.Fits)
    (hroom : destination.content.length < destination.size)
    (hsize : destination.content.length < pcre2Unset) :
    let b := regexStripBuffers pcre pattern spoiled destination
    b.destination.map Buffer.content = regexStrip pcre pattern destination.content ∧ b.Fits := by
  have hkept : ∀ b ∈ some destination, b.Fits := by
    rintro _ ⟨⟩
    exact hfits
  by_cases hmatch : regexMatch pcre pattern destination.content = true
  · rcases pcre2SubstituteInto_cases pcre pattern destination.content destination.content.length
      spoiled with ⟨text, htext, hle, hinto⟩ | ⟨hnone, output, hinto, houtput, hlength⟩
    · have hterminated := Buffer.terminated_strcpy destination.content.length text
      have houtput := hterminated.fits_iff.2 hle
      simp only [regexStripBuffers, regexStrip, if_pos hmatch, hinto, htext]
      by_cases hempty : text.length < 1
      · simp only [if_pos hempty]
        exact ⟨rfl, by simp, houtput, Nat.zero_le _⟩
      · have hunset : pcre2Unset = 2 ^ 64 - 1 := rfl
        have hcount : (text.length + 1) % 2 ^ 64 = text.length + 1 := Nat.mod_eq_of_lt (by omega)
        simp only [if_neg hempty, hcount]
        refine ⟨?_, ?_, houtput, hle⟩
        · simp [Buffer.strncpy]
        · rintro _ ⟨⟩
          exact max_le hfits (by simp only [Buffer.strncpy]; omega)
    · have hunset : ¬ pcre2Unset < 1 := by decide
      simp only [regexStripBuffers, regexStrip, if_pos hmatch, hinto, hnone, if_neg hunset,
        strncpy_pcre2Unset]
      exact ⟨rfl, hkept, houtput, Nat.zero_le _⟩
  · simp only [regexStripBuffers, regexStrip, if_neg hmatch]
    exact ⟨rfl, hkept, Nat.zero_le _, Nat.zero_le _⟩

/-- **Stripping is exact**: the text without all its matches is left, nothing instead of an empty
text, and the text as it was when the search fails or no match has a character; and every copy
stays in its array. -/
theorem regexStrip_exact (searcher : Searcher Code) (pattern : Code) (spoiled : Bytes)
    {destination : Buffer UInt8} (hfits : destination.Fits)
    (hroom : destination.content.length < destination.size)
    (hsize : destination.content.length < pcre2Unset) (hne : destination.content ≠ []) :
    let found := searcher pattern destination.content
    let b := regexStripBuffers searcher.pcre pattern spoiled destination
    b.destination.map Buffer.content = (if found.failed then some destination.content
        else if found.deleted = [] then none else some found.deleted) ∧
      (found.failed ∨ (∀ piece ∈ found.pieces, piece.2 = []) →
        b.destination.map Buffer.content = some destination.content) ∧ b.Fits := by
  obtain ⟨hcontent, hb⟩ := regexStripBuffers_spec searcher.pcre pattern spoiled hfits hroom hsize
  have hstripped := hcontent.trans (regexStrip_pcre searcher pattern hne)
  refine ⟨hstripped, ?_, hb⟩
  rintro (hfailed | hempty)
  · rw [hstripped, strippedText, if_pos hfailed]
  · rw [hstripped, strippedText, Cut.deleted_of_forall_nil _ hempty, if_neg hne, ite_self]

/-- The pattern of a text at the beginning of the subject. -/
def anchored : Searcher Bytes := fun pattern subject =>
  if h : pattern <+: subject then
    { pieces := [([], pattern)]
      rest := subject.drop pattern.length
      covers := by
        obtain ⟨rest, rfl⟩ := h
        simp }
  else { pieces := [], rest := subject, covers := rfl }

/-- The first parameter of a query is stripped. -/
theorem regexStrip_exact_anchored :
    let destination := (Buffer.ofSize 9).strcpy (str "utm=1&b=")
    let found := anchored (str "utm=1") destination.content
    let b := regexStripBuffers anchored.pcre (str "utm=1") [] destination
    b.destination.map Buffer.content = (if found.failed then some destination.content
        else if found.deleted = [] then none else some found.deleted) ∧
      (found.failed ∨ (∀ piece ∈ found.pieces, piece.2 = []) →
        b.destination.map Buffer.content = some destination.content) ∧ b.Fits :=
  regexStrip_exact anchored (str "utm=1") [] (by decide) (by decide) (by decide) (by decide)

end Unalix
