import Unalix.Foundations.Buffers
import Unalix.Uri.Parse

/-!
# The memory of a printed URI (`uri.c`)

`uri_stringify` goes over the components of a URI twice. The first pass adds up the sizes and
allocates; the second one writes the components with `strcat`, which does not look at the size. The
two passes ask the same questions, and `intlen` counts the digits that `snprintf` prints, so the text
fills its memory to the last byte (`uriStringify_exact`).
-/

namespace Unalix

open Ascii Buffers

/-- The size of a component, if it is there. -/
def sizeOf (component : Option Bytes) : ℕ :=
  if component.isSome then (text component).length else 0

/-- The component, if it is there, as an argument of `strcat`. -/
def pieceOf (component : Option Bytes) : List Bytes :=
  if component.isSome then [text component] else []

/-- `mem_size`: the sizing pass of `uri_stringify`. -/
def memSize (obj : URI) : ℕ :=
  (if obj.scheme.isSome then (text obj.scheme).length + schemeSeparator.length else 0) +
  (if obj.hasAuthentication ≠ 0 then
    sizeOf obj.username + sizeOf obj.password + ([colon].length + [atSign].length) else 0) +
  (if obj.hostname.isSome then (text obj.hostname).length +
    (if obj.isIpv6 ≠ 0 then [bracketStart].length + [bracketEnd].length else 0) else 0) +
  (if 0 < obj.port then [colon].length + intlen obj.port else 0) +
  [slash].length + sizeOf obj.path +
  (if obj.query.isSome then [questionMark].length + (text obj.query).length else 0) +
  (if obj.fragment.isSome then [hashtag].length + (text obj.fragment).length else 0)

/-- The array `value`, into which the port is printed. -/
def portBuffer (port : ℤ) : Buffer UInt8 :=
  let value := Buffer.ofSize (intlen port + 1)
  value.snprintf value.size (decimal port.toNat)

/-- The writing pass of `uri_stringify`: the arguments of `strcat`. -/
def uriPieces (obj : URI) : List Bytes :=
  (if obj.scheme.isSome then [text obj.scheme, schemeSeparator] else []) ++
  (if obj.hasAuthentication ≠ 0 then
    pieceOf obj.username ++ [[colon]] ++ pieceOf obj.password ++ [[atSign]] else []) ++
  (if obj.hostname.isSome then
    (if obj.isIpv6 ≠ 0 then [[bracketStart]] else []) ++ [text obj.hostname] ++
      (if obj.isIpv6 ≠ 0 then [[bracketEnd]] else []) else []) ++
  (if 0 < obj.port then [[colon], (portBuffer obj.port).content] else []) ++
  [[slash]] ++ pieceOf obj.path ++
  (if obj.query.isSome then [[questionMark], text obj.query] else []) ++
  (if obj.fragment.isSome then [[hashtag], text obj.fragment] else [])

/-- `uri_stringify` over its memory. -/
def uriBuffer (obj : URI) : Buffer UInt8 :=
  ((Buffer.ofSize (memSize obj + 1)).strcpy []).strcatAll (uriPieces obj)

/-- The digits of a port that is printed fill their array. -/
theorem portBuffer_spec {port : ℤ} (h : 0 < port) : (portBuffer port).Fits ∧
    (portBuffer port).content = decimal port.toNat ∧
      (decimal port.toNat).length = intlen port := by
  have hlength : (decimal port.toNat).length = intlen port := by
    rw [length_decimal, Int.toNat_of_nonneg h.le]
  refine ⟨Buffer.fits_snprintf (Nat.zero_le _) le_rfl _, ?_, hlength⟩
  exact Buffer.content_snprintf _ (by rw [hlength]; exact Nat.lt_succ_self _)

theorem flatten_pieceOf (component : Option Bytes) : (pieceOf component).flatten = text component := by
  cases component <;> simp [pieceOf, text]

theorem sizeOf_eq (component : Option Bytes) : sizeOf component = (text component).length := by
  cases component <;> rfl

/-- The two passes are about the same text. -/
theorem flatten_uriPieces (obj : URI) : (uriPieces obj).flatten = uriStringify obj := by
  have hport : (if 0 < obj.port then [[colon], (portBuffer obj.port).content] else []).flatten =
      if 0 < obj.port then colon :: decimal obj.port.toNat else [] := by
    split_ifs with hpos
    · rw [(portBuffer_spec hpos).2.1]
      simp
    · rfl
  have hif {p : Prop} [Decidable p] (l : List Bytes) :
      (if p then l else []).flatten = if p then l.flatten else [] := by
    split_ifs <;> rfl
  simp only [uriPieces, uriStringify, List.flatten_append, hport, flatten_pieceOf, hif,
    List.flatten_cons, List.flatten_nil, List.append_nil]
  rfl

/-- The size is that of the text. -/
theorem length_uriStringify (obj : URI) : (uriStringify obj).length = memSize obj := by
  have hif {p : Prop} [Decidable p] (l : Bytes) :
      (if p then l else []).length = if p then l.length else 0 := by
    split_ifs <;> rfl
  have hport : (if 0 < obj.port then (decimal obj.port.toNat).length + 1 else 0) =
      if 0 < obj.port then 1 + intlen obj.port else 0 := by
    split_ifs with hpos
    · rw [(portBuffer_spec hpos).2.2, Nat.add_comm]
    · rfl
  simp only [uriStringify, memSize, sizeOf_eq, List.length_append, List.length_cons,
    List.length_nil, hif, hport]
  split_ifs <;> omega

/-- **`uri_stringify` fills what it allocates**, whatever the fields of the URI are: the text has the
size that was computed, and no byte is written behind it. -/
theorem uriStringify_exact (obj : URI) : (uriBuffer obj).content = uriStringify obj ∧
    (uriBuffer obj).content.length = memSize obj ∧ (uriBuffer obj).Fits ∧
      (0 < obj.port → (portBuffer obj.port).Fits) := by
  obtain ⟨hterminated, hsize, hcontent⟩ :=
    (Buffer.terminated_strcpy (memSize obj + 1) []).strcatAll (uriPieces obj)
  rw [Buffer.content_strcpy, List.nil_append, flatten_uriPieces] at hcontent
  have hlength : (uriBuffer obj).content.length = memSize obj := by
    rw [← length_uriStringify, ← hcontent]
    rfl
  refine ⟨hcontent, hlength, ?_, fun hpos => (portBuffer_spec hpos).1⟩
  exact hterminated.fits_iff.2 (by rw [hsize]; exact Nat.succ_le_succ hlength.le)

end Unalix
