import Unalix.Http.Exchange

/-!
# The end of a head (`http.c`)

`find_crlfcrlf` compares four bytes at every position of the bytes that were received, also at the
last three, where some of the four have not been received. `parse_http_response` then looks for the
same four bytes with `strstr`, which stops at a NUL. So the two are about the same bytes exactly when
the empty line has been received as a whole and no NUL stands before its end (`endOfHead_iff`):
otherwise the first one has read on behind the bytes received, or the second one finds nothing.
-/

namespace Unalix

open CString

/-- The loop of `find_crlfcrlf` at `index`, with `remaining` positions to come: its result, and how far
the buffer has been read, `memcmp` reading the four bytes that it compares. -/
def findCrlfcrlfLoop (memory : Bytes) (index reach : ℕ) : ℕ → Bool × ℕ
  | 0 => (false, reach)
  | remaining + 1 =>
    let reach := max reach (index + crlfcrlf.length)
    if crlfcrlf <+: memory.drop index then (true, reach)
    else findCrlfcrlfLoop memory (index + 1) reach remaining

/-- The position at which a text is found. -/
def findPosition (s n : Bytes) : Option ℕ := (strstr s n).map fun rest => s.length - rest.length

/-- The test for the end of the head and the search of the parser are about the bytes received. -/
structure EndOfHead (memory : Bytes) (offset : ℕ) : Prop where
  found : (findCrlfcrlfLoop memory 0 0 offset).1 = true ↔ crlfcrlf <:+: memory.take offset
  reads : (findCrlfcrlfLoop memory 0 0 offset).2 ≤ offset
  agrees : (findCrlfcrlfLoop memory 0 0 offset).1 = true → ∃ position,
    findPosition (memory.take offset) crlfcrlf = some position ∧
      findPosition (cString (memory.take offset)) crlfcrlf = some position

variable {memory : Bytes} {offset : ℕ}

/-- The loop finds what one of its comparisons finds. -/
theorem findCrlfcrlfLoop_eq_true_iff (index reach remaining : ℕ) :
    (findCrlfcrlfLoop memory index reach remaining).1 = true ↔
      ∃ i, index ≤ i ∧ i < index + remaining ∧ crlfcrlf <+: memory.drop i := by
  induction remaining generalizing index reach with
  | zero =>
    refine iff_of_false Bool.false_ne_true ?_
    rintro ⟨i, hle, hlt, -⟩
    omega
  | succ remaining ih =>
    rw [findCrlfcrlfLoop]
    split_ifs with hfound
    · exact iff_of_true rfl ⟨index, le_rfl, by omega, hfound⟩
    · rw [ih]
      constructor
      · rintro ⟨i, hle, hlt, hi⟩
        exact ⟨i, by omega, by omega, hi⟩
      · rintro ⟨i, hle, hlt, hi⟩
        have hne : i ≠ index := by
          rintro rfl
          exact hfound hi
        exact ⟨i, by omega, by omega, hi⟩

/-- The loop is `find_crlfcrlf`. -/
theorem findCrlfcrlfLoop_fst (memory : Bytes) (bufferSize : ℕ) :
    (findCrlfcrlfLoop memory 0 0 bufferSize).1 = findCrlfcrlf memory bufferSize := by
  rw [Bool.eq_iff_iff, findCrlfcrlfLoop_eq_true_iff, findCrlfcrlf, List.any_eq_true]
  simp

/-- Nothing is read behind a place where the text stands. -/
theorem findCrlfcrlfLoop_snd_le {i index reach remaining : ℕ} (hle : index ≤ i)
    (hlt : i < index + remaining) (hi : crlfcrlf <+: memory.drop i)
    (hreach : reach ≤ i + crlfcrlf.length) :
    (findCrlfcrlfLoop memory index reach remaining).2 ≤ i + crlfcrlf.length := by
  induction remaining generalizing index reach with
  | zero => omega
  | succ remaining ih =>
    rw [findCrlfcrlfLoop]
    split_ifs with hfound
    · exact max_le hreach (by omega)
    · have hne : i ≠ index := by
        rintro rfl
        exact hfound hi
      exact ih (by omega) (by omega) (max_le hreach (by omega))

/-- A loop that finds nothing reads behind its last position. -/
theorem findCrlfcrlfLoop_snd_of_false {index reach remaining : ℕ} (hpos : 0 < remaining)
    (h : (findCrlfcrlfLoop memory index reach remaining).1 = false) :
    index + remaining < (findCrlfcrlfLoop memory index reach remaining).2 := by
  induction remaining generalizing index reach with
  | zero => omega
  | succ remaining ih =>
    rw [findCrlfcrlfLoop] at h ⊢
    split_ifs at h ⊢
    rcases Nat.eq_zero_or_pos remaining with rfl | hpos
    · simp only [findCrlfcrlfLoop, crlfcrlf, List.length_cons, List.length_nil]
      omega
    · have := ih hpos h
      omega

/-- What is found in a part is found at the same position in the whole. -/
theorem findPosition_append {s n : Bytes} {position : ℕ} (h : findPosition s n = some position)
    (x : Bytes) : findPosition (s ++ x) n = some position := by
  obtain ⟨rest, hrest, rfl⟩ := Option.map_eq_some_iff.1 h
  rw [findPosition, strstr_append_of_eq_some hrest, Option.map_some, List.length_append,
    List.length_append, Nat.add_sub_add_right]

theorem exists_findPosition_iff {s n : Bytes} : (∃ position, findPosition s n = some position) ↔
    n <:+: s := by
  rw [← not_iff_not, ← strstr_eq_none_iff]
  cases hfind : strstr s n <;> simp [findPosition, hfind]

/-- **The end of the head** is a matter of the bytes received if and only if there are none, or they
contain the empty line, and no NUL before its end. -/
theorem endOfHead_iff : EndOfHead memory offset ↔
    offset = 0 ∨ crlfcrlf <:+: cString (memory.take offset) := by
  constructor
  · intro h
    refine or_iff_not_imp_left.2 fun hne => ?_
    have hfound : (findCrlfcrlfLoop memory 0 0 offset).1 = true := by
      by_contra hno
      have hlt := findCrlfcrlfLoop_snd_of_false (Nat.pos_of_ne_zero hne)
        (Bool.not_eq_true _ ▸ hno)
      have hle := h.reads
      omega
    obtain ⟨position, -, hposition⟩ := h.agrees hfound
    exact exists_findPosition_iff.1 ⟨position, hposition⟩
  · rintro (rfl | hinfix)
    · refine ⟨?_, le_rfl, fun h => absurd h Bool.false_ne_true⟩
      exact iff_of_false Bool.false_ne_true (by simp [crlfcrlf])
    · obtain ⟨tail, htail⟩ : cString (memory.take offset) <+: memory.take offset :=
        List.takeWhile_prefix _
      have hreceived : crlfcrlf <:+: memory.take offset := by
        rw [← htail]
        exact hinfix.trans (List.prefix_append _ tail).isInfix
      obtain ⟨i, hbound, hprefix⟩ := exists_prefix_drop_of_infix_take hreceived
      have hpos : 0 < crlfcrlf.length := by decide
      refine ⟨?_, ?_, fun _ => ?_⟩
      · refine iff_of_true ?_ hreceived
        exact (findCrlfcrlfLoop_eq_true_iff 0 0 offset).2 ⟨i, by omega, by omega, hprefix⟩
      · have hread := findCrlfcrlfLoop_snd_le (Nat.zero_le i) (show i < 0 + offset by omega)
          hprefix (Nat.zero_le _)
        exact hread.trans hbound
      · obtain ⟨position, hposition⟩ := exists_findPosition_iff.2 hinfix
        refine ⟨position, ?_, hposition⟩
        rw [← htail]
        exact findPosition_append hposition tail

/-- The last byte of the empty line has not been received, and a line feed lies behind the bytes that
have been: the head is taken for complete, and the parser does not find its end. -/
theorem not_endOfHead_stale :
    let memory := str "HTTP/1.1 200 OK\r\na: b\r\n\r\n"
    (findCrlfcrlfLoop memory 0 0 24) = (true, 25) ∧ ¬ crlfcrlf <:+: memory.take 24 ∧
      parseHttpResponse {} (memory.take 24) = .error (.fault .nullPointer) ∧
      ¬ EndOfHead memory 24 := by
  have hloop : (findCrlfcrlfLoop (str "HTTP/1.1 200 OK\r\na: b\r\n\r\n") 0 0 24) = (true, 25) := by
    decide
  refine ⟨hloop, by decide, by decide, fun h => ?_⟩
  have hle := h.reads
  rw [hloop] at hle
  exact absurd hle (by decide)

end Unalix
