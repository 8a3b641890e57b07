import Mathlib.Tactic

/-!
# Regular expressions

The meaning of a regular expression is the set of the words that it matches. An anchor makes the
set depend on whether the word begins at the start of the subject, so a language here takes this
as an argument (`Lang`), and the second part of a concatenation begins at the start only if
nothing was taken before it.

An expression without anchors and without classes (`Expr.Basic`) means the same anywhere, matches
some word, and matches only words of letters that are written in it (`Expr.Basic.plain`).
-/

namespace Unalix.Regex

variable {α : Type*}

/-! ## Languages -/

/-- The words that are matched, at the start of the subject or elsewhere. -/
abbrev Lang (α : Type*) := Bool → List α → Prop

/-- The empty word. -/
def unit : Lang α := fun _ w => w = []

/-- A word of the one and then a word of the other. -/
def cat (L M : Lang α) : Lang α := fun start w =>
  ∃ u v, u ++ v = w ∧ L start u ∧ M (start && u.isEmpty) v

/-- A number of words of a language. -/
def pow (L : Lang α) : ℕ → Lang α
  | 0 => unit
  | n + 1 => cat (pow L n) L

variable {L M N : Lang α} {x : α}

theorem unit_cat (L : Lang α) : cat unit L = L := by
  funext start w
  apply propext
  constructor
  · rintro ⟨_, v, rfl, rfl, hv⟩
    simpa using hv
  · intro h
    exact ⟨[], w, rfl, rfl, by simpa using h⟩

theorem cat_unit (L : Lang α) : cat L unit = L := by
  funext start w
  apply propext
  constructor
  · rintro ⟨u, _, rfl, hu, rfl⟩
    rwa [List.append_nil]
  · intro h
    exact ⟨w, [], List.append_nil w, h, rfl⟩

theorem cat_assoc (L M N : Lang α) : cat (cat L M) N = cat L (cat M N) := by
  funext start w
  apply propext
  constructor
  · rintro ⟨_, t, rfl, ⟨u, v, rfl, hu, hv⟩, ht⟩
    refine ⟨u, v ++ t, by simp, hu, v, t, rfl, hv, ?_⟩
    cases u with
    | nil => simpa using ht
    | cons c u => simpa using ht
  · rintro ⟨u, _, rfl, hu, v, t, rfl, hv, ht⟩
    refine ⟨u ++ v, t, by simp, ⟨u, v, rfl, hu, hv⟩, ?_⟩
    cases u with
    | nil => simpa using ht
    | cons c u => simpa using ht

/-- The language is the same anywhere, it is inhabited, and the letter occurs in none of its
words. -/
structure Plain (x : α) (L : Lang α) : Prop where
  anywhere : ∀ {start start' w}, L start w → L start' w
  inhabited : ∃ w, L true w
  avoids : ∀ {start w}, L start w → x ∉ w

theorem plain_unit : Plain x (unit : Lang α) where
  anywhere h := h
  inhabited := ⟨[], rfl⟩
  avoids h := by
    rw [show _ = [] from h]
    exact List.not_mem_nil

theorem Plain.cat (hL : Plain x L) (hM : Plain x M) : Plain x (cat L M) where
  anywhere := by
    rintro start start' w ⟨u, v, huv, hu, hv⟩
    exact ⟨u, v, huv, hL.anywhere hu, hM.anywhere hv⟩
  inhabited := by
    obtain ⟨u, hu⟩ := hL.inhabited
    obtain ⟨v, hv⟩ := hM.inhabited
    exact ⟨u ++ v, u, v, rfl, hu, hM.anywhere hv⟩
  avoids := by
    rintro start w ⟨u, v, rfl, hu, hv⟩
    simp [hL.avoids hu, hM.avoids hv]

theorem Plain.pow (hL : Plain x L) (n : ℕ) : Plain x (pow L n) := by
  induction n with
  | zero => exact plain_unit
  | succ n ih => exact ih.cat hL

theorem Plain.or (hL : Plain x L) (hM : Plain x M) :
    Plain x fun start w => L start w ∨ M start w where
  anywhere := Or.imp hL.anywhere hM.anywhere
  inhabited := hL.inhabited.imp fun _ => Or.inl
  avoids := by
    rintro start w (h | h)
    · exact hL.avoids h
    · exact hM.avoids h

/-! ## Expressions -/

/-- Regular expressions; `noneOf` is a negated class, and `start` is the anchor. -/
inductive Expr (α : Type*)
  | empty
  | char (c : α)
  | noneOf (cs : List α)
  | start
  | seq (e f : Expr α)
  | alt (e f : Expr α)
  | rep (least : ℕ) (most : Option ℕ) (e : Expr α)
  deriving DecidableEq, Repr

namespace Expr

/-- The words that an expression matches. -/
def Denotes : Expr α → Lang α
  | empty => unit
  | char c => fun _ w => w = [c]
  | noneOf cs => fun _ w => ∃ c, c ∉ cs ∧ w = [c]
  | start => fun start w => start = true ∧ w = []
  | seq e f => cat e.Denotes f.Denotes
  | alt e f => fun start w => e.Denotes start w ∨ f.Denotes start w
  | rep least most e => fun start w =>
    ∃ n, least ≤ n ∧ (∀ m ∈ most, n ≤ m) ∧ pow e.Denotes n start w

/-- An expression without anchors and classes. -/
def Basic : Expr α → Prop
  | empty => True
  | char _ => True
  | noneOf _ => False
  | start => False
  | seq e f => e.Basic ∧ f.Basic
  | alt e f => e.Basic ∧ f.Basic
  | rep _ _ e => e.Basic

/-- The letter is not written in the expression, and the bounds of its repetitions are in order. -/
def Written (x : α) : Expr α → Prop
  | empty => True
  | char c => c ≠ x
  | noneOf _ => True
  | start => True
  | seq e f => e.Written x ∧ f.Written x
  | alt e f => e.Written x ∧ f.Written x
  | rep least most e => (∀ m ∈ most, least ≤ m) ∧ e.Written x

/-- **A basic expression** means the same anywhere, matches some word, and matches no word with a
letter that is not written in it. -/
theorem Basic.plain {e : Expr α} (h : e.Basic) (hx : e.Written x) : Plain x e.Denotes := by
  induction e with
  | empty => exact plain_unit
  | char c =>
    refine ⟨fun hw => hw, ⟨[c], rfl⟩, ?_⟩
    rintro start w rfl hmem
    exact hx (List.mem_singleton.1 hmem).symm
  | noneOf cs => exact h.elim
  | start => exact h.elim
  | seq e f ihe ihf => exact (ihe h.1 hx.1).cat (ihf h.2 hx.2)
  | alt e f ihe ihf => exact (ihe h.1 hx.1).or (ihf h.2 hx.2)
  | rep least most e ih =>
    have hpow := (ih h hx.2).pow
    refine ⟨?_, ?_, ?_⟩
    · rintro start start' w ⟨n, hleast, hmost, hw⟩
      exact ⟨n, hleast, hmost, (hpow n).anywhere hw⟩
    · obtain ⟨w, hw⟩ := (hpow least).inhabited
      exact ⟨w, least, le_rfl, hx.1, hw⟩
    · rintro start w ⟨n, -, -, hw⟩
      exact (hpow n).avoids hw

end Expr

theorem pow_noneOf {cs : List α} {n : ℕ} {start : Bool} {w : List α} :
    pow (Expr.noneOf cs).Denotes n start w ↔ w.length = n ∧ ∀ c ∈ w, c ∉ cs := by
  induction n generalizing w with
  | zero =>
    show w = [] ↔ _
    rw [List.length_eq_zero_iff]
    constructor
    · rintro rfl
      exact ⟨rfl, by simp⟩
    · exact And.left
  | succ n ih =>
    constructor
    · rintro ⟨u, _, rfl, hu, c, hc, rfl⟩
      obtain ⟨hlength, hmem⟩ := ih.1 hu
      refine ⟨by simp [hlength], ?_⟩
      simpa [or_imp, forall_and] using ⟨hmem, hc⟩
    · rintro ⟨hlength, hmem⟩
      rcases List.eq_nil_or_concat' w with rfl | ⟨u, c, rfl⟩
      · cases hlength
      · rw [List.length_append, List.length_singleton, Nat.succ_inj] at hlength
        refine ⟨u, [c], rfl, ih.2 ⟨hlength, fun d hd => hmem d (by simp [hd])⟩, c, ?_, rfl⟩
        exact hmem c (by simp)

/-- A class that is repeated without bounds. -/
theorem denotes_rep_noneOf {cs : List α} {start : Bool} {w : List α} :
    (Expr.rep 0 none (.noneOf cs)).Denotes start w ↔ ∀ c ∈ w, c ∉ cs := by
  constructor
  · rintro ⟨n, -, -, h⟩
    exact (pow_noneOf.1 h).2
  · intro h
    exact ⟨w.length, Nat.zero_le _, by simp, pow_noneOf.2 ⟨rfl, h⟩⟩

/-! ## Sequences and alternatives -/

/-- The sequence of some items, of which the last one comes first in the list. -/
def seqs : List (Expr α) → Expr α
  | [] => .empty
  | e :: items => .seq (seqs items) e

/-- The alternative of some branches, of which the last one comes first in the list. -/
def alts : List (List (Expr α)) → Expr α
  | [] => .empty
  | [items] => seqs items
  | items :: branches => .alt (alts branches) (seqs items)

theorem denotes_seqs_singleton (e : Expr α) : (seqs [e]).Denotes = e.Denotes := unit_cat e.Denotes

/-- An item in front of the others. -/
theorem denotes_seqs_concat (items : List (Expr α)) (e : Expr α) :
    (seqs (items ++ [e])).Denotes = cat e.Denotes (seqs items).Denotes := by
  induction items with
  | nil =>
    show (seqs [e]).Denotes = cat e.Denotes unit
    rw [denotes_seqs_singleton, cat_unit]
  | cons f items ih =>
    show cat (seqs (items ++ [e])).Denotes f.Denotes = cat e.Denotes (cat (seqs items).Denotes f.Denotes)
    rw [ih, cat_assoc]

/-- An alternative matches what one of its branches matches. -/
theorem denotes_alts {branches : List (List (Expr α))} (h : branches ≠ []) (start : Bool)
    (w : List α) : (alts branches).Denotes start w ↔
      ∃ items ∈ branches, (seqs items).Denotes start w := by
  induction branches with
  | nil => exact absurd rfl h
  | cons items branches ih =>
    cases branches with
    | nil => simp [alts]
    | cons items' branches =>
      show (alts (items' :: branches)).Denotes start w ∨ (seqs items).Denotes start w ↔ _
      rw [ih (List.cons_ne_nil _ _), or_comm,
        List.exists_mem_cons_iff _ items (items' :: branches)]

/-- A property of expressions that passes from an alternative to its branches. -/
theorem alts_basic {branches : List (List (Expr α))} (h : (alts branches).Basic)
    {items : List (Expr α)} (hitems : items ∈ branches) : (seqs items).Basic := by
  induction branches with
  | nil => cases hitems
  | cons first branches ih =>
    cases branches with
    | nil =>
      rw [List.mem_singleton.1 hitems]
      exact h
    | cons items' branches =>
      rcases List.mem_cons.1 hitems with rfl | hitems
      · exact h.2
      · exact ih h.1 hitems

end Unalix.Regex
