import Unalix.Foundations.Ascii
import Unalix.Foundations.BrokenDownTime

/-!
# Dates as texts (`strftime`, `strptime`)

A format is a list of directives: characters that stand for themselves, and conversions for the
fields of a time. Names and numbers are those of the C locale. `strptime` reads a text with the same
directives: a name in either case, whole or abbreviated, and a number after white space, of no more
digits than its field has. What `strftime` writes for a time in its ranges is read back
(`strptime_strftime`), if the format lets the reader see where a name or white space ends
(`MayFollow`).
-/

namespace Unalix.DateFormat

open Ascii BrokenDownTime

/-- A character, or a conversion: `%a`, `%d`, `%b`, `%Y`, `%H`, `%M` or `%S`. -/
inductive Directive
  | text (c : UInt8)
  | weekday
  | day
  | month
  | year
  | hour
  | minute
  | second
  deriving DecidableEq, Repr

/-- The conversion of a character. -/
def conversion (c : UInt8) : Option Directive :=
  if c = 97 then some .weekday
  else if c = 100 then some .day
  else if c = 98 then some .month
  else if c = 89 then some .year
  else if c = 72 then some .hour
  else if c = 77 then some .minute
  else if c = 83 then some .second
  else none

/-- A percent sign, 37, begins a conversion. -/
def parseFormat : Bytes → Option (List Directive)
  | [] => some []
  | [c] => if c = 37 then none else some [.text c]
  | c :: d :: rest =>
    if c = 37 then do return (← conversion d) :: (← parseFormat rest)
    else do return .text c :: (← parseFormat (d :: rest))

example : parseFormat (str "%d %Y") = some [.day, .text 32, .year] := by decide

/-! ## Names -/

def abbreviation (name : Bytes) : Bytes := name.take 3

/-- Names of letters that are told apart by their abbreviations, in either case. -/
structure Names where
  names : List Bytes
  three_le : ∀ name ∈ names, 3 ≤ name.length
  isalpha : ∀ name ∈ names, ∀ c ∈ name, isalpha c = true
  nodup : (names.map fun name => (abbreviation name).map lower).Nodup

def weekdayNames : Names where
  names := [str "Sunday", str "Monday", str "Tuesday", str "Wednesday", str "Thursday",
    str "Friday", str "Saturday"]
  three_le := by decide
  isalpha := by decide
  nodup := by decide

def monthNames : Names where
  names := [str "January", str "February", str "March", str "April", str "May", str "June",
    str "July", str "August", str "September", str "October", str "November", str "December"]
  three_le := by decide
  isalpha := by decide
  nodup := by decide

/-- The abbreviated name of a number, `?` for one that has no name. -/
def renderName (table : Names) (n : ℤ) : Bytes :=
  if 0 ≤ n then (table.names[n.toNat]?).elim [63] abbreviation else [63]

/-- The text after a name, whose letters may be of either case. -/
def matchName (name s : Bytes) : Option Bytes :=
  if (s.take name.length).map lower = name.map lower then some (s.drop name.length) else none

/-- The number of the first name that the text begins with, whole or abbreviated. -/
def readName : List Bytes → Bytes → Option (ℕ × Bytes)
  | [], _ => none
  | name :: names, s =>
    match (matchName name s).or (matchName (abbreviation name) s) with
    | some rest => some (0, rest)
    | none => (readName names s).map fun r => (r.1 + 1, r.2)

/-! ## Numbers -/

/-- A number of at least `width` characters, with zeros before its digits. -/
def renderNumber (width : ℕ) (n : ℤ) : Bytes :=
  let sign : Bytes := if n < 0 then [45] else []
  sign ++ List.replicate (width - sign.length - (decimal n.natAbs).length) 48 ++ decimal n.natAbs

/-- At most `count` digits more, as long as the value may stay within its bound. -/
def readDigits (hi : ℕ) : ℕ → ℕ → Bytes → ℕ × Bytes
  | 0, value, s => (value, s)
  | _ + 1, value, [] => (value, [])
  | count + 1, value, c :: s =>
    if isdigit c && 10 * value ≤ hi then readDigits hi count (10 * value + (c.toNat - 48)) s
    else (value, c :: s)

/-- A number between `lo` and `hi`, of at most `count` digits. -/
def readNumber (lo hi count : ℕ) (s : Bytes) : Option (ℕ × Bytes) :=
  match s.dropWhile isspace with
  | [] => none
  | c :: s =>
    if !isdigit c then none
    else
      let (value, rest) := readDigits hi count 0 (c :: s)
      if lo ≤ value ∧ value ≤ hi then some (value, rest) else none

/-! ## The two functions -/

def Directive.render (tm : Tm) : Directive → Bytes
  | .text c => [c]
  | .weekday => renderName weekdayNames tm.wday
  | .day => renderNumber 2 tm.mday
  | .month => renderName monthNames tm.mon
  | .year => renderNumber 1 (tm.year + 1900)
  | .hour => renderNumber 2 tm.hour
  | .minute => renderNumber 2 tm.min
  | .second => renderNumber 2 tm.sec

/-- `strftime`. -/
def strftime (format : List Directive) (tm : Tm) : Bytes := format.flatMap (Directive.render tm)

/-- The field of a directive, and the text after it. -/
def Directive.read (tm : Tm) (s : Bytes) : Directive → Option (Tm × Bytes)
  | .text c =>
    if isspace c then some (tm, s.dropWhile isspace)
    else match s with
      | [] => none
      | d :: s => if c = d then some (tm, s) else none
  | .weekday => (readName weekdayNames.names s).map fun r => ({ tm with wday := r.1 }, r.2)
  | .day => (readNumber 1 31 2 s).map fun r => ({ tm with mday := r.1 }, r.2)
  | .month => (readName monthNames.names s).map fun r => ({ tm with mon := r.1 }, r.2)
  | .year => (readNumber 0 9999 4 s).map fun r => ({ tm with year := r.1 - 1900 }, r.2)
  | .hour => (readNumber 0 23 2 s).map fun r => ({ tm with hour := r.1 }, r.2)
  | .minute => (readNumber 0 59 2 s).map fun r => ({ tm with min := r.1 }, r.2)
  | .second => (readNumber 0 61 2 s).map fun r => ({ tm with sec := r.1 }, r.2)

/-- `strptime`, which fills in the fields of `tm`; the text may go on. -/
def strptime : List Directive → Bytes → Tm → Option Tm
  | [], _, tm => some tm
  | d :: format, s, tm =>
    match d.read tm s with
    | none => none
    | some (tm, s) => strptime format s tm

/-! ## Reading a name back -/

theorem matchName_self (name s : Bytes) : matchName name (name ++ s) = some s := by
  simp [matchName]

/-- A text that begins with a whole name begins with its abbreviation. -/
theorem matchName_abbreviation {name s rest : Bytes} (h : matchName name s = some rest) :
    (s.take (abbreviation name).length).map lower = (abbreviation name).map lower := by
  unfold matchName at h
  split_ifs at h with heq
  have htake := congrArg (List.take 3) heq
  rw [← List.map_take, ← List.map_take, List.take_take] at htake
  rw [abbreviation, List.length_take]
  exact htake

/-- The abbreviation of a name, before something that is no letter, is not the whole name unless it
is all of it. -/
theorem matchName_or_abbreviation {name rest : Bytes} (hlong : 3 ≤ name.length)
    (halpha : ∀ c ∈ name, isalpha c = true) (hrest : ∀ c ∈ rest.head?, isalpha c = false) :
    (matchName name (abbreviation name ++ rest)).or
      (matchName (abbreviation name) (abbreviation name ++ rest)) = some rest := by
  rw [matchName_self]
  by_cases hthree : name.length = 3
  · have habbr : abbreviation name = name := List.take_of_length_le hthree.le
    rw [habbr, matchName_self]
    rfl
  · have hnone : matchName name (abbreviation name ++ rest) = none := by
      refine if_neg fun heq => ?_
      have hlen : (abbreviation name).length = 3 := by
        rw [abbreviation, List.length_take]
        omega
      have hfourth := congrArg (fun l : Bytes => l[3]?) heq
      simp only [List.getElem?_map, List.getElem?_take] at hfourth
      rw [if_pos (by omega), List.getElem?_append_right (by omega), hlen, Nat.sub_self,
        ← List.head?_eq_getElem?, List.getElem?_eq_getElem (by omega : 3 < name.length)] at hfourth
      obtain ⟨c, hc, hlower⟩ := Option.map_eq_some_iff.1 hfourth
      have hno := hrest c hc
      have hyes := isalpha_lower (halpha name[3] (List.getElem_mem _))
      rw [← hlower, (lower_eq_iff hno).2 rfl, hno] at hyes
      exact absurd hyes (by decide)
    rw [hnone]
    rfl

theorem length_abbreviation {name : Bytes} (h : 3 ≤ name.length) :
    (abbreviation name).length = 3 := by
  rw [abbreviation, List.length_take]
  omega

/-- A text that begins with one abbreviation begins with no name that has another one. -/
theorem matchName_of_ne {name other rest : Bytes} (hname : 3 ≤ name.length)
    (hother : 3 ≤ other.length)
    (hne : (abbreviation name).map lower ≠ (abbreviation other).map lower) :
    (matchName name (abbreviation other ++ rest)).or
      (matchName (abbreviation name) (abbreviation other ++ rest)) = none := by
  have htake : (abbreviation other ++ rest).take (abbreviation name).length =
      abbreviation other := by
    rw [length_abbreviation hname, ← length_abbreviation hother]
    exact List.take_left
  have hwhole : matchName name (abbreviation other ++ rest) = none := by
    rw [Option.eq_none_iff_forall_ne_some]
    intro s hs
    have heq := matchName_abbreviation hs
    rw [htake] at heq
    exact hne heq.symm
  have hshort : matchName (abbreviation name) (abbreviation other ++ rest) = none := by
    rw [matchName, htake]
    exact if_neg fun heq => hne heq.symm
  rw [hwhole, hshort]
  rfl

/-- **An abbreviated name is read back**, whatever is no letter comes after it. -/
theorem readName_append {names : List Bytes} (hlong : ∀ name ∈ names, 3 ≤ name.length)
    (halpha : ∀ name ∈ names, ∀ c ∈ name, isalpha c = true)
    (hnodup : (names.map fun name => (abbreviation name).map lower).Nodup) {i : ℕ} {name : Bytes}
    (hi : names[i]? = some name) {rest : Bytes} (hrest : ∀ c ∈ rest.head?, isalpha c = false) :
    readName names (abbreviation name ++ rest) = some (i, rest) := by
  induction names generalizing i with
  | nil => simp at hi
  | cons first names ih =>
    rw [List.map_cons, List.nodup_cons] at hnodup
    cases i with
    | zero =>
      obtain rfl : first = name := by simpa using hi
      rw [readName,
        matchName_or_abbreviation (hlong first (by simp)) (halpha first (by simp)) hrest]
    | succ i =>
      rw [List.getElem?_cons_succ] at hi
      have hmem : name ∈ names := List.mem_of_getElem? hi
      have hne : (abbreviation first).map lower ≠ (abbreviation name).map lower := fun heq =>
        hnodup.1 (heq ▸ List.mem_map_of_mem hmem)
      rw [readName, matchName_of_ne (hlong first (by simp)) (hlong name (by simp [hmem])) hne,
        ih (fun n hn => hlong n (by simp [hn])) (fun n hn => halpha n (by simp [hn])) hnodup.2 hi]
      rfl

/-! ## Reading a number back -/

theorem le_foldl_digits (s : Bytes) (value : ℕ) :
    value ≤ s.foldl (fun n c => 10 * n + (c.toNat - 48)) value := by
  induction s generalizing value with
  | nil => exact le_rfl
  | cons c s ih =>
    have hnext : value ≤ 10 * value + (c.toNat - 48) := by omega
    exact hnext.trans (ih _)

/-- As many digits as are asked for are read, when their value stays within its bound. -/
theorem readDigits_append {hi : ℕ} {digits : Bytes} (h : ∀ c ∈ digits, isdigit c = true)
    (value : ℕ) (hle : digits.foldl (fun n c => 10 * n + (c.toNat - 48)) value ≤ hi)
    (rest : Bytes) : readDigits hi digits.length value (digits ++ rest) =
      (digits.foldl (fun n c => 10 * n + (c.toNat - 48)) value, rest) := by
  induction digits generalizing value with
  | nil => rfl
  | cons c digits ih =>
    have hc : isdigit c = true := h c (by simp)
    have hbound : 10 * value ≤ hi := by
      have hnext := le_foldl_digits digits (10 * value + (c.toNat - 48))
      rw [List.foldl_cons] at hle
      omega
    rw [List.length_cons, List.cons_append, readDigits, hc, decide_eq_true hbound, Bool.and_self,
      if_pos rfl]
    exact ih (fun d hd => h d (by simp [hd])) _ hle

/-- **A number is read back** when it has all the digits of its field, whatever comes after it. -/
theorem readNumber_append {lo hi : ℕ} {digits : Bytes} (h : ∀ c ∈ digits, isdigit c = true)
    (hne : digits ≠ []) (hlo : lo ≤ digitsValue digits) (hhi : digitsValue digits ≤ hi)
    (rest : Bytes) :
    readNumber lo hi digits.length (digits ++ rest) = some (digitsValue digits, rest) := by
  have hread := readDigits_append h 0 hhi rest
  obtain ⟨c, s, rfl⟩ := List.exists_cons_of_ne_nil hne
  have hc : isdigit c = true := h c (by simp)
  have hspace : (c :: s ++ rest).dropWhile isspace = c :: (s ++ rest) :=
    List.dropWhile_cons_of_neg (by simp [isspace_of_isdigit hc])
  rw [List.cons_append] at hread
  rw [readNumber, hspace]
  simp only [hc, Bool.not_true, Bool.false_eq_true, if_false, hread]
  exact if_pos ⟨hlo, hhi⟩

theorem digitsValue_zeros (k : ℕ) (s : Bytes) :
    digitsValue (List.replicate k 48 ++ s) = digitsValue s := by
  induction k with
  | zero => rfl
  | succ k ih =>
    rw [List.replicate_succ, List.cons_append]
    exact ih

theorem decimal_ne_nil (n : ℕ) : decimal n ≠ [] := by
  intro h
  have hvalue := digitsValue_decimal n
  rw [h] at hvalue
  obtain rfl : 0 = n := hvalue
  exact absurd h (by decide)

theorem length_decimal_le_iff {n k : ℕ} (hk : 0 < k) : (decimal n).length ≤ k ↔ n < 10 ^ k := by
  unfold decimal
  split_ifs with hn
  · simp [hn, Nat.succ_le_iff, hk]
  · rw [List.length_map, List.length_reverse]
    exact Nat.digits_length_le_iff (by decide) n

theorem renderNumber_natCast (width n : ℕ) : renderNumber width n =
    List.replicate (width - (decimal n).length) 48 ++ decimal n := by
  have hsign : ¬ (n : ℤ) < 0 := by omega
  simp [renderNumber, hsign]

theorem isdigit_renderNumber (width n : ℕ) : ∀ c ∈ renderNumber width n, isdigit c = true := by
  intro c hc
  rw [renderNumber_natCast, List.mem_append] at hc
  rcases hc with hc | hc
  · rw [List.eq_of_mem_replicate hc]
    rfl
  · exact isdigit_decimal n c hc

theorem digitsValue_renderNumber (width n : ℕ) : digitsValue (renderNumber width n) = n := by
  rw [renderNumber_natCast, digitsValue_zeros, digitsValue_decimal]

theorem length_renderNumber {width n : ℕ} (hwidth : 0 < width) (h : n < 10 ^ width) :
    (renderNumber width n).length = width := by
  have hle := (length_decimal_le_iff hwidth).2 h
  rw [renderNumber_natCast, List.length_append, List.length_replicate]
  omega

theorem length_renderNumber_two {n : ℤ} (hpos : 0 ≤ n) (hlt : n < 100) :
    (renderNumber 2 n).length = 2 := by
  obtain ⟨m, rfl⟩ := Int.eq_ofNat_of_zero_le hpos
  exact length_renderNumber (by decide) (by omega)

/-- A number that is not filled up has as many characters as digits. -/
theorem length_renderNumber_one {k n : ℕ} (hk : 0 < k) (hle : 10 ^ k ≤ n) (hlt : n < 10 ^ (k + 1)) :
    (renderNumber 1 n).length = k + 1 := by
  have hmax := (length_decimal_le_iff k.succ_pos).2 hlt
  have hmin : ¬ (decimal n).length ≤ k := by
    rw [length_decimal_le_iff hk]
    omega
  rw [renderNumber_natCast, List.length_append, List.length_replicate]
  omega

/-- What is written for a number is read as this number. -/
theorem readNumber_renderNumber {lo hi width count : ℕ} {n : ℤ} (hlo : lo ≤ n) (hhi : n ≤ hi)
    (hcount : 0 < count) (hlen : (renderNumber width n).length = count) (rest : Bytes) :
    readNumber lo hi count (renderNumber width n ++ rest) = some (n.toNat, rest) := by
  obtain ⟨m, rfl⟩ := Int.eq_ofNat_of_zero_le (show 0 ≤ n by omega)
  have hvalue := digitsValue_renderNumber width m
  have hne : renderNumber width m ≠ [] := by
    rintro hnil
    rw [hnil, List.length_nil] at hlen
    omega
  have hread := @readNumber_append lo hi _ (isdigit_renderNumber width m) hne (by omega) (by omega)
    rest
  rw [hvalue, hlen] at hread
  exact hread

/-! ## Reading a time back -/

/-- The field of a directive, taken from `tm`. -/
def Directive.copy (tm acc : Tm) : Directive → Tm
  | .text _ => acc
  | .weekday => { acc with wday := tm.wday }
  | .day => { acc with mday := tm.mday }
  | .month => { acc with mon := tm.mon }
  | .year => { acc with year := tm.year }
  | .hour => { acc with hour := tm.hour }
  | .minute => { acc with min := tm.min }
  | .second => { acc with sec := tm.sec }

/-- The reader sees where a directive ends: a name at something that is no letter, white space at
something else. -/
def Directive.Ends (d : Directive) (rest : Bytes) : Prop :=
  match d with
  | .text c => isspace c = true → ∀ x ∈ rest.head?, isspace x = false
  | .weekday | .month => ∀ x ∈ rest.head?, isalpha x = false
  | _ => True

/-- A directive that may come after another one. -/
def MayFollow : Directive → Directive → Bool
  | .text c, .text x => !(isspace c && isspace x)
  | .weekday, .text x | .month, .text x => !isalpha x
  | .weekday, _ | .month, _ => false
  | _, _ => true

/-- A year of four digits. -/
def FourDigits (tm : Tm) : Prop := 1000 ≤ tm.year + 1900 ∧ tm.year + 1900 ≤ 9999

instance (tm : Tm) : Decidable (FourDigits tm) := by
  unfold FourDigits
  infer_instance

theorem exists_name {table : Names} {n : ℤ} (hpos : 0 ≤ n) (hlt : n.toNat < table.names.length) :
    ∃ name ∈ table.names, table.names[n.toNat]? = some name ∧
      renderName table n = abbreviation name := by
  refine ⟨table.names[n.toNat], List.getElem_mem hlt, List.getElem?_eq_getElem hlt, ?_⟩
  rw [renderName, if_pos hpos, List.getElem?_eq_getElem hlt]
  rfl

theorem length_renderName {table : Names} {n : ℤ} (hpos : 0 ≤ n)
    (hlt : n.toNat < table.names.length) : (renderName table n).length = 3 := by
  obtain ⟨name, hmem, -, hrender⟩ := exists_name hpos hlt
  rw [hrender, length_abbreviation (table.three_le name hmem)]

theorem readName_renderName {table : Names} {n : ℤ} (hpos : 0 ≤ n)
    (hlt : n.toNat < table.names.length) {rest : Bytes}
    (hrest : ∀ c ∈ rest.head?, isalpha c = false) :
    readName table.names (renderName table n ++ rest) = some (n.toNat, rest) := by
  obtain ⟨name, -, hname, hrender⟩ := exists_name hpos hlt
  rw [hrender]
  exact readName_append table.three_le table.isalpha table.nodup hname hrest

theorem isspace_of_isalpha {c : UInt8} (h : isalpha c = true) : isspace c = false := by
  simp only [isalpha, isupper, islower, isspace, Bool.and_eq_true, Bool.or_eq_true,
    decide_eq_true_eq, Bool.or_eq_false_iff, Bool.and_eq_false_iff, decide_eq_false_iff_not] at *
  grind

theorem dropWhile_of_head {p : UInt8 → Bool} {s : Bytes} (h : ∀ c ∈ s.head?, p c = false) :
    s.dropWhile p = s := by
  cases s with
  | nil => rfl
  | cons c s => exact List.dropWhile_cons_of_neg (by simp [h c rfl])

theorem ends_nil (d : Directive) : d.Ends [] := by
  cases d with
  | text c => exact fun _ _ => nofun
  | weekday => exact fun _ => nofun
  | month => exact fun _ => nofun
  | _ => trivial

/-- After a name the format goes on with a character that is no letter. -/
theorem ends_name (tm : Tm) {next : Directive} (hnext : MayFollow .weekday next = true)
    (rest : Bytes) : ∀ x ∈ (next.render tm ++ rest).head?, isalpha x = false := by
  cases next with
  | text c =>
    intro x hx
    obtain rfl : c = x := Option.some.inj hx
    rw [MayFollow, Bool.not_eq_true'] at hnext
    exact hnext
  | _ => exact absurd hnext Bool.false_ne_true

section Ranges

variable {tm : Tm} (h : tm.InRange)
include h

theorem weekday_lt : tm.wday.toNat < weekdayNames.names.length := by
  have hle := h.wday.2
  change tm.wday.toNat < 7
  omega

theorem month_lt : tm.mon.toNat < monthNames.names.length := by
  have hle := h.mon.2
  change tm.mon.toNat < 12
  omega

/-- **A directive reads what it has written.** -/
theorem read_render (hyear : FourDigits tm) (acc : Tm) (d : Directive) {rest : Bytes}
    (hends : d.Ends rest) : d.read acc (d.render tm ++ rest) = some (d.copy tm acc, rest) := by
  have hnumber : ∀ {n : ℤ} {lo hi : ℕ}, lo ≤ n → n ≤ hi → hi < 100 →
      readNumber lo hi 2 (renderNumber 2 n ++ rest) = some (n.toNat, rest) := fun hlo hhi hlt =>
    readNumber_renderNumber hlo hhi (by decide) (length_renderNumber_two (by omega) (by omega)) rest
  cases d with
  | text c =>
    by_cases hspace : isspace c = true
    · have hdrop : ([c] ++ rest).dropWhile isspace = rest := by
        rw [List.singleton_append, List.dropWhile_cons_of_pos hspace]
        exact dropWhile_of_head (hends hspace)
      simp only [Directive.read, Directive.render, Directive.copy, hspace, if_true, hdrop]
    · simp [Directive.read, Directive.render, Directive.copy, hspace]
  | weekday =>
    rw [Directive.read, Directive.render, readName_renderName h.wday.1 (weekday_lt h) hends,
      Option.map_some, Int.toNat_of_nonneg h.wday.1]
    rfl
  | day =>
    rw [Directive.read, Directive.render, hnumber h.mday.1 h.mday.2 (by decide), Option.map_some,
      Int.toNat_of_nonneg (by have := h.mday.1; omega)]
    rfl
  | month =>
    rw [Directive.read, Directive.render, readName_renderName h.mon.1 (month_lt h) hends,
      Option.map_some, Int.toNat_of_nonneg h.mon.1]
    rfl
  | year =>
    obtain ⟨hlo, hhi⟩ := hyear
    have hlen : (renderNumber 1 (tm.year + 1900)).length = 4 := by
      obtain ⟨m, hm⟩ := Int.eq_ofNat_of_zero_le (show 0 ≤ tm.year + 1900 by omega)
      rw [hm]
      exact length_renderNumber_one (by decide) (by omega) (by omega)
    rw [Directive.read, Directive.render,
      readNumber_renderNumber (by omega) hhi (by decide) hlen, Option.map_some,
      Int.toNat_of_nonneg (by omega), Int.add_sub_cancel]
    rfl
  | hour =>
    rw [Directive.read, Directive.render, hnumber h.hour.1 h.hour.2 (by decide), Option.map_some,
      Int.toNat_of_nonneg h.hour.1]
    rfl
  | minute =>
    rw [Directive.read, Directive.render, hnumber h.min.1 h.min.2 (by decide), Option.map_some,
      Int.toNat_of_nonneg h.min.1]
    rfl
  | second =>
    have hle : tm.sec ≤ 61 := h.sec.2.trans (by decide)
    rw [Directive.read, Directive.render, hnumber h.sec.1 hle (by decide), Option.map_some,
      Int.toNat_of_nonneg h.sec.1]
    rfl

/-- What is written for a field begins with a digit or a letter. -/
theorem head_render (hyear : FourDigits tm) {d : Directive}
    (hd : ∀ c, d = .text c → isspace c = false) (rest : Bytes) :
    ∀ c ∈ (d.render tm ++ rest).head?, isspace c = false := by
  have hnumber : ∀ (width : ℕ) {n : ℤ}, 0 ≤ n →
      ∀ c ∈ (renderNumber width n ++ rest).head?, isspace c = false := by
    intro width n hpos c hc
    obtain ⟨m, rfl⟩ := Int.eq_ofNat_of_zero_le hpos
    have hne : renderNumber width m ≠ [] := by
      rw [renderNumber_natCast]
      exact List.append_ne_nil_of_right_ne_nil _ (decimal_ne_nil m)
    rw [List.head?_append_of_ne_nil _ hne] at hc
    exact isspace_of_isdigit (isdigit_renderNumber width m c (List.mem_of_mem_head? hc))
  have hname : ∀ {table : Names} {n : ℤ}, 0 ≤ n → n.toNat < table.names.length →
      ∀ c ∈ (renderName table n ++ rest).head?, isspace c = false := by
    intro table n hpos hlt c hc
    obtain ⟨name, hmem, -, hrender⟩ := exists_name hpos hlt
    have hlen := length_abbreviation (table.three_le name hmem)
    have hne : abbreviation name ≠ [] := by
      rintro hnil
      rw [hnil] at hlen
      exact absurd hlen (by decide)
    rw [hrender, List.head?_append_of_ne_nil _ hne] at hc
    have halpha := table.isalpha name hmem c (List.mem_of_mem_take (List.mem_of_mem_head? hc))
    exact isspace_of_isalpha halpha
  cases d with
  | text c =>
    intro x hx
    obtain rfl : c = x := by simpa [Directive.render] using hx
    exact hd c rfl
  | weekday => exact hname h.wday.1 (weekday_lt h)
  | day => exact hnumber 2 (by have := h.mday.1; omega)
  | month => exact hname h.mon.1 (month_lt h)
  | year => exact hnumber 1 (by have := hyear.1; omega)
  | hour => exact hnumber 2 h.hour.1
  | minute => exact hnumber 2 h.min.1
  | second => exact hnumber 2 h.sec.1

theorem ends_strftime (hyear : FourDigits tm) {d : Directive} {format : List Directive}
    (hchain : (d :: format).IsChain fun a b => MayFollow a b = true) :
    d.Ends (strftime format tm) := by
  cases format with
  | nil => exact ends_nil d
  | cons next format =>
    have hnext : MayFollow d next = true := (List.isChain_cons_cons.1 hchain).1
    rw [strftime, List.flatMap_cons]
    cases d with
    | text c =>
      intro hspace
      refine head_render h hyear ?_ _
      rintro x rfl
      rw [MayFollow, hspace, Bool.true_and, Bool.not_eq_true'] at hnext
      exact hnext
    | weekday => exact ends_name tm hnext (strftime format tm)
    | month =>
      have hname : MayFollow .weekday next = true := by cases next <;> exact hnext
      exact ends_name tm hname (strftime format tm)
    | _ => trivial

/-- **What is written for a time is read back**: the fields that the format names are those of the
time, and the others stay as they were. -/
theorem strptime_strftime (hyear : FourDigits tm) {format : List Directive}
    (hchain : format.IsChain fun a b => MayFollow a b = true) (acc : Tm) :
    strptime format (strftime format tm) acc =
      some (format.foldl (fun acc d => d.copy tm acc) acc) := by
  induction format generalizing acc with
  | nil => rfl
  | cons d format ih =>
    have hread := read_render h hyear acc d (ends_strftime h hyear hchain)
    rw [strptime, show strftime (d :: format) tm = d.render tm ++ strftime format tm from rfl,
      hread, List.foldl_cons]
    exact ih hchain.tail _

end Ranges

/-! ## The year in a text -/

/-- The characters of a directive, other than the year. -/
def Directive.width : Directive → ℕ
  | .text _ => 1
  | .weekday | .month => 3
  | _ => 2

theorem length_render {tm : Tm} (h : tm.InRange) {d : Directive} (hd : d ≠ .year) :
    (d.render tm).length = d.width := by
  have hwday := length_renderName h.wday.1 (weekday_lt h)
  have hmon := length_renderName h.mon.1 (month_lt h)
  obtain ⟨hsec, hmin, hhour, hmday, -, -⟩ := h
  cases d with
  | text c => rfl
  | weekday => exact hwday
  | day => exact length_renderNumber_two (by omega) (by omega)
  | month => exact hmon
  | year => exact absurd rfl hd
  | hour => exact length_renderNumber_two (by omega) (by omega)
  | minute => exact length_renderNumber_two (by omega) (by omega)
  | second => exact length_renderNumber_two (by omega) (by omega)

theorem length_strftime {tm : Tm} (h : tm.InRange) {format : List Directive}
    (hyear : .year ∉ format) : (strftime format tm).length = (format.map Directive.width).sum := by
  induction format with
  | nil => rfl
  | cons d format ih =>
    rw [List.mem_cons, not_or] at hyear
    rw [strftime, List.flatMap_cons, List.length_append, length_render h (Ne.symm hyear.1),
      List.map_cons, List.sum_cons]
    exact congrArg _ (ih hyear.2)

theorem renderNumber_of_neg (width : ℕ) {n : ℤ} (h : n < 0) :
    ∃ s, renderNumber width n = 45 :: s ∧ digitsValue s = n.natAbs := by
  refine ⟨List.replicate (width - 1 - (decimal n.natAbs).length) 48 ++ decimal n.natAbs, ?_, ?_⟩
  · rw [renderNumber, if_pos h, List.append_assoc]
    rfl
  · rw [digitsValue_zeros, digitsValue_decimal]

theorem renderNumber_injective (width : ℕ) : Function.Injective (renderNumber width) := by
  have hmixed : ∀ {n m : ℤ}, n < 0 → 0 ≤ m → renderNumber width n ≠ renderNumber width m := by
    intro n m hn hm heq
    obtain ⟨s, hs, -⟩ := renderNumber_of_neg width hn
    obtain ⟨k, rfl⟩ := Int.eq_ofNat_of_zero_le hm
    have hdigit := isdigit_renderNumber width k 45 (by rw [← heq, hs]; simp)
    exact absurd hdigit (by decide)
  intro n m heq
  rcases lt_or_ge n 0 with hn | hn <;> rcases lt_or_ge m 0 with hm | hm
  · obtain ⟨s, hs, hvalue⟩ := renderNumber_of_neg width hn
    obtain ⟨s', hs', hvalue'⟩ := renderNumber_of_neg width hm
    rw [hs, hs'] at heq
    rw [(List.cons.inj heq).2, hvalue'] at hvalue
    omega
  · exact absurd heq (hmixed hn hm)
  · exact absurd heq.symm (hmixed hm hn)
  · obtain ⟨k, rfl⟩ := Int.eq_ofNat_of_zero_le hn
    obtain ⟨l, rfl⟩ := Int.eq_ofNat_of_zero_le hm
    have hvalue := digitsValue_renderNumber width k
    rw [heq, digitsValue_renderNumber] at hvalue
    rw [hvalue]

/-- The other fields have their places from both ends of a text, so that texts that are the same
have the same year. -/
theorem year_eq_of_strftime_eq {before after : List Directive} (hbefore : .year ∉ before)
    (hafter : .year ∉ after) {tm tm' : Tm} (h : tm.InRange) (h' : tm'.InRange)
    (heq : strftime (before ++ .year :: after) tm = strftime (before ++ .year :: after) tm') :
    tm.year = tm'.year := by
  simp only [strftime, List.flatMap_append, List.flatMap_cons] at heq
  have hfirst : (strftime before tm).length = (strftime before tm').length := by
    rw [length_strftime h hbefore, length_strftime h' hbefore]
  have hlast : (strftime after tm).length = (strftime after tm').length := by
    rw [length_strftime h hafter, length_strftime h' hafter]
  have hyear := List.append_inj_left' (List.append_inj_right heq hfirst) hlast
  have := renderNumber_injective 1 hyear
  omega

end Unalix.DateFormat
