/-!
# Error codes and failures

A function of the library returns `UNALIXERR_SUCCESS` or one of the negative codes of
`errors.h`. A call can also leave the defined behaviour of C, by following a null pointer, by a
copy whose size is negative or by an access outside an array: such a run has no code, and the model
ends it with a fault.
-/

namespace Unalix

/-- The codes of `errors.h` other than `UNALIXERR_SUCCESS`. -/
inductive ErrorCode
  | memoryAllocateFailure
  | fileCannotOpen
  | fileCannotRead
  | fileCannotWrite
  | fileCannotMove
  | jsonCannotParse
  | jsonMissingRequiredKey
  | jsonNonMatchingType
  | regexCompilePatternFailure
  | uriSchemeInvalid
  | uriSchemeMissing
  | uriSchemeShouldStartsWithLetter
  | uriSchemeEmpty
  | uriSchemeContainsInvalidCharacter
  | uriHostnameLabelConnotStartsWithHyphen
  | uriHostnameTooLong
  | uriHostnameTooShort
  | uriHostnameLabelTooLong
  | uriHostnameLabelEmpty
  | uriHostnameLabelContainsInvalidCharacter
  | uriHostnameLabelConnotEndsWithHyphen
  | uriPortOutOfRange
  | uriPortContainsInvalidCharacter
  | uriHostnameMissingClosingBracket
  | uriIpv6AddressTooShort
  | uriIpv6AddressTooLong
  | uriIpv6AddressInvalid
  | rulesetsEmpty
  | rulesetsNotModified
  | rulesetsUpdateAvailable
  | rulesetsMismatchHash
  | dnsGaiFailure
  | dnsCannotParseAddress
  | socketFailure
  | socketSetoptFailure
  | socketSendFailure
  | socketRecvFailure
  | socketCloseFailure
  | socketConnectFailure
  | sslFailure
  | httpUnsupportedVersion
  | httpMalformedStatusCode
  | httpUnknownStatusCode
  | httpMalformedHeader
  | httpMissingHeaderName
  | httpMissingHeaderValue
  | httpHeaderContainsInvalidCharacter
  | httpHeadersTooBig
  | httpHeadersInvalidLocation
  | httpTooManyRedirects
  | httpBadStatusCode
  | osStatFailure
  | osGmtimeFailure
  | osMktimeFailure
  | osStrftimeFailure
  | osStrptimeFailure
  | argInvalid
  deriving DecidableEq, Repr

/-- The ways a run of the modelled code leaves the defined behaviour of C. -/
inductive Fault
  /-- Arithmetic on, or a read through, a null pointer. -/
  | nullPointer
  /-- An array or a copy whose size is a negative pointer difference. -/
  | negativeSize
  /-- An access outside an array. -/
  | outOfBounds
  deriving DecidableEq, Repr

/-- Why a call does not succeed: it returns a code, or it has no defined result. -/
inductive Failure
  | code (e : ErrorCode)
  | fault (f : Fault)
  deriving DecidableEq, Repr

/-- The outcome of a call that succeeds with a value of `α`. -/
abbrev Outcome (α : Type) := Except Failure α

/-- Return an error code. -/
def fail {α : Type} (e : ErrorCode) : Outcome α := .error (.code e)

namespace Outcome

variable {α β : Type}

/-- The call returns, with success or with a code. -/
def Returns (r : Outcome α) : Prop := ∀ f, r ≠ .error (.fault f)

@[simp] theorem pure_eq (x : α) : (pure x : Outcome α) = .ok x := rfl

@[simp] theorem ok_bind (x : α) (f : α → Outcome β) : ((.ok x : Outcome α) >>= f) = f x := rfl

@[simp] theorem error_bind (e : Failure) (f : α → Outcome β) :
    ((.error e : Outcome α) >>= f) = .error e := rfl

@[simp] theorem fail_bind (e : ErrorCode) (f : α → Outcome β) :
    ((fail e : Outcome α) >>= f) = fail e := rfl

@[simp] theorem fail_ne_ok (e : ErrorCode) (x : α) : (fail e : Outcome α) ≠ .ok x := nofun

/-- A sequence of two calls succeeds when both do. -/
theorem bind_eq_ok {r : Outcome α} {f : α → Outcome β} {y : β} :
    (r >>= f) = .ok y ↔ ∃ x, r = .ok x ∧ f x = .ok y := by
  cases r <;> simp

/-- A check that succeeds is followed by the rest. -/
theorem check_bind_eq_ok {r : Outcome Unit} {f : Unit → Outcome β} {y : β} :
    (r >>= f) = .ok y ↔ r = .ok () ∧ f () = .ok y := by
  cases r <;> simp

@[simp] theorem returns_ok (x : α) : Returns (.ok x) := by
  intro f h
  cases h

@[simp] theorem returns_fail (e : ErrorCode) : Returns (fail e : Outcome α) := by
  intro f h
  cases h

@[simp] theorem not_returns_fault (f : Fault) : ¬ Returns (.error (.fault f) : Outcome α) :=
  fun h => h f rfl

/-- A sequence of two calls returns when the first does and the second does after its success. -/
theorem returns_bind_iff {r : Outcome α} {f : α → Outcome β} :
    Returns (r >>= f) ↔ Returns r ∧ ∀ x, r = .ok x → Returns (f x) := by
  rcases r with e | x
  · simp [Returns]
  · simp

end Outcome

end Unalix
