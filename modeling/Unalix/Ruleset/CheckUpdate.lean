import Unalix.Ruleset.Update

/-!
# Checking for updates (`ruleset.c`)

`check_ruleset_update` asks the server for the rules unless they are as old as the local file: the
time of the file goes into a header of the request, and is compared with the time that the response
names. Its result is always a code. Times and their texts are those of the C library; the functions
on them are a `Clock`.
-/

namespace Unalix

open Outcome Calls

/-- The functions of the C library on files' times, and on times that are taken apart (`struct tm`).
`mktime` corrects its argument. -/
structure Clock (Tm : Type) where
  fileExists : Bytes → Bool
  getLastModificationTime : Bytes → ℤ
  gmtime : ℤ → Option Tm
  mktime : Tm → ℤ × Tm
  strftime : Tm → Bytes
  strptime : Bytes → Option Tm

def httpDateSize : ℕ := 29

def httpHeaderIfModifiedSince : Bytes := str "If-Modified-Since"

def httpHeaderLastModified : Bytes := str "Last-Modified"

/-- `NOT_MODIFIED` of `enum HTTPStatusCode`. -/
def statusNotModified : ℤ := 304

variable {Tm : Type} (clock : Clock Tm)

/-- The result of a function that may fail, or an error code. -/
def orFail {α : Type} (result : Option α) (e : ErrorCode) : Outcome α :=
  match result with
  | none => fail e
  | some a => .ok a

/-- `mktime`, with its error. -/
def mktimeOrFail (time : Tm) : Outcome (ℤ × Tm) :=
  if (clock.mktime time).1 = -1 then fail .osMktimeFailure else .ok (clock.mktime time)

/-- The time of the local file, as a number and as a text. -/
def localTime (filename : Bytes) : Outcome (ℤ × Bytes) :=
  if !clock.fileExists filename then fail .osStatFailure
  else if clock.getLastModificationTime filename = 0 then fail .osStatFailure
  else do
    let time ← orFail (clock.gmtime (clock.getLastModificationTime filename)) .osGmtimeFailure
    let (lastModified, time) ← mktimeOrFail clock time
    let ifModifiedSince := clock.strftime time
    if ifModifiedSince.length ≠ httpDateSize then fail .osStrftimeFailure
    else return (lastModified, ifModifiedSince)

/-- The status and the time of the response. -/
def compareTimes (lastModified : ℤ) (response : HTTPResponse) : Outcome Unit :=
  if response.status.code = statusNotModified then fail .rulesetsNotModified
  else if response.status.code ≠ statusOk then fail .httpBadStatusCode
  else match httpHeadersGet response.headers httpHeaderLastModified with
    | none => fail .rulesetsUpdateAvailable
    | some header => do
      let time ← orFail (clock.strptime header.value) .osStrptimeFailure
      let (remoteLastModified, _) ← mktimeOrFail clock time
      if remoteLastModified ≤ lastModified then fail .rulesetsNotModified
      else fail .rulesetsUpdateAvailable

/-- `check_ruleset_update`. -/
def checkRulesetUpdate (exchange : Exchange) (filename url : Bytes) :
    EStateM Failure HTTPContext Unit := do
  let (lastModified, ifModifiedSince) ← ofOutcome (localTime clock filename)
  contextSetUrl url
  contextAddHeader httpHeaderUserAgent httpDefaultUserAgent
  contextAddHeader httpHeaderAccept (str "application/json")
  contextAddHeader httpHeaderIfModifiedSince ifModifiedSince
  httpRequestSend exchange
  let context ← get
  ofOutcome (compareTimes clock lastModified context.response)

/-- The context of a check. -/
def checkUpdateContext : HTTPContext where
  request := { version := .http10, method := .head }
  connection := { timeout := httpDefaultTimeout }

/-- `unalix_ruleset_check_update`: the code, and the calls for its descriptors. -/
def unalixRulesetCheckUpdate (exchange : Exchange) (filename url : Option Bytes) :
    Outcome Unit × List FdCall :=
  match filename, url with
  | some (c :: filename), some (d :: url) =>
    match checkRulesetUpdate clock exchange (c :: filename) (d :: url) checkUpdateContext with
    | .ok _ context => (.ok (), (httpContextFree context).connection.calls)
    | .error e context =>
      (.error e, (freeAfter (.error e : Outcome Unit) context).connection.calls)
  | _, _ => (fail .argInvalid, [])

end Unalix
