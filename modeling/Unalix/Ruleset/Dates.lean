import Unalix.Foundations.DateFormat
import Unalix.Foundations.Scan
import Unalix.Ruleset.CheckUpdate

/-!
# The dates of an update check (`ruleset.c`)

The time of the local file is taken apart in UTC, and `mktime` reads these fields as local time and
corrects them before they are printed. The header has the time of the file if and only if daylight
saving is not in force at the moment that has these fields in standard time
(`ifModifiedSince_utc_iff`). The time that the response names is read by `strptime`, or under
`_WIN32` by `sscanf`. The former reads every date; the format of the latter asks for a comma behind
a word, which no text has (`windowsTime_eq`).
-/

namespace Unalix

open Outcome Calls Calendar BrokenDownTime

/-- `HTTP_DATE_FORMAT`. -/
def httpDateFormat : List DateFormat.Directive :=
  (DateFormat.parseFormat (str "%a, %d %b %Y %H:%M:%S GMT")).getD []

theorem httpDateFormat_eq : httpDateFormat =
    [.weekday, .text 44, .text 32, .day, .text 32, .month, .text 32] ++ .year ::
      [.text 32, .hour, .text 58, .minute, .text 58, .second, .text 32, .text 71, .text 77,
        .text 84] := by decide

/-- The functions of the POSIX branch in a time zone; `gmtime_r` fails when the year is no `int`. -/
def posixClock (zone : Zone) (fileExists : Bytes → Bool) (getLastModificationTime : Bytes → ℤ) :
    Clock Tm where
  fileExists := fileExists
  getLastModificationTime := getLastModificationTime
  gmtime t :=
    if -2 ^ 31 ≤ (gmtime t).year ∧ (gmtime t).year < 2 ^ 31 then some (gmtime t) else none
  mktime := mktime zone
  strftime := DateFormat.strftime httpDateFormat
  strptime value := DateFormat.strptime httpDateFormat value {}

/-! ## Dates that are read back -/

theorem isChain_httpDateFormat :
    httpDateFormat.IsChain fun a b => DateFormat.MayFollow a b = true := by
  rw [httpDateFormat_eq]
  decide

/-- **`strptime` reads what `strftime` writes**; the format has no `tm_isdst`. -/
theorem strptime_strftime_httpDateFormat {tm : Tm} (h : tm.InRange)
    (hyear : DateFormat.FourDigits tm) :
    DateFormat.strptime httpDateFormat (DateFormat.strftime httpDateFormat tm) {} =
      some { tm with isdst := 0 } := by
  rw [DateFormat.strptime_strftime h hyear isChain_httpDateFormat, httpDateFormat_eq]
  rfl

/-- Two times with the same text have the same fields. -/
theorem eq_of_strftime_eq {tm tm' : Tm} (h : tm.InRange) (h' : tm'.InRange)
    (hyear : DateFormat.FourDigits tm)
    (heq : DateFormat.strftime httpDateFormat tm = DateFormat.strftime httpDateFormat tm') :
    { tm with isdst := 0 } = { tm' with isdst := 0 } := by
  have hsame : tm.year = tm'.year := by
    rw [httpDateFormat_eq] at heq
    exact DateFormat.year_eq_of_strftime_eq (by decide) (by decide) h h' heq
  have hyear' : DateFormat.FourDigits tm' := by
    rw [DateFormat.FourDigits, ← hsame]
    exact hyear
  have hread := strptime_strftime_httpDateFormat h hyear
  rw [heq, strptime_strftime_httpDateFormat h' hyear'] at hread
  exact (Option.some.inj hread).symm

/-! ## The header of a check -/

theorem httpHeadersGet_add_of_ne {key k : Bytes} (hne : k ≠ key) (obj : HTTPHeaders)
    (value : Bytes) : httpHeadersGet (httpHeadersAdd obj k value) key = httpHeadersGet obj key := by
  simp [httpHeadersGet, httpHeadersAdd, hne]

theorem httpHeadersGet_add_self {key : Bytes} {obj : HTTPHeaders}
    (hnone : httpHeadersGet obj key = none) (value : Bytes) :
    httpHeadersGet (httpHeadersAdd obj key value) key = some ⟨key, value⟩ := by
  rw [httpHeadersGet] at hnone
  simp [httpHeadersGet, httpHeadersAdd, hnone]

theorem httpHeadersGet_addContentLength {key : Bytes} (hkey : str "Content-Length" ≠ key)
    (request : HTTPRequest) :
    httpHeadersGet (addContentLength request).headers key = httpHeadersGet request.headers key := by
  unfold addContentLength
  split_ifs
  · exact httpHeadersGet_add_of_ne hkey _ _
  · rfl

/-- Sending a request changes none of its headers, but may add the one for its body. -/
theorem keeps_httpRequestSend {key : Bytes} (hkey : str "Content-Length" ≠ key)
    (exchange : Exchange) :
    Keeps (fun context : HTTPContext => httpHeadersGet context.request.headers key)
      (httpRequestSend exchange) := by
  have hconnection {g : HTTPContext → HTTPContext} (hg : ∀ c, (g c).request = c.request) :
      Keeps (fun context : HTTPContext => httpHeadersGet context.request.headers key)
        (modify g : EStateM Failure HTTPContext PUnit) :=
    Keeps.modify fun c => by rw [hg c]
  have hstringify : Keeps (fun context : HTTPContext => httpHeadersGet context.request.headers key)
      (modify fun context => { context with request := (httpRequestStringify context.request).1 } :
        EStateM Failure HTTPContext PUnit) :=
    Keeps.modify fun context => httpHeadersGet_addContentLength hkey context.request
  refine Keeps.bind Keeps.get fun context => ?_
  refine Keeps.bind (keeps_ofOutcome _ _) fun _ => ?_
  refine Keeps.bind (keeps_require _ _ _) fun _ => ?_
  refine Keeps.bind ?_ fun _ => ?_
  · exact hconnection fun _ => rfl
  refine Keeps.bind (keeps_require _ _ _) fun _ => ?_
  refine Keeps.bind (keeps_require _ _ _) fun _ => ?_
  refine Keeps.bind (keeps_require _ _ _) fun _ => ?_
  refine Keeps.bind hstringify fun _ => ?_
  refine Keeps.bind (keeps_ofOutcome _ _) fun _ => ?_
  refine Keeps.bind ?_ fun _ => ?_
  · exact hconnection fun _ => rfl
  refine Keeps.bind (keeps_require _ _ _) fun _ => ?_
  refine Keeps.bind ?_ fun _ => ?_
  · exact hconnection fun _ => rfl
  refine Keeps.bind (keeps_ofOutcome _ _) fun _ => ?_
  refine Keeps.bind (keeps_ofOutcome _ _) fun _ => ?_
  exact hconnection fun _ => rfl

/-- The value of the header with the time, in the request of a check. -/
def sentIfModifiedSince {Tm : Type} (clock : Clock Tm) (exchange : Exchange)
    (filename url : Bytes) : Option Bytes :=
  (httpHeadersGet (final (checkRulesetUpdate clock exchange filename url
    checkUpdateContext)).request.headers httpHeaderIfModifiedSince).map HTTPHeader.value

/-- When the URL is accepted, the request has the text of the time, whatever the network does. -/
theorem sentIfModifiedSince_of_ok {Tm : Type} {clock : Clock Tm} {filename url text : Bytes}
    {lastModified : ℤ} {request : HTTPRequest}
    (htime : localTime clock filename = .ok (lastModified, text))
    (hset : httpRequestSetUrl checkUpdateContext.request url = .ok request) (exchange : Exchange) :
    sentIfModifiedSince clock exchange filename url = some text := by
  have hrest : Keeps (fun context : HTTPContext =>
      httpHeadersGet context.request.headers httpHeaderIfModifiedSince) (do
        httpRequestSend exchange
        let context ← get
        ofOutcome (compareTimes clock lastModified context.response)) :=
    Keeps.bind (keeps_httpRequestSend (by decide) exchange) fun _ =>
      Keeps.bind Keeps.get fun _ => keeps_ofOutcome _ _
  have hurl : httpHeadersGet request.headers httpHeaderIfModifiedSince = none := by
    rw [httpRequestSetUrl, bind_eq_ok] at hset
    obtain ⟨uri, -, hrequest⟩ := hset
    obtain rfl := Except.ok.inj hrequest
    exact httpHeadersGet_add_of_ne (by decide) _ _
  have hrun : checkRulesetUpdate clock exchange filename url checkUpdateContext = (do
        httpRequestSend exchange
        let context ← get
        ofOutcome (compareTimes clock lastModified context.response)) { checkUpdateContext with
      request := httpRequestAddHeader (httpRequestAddHeader (httpRequestAddHeader request
        httpHeaderUserAgent httpDefaultUserAgent) httpHeaderAccept (str "application/json"))
        httpHeaderIfModifiedSince text } := by
    rw [checkRulesetUpdate, htime, run_ofOutcome_bind]
    simp only [contextSetUrl, contextAddHeader, bind_assoc]
    rw [run_get_bind, hset]
    rfl
  have hnone : httpHeadersGet (httpRequestAddHeader (httpRequestAddHeader request
      httpHeaderUserAgent httpDefaultUserAgent) httpHeaderAccept (str "application/json")).headers
      httpHeaderIfModifiedSince = none :=
    (httpHeadersGet_add_of_ne (by decide) _ _).trans
      ((httpHeadersGet_add_of_ne (by decide) _ _).trans hurl)
  rw [sentIfModifiedSince, hrun]
  refine (congrArg (Option.map HTTPHeader.value) (hrest _)).trans ?_
  exact congrArg (Option.map HTTPHeader.value) (httpHeadersGet_add_self hnone text)

/-- The header that is sent has the time of the local file. -/
theorem localTime_of_sent {Tm : Type} {clock : Clock Tm} {exchange : Exchange}
    {filename url value : Bytes}
    (h : sentIfModifiedSince clock exchange filename url = some value) :
    ∃ lastModified, localTime clock filename = .ok (lastModified, value) := by
  cases htime : localTime clock filename with
  | error e =>
    rw [sentIfModifiedSince, checkRulesetUpdate, htime] at h
    change (none : Option Bytes) = some value at h
    cases h
  | ok time =>
    obtain ⟨lastModified, text⟩ := time
    cases hset : httpRequestSetUrl checkUpdateContext.request url with
    | error e =>
      rw [sentIfModifiedSince, checkRulesetUpdate, htime, run_ofOutcome_bind] at h
      simp only [contextSetUrl, bind_assoc] at h
      rw [run_get_bind, hset] at h
      change (none : Option Bytes) = some value at h
      cases h
    | ok request =>
      rw [sentIfModifiedSince_of_ok htime hset exchange] at h
      obtain rfl := Option.some.inj h
      exact ⟨lastModified, rfl⟩

theorem orFail_eq_ok {α : Type} {result : Option α} {e : ErrorCode} {a : α} :
    orFail result e = .ok a ↔ result = some a := by
  cases result <;> simp [orFail]

theorem mktimeOrFail_eq_ok {Tm : Type} {clock : Clock Tm} {time : Tm} {r : ℤ × Tm}
    (h : mktimeOrFail clock time = .ok r) : clock.mktime time = r := by
  unfold mktimeOrFail at h
  split_ifs at h
  · cases h
  · exact Except.ok.inj h

/-- What is printed are the fields that `mktime` has left. -/
theorem localTime_eq_ok {Tm : Type} {clock : Clock Tm} {filename text : Bytes} {lastModified : ℤ}
    (h : localTime clock filename = .ok (lastModified, text)) :
    ∃ time, clock.gmtime (clock.getLastModificationTime filename) = some time ∧
      clock.strftime (clock.mktime time).2 = text := by
  unfold localTime at h
  split_ifs at h
  · cases h
  · cases h
  · rw [bind_eq_ok] at h
    obtain ⟨time, hgmtime, h⟩ := h
    rw [bind_eq_ok] at h
    obtain ⟨r, hmktime, h⟩ := h
    obtain ⟨n, corrected⟩ := r
    have htext : clock.strftime corrected = text := by
      simp only at h
      split_ifs at h
      · cases h
      · exact congrArg Prod.snd (Except.ok.inj h)
    refine ⟨time, orFail_eq_ok.1 hgmtime, ?_⟩
    rw [mktimeOrFail_eq_ok hmktime]
    exact htext

/-- The fields that are printed in a time zone. -/
theorem value_of_sent {zone : Zone} {fileExists : Bytes → Bool} {mtime : Bytes → ℤ}
    {exchange : Exchange} {filename url value : Bytes}
    (h : sentIfModifiedSince (posixClock zone fileExists mtime) exchange filename url =
      some value) :
    value = DateFormat.strftime httpDateFormat (mktime zone (gmtime (mtime filename))).2 := by
  obtain ⟨lastModified, htime⟩ := localTime_of_sent h
  obtain ⟨time, hgmtime, htext⟩ := localTime_eq_ok htime
  have heq : gmtime (mtime filename) = time := by
    simp only [posixClock] at hgmtime
    split_ifs at hgmtime
    exact Option.some.inj hgmtime
  rw [heq]
  exact htext.symm

/-- **The header has the UTC time of the file** if and only if daylight saving is not in force at
the moment that has its fields in standard time. -/
theorem ifModifiedSince_utc_iff {zone : Zone} {fileExists : Bytes → Bool} {mtime : Bytes → ℤ}
    {exchange : Exchange} {filename url value : Bytes}
    (hyear : DateFormat.FourDigits (gmtime (mtime filename)))
    (hsent : sentIfModifiedSince (posixClock zone fileExists mtime) exchange filename url =
      some value) :
    value = DateFormat.strftime httpDateFormat (gmtime (mtime filename)) ↔
      zone.isDst (mtime filename - zone.offset) = false := by
  have hvalue := value_of_sent hsent
  rw [mktime_gmtime] at hvalue
  rw [hvalue]
  constructor
  · intro heq
    by_contra hdst
    rw [Bool.not_eq_false] at hdst
    simp only [hdst, if_true] at heq
    have hfields := eq_of_strftime_eq (inRange_gmtime (mtime filename))
      ((inRange_gmtime (mtime filename + zone.saving)).isdst 1) hyear heq.symm
    have htime : timegm (gmtime (mtime filename)) =
        timegm (gmtime (mtime filename + zone.saving)) := congrArg timegm hfields
    rw [timegm_gmtime, timegm_gmtime] at htime
    exact zone.saving_ne (by omega)
  · intro hdst
    simp only [hdst, Bool.false_eq_true, if_false]

/-- Five hours behind UTC, and four from April to October of the year 2000. -/
def easternTime : Zone where
  offset := -18000
  saving := 3600
  isDst t := 954658800 ≤ t && t < 972799200
  saving_ne := by decide

/-- A file from 1 January 2000. -/
theorem ifModifiedSince_utc_winter : str "Sat, 01 Jan 2000 12:00:00 GMT" =
      DateFormat.strftime httpDateFormat (gmtime 946728000) ↔
    easternTime.isDst (946728000 - easternTime.offset) = false :=
  @ifModifiedSince_utc_iff easternTime (fun _ => true) (fun _ => 946728000) {}
    (str "rulesets.json") (str "https://example.com/rulesets.json") _ (by decide +kernel)
    (by decide +kernel)

/-- A file from noon of 1 July 2000. -/
theorem ifModifiedSince_summer :
    sentIfModifiedSince (posixClock easternTime (fun _ => true) fun _ => 962452800) {}
        (str "rulesets.json") (str "https://example.com/rulesets.json") =
      some (str "Sat, 01 Jul 2000 13:00:00 GMT") ∧
    DateFormat.strftime httpDateFormat (gmtime 962452800) ≠
      str "Sat, 01 Jul 2000 13:00:00 GMT" := by decide +kernel

/-! ## The `_WIN32` branch -/

/-- The format of `sscanf`. -/
def windowsDateFormat : List Scan.Directive :=
  (Scan.parseFormat (str "%*s, %d %s %d %d:%d:%d GMT")).getD []

theorem windowsDateFormat_eq : windowsDateFormat =
    .word false :: .text 44 :: [.space, .decimal, .space, .word true, .space, .decimal, .space,
      .decimal, .text 58, .decimal, .text 58, .decimal, .space, .text 71, .text 77, .text 84] := by
  decide

/-- The months that `month` is compared with. -/
def windowsMonths : List Bytes :=
  [str "Jan", str "Feb", str "Mar", str "Apr", str "May", str "Jun", str "Jul", str "Aug",
    str "Sep", str "Oct", str "Nov", str "Dec"]

/-- `month` has four bytes, and a word comes with a terminator. -/
def overflowsMonth : Scan.Value → Bool
  | .int _ => false
  | .string word => 4 < word.length + 1

/-- The fields of the values that `sscanf` assigns; `tm_mon` stays zero for a word that is no
month. -/
def windowsTime (value : Bytes) : Outcome Tm :=
  let values := Scan.scan windowsDateFormat value
  if values.any overflowsMonth then .error (.fault .outOfBounds)
  else match values with
    | [.int mday, .string month, .int year, .int hour, .int min, .int sec] =>
      .ok { sec, min, hour, mday, mon := (windowsMonths.idxOf? month).getD 0, year }
    | _ => fail .osStrptimeFailure

/-- The other branch. -/
def posixTime (value : Bytes) : Outcome Tm :=
  orFail (DateFormat.strptime httpDateFormat value {}) .osStrptimeFailure

/-- **`sscanf` assigns nothing**: the first word takes the comma along. -/
theorem windowsTime_eq (value : Bytes) : windowsTime value = fail .osStrptimeFailure := by
  have hscan : Scan.scan windowsDateFormat value = [] := by
    rw [windowsDateFormat_eq, Scan.scan_word_text (by decide)]
    simp only [Scan.scan]
    cases Scan.readWord value <;> rfl
  rw [windowsTime, hscan]
  rfl

-- Without the comma all values are assigned, and the year is not counted from 1900.
example : Scan.scan ((Scan.parseFormat (str "%*s %d %s %d %d:%d:%d GMT")).getD [])
    (str "Sun, 06 Nov 1994 08:49:37 GMT") =
      [.int 6, .string (str "Nov"), .int 1994, .int 8, .int 49, .int 37] := by decide

/-- A date of RFC 1123 from 1970 on, with a time of day; a minute may have a leap second. -/
structure HttpDate extends Date where
  hour : ℤ
  minute : ℤ
  second : ℤ
  year_mem : 1970 ≤ year ∧ year ≤ 9999
  hour_mem : 0 ≤ hour ∧ hour ≤ 23
  minute_mem : 0 ≤ minute ∧ minute ≤ 59
  second_mem : 0 ≤ second ∧ second ≤ 60

namespace HttpDate

variable (date : HttpDate)

/-- Its fields, with its day of the week. -/
def tm : Tm where
  sec := date.second
  min := date.minute
  hour := date.hour
  mday := date.day
  mon := date.month - 1
  year := date.year - 1900
  wday := weekday (dayNumber date.year date.month date.day)

/-- `Www, DD Mon YYYY HH:MM:SS GMT`. -/
def text : Bytes := DateFormat.strftime httpDateFormat date.tm

theorem inRange_tm : date.tm.InRange := by
  have hpos := date.month_pos
  have hle := date.month_le
  refine ⟨date.second_mem, date.minute_mem, date.hour_mem, ⟨date.day_pos, date.day_le_31⟩, ?_, ?_⟩
  · simp only [tm]
    omega
  · simp only [tm, weekday]
    omega

theorem fourDigits_tm : DateFormat.FourDigits date.tm := by
  have hyear := date.year_mem
  simp only [DateFormat.FourDigits, tm]
  omega

end HttpDate

/-- **`strptime` reads every date.** -/
theorem posixTime_text (date : HttpDate) : posixTime date.text = .ok date.tm := by
  rw [posixTime, HttpDate.text, strptime_strftime_httpDateFormat date.inRange_tm date.fourDigits_tm]
  rfl

/-- `compareTimes` with either branch. -/
def compareTimesBy {Tm : Type} (clock : Clock Tm) (readTime : Bytes → Outcome Tm)
    (lastModified : ℤ) (response : HTTPResponse) : Outcome Unit :=
  if response.status.code = statusNotModified then fail .rulesetsNotModified
  else if response.status.code ≠ statusOk then fail .httpBadStatusCode
  else match httpHeadersGet response.headers httpHeaderLastModified with
    | none => fail .rulesetsUpdateAvailable
    | some header => do
      let time ← readTime header.value
      let (remoteLastModified, _) ← mktimeOrFail clock time
      if remoteLastModified ≤ lastModified then fail .rulesetsNotModified
      else fail .rulesetsUpdateAvailable

theorem compareTimes_posixClock (zone : Zone) (fileExists : Bytes → Bool) (mtime : Bytes → ℤ) :
    compareTimes (posixClock zone fileExists mtime) =
      compareTimesBy (posixClock zone fileExists mtime) posixTime := rfl

/-- The fields that both branches fill in. -/
structure SameFields (a b : Tm) : Prop where
  mday : a.mday = b.mday
  mon : a.mon = b.mon
  year : a.year = b.year
  hour : a.hour = b.hour
  min : a.min = b.min
  sec : a.sec = b.sec

/-- The two branches read a value, with the same fields. -/
def BranchesAgree (value : Bytes) : Prop :=
  ∃ windows posix, windowsTime value = .ok windows ∧ posixTime value = .ok posix ∧
    SameFields windows posix

theorem not_branchesAgree (value : Bytes) : ¬ BranchesAgree value := by
  intro ⟨windows, posix, hwindows, _, _⟩
  rw [windowsTime_eq] at hwindows
  exact fail_ne_ok _ _ hwindows

section Decision

variable {Tm : Type} {clock : Clock Tm} {readTime : Bytes → Outcome Tm} {lastModified : ℤ}
  {response : HTTPResponse} {header : HTTPHeader}
  (hstatus : response.status.code = statusOk)
  (hheader : httpHeadersGet response.headers httpHeaderLastModified = some header)
include hstatus hheader

/-- The time in the header is what is compared. -/
theorem compareTimesBy_of_header : compareTimesBy clock readTime lastModified response =
    readTime header.value >>= fun time => mktimeOrFail clock time >>= fun remote =>
      if remote.1 ≤ lastModified then fail .rulesetsNotModified
      else fail .rulesetsUpdateAvailable := by
  have hmodified : response.status.code ≠ statusNotModified := by
    rw [hstatus]
    decide
  rw [compareTimesBy, if_neg hmodified, if_neg (not_not.2 hstatus), hheader]

theorem compareTimesBy_fail {e : ErrorCode} (h : readTime header.value = fail e) :
    compareTimesBy clock readTime lastModified response = fail e := by
  rw [compareTimesBy_of_header hstatus hheader, h, fail_bind]

/-- A time that is read leads to a decision, unless `mktime` fails. -/
theorem compareTimesBy_ok {time : Tm} (h : readTime header.value = .ok time) :
    compareTimesBy clock readTime lastModified response =
      if (clock.mktime time).1 = -1 then fail .osMktimeFailure
      else if (clock.mktime time).1 ≤ lastModified then fail .rulesetsNotModified
      else fail .rulesetsUpdateAvailable := by
  rw [compareTimesBy_of_header hstatus hheader, h, ok_bind, mktimeOrFail]
  by_cases hfail : (clock.mktime time).1 = -1
  · rw [if_pos hfail, if_pos hfail, fail_bind]
  · rw [if_neg hfail, if_neg hfail, ok_bind]

end Decision

/-- **The two branches agree on no date**, and their decisions are different. -/
theorem branches_disagree (zone : Zone) (fileExists : Bytes → Bool) (mtime : Bytes → ℤ)
    (date : HttpDate) : ¬ BranchesAgree date.text ∧
      ∀ (lastModified : ℤ) (response : HTTPResponse) (header : HTTPHeader),
        response.status.code = statusOk →
        httpHeadersGet response.headers httpHeaderLastModified = some header →
        header.value = date.text →
        compareTimesBy (posixClock zone fileExists mtime) windowsTime lastModified response ≠
          compareTimes (posixClock zone fileExists mtime) lastModified response := by
  refine ⟨not_branchesAgree date.text, ?_⟩
  intro lastModified response header hstatus hheader hvalue
  have hposix : posixTime header.value = .ok date.tm := by
    rw [hvalue]
    exact posixTime_text date
  rw [compareTimes_posixClock, compareTimesBy_fail hstatus hheader (windowsTime_eq header.value),
    compareTimesBy_ok hstatus hheader hposix]
  split_ifs <;> nofun

/-- 6 November 1994, 08:49:37. -/
def novemberDate : HttpDate where
  year := 1994
  month := 11
  day := 6
  hour := 8
  minute := 49
  second := 37
  month_pos := by decide
  month_le := by decide
  day_pos := by decide
  day_le := by decide
  year_mem := by decide
  hour_mem := by decide
  minute_mem := by decide
  second_mem := by decide

theorem not_branchesAgree_november : novemberDate.text = str "Sun, 06 Nov 1994 08:49:37 GMT" ∧
    windowsTime novemberDate.text = fail .osStrptimeFailure ∧
    posixTime novemberDate.text = .ok (gmtime 784111777) := by
  refine ⟨by decide +kernel, windowsTime_eq _, ?_⟩
  rw [posixTime_text]
  decide +kernel

end Unalix
