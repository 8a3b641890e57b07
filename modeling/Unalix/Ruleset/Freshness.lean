import Unalix.Foundations.Simulation
import Unalix.Http.Rendering
import Unalix.Ruleset.Dates
import Unalix.Ruleset.Download

/-!
# What a check finds out (`ruleset.c`)

A server has the rules, and knows when they were changed last. It may compare this time with the one
in the request, and it may state it in its response. `unalix_ruleset_check_update` finds an update
if and only if the rules are newer in each comparison that is made (`unalixRulesetCheckUpdate_served`):
its own comparison is right in every time zone, for both times are read by the same `mktime`, but
that of the server is with the time in the header. So an update is missed if and only if the server
compares and the update falls into what daylight saving adds to the time of the file
(`missed_iff`).
-/

namespace Unalix

open CString Ascii Outcome Calls Calendar BrokenDownTime

/-! ## The server -/

/-- The time in the header of a request, for a file from this time. -/
def headerTime (zone : Zone) (time : ℤ) : ℤ :=
  time + if zone.isDst (time - zone.offset) then zone.saving else 0

/-- A server with the rules: the time of their last change, whether it compares that time with the
one in a request, and whether it states it. -/
structure RulesServer where
  lastModified : ℤ
  compares : Bool
  states : Bool

/-- A response, apart from its body. -/
structure Reply where
  version : HTTPVersion
  code : ℤ
  reason : Bytes
  headers : List HTTPHeader

namespace Reply

variable (reply : Reply)

/-- Up to the empty line. -/
def head : Bytes :=
  statusLine reply.version reply.code reply.reason ++
    (crlf ++ crlf.intercalate (reply.headers.map headerLine))

/-- A response that can be received, with a head that leaves room for one more chunk. -/
structure Valid : Prop where
  reason : ReasonOk reply.reason
  headers_ne : reply.headers ≠ []
  headers : ∀ header ∈ reply.headers, HeaderOk header
  size : reply.head.length + crlfcrlf.length ≤ maxHeadersSize - maxChunkSize

end Reply

namespace RulesServer

variable (server : RulesServer)

/-- The rules have not changed since the time that this text names. -/
def NotModifiedSince (value : Bytes) : Prop :=
  ∃ since, DateFormat.FourDigits (gmtime since) ∧
    value = DateFormat.strftime httpDateFormat (gmtime since) ∧ server.lastModified ≤ since

/-- The header with the time of the rules. -/
def lastModifiedHeader : HTTPHeader :=
  ⟨httpHeaderLastModified, DateFormat.strftime httpDateFormat (gmtime server.lastModified)⟩

/-- What a server may answer to a request with this time. -/
structure Answers (value : Bytes) (reply : Reply) : Prop where
  valid : reply.Valid
  notModified : server.compares = true → server.NotModifiedSince value →
    reply.code = statusNotModified
  modified : ¬ (server.compares = true ∧ server.NotModifiedSince value) →
    reply.code = statusOk ∧
      reply.headers.find? (fun header => header.key = httpHeaderLastModified) =
        if server.states then some server.lastModifiedHeader else none

/-- An update is found: the rules are newer in each comparison that is made. -/
def Found (zone : Zone) (time : ℤ) : Prop :=
  (server.compares = true → headerTime zone time < server.lastModified) ∧
    (server.states = true → time < server.lastModified)

instance (zone : Zone) (time : ℤ) : Decidable (server.Found zone time) :=
  inferInstanceAs (Decidable (_ ∧ _))

/-- **The updates that are missed**: the server compares, and daylight saving adds to the time of the
file at least the age of the update. -/
theorem missed_iff {server : RulesServer} {zone : Zone} {time : ℤ}
    (h : time < server.lastModified) : ¬ server.Found zone time ↔
      server.compares = true ∧ zone.isDst (time - zone.offset) = true ∧
        server.lastModified ≤ time + zone.saving := by
  rw [Found, headerTime]
  cases zone.isDst (time - zone.offset)
  · simp [h]
  · simp [h]

end RulesServer

/-! ## The response is received -/

theorem Reply.Valid.headOk {reply : Reply} (h : reply.Valid) : HeadOk reply.head := by
  have hlines : reply.head = crlf.intercalate
      (statusLine reply.version reply.code reply.reason :: reply.headers.map headerLine) := by
    obtain ⟨line, lines, hcons⟩ := List.exists_cons_of_ne_nil
      (by simpa using h.headers_ne : reply.headers.map headerLine ≠ [])
    rw [Reply.head, hcons, List.intercalate_cons_cons, List.append_assoc]
  refine ⟨?_, ?_, h.size⟩
  · intro hnul
    rw [hlines] at hnul
    rcases mem_intercalate hnul with hnul | ⟨line, hline, hnul⟩
    · exact absurd hnul (by decide)
    · rcases List.mem_cons.1 hline with rfl | hline
      · exact not_mem_statusLine (.inr rfl) h.reason.nul _ _ hnul
      · obtain ⟨header, hheader, rfl⟩ := List.mem_map.1 hline
        exact nul_not_mem_headerLine (h.headers header hheader).safe hnul
  · rw [hlines]
    refine strstr_emptyLine cr_ne_lf (by simp) (fun line hline => ?_) []
    rcases List.mem_cons.1 hline with rfl | hline
    · refine ⟨by simp [statusLine], fun hin => ?_⟩
      exact not_mem_statusLine (.inl rfl) h.reason.cr _ _ (hin.subset (by simp))
    · obtain ⟨header, hheader, rfl⟩ := List.mem_map.1 hline
      refine ⟨headerLine_ne_nil header, fun hin => ?_⟩
      exact (h.headers header hheader).safe.cr_not_mem (hin.subset (by simp))

/-- No call before the request has been sent fails. -/
structure Exchange.Connects (exchange : Exchange) : Prop where
  resolved : exchange.resolved = true
  socket : exchange.socket.isSome = true
  timeoutSet : exchange.timeoutSet = true
  connected : exchange.connected = true
  sent : exchange.sent = true

theorem exists_openConnection {exchange : Exchange} (h : exchange.Connects)
    {context : HTTPContext} {scheme : Bytes} (hport : checkPort context.request.uri = .ok ())
    (hscheme : context.request.uri.scheme = some scheme) :
    ∃ isHttps context', openConnection exchange context = .ok isHttps context' := by
  have hderef : deref context.request.uri.scheme = .ok scheme := by
    rw [hscheme]
    rfl
  simp only [openConnection, run_get_bind, run_modify_bind, hport, hderef, run_ofOutcome_bind,
    h.resolved, h.socket, h.timeoutSet, Bool.or_true, h.connected, h.sent, run_require_bind]
  exact ⟨_, _, rfl⟩

/-! ## The local file -/

/-- The time of a local file that can be printed: the years have four digits, and the time is none
of those that stand for failures. -/
structure Printable (zone : Zone) (time : ℤ) : Prop where
  ne_zero : time ≠ 0
  ne_failure : time - zone.offset ≠ -1
  year : DateFormat.FourDigits (gmtime time)
  headerYear : DateFormat.FourDigits (gmtime (headerTime zone time))

theorem length_strftime_year {before after : List DateFormat.Directive} {tm : Tm}
    (h : tm.InRange) (hyear : DateFormat.FourDigits tm) (hbefore : .year ∉ before)
    (hafter : .year ∉ after) : (DateFormat.strftime (before ++ .year :: after) tm).length =
      (before.map DateFormat.Directive.width).sum +
        (4 + (after.map DateFormat.Directive.width).sum) := by
  obtain ⟨hlo, hhi⟩ := hyear
  obtain ⟨year, hcast⟩ := Int.eq_ofNat_of_zero_le (show 0 ≤ tm.year + 1900 by omega)
  have hlength : (DateFormat.renderNumber 1 (tm.year + 1900)).length = 3 + 1 := by
    rw [hcast] at hlo hhi ⊢
    exact DateFormat.length_renderNumber_one (by decide) (by omega) (by omega)
  rw [DateFormat.strftime, List.flatMap_append, List.flatMap_cons, List.length_append,
    List.length_append]
  exact congrArg₂ (· + ·) (DateFormat.length_strftime h hbefore)
    (congrArg₂ (· + ·) hlength (DateFormat.length_strftime h hafter))

/-- A date has 29 characters. -/
theorem length_strftime_httpDateFormat {tm : Tm} (h : tm.InRange)
    (hyear : DateFormat.FourDigits tm) :
    (DateFormat.strftime httpDateFormat tm).length = httpDateSize := by
  rw [httpDateFormat_eq, length_strftime_year h hyear (by decide) (by decide)]
  rfl

/-- The kind of time is not printed. -/
theorem strftime_isdst (tm : Tm) (isdst : ℤ) :
    DateFormat.strftime httpDateFormat { tm with isdst := isdst } =
      DateFormat.strftime httpDateFormat tm := by
  rw [httpDateFormat_eq]
  rfl

section Check

variable {zone : Zone} {fileExists : Bytes → Bool} {mtime : Bytes → ℤ} {filename url : Bytes}

theorem mktimeOrFail_of_ne {Tm : Type} {clock : Clock Tm} {time : Tm}
    (h : (clock.mktime time).1 ≠ -1) : mktimeOrFail clock time = .ok (clock.mktime time) := by
  rw [mktimeOrFail, if_neg h]

/-- The time is printed when no call fails. -/
theorem localTime_ok {Tm : Type} {clock : Clock Tm} {time : Tm}
    (hexists : clock.fileExists filename = true)
    (hzero : clock.getLastModificationTime filename ≠ 0)
    (hgmtime : clock.gmtime (clock.getLastModificationTime filename) = some time)
    (hmktime : (clock.mktime time).1 ≠ -1)
    (hlength : (clock.strftime (clock.mktime time).2).length = httpDateSize) :
    localTime clock filename = .ok ((clock.mktime time).1, clock.strftime (clock.mktime time).2) := by
  have hfile : ¬ (!clock.fileExists filename) = true := by simp [hexists]
  have hsize : ¬ (clock.strftime (clock.mktime time).2).length ≠ httpDateSize := not_not.2 hlength
  rw [localTime, if_neg hfile, if_neg hzero, hgmtime]
  change (mktimeOrFail clock time >>= _) = _
  rw [mktimeOrFail_of_ne hmktime]
  exact if_neg hsize

/-- **What is compared, and what is printed.** -/
theorem localTime_of_printable (hexists : fileExists filename = true)
    (h : Printable zone (mtime filename)) :
    localTime (posixClock zone fileExists mtime) filename =
      .ok (mtime filename - zone.offset,
        DateFormat.strftime httpDateFormat (gmtime (headerTime zone (mtime filename)))) := by
  set clock := posixClock zone fileExists mtime with hclock
  have hgmtime : clock.gmtime (clock.getLastModificationTime filename) =
      some (gmtime (mtime filename)) := by
    have hyear : -2 ^ 31 ≤ (gmtime (mtime filename)).year ∧
        (gmtime (mtime filename)).year < 2 ^ 31 := by
      obtain ⟨hlo, hhi⟩ := h.year
      omega
    exact if_pos hyear
  have hmktime : clock.mktime (gmtime (mtime filename)) = (mtime filename - zone.offset, _) :=
    mktime_gmtime zone (mtime filename)
  have hprinted : clock.strftime (clock.mktime (gmtime (mtime filename))).2 =
      DateFormat.strftime httpDateFormat (gmtime (headerTime zone (mtime filename))) := by
    rw [hmktime, headerTime]
    by_cases hdst : zone.isDst (mtime filename - zone.offset) = true
    · rw [if_pos hdst, if_pos hdst]
      exact strftime_isdst _ 1
    · rw [if_neg hdst, if_neg hdst, add_zero]
      rfl
  have hne : (clock.mktime (gmtime (mtime filename))).1 ≠ -1 := by
    rw [hmktime]
    exact h.ne_failure
  rw [localTime_ok hexists h.ne_zero hgmtime hne, hprinted, hmktime]
  rw [hprinted]
  exact length_strftime_httpDateFormat (inRange_gmtime _) h.headerYear

end Check

/-! ## The comparisons -/

/-- The server reads the time that was printed. -/
theorem notModifiedSince_iff {server : RulesServer} {time : ℤ}
    (hyear : DateFormat.FourDigits (gmtime time)) :
    server.NotModifiedSince (DateFormat.strftime httpDateFormat (gmtime time)) ↔
      server.lastModified ≤ time := by
  constructor
  · rintro ⟨since, -, heq, hle⟩
    have hfields := eq_of_strftime_eq (inRange_gmtime time) (inRange_gmtime since) hyear heq
    have hsame : timegm (gmtime time) = timegm (gmtime since) := congrArg timegm hfields
    rw [timegm_gmtime, timegm_gmtime] at hsame
    rwa [hsame]
  · intro hle
    exact ⟨time, hyear, rfl, hle⟩

section Compare

variable {zone : Zone} {fileExists : Bytes → Bool} {mtime : Bytes → ℤ} {server : RulesServer}
  {response : HTTPResponse} {time : ℤ}

/-- The comparison of the client: both times come from `mktime`, so its zone does not matter. -/
theorem compareTimes_lastModified (hyear : DateFormat.FourDigits (gmtime server.lastModified))
    (hfailure : server.lastModified - zone.offset ≠ -1) (hcode : response.status.code = statusOk)
    (hheader : httpHeadersGet response.headers httpHeaderLastModified =
      some server.lastModifiedHeader) :
    compareTimes (posixClock zone fileExists mtime) (time - zone.offset) response =
      fail (if time < server.lastModified then .rulesetsUpdateAvailable
        else .rulesetsNotModified) := by
  have hread : posixTime server.lastModifiedHeader.value = .ok (gmtime server.lastModified) := by
    rw [RulesServer.lastModifiedHeader, posixTime,
      strptime_strftime_httpDateFormat (inRange_gmtime _) hyear]
    rfl
  have hmktime : ((posixClock zone fileExists mtime).mktime (gmtime server.lastModified)).1 =
      server.lastModified - zone.offset := congrArg Prod.fst (mktime_gmtime zone _)
  rw [compareTimes_posixClock, compareTimesBy_ok hcode hheader hread, hmktime, if_neg hfailure]
  by_cases hnew : time < server.lastModified
  · rw [if_pos hnew, if_neg (by omega)]
  · rw [if_neg hnew, if_pos (by omega)]

/-- **All comparisons**, for a response to the time that was printed. -/
theorem compareTimes_served {reply : Reply} (hheaderYear :
      DateFormat.FourDigits (gmtime (headerTime zone time)))
    (hyear : DateFormat.FourDigits (gmtime server.lastModified))
    (hfailure : server.states = true → server.lastModified - zone.offset ≠ -1)
    (hanswers : server.Answers
      (DateFormat.strftime httpDateFormat (gmtime (headerTime zone time))) reply)
    (hcode : response.status.code = reply.code) (hitems : response.headers.items = reply.headers) :
    compareTimes (posixClock zone fileExists mtime) (time - zone.offset) response =
      fail (if server.Found zone time then .rulesetsUpdateAvailable else .rulesetsNotModified) := by
  have hsince := @notModifiedSince_iff server _ hheaderYear
  by_cases hold : server.compares = true ∧ server.lastModified ≤ headerTime zone time
  · have hmodified := hanswers.notModified hold.1 (hsince.2 hold.2)
    have hfound : ¬ server.Found zone time := fun h => absurd (h.1 hold.1) (by omega)
    rw [if_neg hfound, compareTimes, if_pos (hcode.trans hmodified)]
  · rw [← hsince] at hold
    obtain ⟨hok, hfind⟩ := hanswers.modified hold
    have hget : httpHeadersGet response.headers httpHeaderLastModified =
        if server.states then some server.lastModifiedHeader else none := by
      rw [httpHeadersGet, hitems, hfind]
    have hcompared : server.compares = true → headerTime zone time < server.lastModified := by
      intro hcompares
      by_contra hle
      exact hold ⟨hcompares, hsince.2 (by omega)⟩
    have hiff : server.Found zone time ↔
        (server.states = true → time < server.lastModified) := and_iff_right hcompared
    by_cases hstates : server.states = true
    · rw [if_pos hstates] at hget
      rw [compareTimes_lastModified hyear (hfailure hstates) (hcode.trans hok) hget]
      simp only [hiff, hstates, true_implies]
    · rw [if_neg hstates] at hget
      have hnotModified : ¬ response.status.code = statusNotModified := by
        rw [hcode, hok]
        decide
      rw [if_pos (hiff.2 fun h => absurd h hstates), compareTimes, if_neg hnotModified,
        if_neg (not_not.2 (hcode.trans hok)), hget]

end Compare

/-! ## Whole checks -/

section Check

variable {Tm : Type} {clock : Clock Tm} {exchange : Exchange} {filename url text : Bytes}
  {lastModified : ℤ} {uri : URI}

/-- The request of a check. -/
def checkRequest (uri : URI) (text : Bytes) : HTTPRequest :=
  let request : HTTPRequest := { checkUpdateContext.request with
    uri := uri, headers := setHostHeader checkUpdateContext.request.headers uri }
  httpRequestAddHeader (httpRequestAddHeader (httpRequestAddHeader request httpHeaderUserAgent
    httpDefaultUserAgent) httpHeaderAccept (str "application/json")) httpHeaderIfModifiedSince text

theorem RulesServer.Answers.known {server : RulesServer} {value : Bytes} {reply : Reply}
    (h : server.Answers value reply) : httpStatusStringify reply.code ≠ none := by
  by_cases hold : server.compares = true ∧ server.NotModifiedSince value
  · rw [h.notModified hold.1 hold.2]
    decide
  · rw [(h.modified hold).1]
    decide

theorem httpRequestSetUrl_of_uriParse (huri : uriParse {} url = .ok uri) :
    httpRequestSetUrl checkUpdateContext.request url = .ok { checkUpdateContext.request with
      uri := uri, headers := setHostHeader checkUpdateContext.request.headers uri } := by
  have hparse : uriParse checkUpdateContext.request.uri url = .ok uri := huri
  rw [httpRequestSetUrl, hparse]
  rfl

theorem checkRulesetUpdate_of_ok (htime : localTime clock filename = .ok (lastModified, text))
    (huri : uriParse {} url = .ok uri) :
    checkRulesetUpdate clock exchange filename url checkUpdateContext = (do
        httpRequestSend exchange
        let context ← get
        ofOutcome (compareTimes clock lastModified context.response))
      { checkUpdateContext with request := checkRequest uri text } := by
  rw [checkRulesetUpdate, htime, run_ofOutcome_bind]
  simp only [contextSetUrl, contextAddHeader, bind_assoc]
  rw [run_get_bind, httpRequestSetUrl_of_uriParse huri]
  rfl

/-- A response that is received is compared. -/
theorem checkRulesetUpdate_receiving {reply : Reply} {body : Bytes}
    (htime : localTime clock filename = .ok (lastModified, text))
    (huri : uriParse {} url = .ok uri) (hport : checkPort uri = .ok ())
    (hconnects : exchange.Connects) (hvalid : reply.Valid)
    (hcode : httpStatusStringify reply.code ≠ none) (cut : Cut (reply.head ++ (crlfcrlf ++ body))) :
    ∃ response context, response.status.code = reply.code ∧
      response.headers.items = reply.headers ∧
      checkRulesetUpdate clock (exchange.receiving cut) filename url checkUpdateContext =
        ofOutcome (compareTimes clock lastModified response) context := by
  obtain ⟨R, -, hR⟩ := uriParse_eq_ok_iff.1 huri
  have hscheme : uri.scheme = some (R.scheme.map lower) := by
    rw [← hR]
    rfl
  obtain ⟨isHttps, opened, hopen⟩ := @exists_openConnection _ hconnects
    { checkUpdateContext with request := checkRequest uri text } _ hport hscheme
  have hhead := @parseHead_render reply.version _ _ _ hcode hvalid.reason hvalid.headers_ne
    hvalid.headers {}
  have hdownload : downloadHead exchange reply.head
      { checkUpdateContext with request := checkRequest uri text } = parseHead {} reply.head := by
    rw [downloadHead, hopen]
    rfl
  obtain ⟨rest, context, hsend, hreceived⟩ :=
    httpRequestSend_of_ok hvalid.headOk rfl cut (hdownload.trans hhead)
  refine ⟨context.response, context, ?_, ?_, ?_⟩
  · rw [hreceived.response]
  · rw [hreceived.response]
    simp
  · rw [checkRulesetUpdate_of_ok htime huri, run_bind_of_ok hsend]
    rfl

end Check

/-- **A check finds an update if and only if the rules are newer in each comparison**: that of the
server with the time in the header, and that of the client with the time of the file. This holds in
every time zone, and however the network cuts the response. -/
theorem unalixRulesetCheckUpdate_served {zone : Zone} {fileExists : Bytes → Bool}
    {mtime : Bytes → ℤ} {exchange : Exchange} {filename url body : Bytes} {uri : URI}
    {server : RulesServer} {reply : Reply} (hname : filename ≠ [])
    (hexists : fileExists filename = true) (hprintable : Printable zone (mtime filename))
    (hyear : DateFormat.FourDigits (gmtime server.lastModified))
    (hfailure : server.states = true → server.lastModified - zone.offset ≠ -1)
    (huri : uriParse {} url = .ok uri) (hport : checkPort uri = .ok ())
    (hconnects : exchange.Connects) (cut : Cut (reply.head ++ (crlfcrlf ++ body))) :
    ∃ value, sentIfModifiedSince (posixClock zone fileExists mtime) (exchange.receiving cut)
        filename url = some value ∧
      (server.Answers value reply →
        (unalixRulesetCheckUpdate (posixClock zone fileExists mtime) (exchange.receiving cut)
          (some filename) (some url)).1 =
          fail (if server.Found zone (mtime filename) then .rulesetsUpdateAvailable
            else .rulesetsNotModified)) := by
  have htime := localTime_of_printable hexists hprintable
  refine ⟨_, sentIfModifiedSince_of_ok htime (httpRequestSetUrl_of_uriParse huri) _, ?_⟩
  intro hanswers
  obtain ⟨response, context, hstatus, hitems, hrun⟩ :=
    checkRulesetUpdate_receiving htime huri hport hconnects hanswers.valid hanswers.known
      cut
  have hcompare := @compareTimes_served zone fileExists mtime _ _ _ _ hprintable.headerYear hyear
    hfailure hanswers hstatus hitems
  obtain ⟨c, filename, rfl⟩ := List.exists_cons_of_ne_nil hname
  obtain ⟨d, url, rfl⟩ : ∃ d s, url = d :: s := by
    cases url with
    | nil => cases huri
    | cons d s => exact ⟨d, s, rfl⟩
  rw [hcompare] at hrun
  rw [unalixRulesetCheckUpdate, hrun]
  rfl

/-- A server that states the time of its rules and compares it with that in a request. -/
def comparingServer (lastModified : ℤ) : RulesServer := ⟨lastModified, true, true⟩

/-- Its answer when it finds the rules old. -/
def notModifiedReply : Reply :=
  ⟨.http11, statusNotModified, str "Not Modified", [⟨str "Server", str "nginx"⟩]⟩

def notModifiedCut : Cut (notModifiedReply.head ++ (crlfcrlf ++ [])) :=
  ⟨[notModifiedReply.head ++ crlfcrlf], by decide, by decide⟩

theorem notModifiedReply_answers :
    (comparingServer 962454600).Answers (str "Sat, 01 Jul 2000 13:00:00 GMT") notModifiedReply where
  valid := by
    refine ⟨⟨by decide, by decide, by decide⟩, by decide, ?_, by decide⟩
    simp only [notModifiedReply, List.mem_singleton, forall_eq]
    exact ⟨⟨by decide, by decide⟩, by decide, by decide⟩
  notModified _ _ := rfl
  modified h := absurd ⟨rfl, 962456400, by decide +kernel, by decide +kernel, by decide⟩ h

/-- In summer time an update that is half an hour newer than the file is missed. -/
theorem unalixRulesetCheckUpdate_served_summer :
    (unalixRulesetCheckUpdate (posixClock easternTime (fun _ => true) fun _ => 962452800)
      (Exchange.receiving {} notModifiedCut) (some (str "rulesets.json"))
      (some (str "https://example.com/rulesets.json"))).1 = fail .rulesetsNotModified := by
  obtain ⟨value, hsent, hresult⟩ := @unalixRulesetCheckUpdate_served easternTime (fun _ => true)
    (fun _ => 962452800) {} (str "rulesets.json") (str "https://example.com/rulesets.json") [] _
    (comparingServer 962454600) notModifiedReply (by decide) rfl
    ⟨by decide, by decide, by decide +kernel, by decide +kernel⟩ (by decide +kernel)
    (fun _ => by decide) rfl rfl ⟨rfl, rfl, rfl, rfl, rfl⟩ notModifiedCut
  have hvalue : sentIfModifiedSince (posixClock easternTime (fun _ => true) fun _ => 962452800)
      (Exchange.receiving {} notModifiedCut) (str "rulesets.json")
      (str "https://example.com/rulesets.json") = some (str "Sat, 01 Jul 2000 13:00:00 GMT") := by
    decide +kernel
  obtain rfl := Option.some.inj (hsent.symm.trans hvalue)
  exact (hresult notModifiedReply_answers).trans (by decide)

end Unalix
