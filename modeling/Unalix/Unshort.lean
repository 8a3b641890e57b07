import Unalix.Foundations.Chains
import Unalix.Http.Redirect
import Unalix.CleanUrl.Independence

/-!
# Following the redirects of servers (`unshort_url.c`)

`unalix_unshort_url` cleans the URL, asks its server and goes on with the location that the
response redirects to, until a response does not redirect. A counter is compared with a limit after
each redirect. So the number of requests is bounded, whatever the servers answer, and the result is
the cleaned form of the last location or the code for too many redirects, according to the first
`HTTP_DEFAULT_MAX_REDIRECTS + 1` responses alone (`unshort_bounded`).

A server may answer according to all the requests before. The calls of `unalix_clean_url` are taken
as returning.
-/

namespace Unalix

open Outcome Calls Chains

/-- `HTTP_DEFAULT_MAX_REDIRECTS`. -/
def httpDefaultMaxRedirects : ℕ := 20

/-- The servers and the network: what happens in an exchange depends on the requests so far, the
last of which is its own. -/
abbrev Server := List HTTPRequest → Exchange

/-- The state of `unalix_unshort_url`, with the requests handed to `http_request_send` and the calls
for the descriptors so far. -/
structure Unshort where
  totalRedirects : ℕ := 0
  location : Option Bytes := none
  targetUrl : Option Bytes := none
  requests : List HTTPRequest := []
  calls : List FdCall := []

/-- The end of a turn of the loop: `http_context_free` on its context, whatever the code is. -/
def Unshort.free (s : Unshort) (result : Outcome (Option Bytes)) (context : HTTPContext) : Unshort :=
  { s with calls := s.calls ++ (freeAfter result context).connection.calls }

/-- The user agent, or the default one. -/
def chooseUserAgent (userAgent : Option Bytes) : Bytes :=
  match userAgent with
  | none => httpDefaultUserAgent
  | some [] => httpDefaultUserAgent
  | some userAgent => userAgent

/-- The context of a turn of the loop. -/
def unshortContext (timeout : ℤ) : HTTPContext where
  request := { version := .http10, method := .get }
  connection := { timeout := if 0 < timeout then timeout else httpDefaultTimeout }

/-- The headers and the URL of the request. -/
def prepareRequest (userAgent : Option Bytes) (url : Bytes) : EStateM Failure HTTPContext Unit := do
  contextAddHeader httpHeaderAccept (str "*/*")
  contextAddHeader httpHeaderUserAgent (chooseUserAgent userAgent)
  contextSetUrl url

section Unshort

variable (clean : Bytes → Outcome Bytes) (server : Server) (userAgent : Option Bytes) (timeout : ℤ)

/-- A turn of the loop, up to the test of the location. -/
def unshortRound (sourceUrl : Bytes) (s : Unshort) : Outcome (Option Bytes) × Unshort :=
  match clean (s.location.getD sourceUrl) with
  | .error e => (.error e, { s with location := none })
  | .ok url =>
    let s := { s with location := none, targetUrl := some url }
    match prepareRequest userAgent url (unshortContext timeout) with
    | .error e context => (.error e, s.free (.error e) context)
    | .ok () context =>
      let s := { s with requests := s.requests ++ [context.request] }
      match httpRequestSend (server s.requests) context with
      | .error e context => (.error e, s.free (.error e) context)
      | .ok () context => (httpGetRedirect context, s.free (httpGetRedirect context) context)

/-- A turn of the loop: the loop goes on, or the function returns. -/
def unshortStep (sourceUrl : Bytes) (s : Unshort) : Unshort ⊕ (Outcome Unit × Unshort) :=
  match unshortRound clean server userAgent timeout sourceUrl s with
  | (.error e, s) => .inr (.error e, s)
  | (.ok none, s) => .inr (.ok (), s)
  | (.ok (some location), s) =>
    let s := { s with location := some location, totalRedirects := s.totalRedirects + 1 }
    if httpDefaultMaxRedirects < s.totalRedirects then .inr (fail .httpTooManyRedirects, s)
    else .inl s

/-- `unalix_unshort_url`, in a run of at most `fuel` turns of the loop. -/
def unalixUnshortUrl (fuel : ℕ) (sourceUrl targetUrl : Option Bytes) :
    Option (Outcome Unit × Unshort) :=
  match sourceUrl with
  | none => some (fail .argInvalid, { targetUrl := targetUrl })
  | some [] => some (fail .argInvalid, { targetUrl := targetUrl })
  | some sourceUrl =>
    follow (unshortStep clean server userAgent timeout sourceUrl) fuel { targetUrl := targetUrl }

end Unshort

/-! ## The redirects of a run -/

section Unshort

variable {clean : Bytes → Outcome Bytes} {server : Server} {userAgent : Option Bytes} {timeout : ℤ}
  {sourceUrl : Bytes} {s s' : Unshort}

variable (clean server userAgent timeout sourceUrl) in
/-- The state after a turn whose response redirects to a location. -/
def nextRound (s : Unshort) : Option Unshort :=
  match unshortRound clean server userAgent timeout sourceUrl s with
  | (.ok (some location), s) =>
    some { s with location := some location, totalRedirects := s.totalRedirects + 1 }
  | _ => none

variable (clean server userAgent timeout sourceUrl) in
/-- The state before turn `n`, when all the responses before it redirect to a location. -/
def redirected (targetUrl : Option Bytes) : ℕ → Option Unshort
  | 0 => some { targetUrl := targetUrl }
  | n + 1 => (redirected targetUrl n).bind (nextRound clean server userAgent timeout sourceUrl)

/-- What a turn leaves alone, and how many requests it makes. -/
theorem unshortRound_counts (s : Unshort) :
    let r := unshortRound clean server userAgent timeout sourceUrl s
    r.2.totalRedirects = s.totalRedirects ∧ r.2.requests.length ≤ s.requests.length + 1 := by
  intro r
  simp only [r, unshortRound]
  split
  · exact ⟨rfl, Nat.le_succ _⟩
  · split
    · exact ⟨rfl, Nat.le_succ _⟩
    · split <;> exact ⟨rfl, by simp [Unshort.free]⟩

theorem nextRound_counts
    (h : nextRound clean server userAgent timeout sourceUrl s = some s') :
    s'.totalRedirects = s.totalRedirects + 1 ∧ s'.requests.length ≤ s.requests.length + 1 := by
  have hcounts := @unshortRound_counts clean server userAgent timeout sourceUrl s
  unfold nextRound at h
  split at h
  · rename_i location s₁ hround
    rw [hround] at hcounts
    obtain rfl := Option.some.inj h
    exact ⟨congrArg (· + 1) hcounts.1, hcounts.2⟩
  · cases h

/-- The counter counts the redirects, and there is at most one request for each. -/
theorem redirected_counts {targetUrl : Option Bytes} {n : ℕ}
    (h : redirected clean server userAgent timeout sourceUrl targetUrl n = some s) :
    s.totalRedirects = n ∧ s.requests.length ≤ n := by
  induction n generalizing s with
  | zero =>
    obtain rfl := Option.some.inj h
    exact ⟨rfl, Nat.le_refl 0⟩
  | succ n ih =>
    obtain ⟨s₀, hs₀, hnext⟩ := Option.bind_eq_some_iff.1 h
    obtain ⟨hcounter, hrequests⟩ := ih hs₀
    obtain ⟨hcounter', hrequests'⟩ := nextRound_counts hnext
    exact ⟨by omega, by omega⟩

/-- Before a redirect there are only redirects. -/
theorem redirected_isSome_of_le {targetUrl : Option Bytes} {m n : ℕ} (hmn : m ≤ n)
    (h : (redirected clean server userAgent timeout sourceUrl targetUrl n).isSome = true) :
    (redirected clean server userAgent timeout sourceUrl targetUrl m).isSome = true := by
  induction hmn with
  | refl => exact h
  | step _ ih =>
    apply ih
    rw [redirected, Option.isSome_bind] at h
    exact Option.isSome_of_any h

/-- **What a turn does**: it goes on, with one redirect more but within the limit, or it ends with
too many redirects, with the error of one of its steps, or with a response that does not
redirect. -/
theorem unshortStep_cases (s : Unshort) :
    (∃ s', nextRound clean server userAgent timeout sourceUrl s = some s' ∧
      s'.totalRedirects ≤ httpDefaultMaxRedirects ∧
      unshortStep clean server userAgent timeout sourceUrl s = .inl s') ∨
    (∃ s', nextRound clean server userAgent timeout sourceUrl s = some s' ∧
      httpDefaultMaxRedirects < s'.totalRedirects ∧
      unshortStep clean server userAgent timeout sourceUrl s =
        .inr (fail .httpTooManyRedirects, s')) ∨
    (∃ e s', unshortRound clean server userAgent timeout sourceUrl s = (.error e, s') ∧
      unshortStep clean server userAgent timeout sourceUrl s = .inr (.error e, s')) ∨
    (∃ s', unshortRound clean server userAgent timeout sourceUrl s = (.ok none, s') ∧
      unshortStep clean server userAgent timeout sourceUrl s = .inr (.ok (), s')) := by
  unfold unshortStep nextRound
  rcases unshortRound clean server userAgent timeout sourceUrl s with ⟨e | _ | location, s₁⟩
  · exact .inr (.inr (.inl ⟨e, s₁, rfl, rfl⟩))
  · exact .inr (.inr (.inr ⟨s₁, rfl, rfl⟩))
  · by_cases hlimit : httpDefaultMaxRedirects < s₁.totalRedirects + 1
    · refine .inr (.inl ⟨_, rfl, hlimit, ?_⟩)
      simp only [if_pos hlimit]
    · refine .inl ⟨_, rfl, Nat.le_of_not_lt hlimit, ?_⟩
      simp only [if_neg hlimit]

/-- The states of a run are those of its redirects. -/
theorem exists_redirected_of_met {targetUrl : Option Bytes}
    (h : Met (unshortStep clean server userAgent timeout sourceUrl) { targetUrl := targetUrl } s) :
    ∃ n ≤ httpDefaultMaxRedirects,
      redirected clean server userAgent timeout sourceUrl targetUrl n = some s := by
  refine Met.induct (P := fun s => ∃ n ≤ httpDefaultMaxRedirects,
    redirected clean server userAgent timeout sourceUrl targetUrl n = some s) ?_
    ⟨0, Nat.zero_le _, rfl⟩ h
  intro s s' ⟨n, _, hs⟩ hstep
  rcases @unshortStep_cases clean server userAgent timeout sourceUrl s with
    ⟨s₁, hnext, hlimit, heq⟩ | ⟨s₁, -, -, heq⟩ | ⟨e, s₁, -, heq⟩ | ⟨s₁, -, heq⟩
  · obtain rfl := Sum.inl.inj (heq.symm.trans hstep)
    have hs' : redirected clean server userAgent timeout sourceUrl targetUrl (n + 1) = some s₁ := by
      rw [redirected, hs, Option.bind_some, hnext]
    refine ⟨n + 1, ?_, hs'⟩
    rw [(redirected_counts hs').1] at hlimit
    exact hlimit
  · cases heq.symm.trans hstep
  · cases heq.symm.trans hstep
  · cases heq.symm.trans hstep

/-- The loop ends within the limit. -/
theorem exists_follow_unshortStep (targetUrl : Option Bytes) :
    ∃ result, follow (unshortStep clean server userAgent timeout sourceUrl)
      (httpDefaultMaxRedirects + 1) { targetUrl := targetUrl } = some result := by
  apply exists_follow fun s => httpDefaultMaxRedirects - s.totalRedirects
  · intro s s' _ hstep
    rcases @unshortStep_cases clean server userAgent timeout sourceUrl s with
      ⟨s₁, hnext, hlimit, heq⟩ | ⟨s₁, -, -, heq⟩ | ⟨e, s₁, -, heq⟩ | ⟨s₁, -, heq⟩
    · obtain rfl := Sum.inl.inj (heq.symm.trans hstep)
      have hcounter := (nextRound_counts hnext).1
      omega
    · cases heq.symm.trans hstep
    · cases heq.symm.trans hstep
    · cases heq.symm.trans hstep
  · exact Nat.lt_succ_self _

/-- **How a run ends**: after some redirects, with one too many, with the error of a step, or with a
response that does not redirect. -/
theorem exists_of_follow {targetUrl : Option Bytes} {fuel : ℕ} {code : Outcome Unit}
    (h : follow (unshortStep clean server userAgent timeout sourceUrl) fuel
      { targetUrl := targetUrl } = some (code, s')) :
    ∃ n ≤ httpDefaultMaxRedirects, ∃ s,
      redirected clean server userAgent timeout sourceUrl targetUrl n = some s ∧
      ((n = httpDefaultMaxRedirects ∧ code = fail .httpTooManyRedirects ∧
          nextRound clean server userAgent timeout sourceUrl s = some s') ∨
        (∃ e, code = .error e ∧
          unshortRound clean server userAgent timeout sourceUrl s = (.error e, s')) ∨
        (code = .ok () ∧
          unshortRound clean server userAgent timeout sourceUrl s = (.ok none, s'))) := by
  obtain ⟨s, hmet, hend⟩ := exists_met_of_follow h
  obtain ⟨n, hn, hs⟩ := exists_redirected_of_met hmet
  refine ⟨n, hn, s, hs, ?_⟩
  rcases @unshortStep_cases clean server userAgent timeout sourceUrl s with
    ⟨s₁, -, -, heq⟩ | ⟨s₁, hnext, hlimit, heq⟩ | ⟨e, s₁, hround, heq⟩ | ⟨s₁, hround, heq⟩
  · cases heq.symm.trans hend
  · obtain ⟨rfl, rfl⟩ := Prod.mk.inj (Sum.inr.inj (heq.symm.trans hend))
    have hcounter := (nextRound_counts hnext).1
    have hredirects := (redirected_counts hs).1
    exact .inl ⟨by omega, rfl, hnext⟩
  · obtain ⟨rfl, rfl⟩ := Prod.mk.inj (Sum.inr.inj (heq.symm.trans hend))
    exact .inr (.inl ⟨e, rfl, hround⟩)
  · obtain ⟨rfl, rfl⟩ := Prod.mk.inj (Sum.inr.inj (heq.symm.trans hend))
    exact .inr (.inr ⟨rfl, hround⟩)

/-- **A run makes at most one request in each of its turns.** -/
theorem length_requests_le {targetUrl : Option Bytes} {fuel : ℕ} {code : Outcome Unit}
    (h : follow (unshortStep clean server userAgent timeout sourceUrl) fuel
      { targetUrl := targetUrl } = some (code, s')) :
    s'.requests.length ≤ httpDefaultMaxRedirects + 1 := by
  obtain ⟨n, hn, s, hs, hend⟩ := exists_of_follow h
  have hrequests := (redirected_counts hs).2
  have hround := (@unshortRound_counts clean server userAgent timeout sourceUrl s).2
  rcases hend with ⟨-, -, hnext⟩ | ⟨e, -, heq⟩ | ⟨-, heq⟩
  · have hlast := (nextRound_counts hnext).2
    omega
  · rw [heq] at hround
    simp only at hround
    omega
  · rw [heq] at hround
    simp only at hround
    omega

/-- There is no redirect behind a turn whose response does not redirect. -/
theorem not_isSome_redirected {targetUrl : Option Bytes} {m n : ℕ} (hmn : m < n)
    (hs : redirected clean server userAgent timeout sourceUrl targetUrl m = some s)
    (hnext : nextRound clean server userAgent timeout sourceUrl s = none) :
    ¬ (redirected clean server userAgent timeout sourceUrl targetUrl n).isSome = true := by
  intro hall
  have hsome := redirected_isSome_of_le hmn hall
  rw [redirected, hs, Option.bind_some, hnext] at hsome
  cases hsome

/-- The target of a turn whose steps succeed is the cleaned URL. -/
theorem targetUrl_of_unshortRound {location : Option Bytes}
    (h : unshortRound clean server userAgent timeout sourceUrl s = (.ok location, s')) :
    ∃ target, clean (s.location.getD sourceUrl) = .ok target ∧ s'.targetUrl = some target := by
  unfold unshortRound at h
  split at h
  · cases (Prod.mk.inj h).1
  · rename_i target hclean
    refine ⟨target, hclean, ?_⟩
    simp only at h
    split at h
    · cases (Prod.mk.inj h).1
    · split at h
      · cases (Prod.mk.inj h).1
      · rw [← (Prod.mk.inj h).2]
        rfl

end Unshort

/-! ## The bound -/

/-- The calls of `unalix_clean_url` with some flags return, with the results `clean`. -/
def Returning {Code : Type} (pcre : Pcre Code) (rulesets : Rulesets Code) (flags : Flags)
    (clean : Bytes → Outcome Bytes) : Prop :=
  ∀ url, ∃ fuel, unalixCleanUrl pcre rulesets fuel (some url) flags = some (clean url)

/-- **Redirect following is bounded and exact.** Whatever the servers answer, there are at most
`HTTP_DEFAULT_MAX_REDIRECTS + 1` requests. When no step of a turn returns an error, the code is that
of too many redirects if and only if the first `HTTP_DEFAULT_MAX_REDIRECTS + 1` responses all
redirect to a location; otherwise it is success, and the target is the last location cleaned, or
the source URL when there was none. -/
theorem unshort_bounded {Code : Type} {pcre : Pcre Code} {rulesets : Rulesets Code} {flags : Flags}
    {clean : Bytes → Outcome Bytes} (hclean : Returning pcre rulesets flags clean)
    (server : Server) (userAgent : Option Bytes) (timeout : ℤ)
    (sourceUrl targetUrl : Option Bytes) :
    ∃ code s, unalixUnshortUrl clean server userAgent timeout (httpDefaultMaxRedirects + 1) sourceUrl
        targetUrl = some (code, s) ∧
      s.requests.length ≤ httpDefaultMaxRedirects + 1 ∧
      ∀ url, sourceUrl = some url → url ≠ [] →
        (∀ n ≤ httpDefaultMaxRedirects, ∀ s₁,
          redirected clean server userAgent timeout url targetUrl n = some s₁ →
          Succeeds (unshortRound clean server userAgent timeout url s₁).1) →
        (code = fail .httpTooManyRedirects ↔
          (redirected clean server userAgent timeout url targetUrl
            (httpDefaultMaxRedirects + 1)).isSome = true) ∧
        (code ≠ fail .httpTooManyRedirects → code = .ok () ∧
          ∃ n s₁ target fuel, redirected clean server userAgent timeout url targetUrl n = some s₁ ∧
            (unshortRound clean server userAgent timeout url s₁).1 = .ok none ∧
            s.targetUrl = some target ∧
            unalixCleanUrl pcre rulesets fuel (some (s₁.location.getD url)) flags =
              some (.ok target)) := by
  rcases sourceUrl with _ | _ | ⟨c, source⟩
  · exact ⟨_, _, rfl, Nat.zero_le _, nofun⟩
  · refine ⟨_, _, rfl, Nat.zero_le _, ?_⟩
    intro url hurl hne
    cases hurl
    exact absurd rfl hne
  · obtain ⟨⟨code, s⟩, hrun⟩ :=
      @exists_follow_unshortStep clean server userAgent timeout (c :: source) targetUrl
    obtain ⟨n, hn, s₁, hs₁, hend⟩ := exists_of_follow hrun
    refine ⟨code, s, hrun, length_requests_le hrun, ?_⟩
    intro url hurl _ hsteps
    cases hurl
    rcases hend with ⟨rfl, rfl, hnext⟩ | ⟨e, -, hround⟩ | ⟨rfl, hround⟩
    · have hall : (redirected clean server userAgent timeout (c :: source) targetUrl
          (httpDefaultMaxRedirects + 1)).isSome = true := by
        rw [redirected, hs₁, Option.bind_some, hnext]
        rfl
      exact ⟨iff_of_true rfl hall, fun h => absurd rfl h⟩
    · obtain ⟨location, hlocation⟩ := hsteps n hn s₁ hs₁
      rw [hround] at hlocation
      cases hlocation
    · have hnext : nextRound clean server userAgent timeout (c :: source) s₁ = none := by
        rw [nextRound, hround]
      have hnot := not_isSome_redirected (Nat.lt_succ_of_le hn) hs₁ hnext
      refine ⟨iff_of_false (fun h => fail_ne_ok _ _ h.symm) hnot, fun _ => ⟨rfl, ?_⟩⟩
      obtain ⟨target, htarget, hset⟩ := targetUrl_of_unshortRound hround
      obtain ⟨fuel, hfuel⟩ := hclean (s₁.location.getD (c :: source))
      refine ⟨n, s₁, target, fuel, hs₁, ?_, hset, ?_⟩
      · rw [hround]
      · rw [hfuel, htarget]

/-- With redirections ignored, every call of `unalix_clean_url` returns at once. -/
theorem returning_of_ignored {Code : Type} (pcre : Pcre Code) (rulesets : Rulesets Code)
    {flags : Flags} (h : flags.ignoreRedirections ≠ 0) :
    Returning pcre rulesets flags fun url =>
      (unalixCleanUrl pcre rulesets 1 (some url) flags).getD (fail .argInvalid) := by
  intro url
  refine ⟨1, ?_⟩
  cases hstep : cleanStep pcre rulesets ⟨some url, flags⟩ with
  | inl args =>
    obtain ⟨-, sourceUrl, ovector, -, -, hfirst, -⟩ := cleanStep_eq_inl hstep
    rw [firstRedirection, if_neg h] at hfirst
    cases hfirst
  | inr result =>
    simp only [unalixCleanUrl, follow_succ_of_inr hstep, Option.getD_some]

/-- A server that redirects its first request. -/
def sampleServer : Server := fun requests =>
  if requests.length = 1 then
    { incoming := [.chunk (str
        "HTTP/1.0 301 Moved Permanently\r\nLocation: http://b.com/?utm=1&c=2\r\n\r\n")] }
  else { incoming := [.chunk (str "HTTP/1.0 200 OK\r\nServer: b\r\n\r\n")] }

/-- One redirect, to a URL that is cleaned. -/
theorem unshort_bounded_sample :
    let clean (url : Bytes) := (unalixCleanUrl Pattern.pcre ⟨88, [sampleRuleset]⟩ 1 (some url)
      { ignoreRedirections := 1 }).getD (fail .argInvalid)
    ∃ s, unalixUnshortUrl clean sampleServer none 0 (httpDefaultMaxRedirects + 1)
        (some (str "http://a.com")) none = some (.ok (), s) ∧
      s.requests.length ≤ httpDefaultMaxRedirects + 1 := by
  intro clean
  have hclean : Returning Pattern.pcre ⟨88, [sampleRuleset]⟩ { ignoreRedirections := 1 } clean :=
    returning_of_ignored _ _ (by decide)
  obtain ⟨code, s, hrun, hrequests, hspec⟩ := unshort_bounded hclean sampleServer none 0
    (some (str "http://a.com")) none
  have hrounds : ∀ n ≤ httpDefaultMaxRedirects,
      (redirected clean sampleServer none 0 (str "http://a.com") none n).all (fun s₁ =>
        (unshortRound clean sampleServer none 0 (str "http://a.com") s₁).1.isOk) = true := by
    decide +kernel
  have hsteps : ∀ n ≤ httpDefaultMaxRedirects, ∀ s₁,
      redirected clean sampleServer none 0 (str "http://a.com") none n = some s₁ →
      Succeeds (unshortRound clean sampleServer none 0 (str "http://a.com") s₁).1 := by
    intro n hn s₁ hs₁
    have hround := hrounds n hn
    rw [hs₁, Option.all_some] at hround
    cases hresult : (unshortRound clean sampleServer none 0 (str "http://a.com") s₁).1 with
    | ok location => exact succeeds_ok location
    | error e =>
      rw [hresult] at hround
      cases hround
  have hnone : (redirected clean sampleServer none 0 (str "http://a.com") none
      (httpDefaultMaxRedirects + 1)).isSome = false := by
    decide +kernel
  obtain ⟨hmany, hok⟩ := hspec (str "http://a.com") rfl (by decide) hsteps
  have hcode : code ≠ fail .httpTooManyRedirects := by
    intro h
    rw [hmany.1 h] at hnone
    cases hnone
  rw [(hok hcode).1] at hrun
  exact ⟨s, hrun, hrequests⟩

end Unalix
