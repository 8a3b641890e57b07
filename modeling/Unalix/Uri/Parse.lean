import Unalix.Foundations.CString
import Unalix.Utils
import Unalix.Errors

/-!
# The URI parser and printer (`uri.c`)

`parse_uri` walks over its input once for each component: the scheme up to `://`, the userinfo up
to the first `@`, the port from the first `:` to the first delimiter after it, the host, and then
fragment, query and path. Each delimiter is looked for by a `strstr` of its own over the whole
rest of the string, and each component is copied out of the input between two pointers. The
stages of the source, which it separates by comments, are definitions of their own here:
`parseScheme`, `parseUserinfo`, `parseHost` with `parsePort` and `setHostname`,
`parseComponents`.

`uri_stringify` writes the components back, always with a slash after the authority.
-/

namespace Unalix

open CString Ascii

/-! ## Constants -/

def httpScheme : Bytes := str "http"

def httpsScheme : Bytes := str "https"

def httpPort : ℤ := 80

def httpsPort : ℤ := 443

def schemeSeparator : Bytes := str "://"

def minHostnameSize : ℤ := 4

def maxHostnameSize : ℤ := 253

def minLabelSize : ℕ := 1

def maxLabelSize : ℕ := 63

def minIpv6AddressSize : ℤ := 2

def maxIpv6AddressSize : ℤ := 39

def minPortNumber : ℤ := 1

def maxPortNumber : ℤ := 65535

def slash : UInt8 := '/'.toUInt8

def questionMark : UInt8 := '?'.toUInt8

def hashtag : UInt8 := '#'.toUInt8

def atSign : UInt8 := '@'.toUInt8

def colon : UInt8 := ':'.toUInt8

def bracketStart : UInt8 := '['.toUInt8

def bracketEnd : UInt8 := ']'.toUInt8

def space : UInt8 := ' '.toUInt8

def hyphen : UInt8 := '-'.toUInt8

def dot : UInt8 := '.'.toUInt8

def schemeSafeSymbols : Bytes := str "+.-"

/-- `struct URI`; a null pointer is `none`, and the default value is the zeroed struct. -/
@[ext] structure URI where
  isIpv6 : ℤ := 0
  hasAuthentication : ℤ := 0
  username : Option Bytes := none
  password : Option Bytes := none
  scheme : Option Bytes := none
  hostname : Option Bytes := none
  port : ℤ := 0
  path : Option Bytes := none
  query : Option Bytes := none
  fragment : Option Bytes := none
  deriving DecidableEq, Repr

/-! ## Pointers -/

/-- The difference `stop - start` of two pointers into one string. -/
def sizeBetween (start stop : Bytes) : ℤ := start.length - stop.length

/-- Copying the bytes between two pointers into fresh memory, when there are any. A negative
difference is a `size_t` beyond `PTRDIFF_MAX`: `malloc` refuses it, except that a size of `-1`
asks for no memory at all and lets the copy run. -/
def copyRange (start stop : Bytes) : Outcome (Option Bytes) :=
  let size := sizeBetween start stop
  if size = 0 then .ok none
  else if 0 < size then .ok (some (start.take size.toNat))
  else if size = -1 then .error (.fault .negativeSize)
  else fail .memoryAllocateFailure

/-- The text at a pointer that may be null. -/
def text (field : Option Bytes) : Bytes := field.getD []

/-- `p < q`; no pointer is below the null pointer. -/
def ptrLt (p : Bytes) (q : Option Bytes) : Bool :=
  match q with
  | none => false
  | some q => q.length < p.length

/-! ## The stages of `parse_uri` -/

/-- The loop over the scheme: its alphabet is checked and its letters are lowered. -/
def checkScheme (index : ℕ) : Bytes → Outcome Bytes
  | [] => .ok []
  | ch :: scheme =>
    if index = 0 && !isalpha ch then fail .uriSchemeShouldStartsWithLetter
    else if !(isalnum ch || ch ∈ schemeSafeSymbols) then
      fail .uriSchemeContainsInvalidCharacter
    else do
      let scheme ← checkScheme (index + 1) scheme
      return lower ch :: scheme

/-- Scheme: the lowered scheme and the text after `://`. -/
def parseScheme (uri : Bytes) : Outcome (Bytes × Bytes) :=
  match strstr uri schemeSeparator with
  | none => fail .uriSchemeMissing
  | some schemeEnd =>
    let schemeSize := uri.length - schemeEnd.length
    if schemeSize < 1 then fail .uriSchemeEmpty
    else do
      let scheme ← checkScheme 0 (uri.take schemeSize)
      return (scheme, schemeEnd.drop schemeSeparator.length)

/-- A credential that is not empty is stored, and marks the URI as authenticated. -/
def setAuthentication (obj : URI) : URI :=
  { obj with hasAuthentication := if obj.hasAuthentication = 0 then 1 else obj.hasAuthentication }

/-- Where the username ends: at the first `:`, unless the `@` comes first. -/
def findSeparator (authenticationStart authenticationEnd : Bytes) : Bytes :=
  match strstr authenticationStart [colon] with
  | none => authenticationEnd
  | some separator =>
    if separator.length < authenticationEnd.length then authenticationEnd else separator

/-- User information: the credentials before the first `@`, and where the host begins. -/
def parseUserinfo (obj : URI) (authenticationStart : Bytes) : Outcome (URI × Bytes) :=
  match strstr authenticationStart [atSign] with
  | none => .ok (obj, authenticationStart)
  | some authenticationEnd => do
    let separator := findSeparator authenticationStart authenticationEnd
    let username ← copyRange authenticationStart separator
    let obj := match username with
      | none => obj
      | some username => setAuthentication { obj with username := some username }
    let separator := if separator ≠ authenticationEnd then separator.drop 1 else separator
    let password ← copyRange separator authenticationEnd
    let obj := match password with
      | none => obj
      | some password => setAuthentication { obj with password := some password }
    return (obj, authenticationEnd.drop 1)

/-- The checks on a port that is not empty. -/
def parsePortNumber (obj : URI) (value : Bytes) : Outcome URI :=
  if !isnumeric value then fail .uriPortContainsInvalidCharacter
  else if atoi value < minPortNumber then fail .uriPortOutOfRange
  else if maxPortNumber < atoi value then fail .uriPortOutOfRange
  else .ok { obj with port := atoi value }

/-- Where a port ends: at the path, at the fragment, or at the end of the string. With a query and
no path the source assigns the null `path_start` again. -/
def findPortEnd (pathStart queryStart fragmentStart : Option Bytes) : Option Bytes :=
  if pathStart.isSome then pathStart
  else if queryStart.isSome then pathStart
  else if fragmentStart.isSome then fragmentStart
  else some []

/-- Port: from the `:` found to the end of the authority, if the `:` is before it. For a host that
is not an IPv6 address the host ends at that `:`. -/
def parsePort (obj : URI) (isIpv6 : Bool) (hostnameEnd portStart : Option Bytes)
    (pathStart queryStart fragmentStart : Option Bytes) : Outcome (URI × Option Bytes) :=
  match portStart with
  | none => .ok (obj, hostnameEnd)
  | some portStart =>
    let portEnd := findPortEnd pathStart queryStart fragmentStart
    if ptrLt portStart portEnd then do
      let portSize := (portStart.drop 1).length - (text portEnd).length
      let value := (portStart.drop 1).take portSize
      let obj ← if 0 < portSize then parsePortNumber obj value else .ok obj
      return (obj, if isIpv6 then hostnameEnd else some portStart)
    else .ok (obj, hostnameEnd)

/-- The checks at the end of a label, at a dot or at the terminator. -/
def checkLabelEnd (labelLength : ℕ) (prev : UInt8) : Outcome Unit :=
  if labelLength < minLabelSize then fail .uriHostnameLabelEmpty
  else if maxLabelSize < labelLength then fail .uriHostnameLabelTooLong
  else if prev = hyphen then fail .uriHostnameLabelConnotEndsWithHyphen
  else .ok ()

/-- The loop over the host name: `labelLength` characters of the current label are read, the last
one being `prev`. The labels are checked and their letters are lowered. -/
def checkLabels (labelLength : ℕ) (prev : UInt8) : Bytes → Outcome Bytes
  | [] => do
    checkLabelEnd labelLength prev
    return []
  | ch :: hostname =>
    if labelLength = 0 && ch = hyphen then fail .uriHostnameLabelConnotStartsWithHyphen
    else if ch = dot then do
      checkLabelEnd labelLength prev
      let hostname ← checkLabels 0 ch hostname
      return ch :: hostname
    else if !(isalnum ch || ch = hyphen) then fail .uriHostnameLabelContainsInvalidCharacter
    else do
      let hostname ← checkLabels (labelLength + 1) (lower ch) hostname
      return lower ch :: hostname

/-- The size of a host, against the bounds of its kind; sizes are `size_t`. -/
def checkHostnameSize (isIpv6 : Bool) (size : ℤ) : Outcome Unit :=
  if isIpv6 then
    if 0 ≤ size ∧ size < minIpv6AddressSize then fail .uriIpv6AddressTooShort
    else if size < 0 ∨ maxIpv6AddressSize < size then fail .uriIpv6AddressTooLong
    else .ok ()
  else
    if 0 ≤ size ∧ size < minHostnameSize then fail .uriHostnameTooShort
    else if size < 0 ∨ maxHostnameSize < size then fail .uriHostnameTooLong
    else .ok ()

/-- Host: the bytes between two pointers, checked by the rules of their kind and stored. -/
def setHostname (obj : URI) (isIpv6 : Bool) (hostnameStart hostnameEnd : Bytes) :
    Outcome URI := do
  let hostnameSize := sizeBetween hostnameStart hostnameEnd
  checkHostnameSize isIpv6 hostnameSize
  let hostname := hostnameStart.take hostnameSize.toNat
  if isIpv6 then
    if !isipv6 hostname then fail .uriIpv6AddressInvalid
    else return { obj with hostname := some hostname, isIpv6 := 1 }
  else do
    let hostname ← checkLabels 0 0 hostname
    return { obj with hostname := some hostname, isIpv6 := 0 }

/-- Host and port, from the pointers to the first `/`, `?` and `#`. -/
def parseHost (obj : URI) (hostnameStart : Bytes)
    (pathStart queryStart fragmentStart : Option Bytes) : Outcome URI := do
  let portStart := strstr hostnameStart [colon]
  let isIpv6 : Bool := hostnameStart.head? = some bracketStart
  let (hostnameStart, hostnameEnd, portStart) ←
    if isIpv6 then
      match strstr hostnameStart [bracketEnd] with
      | none => fail .uriHostnameMissingClosingBracket
      | some hostnameEnd =>
        .ok (hostnameStart.drop 1, some hostnameEnd,
          if portStart.isSome then strstr hostnameEnd [colon] else portStart)
    else .ok (hostnameStart, none, portStart)
  let (obj, hostnameEnd) ←
    parsePort obj isIpv6 hostnameEnd portStart pathStart queryStart fragmentStart
  let hostnameEnd := match hostnameEnd with
    | some hostnameEnd => hostnameEnd
    | none => text ((pathStart <|> queryStart) <|> fragmentStart)
  setHostname obj isIpv6 hostnameStart hostnameEnd

/-- One of the last three components: if its delimiter was found, the bytes between the delimiter
and `stop`. -/
def copyComponent (start : Option Bytes) (stop : Bytes) : Outcome (Option Bytes) :=
  match start with
  | none => .ok none
  | some start => copyRange (start.drop 1) stop

/-- Fragment, query and path, in the order of the source. A component that is empty leaves its
field as it was. -/
def parseComponents (obj : URI) (pathStart queryStart fragmentStart : Option Bytes) :
    Outcome URI := do
  let fragment ← copyComponent fragmentStart []
  let query ← copyComponent queryStart (text fragmentStart)
  let path ← copyComponent pathStart (text queryStart)
  return { obj with
    fragment := fragment <|> obj.fragment
    query := query <|> obj.query
    path := path <|> obj.path }

/-- `parse_uri`. -/
def parseUri (obj : URI) (uri : Bytes) : Outcome URI := do
  let (scheme, authenticationStart) ← parseScheme uri
  let (obj, hostnameStart) ← parseUserinfo { obj with scheme := some scheme } authenticationStart
  let pathStart := strstr hostnameStart [slash]
  let queryStart := strstr hostnameStart [questionMark]
  let fragmentStart := strstr hostnameStart [hashtag]
  let obj ← parseHost obj hostnameStart pathStart queryStart fragmentStart
  parseComponents obj pathStart queryStart fragmentStart

/-- `uri_parse`: after a failure the struct is released and zeroed, so it carries no value. -/
def uriParse (obj : URI) (uri : Bytes) : Outcome URI := parseUri obj uri

/-! ## The printer -/

/-- `uri_stringify`. -/
def uriStringify (obj : URI) : Bytes :=
  (if obj.scheme.isSome then text obj.scheme ++ schemeSeparator else []) ++
  (if obj.hasAuthentication ≠ 0 then
    text obj.username ++ [colon] ++ text obj.password ++ [atSign] else []) ++
  (if obj.hostname.isSome then
    (if obj.isIpv6 ≠ 0 then [bracketStart] else []) ++ text obj.hostname ++
      (if obj.isIpv6 ≠ 0 then [bracketEnd] else []) else []) ++
  (if 0 < obj.port then colon :: decimal obj.port.toNat else []) ++
  [slash] ++ text obj.path ++
  (if obj.query.isSome then questionMark :: text obj.query else []) ++
  (if obj.fragment.isSome then hashtag :: text obj.fragment else [])

/-- The round trip of a URI with every component. -/
example :
    let s := str "https://username:password@[::]:12345/example?key=value#fragment"
    (uriParse {} s).toOption.map uriStringify = some s := by decide

end Unalix
