import Mathlib

/-!
# The notation of endpoints

Endpoints are compared as strings, so they are brought into one notation first: a scheme and a host
in lower case, an IPv6 address in brackets, a port without leading zeros, and a path without
trailing slashes. What cannot be taken apart is left as it is, except for the whitespace around it.
-/

namespace Zlink.Transport

abbrev Text := List UInt8

def slash : UInt8 := 47
def colon : UInt8 := 58
def atSign : UInt8 := 64
def percent : UInt8 := 37
def openBracket : UInt8 := 91
def closeBracket : UInt8 := 93

/-- `std::isspace`. -/
def isSpace (b : UInt8) : Bool :=
  b = 32 || 9 ≤ b && b ≤ 13

/-- `std::tolower`. -/
def toLower (b : UInt8) : UInt8 :=
  if 65 ≤ b ∧ b ≤ 90 then b + 32 else b

/-- `std::isdigit`. -/
def isDigit (b : UInt8) : Bool :=
  48 ≤ b && b ≤ 57

/-- One of `?#`. -/
def startsTail (b : UInt8) : Bool :=
  b = 63 || b = 35

/-- One of `/?#`. -/
def endsAuthority (b : UInt8) : Bool :=
  b = slash || startsTail b

def trimAsciiWhitespace (value : Text) : Text :=
  (value.dropWhile isSpace).rdropWhile isSpace

def lowercaseAscii (value : Text) : Text :=
  value.map toLower

def allAsciiDigits (value : Text) : Bool :=
  !value.isEmpty && value.all isDigit

def stripLeadingZeroDigits : Text → Text
  | [] => []
  | [digit] => [digit]
  | digit :: next :: port =>
    if digit = 48 then stripLeadingZeroDigits (next :: port) else digit :: next :: port

def stripTrailingSlashes (path : Text) : Text :=
  path.rdropWhile (· = slash)

inductive TransportScheme where
  | tcp
  | ipc
  | tls
  | websocket
  | websocketTls
  deriving DecidableEq

def transportSchemes : List (Text × TransportScheme) :=
  [([116, 99, 112], .tcp), ([105, 112, 99], .ipc), ([116, 108, 115], .tls), ([119, 115], .websocket),
    ([119, 115, 115], .websocketTls)]

def parseTransportScheme (name : Text) : Option TransportScheme :=
  (transportSchemes.find? fun entry => entry.1 = name).map Prod.snd

def isAuthorityScheme (schemeLower : Text) : Bool :=
  (parseTransportScheme schemeLower).any (· ≠ .ipc)

def schemeEnd : Text :=
  [colon, slash, slash]

def splitScheme : Text → Option (Text × Text)
  | [] => none
  | b :: value =>
    if (b :: value).take 3 = schemeEnd then some ([], value.drop 2)
    else (splitScheme value).map fun parts => (b :: parts.1, parts.2)

/-- `host_raw`, `port` and `is_ipv6`. -/
structure HostPort where
  host : Text
  port : Text
  isIpv6 : Bool

def splitBracketed (inner : Text) : Option HostPort :=
  match inner.dropWhile (· ≠ closeBracket) with
  | [] => none
  | [_] => some ⟨inner.takeWhile (· ≠ closeBracket), [], true⟩
  | _ :: first :: port =>
    if first ≠ colon ∨ allAsciiDigits port = false then none
    else some ⟨inner.takeWhile (· ≠ closeBracket), port, true⟩

/-- With more than one colon it is an IPv6 address without brackets, and has no port. -/
def splitBare (hostPort : Text) : Option HostPort :=
  if hostPort.count colon = 0 then some ⟨hostPort, [], false⟩
  else if hostPort.count colon = 1 then
    let candidatePort := (hostPort.dropWhile (· ≠ colon)).tail
    if allAsciiDigits candidatePort then
      some ⟨hostPort.takeWhile (· ≠ colon), candidatePort, false⟩
    else none
  else some ⟨hostPort, [], true⟩

def splitHostPort (hostPort : Text) : Option HostPort :=
  if hostPort.head? = some openBracket then splitBracketed hostPort.tail
  else splitBare hostPort

namespace HostPort

/-- The zone of an IPv6 address is left as it is. -/
def normalizeHost (isIpv6 : Bool) (host : Text) : Text :=
  if isIpv6 then
    lowercaseAscii (host.takeWhile (· ≠ percent)) ++ host.dropWhile (· ≠ percent)
  else lowercaseAscii host

def normalize (x : HostPort) : HostPort :=
  ⟨normalizeHost x.isIpv6 x.host, stripLeadingZeroDigits x.port, x.isIpv6⟩

def render (x : HostPort) : Text :=
  (if x.isIpv6 then openBracket :: x.host ++ [closeBracket] else x.host) ++
    if x.port = [] then [] else colon :: x.port

end HostPort

structure Parts where
  userInfo : Text
  hostPort : HostPort
  path : Text
  tail : Text

def splitRest (rest : Text) : Option Parts :=
  let authority := rest.takeWhile fun b => !endsAuthority b
  let remainder := rest.dropWhile fun b => !endsAuthority b
  (splitHostPort (authority.rtakeWhile (· ≠ atSign))).map fun hostPort =>
    { userInfo := authority.rdropWhile (· ≠ atSign)
      hostPort := hostPort
      path := remainder.takeWhile fun b => !startsTail b
      tail := remainder.dropWhile fun b => !startsTail b }

namespace Parts

def normalize (parts : Parts) : Parts :=
  { parts with
    hostPort := parts.hostPort.normalize
    path := stripTrailingSlashes parts.path }

def render (parts : Parts) : Text :=
  parts.userInfo ++ parts.hostPort.render ++ parts.path ++ parts.tail

end Parts

def normalizeEndpoint (raw : Text) : Text :=
  let trimmed := trimAsciiWhitespace raw
  match splitScheme trimmed with
  | none => trimmed
  | some (scheme, rest) =>
    let schemeLower := lowercaseAscii scheme
    if isAuthorityScheme schemeLower = false then schemeLower ++ schemeEnd ++ rest
    else
      match splitRest rest with
      | none => trimmed
      | some parts => schemeLower ++ schemeEnd ++ parts.normalize.render

end Zlink.Transport
