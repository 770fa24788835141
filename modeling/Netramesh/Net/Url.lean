import Netramesh.Lib.Bytes

/-!
# Request targets

The part of Go's `net/url` (as of 1.12) that `http.ReadRequest` and
`Request.Write` go through: `ParseRequestURI` takes a request target apart,
`RequestURI` puts the target of a forwarded request together again, and
`String` is what a span records as its path.

Nothing of the proxy is in here, and only one fact about it matters later: a
target that was accepted once is accepted again in the form it is written.
-/

namespace Netramesh.Net

/-- The `encoding` modes of `net/url` that a request target can reach. -/
inductive Encoding
  | path
  | userPassword
  | host
  | zone
  deriving DecidableEq

def isAlnum (c : UInt8) : Bool :=
  (65 ≤ c && c ≤ 90) || (97 ≤ c && c ≤ 122) || (48 ≤ c && c ≤ 57)

/-- `shouldEscape`. -/
def shouldEscape (c : UInt8) (mode : Encoding) : Bool :=
  if isAlnum c then false
  else if (mode == .host || mode == .zone) &&
      (lit "!$&'()*+,;=:[]<>\"").contains c then false
  else if (lit "-_.~").contains c then false
  else if (lit "$&+,/:;=?@").contains c then
    match mode with
    | .path => c == 63
    | .userPassword => c == 64 || c == 47 || c == 63 || c == 58
    | .host | .zone => true
  else true

/-- The upper case hexadecimal digit `escape` writes. -/
def upperHex (d : Nat) : UInt8 :=
  UInt8.ofNat (if d < 10 then 48 + d else 55 + d)

/-- `escape`. -/
def escape (mode : Encoding) : Bytes → Bytes
  | [] => []
  | c :: s =>
    if shouldEscape c mode then
      37 :: upperHex (c.toNat / 16) :: upperHex (c.toNat % 16) :: escape mode s
    else c :: escape mode s

/-- Whether `unescape` lets the escaped byte `v`, written `%hl`, pass. -/
def escapeAllowed (mode : Encoding) (v : Nat) : Bool :=
  match mode with
  | .host => 8 ≤ v / 16 || v == 37
  | .zone => v == 37 || v == 32 || !shouldEscape (UInt8.ofNat v) .host
  | .path | .userPassword => true

/-- `unescape`; `none` is an `EscapeError` or an `InvalidHostError`. -/
def unescape (mode : Encoding) : Bytes → Option Bytes
  | [] => some []
  | 37 :: h :: l :: s =>
    match hexVal h, hexVal l with
    | some hv, some lv =>
      if escapeAllowed mode (hv * 16 + lv) then
        (unescape mode s).map (UInt8.ofNat (hv * 16 + lv) :: ·)
      else none
    | _, _ => none
  | c :: s =>
    if c = 37 then none
    else if (mode == .host || mode == .zone) &&
        (c < 128 && shouldEscape c mode) then none
    else (unescape mode s).map (c :: ·)

/-- `url.Userinfo`. -/
structure Userinfo where
  username : Bytes
  password : Option Bytes
  deriving DecidableEq

/-- `url.URL`; a request target never carries a fragment. -/
structure URL where
  scheme : Bytes := []
  opaqueData : Bytes := []
  user : Option Userinfo := none
  host : Bytes := []
  path : Bytes := []
  rawPath : Bytes := []
  forceQuery : Bool := false
  rawQuery : Bytes := []
  deriving DecidableEq

instance : Inhabited URL := ⟨{}⟩

/-- `getscheme`, one byte at a time: `i` counts the bytes already taken. `none`
is the missing-scheme error. -/
def getscheme (rawurl : Bytes) : Option (Bytes × Bytes) :=
  go rawurl rawurl []
where
  go (whole : Bytes) : Bytes → Bytes → Option (Bytes × Bytes)
    | [], _ => some ([], whole)
    | c :: s, seen =>
      if (65 ≤ c && c ≤ 90) || (97 ≤ c && c ≤ 122) then go whole s (seen ++ [c])
      else if (48 ≤ c && c ≤ 57) || (lit "+-.").contains c then
        if seen = [] then some ([], whole) else go whole s (seen ++ [c])
      else if c = 58 then
        if seen = [] then none else some (seen, s)
      else some ([], whole)

/-- `validOptionalPort`. -/
def validOptionalPort : Bytes → Bool
  | [] => true
  | c :: ds => c == 58 && ds.all fun b => 48 ≤ b && b ≤ 57

/-- The last `c` in `s` and what surrounds it (`strings.LastIndex`). -/
def cutLast (c : UInt8) (s : Bytes) : Option (Bytes × Bytes) :=
  (cutByte c s.reverse).map fun p => (p.2.reverse, p.1.reverse)

/-- `strings.Index` of a substring, as the parts around it; the second part
keeps the substring. -/
def cutSub (sub : Bytes) : Bytes → Option (Bytes × Bytes)
  | [] => if sub = [] then some ([], []) else none
  | c :: s =>
    if sub.isPrefixOf (c :: s) then some ([], c :: s)
    else (cutSub sub s).map fun p => (c :: p.1, p.2)

/-- `parseHost`. -/
def parseHost (host : Bytes) : Option Bytes :=
  if (lit "[").isPrefixOf host then
    match cutLast 93 host with
    | none => none
    | some (inside, colonPort) =>
      if !validOptionalPort colonPort then none
      else
        match cutSub (lit "%25") inside with
        | none => unescape .host host
        | some (addr, zone) => do
          let host₁ ← unescape .host addr
          let host₂ ← unescape .zone zone
          let host₃ ← unescape .host (93 :: colonPort)
          pure (host₁ ++ host₂ ++ host₃)
  else
    match cutLast 58 host with
    | none => unescape .host host
    | some (_, port) =>
      if !validOptionalPort (58 :: port) then none else unescape .host host

/-- `validUserinfo`. -/
def validUserinfo (s : Bytes) : Bool :=
  s.all fun c => isAlnum c || (lit "-._:~!$&'()*+,;=%@").contains c

/-- `parseAuthority`. -/
def parseAuthority (authority : Bytes) : Option (Option Userinfo × Bytes) :=
  match cutLast 64 authority with
  | none => (parseHost authority).map fun h => (none, h)
  | some (userinfo, hostPart) => do
    let host ← parseHost hostPart
    if !validUserinfo userinfo then none
    else
      match cutByte 58 userinfo with
      | none => do
        let u ← unescape .userPassword userinfo
        pure (some ⟨u, none⟩, host)
      | some (name, pass) => do
        let u ← unescape .userPassword name
        let p ← unescape .userPassword pass
        pure (some ⟨u, some p⟩, host)

/-- `(*URL).setPath`. -/
def URL.setPath (u : URL) (p : Bytes) : Option URL :=
  (unescape .path p).map fun path =>
    { u with path := path, rawPath := if p = escape .path path then [] else p }

/-- `stringContainsCTLByte`. -/
def containsCTL (s : Bytes) : Bool := s.any fun b => b < 32 || b == 127

/-- The query split of `parse`: a single trailing question mark is remembered
as `ForceQuery`, otherwise the first one separates path and query. -/
def splitQuery (rest : Bytes) : Bytes × Bool × Bytes :=
  match cutByte 63 rest with
  | none => (rest, false, [])
  | some (p, []) => (p, true, [])
  | some (p, q) => (p, false, q)

/-- `url.ParseRequestURI`: `parse` with `viaRequest` set. -/
def parseRequestURI (rawurl : Bytes) : Option URL :=
  if containsCTL rawurl || rawurl = [] then none
  else if rawurl = lit "*" then some { path := lit "*" }
  else
    match getscheme rawurl with
    | none => none
    | some (scheme, afterScheme) =>
      let (rest, forceQuery, rawQuery) := splitQuery afterScheme
      let u : URL := { scheme := toLower scheme, forceQuery, rawQuery }
      if !(lit "/").isPrefixOf rest then
        if scheme ≠ [] then some { u with opaqueData := rest } else none
      else if scheme ≠ [] && (lit "//").isPrefixOf rest then
        let (authority, path) :=
          match cutByte 47 (rest.drop 2) with
          | none => (rest.drop 2, [])
          | some (a, p) => (a, 47 :: p)
        match parseAuthority authority with
        | none => none
        | some (user, host) => { u with user, host }.setPath path
      else u.setPath rest

/-- `validEncodedPath`. -/
def validEncodedPath (s : Bytes) : Bool :=
  s.all fun c => (lit "!$&'()*+,;=:@[]%").contains c || !shouldEscape c .path

/-- `(*URL).EscapedPath`. -/
def URL.escapedPath (u : URL) : Bytes :=
  if u.rawPath ≠ [] && validEncodedPath u.rawPath &&
      unescape .path u.rawPath == some u.path then
    u.rawPath
  else if u.path = lit "*" then lit "*"
  else escape .path u.path

/-- The query part of `RequestURI` and `String`. -/
def URL.querySuffix (u : URL) : Bytes :=
  if u.forceQuery || u.rawQuery ≠ [] then 63 :: u.rawQuery else []

/-- `(*URL).RequestURI`. -/
def URL.requestURI (u : URL) : Bytes :=
  let result :=
    if u.opaqueData = [] then
      if u.escapedPath = [] then lit "/" else u.escapedPath
    else if (lit "//").isPrefixOf u.opaqueData then
      u.scheme ++ 58 :: u.opaqueData
    else u.opaqueData
  result ++ u.querySuffix

/-- `(*Userinfo).String`. -/
def Userinfo.string (ui : Userinfo) : Bytes :=
  escape .userPassword ui.username ++
    match ui.password with
    | none => []
    | some p => 58 :: escape .userPassword p

/-- `(*URL).String`. -/
def URL.string (u : URL) : Bytes :=
  let scheme := if u.scheme = [] then [] else u.scheme ++ [58]
  if u.opaqueData ≠ [] then scheme ++ u.opaqueData ++ u.querySuffix
  else
    let authority :=
      if u.scheme ≠ [] || u.host ≠ [] || u.user.isSome then
        (if u.host ≠ [] || u.path ≠ [] || u.user.isSome then lit "//"
          else []) ++ (match u.user with
            | none => []
            | some ui => ui.string ++ [64]) ++
          escape .host u.host
      else []
    let path := u.escapedPath
    let front := scheme ++ authority ++
      if path ≠ [] && path.head? ≠ some 47 && u.host ≠ [] then [47] else []
    let dot :=
      match cutByte 58 path with
      | some (seg, _) => if front = [] && !seg.contains 47 then lit "./" else []
      | none => []
    front ++ dot ++ path ++ u.querySuffix

end Netramesh.Net
