/- # Addresses of documents

Editors name documents by addresses.  Two spellings of one address are the same document, so
an address is kept in parts and printed in one form: scheme in small letters, dots resolved,
characters escaped where they must be.

`Uri.path` is the path as printed; `Uri.fileName` is the file that the address stands for.
-/
import ComponentHost.Path
import ComponentHost.Uri.Host
import ComponentHost.Uri.Path

namespace ComponentHost

/-- An address in its parts. -/
structure Uri where
  scheme : String
  /-- Name and password, as printed. -/
  user : String := ""
  /-- The host, as printed; `none` if the address has no place for one. -/
  host : Option String := none
  port : Option Nat := none
  /-- The path, as printed; without structure unless it starts with a slash. -/
  path : String
  query : Option String := none
  fragment : Option String := none
deriving DecidableEq, Repr

namespace Uri

open ComponentHost.Text (splitAt)

/-! ## 1. Schemes -/

/-- The schemes with rules of their own, and their ports. -/
def specialSchemes : List (String × Option Nat) :=
  [("http", some 80), ("https", some 443), ("ws", some 80), ("wss", some 443), ("ftp", some 21),
   ("file", none)]

/-- Has the scheme rules of its own? -/
def isSpecial (scheme : String) : Bool := (specialSchemes.lookup scheme).isSome

/-- Can the character stand in a scheme? -/
def isSchemeChar (c : Char) : Bool := c.isAlphanum || c == '+' || c == '-' || c == '.'

/-- Splits off the scheme, in small letters. -/
def splitScheme? (cs : List Char) : Option (String × List Char) :=
  let head := (cs.takeWhile (· != ':'))
  let name := head.filter (!isDropped ·)
  if head.length < cs.length && name.head?.any Char.isAlpha && name.all isSchemeChar then
    some (String.ofList (name.map Char.toLower), cs.drop (head.length + 1))
  else none

/-! ## 2. Paths and what follows them -/

/-- Where the path ends and the query or fragment begins. -/
def isPathEnd (c : Char) : Bool := c == '?' || c == '#'

/-- The query and the fragment at the end of an address. -/
def queryAndFragment (scheme : String) (cs : List Char) : Option String × Option String :=
  let set := if isSpecial scheme then Percent.specialQuery else Percent.query
  let encoded (set : Percent.EscapeSet) (cs : List Char) :=
    String.ofList (Percent.encode set (cs.filter (!isDropped ·)))
  match cs with
  | '?' :: r =>
    let query := r.takeWhile (· != '#')
    match r.drop query.length with
    | '#' :: f => (some (encoded set query), some (encoded Percent.fragment f))
    | _ => (some (encoded set query), none)
  | '#' :: r => (none, some (encoded Percent.fragment r))
  | _ => (none, none)

/-- Is the character a slash of the scheme? -/
def isSlash (scheme : String) (c : Char) : Bool := c == '/' || (isSpecial scheme && c == '\\')

/-- Goes on with a path; what is left of the address follows it. -/
def readOn (scheme : String) (path cs : List Char) : PathReading :=
  let body := cs.takeWhile (!isPathEnd ·)
  let segments := splitAt '/' (body.map fun c => if isSlash scheme c then '/' else c)
  readPath (scheme == "file") path segments

/-- Adds a path that was read, and the query and fragment after it. -/
def withPath (u : Uri) (path : List Char) (cs : List Char) : Uri :=
  let (query, fragment) := queryAndFragment u.scheme (cs.dropWhile (!isPathEnd ·))
  { u with path := String.ofList path, query := query, fragment := fragment }

/-- The path after a host.  A common scheme has one even where the text has none. -/
def pathAfterHost (scheme : String) (cs : List Char) : PathReading :=
  match cs.filter (!isDropped ·) with
  | [] => if isSpecial scheme then { path := ['/'] } else { path := [] }
  | c :: _ =>
    let rest := (cs.dropWhile isDropped).drop 1
    if isSlash scheme c then readOn scheme ['/'] rest
    else if isPathEnd c && !isSpecial scheme then { path := [] }
    else readOn scheme ['/'] cs

/-! ## 3. Hosts and what stands before them -/

/-- Name and password, escaped, with the sign that ends them. -/
def userOf (cs : List Char) : String :=
  let name := cs.takeWhile (· != ':')
  let password := cs.drop (name.length + 1)
  let enc (cs : List Char) := String.ofList (Percent.encode Percent.userInfo cs)
  if name.isEmpty && password.isEmpty then ""
  else if password.isEmpty then enc name ++ "@"
  else enc name ++ ":" ++ enc password ++ "@"

/-- Length of the host at the start of a text; brackets hide colons. -/
def hostLength (inBrackets : Bool) : List Char → Nat
  | [] => 0
  | c :: r =>
    if c == ':' && !inBrackets then 0
    else hostLength ((inBrackets || c == '[') && c != ']') r + 1

/-- The port, unless it is the usual one of the scheme. -/
def portOf (scheme : String) (text : List Char) : Except UriError (Option Nat) :=
  if text.isEmpty then .ok none
  else
    match Host.inBase? 10 text with
    | none => .error .badPort
    | some n =>
      if n > 65535 then .error .badPort
      else if specialSchemes.lookup scheme == some (some n) then .ok none
      else .ok (some n)

/-- An address with a place for a host, after the two slashes.  A user or a port is none without a
host. -/
def withAuthority (scheme : String) (cs : List Char) : Except UriError Uri := do
  let special := isSpecial scheme
  let ends (c : Char) := isSlash scheme c || isPathEnd c
  let raw := cs.takeWhile (!ends ·)
  let authority := raw.filter (!isDropped ·)
  let place := (authority.reverse.takeWhile (· != '@')).reverse
  let before := authority.take (authority.length - place.length)
  let user := userOf before.dropLast
  let after := cs.drop raw.length
  if before == ['@'] && place.isEmpty && !after.isEmpty then throw .emptyHost
  let host := place.take (hostLength false place)
  let rest := place.drop host.length
  if special && host.isEmpty then throw .emptyHost
  let name ← if special then Host.special? host else Host.opaqueHost? host
  if name.isEmpty && !rest.isEmpty then throw .emptyHost
  -- A backslash ends the port, whatever the scheme.
  let digits := (rest.drop 1).takeWhile (· != '\\')
  let number ← portOf scheme digits
  if name.isEmpty && !user.isEmpty then throw .emptyHost
  let path := pathAfterHost scheme ((rest.drop 1).drop digits.length ++ after)
  return withPath { scheme := scheme, user := user, host := some name, port := number, path := "" }
    path.path after

/-- The address of a file that lies on this machine. -/
def localFile (path : PathReading) (cs : List Char) : Uri :=
  withPath { scheme := "file", host := some "", path := "" } path.path cs

/-- A file, after the scheme and two slashes.  A drive is never a host, and the local host is
none; a path that starts with a drive is on this machine. -/
def fileAfterSlashes (cs : List Char) : Except UriError Uri := do
  let raw := cs.takeWhile fun c => !(isSlash "file" c || isPathEnd c)
  let name := raw.filter (!isDropped ·)
  let rest := cs.drop raw.length
  if isDrive name then return localFile (readOn "file" ['/'] cs) cs
  if name.isEmpty then return localFile (readOn "file" ['/'] rest) rest
  let host ← Host.special? name
  if host == "localhost" then return localFile (readOn "file" ['/'] rest) rest
  let path := pathAfterHost "file" rest
  let u := localFile path rest
  return if path.onDrive then u else { u with host := some host }

/-- A file, after the scheme. -/
def file (cs : List Char) : Except UriError Uri := do
  match cs.filter (!isDropped ·) with
  | a :: b :: _ =>
    if isSlash "file" a && isSlash "file" b then
      fileAfterSlashes (((cs.dropWhile isDropped).drop 1).dropWhile isDropped |>.drop 1)
    else if isSlash "file" a then return localFile (readOn "file" [] cs) cs
    else return localFile (readOn "file" ['/'] cs) cs
  | [a] =>
    if isSlash "file" a then return localFile (readOn "file" [] cs) cs
    else return localFile (readOn "file" ['/'] cs) cs
  | [] => return localFile (readOn "file" ['/'] cs) cs

/-! ## 4. Reading -/

/-- Drops controls and blanks at the ends. -/
def trimmed (s : String) : List Char :=
  let isEdge (c : Char) := c.toNat ≤ 0x20
  ((s.toList.dropWhile isEdge).reverse.dropWhile isEdge).reverse

/-- An address of a scheme without rules of its own, after the scheme. -/
def other (scheme : String) (cs : List Char) : Except UriError Uri :=
  let plain : Uri := { scheme := scheme, path := "" }
  match cs.filter (!isDropped ·) with
  | '/' :: '/' :: _ =>
    withAuthority scheme (((cs.dropWhile isDropped).drop 1).dropWhile isDropped |>.drop 1)
  | '/' :: _ =>
    let rest := (cs.dropWhile isDropped).drop 1
    .ok (withPath plain (readOn scheme ['/'] rest).path rest)
  | _ =>
    let body := (cs.takeWhile (!isPathEnd ·)).filter (!isDropped ·)
    .ok (withPath plain (Percent.encode Percent.controls body) cs)

/-- Reads an address. -/
def parse (s : String) : Except UriError Uri :=
  match splitScheme? (trimmed s) with
  | none => .error .noScheme
  | some (scheme, r) =>
    if scheme == "file" then file r
    else if isSpecial scheme then
      withAuthority scheme (r.dropWhile fun c => isSlash scheme c || isDropped c)
    else other scheme r

/-! ## 5. Writing -/

/-- The address as printed. -/
def render (u : Uri) : String :=
  let authority := match u.host with
    | some host =>
      "//" ++ u.user ++ host ++ (match u.port with | some n => ":" ++ toString n | none => "")
    -- Two slashes would announce a host.
    | none => if u.path.startsWith "//" then "/." else ""
  u.scheme ++ ":" ++ authority ++ u.path ++
    (match u.query with | some q => "?" ++ q | none => "") ++
    (match u.fragment with | some f => "#" ++ f | none => "")

/-! ## 6. Files -/

/-- The path on disk that the address stands for, unless it lies on another host. -/
def diskPath? (u : Uri) : Option String :=
  match u.path.toList with
  | '/' :: r =>
    if u.host.all fun h => h.isEmpty || h == "localhost" then
      let segments := splitAt '/' r
      let bytes := segments.flatMap fun s => 0x2F :: Percent.decode (String.ofList s)
      let text := Utf8.decodeLossy bytes
      let ending := (text.reverse.take 2).reverse
      some (String.ofList (if text.length > 2 && isDrive ending then text ++ ['/'] else text))
    else none
  | _ => none

/-- Normal name of the file that the address stands for; the path itself if it is no file. -/
def fileName (u : Uri) : String := Path.normalize (u.diskPath?.getD u.path)

/-- The address of an absolute path. -/
def ofFile? (path : String) : Option Uri :=
  if path.startsWith "/" then
    let names := (splitAt '/' path.toList).filter fun s => !(s.isEmpty || s == ['.'])
    let items := names.map fun s => '/' :: Percent.encode Percent.segment s
    let text := if items.isEmpty then ['/'] else items.flatten
    some { scheme := "file", host := some "", path := String.ofList text }
  else none

end Uri

end ComponentHost
