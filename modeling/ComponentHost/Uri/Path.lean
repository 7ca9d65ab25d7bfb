/- # Paths of addresses

The path of an address is read segment by segment.  `.` and `..` are resolved on the way, also
where their dots are written as escapes, and characters are escaped where they must be.

A letter and a colon, or a bar, name a drive.  A step up never leaves a drive.  In the address
of a file a drive at the start of the path is written with a colon.
-/
import ComponentHost.Uri.Percent

namespace ComponentHost.Uri

/-! ## 1. Drives -/

/-- Does a text that starts with a drive go on with another part of the address? -/
def endsDrive (cs : List Char) : Bool :=
  match cs with
  | [] => true
  | c :: _ => ['/', '\\', '?', '#'].contains c

/-- Does the text start with a drive? -/
def startsWithDrive (cs : List Char) : Bool :=
  match cs with
  | a :: b :: r => a.isAlpha && (b == ':' || b == '|') && endsDrive r
  | _ => false

/-- Is the text a drive? -/
def isDrive (cs : List Char) : Bool := cs.length == 2 && startsWithDrive cs

/-- Is the text a drive written with a colon? -/
def isNormalDrive (cs : List Char) : Bool := isDrive cs && cs.getLast? == some ':'

/-! ## 2. Segments -/

/-- The spellings of `.` in a path. -/
def isDot (segment : List Char) : Bool :=
  [".", "%2e", "%2E"].any (·.toList == segment)

/-- The spellings of `..` in a path. -/
def isDots (segment : List Char) : Bool :=
  ["..", "%2e%2e", "%2e%2E", "%2E%2e", "%2E%2E", "%2e.", "%2E.", ".%2e", ".%2E"].any
    (·.toList == segment)

/-- The text up to its last slash, that slash included. -/
def upToSlash (cs : List Char) : List Char := (cs.reverse.dropWhile (· != '/')).reverse

/-- The part of a text from its last slash on. -/
def fromSlash (cs : List Char) : List Char := cs.drop ((upToSlash cs).length - 1)

/-- Does a path that ends in a slash lose it before a step up?  The first slash stays, and so does
the one after a drive. -/
def losesSlash (path : List Char) : Bool :=
  let before := path.dropLast
  path.getLast? == some '/' && before.contains '/' &&
    !startsWithDrive ((fromSlash before).drop 1 ++ ['/'])

/-- The path one step up. -/
def stepUp (path : List Char) : List Char :=
  upToSlash (if losesSlash path then path.dropLast else path)

/-- The path with a slash at its end. -/
def closed (path : List Char) : List Char :=
  if path.getLast? == some '/' then path else path ++ ['/']

/-- Tabs and line breaks stand for nothing. -/
def isDropped (c : Char) : Bool := c == '\t' || c == '\n' || c == '\r'

/-- What is read of a path. -/
structure PathReading where
  path : List Char
  /-- A drive was found at the start of the path. -/
  onDrive : Bool := false

/-- Takes the characters of one segment, and gives where in the path the segment starts.  A drive
that is cut off by a dropped character is a segment of its own. -/
def addSegment (file : Bool) (path segment : List Char) : List Char × Nat :=
  match file, segment.span (!isDropped ·) with
  | true, (drive, rest) =>
    let path' := path ++ drive
    let more := rest.filter (!isDropped ·)
    if !more.isEmpty && isNormalDrive (path'.drop 1) then
      (path' ++ '/' :: Percent.encode Percent.path more, path.length + 1)
    else (path ++ Percent.encode Percent.path (drive ++ more), path.length)
  | false, _ => (path ++ Percent.encode Percent.path (segment.filter (!isDropped ·)), path.length)

/-- Takes one more segment; `last` if no slash follows it. -/
def PathReading.push (file last : Bool) (p : PathReading) (segment : List Char) : PathReading :=
  let (path, start) := addSegment file p.path segment
  let before := path.take start
  let own := path.drop start
  if isDots own then
    let up := stepUp before
    { p with path := if last then up else closed up }
  else if isDot own then { p with path := closed before }
  else
    let isStart := file && start == 1 && isDrive own
    let own := if isStart then own.take 1 ++ [':'] else own
    { path := before ++ own ++ (if last then [] else ['/']), onDrive := p.onDrive || isStart }

/-- Takes all segments. -/
def PathReading.pushAll (file : Bool) (p : PathReading) : List (List Char) → PathReading
  | [] => p
  | [s] => p.push file true s
  | s :: r => (p.push file false s).pushAll file r

/-- Reads segments after the path so far.  The path of a file starts with one slash. -/
def readPath (file : Bool) (path : List Char) (segments : List (List Char)) : PathReading :=
  let p := PathReading.pushAll file { path := path } segments
  if file then { p with path := '/' :: p.path.dropWhile (· == '/') } else p

end ComponentHost.Uri
