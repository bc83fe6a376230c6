import KubeLedger.Http.Host

/- Addresses of resources on a server. An address has a scheme, mostly an authority, a path, and
   maybe a query and a fragment. The path is a list of segments, or one plain text that nothing can
   be appended to. Reading resolves dots in the path and escapes what cannot stand where it is, so
   the text of an address reads back as that address. -/
namespace KubeLedger.Http

open KubeLedger.Text

/-- What a scheme means for the rest of an address. -/
inductive Family where
  /-- Names a server, with slashes in both directions. -/
  | web
  /-- Names a file, whose host may be left out. -/
  | file
  | other
deriving DecidableEq, Repr

/-- The numbers of the services that schemes of the web address by default. -/
def webServices : List (String × Nat) :=
  [("http", 80), ("https", 443), ("ws", 80), ("wss", 443), ("ftp", 21)]

def Family.ofScheme (scheme : String) : Family :=
  if (webServices.lookup scheme).isSome then .web else if scheme = "file" then .file else .other

/-- The path of an address. -/
inductive Path where
  | segments (parts : List String)
  | plain (text : String)
deriving DecidableEq, Repr

/-- Who is addressed. -/
structure Authority where
  /-- The user name, and a password after a colon. -/
  user : Option String
  host : String
  /-- The number of the service on the host, unless it is the default. -/
  service : Option Nat
deriving DecidableEq, Repr

/-- An address. -/
structure Url where
  scheme : String
  authority : Option Authority
  path : Path
  query : Option String := none
  fragment : Option String := none
deriving DecidableEq, Repr

/-- Cuts at the first character that passes `p`, which is dropped. -/
def cutAt (p : Char → Bool) (cs : List Char) : List Char × Option (List Char) :=
  match cs.span fun c => !p c with
  | (front, _ :: back) => (front, some back)
  | (front, []) => (front, none)

def escapeChars (set : UInt8 → Bool) (cs : List Char) : String :=
  String.ofList (escape set (encode (String.ofList cs)))

/-- Whether a character is skipped wherever it stands. -/
def isSkipped (c : Char) : Bool := c == '\t' || c == '\n' || c == '\r'

/-- The characters of an address without those that are skipped, and without controls and spaces
around them. -/
def significant (cs : List Char) : List Char :=
  let isEdge (c : Char) : Bool := c.toNat ≤ 0x20
  (((cs.dropWhile isEdge).reverse.dropWhile isEdge).reverse).filter fun c => !isSkipped c

/-! ## Paths -/

def isSlash (family : Family) (c : Char) : Bool := c == '/' || (family != .other && c == '\\')

def splitPath (family : Family) : List Char → List (List Char)
  | [] => [[]]
  | c :: rest =>
    if isSlash family c then [] :: splitPath family rest
    else
      match splitPath family rest with
      | part :: parts => (c :: part) :: parts
      | [] => [[c]]

def isDot (s : String) : Bool := s = "." || s = "%2e" || s = "%2E"

def isDoubleDot (s : String) : Bool :=
  [".", "%2e", "%2E"].any fun a => [".", "%2e", "%2E"].any fun b => s = a ++ b

/-- Enters a segment at the end of a path. One dot stays, two dots leave the segment before; at the
end of a path the place that is reached is itself an empty segment. -/
def enter (parts : List String) (part : String) (isLast : Bool) : List String :=
  if isDoubleDot part then if isLast then parts.dropLast ++ [""] else parts.dropLast
  else if isDot part then if isLast then parts ++ [""] else parts
  else parts ++ [part]

def enterAll (parts : List String) : List String → List String
  | [] => parts
  | part :: rest => enterAll (enter parts part rest.isEmpty) rest

def readPath (family : Family) (cs : List Char) : Path :=
  if cs.isEmpty && family = .other then .segments []
  else
    let cs := if cs.head?.any (isSlash family) then cs.drop 1 else cs
    .segments (enterAll [] ((splitPath family cs).map (escapeChars pathSet)))

/-! ## Authorities -/

/-- Cuts at the last character that passes `p`, which is dropped. -/
def cutAtLast (p : Char → Bool) (cs : List Char) : Option (List Char) × List Char :=
  match cutAt p cs.reverse with
  | (back, some front) => (some front.reverse, back.reverse)
  | (_, none) => (none, cs)

/-- The text of a user name and password. An empty password has no colon. -/
def userText (cs : List Char) : Option String :=
  match cutAt (· == ':') cs with
  | ([], none) => none
  | ([], some []) => none
  | (name, some []) => some (escapeChars userSet name)
  | (name, none) => some (escapeChars userSet name)
  | (name, some password) => some (escapeChars userSet name ++ ":" ++ escapeChars userSet password)

/-- Cuts off the number of a service. A colon in brackets belongs to the host. -/
def cutService : Bool → List Char → List Char × Option (List Char)
  | _, [] => ([], none)
  | inside, c :: rest =>
    if c == ':' && !inside then ([], some rest)
    else
      let (host, service) := cutService (c == '[' || (inside && c != ']')) rest
      (c :: host, service)

/-- The number of a service: digits below 65536, or nothing. -/
def readService? (scheme : String) (cs : List Char) : Option (Option Nat) :=
  if !cs.all Char.isDigit then none
  else if cs.isEmpty then some none
  else
    match valueIn? 10 cs with
    | some n =>
      if 65536 ≤ n then none
      else if webServices.lookup scheme == some n then some none
      else some (some n)
    | none => none

/-- Reads an authority. A server of the web has a host, and so has one with a user or a
service. -/
def readAuthority? (scheme : String) (cs : List Char) : Option Authority := do
  let family := Family.ofScheme scheme
  let (user, rest) := cutAtLast (· == '@') cs
  let (host, service) := cutService false rest
  if host.isEmpty then
    if family = .web || user.isSome || service.isSome then none
    else return ⟨none, "", none⟩
  let host ← if family = .other then plainHostText? host else hostText? host
  let service ← (service.elim (some none) (readService? scheme) : Option (Option Nat))
  return ⟨user.bind userText, host, service⟩

namespace Url

/-- Reads the scheme: a letter, then letters, digits and `+-.`, up to a colon. -/
def readScheme? (cs : List Char) : Option (String × List Char) :=
  match cutAt (· == ':') cs with
  | (front, some rest) =>
    let isPart (c : Char) : Bool := c.isAlphanum || c == '+' || c == '-' || c == '.'
    if front.head?.any Char.isAlpha && front.all isPart then
      some (String.ofList (front.map Char.toLower), rest)
    else none
  | _ => none

def readPlace? (scheme : String) (cs : List Char) : Option (Option Authority × Path) :=
  let family := Family.ofScheme scheme
  let placed (cs : List Char) : Option (Option Authority × Path) :=
    let (authority, path) := cs.span fun c => !isSlash family c
    (readAuthority? scheme authority).map fun a => (some a, readPath family path)
  match family with
  | .web => placed (cs.dropWhile (isSlash family))
  | .file =>
    match cs with
    | a :: b :: rest =>
      if isSlash family a && isSlash family b then
        (placed rest).map fun (a, p) =>
          (a.map fun a => if a.host = "localhost" then { a with host := "" } else a, p)
      else some (some ⟨none, "", none⟩, readPath family cs)
    | _ => some (some ⟨none, "", none⟩, readPath family cs)
  | .other =>
    match cs with
    | '/' :: '/' :: rest => placed rest
    | '/' :: _ => some (none, readPath family cs)
    | _ => some (none, .plain (escapeChars controlSet cs))

/-- Reads an address. It has to be complete: without a scheme it would only be part of one. -/
def read? (s : String) : Option Url := do
  let (scheme, rest) ← readScheme? (significant s.toList)
  let (rest, fragment) := cutAt (· == '#') rest
  let (rest, query) := cutAt (· == '?') rest
  let (authority, path) ← readPlace? scheme rest
  let isWeb := Family.ofScheme scheme != .other
  return {
    scheme, authority, path
    query := query.map (escapeChars fun b => querySet b || (isWeb && isOneOf ['\''] b))
    fragment := fragment.map (escapeChars fragmentSet) }

def pathText : Path → String
  | .segments parts => String.join (parts.map fun p => "/" ++ p)
  | .plain text => text

def authorityText (a : Authority) : String :=
  (a.user.elim "" fun u => u ++ "@") ++ a.host ++ (a.service.elim "" fun p => ":" ++ toString p)

/-- What a request names on the server: the path and the query. -/
def target (u : Url) : String :=
  let path := pathText u.path
  (if path = "" then "/" else path) ++ (u.query.elim "" fun q => "?" ++ q)

def text (u : Url) : String :=
  u.scheme ++ ":" ++ (u.authority.elim "" fun a => "//" ++ authorityText a) ++ pathText u.path ++
    (u.query.elim "" fun q => "?" ++ q) ++ (u.fragment.elim "" fun f => "#" ++ f)

/-- Whether segments can be appended to the path. -/
def isBase (u : Url) : Bool :=
  match u.path with
  | .segments _ => true
  | .plain _ => false

/-- The parts of a path after one is appended. One or two dots are not appended, and an empty path
takes the part in its place. -/
def appendPart (family : Family) (parts : List String) (part : String) : List String :=
  if part = "." ∨ part = ".." then parts
  else
    let set (b : UInt8) : Bool := segmentSet b || (family != .other && isOneOf ['\\'] b)
    let written := escapeChars set (part.toList.filter fun c => !isSkipped c)
    enter (if parts = [""] then [] else parts) written true

/-- The address below this one. An empty part at its end is replaced. -/
def below (u : Url) (more : List String) : Url :=
  match u.path with
  | .segments parts =>
    let parts := if 1 < parts.length && parts.getLast? == some "" then parts.dropLast else parts
    { u with path := .segments (more.foldl (appendPart (Family.ofScheme u.scheme)) parts) }
  | .plain _ => u

def withPair (u : Url) (name value : String) : Url :=
  let before := match u.query with
    | none => ""
    | some "" => ""
    | some q => q ++ "&"
  { u with query := some (before ++ formText name ++ "=" ++ formText value) }

/-- The bytes that may stand in the host of a request. -/
def isHostByte (c : Char) : Bool :=
  c.isAlphanum || "!$&'()*+,-.:;=[]_~".toList.contains c

/-- Whether a request can be sent there: the address names a host in plain characters, and neither
it nor its scheme is too long. -/
def isRequestable (u : Url) : Bool :=
  u.text.utf8ByteSize ≤ 65534 && u.scheme.length ≤ 64 &&
    u.authority.any fun a => a.host ≠ "" && a.host.toList.all isHostByte

end Url

end KubeLedger.Http
