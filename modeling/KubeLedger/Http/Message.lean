import KubeLedger.Http.Url
import KubeLedger.Script

/- Requests over HTTP and what comes back. A conversation is a script of requests; whoever runs it
   says which of them are answered. Bodies arrive in chunks and may break off.

   Any run of line ends in a body separates lines, wherever the chunks were cut. A line keeps the
   chunks it came in and is read into buffers of any size. A failure of the body ends the line at
   hand, which is lost, and the lines go on after it. -/
namespace KubeLedger

open KubeLedger.Text

/-- What a body delivers: a chunk, or a failure. -/
inductive BodyItem where
  | chunk (bytes : Bytes)
  | failure
deriving DecidableEq, Repr

namespace Http

/-- A header of a request. -/
structure Header where
  name : String
  value : String
deriving DecidableEq, Repr

/-- Whether a value can be sent in a header: no control characters but tabs. -/
def Header.isValid (h : Header) : Bool :=
  (encode h.value).all fun b => (0x20 ≤ b && b != 0x7F) || b == 0x09

/-- A request to read something. -/
structure Request where
  url : Url
  headers : List Header
deriving DecidableEq, Repr

def Request.of? (url : Url) (headers : List Header) : Option Request :=
  if url.isRequestable && headers.all Header.isValid then some ⟨url, headers⟩ else none

def Request.header? (r : Request) (name : String) : Option String :=
  (r.headers.find? fun h => h.name == name).map fun h => h.value

/-- An answer. -/
structure Response where
  status : Nat
  body : List BodyItem
deriving DecidableEq, Repr

namespace Response

def isSuccess (r : Response) : Bool := 200 ≤ r.status && r.status < 300

/-- The answer as it arrives: two statuses promise that there is no body. -/
def arriving (r : Response) : Response :=
  if r.status = 204 ∨ r.status = 304 then { r with body := [] } else r

/-- The bytes of the body, if it arrives as a whole. -/
def content? (r : Response) : Option Bytes :=
  (r.body.mapM fun (i : BodyItem) =>
    match i with
    | .chunk bytes => some bytes
    | .failure => none).map List.flatten

end Response

/-- A conversation with a server. A request that finds no server is not answered. -/
abbrev Conversation := Script Request (fun _ => Option Response)

end Http

/-! ## Lines -/

/-- A line: its chunks. -/
abbrev Line := List Bytes

namespace Line

/-- Whether nothing is left to read. -/
def isSpent (l : Line) : Bool := l.all List.isEmpty

/-- Reads up to `size` bytes: those bytes, and the line that is left. Chunks that are used up, or
were empty, are dropped on the way. -/
def read : Nat → Line → Bytes × Line
  | _, [] => ([], [])
  | size, chunk :: rest =>
    if size = 0 then ([], chunk :: rest)
    else if size < chunk.length then (chunk.take size, chunk.drop size :: rest)
    else
      let (bytes, left) := Line.read (size - chunk.length) rest
      (chunk ++ bytes, left)

/-- Reads into buffers of one size until a read gives nothing. -/
def readAll (size : Nat) (l : Line) : Nat → Bytes
  | 0 => []
  | fuel + 1 =>
    match l.read size with
    | ([], _) => []
    | (bytes, left) => bytes ++ left.readAll size fuel

/-- All bytes of a line, read through buffers of one size. Each read but the last gives a byte. -/
def bytesBy (size : Nat) (l : Line) : Bytes := l.readAll size (l.flatten.length + 1)

end Line

def isLineEnd (b : UInt8) : Bool := b == 0x0A || b == 0x0D

/-- The line at hand with the bytes that the present chunk adds to it, which are read backwards. -/
def extend (current : Line) (piece : Bytes) : Line :=
  if piece.isEmpty then current else current ++ [piece.reverse]

/-- The lines that the rest of a chunk ends, and the line at hand after it. `piece` is what the
chunk has added to the line at hand so far, read backwards. A line end with no line before it ends
nothing. -/
def splitChunk (current : Line) (piece : Bytes) : Bytes → List Line × Line
  | [] => ([], extend current piece)
  | b :: rest =>
    if isLineEnd b then
      let line := extend current piece
      let (lines, left) := splitChunk [] [] rest
      (if line.isEmpty then lines else line :: lines, left)
    else splitChunk current (b :: piece) rest

/-- The lines that a chunk ends, and the line at hand after it. An empty chunk is part of its line.
-/
def takeChunk (current : Line) (chunk : Bytes) : List Line × Line :=
  if chunk.isEmpty then ([], current ++ [[]]) else splitChunk current [] chunk

/-- The results of reading lines from a body when `current` is the line at hand: a line, or none
for a failure. A line that the end of the body cuts off is a line. -/
def linesFrom (current : Line) : List BodyItem → List (Option Line)
  | [] => if current.isEmpty then [] else [some current]
  | .chunk bytes :: rest =>
    let (lines, left) := takeChunk current bytes
    lines.map some ++ linesFrom left rest
  | .failure :: rest => none :: linesFrom [] rest

/-- The lines of a body, with none for each failure. -/
def lines (body : List BodyItem) : List (Option Line) := linesFrom [] body

end KubeLedger
