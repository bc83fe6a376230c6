import KubeLedger.Store.Memory

/- A streamer collects rows into batches and upserts them. A batch is written when it is full, when
   its oldest row has waited long enough, or when no row can come any more. The first write that
   fails ends the streamer. A cancellation ends it too, but not before a write that is under way is
   done; the unfinished batch is dropped.

   The streamer is a transition system: it is in a phase, its surroundings send signals, and a
   signal that a phase does not wait for changes nothing. Times are in milliseconds. -/
namespace KubeLedger

/-- How rows are collected into batches: at most so many, for at most so long. -/
structure BatchConfig where
  maxSize : Nat
  maxFill : Nat
deriving DecidableEq, Repr

/-- Batches of at least one row. -/
def BatchConfig.of (maxSize maxFill : Nat) : BatchConfig := ⟨max 1 maxSize, maxFill⟩

/-- Batches of a hundred rows, written after a quarter of a second at the latest. -/
def BatchConfig.standard : BatchConfig := .of 100 250

inductive StreamEnd where
  /-- All rows were written. -/
  | finished (count : Nat)
  | failed (e : StoreError)
  | cancelled
deriving DecidableEq, Repr

/-- Where a streamer is. -/
inductive StreamPhase where
  /-- It waits for rows. -/
  | filling
  /-- A write is under way; it may be the last one. -/
  | writing (rows : List Row) (isLast : Bool)
  | ended (result : StreamEnd)

/-- What the surroundings tell a streamer. -/
inductive StreamSignal where
  | row (r : Row) (now : Nat)
  /-- No row can come any more. -/
  | closed
  /-- The oldest row has waited long enough. -/
  | expired
  | wrote (result : Except StoreError Unit)
  | cancelled

structure Streamer where
  how : Upsert
  config : BatchConfig
  phase : StreamPhase := .filling
  /-- The rows that wait. -/
  batch : List Row := []
  /-- When they have to be written. -/
  deadline : Option Nat := none
  /-- How many rows were written. -/
  written : Nat := 0

namespace Streamer

def end? (s : Streamer) : Option StreamEnd :=
  match s.phase with
  | .ended r => some r
  | _ => none

def flush (s : Streamer) (isLast : Bool) : Streamer :=
  { s with phase := .writing s.batch isLast, batch := [], deadline := none }

/-- Takes a row. The first of a batch sets its deadline. -/
def take (s : Streamer) (r : Row) (now : Nat) : Streamer :=
  { s with
    batch := s.batch ++ [r]
    deadline := s.deadline.or (some (now + s.config.maxFill)) }

def step (s : Streamer) (g : StreamSignal) : Streamer :=
  match s.phase, g with
  | .filling, .row r now =>
    let s := s.take r now
    if s.config.maxSize ≤ s.batch.length then s.flush false else s
  | .filling, .closed =>
    if s.batch.isEmpty then { s with phase := .ended (.finished s.written) } else s.flush true
  | .filling, .expired => if s.batch.isEmpty then s else s.flush false
  | .filling, .cancelled => { s with phase := .ended .cancelled }
  | .writing rows isLast, .wrote (.ok ()) =>
    let written := s.written + rows.length
    { s with written, phase := if isLast then .ended (.finished written) else .filling }
  | .writing _ _, .wrote (.error e) => { s with phase := .ended (.failed e) }
  | _, _ => s

/-- Does the write that is under way, if there is one. -/
def write (s : Streamer) (m : Memory) : Streamer × Memory :=
  match s.phase with
  | .writing rows _ =>
    let (r, m) := m.write (.upsert s.how rows)
    (s.step (.wrote (r.map fun _ => ())), m)
  | _ => (s, m)

/-- Takes rows one after another, and writes whenever a batch is full. -/
def takeAll (now : Nat) : List Row → Streamer → Memory → Streamer × Memory
  | [], s, m => (s, m)
  | r :: rest, s, m =>
    let (s, m) := (s.step (.row r now)).write m
    takeAll now rest s m

/-- Lets time pass up to a point: a batch whose deadline comes until then is written. -/
def elapse (horizon : Nat) (s : Streamer) (m : Memory) : Streamer × Memory :=
  match s.deadline with
  | some t => if t ≤ horizon then (s.step .expired).write m else (s, m)
  | none => (s, m)

def close (s : Streamer) (m : Memory) : Streamer × Memory := (s.step .closed).write m

end Streamer

/-- A streamer with its store, on a clock that only moves when it is told to. -/
structure StreamerRun where
  streamer : Streamer
  store : Memory := {}
  now : Nat := 0

namespace StreamerRun

def isRunning (r : StreamerRun) : Bool := r.streamer.end?.isNone

/-- Sends rows, and says how many were taken. -/
def send (r : StreamerRun) (rows : List Row) : Nat × StreamerRun :=
  let (streamer, store) := r.streamer.takeAll r.now rows r.store
  (if r.isRunning then rows.length else 0, { r with streamer, store })

def elapse (r : StreamerRun) (span : Nat) : StreamerRun :=
  let now := r.now + span
  let (streamer, store) := r.streamer.elapse now r.store
  { streamer, store, now }

/-- Lets no row come any more. -/
def close (r : StreamerRun) : StreamerRun :=
  let (streamer, store) := r.streamer.close r.store
  { r with streamer, store }

def cancel (r : StreamerRun) : StreamerRun := { r with streamer := r.streamer.step .cancelled }

end StreamerRun

end KubeLedger
