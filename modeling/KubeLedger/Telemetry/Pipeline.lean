import KubeLedger.Store.Streamer
import KubeLedger.Telemetry.Poller

/- A pipeline brings telemetry into a store. Each level with queries has a lane: a poller for each
   query, and one streamer, to which they hand their records through a bounded channel. The first
   failure of any task that is joined stops all the others, and so does the caller.

   The pipeline is a transition system. A move is one step of one task; it is possible or not in a
   state, and every order of possible moves is a run. Whether the pipeline is stopped is looked at
   before anything else, except in a write that is under way. -/
namespace KubeLedger

/-- The settings of a pipeline. -/
structure PipelineConfig where
  pollInterval : Nat := 55000
  batchSize : Nat := 100
  batchMaxFill : Nat := 250
  capacity : Nat := 8
  queries : Granularity → List Query

namespace PipelineConfig

def empty : PipelineConfig := { queries := fun _ => [] }

def standard : PipelineConfig := { queries := Query.catalog }

def withQueries (c : PipelineConfig) (g : Granularity) (queries : List Query) : PipelineConfig :=
  { c with queries := fun h => if h = g then queries else c.queries h }

/-- The settings with another capacity of the channels, at least one. -/
def withCapacity (c : PipelineConfig) (capacity : Nat) : PipelineConfig :=
  { c with capacity := max 1 capacity }

def batches (c : PipelineConfig) : BatchConfig := .of c.batchSize c.batchMaxFill

end PipelineConfig

/-- Why a pipeline fails. -/
inductive IngestError where
  | store (e : StoreError)
  | query (e : QueryError)
  /-- A poller broke off. -/
  | overflow
deriving DecidableEq, Repr

/-- The tasks of one level. -/
structure Lane where
  granularity : Granularity
  /-- How many records the channel holds at most. -/
  capacity : Nat
  channel : List TelemetryRecord := []
  streamer : Streamer
  pollers : List Poller

/-- A pipeline on its way. -/
structure Pipeline where
  lanes : List Lane
  /-- Whether the caller has stopped it. -/
  isStopped : Bool := false
  /-- What tasks that have ended but are not joined ended with, the first to end first. -/
  unjoined : List (Option IngestError) := []
  /-- How many tasks are joined. -/
  joined : Nat := 0
  /-- The first failure that was joined. -/
  failure : Option IngestError := none

/-- One step of one task. Tasks are named by the place of their lane, and of the poller in it. -/
inductive PipelineMove where
  | stop
  /-- The next task that has ended is joined. -/
  | join
  /-- A poller asks. -/
  | query (lane index : Nat)
  | answer (lane index : Nat) (a : Except QueryError QueryAnswer)
  /-- A poller puts its record into the channel. -/
  | send (lane index : Nat)
  /-- A poller has rested long enough. -/
  | rest (lane index : Nat)
  /-- A poller finds that it is to end. -/
  | quit (lane index : Nat)
  /-- A streamer takes a record from the channel. -/
  | receive (lane now : Nat)
  /-- The oldest row of a streamer has waited long enough. -/
  | expire (lane : Nat)
  /-- A streamer finds that no record can come any more. -/
  | close (lane : Nat)
  | wrote (lane : Nat) (result : Except StoreError Unit)
  /-- A streamer finds that it is to end. -/
  | drop (lane : Nat)

namespace Lane

/-- The lane of a level. Records for a key that is there only bring a new value. -/
def start (c : PipelineConfig) (g : Granularity) : Lane where
  granularity := g
  capacity := c.capacity
  streamer := { how := ⟨g.table, .update ["value"]⟩, config := c.batches }
  pollers := (c.queries g).map fun q => { granularity := g, query := q }

/-- Whether records can still be taken from the channel. -/
def isOpen (l : Lane) : Bool := l.streamer.end?.isNone

def isFilling (l : Lane) : Bool :=
  match l.streamer.phase with
  | .filling => true
  | _ => false

/-- Whether no record can come any more. -/
def isDone (l : Lane) : Bool := l.channel.isEmpty && l.pollers.all Poller.isEnded

def taskCount (l : Lane) : Nat := l.pollers.length + 1

end Lane

namespace Pipeline

/-- The pipeline for some settings. A level without queries has no lane. -/
def start (c : PipelineConfig) : Pipeline where
  lanes := (Granularity.all.filter fun g => !(c.queries g).isEmpty).map (Lane.start c)

def isEnding (p : Pipeline) : Bool := p.isStopped || p.failure.isSome

def taskCount (p : Pipeline) : Nat := p.lanes.foldr (fun l n => l.taskCount + n) 0

/-- What the pipeline returns, once every task has ended and is joined. -/
def result? (p : Pipeline) : Option (Except IngestError Unit) :=
  if p.joined = p.taskCount then
    some (match p.failure with
      | some e => .error e
      | none => .ok ())
  else none

def pollFailure : PollEnd → Option IngestError
  | .failed e => some (.query e)
  | .cancelled => none
  | .overflowed => some .overflow

def streamFailure : StreamEnd → Option IngestError
  | .failed e => some (.store e)
  | .finished _ => none
  | .cancelled => none

def setLane (p : Pipeline) (i : Nat) (l : Lane) : Pipeline := { p with lanes := p.lanes.set i l }

/-- The pipeline after a signal to a poller, with the end that it may have come to. -/
def tellPoller (p : Pipeline) (i j : Nat) (l : Lane) (poller : Poller) (g : PollSignal) :
    Pipeline :=
  let poller := poller.step g
  let p := p.setLane i { l with pollers := l.pollers.set j poller }
  { p with unjoined := p.unjoined ++ (poller.end?.map pollFailure).toList }

/-- The pipeline after a signal to a streamer, with the end that it may have come to. -/
def tellStreamer (p : Pipeline) (i : Nat) (l : Lane) (g : StreamSignal) : Pipeline :=
  let streamer := l.streamer.step g
  let p := p.setLane i { l with streamer }
  { p with unjoined := p.unjoined ++ (streamer.end?.map streamFailure).toList }

def join? (p : Pipeline) : Option Pipeline :=
  match p.unjoined with
  | [] => none
  | e :: rest => some { p with unjoined := rest, joined := p.joined + 1, failure := p.failure.or e }

def pollSignal? (p : Pipeline) (l : Lane) (poller : Poller) : PipelineMove → Option PollSignal
  | .query _ _ =>
    match poller.phase with
    | .ready => if p.isEnding then none else some .started
    | _ => none
  | .answer _ _ a =>
    match poller.phase with
    | .asking => if p.isEnding then none else some (.answered a)
    | _ => none
  | .send _ _ =>
    match poller.phase with
    | .sending _ _ =>
      if p.isEnding || !l.isOpen || l.capacity ≤ l.channel.length then none else some .sent
    | _ => none
  | .rest _ _ =>
    match poller.phase with
    | .resting => if p.isEnding then none else some .rested
    | _ => none
  | .quit _ _ =>
    match poller.phase with
    | .ended _ => none
    | .sending _ _ =>
      if p.isEnding then some .cancelled else if l.isOpen then none else some .closed
    | _ => if p.isEnding then some .cancelled else none
  | _ => none

def sent (poller : Poller) : PipelineMove → List TelemetryRecord
  | .send _ _ =>
    match poller.phase with
    | .sending r _ => [r]
    | _ => []
  | _ => []

def movePoller? (p : Pipeline) (i j : Nat) (m : PipelineMove) : Option Pipeline := do
  let l ← p.lanes[i]?
  let poller ← l.pollers[j]?
  let g ← p.pollSignal? l poller m
  return p.tellPoller i j { l with channel := l.channel ++ sent poller m } poller g

/-- The pipeline after a streamer took a record. -/
def receive? (p : Pipeline) (i now : Nat) : Option Pipeline := do
  let l ← p.lanes[i]?
  match l.channel with
  | [] => none
  | r :: rest =>
    if l.isFilling && !p.isEnding then
      some (p.tellStreamer i { l with channel := rest } (.row r.row now))
    else none

def moveStreamer? (p : Pipeline) (i : Nat) (possible : Lane → Bool) (g : StreamSignal) :
    Option Pipeline := do
  let l ← p.lanes[i]?
  if possible l then some (p.tellStreamer i l g) else none

def step? (p : Pipeline) (m : PipelineMove) : Option Pipeline :=
  match m with
  | .stop => some { p with isStopped := true }
  | .join => p.join?
  | .query i j => p.movePoller? i j m
  | .answer i j _ => p.movePoller? i j m
  | .send i j => p.movePoller? i j m
  | .rest i j => p.movePoller? i j m
  | .quit i j => p.movePoller? i j m
  | .receive i now => p.receive? i now
  | .expire i =>
    p.moveStreamer? i
      (fun l => l.isFilling && !p.isEnding && l.channel.isEmpty && l.streamer.deadline.isSome)
      .expired
  | .close i => p.moveStreamer? i (fun l => l.isFilling && !p.isEnding && l.isDone) .closed
  | .wrote i r => p.moveStreamer? i (fun l => l.isOpen && !l.isFilling) (.wrote r)
  | .drop i => p.moveStreamer? i (fun l => l.isFilling && p.isEnding) .cancelled

end Pipeline

end KubeLedger
