import KubeLedger.Telemetry.Sample

/- A poller asks one query again and again. It hands on the record of each usable sample of an
   answer, one after another, and rests before it asks again. The first query that fails ends it;
   so does a cancellation, and a channel that nobody reads any more counts as one. An answer of which
   no records can be made breaks it off.

   The poller is a transition system: it is in a phase, its surroundings send signals, and a signal
   that a phase does not wait for changes nothing. -/
namespace KubeLedger

inductive PollEnd where
  | failed (e : QueryError)
  | cancelled
  /-- The minute of a sample overflowed. -/
  | overflowed
deriving DecidableEq, Repr

/-- Where a poller is. -/
inductive PollPhase where
  /-- It is about to ask. -/
  | ready
  /-- It has asked. -/
  | asking
  /-- It hands on a record, and has more of them. -/
  | sending (record : TelemetryRecord) (rest : List TelemetryRecord)
  | resting
  | ended (reason : PollEnd)

/-- What the surroundings tell a poller. -/
inductive PollSignal where
  /-- It may ask. -/
  | started
  | answered (answer : Except QueryError QueryAnswer)
  /-- The record was taken. -/
  | sent
  /-- Nobody reads the records any more. -/
  | closed
  | rested
  | cancelled

structure Poller where
  granularity : Granularity
  query : Query
  phase : PollPhase := .ready

namespace Poller

def end? (p : Poller) : Option PollEnd :=
  match p.phase with
  | .ended r => some r
  | _ => none

def isEnded (p : Poller) : Bool := p.end?.isSome

def handOn : List TelemetryRecord → PollPhase
  | [] => .resting
  | r :: rest => .sending r rest

def received : Option (List TelemetryRecord) → PollPhase
  | some records => handOn records
  | none => .ended .overflowed

/-- The records that an answer makes. -/
def records? (p : Poller) (a : QueryAnswer) : Option (List TelemetryRecord) :=
  p.query.records? p.granularity a.result

def step (p : Poller) (g : PollSignal) : Poller :=
  match p.phase, g with
  | .ended _, _ => p
  | _, .cancelled => { p with phase := .ended .cancelled }
  | .ready, .started => { p with phase := .asking }
  | .asking, .answered (.ok a) => { p with phase := received (p.records? a) }
  | .asking, .answered (.error e) => { p with phase := .ended (.failed e) }
  | .sending _ rest, .sent => { p with phase := handOn rest }
  | .sending _ _, .closed => { p with phase := .ended .cancelled }
  | .resting, .rested => { p with phase := .ready }
  | _, _ => p

end Poller

end KubeLedger
