import KubeLedger.Decimal
import KubeLedger.Telemetry.Query

/- Answers of a metrics server, and the records they make. A vector has a sample for each series, a
   scalar is one sample without labels, and other results have none. A sample is usable if its value
   is a number and it can be attributed; its record is one value of a series, ready for its table.

   Points in time are cut down to whole minutes, so that samples of the same minute share a row. The
   start of a minute is a difference that has to lie within sixty-four bits. A usable sample whose
   minute begins before that has no record, and its whole answer makes none. -/
namespace KubeLedger

/-! ## Records -/

/-- The milliseconds of a minute. -/
def minute : Int64 := 60000

/-- The remainder of a division by a positive number, never negative. -/
def remainder (a b : Int64) : Int64 := if a % b < 0 then a % b + b else a % b

/-- A difference, unless it overflows. -/
def difference? (a b : Int64) : Option Int64 :=
  if a.toBitVec.ssubOverflow b.toBitVec then none else some (a - b)

/-- The start of the minute of a point in time, unless it overflows. -/
def truncateMinute? (t : Int64) : Option Int64 := difference? t (remainder t minute)

/-- A value attributed to a thing. -/
structure TelemetryRecord where
  entity : EntityId
  timestamp : Int64
  category : String
  name : String
  value : Float

namespace TelemetryRecord

def sampled? (entity : EntityId) (time : Int64) (category name : String) (value : Float) :
    Option TelemetryRecord :=
  (truncateMinute? time).map fun minute => ⟨entity, minute, category, name, value⟩

def row (r : TelemetryRecord) : Row :=
  [.id r.entity, .int r.timestamp, .text r.category, .text r.name, .float r.value]

end TelemetryRecord

/-! ## Answers -/

/-- One value of a series at a point in time. -/
structure Sample where
  labels : Labels
  time : Int64
  value : Float

inductive QueryResult where
  | vector (samples : List Sample)
  | scalar (time : Int64) (value : Float)
  /-- A result of another type. -/
  | other (type : String)

structure QueryAnswer where
  result : QueryResult
  warnings : List String := []

inductive QueryError where
  /-- The request could not be sent or the answer not be read. -/
  | transport (words : String)
  /-- A status that is no success, without an explanation. -/
  | http (status : Nat)
  /-- The server explains why it refuses. -/
  | refused (type text : String)
  /-- The answer cannot be understood. -/
  | malformed (words : String)
deriving DecidableEq, Repr

def QueryError.message : QueryError → String
  | .transport words => "Transport error: " ++ words
  | .http status => "Http Error: status " ++ toString status
  | .refused type text => "Query failed with " ++ type ++ ": " ++ text
  | .malformed words => "Invalid query response: " ++ words

def QueryResult.samples : QueryResult → List Sample
  | .vector samples => samples
  | .scalar time value => [⟨[], time, value⟩]
  | .other _ => []

def Sample.owner? (s : Sample) (g : Granularity) : Option EntityId :=
  if Decimal.isNaN s.value then none else g.owner? s.labels

def Query.record? (q : Query) (id : EntityId) (s : Sample) : Option TelemetryRecord :=
  TelemetryRecord.sampled? id s.time q.category (q.seriesName s.labels) s.value

/-- The records of all usable samples in their order. -/
def Query.recordsOf? (q : Query) (g : Granularity) : List Sample → Option (List TelemetryRecord)
  | [] => some []
  | s :: rest =>
    match s.owner? g with
    | none => recordsOf? q g rest
    | some id => do
      let r ← q.record? id s
      return r :: (← recordsOf? q g rest)

/-- The records that a result makes. -/
def Query.records? (q : Query) (g : Granularity) (r : QueryResult) : Option (List TelemetryRecord) :=
  q.recordsOf? g r.samples

end KubeLedger
