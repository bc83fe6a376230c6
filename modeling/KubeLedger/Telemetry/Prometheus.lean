import KubeLedger.Http.Message
import KubeLedger.Json.Source
import KubeLedger.Telemetry.Sample

/- Queries to a Prometheus server over HTTP. An expression is evaluated at one point in time. The
   answer says itself whether the query succeeded, so its body is read before its status is looked
   at. -/
namespace KubeLedger

open KubeLedger.Text KubeLedger.Http

/-- A Prometheus server. -/
structure Prometheus where
  base : Url

namespace Prometheus

/-- Why an address is not that of a server. -/
inductive AddressError where
  | malformed
  | noBase (address : String)
deriving DecidableEq, Repr

def at? (address : String) : Except AddressError Prometheus :=
  match Url.read? address with
  | none => .error .malformed
  | some u => if u.isBase then .ok ⟨u⟩ else .error (.noBase address)

/-- The address as the reason why a query cannot be sent. -/
def addressWords (address : String) : String := "invalid prometheus url: '" ++ address ++ "'"

def threeDigits (n : Nat) : String :=
  let digits := Nat.toDigits 10 n
  String.ofList (List.replicate (3 - digits.length) '0' ++ digits)

/-- A point in time as it is sent: whole seconds, rounded down, and the milliseconds after them. -/
def timeText (millis : Int64) : String :=
  toString (millis.toInt / 1000) ++ "." ++ threeDigits (millis.toInt % 1000).toNat

def queryUrl (p : Prometheus) (expression : String) (time : Option Int64) : Url :=
  let u := (p.base.below ["api", "v1", "query"]).withPair "query" expression
  time.elim u fun t => u.withPair "time" (timeText t)

/-- The data of an answer: the type of the result, and the result. -/
structure Data where
  type : String
  result : Json

/-- An answer as it is written. -/
structure Envelope where
  status : String
  data : Option Data
  errorType : Option String
  error : Option String
  warnings : List String

/-- Reads the data of an answer. Without a result the result is null. -/
def Data.ofSource? (s : Json.Source) : Option Data := do
  let f ← s.fields? ["resultType", "result"]
  let type ← (f.required? 0).bind Json.Source.asText?
  let result ← f.optional? 1 .null fun v => v.value? (Json.depthMax - 2)
  return ⟨type, result⟩

/-- Reads data that may be null. -/
def optData? : Json.Source → Option (Option Data)
  | .null => some none
  | s => (Data.ofSource? s).map some

def Envelope.ofSource? (s : Json.Source) : Option Envelope := do
  let f ← s.fields? ["status", "data", "errorType", "error", "warnings"]
  let status ← (f.required? 0).bind Json.Source.asText?
  let data ← f.optional? 1 none optData?
  let errorType ← f.optional? 2 none Json.Source.asOptText?
  let error ← f.optional? 3 none Json.Source.asOptText?
  let warnings ← f.optional? 4 [] Json.Source.asTexts?
  return ⟨status, data, errorType, error, warnings⟩

/-- Seconds as milliseconds, the nearest whole number. -/
def millisOf (seconds : Float) : Int64 := Decimal.roundToInt64 (seconds * 1000)

def readValue (s : String) : Except QueryError Float :=
  if s = "NaN" then .ok (0.0 / 0.0)
  else if s = "+Inf" ∨ s = "Inf" then .ok (1.0 / 0.0)
  else if s = "-Inf" then .ok (-1.0 / 0.0)
  else
    match Decimal.read? s with
    | some x => .ok x
    | none => .error (.malformed ("invalid sample value: '" ++ s ++ "'"))

def double? : Json → Option Float
  | .number (.whole n) =>
    let x := Decimal.nearest n.natAbs 0
    some (if n < 0 then -x else x)
  | .number (.real x) => some x
  | _ => none

def point? : Json → Option (Float × String)
  | .array [time, .text value] => (double? time).map fun t => (t, value)
  | _ => none

def labels? : Json → Option Labels
  | .object members => members.mapM fun m => m.2.text?.map fun v => (m.1, v)
  | _ => none

/-- A series of a vector: its labels, which may be missing, and its point. -/
def series? : Json → Option (Labels × Float × String)
  | .object members => do
    let labels ← (members.lookup "metric").elim (some []) labels?
    let point ← (members.lookup "value").bind point?
    return (labels, point)
  | .array [metric, value] => do return (← labels? metric, ← point? value)
  | _ => none

def sample (s : Labels × Float × String) : Except QueryError Sample :=
  (readValue s.2.2).map fun x => ⟨s.1, millisOf s.2.1, x⟩

def Data.query (d : Data) : Except QueryError QueryResult :=
  if d.type = "vector" then
    match d.result.array?.bind fun items => items.mapM series? with
    | some series => (series.mapM sample).map .vector
    | none => .error (.malformed "malformed vector")
  else if d.type = "scalar" then
    match point? d.result with
    | some (t, v) => (readValue v).map fun x => .scalar (millisOf t) x
    | none => .error (.malformed "malformed scalar")
  else .ok (.other d.type)

def decode (status : Nat) (body : Bytes) : Except QueryError QueryAnswer :=
  let isSuccess : Bool := 200 ≤ status && status < 300
  match (Json.Source.read? body).bind Envelope.ofSource? with
  | none => .error (if isSuccess then .malformed "malformed answer" else .http status)
  | some e =>
    if e.status ≠ "success" then .error (.refused (e.errorType.getD "") (e.error.getD ""))
    else if !isSuccess then .error (.http status)
    else
      match e.data with
      | none => .error (.malformed "response has no data")
      | some d => d.query.map fun r => ⟨r, e.warnings⟩

/-- Evaluates an expression at a point in time, or now. -/
def query (p : Prometheus) (expression : String) (time : Option Int64) :
    Conversation (Except QueryError QueryAnswer) :=
  match Request.of? (p.queryUrl expression time) [⟨"accept", "application/json"⟩] with
  | none => .done (.error (.transport "the request is not valid"))
  | some r =>
    .ask r fun a =>
      .done <|
        match a.bind fun response =>
          response.arriving.content?.map fun body => (response.status, body) with
        | none => .error (.transport "the server cannot be read")
        | some (status, body) => decode status body

end Prometheus

end KubeLedger
