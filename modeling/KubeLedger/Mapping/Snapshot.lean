import KubeLedger.Mapping.Pod
import KubeLedger.Quantity

/- Snapshots of containers: their logs, and their resource usage over a window of time. Usage comes
   from the metrics object of a pod. Processor time is in cores and everything else in MiB; what is
   not reported counts as zero. -/
namespace KubeLedger

structure ContainerLog where
  containerId : EntityId
  pod : ObjectId
  containerName : String
  logs : String

def ContainerLog.row (l : ContainerLog) : Row :=
  [.id l.containerId, .id l.pod.entityId, .text l.pod.ns, .text l.pod.name, .text l.containerName,
    .text l.logs]

/-! ## Windows of time -/

namespace Window

/-- A unit of time at the front of a text: what it makes of an amount, in milliseconds, and what
follows. -/
def readUnit? : List Char → Option ((Float → Float) × List Char)
  | 'n' :: 's' :: rest => some ((· / 1000000), rest)
  | 'u' :: 's' :: rest => some ((· / 1000), rest)
  | 'µ' :: 's' :: rest => some ((· / 1000), rest)
  | 'm' :: 's' :: rest => some (id, rest)
  | 's' :: rest => some ((· * 1000), rest)
  | 'm' :: rest => some ((· * 60000), rest)
  | 'h' :: rest => some ((· * 3600000), rest)
  | _ => none

/-- Digits with an optional fraction, which has digits too. -/
def readAmount? (cs : List Char) : Option (Decimal.Literal × List Char) :=
  let (whole, rest) := Decimal.spanDigits cs
  if whole.isEmpty then none
  else
    match rest with
    | '.' :: more =>
      let (fraction, rest) := Decimal.spanDigits more
      if fraction.isEmpty then none
      else some (⟨false, Decimal.natOfDigits (whole ++ fraction), -(fraction.length : Int)⟩, rest)
    | rest => some (⟨false, Decimal.natOfDigits whole, 0⟩, rest)

/-- One part of a window, an amount and its unit, in milliseconds. -/
def readPart? (cs : List Char) : Option (Float × List Char) := do
  let (amount, rest) ← readAmount? cs
  let (scale, rest) ← readUnit? rest
  return (scale amount.toFloat, rest)

/-- The sum of all parts of a window. A part is at least two characters long, so the length of the
text is fuel enough. -/
def readParts? (total : Float) (cs : List Char) : Nat → Option Float
  | 0 => none
  | fuel + 1 => do
    let (millis, rest) ← readPart? cs
    if rest.isEmpty then return total + millis
    else readParts? (total + millis) rest fuel

/-- The milliseconds of a window such as `1m30s`. -/
def read? (s : String) : Option Int64 :=
  let cs := s.toList
  (readParts? 0 cs cs.length).map Decimal.roundToInt64

end Window

/-! ## Usage -/

/-- The usage of a container over a window. -/
structure ContainerUsage where
  containerId : EntityId
  pod : ObjectId
  containerName : String
  timestamp : Int64
  duration : Int64
  cpu : Float
  memory : Float
  storage : Float
  ephemeralStorage : Float

namespace ContainerUsage

def mebibyte : Float := 1048576

/-- A reported quantity of a container, zero if it is not reported. -/
def quantity (value : Json) (resource : String) : Except InvalidObject Float :=
  match value.textAt? ["usage", resource] with
  | none => .ok 0
  | some s =>
    match Quantity.read? s with
    | some x => .ok x
    | none => .error ⟨.malformedUsage, value⟩

def ofJson (pod : ObjectId) (timestamp duration : Int64) (value : Json) :
    Except InvalidObject ContainerUsage := do
  match (value.get? "name").bind Json.text? with
  | none => throw ⟨.usageWithoutName, value⟩
  | some name =>
    let cpu ← quantity value "cpu"
    let memory ← quantity value "memory"
    let storage ← quantity value "storage"
    let ephemeral ← quantity value "ephemeral-storage"
    return {
      containerId := .container pod.ns pod.name name
      pod
      containerName := name
      timestamp
      duration
      cpu
      memory := memory / mebibyte
      storage := storage / mebibyte
      ephemeralStorage := ephemeral / mebibyte }

/-- The window of a metrics object in milliseconds, zero if it has none. -/
def window (metrics : ClusterObject) : Except InvalidObject Int64 :=
  match metrics.text? ["window"] with
  | none => .ok 0
  | some s =>
    match Window.read? s with
    | some n => .ok n
    | none => .error ⟨.malformedWindow, metrics.value⟩

def ofMetrics (pod : ObjectId) (metrics : ClusterObject) :
    Except InvalidObject (List ContainerUsage) := do
  let timestamp := (metrics.millis? ["timestamp"]).getD 0
  let duration ← window metrics
  (metrics.items ["containers"]).mapM (ofJson pod timestamp duration)

def row (u : ContainerUsage) : Row :=
  [.id u.containerId, .id u.pod.entityId, .text u.pod.ns, .text u.pod.name, .text u.containerName,
    .int u.timestamp, .int u.duration, .float u.cpu, .float u.memory, .float u.storage,
    .float u.ephemeralStorage]

end ContainerUsage

end KubeLedger
