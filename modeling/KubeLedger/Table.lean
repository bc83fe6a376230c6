import KubeLedger.Decimal
import KubeLedger.Identity

/- Tables, and the tables of the ledger. A cell is absent, or a truth value, a whole number, a double, a
   text or bytes. Two cells are the same if they hold the same value; doubles are compared as numbers,
   so that NaN is not even the same as itself. A table names its columns and, among them, its key. A
   relation is the set of rows that one object owns in a dependent table. A cascade is one step of
   removing what depends on an object that is gone.

   Each kind of object has a primary table and tables that depend on it by the object's identity;
   labels are one dictionary for all kinds, and telemetry has a table for each level it is attributed
   to. -/
namespace KubeLedger

/-! ## Cells -/

open KubeLedger.Text

/-- One value of a row. -/
inductive Cell where
  | null
  | bool (value : Bool)
  | int (value : Int64)
  | float (value : Float)
  | text (value : String)
  | binary (value : Bytes)

/-- A row: its values in the order of the table's columns. -/
abbrev Row := List Cell

namespace Cell

instance : Inhabited Cell := ⟨.null⟩

def id (e : EntityId) : Cell := .binary e.bytes

def optText (s : Option String) : Cell := s.elim .null .text

def optInt (n : Option Int64) : Cell := n.elim .null .int

def same : Cell → Cell → Bool
  | .null, .null => true
  | .bool a, .bool b => a == b
  | .int a, .int b => a == b
  | .float a, .float b => a == b
  | .text a, .text b => a == b
  | .binary a, .binary b => a == b
  | _, _ => false

def text? : Cell → Option String
  | .text s => some s
  | _ => none

def entityId? : Cell → Option EntityId
  | .binary bytes => EntityId.ofBytes? bytes
  | _ => none

/-- A positive double in digits without an exponent. -/
def showDigits (d : Decimal.Digits) : List Char :=
  let digits := Nat.toDigits 10 d.digits
  if 0 ≤ d.exponent then digits ++ List.replicate d.exponent.toNat '0'
  else
    let places := (-d.exponent).toNat
    let padded := List.replicate (places + 1 - digits.length) '0' ++ digits
    padded.take (padded.length - places) ++ '.' :: padded.drop (padded.length - places)

/-- A double in the fewest digits that read back, without an exponent. Of two equally near decimals
the greater one is shown. -/
def showFloat (x : Float) : String :=
  match Decimal.Reading.of x with
  | .nan => "NaN"
  | .infinite true => "-inf"
  | .infinite false => "inf"
  | .finite b =>
    String.ofList ((if b.negative then ['-'] else []) ++ showDigits (b.shortest .up))

/-- The cell in words, for messages. Bytes show only if they are an identity. -/
def display : Cell → String
  | .null => "NULL"
  | .bool b => if b then "true" else "false"
  | .int n => toString n.toInt
  | .float x => showFloat x
  | .text s => "'" ++ s ++ "'"
  | .binary bytes =>
    match EntityId.ofBytes? bytes with
    | some e => "0x" ++ e.toHex
    | none => "<" ++ toString bytes.length ++ " bytes>"

end Cell

/-! ## Tables -/

/-- A table: its name, its columns, and the columns of its key. -/
structure Table where
  name : String
  columns : List String
  key : List String
deriving DecidableEq, Repr

namespace Table

def indexOf? (t : Table) (column : String) : Option Nat := t.columns.findIdx? (· == column)

def isKey (t : Table) (column : String) : Bool := t.key.contains column

def valueColumns (t : Table) : List String := t.columns.filter fun c => !t.isKey c

/-- The value of a row in a column; null if there is no such column. -/
def cell (t : Table) (row : Row) (column : String) : Cell :=
  ((t.indexOf? column).bind fun i => row[i]?).getD .null

end Table

/-- How the rows of a dependent table follow the object. -/
inductive Discipline where
  /-- All rows of the owner are replaced by the present ones. -/
  | replaceSet
  /-- Rows are shared between owners: missing ones are inserted and none is removed. -/
  | insertIfAbsent
deriving DecidableEq, Repr

/-- The rows that an object owns in a dependent table. -/
structure Relation where
  table : Table
  foreignKey : String
  owner : EntityId
  discipline : Discipline
  rows : List Row

/-- One step of removing everything that depends on an object. -/
inductive Cascade where
  /-- Rows whose column holds the identity. -/
  | direct (table : Table) (column : String)
  /-- Rows whose column holds the key of a row of `via` that refers to the identity. -/
  | through (table : Table) (column : String) (via : Table) (viaColumn : String)
deriving DecidableEq, Repr

def Cascade.table : Cascade → Table
  | .direct t _ => t
  | .through t _ _ _ => t

/-! ## The ledger -/

namespace Schema

def pod : Table :=
  ⟨"pod", ["id", "namespace", "name", "uid", "resource_version", "phase", "node_name", "pod_ip",
    "qos_class", "created"], ["id"]⟩

def podCondition : Table :=
  ⟨"pod_condition", ["pod_id", "type", "status", "last_probe", "last_transition", "reason",
    "message"], ["pod_id", "type"]⟩

def podLabel : Table := ⟨"pod_label", ["pod_id", "label_id"], ["pod_id", "label_id"]⟩

def container : Table :=
  ⟨"container", ["id", "pod_id", "name", "image", "ready", "restart_count", "state"], ["id"]⟩

def containerLogs : Table :=
  ⟨"container_logs", ["container_id", "pod_id", "namespace", "pod_name", "container_name", "logs"],
    ["container_id"]⟩

def podMetrics : Table :=
  ⟨"pod_metrics", ["container_id", "pod_id", "namespace", "pod_name", "container_name", "timestamp",
    "duration", "cpu_usage", "memory_usage", "storage_usage", "ephemeral_storage_usage"],
    ["container_id"]⟩

def claim : Table :=
  ⟨"persistent_volume_claim", ["id", "namespace", "name", "uid", "resource_version", "phase",
    "volume_name", "volume_mode", "storage_class", "created"], ["id"]⟩

def claimCondition : Table :=
  ⟨"pvc_condition", ["pvc_id", "type", "status", "last_probe", "last_transition", "reason",
    "message"], ["pvc_id", "type"]⟩

def claimLabel : Table := ⟨"pvc_label", ["pvc_id", "label_id"], ["pvc_id", "label_id"]⟩

def label : Table := ⟨"label", ["id", "name", "value"], ["id"]⟩

/-- A telemetry table. Its key is everything but the value. -/
def telemetry (name owner : String) : Table :=
  ⟨name, [owner, "timestamp", "category", "name", "value"],
    [owner, "timestamp", "category", "name"]⟩

def clusterMetric : Table := telemetry "prometheus_cluster_metric" "cluster_id"

def nodeMetric : Table := telemetry "prometheus_node_metric" "node_id"

def podMetric : Table := telemetry "prometheus_pod_metric" "pod_id"

def containerMetric : Table := telemetry "prometheus_container_metric" "container_id"

def tables : List Table :=
  [pod, podCondition, podLabel, container, containerLogs, podMetrics, claim, claimCondition,
    claimLabel, label, clusterMetric, nodeMetric, podMetric, containerMetric]

def find? (name : String) : Option Table := tables.find? fun t => t.name == name

/-- What goes when a pod goes. Telemetry of containers only knows the container, so it is found
through the container rows while they exist. -/
def podCascade : List Cascade :=
  [.through containerMetric "container_id" container "pod_id", .direct containerLogs "pod_id",
    .direct podMetrics "pod_id", .direct container "pod_id", .direct podLabel "pod_id",
    .direct podCondition "pod_id", .direct podMetric "pod_id"]

/-- What goes when a claim goes. -/
def claimCascade : List Cascade :=
  [.direct claimCondition "pvc_id", .direct claimLabel "pvc_id"]

end Schema

end KubeLedger
