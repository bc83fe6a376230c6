import KubeLedger.Identity
import KubeLedger.Json.Basic
import KubeLedger.Timestamp

/- Objects as the cluster reports them, and the types that it serves. The JSON of an object is kept as
   it is, and the fields that rows need are read out of it on demand, so one type serves every kind. A
   field of the wrong type counts as missing. The version of an interface is written `group/version`,
   or just `version` for the core group. -/
namespace KubeLedger

/-! ## Types of resource -/

structure ResourceType where
  apiVersion : String
  kind : String
  plural : String
deriving DecidableEq, Repr

namespace ResourceType

/-- The group and the version, split at the first slash. -/
def groupVersion (t : ResourceType) : String × String :=
  match t.apiVersion.toList.span (· ≠ '/') with
  | (group, _ :: version) => (String.ofList group, String.ofList version)
  | (_, []) => ("", t.apiVersion)

/-- The group of the interface, empty for the core group. -/
def group (t : ResourceType) : String := t.groupVersion.1

def version (t : ResourceType) : String := t.groupVersion.2

def display (t : ResourceType) : String := t.apiVersion ++ "/" ++ t.plural

def pod : ResourceType := ⟨"v1", "Pod", "pods"⟩

def claim : ResourceType := ⟨"v1", "PersistentVolumeClaim", "persistentvolumeclaims"⟩

def podMetrics : ResourceType := ⟨"metrics.k8s.io/v1beta1", "PodMetrics", "pods"⟩

end ResourceType

/-! ## Objects -/

/-- Why an object cannot be used. -/
inductive ObjectFault where
  | notAnObject
  | missingName
  | conditionWithoutType
  | containerWithoutName
  | malformedWindow
  | usageWithoutName
  | malformedUsage
deriving DecidableEq, Repr

def ObjectFault.words : ObjectFault → String
  | .notAnObject => "resource must be a json object"
  | .missingName => "missing metadata.name"
  | .conditionWithoutType => "condition is missing type"
  | .containerWithoutName => "container is missing name"
  | .malformedWindow => "malformed metrics window"
  | .usageWithoutName => "container metrics are missing name"
  | .malformedUsage => "malformed usage quantity"

/-- A fault together with the JSON that shows it. -/
structure InvalidObject where
  fault : ObjectFault
  value : Json

/-- What is said of an object that cannot be used. -/
def InvalidObject.message (e : InvalidObject) : String := "Invalid Resource: " ++ e.fault.words

structure ClusterObject where
  value : Json

namespace ClusterObject

def ofJson (value : Json) : Except InvalidObject ClusterObject :=
  match value with
  | .object _ =>
    match value.textAt? ["metadata", "name"] with
    | some _ => .ok ⟨value⟩
    | none => .error ⟨.missingName, value⟩
  | _ => .error ⟨.notAnObject, value⟩

def text? (o : ClusterObject) (path : List String) : Option String := o.value.textAt? path

/-- The items of the array below a path; none if there is no array. -/
def items (o : ClusterObject) (path : List String) : List Json :=
  ((o.value.at? path).bind Json.array?).getD []

def millisAt? (value : Json) (path : List String) : Option Int64 :=
  (value.textAt? path).bind Timestamp.read?

/-- The point in time below a path. -/
def millis? (o : ClusterObject) (path : List String) : Option Int64 := millisAt? o.value path

/-- The name of the object, empty if it has none. -/
def name (o : ClusterObject) : String := (o.text? ["metadata", "name"]).getD ""

def ns? (o : ClusterObject) : Option String := o.text? ["metadata", "namespace"]

/-- The unique id that the cluster gave to the object. -/
def uid (o : ClusterObject) : String := (o.text? ["metadata", "uid"]).getD ""

/-- The version of the object, empty if it has none. -/
def resourceVersion (o : ClusterObject) : String :=
  (o.text? ["metadata", "resourceVersion"]).getD ""

def kind? (o : ClusterObject) : Option String := o.text? ["kind"]

/-- The version of the interface that the object says it follows. -/
def apiVersion? (o : ClusterObject) : Option String := o.text? ["apiVersion"]

/-- When the object was created, zero if that is missing or malformed. -/
def created (o : ClusterObject) : Int64 :=
  (o.millis? ["metadata", "creationTimestamp"]).getD 0

def id (o : ClusterObject) : ObjectId := ⟨o.ns?.getD "", o.name⟩

/-- The labels of the object in the order of their names. Values that are no text are skipped. -/
def labels (o : ClusterObject) : List (String × String) :=
  (((o.value.at? ["metadata", "labels"]).bind Json.members?).getD []).filterMap
    fun m => m.2.text?.map fun v => (m.1, v)

def label? (o : ClusterObject) (name : String) : Option String :=
  ((o.value.at? ["metadata", "labels"]).bind fun v => v.get? name).bind Json.text?

end ClusterObject

end KubeLedger
