import KubeLedger.ClusterObject
import KubeLedger.Table
import KubeLedger.Text.Case

/- Pods as rows, with the parts that objects of every kind have: conditions and labels. A container is
   joined with the first status of its name. Its state is the one that the status reports, `unknown` if
   there is none, and it has started if it runs, has terminated, or did so before. -/
namespace KubeLedger

/-! ## Parts of objects -/

/-- The text of a member, empty if there is none. -/
def textOr (value : Json) (member : String) : String :=
  ((value.get? member).bind Json.text?).getD ""

/-- A condition of an object. -/
structure Condition where
  owner : EntityId
  type : String
  status : String
  lastProbe : Option Int64
  lastTransition : Option Int64
  reason : String
  message : String

def Condition.ofJson (owner : EntityId) (value : Json) : Except InvalidObject Condition :=
  match (value.get? "type").bind Json.text? with
  | none => .error ⟨.conditionWithoutType, value⟩
  | some type =>
    .ok
      { owner
        type := Text.snake type
        status := textOr value "status"
        lastProbe := ClusterObject.millisAt? value ["lastProbeTime"]
        lastTransition := ClusterObject.millisAt? value ["lastTransitionTime"]
        reason := textOr value "reason"
        message := textOr value "message" }

def Condition.row (c : Condition) : Row :=
  [.id c.owner, .text c.type, .text c.status, .optInt c.lastProbe, .optInt c.lastTransition,
    .text c.reason, .text c.message]

/-- An entry of the label dictionary. -/
structure Label where
  id : EntityId
  name : String
  value : String

def Label.of (l : String × String) : Label := ⟨.label l.1 l.2, l.1, l.2⟩

def Label.row (l : Label) : Row := [.id l.id, .text l.name, .text l.value]

/-- The row that gives a label to an owner. -/
def Label.ownedRow (owner : EntityId) (l : Label) : Row := [.id owner, .id l.id]

/-- The dictionary entries of an object's labels. -/
def labelsOf (o : ClusterObject) : List Label := o.labels.map Label.of

/-- The rows that an owner has in a table, in full. -/
def Relation.ofOwner (table : Table) (foreignKey : String) (owner : EntityId) (rows : List Row) :
    Relation :=
  ⟨table, foreignKey, owner, .replaceSet, rows⟩

/-- The rows that an owner brings to a shared dictionary. -/
def Relation.dictionary (table : Table) (owner : EntityId) (rows : List Row) : Relation :=
  ⟨table, table.key.headD "", owner, .insertIfAbsent, rows⟩

/-- A container whose logs and usage are fetched with its pod. -/
structure SnapshotTarget where
  name : String
  id : EntityId
  /-- Whether the container ever ran, so that there are logs. -/
  started : Bool

/-- What an object is in the tables: its own row, the rows it owns, and the containers to look at.
-/
structure Mapped where
  id : EntityId
  objectId : ObjectId
  row : Row
  relations : List Relation
  targets : List SnapshotTarget

/-! ## Pods -/

structure Container where
  id : EntityId
  podId : EntityId
  name : String
  image : String
  ready : Bool
  restartCount : Int64
  state : String
  started : Bool

namespace Container

/-- The states that a status can report, the first present one counts. -/
def states : List String := ["running", "terminated", "waiting"]

def stateOf (status : Option Json) : String :=
  let members := ((status.bind fun s => s.get? "state").bind Json.members?).getD []
  (states.find? fun key => (members.lookup key).isSome).getD "unknown"

/-- The first status of a name. -/
def statusOf (name : String) (statuses : List Json) : Option Json :=
  statuses.find? fun s => (s.get? "name").bind Json.text? == some name

def ofJson (pod : ObjectId) (statuses : List Json) (spec : Json) :
    Except InvalidObject Container :=
  match (spec.get? "name").bind Json.text? with
  | none => .error ⟨.containerWithoutName, spec⟩
  | some name =>
    let status := statusOf name statuses
    let state := stateOf status
    .ok
      { id := .container pod.ns pod.name name
        podId := pod.entityId
        name
        image := textOr spec "image"
        ready := ((status.bind fun s => s.get? "ready").bind Json.bool?).getD false
        restartCount := ((status.bind fun s => s.get? "restartCount").bind Json.int64?).getD 0
        state
        started :=
          (state != "waiting" && state != "unknown") ||
            (status.bind fun s => s.at? ["lastState", "terminated"]).isSome }

def row (c : Container) : Row :=
  [.id c.id, .id c.podId, .text c.name, .text c.image, .bool c.ready, .int c.restartCount,
    .text c.state]

/-- The container as a place to fetch logs and usage from. -/
def target (c : Container) : SnapshotTarget := ⟨c.name, c.id, c.started⟩

end Container

structure Pod where
  objectId : ObjectId
  uid : String
  resourceVersion : String
  phase : String
  nodeName : Option String
  podIp : Option String
  qosClass : Option String
  created : Int64
  conditions : List Condition
  containers : List Container
  labels : List Label

namespace Pod

def id (p : Pod) : EntityId := p.objectId.entityId

/-- Reads a pod. The first condition without a type or, after all conditions, the first container
without a name is refused. -/
def ofObject (o : ClusterObject) : Except InvalidObject Pod := do
  let conditions ← (o.items ["status", "conditions"]).mapM (Condition.ofJson o.id.entityId)
  let statuses := o.items ["status", "containerStatuses"]
  let containers ← (o.items ["spec", "containers"]).mapM (Container.ofJson o.id statuses)
  return {
    objectId := o.id
    uid := o.uid
    resourceVersion := o.resourceVersion
    phase := Text.snake ((o.text? ["status", "phase"]).getD "")
    nodeName := o.text? ["spec", "nodeName"]
    podIp := o.text? ["status", "podIP"]
    qosClass := (o.text? ["status", "qosClass"]).map Text.snake
    created := o.created
    conditions
    containers
    labels := labelsOf o }

def row (p : Pod) : Row :=
  [.id p.id, .text p.objectId.ns, .text p.objectId.name, .text p.uid, .text p.resourceVersion,
    .text p.phase, .optText p.nodeName, .optText p.podIp, .optText p.qosClass, .int p.created]

def relations (p : Pod) : List Relation :=
  [.ofOwner Schema.podCondition "pod_id" p.id (p.conditions.map Condition.row),
    .dictionary Schema.label p.id (p.labels.map Label.row),
    .ofOwner Schema.podLabel "pod_id" p.id (p.labels.map (Label.ownedRow p.id)),
    .ofOwner Schema.container "pod_id" p.id (p.containers.map Container.row)]

def mapped (p : Pod) : Mapped :=
  ⟨p.id, p.objectId, p.row, p.relations, p.containers.map Container.target⟩

end Pod

end KubeLedger
