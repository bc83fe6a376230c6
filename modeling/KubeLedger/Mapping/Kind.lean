import KubeLedger.ClusterObject
import KubeLedger.Mapping.Pod

/- The kinds of object that the ledger keeps, pods and persistent volume claims: where the cluster serves
   them, how they become rows, and what is removed with them. -/
namespace KubeLedger

/-! ## Claims -/

structure VolumeClaim where
  objectId : ObjectId
  uid : String
  resourceVersion : String
  phase : String
  volumeName : String
  volumeMode : Option String
  storageClass : Option String
  created : Int64
  conditions : List Condition
  labels : List Label

namespace VolumeClaim

def id (c : VolumeClaim) : EntityId := c.objectId.entityId

/-- Reads a claim. The first condition without a type is refused. -/
def ofObject (o : ClusterObject) : Except InvalidObject VolumeClaim := do
  let conditions ← (o.items ["status", "conditions"]).mapM (Condition.ofJson o.id.entityId)
  return {
    objectId := o.id
    uid := o.uid
    resourceVersion := o.resourceVersion
    phase := Text.snake ((o.text? ["status", "phase"]).getD "")
    volumeName := (o.text? ["spec", "volumeName"]).getD ""
    volumeMode := o.text? ["spec", "volumeMode"]
    storageClass := o.text? ["spec", "storageClassName"]
    created := o.created
    conditions
    labels := labelsOf o }

def row (c : VolumeClaim) : Row :=
  [.id c.id, .text c.objectId.ns, .text c.objectId.name, .text c.uid, .text c.resourceVersion,
    .text c.phase, .text c.volumeName, .optText c.volumeMode, .optText c.storageClass,
    .int c.created]

def relations (c : VolumeClaim) : List Relation :=
  [.ofOwner Schema.claimCondition "pvc_id" c.id (c.conditions.map Condition.row),
    .dictionary Schema.label c.id (c.labels.map Label.row),
    .ofOwner Schema.claimLabel "pvc_id" c.id (c.labels.map (Label.ownedRow c.id))]

/-- The claim in the tables. A claim has no containers. -/
def mapped (c : VolumeClaim) : Mapped := ⟨c.id, c.objectId, c.row, c.relations, []⟩

end VolumeClaim

/-! ## Kinds -/

/-- A kind of object. -/
inductive Kind where
  | pod
  | claim
deriving DecidableEq, Repr

namespace Kind

def resource : Kind → ResourceType
  | .pod => .pod
  | .claim => .claim

/-- The table with one row per object. -/
def table : Kind → Table
  | .pod => Schema.pod
  | .claim => Schema.claim

/-- The steps that remove what depends on an object. -/
def cascade : Kind → List Cascade
  | .pod => Schema.podCascade
  | .claim => Schema.claimCascade

def map (k : Kind) (o : ClusterObject) : Except InvalidObject Mapped :=
  match k with
  | .pod => (Pod.ofObject o).map Pod.mapped
  | .claim => (VolumeClaim.ofObject o).map VolumeClaim.mapped

end Kind

end KubeLedger
