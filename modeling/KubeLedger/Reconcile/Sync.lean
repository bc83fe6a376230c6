import KubeLedger.Cluster.Watch
import KubeLedger.Feed.Informer
import KubeLedger.Mapping.Kind
import KubeLedger.Mapping.Snapshot
import KubeLedger.Script
import KubeLedger.Store.Memory

/- Bringing the store in line with one observed object. An upsert writes the primary row, then each
   relation, then snapshots of the containers, and only then knows the object. A deletion runs the
   cascade of the kind, removes the primary row last, and only then forgets the object. Each is a
   script that asks the store and the cluster; the first refusal ends it where it is.

   A reconciler does so for the objects of one kind. It knows which of them have a primary row, so that
   a complete listing shows which are gone. Times are in milliseconds. -/
namespace KubeLedger

/-! ## Settings -/

/-- The settings of a reconciler. -/
structure ReconcilerConfig where
  /-- The one namespace that is looked at; all of them if there is none. -/
  ns : Option String := none
  retryInitial : Nat := 500
  retryMax : Nat := 300000
  fetchLogs : Bool := true
  fetchUsage : Bool := true
deriving DecidableEq, Repr

/-- The settings with other delays between attempts. The longest is never below the first. -/
def ReconcilerConfig.withRetry (c : ReconcilerConfig) (initial longest : Nat) : ReconcilerConfig :=
  { c with retryInitial := initial, retryMax := max longest initial }

/-! ## Syncs -/

/-- What a reconciler asks of its surroundings. -/
inductive Call where
  | write (w : Write)
  | select (table : Table) (columns : List String)
  | logs (pod : ObjectId) (container : String)
  | usage (pod : ObjectId)

/-- The answer to a call. Logs and usage may be absent. -/
def Call.Answer : Call → Type
  | .write _ => Except StoreError Nat
  | .select _ _ => Except StoreError (List Row)
  | .logs _ _ => Except ClientError (Option String)
  | .usage _ => Except ClientError (Option ClusterObject)

/-- Why an object could not be brought in line. -/
inductive SyncError where
  | invalid (e : InvalidObject)
  | store (e : StoreError)
  | client (e : ClientError)

namespace SyncError

/-- An invalid object fails in the same way every time, so only the others are worth another try. -/
def isRetryable : SyncError → Bool
  | .invalid _ => false
  | _ => true

/-- The failure in words, where they are not those of a lower layer. -/
def message? : SyncError → Option String
  | .invalid e => some ("Cannot map object: " ++ e.message)
  | .store e => some ("Store error: " ++ e.message)
  | .client _ => none

end SyncError

/-- A script of calls that may fail. -/
abbrev Sync := ExceptT SyncError (Script Call Call.Answer)

/-- Surroundings with a state: they answer every call, and may change by it. -/
abbrev Surroundings (σ : Type) := (q : Call) → σ → q.Answer × σ

namespace Sync

def runIn {σ α : Type} (env : Surroundings σ) (sync : Sync α) (w : σ) : Except SyncError α × σ :=
  Script.run env (ExceptT.run sync) w

def write (w : Write) : Sync Nat :=
  ExceptT.mk (.ask (.write w) fun (a : Except StoreError Nat) => .done (a.mapError .store))

def select (t : Table) (columns : List String) : Sync (List Row) :=
  ExceptT.mk
    (.ask (.select t columns) fun (a : Except StoreError (List Row)) => .done (a.mapError .store))

def logs (pod : ObjectId) (container : String) : Sync (Option String) :=
  ExceptT.mk
    (.ask (.logs pod container) fun (a : Except ClientError (Option String)) =>
      .done (a.mapError .client))

def usage (pod : ObjectId) : Sync (Option ClusterObject) :=
  ExceptT.mk
    (.ask (.usage pod) fun (a : Except ClientError (Option ClusterObject)) =>
      .done (a.mapError .client))

/-- Goes on unless the object is invalid. -/
def valid {α : Type} (a : Except InvalidObject α) : Sync α :=
  ExceptT.mk (Script.done (a.mapError .invalid))

def upsertSome (u : Upsert) (rows : List Row) : Sync Unit :=
  if rows.isEmpty then pure () else do let _ ← write (.upsert u rows)

def relation (r : Relation) : Sync Unit :=
  match r.discipline with
  | .replaceSet => do let _ ← write (.replace r.table r.foreignKey r.owner r.rows)
  | .insertIfAbsent => upsertSome ⟨r.table, .keep⟩ r.rows

def relations : List Relation → Sync Unit
  | [] => pure ()
  | r :: rest => do
    relation r
    relations rest

/-- The log rows of containers. One that never started has no logs and is not asked for. -/
def logRows (pod : ObjectId) : List SnapshotTarget → Sync (List Row)
  | [] => pure []
  | t :: rest =>
    if t.started then do
      let text ← logs pod t.name
      let rows ← logRows pod rest
      match text with
      | some s => pure (ContainerLog.row ⟨t.id, pod, t.name, s⟩ :: rows)
      | none => pure rows
    else logRows pod rest

def snapshotLogs (pod : ObjectId) (targets : List SnapshotTarget) : Sync Unit := do
  let rows ← logRows pod targets
  upsertSome ⟨Schema.containerLogs, .updateAll⟩ rows

def snapshotUsage (pod : ObjectId) : Sync Unit := do
  match ← usage pod with
  | none => pure ()
  | some metrics =>
    let usages ← valid (ContainerUsage.ofMetrics pod metrics)
    let rows := usages.map ContainerUsage.row
    upsertSome ⟨Schema.podMetrics, .updateAll⟩ rows

/-- Takes the snapshots that the settings ask for. -/
def snapshots (c : ReconcilerConfig) (m : Mapped) : Sync Unit :=
  if m.targets.isEmpty then pure ()
  else do
    if c.fetchLogs then snapshotLogs m.objectId m.targets
    if c.fetchUsage then snapshotUsage m.objectId

/-- Writes everything that an object is in the tables. -/
def upsert (k : Kind) (c : ReconcilerConfig) (o : ClusterObject) : Sync ObjectId := do
  let m ← valid (k.map o)
  let _ ← write (.upsert ⟨k.table, .updateAll⟩ [m.row])
  relations m.relations
  snapshots c m
  return m.objectId

def cascade (owner : EntityId) : List Cascade → Sync Unit
  | [] => pure ()
  | step :: rest => do
    let _ ← write (.delete step owner)
    cascade owner rest

/-- Removes everything that an object was in the tables, its own row last. -/
def delete (k : Kind) (id : ObjectId) : Sync Unit :=
  cascade id.entityId (k.cascade ++ [.direct k.table "id"])

end Sync

/-! ## Reconcilers -/

/-- A reconciler and the objects it knows to be in the store. -/
structure Reconciler where
  kind : Kind
  config : ReconcilerConfig
  known : IdSet := .empty

namespace Reconciler

/-- Whether objects of a namespace are looked at. -/
def inScope (r : Reconciler) (ns : String) : Bool :=
  match r.config.ns with
  | some scope => scope == ns
  | none => true

/-- The object that a row of namespace and name stands for, if it is in scope. -/
def knownRow? (r : Reconciler) : Row → Option ObjectId
  | [.text ns, .text name] => if r.inScope ns then some ⟨ns, name⟩ else none
  | _ => none

/-- The reconciler that knows exactly the objects in scope of some rows. -/
def knowing (r : Reconciler) (rows : List Row) : Reconciler :=
  { r with known := .ofList (rows.filterMap r.knownRow?) }

/-- Learns from the store which objects it holds. -/
def warmUp (r : Reconciler) : Sync Reconciler := do
  let rows ← Sync.select r.kind.table ["namespace", "name"]
  return r.knowing rows

/-- Brings the store in line with a notification. -/
def sync (r : Reconciler) (n : Notification) : Sync Reconciler := do
  match n.object with
  | some o =>
    let id ← Sync.upsert r.kind r.config o
    return { r with known := r.known.insert id }
  | none =>
    Sync.delete r.kind n.id
    return { r with known := r.known.erase n.id }

/-- Deletions of the known objects in scope that a complete listing does not have. -/
def stale (r : Reconciler) (listed : IdSet) : List Notification :=
  ((r.known.difference listed).filter fun id => r.inScope id.ns).map .deleted

end Reconciler

end KubeLedger
