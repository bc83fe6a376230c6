import KubeLedger.Cluster.Watch
import KubeLedger.ClusterObject
import KubeLedger.Feed.Informer
import KubeLedger.Reconcile.Delivery
import KubeLedger.Reconcile.Sync
import KubeLedger.Store.Memory

/- Syncs, deliveries and whole keepers with a store in memory and a made-up cluster. The listings, logs
   and usages of the cluster are set, and events are pushed to the watch that is open. Events that are
   pushed while none is open wait for the next one; events that an open watch did not deliver are lost
   with it.

   A delivery goes by a clock that only moves when it is told to. Each delay is as long as its
   interval. A keeper is an informer that feeds a delivery; both go on until they wait for something to
   happen or for time to pass. Times are in milliseconds. -/
namespace KubeLedger

/-! ## The cluster -/

/-- A made-up cluster. -/
structure ScriptedCluster where
  listings : List (ResourceType × Listing) := []
  logTexts : List ((ObjectId × String) × String) := []
  usages : List (ObjectId × ClusterObject) := []
  logFailure : Option ClientError := none
  usageFailure : Option ClientError := none
  backlog : List WatchEvent := []
  /-- The events that the open watch still has to deliver. -/
  watch : Option (List WatchEvent) := none
  /-- The version that each watch started from. -/
  watchedFrom : List String := []

namespace ScriptedCluster

def setListing (c : ScriptedCluster) (t : ResourceType) (l : Listing) : ScriptedCluster :=
  { c with listings := (t, l) :: c.listings }

def setLogs (c : ScriptedCluster) (pod : ObjectId) (container text : String) : ScriptedCluster :=
  { c with logTexts := ((pod, container), text) :: c.logTexts }

def setUsage (c : ScriptedCluster) (pod : ObjectId) (metrics : ClusterObject) : ScriptedCluster :=
  { c with usages := (pod, metrics) :: c.usages }

/-- The listing of a type, in one namespace or all. A type without one is empty at version zero. -/
def list (c : ScriptedCluster) (t : ResourceType) (ns : Option String) : Listing :=
  let l := (c.listings.lookup t).getD ⟨some "0", []⟩
  match ns with
  | none => l
  | some ns =>
    { l with items := l.items.filter fun v => v.textAt? ["metadata", "namespace"] == some ns }

/-- Opens a watch, which delivers the events that wait. -/
def openWatch (c : ScriptedCluster) (version : String) : ScriptedCluster :=
  { c with backlog := [], watch := some c.backlog, watchedFrom := c.watchedFrom ++ [version] }

def closeWatch (c : ScriptedCluster) : ScriptedCluster := { c with watch := none }

def next? (c : ScriptedCluster) : Option (WatchEvent × ScriptedCluster) :=
  match c.watch with
  | some (e :: rest) => some (e, { c with watch := some rest })
  | _ => none

def push (c : ScriptedCluster) (e : WatchEvent) : ScriptedCluster :=
  match c.watch with
  | some events => { c with watch := some (events ++ [e]) }
  | none => { c with backlog := c.backlog ++ [e] }

def logs (c : ScriptedCluster) (pod : ObjectId) (container : String) :
    Except ClientError (Option String) :=
  match c.logFailure with
  | some e => .error e
  | none => .ok (c.logTexts.lookup (pod, container))

def usage (c : ScriptedCluster) (pod : ObjectId) : Except ClientError (Option ClusterObject) :=
  match c.usageFailure with
  | some e => .error e
  | none => .ok (c.usages.lookup pod)

end ScriptedCluster

/-! ## The world -/

/-- A store in memory and a made-up cluster. -/
structure World where
  store : Memory := {}
  cluster : ScriptedCluster := {}

def World.answer : Surroundings World
  | .write c, w =>
    let (r, store) := w.store.write c
    (r, { w with store })
  | .select t columns, w =>
    let r : Except StoreError (List Row) := .ok (w.store.database.select t columns)
    (r, w)
  | .logs pod container, w => (w.cluster.logs pod container, w)
  | .usage pod, w => (w.cluster.usage pod, w)

/-! ## Deliveries -/

/-- Lets time pass up to a point: everything that is due until then is tried again at its time. -/
def Delivery.elapse {σ : Type} (env : Surroundings σ) (delay : Nat → Nat) (horizon : Nat) :
    Nat → Delivery → σ → Delivery × σ
  | 0, d, w => (d, w)
  | fuel + 1, d, w =>
    match d.nextDue? with
    | some t =>
      if t ≤ horizon then
        let (d, w) := d.retryDue env ⟨t, delay⟩ w
        Delivery.elapse env delay horizon fuel d w
      else (d, w)
    | none => (d, w)

/-- A delivery with its surroundings. -/
structure DeliveryRun where
  delivery : Delivery
  world : World
  now : Nat := 0
  isRunning : Bool := true

namespace DeliveryRun

def elapse (r : DeliveryRun) (span : Nat) : DeliveryRun :=
  let now := r.now + span
  if r.isRunning then
    let (delivery, world) := r.delivery.elapse World.answer id now (span + 1) r.world
    { r with delivery, world, now }
  else { r with now }

/-- Feeds an event, and says whether it was taken. -/
def feed (r : DeliveryRun) (e : FeedEvent) : Bool × DeliveryRun :=
  if r.isRunning then
    let (delivery, world) := r.delivery.receive World.answer ⟨r.now, id⟩ e r.world
    (true, { r with delivery, world })
  else (false, r)

/-- Ends the delivery, by the end of its feed or a cancellation. What waits is given up. -/
def stop (r : DeliveryRun) : DeliveryRun := { r with isRunning := false }

end DeliveryRun

/-! ## Keepers -/

/-- An informer whose feed is delivered. -/
structure Keeper where
  informer : Informer
  state : Informer.State := .listing
  delivery : Delivery
  /-- When the rest of the informer ends. -/
  wake : Option Nat := none

namespace Keeper

/-- What an informer's surroundings are made of: the delivery, the world, and the end of a rest. -/
structure Scene where
  delivery : Delivery
  world : World
  wake : Option Nat

def Scene.closed (s : Scene) : Scene :=
  { s with world := { s.world with cluster := s.world.cluster.closeWatch } }

def Scene.take (s : Scene) (clock : Clock) (e : FeedEvent) : Option Informer.Signal × Scene :=
  let (delivery, world) := s.delivery.receive World.answer clock e s.world
  (some .accepted, { s with delivery, world })

def signal (i : Informer) (clock : Clock) (state : Informer.State) (s : Scene) :
    Option Informer.Signal × Scene :=
  match state with
  | .listing => (some (.listed (.ok (s.world.cluster.list i.resource i.ns))), s.closed)
  | .opening version =>
    (some (.opened none),
      { s with world := { s.world with cluster := s.world.cluster.openWatch version } })
  | .watching _ _ =>
    match s.world.cluster.next? with
    | some (e, cluster) => (some (.delivered (.ok e)), { s with world := { s.world with cluster } })
    | none => (none, s)
  | .replaying e _ _ _ => s.take clock e
  | .marking listed _ => s.take clock (.listed listed)
  | .forwarding e _ _ => s.take clock e
  | .resting =>
    match s.wake with
    | none => (none, { s.closed with wake := some (clock.now + i.errorDelay) })
    | some t => if t ≤ clock.now then (some .rested, { s with wake := none }) else (none, s)
  | .ended => (none, s)

/-- A bound on the signals that can come before everything waits. Each event of a watch is handed
on, or leads to a new listing. -/
def bound (i : Informer) (c : ScriptedCluster) : Nat :=
  let events := c.backlog.length + (c.watch.getD []).length
  (events + 2) * ((c.list i.resource i.ns).items.length + 8)

/-- Goes on until everything waits. -/
def settle (clock : Clock) (k : Keeper) (w : World) : Keeper × World :=
  let (state, s) :=
    k.informer.run (signal k.informer clock) (bound k.informer w.cluster) k.state
      ⟨k.delivery, w, k.wake⟩
  ({ k with state, delivery := s.delivery, wake := s.wake }, s.world)

/-- Starts to keep the store in line with all objects of a kind, once it is known what it holds. -/
def start (kind : Kind) (config : ReconcilerConfig) (w : World) : Except SyncError Keeper × World :=
  let (warmed, w) := Reconciler.warmUp ⟨kind, config, .empty⟩ |>.runIn World.answer w
  (warmed.map fun r => { informer := ⟨kind.resource, config.ns, 10000⟩, delivery := ⟨r, []⟩ }, w)

/-- Stops: the watch is closed, and what waits is given up. -/
def stop (w : World) : World := { w with cluster := w.cluster.closeWatch }

def nextTime? (k : Keeper) : Option Nat := (k.wake.toList ++ k.delivery.nextDue?.toList).min?

/-- Lets time pass up to a point. -/
def elapse (delay : Nat → Nat) (horizon : Nat) : Nat → Keeper → World → Keeper × World
  | 0, k, w => (k, w)
  | fuel + 1, k, w =>
    match k.nextTime? with
    | some t =>
      if t ≤ horizon then
        let (delivery, w) := k.delivery.retryDue World.answer ⟨t, delay⟩ w
        let (k, w) := settle ⟨t, delay⟩ { k with delivery } w
        elapse delay horizon fuel k w
      else (k, w)
    | none => (k, w)

end Keeper

/-- A keeper that may be at work, on a clock that only moves when it is told to. -/
structure KeeperRun where
  keeper : Option Keeper := none
  world : World
  now : Nat := 0

namespace KeeperRun

/-- Starts to work, if what the store holds can be read. -/
def start (r : KeeperRun) (kind : Kind) (config : ReconcilerConfig) : KeeperRun :=
  let (keeper, world) := Keeper.start kind config r.world
  { r with keeper := keeper.toOption, world }

def stop (r : KeeperRun) : KeeperRun := { r with keeper := none, world := Keeper.stop r.world }

/-- Goes on until everything waits. -/
def settle (r : KeeperRun) : KeeperRun :=
  match r.keeper with
  | none => r
  | some k =>
    let (k, world) := Keeper.settle ⟨r.now, id⟩ k r.world
    { r with keeper := some k, world }

def elapse (r : KeeperRun) (span : Nat) : KeeperRun :=
  let r := r.settle
  let now := r.now + span
  match r.keeper with
  | none => { r with now }
  | some k =>
    let (k, world) := k.elapse id now (span + 1) r.world
    ({ keeper := some k, world, now } : KeeperRun).settle

end KeeperRun

end KubeLedger
