import KubeLedger.Cluster.Watch
import KubeLedger.ClusterObject
import KubeLedger.Identity

/- An informer turns listings and watches into a feed, which carries the observed state of single
   objects and complete listings. It hands on every object of a listing and then that the listing is
   complete; from the version of the listing on it watches, and a watch that ends is followed by one
   from the last version seen. Any failure is followed by a new listing, at once if the version is
   gone, after a rest otherwise.

   The informer is a transition system: it is in a state, its surroundings send signals, and a
   signal that a state does not wait for changes nothing. -/
namespace KubeLedger

/-! ## Feeds -/

/-- One observed state of an object. Without an object, the object was deleted. -/
structure Notification where
  key : String
  object : Option ClusterObject

namespace Notification

def seen (o : ClusterObject) : Notification := ⟨o.id.key, some o⟩

def deleted (id : ObjectId) : Notification := ⟨id.key, none⟩

def isSeen (n : Notification) : Bool := n.object.isSome

def id (n : Notification) : ObjectId := .ofKey n.key

end Notification

/-- What a feed carries. -/
inductive FeedEvent where
  | notification (n : Notification)
  /-- Everything that exists was listed, and this is all of it. -/
  | listed (ids : IdSet)

/-! ## Informers -/

/-- The settings of an informer. The rest is in milliseconds. -/
structure Informer where
  resource : ResourceType
  ns : Option String
  errorDelay : Nat := 10000
deriving DecidableEq, Repr

namespace Informer

/-- Where an informer is. -/
inductive State where
  /-- It has asked for a listing. -/
  | listing
  /-- It hands on an object of a listing, and has more items of it. -/
  | replaying (event : FeedEvent) (version : String) (listed : IdSet) (items : List Json)
  /-- It hands on that a listing is complete. -/
  | marking (listed : IdSet) (version : String)
  /-- It has asked for a watch. -/
  | opening (version : String)
  /-- It waits for the next event of a watch; `latest` is the version of the last one. -/
  | watching (version : String) (latest : Option String)
  /-- It hands on an event of a watch. -/
  | forwarding (event : FeedEvent) (version latest : String)
  /-- It rests after a failure. -/
  | resting
  | ended

/-- What the surroundings tell an informer. -/
inductive Signal where
  | listed (answer : Except ClientError Listing)
  | opened (failure : Option ClientError)
  | delivered (item : Except ClientError WatchEvent)
  /-- The watch has ended. -/
  | finished
  /-- The feed took what was handed on. -/
  | accepted
  /-- Nobody reads the feed any more. -/
  | refused
  | rested
  | cancelled

def State.handed? : State → Option FeedEvent
  | .replaying event _ _ _ => some event
  | .marking listed _ => some (.listed listed)
  | .forwarding event _ _ => some event
  | _ => none

/-- The item of a listing with the type that single items leave out. -/
def typed (t : ResourceType) : Json → Json
  | .object members =>
    .object (Json.insert "kind" (.text t.kind)
      (Json.insert "apiVersion" (.text t.apiVersion) members))
  | value => value

def afterFailure (e : ClientError) : State := if e.isGone then .listing else .resting

def replay (i : Informer) (version : String) (listed : IdSet) : List Json → State
  | [] => .marking listed version
  | item :: rest =>
    match ClusterObject.ofJson (typed i.resource item) with
    | .ok o => .replaying (.notification (.seen o)) version (listed.insert o.id) rest
    | .error _ => .resting

/-- Goes on with a listing. Without a version there is nothing to watch from. -/
def afterListing (i : Informer) (l : Listing) : State :=
  match l.version with
  | some version => i.replay version .empty l.items
  | none => .resting

/-- Hands on what became of an object. -/
def forward (version : String) (value : Json) (notification : ClusterObject → Notification) :
    State :=
  match ClusterObject.ofJson value with
  | .ok o => .forwarding (.notification (notification o)) version o.resourceVersion
  | .error _ => .resting

def afterEvent (version : String) : WatchEvent → State
  | .added value => forward version value .seen
  | .modified value => forward version value .seen
  | .deleted value => forward version value fun o => .deleted o.id
  | .error e => if e.code = 410 then .listing else .resting

def step (i : Informer) (s : State) (g : Signal) : State :=
  match s, g with
  | _, .cancelled => .ended
  | .listing, .listed (.ok l) => i.afterListing l
  | .listing, .listed (.error e) => afterFailure e
  | .replaying _ version listed items, .accepted => i.replay version listed items
  | .marking _ version, .accepted => .opening version
  | .opening version, .opened none => .watching version none
  | .opening _, .opened (some e) => afterFailure e
  | .watching version _, .delivered (.ok e) => afterEvent version e
  | .watching _ _, .delivered (.error e) => afterFailure e
  | .watching version latest, .finished => .opening (latest.getD version)
  | .forwarding _ version latest, .accepted => .watching version (some latest)
  | .replaying _ _ _ _, .refused => .ended
  | .marking _ _, .refused => .ended
  | .forwarding _ _ _, .refused => .ended
  | .resting, .rested => .listing
  | s, _ => s

/-- Runs an informer in surroundings with a state, until they have no signal for it. -/
def run {σ : Type} (i : Informer) (signal : State → σ → Option Signal × σ) :
    Nat → State → σ → State × σ
  | 0, s, w => (s, w)
  | fuel + 1, s, w =>
    match signal s w with
    | (some g, w) => run i signal fuel (i.step s g) w
    | (none, w) => (s, w)

end Informer

end KubeLedger
