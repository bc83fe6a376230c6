import KubeLedger.Feed.Informer

/- An informer on prepared answers. Listings and watches are answered in order; a call without an
   answer left waits for ever. Time passes only while the informer rests, and a cancellation comes
   at a set time. -/
namespace KubeLedger

/-- A prepared watch: what it delivers, and whether it stays open after that. -/
structure PreparedWatch where
  items : List (Except ClientError WatchEvent)
  staysOpen : Bool

/-- A call to the cluster. -/
inductive ApiCall where
  | list
  | watch (version : String)
deriving DecidableEq, Repr

/-- An informer's surroundings made of prepared answers, and what they have seen of it. -/
structure Rehearsal where
  listings : List (Except ClientError Listing)
  watches : List (Except ClientError PreparedWatch)
  /-- Whether anybody reads the feed. -/
  isRead : Bool
  /-- When the informer is cancelled, in milliseconds. -/
  horizon : Nat
  now : Nat := 0
  current : PreparedWatch := ⟨[], false⟩
  /-- The calls and when they were made, the last first. -/
  calls : List (ApiCall × Nat) := []
  /-- The feed, the last event first. -/
  feed : List FeedEvent := []

namespace Rehearsal

def noted (r : Rehearsal) (call : ApiCall) : Rehearsal :=
  { r with calls := (call, r.now) :: r.calls }

def answerList (r : Rehearsal) : Option Informer.Signal × Rehearsal :=
  let r := r.noted .list
  match r.listings with
  | [] => (none, r)
  | a :: rest => (some (.listed a), { r with listings := rest })

def answerWatch (r : Rehearsal) (version : String) : Option Informer.Signal × Rehearsal :=
  let r := r.noted (.watch version)
  match r.watches with
  | [] => (none, r)
  | .ok w :: rest => (some (.opened none), { r with watches := rest, current := w })
  | .error e :: rest => (some (.opened (some e)), { r with watches := rest })

def answerNext (r : Rehearsal) : Option Informer.Signal × Rehearsal :=
  match r.current.items with
  | item :: rest => (some (.delivered item), { r with current := { r.current with items := rest } })
  | [] => (if r.current.staysOpen then none else some .finished, r)

def take (r : Rehearsal) (e : FeedEvent) : Option Informer.Signal × Rehearsal :=
  if r.isRead then (some .accepted, { r with feed := e :: r.feed }) else (some .refused, r)

def signal (i : Informer) (s : Informer.State) (r : Rehearsal) :
    Option Informer.Signal × Rehearsal :=
  match s with
  | .listing => r.answerList
  | .opening version => r.answerWatch version
  | .watching _ _ => r.answerNext
  | .replaying e _ _ _ => r.take e
  | .marking listed _ => r.take (.listed listed)
  | .forwarding e _ _ => r.take e
  | .resting =>
    if r.now + i.errorDelay < r.horizon then
      (some .rested, { r with now := r.now + i.errorDelay })
    else (none, r)
  | .ended => (none, r)

/-- A bound on the signals that the prepared answers can give. -/
def bound (r : Rehearsal) : Nat :=
  let listings := r.listings.foldr (fun a n =>
    match a with
    | .ok l => l.items.length + 4 + n
    | .error _ => 4 + n) 0
  let watches := r.watches.foldr (fun a n =>
    match a with
    | .ok w => 2 * w.items.length + 4 + n
    | .error _ => 4 + n) 0
  listings + watches + 4

/-- Runs an informer from its start: where it is at last, and what was seen of it. -/
def run (i : Informer) (r : Rehearsal) : Informer.State × Rehearsal :=
  i.run (signal i) r.bound .listing r

end Rehearsal

end KubeLedger
