import KubeLedger.Reconcile.Sync

/- Delivery of a feed to a reconciler. A notification that fails, and may succeed another time, is
   kept and tried again later; one for the same key that comes before that takes its place. After a
   complete listing, known objects that it does not have are deleted, and so are objects that were
   only waiting to be tried again. Times are in milliseconds. -/
namespace KubeLedger

/-- The delays between attempts: each lies around an interval that grows by half. -/
structure Backoff where
  interval : Nat
deriving DecidableEq, Repr

namespace Backoff

def first (c : ReconcilerConfig) : Backoff := ⟨c.retryInitial⟩

/-- The interval after this one, at most the longest. -/
def next (c : ReconcilerConfig) (b : Backoff) : Backoff :=
  ⟨if 2 * c.retryMax ≤ 3 * b.interval then c.retryMax else 3 * b.interval / 2⟩

end Backoff

/-- A notification that waits to be tried again. -/
structure Retry where
  notification : Notification
  backoff : Backoff
  due : Nat

/-- The time, and how an interval becomes a delay. -/
structure Clock where
  now : Nat
  delay : Nat → Nat

/-- A reconciler that is fed, and what waits to be tried again. -/
structure Delivery where
  reconciler : Reconciler
  pending : List Retry := []

namespace Delivery

variable {σ : Type}

def retry? (d : Delivery) (key : String) : Option Retry :=
  d.pending.find? fun r => r.notification.key == key

def forget (d : Delivery) (key : String) : Delivery :=
  { d with pending := d.pending.filter fun r => r.notification.key != key }

def keep (d : Delivery) (clock : Clock) (n : Notification) (b : Backoff) : Delivery :=
  let c := d.reconciler.config
  let due := clock.now + min (clock.delay b.interval) c.retryMax
  { d with pending := (d.forget n.key).pending ++ [⟨n, b.next c, due⟩] }

def settle (d : Delivery) (clock : Clock) (n : Notification) (b : Option Backoff) :
    Except SyncError Reconciler → Delivery
  | .ok r => { d with reconciler := r }
  | .error e =>
    if e.isRetryable then d.keep clock n (b.getD (.first d.reconciler.config)) else d

def attempt (env : Surroundings σ) (clock : Clock) (n : Notification) (b : Option Backoff)
    (d : Delivery) (w : σ) : Delivery × σ :=
  let (result, w) := (d.reconciler.sync n).runIn env w
  (d.settle clock n b result, w)

/-- Delivers a notification. It takes the place of what waits under its key, and its delays go on
from there. -/
def deliver (env : Surroundings σ) (clock : Clock) (n : Notification) (d : Delivery) (w : σ) :
    Delivery × σ :=
  (d.forget n.key).attempt env clock n ((d.retry? n.key).map fun r => r.backoff) w

def deliverAll (env : Surroundings σ) (clock : Clock) : List Notification → Delivery → σ →
    Delivery × σ
  | [], d, w => (d, w)
  | n :: rest, d, w =>
    let (d, w) := d.deliver env clock n w
    deliverAll env clock rest d w

/-- Whether what waits is an object that a listing does not have. -/
def isLost (listed : IdSet) (r : Retry) : Bool :=
  r.notification.isSeen && !listed.contains r.notification.id

/-- The deletions that a complete listing calls for, each key once. -/
def deletions (d : Delivery) (listed : IdSet) : List Notification :=
  (d.pending.filter (isLost listed)).foldl (fun found r =>
      if found.any fun n => n.key == r.notification.key then found
      else found ++ [.deleted r.notification.id])
    (d.reconciler.stale listed)

/-- The delivery without the objects that wait but that a listing does not have. -/
def dropLost (d : Delivery) (listed : IdSet) : Delivery :=
  { d with pending := d.pending.filter fun r => !isLost listed r }

def receive (env : Surroundings σ) (clock : Clock) (e : FeedEvent) (d : Delivery) (w : σ) :
    Delivery × σ :=
  match e with
  | .notification n => d.deliver env clock n w
  | .listed ids => (d.dropLost ids).deliverAll env clock (d.deletions ids) w

def retryAll (env : Surroundings σ) (clock : Clock) : List String → Delivery → σ → Delivery × σ
  | [], d, w => (d, w)
  | key :: rest, d, w =>
    match d.retry? key with
    | some r =>
      let (d, w) := (d.forget key).attempt env clock r.notification (some r.backoff) w
      retryAll env clock rest d w
    | none => retryAll env clock rest d w

def retryDue (env : Surroundings σ) (clock : Clock) (d : Delivery) (w : σ) : Delivery × σ :=
  let due := d.pending.filter fun r => r.due ≤ clock.now
  d.retryAll env clock (due.map fun r => r.notification.key) w

def nextDue? (d : Delivery) : Option Nat := (d.pending.map fun r => r.due).min?

end Delivery

end KubeLedger
