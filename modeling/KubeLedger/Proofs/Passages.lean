import KubeLedger.Proofs.Latest

/- What can be seen of a delivery on its way. A delivery is followed attempt by attempt as in
   `Delivery.Logs`, but next to a database that nobody else writes (`Delivery.Passes`); and an
   attempt is followed call by call, so that what is said of all that can be seen is said of every
   moment of a run, also while a sync is under way (`Delivery.Sees`). -/
namespace KubeLedger

open Database

namespace Delivery

variable {σ : Type}

def Turn.next? (d : Delivery) : Turn → Option Notification
  | .delivering (n :: _) => some n
  | .retrying (key :: _) => (d.retry? key).map fun r => r.notification
  | _ => none

/-- What a delivery comes to, attempt by attempt. Its feed holds notifications of one sort and any
listings, and nobody else writes the tables of the given names. -/
inductive Passes (env : Surroundings σ) (db : σ → Database) (own : String → Prop)
    (sort : Notification → Prop) (d₀ : Delivery) (w₀ : σ) : Turn → Delivery → σ → Prop
  | start : Passes env db own sort d₀ w₀ .head d₀ w₀
  | idle {t : Turn} {d : Delivery} {w w' : σ} :
    Passes env db own sort d₀ w₀ t d w → SameOn own (db w) (db w') →
    Passes env db own sort d₀ w₀ t d w'
  | told {d : Delivery} {w : σ} {n : Notification} :
    Passes env db own sort d₀ w₀ .head d w → sort n →
    Passes env db own sort d₀ w₀ (.delivering [n]) d w
  | listed {d : Delivery} {w : σ} {ids : IdSet} {ns : List Notification} :
    Passes env db own sort d₀ w₀ .head d w → ns.Perm (d.deletions ids) →
    Passes env db own sort d₀ w₀ (.delivering ns) (d.dropLost ids) w
  | due {d : Delivery} {w : σ} (now : Nat) {keys : List String} :
    Passes env db own sort d₀ w₀ .head d w →
    keys.Perm ((d.pending.filter fun r => r.due ≤ now).map fun r => r.notification.key) →
    Passes env db own sort d₀ w₀ (.retrying keys) d w
  | delivered {d : Delivery} {w : σ} (clock : Clock) {n : Notification}
    {rest : List Notification} : Passes env db own sort d₀ w₀ (.delivering (n :: rest)) d w →
    Passes env db own sort d₀ w₀ (.delivering rest) (d.deliver env clock n w).1
      (d.deliver env clock n w).2
  | retried {d : Delivery} {w : σ} (clock : Clock) {key : String} {rest : List String}
    {r : Retry} : Passes env db own sort d₀ w₀ (.retrying (key :: rest)) d w →
    d.retry? key = some r →
    Passes env db own sort d₀ w₀ (.retrying rest)
      ((d.forget key).attempt env clock r.notification (some r.backoff) w).1
      ((d.forget key).attempt env clock r.notification (some r.backoff) w).2
  | skipped {d : Delivery} {w : σ} {key : String} {rest : List String} :
    Passes env db own sort d₀ w₀ (.retrying (key :: rest)) d w → d.retry? key = none →
    Passes env db own sort d₀ w₀ (.retrying rest) d w
  | ended {t : Turn} {d : Delivery} {w : σ} :
    Passes env db own sort d₀ w₀ t d w → t.keys = [] → Passes env db own sort d₀ w₀ .head d w

/-- What can be seen of the surroundings: what they are between two attempts, and what they are
between two calls of one. -/
inductive Sees (env : Surroundings σ) (db : σ → Database) (own : String → Prop)
    (sort : Notification → Prop) (d₀ : Delivery) (w₀ : σ) : σ → Prop
  | between {t : Turn} {d : Delivery} {w : σ} :
    Passes env db own sort d₀ w₀ t d w → Sees env db own sort d₀ w₀ w
  | within {t : Turn} {d : Delivery} {w seen last : σ} {n : Notification}
    {before after : List Exchange} {result : Except SyncError Reconciler} :
    Passes env db own sort d₀ w₀ t d w → t.next? d = some n →
    (d.reconciler.sync n).Runs (before ++ after) result → Script.Along env before w seen →
    Script.Along env after seen last → Sees env db own sort d₀ w₀ seen

/-! ## The executable turns -/

section Turns
variable {env : Surroundings σ} {db : σ → Database} {own : String → Prop}
  {sort : Notification → Prop} {d₀ d : Delivery} {w₀ w : σ}

theorem Passes.deliverAll (clock : Clock) {ns : List Notification}
    (h : Passes env db own sort d₀ w₀ (.delivering ns) d w) :
    Passes env db own sort d₀ w₀ .head (d.deliverAll env clock ns w).1
      (d.deliverAll env clock ns w).2 := by
  induction ns generalizing d w with
  | nil => exact h.ended rfl
  | cons n ns ih => exact ih (h.delivered clock)

theorem Passes.receive (h : Passes env db own sort d₀ w₀ .head d w) (clock : Clock)
    {e : FeedEvent} (he : ∀ n, e = .notification n → sort n) :
    Passes env db own sort d₀ w₀ .head (d.receive env clock e w).1
      (d.receive env clock e w).2 := by
  cases e with
  | notification n => exact (h.told (he n rfl)).deliverAll clock
  | listed ids => exact (h.listed (List.Perm.refl _)).deliverAll clock

theorem Passes.retryAll (clock : Clock) {keys : List String}
    (h : Passes env db own sort d₀ w₀ (.retrying keys) d w) :
    Passes env db own sort d₀ w₀ .head (d.retryAll env clock keys w).1
      (d.retryAll env clock keys w).2 := by
  induction keys generalizing d w with
  | nil => exact h.ended rfl
  | cons key keys ih =>
    unfold Delivery.retryAll
    cases hretry : d.retry? key with
    | none => exact ih (h.skipped hretry)
    | some r => exact ih (h.retried clock hretry)

theorem Passes.retryDue (h : Passes env db own sort d₀ w₀ .head d w) (clock : Clock) :
    Passes env db own sort d₀ w₀ .head (d.retryDue env clock w).1 (d.retryDue env clock w).2 :=
  (h.due clock.now (List.Perm.refl _)).retryAll clock

end Turns

/-! ## Invariants -/

/-- What holds of a reconciler and the database at the beginning of each attempt. It is kept by
syncs of one sort of notifications, and of that sort are all deletions that a listing can call
for. -/
structure Invariant (env : Surroundings σ) (db : σ → Database) (own : String → Prop)
    (sort : Notification → Prop) (inv : Reconciler → Database → Prop) : Prop where
  drift : ∀ {r : Reconciler} {d d' : Database}, SameOn own d d' → inv r d → inv r d'
  stale : ∀ {r : Reconciler} {d : Database} (ids : IdSet), inv r d → ∀ n ∈ r.stale ids, sort n
  lost : ∀ {n : Notification}, sort n → sort (.deleted n.id)
  sync : ∀ {r : Reconciler} {n : Notification} {w w' : σ} {result : Except SyncError Reconciler},
    inv r (db w) → sort n → (r.sync n).runIn env w = (result, w') →
      inv (result.toOption.getD r) (db w')

section Invariant
variable {env : Surroundings σ} {db : σ → Database} {own : String → Prop}
  {sort : Notification → Prop} {inv : Reconciler → Database → Prop} {d₀ d : Delivery} {w₀ w : σ}
  {t : Turn}

/-- A delivery between two attempts: the invariant holds, and all that may still be tried is of the
sort that keeps it. -/
structure Steady (db : σ → Database) (sort : Notification → Prop)
    (inv : Reconciler → Database → Prop) (t : Turn) (d : Delivery) (w : σ) : Prop where
  holds : inv d.reconciler (db w)
  pending : ∀ r ∈ d.pending, sort r.notification
  news : ∀ n ∈ t.news, sort n

theorem settle_reconciler (d : Delivery) (clock : Clock) (n : Notification) (b : Option Backoff)
    (result : Except SyncError Reconciler) :
    (d.settle clock n b result).reconciler = result.toOption.getD d.reconciler := by
  cases result with
  | ok r => rfl
  | error e => exact settle_error_reconciler d e

theorem Steady.attempt (hinv : Invariant env db own sort inv) (h : Steady db sort inv t d w)
    {n : Notification} (hn : sort n) (clock : Clock) (b : Option Backoff) {t' : Turn}
    (ht : ∀ m ∈ t'.news, sort m) :
    Steady db sort inv t' ((d.forget n.key).attempt env clock n b w).1
      ((d.forget n.key).attempt env clock n b w).2 := by
  rw [attempt_eq, forget_reconciler]
  refine ⟨?_, fun r hr => ?_, ht⟩
  · rw [settle_reconciler, forget_reconciler]
    exact hinv.sync h.holds hn rfl
  · obtain ⟨hr, -⟩ | ⟨rfl, -⟩ := mem_settle hr
    · exact h.pending r hr
    · exact hn

theorem Steady.listed (hinv : Invariant env db own sort inv) (h : Steady db sort inv .head d w)
    {ids : IdSet} {ns : List Notification} (hns : ns.Perm (d.deletions ids)) :
    Steady db sort inv (.delivering ns) (d.dropLost ids) w := by
  refine ⟨h.holds, fun r hr => h.pending r (List.mem_filter.mp hr).1, fun n hn => ?_⟩
  obtain hstale | ⟨r, hr, -, rfl⟩ := mem_deletions (hns.subset hn)
  · exact hinv.stale ids h.holds n hstale
  · exact hinv.lost (h.pending r hr)

/-- An invariant of syncs holds all along a delivery. -/
theorem Passes.steady (hinv : Invariant env db own sort inv) (hstart : inv d₀.reconciler (db w₀))
    (hpending : ∀ r ∈ d₀.pending, sort r.notification)
    (hrun : Passes env db own sort d₀ w₀ t d w) : Steady db sort inv t d w := by
  induction hrun with
  | start => exact ⟨hstart, hpending, nofun⟩
  | idle _ hsame ih => exact ⟨hinv.drift hsame ih.holds, ih.pending, ih.news⟩
  | told _ hn ih =>
    refine ⟨ih.holds, ih.pending, fun m hm => ?_⟩
    rwa [List.mem_singleton.mp hm]
  | listed _ hns ih => exact ih.listed hinv hns
  | due _ _ _ ih => exact ⟨ih.holds, ih.pending, nofun⟩
  | delivered clock _ ih =>
    exact ih.attempt hinv (ih.news _ List.mem_cons_self) clock _
      fun m hm => ih.news m (List.mem_cons_of_mem _ hm)
  | retried clock _ hretry ih =>
    obtain ⟨hr, rfl⟩ := retry?_some hretry
    exact ih.attempt hinv (ih.pending _ hr) clock _ nofun
  | skipped _ _ ih => exact ⟨ih.holds, ih.pending, nofun⟩
  | ended _ _ ih => exact ⟨ih.holds, ih.pending, nofun⟩

/-- What is tried next is of the sort that keeps the invariant. -/
theorem Steady.next (h : Steady db sort inv t d w) {n : Notification} (hn : t.next? d = some n) :
    sort n := by
  unfold Turn.next? at hn
  split at hn
  · cases hn
    exact h.news _ List.mem_cons_self
  · obtain ⟨r, hretry, rfl⟩ := Option.map_eq_some_iff.mp hn
    exact h.pending r (retry?_some hretry).1
  · cases hn

/-- What the invariant entails, and keeps to itself while a sync is under way, can be seen at any
time. -/
theorem Sees.holds (hinv : Invariant env db own sort inv) (hstart : inv d₀.reconciler (db w₀))
    (hpending : ∀ r ∈ d₀.pending, sort r.notification) {P : Database → Prop}
    (hbetween : ∀ {r d}, inv r d → P d)
    (hwithin : ∀ {r : Reconciler} {n : Notification} {w seen last : σ}
      {before after : List Exchange} {result : Except SyncError Reconciler}, inv r (db w) →
        sort n → (r.sync n).Runs (before ++ after) result → Script.Along env before w seen →
          Script.Along env after seen last → P (db seen))
    {s : σ} (hsees : Sees env db own sort d₀ w₀ s) : P (db s) := by
  cases hsees with
  | between hrun => exact hbetween (hrun.steady hinv hstart hpending).holds
  | within hrun hn hruns hbefore hafter =>
    have hsteady := hrun.steady hinv hstart hpending
    exact hwithin hsteady.holds (hsteady.next hn) hruns hbefore hafter

end Invariant

end Delivery
end KubeLedger
