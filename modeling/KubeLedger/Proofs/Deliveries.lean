import KubeLedger.Proofs.Effects
import KubeLedger.Proofs.Names
import KubeLedger.Reconcile.Delivery

/- Runs of a delivery. A delivery takes turns: it takes a notification, goes over the deletions that
   a listing calls for, or tries again what is due. In which order the objects of one turn are gone
   over is left open, as are the times, and between turns others may write their tables
   (`Delivery.Runs`). A run comes with its history, the attempts that it made and how each ended, so
   that what is said of a state can refer to the last attempt of a key. -/
namespace KubeLedger

open Database

/-- An attempt to sync a notification, and how it failed if it did. -/
structure Attempt where
  notification : Notification
  failure : Option SyncError

namespace Attempt

def of (n : Notification) : Except SyncError Reconciler → Attempt
  | .ok _ => ⟨n, none⟩
  | .error e => ⟨n, some e⟩

@[simp] theorem of_notification (n : Notification) (result : Except SyncError Reconciler) :
    (of n result).notification = n := by cases result <;> rfl

/-- The object was found to be invalid. -/
def IsInvalid (a : Attempt) : Prop := ∃ e, a.failure = some (.invalid e)

end Attempt

/-- Attempts, the latest first. -/
abbrev History := List Attempt

def History.latest? (h : History) (key : String) : Option Attempt :=
  h.find? fun a => a.notification.key == key

namespace Delivery

variable {σ : Type}

def attempted (env : Surroundings σ) (n : Notification) (d : Delivery) (w : σ) : Attempt :=
  .of n ((d.reconciler.sync n).runIn env w).1

def deliveredAll (env : Surroundings σ) (clock : Clock) :
    List Notification → Delivery → σ → History → History
  | [], _, _, h => h
  | n :: rest, d, w, h =>
    let next := d.deliver env clock n w
    deliveredAll env clock rest next.1 next.2 (d.attempted env n w :: h)

/-- The history after what waits under some keys was tried again. -/
def retriedAll (env : Surroundings σ) (clock : Clock) :
    List String → Delivery → σ → History → History
  | [], _, _, h => h
  | key :: rest, d, w, h =>
    match d.retry? key with
    | some r =>
      let next := (d.forget key).attempt env clock r.notification (some r.backoff) w
      retriedAll env clock rest next.1 next.2 (d.attempted env r.notification w :: h)
    | none => retriedAll env clock rest d w h

/-- Takes events one after another, each at its time. -/
def receiveAll (env : Surroundings σ) : List (Clock × FeedEvent) → Delivery → σ → Delivery × σ
  | [], d, w => (d, w)
  | (clock, e) :: rest, d, w =>
    let next := d.receive env clock e w
    receiveAll env rest next.1 next.2

/-- New attempts go in front of the history. -/
theorem deliveredAll_append (env : Surroundings σ) (clock : Clock) (ns : List Notification)
    (d : Delivery) (w : σ) (h : History) :
    deliveredAll env clock ns d w h = deliveredAll env clock ns d w [] ++ h := by
  induction ns generalizing d w h with
  | nil => rfl
  | cons n ns ih =>
    unfold deliveredAll
    dsimp only
    rw [ih _ _ (_ :: h), ih _ _ [_], List.append_assoc]
    rfl

/-- What a delivery gets to, turn by turn, and the history of the way there. Its feed holds only
notifications of one sort, and nobody else writes the tables of the given names. -/
inductive Runs (env : Surroundings σ) (db : σ → Database) (own : String → Prop)
    (sort : Notification → Prop) (d₀ : Delivery) (w₀ : σ) : History → Delivery → σ → Prop
  | start : Runs env db own sort d₀ w₀ [] d₀ w₀
  | idle {h : History} {d : Delivery} {w w' : σ} :
    Runs env db own sort d₀ w₀ h d w → SameOn own (db w) (db w') →
    Runs env db own sort d₀ w₀ h d w'
  | notified {h : History} {d : Delivery} {w : σ} (clock : Clock) {n : Notification} :
    Runs env db own sort d₀ w₀ h d w → sort n →
    Runs env db own sort d₀ w₀ (d.attempted env n w :: h) (d.deliver env clock n w).1
      (d.deliver env clock n w).2
  | listed {h : History} {d : Delivery} {w : σ} (clock : Clock) {ids : IdSet}
    {ns : List Notification} :
    Runs env db own sort d₀ w₀ h d w → ns.Perm (d.deletions ids) →
    Runs env db own sort d₀ w₀ (deliveredAll env clock ns (d.dropLost ids) w h)
      ((d.dropLost ids).deliverAll env clock ns w).1 ((d.dropLost ids).deliverAll env clock ns w).2
  | due {h : History} {d : Delivery} {w : σ} (clock : Clock) {keys : List String} :
    Runs env db own sort d₀ w₀ h d w →
    keys.Perm ((d.pending.filter fun r => r.due ≤ clock.now).map fun r => r.notification.key) →
    Runs env db own sort d₀ w₀ (retriedAll env clock keys d w h) (d.retryAll env clock keys w).1
      (d.retryAll env clock keys w).2

section Runs
variable {env : Surroundings σ} {db : σ → Database} {own : String → Prop}
  {sort : Notification → Prop} {d₀ d : Delivery} {w₀ w : σ} {h : History}

theorem Runs.receive (hrun : Runs env db own sort d₀ w₀ h d w) (clock : Clock) {e : FeedEvent}
    (he : ∀ n, e = .notification n → sort n) :
    ∃ h', Runs env db own sort d₀ w₀ h' (d.receive env clock e w).1
      (d.receive env clock e w).2 := by
  cases e with
  | notification n => exact ⟨_, hrun.notified clock (he n rfl)⟩
  | listed ids => exact ⟨_, hrun.listed clock (List.Perm.refl (d.deletions ids))⟩

/-- Trying again what is due is a turn. -/
theorem Runs.retryDue (hrun : Runs env db own sort d₀ w₀ h d w) (clock : Clock) :
    ∃ h', Runs env db own sort d₀ w₀ h' (d.retryDue env clock w).1 (d.retryDue env clock w).2 :=
  ⟨_, hrun.due clock (List.Perm.refl _)⟩

end Runs

/-! ## What a turn makes of what waits -/

section Waiting
variable {clock : Clock} {n : Notification} {b : Option Backoff}

@[simp] theorem forget_reconciler (d : Delivery) (key : String) :
    (d.forget key).reconciler = d.reconciler := rfl

theorem mem_forget {d : Delivery} {key : String} {r : Retry} :
    r ∈ (d.forget key).pending ↔ r ∈ d.pending ∧ r.notification.key ≠ key := by
  simp [forget, List.mem_filter]

theorem attempt_eq (env : Surroundings σ) (clock : Clock) (n : Notification) (b : Option Backoff)
    (d : Delivery) (w : σ) :
    d.attempt env clock n b w =
      (d.settle clock n b ((d.reconciler.sync n).runIn env w).1,
        ((d.reconciler.sync n).runIn env w).2) := rfl

theorem settle_ok (d : Delivery) (r : Reconciler) :
    d.settle clock n b (.ok r) = { d with reconciler := r } := rfl

theorem settle_retryable (d : Delivery) {e : SyncError} (he : e.isRetryable = true) :
    d.settle clock n b (.error e) = d.keep clock n (b.getD (.first d.reconciler.config)) :=
  if_pos he

theorem settle_invalid (d : Delivery) {e : SyncError} (he : ¬e.isRetryable = true) :
    d.settle clock n b (.error e) = d := if_neg he

theorem settle_error_reconciler (d : Delivery) (e : SyncError) :
    (d.settle clock n b (.error e)).reconciler = d.reconciler := by
  by_cases he : e.isRetryable = true
  · rw [settle_retryable d he]
    rfl
  · rw [settle_invalid d he]

/-- What waits after an attempt is what waited, but for the key of the attempt; there it is the
notification that was tried, if anything. -/
theorem mem_settle {d : Delivery} {result : Except SyncError Reconciler} {r : Retry}
    (hr : r ∈ ((d.forget n.key).settle clock n b result).pending) :
    (r ∈ d.pending ∧ r.notification.key ≠ n.key) ∨
      (r.notification = n ∧ ∃ e, result = .error e ∧ e.isRetryable = true) := by
  cases result with
  | ok r' => exact Or.inl (mem_forget.mp hr)
  | error e =>
    by_cases he : e.isRetryable = true
    · rw [settle_retryable _ he] at hr
      rcases List.mem_append.mp hr with hr | hr
      · exact Or.inl (mem_forget.mp (mem_forget.mp hr).1)
      · exact Or.inr ⟨congrArg Retry.notification (List.mem_singleton.mp hr), e, rfl, he⟩
    · rw [settle_invalid _ he] at hr
      exact Or.inl (mem_forget.mp hr)

/-- What waits under another key goes on waiting. -/
theorem mem_settle_of_ne {d : Delivery} {result : Except SyncError Reconciler} {r : Retry}
    (hr : r ∈ d.pending) (hne : r.notification.key ≠ n.key) :
    r ∈ ((d.forget n.key).settle clock n b result).pending := by
  have hforget : r ∈ (d.forget n.key).pending := mem_forget.mpr ⟨hr, hne⟩
  cases result with
  | ok r' => exact hforget
  | error e =>
    by_cases he : e.isRetryable = true
    · rw [settle_retryable _ he]
      exact List.mem_append_left _ (mem_forget.mpr ⟨hforget, hne⟩)
    · rw [settle_invalid _ he]
      exact hforget

/-- What failed and is worth another try waits for it. -/
theorem settle_waits (d : Delivery) {e : SyncError} (he : e.isRetryable = true) :
    ∃ r ∈ (d.settle clock n b (.error e)).pending, r.notification = n := by
  rw [settle_retryable d he]
  exact ⟨_, List.mem_append_right _ List.mem_cons_self, rfl⟩

/-- Where nothing waits, and nothing has to be tried again, nothing waits afterwards. -/
theorem deliver_quiet {env : Surroundings σ} (clock : Clock) {r : Reconciler} {w w' : σ}
    {result : Except SyncError Reconciler} (hrun : (r.sync n).runIn env w = (result, w'))
    (hquiet : ∀ e, result = .error e → e.isRetryable = false) :
    deliver env clock n ⟨r, []⟩ w = (⟨result.toOption.getD r, []⟩, w') := by
  unfold deliver
  rw [attempt_eq, forget_reconciler, hrun]
  cases result with
  | ok r' => rfl
  | error e =>
    have hend : ¬e.isRetryable = true := by simp [hquiet e rfl]
    rw [settle_invalid _ hend]
    rfl

end Waiting

theorem retry?_some {d : Delivery} {key : String} {r : Retry} (h : d.retry? key = some r) :
    r ∈ d.pending ∧ r.notification.key = key :=
  ⟨List.mem_of_find?_eq_some h, by simpa using List.find?_some h⟩

/-! ## The deletions that a listing calls for -/

section Deletions
variable {d : Delivery} {listed : IdSet}

theorem mem_stale {r : Reconciler} {n : Notification} :
    n ∈ r.stale listed ↔ ∃ id ∈ r.known.difference listed, r.inScope id.ns = true ∧
      Notification.deleted id = n := by
  unfold Reconciler.stale
  simp [List.mem_map, List.mem_filter, and_assoc]

/-- Adding a deletion for each of some waiting objects, each key once. -/
theorem foldl_deletions (rs : List Retry) (found : List Notification) :
    let all := rs.foldl (fun found r =>
      if found.any fun n => n.key == r.notification.key then found
      else found ++ [.deleted r.notification.id]) found
    (∀ n ∈ found, n ∈ all) ∧
      (∀ n ∈ all, n ∈ found ∨ ∃ r ∈ rs, n = .deleted r.notification.id) ∧
      ∀ r ∈ rs, ∃ n ∈ all, n.key = r.notification.key ∨ n = .deleted r.notification.id := by
  induction rs generalizing found with
  | nil => exact ⟨fun n hn => hn, fun n hn => Or.inl hn, fun r hr => nomatch hr⟩
  | cons r rs ih =>
    dsimp only [List.foldl_cons]
    split
    · rename_i hany
      obtain ⟨hsub, hsup, hall⟩ := ih found
      refine ⟨hsub, fun n hn => ?_, fun r' hr' => ?_⟩
      · exact (hsup n hn).imp_right fun ⟨r', hr', hn⟩ => ⟨r', List.mem_cons_of_mem r hr', hn⟩
      · rcases List.mem_cons.mp hr' with rfl | hr'
        · obtain ⟨n, hn, hkey⟩ := List.any_eq_true.mp hany
          exact ⟨n, hsub n hn, Or.inl (by simpa using hkey)⟩
        · exact hall r' hr'
    · obtain ⟨hsub, hsup, hall⟩ := ih (found ++ [.deleted r.notification.id])
      refine ⟨fun n hn => hsub n (List.mem_append_left _ hn), fun n hn => ?_, fun r' hr' => ?_⟩
      · rcases hsup n hn with hn | ⟨r', hr', hn⟩
        · rcases List.mem_append.mp hn with hn | hn
          · exact Or.inl hn
          · exact Or.inr ⟨r, List.mem_cons_self, List.mem_singleton.mp hn⟩
        · exact Or.inr ⟨r', List.mem_cons_of_mem r hr', hn⟩
      · rcases List.mem_cons.mp hr' with rfl | hr'
        · exact ⟨_, hsub _ (List.mem_append_right _ List.mem_cons_self), Or.inr rfl⟩
        · exact hall r' hr'

theorem stale_subset_deletions : ∀ n ∈ d.reconciler.stale listed, n ∈ d.deletions listed :=
  (foldl_deletions _ _).1

theorem mem_deletions {n : Notification} (hn : n ∈ d.deletions listed) :
    n ∈ d.reconciler.stale listed ∨
      ∃ r ∈ d.pending, isLost listed r = true ∧ n = .deleted r.notification.id := by
  refine ((foldl_deletions _ _).2.1 n hn).imp_right fun ⟨r, hr, hn⟩ => ?_
  exact ⟨r, (List.mem_filter.mp hr).1, (List.mem_filter.mp hr).2, hn⟩

theorem lost_deleted {r : Retry} (hr : r ∈ d.pending) (hlost : isLost listed r = true) :
    ∃ n ∈ d.deletions listed, n.key = r.notification.key ∨ n = .deleted r.notification.id :=
  (foldl_deletions _ _).2.2 r (List.mem_filter.mpr ⟨hr, hlost⟩)

end Deletions

end Delivery

end KubeLedger
