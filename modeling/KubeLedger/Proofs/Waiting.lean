import KubeLedger.Proofs.Accounts

/- What waits to be tried again. Under each key at most one notification waits (`Delivery.Single`);
   an attempt decides whether it waits under its own key and leaves all others alone. The deletions
   that a listing calls for are those of the objects that it misses (`Delivery.Misses`), each once.
   Both need that the delivery knows a set of objects and that keys are read back as the names that
   they were written from (`Delivery.Tidy`), which every attempt keeps. -/
namespace KubeLedger

/-- The notification of an attempt, if it is worth another try. -/
def Attempt.waiting? (a : Attempt) : Option Notification :=
  a.failure.bind fun e => if e.isRetryable then some a.notification else none

/-- A sync that succeeds knows the object that was seen, or forgets the one that was deleted. -/
theorem Reconciler.sync_known {σ : Type} {env : Surroundings σ} {r r' : Reconciler}
    {n : Notification} {w : σ} (h : ((r.sync n).runIn env w).1 = .ok r') :
    (∃ o, n.object = some o ∧ r' = { r with known := r.known.insert o.id }) ∨
      r' = { r with known := r.known.erase n.id } := by
  obtain ⟨trace, hruns, -⟩ := Sync.runIn_iff.mp (Prod.ext h rfl)
  cases hobject : n.object with
  | none =>
    obtain ⟨deleted, -, hresult⟩ := (Sync.sync_deleted hobject).mp hruns
    cases deleted with
    | error e => cases hresult
    | ok u =>
      cases hresult
      exact .inr rfl
  | some o =>
    obtain ⟨upserted, hupsert, hresult⟩ := (Sync.sync_seen hobject).mp hruns
    cases upserted with
    | error e => cases hresult
    | ok id =>
      obtain ⟨m, taken, hmap, rfl, -⟩ := Sync.upsert_ok hupsert
      cases hresult
      exact .inl ⟨o, rfl, rfl⟩

namespace Delivery

variable {σ : Type}

/-! ## What waits after an attempt -/

section Waiting
variable {d : Delivery} {clock : Clock} {n : Notification} {b : Option Backoff} {key : String}
  {result : Except SyncError Reconciler} {r : Retry}

def waits? (d : Delivery) (key : String) : Option Notification :=
  (d.retry? key).map fun r => r.notification

/-- Each key waits at most once. -/
def Single (d : Delivery) : Prop := (d.pending.map fun r => r.notification.key).Nodup

theorem Single.retry?_eq (h : d.Single) (hr : r ∈ d.pending) :
    d.retry? r.notification.key = some r := by
  cases hfound : d.retry? r.notification.key with
  | none =>
    have hnone := List.find?_eq_none.mp hfound r hr
    simp at hnone
  | some r' =>
    obtain ⟨hr', hkey⟩ := retry?_some hfound
    rw [List.inj_on_of_nodup_map h hr' hr hkey]

theorem retry?_eq_none : d.retry? key = none ↔ ∀ r ∈ d.pending, r.notification.key ≠ key := by
  unfold retry?
  simp

theorem Single.filter (h : d.Single) (p : Retry → Bool) :
    Single { d with pending := d.pending.filter p } :=
  h.sublist (List.filter_sublist.map _)

theorem retry?_forget_self (d : Delivery) (key : String) : retry? (d.forget key) key = none :=
  retry?_eq_none.mpr fun _ hr => (mem_forget.mp hr).2

theorem retry?_forget_other (d : Delivery) {other : String} (hne : key ≠ other) :
    retry? (d.forget other) key = d.retry? key := by
  unfold forget retry?
  rw [List.find?_filter]
  refine congrFun (congrArg List.find? (funext fun r => ?_)) _
  by_cases hkey : r.notification.key = key <;> simp [hkey, hne]

theorem single_settle (h : d.Single) : ((d.forget n.key).settle clock n b result).Single := by
  have hforget : (d.forget n.key).Single := h.filter _
  cases result with
  | ok r => exact hforget
  | error e =>
    by_cases he : e.isRetryable = true
    · rw [settle_retryable _ he]
      unfold Single keep
      rw [List.map_append]
      refine List.nodup_append.mpr ⟨hforget.filter _, List.nodup_singleton _, ?_⟩
      intro k hk k' hk'
      obtain ⟨r, hr, rfl⟩ := List.mem_map.mp hk
      rw [List.mem_singleton.mp hk']
      exact (mem_forget.mp hr).2
    · rw [settle_invalid _ he]
      exact hforget

/-- Under its own key, an attempt leaves what is worth another try. -/
theorem waits?_settle_self :
    waits? ((d.forget n.key).settle clock n b result) n.key = (Attempt.of n result).waiting? := by
  unfold waits?
  cases result with
  | ok r =>
    rw [settle_ok]
    exact congrArg _ (retry?_forget_self d n.key)
  | error e =>
    by_cases he : e.isRetryable = true
    · rw [settle_retryable _ he]
      have hnone := retry?_forget_self (d.forget n.key) n.key
      unfold retry? at hnone ⊢
      simp [keep, List.find?_append, hnone, Attempt.waiting?, Attempt.of, he]
    · rw [settle_invalid _ he, retry?_forget_self]
      simp [Attempt.waiting?, Attempt.of, he]

theorem retry?_settle_other (hne : key ≠ n.key) :
    retry? ((d.forget n.key).settle clock n b result) key = d.retry? key := by
  have hforget := retry?_forget_other d hne
  cases result with
  | ok r => exact hforget
  | error e =>
    by_cases he : e.isRetryable = true
    · have hsame := (retry?_forget_other (d.forget n.key) hne).trans hforget
      rw [settle_retryable _ he]
      unfold keep
      unfold retry? at hsame ⊢
      rw [List.find?_append, hsame]
      simp [hne.symm]
    · rw [settle_invalid _ he]
      exact hforget

theorem retry?_dropLost (h : d.Single) {ids : IdSet}
    (hkept : ∀ r ∈ d.pending, r.notification.key = key → ¬ isLost ids r = true) :
    retry? (d.dropLost ids) key = d.retry? key := by
  cases hfound : d.retry? key with
  | none =>
    have hnone := retry?_eq_none.mp hfound
    exact retry?_eq_none.mpr fun r hr => hnone r (List.mem_filter.mp hr).1
  | some r =>
    obtain ⟨hr, rfl⟩ := retry?_some hfound
    have hleft : r ∈ (d.dropLost ids).pending :=
      List.mem_filter.mpr ⟨hr, by simpa using hkept r hr rfl⟩
    exact (h.filter _).retry?_eq hleft

end Waiting

/-! ## Tidy deliveries -/

/-- Whether a delivery deletes the object of a key because a listing does not have it. -/
def Misses (d : Delivery) (ids : IdSet) (key : String) : Prop :=
  ids.contains (.ofKey key) = false ∧
    (d.reconciler.known.contains (.ofKey key) = true ∧
        d.reconciler.inScope (ObjectId.ofKey key).ns = true ∨
      ∃ r ∈ d.pending, r.notification.key = key ∧ r.notification.isSeen = true)

instance (d : Delivery) (ids : IdSet) (key : String) : Decidable (d.Misses ids key) :=
  inferInstanceAs (Decidable (_ ∧ _))

/-- A delivery that knows a set of objects, each under a plain name, and in which each key waits at
most once, with a plain notification. -/
structure Tidy (d : Delivery) : Prop where
  isSet : d.reconciler.known.IsSet
  known : ∀ id, d.reconciler.known.contains id = true → id.IsPlain
  pending : ∀ r ∈ d.pending, r.notification.IsPlain
  single : d.Single

section Tidy
variable {env : Surroundings σ} {clock : Clock} {d : Delivery} {n : Notification}
  {b : Option Backoff} {w : σ} {ids : IdSet} {key : String}

theorem Tidy.attempt (h : d.Tidy) (hn : n.IsPlain) :
    ((d.forget n.key).settle clock n b ((d.reconciler.sync n).runIn env w).1).Tidy := by
  have hknown : ∀ r', ((d.reconciler.sync n).runIn env w).1 = .ok r' →
      r'.known.IsSet ∧ ∀ id, r'.known.contains id = true → id.IsPlain := by
    intro r' hr'
    obtain ⟨o, hobject, rfl⟩ | rfl := Reconciler.sync_known hr'
    · refine ⟨h.isSet.insert o.id, fun id hid => ?_⟩
      obtain rfl | hid := (IdSet.contains_insert _ _ _).mp hid
      · rw [hn.object o hobject]
        exact hn.plain
      · exact h.known id hid
    · refine ⟨h.isSet.erase n.id, fun id hid => ?_⟩
      exact h.known id ((IdSet.contains_erase h.isSet.grouped _ _).mp hid).2
  generalize ((d.reconciler.sync n).runIn env w).1 = result at hknown ⊢
  have hreconciler : ((d.forget n.key).settle clock n b result).reconciler.known.IsSet ∧
      ∀ id, ((d.forget n.key).settle clock n b result).reconciler.known.contains id = true →
        id.IsPlain := by
    cases result with
    | ok r' => exact hknown r' rfl
    | error e =>
      rw [settle_error_reconciler]
      exact ⟨h.isSet, h.known⟩
  refine ⟨hreconciler.1, hreconciler.2, fun r hr => ?_, single_settle h.single⟩
  obtain ⟨hr, -⟩ | ⟨rfl, -⟩ := mem_settle hr
  · exact h.pending r hr
  · exact hn

theorem Tidy.dropLost (h : d.Tidy) (ids : IdSet) : (d.dropLost ids).Tidy :=
  ⟨h.isSet, h.known, fun r hr => h.pending r (List.mem_filter.mp hr).1,
    h.single.filter _⟩

theorem Tidy.misses_of_deletion (h : d.Tidy) (hn : n ∈ d.deletions ids) :
    n.IsPlain ∧ d.Misses ids n.key ∧ n = .deleted (.ofKey n.key) := by
  obtain hstale | ⟨r, hr, hlost, rfl⟩ := mem_deletions hn
  · obtain ⟨id, hid, hscope, rfl⟩ := mem_stale.mp hstale
    obtain ⟨hknown, hgone⟩ := (IdSet.mem_difference h.isSet.grouped).mp hid
    have hplain := h.known id hknown
    have hof : ObjectId.ofKey (Notification.deleted id).key = id := ObjectId.ofKey_key hplain
    refine ⟨Notification.deleted_isPlain hplain, ?_, ?_⟩
    · unfold Misses
      rw [hof]
      exact ⟨hgone, .inl ⟨hknown, hscope⟩⟩
    · rw [hof]
  · have hplain := h.pending r hr
    have hof : ObjectId.ofKey (Notification.deleted r.notification.id).key = r.notification.id :=
      ObjectId.ofKey_key hplain.plain
    obtain ⟨hseen, hgone⟩ := Bool.and_eq_true_iff.mp hlost
    refine ⟨Notification.deleted_isPlain hplain.plain, ?_, ?_⟩
    · unfold Misses
      rw [hof]
      exact ⟨by simpa using hgone, .inr ⟨r, hr, hplain.key, hseen⟩⟩
    · rw [hof]

theorem Tidy.deletion_of_misses (h : d.Tidy) {id : ObjectId} (hid : id.IsPlain)
    (hmisses : d.Misses ids id.key) : ∃ n ∈ d.deletions ids, n.key = id.key := by
  unfold Misses at hmisses
  rw [ObjectId.ofKey_key hid] at hmisses
  obtain ⟨hgone, ⟨hknown, hscope⟩ | ⟨r, hr, hkey, hseen⟩⟩ := hmisses
  · refine ⟨.deleted id, stale_subset_deletions _ (mem_stale.mpr ⟨id, ?_, hscope, rfl⟩), rfl⟩
    exact (IdSet.mem_difference h.isSet.grouped).mpr ⟨hknown, hgone⟩
  · have hrid : r.notification.id = id := by
      rw [Notification.id, hkey, ObjectId.ofKey_key hid]
    have hlost : isLost ids r = true := by
      unfold isLost
      rw [hseen, hrid, hgone]
      rfl
    obtain ⟨n, hn, hnkey | rfl⟩ := lost_deleted hr hlost
    · exact ⟨n, hn, hnkey.trans hkey⟩
    · exact ⟨_, hn, congrArg ObjectId.key hrid⟩

theorem nodup_foldl_deletions {rs : List Retry} (hrs : ∀ r ∈ rs, r.notification.IsPlain)
    {found : List Notification} (hfound : (found.map fun n => n.key).Nodup) :
    ((rs.foldl (fun found r =>
      if found.any fun n => n.key == r.notification.key then found
      else found ++ [.deleted r.notification.id]) found).map fun n => n.key).Nodup := by
  induction rs generalizing found with
  | nil => exact hfound
  | cons r rs ih =>
    obtain ⟨hr, hrest⟩ := List.forall_mem_cons.mp hrs
    rw [List.foldl_cons]
    refine ih hrest ?_
    split
    · exact hfound
    · -- the deletion of an object is under the key that it waited under
      rename_i hnew
      rw [List.map_append]
      refine List.nodup_append.mpr ⟨hfound, List.nodup_singleton _, ?_⟩
      intro key hkey key' hkey'
      obtain ⟨n, hn, rfl⟩ := List.mem_map.mp hkey
      rw [List.mem_singleton.mp hkey']
      intro heq
      exact hnew (List.any_eq_true.mpr ⟨n, hn, by simpa [Notification.deleted, hr.key] using heq⟩)

theorem Tidy.nodup_deletions (h : d.Tidy) (ids : IdSet) :
    ((d.deletions ids).map fun n => n.key).Nodup := by
  refine nodup_foldl_deletions (fun r hr => h.pending r (List.mem_filter.mp hr).1) ?_
  unfold Reconciler.stale
  rw [List.map_map]
  have hnodup := (h.isSet.nodup_toList.filter fun id => !ids.contains id).filter
    fun id => d.reconciler.inScope id.ns
  -- different known objects have different keys, as their names are plain
  refine hnodup.map_on fun a ha b hb hkey => ?_
  have hplain : ∀ id, id ∈ (d.reconciler.known.difference ids).filter
      (fun id => d.reconciler.inScope id.ns) → id.IsPlain := by
    intro id hid
    have hdiff := (List.mem_filter.mp hid).1
    exact h.known id ((IdSet.mem_difference h.isSet.grouped).mp hdiff).1
  exact ObjectId.key_inj (hplain a ha) (hplain b hb) hkey

end Tidy

end Delivery
end KubeLedger
