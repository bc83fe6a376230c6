import KubeLedger.Proofs.Traces
import KubeLedger.Reconcile.Sync

/- What the syncs of an object write. An upsert writes a plan that the mapped object alone decides
   (`Mapped.plan`), and then snapshots; a deletion writes the removal of its kind (`Kind.removal`).
   Whatever the answers, what has been written at any point is a prefix of the plan: a refusal ends
   the sync where it is, and is worth another try (`Sync.Follows`). Only an object that cannot be
   mapped and a usage that cannot be read are not (`upsert_inv`, `snapshots_invalid`). -/
namespace KubeLedger

/-- What bringing a relation in line writes. Nothing is written to a dictionary without entries. -/
def Relation.writes (r : Relation) : List Write :=
  match r.discipline with
  | .replaceSet => [.replace r.table r.foreignKey r.owner r.rows]
  | .insertIfAbsent => if r.rows.isEmpty then [] else [.upsert ⟨r.table, .keep⟩ r.rows]

/-- What an upsert writes before it takes snapshots: the primary row, then each relation. -/
def Mapped.plan (m : Mapped) (k : Kind) : List Write :=
  .upsert ⟨k.table, .updateAll⟩ [m.row] :: m.relations.flatMap Relation.writes

/-- What a deletion writes: the cascade of the kind, and at last the primary row. -/
def Kind.removal (k : Kind) (e : EntityId) : List Write :=
  (k.cascade ++ [Cascade.direct k.table "id"]).map fun step => .delete step e

namespace Sync

variable {α β : Type} {trace : List Exchange}

/-! ## Plans -/

/-- A sync that writes a plan in order, and asks for no other write. If it stops early, the next
write of the plan is still to be done, and the sync is worth another try. -/
def Follows (x : Sync Unit) (plan : List Write) : Prop :=
  ∀ ⦃trace r⦄, x.Runs trace r → asked trace ⊆ plan ∧
    ((r = .ok () ∧ written trace = plan) ∨
      ∃ e, r = .error e ∧ e.isRetryable = true ∧ ∃ w rest, plan = written trace ++ w :: rest)

namespace Follows

theorem pure : Follows (Pure.pure ()) [] := by
  intro trace r h
  obtain ⟨rfl, rfl⟩ := runs_pure.mp h
  exact ⟨List.Subset.refl _, Or.inl ⟨rfl, rfl⟩⟩

theorem cons (w : Write) {x : Sync Unit} {plan : List Write} (hx : x.Follows plan) :
    Follows (do let _ ← Sync.write w; x) (w :: plan) := by
  intro trace r h
  rcases runs_bind.mp h with ⟨e, hw, rfl⟩ | ⟨n, before, after, rfl, hw, hrest⟩
  · obtain ⟨a | a, rfl, ha⟩ := runs_write.mp hw
    · cases ha
      exact ⟨List.cons_subset_cons w (List.nil_subset plan), Or.inr ⟨_, rfl, rfl, w, plan, rfl⟩⟩
    · cases ha
  · obtain ⟨a | a, rfl, ha⟩ := runs_write.mp hw
    · cases ha
    · obtain ⟨hasked, hend⟩ := hx hrest
      refine ⟨List.cons_subset_cons w hasked, ?_⟩
      rcases hend with ⟨rfl, hall⟩ | ⟨e, rfl, hretry, w', rest, hplan⟩
      · exact Or.inl ⟨rfl, congrArg (w :: ·) hall⟩
      · exact Or.inr ⟨e, rfl, hretry, w', rest, congrArg (w :: ·) hplan⟩

theorem write (w : Write) : Follows (do let _ ← Sync.write w) [w] := .cons w .pure

theorem bind {x y : Sync Unit} {p q : List Write} (hx : x.Follows p) (hy : y.Follows q) :
    (do x; y).Follows (p ++ q) := by
  intro trace r h
  rcases runs_bind.mp h with ⟨e, hr, rfl⟩ | ⟨_, before, after, rfl, hr, hrest⟩
  · obtain ⟨hasked, ⟨hok, -⟩ | ⟨e', he', hretry, w, rest, hp⟩⟩ := hx hr
    · cases hok
    · cases he'
      refine ⟨fun x hx => List.mem_append_left q (hasked hx),
        Or.inr ⟨e, rfl, hretry, w, rest ++ q, ?_⟩⟩
      rw [hp, List.append_assoc, List.cons_append]
  · obtain ⟨hasked, ⟨-, hbefore⟩ | ⟨_, he', -⟩⟩ := hx hr
    · obtain ⟨hasked', hend⟩ := hy hrest
      refine ⟨?_, ?_⟩
      · rw [asked_append]
        exact List.append_subset.mpr ⟨fun x hx => List.mem_append_left q (hasked hx),
          fun x hx => List.mem_append_right p (hasked' hx)⟩
      · rw [written_append, hbefore]
        rcases hend with ⟨rfl, hafter⟩ | ⟨e, rfl, hretry, w, rest, hq⟩
        · exact Or.inl ⟨rfl, by rw [hafter]⟩
        · exact Or.inr ⟨e, rfl, hretry, w, rest, by rw [hq, List.append_assoc]⟩
    · cases he'

theorem lenient {x : Sync Unit} {plan : List Write} (hx : x.Follows plan) : x.Lenient := by
  intro trace e h
  obtain ⟨-, ⟨hok, -⟩ | ⟨e', he, hretry, -⟩⟩ := hx h
  · cases hok
  · cases he
    cases hretry

end Follows

theorem upsertSome_follows (u : Upsert) (rows : List Row) :
    (upsertSome u rows).Follows (if rows.isEmpty then [] else [.upsert u rows]) := by
  unfold upsertSome
  split
  · exact .pure
  · exact .write _

theorem relation_follows (r : Relation) : (relation r).Follows r.writes := by
  unfold relation Relation.writes
  cases r.discipline with
  | replaceSet => exact .write _
  | insertIfAbsent => exact upsertSome_follows _ _

theorem relations_follows (rs : List Relation) :
    (relations rs).Follows (rs.flatMap Relation.writes) := by
  induction rs with
  | nil => exact .pure
  | cons r rest ih => exact (relation_follows r).bind ih

theorem cascade_follows (e : EntityId) (steps : List Cascade) :
    (cascade e steps).Follows (steps.map fun step => .delete step e) := by
  induction steps with
  | nil => exact .pure
  | cons step rest ih =>
    exact .cons (.delete step e) ih

theorem delete_follows (k : Kind) (id : ObjectId) :
    (delete k id).Follows (k.removal id.entityId) := cascade_follows _ _

/-! ## Snapshots -/

/-- A write that takes a snapshot of containers: logs of the containers of the object, or the usage
that the cluster reported. -/
inductive IsSnapshot (m : Mapped) (trace : List Exchange) : Write → Prop
  | logs (ls : List ContainerLog) (hne : m.targets ≠ [])
    (h : ∀ l ∈ ls, l.pod = m.objectId ∧
      ∃ t ∈ m.targets, l.containerId = t.id ∧ l.containerName = t.name) :
    IsSnapshot m trace (.upsert ⟨Schema.containerLogs, .updateAll⟩ (ls.map ContainerLog.row))
  | usage (metrics : ClusterObject) (us : List ContainerUsage) (hne : m.targets ≠ [])
    (hreported : (⟨.usage m.objectId, (.ok (some metrics) :
      Except ClientError (Option ClusterObject))⟩ : Exchange) ∈ trace)
    (hread : ContainerUsage.ofMetrics m.objectId metrics = .ok us) :
    IsSnapshot m trace (.upsert ⟨Schema.podMetrics, .updateAll⟩ (us.map ContainerUsage.row))

theorem IsSnapshot.mono {m : Mapped} {xs ys : List Exchange} {w : Write} (h : IsSnapshot m xs w)
    (hsub : xs ⊆ ys) : IsSnapshot m ys w := by
  cases h with
  | logs ls hne h => exact .logs ls hne h
  | usage metrics us hne hreported hread => exact .usage metrics us hne (hsub hreported) hread

theorem upsertSome_asked {u : Upsert} {rows : List Row} {r : Except SyncError Unit}
    (h : (upsertSome u rows).Runs trace r) : ∀ w ∈ asked trace, w = .upsert u rows := by
  intro w hw
  have hmem := (upsertSome_follows u rows h).1 hw
  split at hmem
  · cases hmem
  · exact List.mem_singleton.mp hmem

theorem logRows_inv {pod : ObjectId} {ts : List SnapshotTarget} {r : Except SyncError (List Row)}
    (h : (logRows pod ts).Runs trace r) :
    asked trace = [] ∧ ∀ rows, r = .ok rows → ∃ ls : List ContainerLog,
      rows = ls.map ContainerLog.row ∧
        ∀ l ∈ ls, l.pod = pod ∧ ∃ t ∈ ts, l.containerId = t.id ∧ l.containerName = t.name := by
  induction ts generalizing trace r with
  | nil =>
    obtain ⟨rfl, rfl⟩ := runs_pure.mp h
    refine ⟨rfl, fun rows hrows => ⟨[], ?_, fun l hl => absurd hl List.not_mem_nil⟩⟩
    cases hrows
    rfl
  | cons t ts ih =>
    -- rows of later targets are rows of targets
    have later : ∀ {ls : List ContainerLog},
        (∀ l ∈ ls, l.pod = pod ∧ ∃ t ∈ ts, l.containerId = t.id ∧ l.containerName = t.name) →
        ∀ l ∈ ls, l.pod = pod ∧
          ∃ t' ∈ t :: ts, l.containerId = t'.id ∧ l.containerName = t'.name := by
      intro ls hls l hl
      obtain ⟨hpod, t', ht', hid⟩ := hls l hl
      exact ⟨hpod, t', List.mem_cons_of_mem t ht', hid⟩
    unfold logRows at h
    split at h
    · rcases runs_bind.mp h with ⟨e, hlogs, rfl⟩ | ⟨text, first, after, rfl, hlogs, hafter⟩
      · obtain ⟨a, rfl, _⟩ := runs_logs.mp hlogs
        exact ⟨rfl, fun rows hrows => nomatch hrows⟩
      · obtain ⟨a, rfl, _⟩ := runs_logs.mp hlogs
        rcases runs_bind.mp hafter with ⟨e, hrest, rfl⟩ | ⟨rows, before, last, rfl, hrest, hlast⟩
        · exact ⟨(ih hrest).1, fun rows hrows => nomatch hrows⟩
        · obtain ⟨hw, hrows⟩ := ih hrest
          obtain ⟨ls, rfl, hls⟩ := hrows rows rfl
          cases text with
          | none =>
            obtain ⟨rfl, rfl⟩ := runs_pure.mp hlast
            refine ⟨by simpa [asked, Exchange.asked?] using hw, fun rows' hrows' => ?_⟩
            cases hrows'
            exact ⟨ls, rfl, later hls⟩
          | some s =>
            obtain ⟨rfl, rfl⟩ := runs_pure.mp hlast
            refine ⟨by simpa [asked, Exchange.asked?] using hw, fun rows' hrows' => ?_⟩
            cases hrows'
            refine ⟨⟨t.id, pod, t.name, s⟩ :: ls, rfl, fun l hl => ?_⟩
            rcases List.mem_cons.mp hl with rfl | hl
            · exact ⟨rfl, t, List.mem_cons_self, rfl, rfl⟩
            · exact later hls l hl
    · obtain ⟨hw, hrows⟩ := ih h
      refine ⟨hw, fun rows hr => ?_⟩
      obtain ⟨ls, heq, hls⟩ := hrows rows hr
      exact ⟨ls, heq, later hls⟩

theorem snapshotLogs_inv {m : Mapped} {r : Except SyncError Unit} (hne : m.targets ≠ [])
    (h : (snapshotLogs m.objectId m.targets).Runs trace r) :
    ∀ w ∈ asked trace, IsSnapshot m trace w := by
  intro w hw
  rcases runs_bind.mp h with ⟨e, hrows, rfl⟩ | ⟨rows, before, after, rfl, hrows, hupsert⟩
  · rw [(logRows_inv hrows).1] at hw
    cases hw
  · obtain ⟨hquiet, hread⟩ := logRows_inv hrows
    obtain ⟨ls, rfl, hls⟩ := hread rows rfl
    rw [asked_append, hquiet, List.nil_append] at hw
    rw [upsertSome_asked hupsert w hw]
    exact .logs ls hne hls

theorem logRows_lenient (pod : ObjectId) (ts : List SnapshotTarget) : (logRows pod ts).Lenient := by
  induction ts with
  | nil => exact .pure _
  | cons t ts ih =>
    unfold logRows
    split
    · refine (Lenient.logs pod t.name).bind fun text => ih.bind fun rows => ?_
      cases text with
      | none => exact .pure _
      | some s => exact .pure _
    · exact ih

theorem snapshotLogs_lenient (pod : ObjectId) (ts : List SnapshotTarget) :
    (snapshotLogs pod ts).Lenient :=
  (logRows_lenient pod ts).bind fun _ => (upsertSome_follows _ _).lenient

/-- What the cluster reported as the usage of an object cannot be read. -/
def Misreported (m : Mapped) (trace : List Exchange) (e : InvalidObject) : Prop :=
  ∃ metrics, (⟨.usage m.objectId, (.ok (some metrics) :
      Except ClientError (Option ClusterObject))⟩ : Exchange) ∈ trace ∧
    ContainerUsage.ofMetrics m.objectId metrics = .error e

theorem snapshotUsage_inv {m : Mapped} {r : Except SyncError Unit} (hne : m.targets ≠ [])
    (h : (snapshotUsage m.objectId).Runs trace r) :
    (∀ w ∈ asked trace, IsSnapshot m trace w) ∧
      ∀ e, r = .error (.invalid e) → Misreported m trace e := by
  rcases runs_bind.mp h with ⟨e, hasked, rfl⟩ | ⟨reported, asked, after, rfl, hasked, hrest⟩
  · obtain ⟨a | a, rfl, ha⟩ := runs_usage.mp hasked <;> cases ha
    exact ⟨fun w hw => (nomatch hw), fun e he => nomatch he⟩
  · obtain ⟨a | a, rfl, ha⟩ := runs_usage.mp hasked <;> cases ha
    cases reported with
    | none =>
      obtain ⟨rfl, rfl⟩ := runs_pure.mp hrest
      exact ⟨fun w hw => (nomatch hw), fun e he => nomatch he⟩
    | some metrics =>
      rcases runs_bind.mp hrest with ⟨e, hvalid, rfl⟩ | ⟨us, before, last, rfl, hvalid, hupsert⟩
      · -- the one place where a sync ends as invalid after it has written
        obtain ⟨rfl, e', hread, rfl⟩ := valid_error hvalid
        refine ⟨fun w hw => (nomatch hw), fun e he => ⟨metrics, List.mem_cons_self, ?_⟩⟩
        cases he
        exact hread
      · obtain ⟨rfl, hread⟩ := valid_ok hvalid
        refine ⟨fun w hw => ?_, fun e he => ?_⟩
        · have hlast : w ∈ asked last := by simpa [asked, Exchange.asked?] using hw
          rw [upsertSome_asked hupsert w hlast]
          exact .usage metrics us hne List.mem_cons_self hread
        · subst he
          exact ((upsertSome_follows _ _).lenient hupsert).elim

theorem snapshots_eq (c : ReconcilerConfig) (m : Mapped) :
    snapshots c m =
      if m.targets.isEmpty then pure ()
      else
        (if c.fetchLogs then snapshotLogs m.objectId m.targets else pure ()) >>= fun _ =>
          if c.fetchUsage then snapshotUsage m.objectId else pure () := by
  unfold snapshots
  split
  · rfl
  · cases c.fetchLogs <;> rfl

/-- Snapshots write nothing else, and are invalid only by the usage that the cluster reported. -/
theorem snapshots_inv {c : ReconcilerConfig} {m : Mapped} {r : Except SyncError Unit}
    (h : (snapshots c m).Runs trace r) :
    (∀ w ∈ asked trace, IsSnapshot m trace w) ∧
      ∀ e, r = .error (.invalid e) → Misreported m trace e := by
  -- what is not fetched asks for nothing and does not fail
  have quiet : ∀ {trace : List Exchange} {r : Except SyncError Unit},
      (pure () : Sync Unit).Runs trace r →
        (∀ w ∈ asked trace, IsSnapshot m trace w) ∧
          ∀ e, r = .error (.invalid e) → Misreported m trace e := by
    intro trace r h
    obtain ⟨rfl, rfl⟩ := runs_pure.mp h
    exact ⟨fun w hw => (nomatch hw), fun e he => nomatch he⟩
  rw [snapshots_eq] at h
  split at h
  · exact quiet h
  · rename_i htargets
    have hne : m.targets ≠ [] := by simpa using htargets
    -- logs may fail, but never as invalid, so usage is the one that decides
    have logged : ∀ {trace : List Exchange} {r : Except SyncError Unit},
        (if c.fetchLogs then snapshotLogs m.objectId m.targets else pure ()).Runs trace r →
          (∀ w ∈ asked trace, IsSnapshot m trace w) ∧ ∀ e, r ≠ .error (.invalid e) := by
      intro trace r h
      split at h
      · refine ⟨snapshotLogs_inv hne h, ?_⟩
        rintro e rfl
        exact snapshotLogs_lenient _ _ h
      · obtain ⟨rfl, rfl⟩ := runs_pure.mp h
        exact ⟨fun w hw => (nomatch hw), fun e he => nomatch he⟩
    rcases runs_bind.mp h with ⟨e, hlogs, rfl⟩ | ⟨_, before, after, rfl, hlogs, husage⟩
    · obtain ⟨hw, hvalid⟩ := logged hlogs
      exact ⟨hw, fun e' he => absurd (he ▸ rfl) (hvalid e')⟩
    · have husages : (∀ w ∈ asked after, IsSnapshot m after w) ∧
          ∀ e, r = .error (.invalid e) → Misreported m after e := by
        split at husage
        · exact snapshotUsage_inv hne husage
        · exact quiet husage
      refine ⟨fun w hw => ?_, fun e he => ?_⟩
      · rw [asked_append, List.mem_append] at hw
        rcases hw with hw | hw
        · exact ((logged hlogs).1 w hw).mono (List.subset_append_left before after)
        · exact (husages.1 w hw).mono (List.subset_append_right before after)
      · obtain ⟨metrics, hreported, hread⟩ := husages.2 e he
        exact ⟨metrics, List.mem_append_right before hreported, hread⟩

/-! ## Upserts -/

theorem plan_follows (k : Kind) (m : Mapped) :
    Follows (do let _ ← write (.upsert ⟨k.table, .updateAll⟩ [m.row]); relations m.relations)
      (m.plan k) := .cons _ (relations_follows _)

theorem upsert_eq (k : Kind) (c : ReconcilerConfig) (o : ClusterObject) :
    upsert k c o = (valid (k.map o) >>= fun m =>
      (do let _ ← write (.upsert ⟨k.table, .updateAll⟩ [m.row]); relations m.relations) >>= fun _ =>
        snapshots c m >>= fun _ => pure m.objectId) := by
  unfold upsert
  simp only [bind_assoc]

/-- How an upsert can go: the object cannot be mapped, the plan was not written to its end, or it
was, and snapshots were taken until they failed or were complete. -/
theorem upsert_inv {k : Kind} {c : ReconcilerConfig} {o : ClusterObject}
    {r : Except SyncError ObjectId} (h : (upsert k c o).Runs trace r) :
    (∃ e, k.map o = .error e ∧ trace = [] ∧ r = .error (.invalid e)) ∨
      ∃ m, k.map o = .ok m ∧
        ((∃ e, r = .error e ∧ e.isRetryable = true ∧ asked trace ⊆ m.plan k ∧
            ∃ w rest, m.plan k = written trace ++ w :: rest) ∨
          ∃ before after taken, trace = before ++ after ∧ asked before ⊆ m.plan k ∧
            written before = m.plan k ∧ (snapshots c m).Runs after taken ∧
              r = taken.map fun _ => m.objectId) := by
  rw [upsert_eq] at h
  rcases runs_bind.mp h with ⟨e, hvalid, rfl⟩ | ⟨m, first, rest, rfl, hvalid, hrest⟩
  · obtain ⟨rfl, e', hmap, rfl⟩ := valid_error hvalid
    exact Or.inl ⟨e', hmap, rfl, rfl⟩
  · obtain ⟨rfl, hmap⟩ := valid_ok hvalid
    refine Or.inr ⟨m, hmap, ?_⟩
    rcases runs_bind.mp hrest with ⟨e, hplan, rfl⟩ | ⟨_, before, after, rfl, hplan, hafter⟩
    · obtain ⟨hasked, ⟨hok, -⟩ | ⟨e', he', hretry, hcut⟩⟩ := plan_follows k m hplan
      · cases hok
      · cases he'
        exact Or.inl ⟨e, rfl, hretry, hasked, hcut⟩
    · obtain ⟨hasked, ⟨-, hall⟩ | ⟨_, he', -⟩⟩ := plan_follows k m hplan
      · obtain ⟨taken, htaken, rfl⟩ := runs_map.mp hafter
        exact Or.inr ⟨before, after, taken, rfl, hasked, hall, htaken, rfl⟩
      · cases he'

theorem upsert_asked {k : Kind} {c : ReconcilerConfig} {o : ClusterObject}
    {r : Except SyncError ObjectId} (h : (upsert k c o).Runs trace r) {w : Write}
    (hw : w ∈ asked trace) :
    ∃ m, k.map o = .ok m ∧ (w ∈ m.plan k ∨ IsSnapshot m trace w) := by
  rcases upsert_inv h with ⟨e, -, rfl, -⟩ | ⟨m, hmap, hrest⟩
  · cases hw
  · refine ⟨m, hmap, ?_⟩
    rcases hrest with ⟨e, -, -, hasked, -⟩ | ⟨before, after, taken, rfl, hasked, -, htaken, -⟩
    · exact .inl (hasked hw)
    · rw [asked_append, List.mem_append] at hw
      refine hw.imp (fun hw => hasked hw) fun hw => ?_
      exact ((snapshots_inv htaken).1 w hw).mono (List.subset_append_right before after)

theorem sync_seen {r : Reconciler} {n : Notification} {o : ClusterObject} (hn : n.object = some o)
    {result : Except SyncError Reconciler} :
    (r.sync n).Runs trace result ↔ ∃ r', (upsert r.kind r.config o).Runs trace r' ∧
      result = r'.map fun id => { r with known := r.known.insert id } := by
  unfold Reconciler.sync
  rw [hn]
  exact runs_map

theorem sync_deleted {r : Reconciler} {n : Notification} (hn : n.object = none)
    {result : Except SyncError Reconciler} :
    (r.sync n).Runs trace result ↔ ∃ r', (delete r.kind n.id).Runs trace r' ∧
      result = r'.map fun _ => { r with known := r.known.erase n.id } := by
  unfold Reconciler.sync
  rw [hn]
  exact runs_map

/-! ## Honesty -/

namespace Honest

theorem upsertSome (u : Upsert) (rows : List Row) : (Sync.upsertSome u rows).Honest := by
  unfold Sync.upsertSome
  split
  · exact .pure _
  · exact (Honest.write _).bind fun _ => .pure _

theorem relations (rs : List Relation) : (Sync.relations rs).Honest := by
  induction rs with
  | nil => exact .pure _
  | cons r rest ih =>
    refine Honest.bind ?_ fun _ => ih
    unfold relation
    cases r.discipline with
    | replaceSet => exact (Honest.write _).bind fun _ => .pure _
    | insertIfAbsent => exact upsertSome _ _

theorem logRows (pod : ObjectId) (ts : List SnapshotTarget) : (Sync.logRows pod ts).Honest := by
  induction ts with
  | nil => exact .pure _
  | cons t ts ih =>
    unfold Sync.logRows
    split
    · refine (Honest.logs pod t.name).bind fun text => ih.bind fun rows => ?_
      cases text with
      | none => exact .pure _
      | some s => exact .pure _
    · exact ih

theorem snapshotUsage (pod : ObjectId) : (Sync.snapshotUsage pod).Honest := by
  refine (Honest.usage pod).bind fun reported => ?_
  cases reported with
  | none => exact .pure _
  | some metrics => exact (Honest.valid _).bind fun us => upsertSome _ _

theorem snapshots (c : ReconcilerConfig) (m : Mapped) : (Sync.snapshots c m).Honest := by
  rw [snapshots_eq]
  split
  · exact .pure _
  · refine Honest.bind ?_ fun _ => ?_
    · split
      · exact (logRows _ _).bind fun _ => upsertSome _ _
      · exact .pure _
    · split
      · exact snapshotUsage _
      · exact .pure _

theorem upsert (k : Kind) (c : ReconcilerConfig) (o : ClusterObject) :
    (Sync.upsert k c o).Honest :=
  (Honest.valid _).bind fun m => (Honest.write _).bind fun _ =>
    (relations m.relations).bind fun _ => (snapshots c m).bind fun _ => .pure _

theorem cascade (e : EntityId) (steps : List Cascade) : (Sync.cascade e steps).Honest := by
  induction steps with
  | nil => exact .pure _
  | cons step rest ih => exact (Honest.write _).bind fun _ => ih

/-- Whatever a reconciler does, it is worth another try exactly if one of its calls failed. -/
theorem sync (r : Reconciler) (n : Notification) : (r.sync n).Honest := by
  unfold Reconciler.sync
  cases n.object with
  | some o => exact (upsert r.kind r.config o).bind fun _ => .pure _
  | none => exact Honest.bind (cascade _ _) fun _ => .pure _

end Honest

end Sync

end KubeLedger
