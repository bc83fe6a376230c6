import KubeLedger.Proofs.Holdings
import KubeLedger.Proofs.Overwrites

/- Syncs next to a cluster that does not change. Any call may fail; but where the cluster answers,
   it answers as in one view (`ClusterView.Tells`). An upsert then has one course and one outcome,
   which the object and the view decide: as long as no call fails it does all the writes of the
   course, and a call that fails cuts the course short (`Sync.upsert_settles`).

   `Sync.Settles` says this of a part of a sync, with a rule for each way in which syncs are
   written. It is more than to follow a plan: what a part returns is known as well, so that the rows
   of snapshots can be told beforehand. -/
namespace KubeLedger

open Database

/-- What the cluster says of objects. -/
structure ClusterView where
  logs : ObjectId → String → Option String
  usage : ObjectId → Option ClusterObject

namespace ClusterView

/-- An exchange agrees with a view: an answer about logs or usage is that of the view. -/
def Tells (v : ClusterView) : Exchange → Prop
  | ⟨.logs pod name, (.ok text : Except ClientError (Option String))⟩ => text = v.logs pod name
  | ⟨.usage pod, (.ok metrics : Except ClientError (Option ClusterObject))⟩ => metrics = v.usage pod
  | _ => True

/-! ## What is written -/

def logsOf (v : ClusterView) (pod : ObjectId) (ts : List SnapshotTarget) : List ContainerLog :=
  ts.filterMap fun t =>
    if t.started then (v.logs pod t.name).map fun s => ⟨t.id, pod, t.name, s⟩ else none

def usageOf (v : ClusterView) (pod : ObjectId) : Except InvalidObject (List ContainerUsage) :=
  match v.usage pod with
  | none => .ok []
  | some metrics => ContainerUsage.ofMetrics pod metrics

def upserts (t : Table) (rows : List Row) : List Write :=
  if rows.isEmpty then [] else [.upsert ⟨t, .updateAll⟩ rows]

def logWrites (v : ClusterView) (c : ReconcilerConfig) (m : Mapped) : List Write :=
  if c.fetchLogs then
    upserts Schema.containerLogs ((v.logsOf m.objectId m.targets).map ContainerLog.row)
  else []

/-- The write of usage. What cannot be read is not written. -/
def usageWrites (v : ClusterView) (c : ReconcilerConfig) (m : Mapped) : List Write :=
  if c.fetchUsage then
    match v.usageOf m.objectId with
    | .ok us => upserts Schema.podMetrics (us.map ContainerUsage.row)
    | .error _ => []
  else []

def snapshotWrites (v : ClusterView) (c : ReconcilerConfig) (m : Mapped) : List Write :=
  if m.targets.isEmpty then [] else v.logWrites c m ++ v.usageWrites c m

/-- How snapshots end. -/
def verdict (v : ClusterView) (c : ReconcilerConfig) (m : Mapped) : Except InvalidObject Unit :=
  if m.targets.isEmpty then .ok ()
  else if c.fetchUsage then (v.usageOf m.objectId).map fun _ => () else .ok ()

def course (v : ClusterView) (k : Kind) (c : ReconcilerConfig) (o : ClusterObject) : List Write :=
  match k.map o with
  | .ok m => m.plan k ++ v.snapshotWrites c m
  | .error _ => []

/-- How an upsert ends. -/
def outcome (v : ClusterView) (k : Kind) (c : ReconcilerConfig) (o : ClusterObject) :
    Except InvalidObject ObjectId :=
  match k.map o with
  | .ok m => (v.verdict c m).map fun _ => m.objectId
  | .error e => .error e

end ClusterView

/-! ## Courses -/

namespace Sync

variable {α β : Type} {v : ClusterView} {x y : Sync Unit} {p q : List Write}

/-- A sync next to a cluster that answers as in a view. Unless a call fails it does certain writes
and has a certain result; otherwise it is worth another try, and has begun with these writes. -/
def Settles (v : ClusterView) (x : Sync α) (course : List Write) (a : Except InvalidObject α) :
    Prop :=
  ∀ ⦃trace r⦄, x.Runs trace r → (∀ e ∈ trace, v.Tells e) →
    (written trace = course ∧ r = a.mapError .invalid) ∨
      (written trace <+: course ∧ ∃ e, r = .error e ∧ e.isRetryable = true)

namespace Settles

theorem pure (a : α) : (Pure.pure a : Sync α).Settles v [] (.ok a) := by
  intro trace r h _
  obtain ⟨rfl, rfl⟩ := runs_pure.mp h
  exact .inl ⟨rfl, rfl⟩

theorem valid {a b : Except InvalidObject α} (h : a = b) : (Sync.valid a).Settles v [] b := by
  subst h
  intro trace r h _
  obtain ⟨rfl, rfl⟩ := runs_valid.mp h
  exact .inl ⟨rfl, rfl⟩

theorem logs (pod : ObjectId) (name : String) :
    (Sync.logs pod name).Settles v [] (.ok (v.logs pod name)) := by
  intro trace r h htells
  obtain ⟨a | text, rfl, rfl⟩ := runs_logs.mp h
  · exact .inr ⟨List.prefix_rfl, _, rfl, rfl⟩
  · obtain rfl : text = v.logs pod name := htells _ List.mem_cons_self
    exact .inl ⟨rfl, rfl⟩

theorem usage (pod : ObjectId) : (Sync.usage pod).Settles v [] (.ok (v.usage pod)) := by
  intro trace r h htells
  obtain ⟨a | metrics, rfl, rfl⟩ := runs_usage.mp h
  · exact .inr ⟨List.prefix_rfl, _, rfl, rfl⟩
  · obtain rfl : metrics = v.usage pod := htells _ List.mem_cons_self
    exact .inl ⟨rfl, rfl⟩

theorem of_follows (h : x.Follows p) : x.Settles v p (.ok ()) := by
  intro trace r hr _
  obtain ⟨-, ⟨rfl, hall⟩ | ⟨e, rfl, hretry, w, rest, hcut⟩⟩ := h hr
  · exact .inl ⟨hall, rfl⟩
  · exact .inr ⟨⟨w :: rest, hcut.symm⟩, e, rfl, hretry⟩

/-- The first half settles with a result, and the second half goes on from there. -/
theorem bind {x : Sync α} {f : α → Sync β} {a : α} {b : Except InvalidObject β}
    (hx : x.Settles v p (.ok a)) (hf : (f a).Settles v q b) : (x >>= f).Settles v (p ++ q) b := by
  intro trace r h htells
  rcases runs_bind.mp h with ⟨e, hr, rfl⟩ | ⟨a', before, after, rfl, hr, hrest⟩
  · obtain ⟨-, he⟩ | ⟨hbegun, e', he, hretry⟩ := hx hr htells
    · cases he
    · obtain rfl := Except.error.inj he
      exact .inr ⟨hbegun.trans (List.prefix_append p q), e, rfl, hretry⟩
  · obtain ⟨hwritten, ha⟩ | ⟨-, e, he, -⟩ :=
      hx hr fun e he => htells e (List.mem_append_left after he)
    · obtain rfl := Except.ok.inj ha
      rw [written_append, hwritten]
      obtain ⟨hall, hr⟩ | ⟨hbegun, hr⟩ :=
        hf hrest fun e he => htells e (List.mem_append_right before he)
      · exact .inl ⟨by rw [hall], hr⟩
      · exact .inr ⟨(List.prefix_append_right_inj p).mpr hbegun, hr⟩
    · cases he

/-- A first half that finds an object invalid is the end of it. -/
theorem bind_invalid {x : Sync α} (f : α → Sync β) {e : InvalidObject}
    (hx : x.Settles v p (.error e)) : (x >>= f).Settles v p (.error e) := by
  intro trace r h htells
  rcases runs_bind.mp h with ⟨e', hr, rfl⟩ | ⟨a, before, after, rfl, hr, -⟩
  · obtain ⟨hwritten, he⟩ | ⟨hbegun, e'', he, hretry⟩ := hx hr htells
    · obtain rfl := Except.error.inj he
      exact .inl ⟨hwritten, rfl⟩
    · obtain rfl := Except.error.inj he
      exact .inr ⟨hbegun, e', rfl, hretry⟩
  · obtain ⟨-, ha⟩ | ⟨-, e'', he, -⟩ :=
      hx hr fun e he => htells e (List.mem_append_left after he)
    · cases ha
    · cases he

end Settles

/-! ## Snapshots -/

theorem upsertSome_settles (t : Table) (rows : List Row) :
    (upsertSome ⟨t, .updateAll⟩ rows).Settles v (ClusterView.upserts t rows) (.ok ()) :=
  .of_follows (upsertSome_follows _ rows)

theorem logRows_settles (pod : ObjectId) (ts : List SnapshotTarget) :
    (logRows pod ts).Settles v [] (.ok ((v.logsOf pod ts).map ContainerLog.row)) := by
  induction ts with
  | nil => exact .pure _
  | cons t ts ih =>
    unfold logRows
    cases hstarted : t.started with
    | true =>
      refine Settles.bind (q := []) (.logs pod t.name) (Settles.bind (q := []) ih ?_)
      cases htext : v.logs pod t.name with
      | some s =>
        have hrows : v.logsOf pod (t :: ts) = ⟨t.id, pod, t.name, s⟩ :: v.logsOf pod ts := by
          simp [ClusterView.logsOf, hstarted, htext]
        rw [hrows]
        exact .pure _
      | none =>
        have hrows : v.logsOf pod (t :: ts) = v.logsOf pod ts := by
          simp [ClusterView.logsOf, hstarted, htext]
        rw [hrows]
        exact .pure _
    | false =>
      have hrows : v.logsOf pod (t :: ts) = v.logsOf pod ts := by
        simp [ClusterView.logsOf, hstarted]
      rw [hrows]
      exact ih

theorem snapshotUsage_settles (pod : ObjectId) :
    (snapshotUsage pod).Settles v
      (match v.usageOf pod with
        | .ok us => ClusterView.upserts Schema.podMetrics (us.map ContainerUsage.row)
        | .error _ => [])
      ((v.usageOf pod).map fun _ => ()) := by
  refine Settles.bind (p := []) (.usage pod) ?_
  unfold ClusterView.usageOf
  cases v.usage pod with
  | none => exact .pure ()
  | some metrics =>
    dsimp only
    cases ContainerUsage.ofMetrics pod metrics with
    | error e => exact .bind_invalid _ (.valid rfl)
    | ok us => exact Settles.bind (p := []) (.valid rfl) (upsertSome_settles _ _)

theorem snapshots_settles (c : ReconcilerConfig) (m : Mapped) :
    (snapshots c m).Settles v (v.snapshotWrites c m) (v.verdict c m) := by
  rw [snapshots_eq]
  unfold ClusterView.snapshotWrites ClusterView.verdict
  cases m.targets.isEmpty with
  | true => exact .pure ()
  | false =>
    refine Settles.bind (a := ()) ?_ ?_
    · unfold ClusterView.logWrites
      cases c.fetchLogs with
      | true => exact Settles.bind (p := []) (logRows_settles _ _) (upsertSome_settles _ _)
      | false => exact .pure ()
    · unfold ClusterView.usageWrites
      cases c.fetchUsage with
      | true => exact snapshotUsage_settles m.objectId
      | false => exact .pure ()

theorem upsert_settles (k : Kind) (c : ReconcilerConfig) (o : ClusterObject) :
    (upsert k c o).Settles v (v.course k c o) (v.outcome k c o) := by
  unfold ClusterView.course ClusterView.outcome
  cases hmap : k.map o with
  | error e => exact .bind_invalid _ (.valid hmap)
  | ok m =>
    rw [upsert_eq]
    refine Settles.bind (p := []) (.valid hmap) (.bind (.of_follows (plan_follows k m)) ?_)
    have hsnapshots := snapshots_settles (v := v) c m
    dsimp only
    cases hverdict : v.verdict c m with
    | error e =>
      rw [hverdict] at hsnapshots
      exact .bind_invalid _ hsnapshots
    | ok u =>
      rw [hverdict] at hsnapshots
      have hdone := hsnapshots.bind (f := fun _ => Pure.pure m.objectId) (.pure m.objectId)
      rwa [List.append_nil] at hdone

end Sync

/-! ## The writes of a course -/

theorem Relation.writes_tables (rs : List Relation) :
    ((rs.flatMap Relation.writes).map fun w => w.table.name).Sublist
      (rs.map fun r => r.table.name) := by
  induction rs with
  | nil => exact List.Sublist.slnil
  | cons r rs ih =>
    rw [List.flatMap_cons, List.map_append]
    have hfirst : (r.writes.map fun w => w.table.name).Sublist [r.table.name] := by
      unfold writes
      cases r.discipline with
      | replaceSet => exact List.Sublist.refl _
      | insertIfAbsent =>
        cases r.rows.isEmpty with
        | true => exact List.nil_sublist _
        | false => exact List.Sublist.refl _
    exact hfirst.append ih

/-- A write that brings rows of an owner decides by itself what becomes of its table, but for the
dictionary. -/
theorem Write.Brings.firm {k : Kind} {keys : List (List String)} {e : EntityId} {w : Write}
    (h : w.Brings k keys e) : w.IsFirm ∨ ∃ rows, w = .upsert ⟨Schema.label, .keep⟩ rows ∧
      ∀ row ∈ rows, Schema.label.Takes row := by
  cases h with
  | upsert hmem hrows =>
    exact .inl ⟨k.holdings_mem hmem, rfl, fun row hrow => (hrows row hrow).takes⟩
  | replace hmem hrows =>
    refine .inl ⟨k.holdings_mem hmem, fun row hrow => ?_⟩
    exact ⟨(hrows row hrow).takes, (hrows row hrow).owned⟩
  | dictionary hrows => exact .inr ⟨_, rfl, hrows⟩

namespace ClusterView

variable {v : ClusterView} {k : Kind} {c : ReconcilerConfig} {o : ClusterObject} {m : Mapped}

/-- The keys that an upsert brings into play: those of the object, and those of the containers whose
usage is reported. -/
def keysOf (v : ClusterView) (m : Mapped) : List (List String) :=
  m.keys ++ ((v.usageOf m.objectId).toOption.getD []).map fun u =>
    [m.objectId.ns, m.objectId.name, u.containerName]

def reported (v : ClusterView) (id : ObjectId) : List Exchange :=
  [⟨.usage id, (.ok (v.usage id) : Except ClientError (Option ClusterObject))⟩]

theorem mem_upserts {t : Table} {rows : List Row} {w : Write} (h : w ∈ upserts t rows) :
    rows ≠ [] ∧ w = .upsert ⟨t, .updateAll⟩ rows := by
  unfold upserts at h
  split at h
  · cases h
  · rename_i hne
    exact ⟨by simpa using hne, List.mem_singleton.mp h⟩

theorem snapshotWrites_snapshot {w : Write} (hw : w ∈ v.snapshotWrites c m) :
    Sync.IsSnapshot m (v.reported m.objectId) w := by
  unfold snapshotWrites at hw
  split at hw
  · cases hw
  · rename_i htargets
    have hne : m.targets ≠ [] := by simpa using htargets
    rcases List.mem_append.mp hw with hw | hw
    · unfold logWrites at hw
      split at hw
      · obtain ⟨-, rfl⟩ := mem_upserts hw
        refine .logs _ hne fun l hl => ?_
        obtain ⟨t, ht, hlog⟩ := List.mem_filterMap.mp hl
        split at hlog
        · obtain ⟨s, -, rfl⟩ := Option.map_eq_some_iff.mp hlog
          exact ⟨rfl, t, ht, rfl, rfl⟩
        · cases hlog
      · cases hw
    · unfold usageWrites at hw
      split at hw
      · cases husage : v.usageOf m.objectId with
        | error e => simp [husage] at hw
        | ok us =>
          simp only [husage] at hw
          obtain ⟨hrows, rfl⟩ := mem_upserts hw
          unfold usageOf at husage
          cases hview : v.usage m.objectId with
          | none =>
            simp only [hview, Except.ok.injEq] at husage
            exact absurd (husage ▸ rfl) hrows
          | some metrics =>
            simp only [hview] at husage
            exact .usage metrics us hne (by simp [reported, hview]) husage
      · cases hw

theorem upserts_tables (t : Table) (rows : List Row) :
    ((upserts t rows).map fun w => w.table.name).Sublist [t.name] := by
  unfold upserts
  split
  · exact List.nil_sublist _
  · exact List.Sublist.refl _

theorem snapshotWrites_tables : ((v.snapshotWrites c m).map fun w => w.table.name).Sublist
    ([Schema.containerLogs.name] ++ [Schema.podMetrics.name]) := by
  unfold snapshotWrites
  split
  · exact List.nil_sublist _
  · rw [List.map_append]
    refine List.Sublist.append ?_ ?_
    · unfold logWrites
      split
      · exact upserts_tables _ _
      · exact List.nil_sublist _
    · unfold usageWrites
      split
      · cases v.usageOf m.objectId with
        | ok us => exact upserts_tables _ _
        | error e => exact List.nil_sublist _
      · exact List.nil_sublist _

theorem course_tables (k : Kind) (c : ReconcilerConfig) (o : ClusterObject) :
    ((v.course k c o).map fun w => w.table.name).Nodup := by
  unfold course
  cases hmap : k.map o with
  | error e => exact List.nodup_nil
  | ok m =>
    have htables := (Kind.map_describes hmap).tables
    have hnodup : ((k.table.name :: m.relations.map fun r => r.table.name) ++
        ([Schema.containerLogs.name] ++ [Schema.podMetrics.name])).Nodup :=
      List.nodup_append_comm.mp htables
    rw [List.map_append]
    refine hnodup.sublist (List.Sublist.append ?_ snapshotWrites_tables)
    exact (Relation.writes_tables m.relations).cons_cons k.table.name

/-- The writes of a course bring rows of the object, under keys that hold those of the upsert. -/
theorem course_brings {keys : List (List String)} (hmap : k.map o = .ok m)
    (hkeys : v.keysOf m ⊆ keys) : ∀ w ∈ v.course k c o, w.Brings k keys o.id.entityId := by
  have hd := Kind.map_describes hmap
  have hm : m.keys ⊆ keys := fun key hkey => hkeys (List.mem_append_left _ hkey)
  intro w hw
  simp only [course, hmap] at hw
  rcases List.mem_append.mp hw with hw | hw
  · exact hd.plan_brings hm w hw
  · refine hd.snapshot_brings hm (snapshotWrites_snapshot hw) fun metrics hin us hread u hu => ?_
    have hview : v.usage m.objectId = some metrics := by
      obtain ⟨-, he⟩ := Sigma.mk.inj (List.mem_singleton.mp hin)
      exact (Except.ok.inj (eq_of_heq he)).symm
    rw [← hd.objectId] at hread ⊢
    refine hkeys (List.mem_append_right _ ?_)
    simp only [usageOf, hview, hread, Except.toOption, Option.getD_some]
    exact List.mem_map_of_mem hu

end ClusterView

/-! ## Syncs next to a cluster that does not change -/

/-- What a sync makes of a database that nobody else writes, next to a cluster that answers as in a
view where it does answer. -/
inductive Reconciler.Leads (v : ClusterView) (r : Reconciler) (n : Notification)
    (result : Except SyncError Reconciler) : Database → Database → Prop
  | run {σ : Type} {env : Surroundings σ} {db : σ → Database} {w w' : σ} {trace : List Exchange} :
    env.Keeps db (fun _ => True) → (r.sync n).Runs trace result → Script.Along env trace w w' →
    (∀ x ∈ trace, v.Tells x) → Leads v r n result (db w) (db w')

namespace Reconciler.Leads

variable {v : ClusterView} {r r' : Reconciler} {n : Notification} {o : ClusterObject}
  {result : Except SyncError Reconciler} {d d' : Database}

theorem seen (h : r.Leads v n result d d') (hn : n.object = some o) :
    ∃ ws, Changes (fun _ => True) ws d d' ∧ ws ⊆ v.course r.kind r.config o ∧
      ((∀ e, result = .error e → e.isRetryable = false) → ws = v.course r.kind r.config o) := by
  obtain @⟨_, _, _, _, _, trace, henv, hruns, halong, htells⟩ := h
  obtain ⟨upserted, hupsert, rfl⟩ := (Sync.sync_seen hn).mp hruns
  refine ⟨written trace, henv.changes halong, ?_⟩
  obtain ⟨hall, -⟩ | ⟨hbegun, e, rfl, hretry⟩ := Sync.upsert_settles _ _ _ hupsert htells
  · exact ⟨hall ▸ List.Subset.refl _, fun _ => hall⟩
  · refine ⟨hbegun.subset, fun hdone => ?_⟩
    rw [hdone e rfl] at hretry
    cases hretry

theorem seen_known (h : r.Leads v n (.ok r') d d') (hn : n.object = some o) :
    (∃ m, r.kind.map o = .ok m) ∧ r' = { r with known := r.known.insert o.id } := by
  obtain ⟨henv, hruns, halong, -⟩ := h
  obtain ⟨hknown, m, -, -, hmap, -⟩ :=
    Reconciler.seen_ok henv hn (Sync.runIn_iff.mpr ⟨_, hruns, halong⟩)
  exact ⟨⟨m, hmap⟩, hknown⟩

theorem deleted (h : r.Leads v n (.ok r') d d') (hn : n.object = none) :
    Changes (fun _ => True) (r.kind.removal n.id.entityId) d d' ∧
      r' = { r with known := r.known.erase n.id } := by
  obtain ⟨henv, hruns, halong, -⟩ := h
  have hrun := Sync.runIn_iff.mpr ⟨_, hruns, halong⟩
  exact ⟨Reconciler.deleted_ok henv hn hrun, Reconciler.deleted_known hn hrun⟩

end Reconciler.Leads

/-- What a made-up cluster says of objects. -/
def ScriptedCluster.view (c : ScriptedCluster) : ClusterView :=
  ⟨fun pod name => c.logTexts.lookup (pod, name), fun pod => c.usages.lookup pod⟩

/-- What a call does to the surroundings, it does to the store. -/
theorem World.answer_cluster {w w' : World} {x : Exchange}
    (h : World.answer x.1 w = (x.2, w')) : w'.cluster = w.cluster := by
  obtain ⟨q, a⟩ := x
  cases q <;> cases h <;> rfl

theorem World.along_cluster {w w' : World} {trace : List Exchange}
    (h : Script.Along World.answer trace w w') : w'.cluster = w.cluster := by
  induction trace generalizing w with
  | nil => exact congrArg World.cluster h.symm
  | cons x rest ih =>
    obtain ⟨mid, hx, hrest⟩ := h
    exact (ih hrest).trans (World.answer_cluster hx)

theorem World.runIn_cluster {α : Type} (x : Sync α) (w : World) :
    (x.runIn World.answer w).2.cluster = w.cluster := by
  obtain ⟨trace, -, halong⟩ := Sync.runIn_iff.mp (rfl : x.runIn World.answer w = _)
  exact World.along_cluster halong

/-- What a made-up cluster answers is what it says of objects. -/
theorem World.answer_tells {w w' : World} {x : Exchange}
    (h : World.answer x.1 w = (x.2, w')) : w.cluster.view.Tells x := by
  obtain ⟨q, a⟩ := x
  cases q with
  | write q => exact trivial
  | select t columns => exact trivial
  | logs pod name =>
    obtain ⟨hlogs, rfl⟩ := Prod.mk.inj h
    unfold ScriptedCluster.logs at hlogs
    split at hlogs <;> cases hlogs
    · exact trivial
    · exact rfl
  | usage pod =>
    obtain ⟨husage, rfl⟩ := Prod.mk.inj h
    unfold ScriptedCluster.usage at husage
    split at husage <;> cases husage
    · exact trivial
    · exact rfl

theorem World.tells {w w' : World} {trace : List Exchange}
    (h : Script.Along World.answer trace w w') : ∀ x ∈ trace, w.cluster.view.Tells x := by
  induction trace generalizing w with
  | nil => exact nofun
  | cons x rest ih =>
    obtain ⟨mid, hx, hrest⟩ := h
    intro y hy
    rcases List.mem_cons.mp hy with rfl | hy
    · exact World.answer_tells hx
    · exact World.answer_cluster hx ▸ ih hrest y hy

theorem World.leads {r : Reconciler} {n : Notification} {w w' : World}
    {result : Except SyncError Reconciler}
    (h : (r.sync n).runIn World.answer w = (result, w')) :
    r.Leads w.cluster.view n result w.store.database w'.store.database := by
  obtain ⟨trace, hruns, halong⟩ := Sync.runIn_iff.mp h
  exact Reconciler.Leads.run (w := w) World.keeps hruns halong (World.tells halong)

end KubeLedger
