import KubeLedger.Proofs.ColdStart
import KubeLedger.Proofs.KnownRows
import KubeLedger.Proofs.Passages

/- A reconciler that is scoped to a namespace. What it tries is about objects in its namespace: its
   feed holds no other notifications, a warm-up takes only rows in scope for known, and a listing
   makes deletions only of objects that are known or wait (`Reconciler.Confined`). What such a sync
   writes leaves the rows of all other namespaces alone (`Database.SameElsewhere`).

   There is one way in which rows of an object can be in the way of another. Containers have keys of
   their own, and a table may hold a row of a pod under a container of another one. A pod that comes
   to its container takes such a row over, so rows under containers of the namespace are left out
   (`Table.isApart`), and this is the only exception there is. -/
namespace KubeLedger

open Database

/-! ## Rows of other namespaces -/

section Elsewhere
variable (keys : List (List String)) (ns : String)

def keysIn : List (List String) := keys.filter fun key => key.head? == some ns

/-- Whether a row is kept under a container of a pod in a namespace. -/
def isKeptIn (row : Row) : Bool :=
  keys.any fun
    | [n, pod, name] => n == ns && (cellAt row 0).same (.id (.container n pod name))
    | _ => false

/-- Whether no row of an object in a namespace can have the key of a row. -/
def Table.isApart (t : Table) (column : String) (row : Row) : Bool :=
  t.key.contains column || !isKeptIn keys ns row

def Kind.isElsewhere (k : Kind) (row : Row) : Bool :=
  !(k.table.cell row "namespace").same (.text ns)

/-- Databases that agree on all other namespaces than one: on the primary rows, on the rows of each
object, and for pods on the telemetry of their containers. Left out is what is kept under containers
of pods in the namespace. -/
structure Database.SameElsewhere (k : Kind) (d d' : Database) : Prop where
  primary : (d'.rows k.table.name).filter (k.isElsewhere ns) =
    (d.rows k.table.name).filter (k.isElsewhere ns)
  objects : ∀ id : ObjectId, id.ns ≠ ns → [id.ns, id.name] ∈ keys →
    ∀ t column, (t, column) ∈ k.holdings →
      (d'.find t column (.id id.entityId)).filter (t.isApart keys ns column) =
        (d.find t column (.id id.entityId)).filter (t.isApart keys ns column)
  telemetry : k = .pod → ∀ id : ObjectId, id.ns ≠ ns → [id.ns, id.name] ∈ keys →
    ∀ row ∈ d.find Schema.container "pod_id" (.id id.entityId), isKeptIn keys ns row = false →
      (cellAt row 0).IsExact →
        d'.find Schema.containerMetric "container_id" (cellAt row 0) =
          d.find Schema.containerMetric "container_id" (cellAt row 0)

/-- A database that is left as another one was, but for one namespace. -/
structure Database.Confined (k : Kind) (d d₀ : Database) : Prop where
  sound : d.IsSound
  named : k.table.NamedRows keys (d.rows k.table.name)
  same : SameElsewhere keys ns k d₀ d

/-- A write for an object. What it brings to the primary table is a row of the object. -/
structure Write.IsFor (k : Kind) (id : ObjectId) (w : Write) : Prop where
  does : w.Brings k (keysIn keys ns) id.entityId ∨ w ∈ k.removal id.entityId
  names : w.table = k.table → ∀ row ∈ w.rows, k.table.Names row id

end Elsewhere

section Confinement
variable {keys : List (List String)} {ns : String} {k : Kind} {id : ObjectId} {d₀ d d' : Database}
  {w : Write} {t : Table} {column : String}

theorem isKeptIn_of_anchored {row new : Row} (hnew : Anchored (keysIn keys ns) new)
    (hcell : cellAt row 0 = cellAt new 0) : isKeptIn keys ns row = true := by
  obtain ⟨pod, name, hin, hid, -⟩ := hnew
  obtain ⟨hin, hhead⟩ := List.mem_filter.mp hin
  have hns : pod.ns = ns := by simpa using hhead
  refine List.any_eq_true.mpr ⟨_, hin, ?_⟩
  simp [← hns, Cell.same_id, hcell, hid]

theorem Table.Admits.isApart {e : EntityId} {row new : Row}
    (hnew : t.Admits (keysIn keys ns) column e new) (hmem : (t, column) ∈ k.holdings)
    (hfree : t.ownedBy column e row = false) (hapart : t.isApart keys ns column row = true) :
    t.sameKey row new = false := by
  by_contra hk
  rw [Bool.not_eq_false] at hk
  by_cases hkey : column ∈ t.key
  · rw [sameKey_owned hkey hnew.takes hnew.owned hk] at hfree
    cases hfree
  · -- the key is a container, and that of the new row is one of the namespace
    obtain ⟨hat, -⟩ := (k.holdings_key hmem).resolve_left hkey
    have hcell : cellAt row 0 = cellAt new 0 := hnew.takes.sameKey_iff.mp hk 0 (by simp [hat])
    have hkept := isKeptIn_of_anchored (hnew.anchored.resolve_left hkey) hcell
    simp [Table.isApart, hkey, hkept] at hapart

/-! ## One write -/

namespace Write.IsFor

theorem sane (hw : w.IsFor keys ns k id) : w.IsSane :=
  hw.does.elim (fun h => h.sane) Kind.removal_sane

/-- Rows of other objects that are apart stay as they are. -/
theorem filter_rows (hw : w.IsFor keys ns k id) (hd : d.IsSound) (hmem : (t, column) ∈ k.holdings)
    {p : Row → Bool} (hother : ∀ row, p row = true → t.ownedBy column id.entityId row = false)
    (hapart : ∀ row, p row = true → t.isApart keys ns column row = true) :
    ((d.apply w).rows t.name).filter p = (d.rows t.name).filter p := by
  rcases hw.does with hbrings | hremoval
  · exact hbrings.filter_rows hd hmem hother fun row _ hp new hnew =>
      hnew.isApart hmem (hother row hp) (hapart row hp)
  · exact Kind.removal_filter_rows hremoval hmem hother

theorem named (hw : w.IsFor keys ns k id) (hid : [id.ns, id.name] ∈ keys) (hd : d.IsSound)
    (hnamed : k.table.NamedRows keys (d.rows k.table.name)) :
    k.table.NamedRows keys ((d.apply w).rows k.table.name) := by
  refine ⟨(hd.apply hw.sane) _ k.table_mem, fun row hrow => ?_⟩
  rcases hd.mem_apply hw.sane k.table_mem hrow with hold | ⟨hname, hnew⟩
  · exact hnamed.named row hold
  · have hmem : w.table ∈ Schema.tables := hw.does.elim (fun h => h.table_mem) Kind.removal_mem
    exact ⟨id, hid, hw.names (Schema.eq_of_name k.table_mem hmem hname).symm row hnew⟩

theorem find_telemetry (hw : w.IsFor keys ns k id) (hd : d.IsSound) {row : Row}
    (hrow : row ∈ d.rows Schema.container.name) (hexact : (cellAt row 0).IsExact)
    (hfree : Schema.container.ownedBy "pod_id" id.entityId row = false) :
    (d.apply w).find Schema.containerMetric "container_id" (cellAt row 0) =
      d.find Schema.containerMetric "container_id" (cellAt row 0) := by
  have quiet : ∀ {w : Write}, w.table.name ≠ Schema.containerMetric.name →
      (d.apply w).find Schema.containerMetric "container_id" (cellAt row 0) =
        d.find Schema.containerMetric "container_id" (cellAt row 0) := by
    intro w hname
    unfold Database.find
    rw [rows_apply_ne d hname.symm]
  rcases hw.does with hbrings | hremoval
  · exact quiet hbrings.ne_telemetry
  · rcases Kind.removal_cases hremoval with ⟨t, column, hmem, rfl⟩ | ⟨-, rfl⟩
    · exact quiet (k.holdings_ne_telemetry hmem)
    · have hrows := rows_apply_self d (.delete (.through Schema.containerMetric "container_id"
        Schema.container "pod_id") id.entityId)
      refine Table.find_deleteRows hexact hrows fun hvia => ?_
      -- a container of the removed pod with this identity would be the same row
      obtain ⟨y, hy, hcell⟩ := mem_keysVia.mp hvia
      rw [Table.find_id] at hy
      obtain ⟨hy, howned⟩ := List.mem_filter.mp hy
      obtain rfl := hd.container_unique hexact hrow hy rfl hcell
      rw [hfree] at howned
      cases howned

end Write.IsFor

namespace Database.Confined

theorem start (hsound : d.IsSound) (hnamed : k.table.NamedRows keys (d.rows k.table.name)) :
    d.Confined keys ns k d where
  sound := hsound
  named := hnamed
  same := ⟨rfl, fun _ _ _ _ _ _ => rfl, fun _ _ _ _ _ _ _ _ => rfl⟩

/-- Nothing of this is about the database but its rows. -/
theorem sameOn (hs : SameOn (fun _ => True) d d') (h : d.Confined keys ns k d₀) :
    d'.Confined keys ns k d₀ := by
  have hrows : d'.rows = d.rows := funext fun n => hs n trivial
  have hfind := hs.find_eq
  obtain ⟨hsound, hnamed, hprimary, hobjects, htelemetry⟩ := h
  refine ⟨hsound.sameOn (fun _ => trivial) hs, ?_, ?_, ?_, ?_⟩
  · simpa only [hrows] using hnamed
  · simpa only [hrows] using hprimary
  · simpa only [hfind] using hobjects
  · simpa only [hfind] using htelemetry

/-- Rows of other namespaces are not of an object in this one. -/
theorem isElsewhere_free (hkeys : Distinct keys) (hns : id.ns = ns) (hid : [id.ns, id.name] ∈ keys)
    {rows : List Row} (hnamed : k.table.NamedRows keys rows) {row : Row} (hrow : row ∈ rows)
    (helsewhere : k.isElsewhere ns row = true) :
    k.table.ownedBy "id" id.entityId row = false := by
  obtain ⟨id', -, hnames⟩ := hnamed.named row hrow
  refine hnamed.row_apart hkeys hid hrow hnames ?_
  rintro rfl
  simp [Kind.isElsewhere, hnames.ns, hns, Cell.same] at helsewhere

/-- A write for an object in the namespace keeps all others as they are. -/
theorem apply (hkeys : Distinct keys) (hns : id.ns = ns) (hid : [id.ns, id.name] ∈ keys)
    (hw : w.IsFor keys ns k id) (h : d.Confined keys ns k d₀) :
    (d.apply w).Confined keys ns k d₀ := by
  have hnamed := hw.named hid h.sound h.named
  have hothers : ∀ {t : Table} {column : String} {q : ObjectId}, q.ns ≠ ns →
      [q.ns, q.name] ∈ keys → ∀ row, t.ownedBy column q.entityId row = true →
        t.ownedBy column id.entityId row = false := by
    intro t column q hq hqid row howned
    refine Table.ownedBy_unique howned fun he => hq ?_
    rw [hkeys.object_inj hqid hid he, hns]
  refine ⟨h.sound.apply hw.sane, hnamed, ?_, fun q hq hqid t column hmem => ?_,
    fun hpod q hq hqid row hrow hkept hexact => ?_⟩
  · -- primary rows of other namespaces are rows of other objects, before and after
    have hsplit : ∀ {rows : List Row}, k.table.NamedRows keys rows →
        rows.filter (k.isElsewhere ns) = rows.filter fun row =>
          k.isElsewhere ns row && !k.table.ownedBy "id" id.entityId row := by
      intro rows hrows
      refine List.filter_congr fun row hrow => ?_
      cases hrow' : k.isElsewhere ns row with
      | false => rfl
      | true => simp [isElsewhere_free hkeys hns hid hrows hrow hrow']
    rw [← h.same.primary, hsplit hnamed, hsplit h.named]
    refine hw.filter_rows h.sound k.primary_mem.1 (fun row hp => ?_) fun row _ => ?_
    · simpa using (Bool.and_eq_true_iff.mp hp).2
    · simp [Table.isApart, k.primary_mem.2]
  · rw [← h.same.objects q hq hqid t column hmem]
    simp only [Table.find_id, List.filter_filter]
    refine hw.filter_rows h.sound hmem (fun row hp => ?_) fun row hp => ?_
    · exact hothers hq hqid row (Bool.and_eq_true_iff.mp hp).2
    · exact (Bool.and_eq_true_iff.mp hp).1
  · rw [← h.same.telemetry hpod q hq hqid row hrow hkept hexact]
    subst hpod
    have hapart : Schema.container.isApart keys ns "pod_id" row = true := by
      simp [Table.isApart, hkept]
    -- the container is still there
    have hstill := h.same.objects q hq hqid _ _ Kind.containers_held
    have hin := hstill.symm ▸ List.mem_filter.mpr ⟨hrow, hapart⟩
    have hfound := (List.mem_filter.mp hin).1
    rw [Table.find_id] at hfound
    obtain ⟨hfound, howned⟩ := List.mem_filter.mp hfound
    exact hw.find_telemetry h.sound hfound hexact (hothers hq hqid row howned)

theorem changes (hkeys : Distinct keys) (hns : id.ns = ns) (hid : [id.ns, id.name] ∈ keys)
    {ws : List Write} (hws : ∀ w ∈ ws, w.IsFor keys ns k id) (h : d.Confined keys ns k d₀)
    (hrun : Changes (fun _ => True) ws d d') : d'.Confined keys ns k d₀ :=
  hrun.preserves (P := fun d => d.Confined keys ns k d₀) (fun hs hd => hd.sameOn hs)
    (fun w hw {_} hd => hd.apply hkeys hns hid (hws w hw)) h

end Database.Confined

/-! ## Syncs -/

/-- A notification of an object in a namespace, which comes with its containers under keys in
play. -/
structure Notification.IsLocal (keys : List (List String)) (ns : String) (k : Kind)
    (n : Notification) : Prop extends n.IsPlain where
  scope : n.id.ns = ns
  within : [n.id.ns, n.id.name] ∈ keys
  containers : n.keys k ⊆ keys

/-- The usage that is reported for objects in a namespace names containers under keys in play. -/
def Surroundings.ReportsIn {σ : Type} (env : Surroundings σ) (keys : List (List String))
    (ns : String) : Prop :=
  ∀ (id : ObjectId) (metrics : ClusterObject), id.ns = ns → env.Reports (fun _ => True) id metrics →
    ∀ us, ContainerUsage.ofMetrics id metrics = .ok us →
      ∀ u ∈ us, [id.ns, id.name, u.containerName] ∈ keys

section Syncs
variable {σ : Type} {env : Surroundings σ} {db : σ → Database} {r : Reconciler} {n : Notification}
  {trace : List Exchange} {s s' : σ} {result : Except SyncError Reconciler}

theorem Notification.deleted_isLocal (hkeys : Distinct keys) (hns : id.ns = ns)
    (hid : [id.ns, id.name] ∈ keys) : (deleted id).IsLocal keys ns k := by
  have hplain := hkeys.plain _ hid
  have hdeleted : id.IsPlain := ⟨hplain id.ns (by simp), hplain id.name (by simp)⟩
  have heq := deleted_id hdeleted
  exact { deleted_isPlain hdeleted with
    scope := heq.symm ▸ hns
    within := heq.symm ▸ hid
    containers := fun _ h => nomatch h }

theorem Mapped.Describes.keys_in {m : Mapped} {o : ClusterObject} (hd : m.Describes k o)
    (hns : o.id.ns = ns) (hkeys : m.keys ⊆ keys) : m.keys ⊆ keysIn keys ns := by
  intro key hkey
  refine List.mem_filter.mpr ⟨hkeys hkey, ?_⟩
  have hns : m.objectId.ns = ns := by rw [hd.objectId, hns]
  rcases List.mem_cons.mp hkey with rfl | hkey
  · simp [hns]
  · obtain ⟨t, -, rfl⟩ := List.mem_map.mp hkey
    simp [hns]

theorem Mapped.Describes.plan_isFor {m : Mapped} {o : ClusterObject} (hd : m.Describes k o)
    (hkeys : m.keys ⊆ keysIn keys ns) (hw : w ∈ m.plan k) : w.IsFor keys ns k o.id where
  does := .inl (hd.plan_brings hkeys w hw)
  names htable row hrow := by
    rcases List.mem_cons.mp hw with rfl | hw
    · rw [List.mem_singleton.mp hrow]
      exact hd.row_names
    · exact absurd (congrArg Table.name htable) (hd.relations_ne_primary w hw)

theorem Mapped.Describes.snapshot_isFor {m : Mapped} {o : ClusterObject} (hd : m.Describes k o)
    (hns : o.id.ns = ns) (hkeys : m.keys ⊆ keysIn keys ns) (hreports : env.ReportsIn keys ns)
    (halong : Script.Along env trace s s') (hw : Sync.IsSnapshot m trace w) :
    w.IsFor keys ns k o.id where
  does := by
    refine .inl (hd.snapshot_brings hkeys hw fun metrics hin us hread u hu => ?_)
    obtain ⟨t, t', hcall⟩ := halong.answered hin
    rw [hd.objectId] at hcall
    have hreported := hreports o.id metrics hns ⟨t, t', trivial, hcall⟩ us hread u hu
    exact List.mem_filter.mpr ⟨hreported, by simp [hns]⟩
  names htable := absurd (congrArg Table.name htable) (hd.snapshot_ne_primary hw)

theorem Reconciler.sync_isFor (hn : n.IsLocal keys ns r.kind) (hreports : env.ReportsIn keys ns)
    (hruns : (r.sync n).Runs trace result) (halong : Script.Along env trace s s') :
    ∀ w ∈ asked trace, w.IsFor keys ns r.kind n.id := by
  intro w hw
  cases hobject : n.object with
  | none =>
    obtain ⟨r', hdelete, -⟩ := (Sync.sync_deleted hobject).mp hruns
    have hremoval := (Sync.delete_follows r.kind n.id hdelete).1 hw
    refine ⟨.inr hremoval, fun _ row hrow => ?_⟩
    obtain ⟨step, -, rfl⟩ := List.mem_map.mp hremoval
    cases hrow
  | some o =>
    obtain ⟨r', hupsert, -⟩ := (Sync.sync_seen hobject).mp hruns
    have ho := hn.object o hobject
    have hns : o.id.ns = ns := ho ▸ hn.scope
    obtain ⟨m, hmap, hw⟩ := Sync.upsert_asked hupsert hw
    have hd := Kind.map_describes hmap
    have hkeys := hd.keys_in hns fun key hkey =>
      hn.containers (Notification.keys_seen hobject hmap ▸ hkey)
    rw [← ho]
    rcases hw with hplan | hsnapshot
    · exact hd.plan_isFor hkeys hplan
    · exact hd.snapshot_isFor hns hkeys hreports halong hsnapshot

end Syncs

/-! ## Deliveries -/

/-- A reconciler that is scoped to a namespace and knows objects there, next to a database that is
left as another one was but for this namespace. -/
structure Reconciler.Confined (keys : List (List String)) (ns : String) (k : Kind) (d₀ : Database)
    (r : Reconciler) (d : Database) : Prop where
  kind : r.kind = k
  grouped : r.known.Grouped
  known : ∀ id, r.known.contains id = true → id.ns = ns ∧ [id.ns, id.name] ∈ keys
  stored : d.Confined keys ns k d₀

section Deliveries
variable {σ : Type} {env : Surroundings σ} {db : σ → Database} {r : Reconciler} {n : Notification}
  {s s' : σ} {result : Except SyncError Reconciler}

namespace Reconciler.Confined

/-- At any point of a sync, what has been written keeps all other namespaces as they are. -/
theorem within (hkeys : Distinct keys) (henv : env.Keeps db fun _ => True)
    (hreports : env.ReportsIn keys ns) (h : r.Confined keys ns k d₀ (db s))
    (hn : n.IsLocal keys ns k) {before after : List Exchange} {last : σ}
    (hruns : (r.sync n).Runs (before ++ after) result) (hbefore : Script.Along env before s s')
    (hafter : Script.Along env after s' last) : (db s').Confined keys ns k d₀ := by
  obtain rfl := h.kind
  have hws := sync_isFor hn hreports hruns (Script.along_append.mpr ⟨s', hbefore, hafter⟩)
  refine h.stored.changes hkeys hn.scope hn.within (fun w hw => hws w ?_) (henv.changes hbefore)
  rw [asked_append]
  exact List.mem_append_left _ (written_subset_asked before hw)

theorem sync (hkeys : Distinct keys) (henv : env.Keeps db fun _ => True)
    (hreports : env.ReportsIn keys ns) (h : r.Confined keys ns k d₀ (db s))
    (hn : n.IsLocal keys ns k) (hrun : (r.sync n).runIn env s = (result, s')) :
    (result.toOption.getD r).Confined keys ns k d₀ (db s') := by
  obtain ⟨trace, hruns, halong⟩ := Sync.runIn_iff.mp hrun
  rw [← List.append_nil trace] at hruns
  have hstored := h.within hkeys henv hreports hn hruns halong rfl
  cases result with
  | error e => exact ⟨h.kind, h.grouped, h.known, hstored⟩
  | ok r' =>
    rcases sync_known (congrArg Prod.fst hrun) with ⟨o, hobject, rfl⟩ | rfl
    · refine ⟨h.kind, h.grouped.insert o.id, fun id hid => ?_, hstored⟩
      obtain rfl | hid := (IdSet.contains_insert _ _ _).mp hid
      · rw [hn.object o hobject]
        exact ⟨hn.scope, hn.within⟩
      · exact h.known id hid
    · refine ⟨h.kind, h.grouped.erase n.id, fun id hid => ?_, hstored⟩
      exact h.known id ((IdSet.contains_erase h.grouped _ _).mp hid).2

/-- It is an invariant of deliveries: a listing calls for deletions of known objects only. -/
theorem invariant (hkeys : Distinct keys) (henv : env.Keeps db fun _ => True)
    (hreports : env.ReportsIn keys ns) :
    Delivery.Invariant env db (fun _ => True) (Notification.IsLocal keys ns k)
      (Reconciler.Confined keys ns k d₀) where
  drift hsame h := { h with stored := h.stored.sameOn hsame }
  stale ids h n hn := by
    obtain ⟨id, hid, -, rfl⟩ := Delivery.mem_stale.mp hn
    obtain ⟨hns, hkey⟩ := h.known id ((IdSet.mem_difference h.grouped).mp hid).1
    exact Notification.deleted_isLocal hkeys hns hkey
  lost hn := Notification.deleted_isLocal hkeys hn.scope hn.within
  sync h hn hrun := h.sync hkeys henv hreports hn hrun

/-- A warm-up takes only objects in scope for known, and leaves the store alone. -/
theorem warmUp (henv : env.Keeps db fun _ => True) {c : ReconcilerConfig} (hc : c.ns = some ns)
    (hsound : (db s).IsSound) (hnamed : k.table.NamedRows keys ((db s).rows k.table.name))
    (hrun : (Reconciler.warmUp ⟨k, c, .empty⟩).runIn env s = (result, s')) :
    (result.toOption.getD ⟨k, c, .empty⟩).Confined keys ns k (db s) (db s') := by
  have hstart : (db s).Confined keys ns k (db s) := .start hsound hnamed
  have hstored := hstart.sameOn (warmUp_same henv hrun)
  cases result with
  | error e => exact ⟨rfl, IdSet.grouped_empty, nofun, hstored⟩
  | ok r =>
    obtain ⟨-, hkind, -, hgrouped, hknown⟩ := Reconciler.warmUp_known henv trivial hrun
    refine ⟨hkind, hgrouped, fun id hid => ?_, hstored⟩
    obtain ⟨hscope, row, hrow, hns, hname⟩ := (hknown id).mp hid
    obtain ⟨id', hid', hnames⟩ := hnamed.named row hrow
    obtain rfl := hnames.of_texts hns hname
    have hin : (ns == id'.ns) = true := by simpa only [Reconciler.inScope, hc] using hscope
    exact ⟨(eq_of_beq hin).symm, hid'⟩

end Reconciler.Confined

end Deliveries

end Confinement

/-- A reconciler that is scoped to a namespace leaves all others alone. It warms up, successfully or
not, and takes any feed whose notifications are about objects in its namespace, with any listings,
next to any surroundings. At every moment, also between the calls of a sync, the primary rows of
other namespaces, the rows of their objects, and the telemetry of their containers are what they
were at first, but for what is kept under containers of pods in the namespace. -/
theorem namespaces_apart {keys : List (List String)} (hkeys : Distinct keys) {σ : Type}
    {env : Surroundings σ} {db : σ → Database} (henv : env.Keeps db fun _ => True) {ns : String}
    (hreports : env.ReportsIn keys ns) {k : Kind} {c : ReconcilerConfig} (hc : c.ns = some ns)
    {w₀ w₁ s : σ} (hsound : (db w₀).IsSound)
    (hnamed : k.table.NamedRows keys ((db w₀).rows k.table.name))
    {warmed : Except SyncError Reconciler}
    (hwarm : (Reconciler.warmUp ⟨k, c, .empty⟩).runIn env w₀ = (warmed, w₁))
    (hsees : Delivery.Sees env db (fun _ => True) (Notification.IsLocal keys ns k)
      ⟨warmed.toOption.getD ⟨k, c, .empty⟩, []⟩ w₁ s) :
    (db w₀).SameElsewhere keys ns k (db s) := by
  have hstart := Reconciler.Confined.warmUp henv hc hsound hnamed hwarm
  have hconfined := hsees.holds (P := fun d => d.Confined keys ns k (db w₀))
    (Reconciler.Confined.invariant hkeys henv hreports) hstart
    (fun _ hr => absurd hr List.not_mem_nil) (fun h => h.stored)
    fun h hn hruns hbefore hafter =>
      h.within hkeys henv hreports hn hruns hbefore hafter
  exact hconfined.same

theorem barePod_isLocal {keys : List (List String)} {ns name : String} {containers : List String}
    (hplain : (ObjectId.mk ns name).IsPlain)
    (hkeys : [ns, name] :: containers.map (fun c => [ns, name, c]) ⊆ keys) :
    (Notification.seen (barePod ns name containers)).IsLocal keys ns .pod := by
  obtain ⟨m, hmap, hin, -⟩ := barePod_map ns name containers
  have hid : (Notification.seen (barePod ns name containers)).id = ⟨ns, name⟩ :=
    ObjectId.ofKey_key hplain
  exact { Notification.seen_isPlain (o := barePod ns name containers) hplain with
    scope := by rw [hid]
    within := by
      rw [hid]
      exact hkeys List.mem_cons_self
    containers := by
      rw [Notification.keys_seen rfl hmap, hin]
      exact hkeys }

/-- It applies to a store with a pod that is not there any more and one in another namespace, each
with a container. -/
theorem namespaces_apart_replaced :
    let keys := [["default", "web-1"], ["default", "web-1", "nginx"], ["default", "old-1"],
      ["default", "old-1", "main"], ["other", "web-9"], ["other", "web-9", "main"]]
    let old : ObjectId := ⟨"default", "old-1"⟩
    let before := storeOf [old, ⟨"other", "web-9"⟩]
      [(.container "default" "old-1" "main", old),
        (.container "other" "web-9" "main", ⟨"other", "web-9"⟩)]
    let new := barePod "default" "web-1" ["nginx"]
    ∃ r m, (Reconciler.warmUp ⟨.pod, { ns := some "default" }, .empty⟩).runIn (Memory.beside {})
        { database := before } = (.ok r, m) ∧
      let (d, m) :=
        Delivery.receive (Memory.beside {}) ⟨0, id⟩ (.notification (.seen new)) ⟨r, []⟩ m
      let (_, m) := d.receive (Memory.beside {}) ⟨1, id⟩ (.listed .empty) m
      m.database.find Schema.pod "id" (.id old.entityId) = [] ∧
        before.SameElsewhere keys "default" .pod m.database := by
  intro keys old before new
  have hkeys : Distinct keys := ⟨by decide, by decide, by decide +kernel⟩
  have hsound : before.IsSound := storeOf_sound (by decide +kernel) (by decide +kernel)
  have hcoherent : before.Coherent .pod keys :=
    storeOf_coherent (by decide) (by decide +kernel) (by decide +kernel) (by decide +kernel)
  have hnamed : Kind.pod.table.NamedRows keys (before.rows Kind.pod.table.name) :=
    ⟨hsound _ Kind.pod.table_mem, hcoherent.primary⟩
  have hreports : Surroundings.ReportsIn (Memory.beside {}) keys "default" := by
    rintro id metrics - ⟨m, m', -, hcall⟩
    cases hcall
  let start : Memory := { database := before }
  have hstart : start.database.IsSound := hsound
  obtain ⟨r, m, hwarm⟩ : ∃ r m, (Reconciler.warmUp ⟨.pod, { ns := some "default" }, .empty⟩).runIn
      (Memory.beside {}) start = (.ok r, m) := ⟨_, _, rfl⟩
  have hseen : ∀ n, FeedEvent.notification (.seen new) = .notification n →
      n.IsLocal keys "default" .pod := by
    intro n hn
    cases hn
    exact barePod_isLocal (by decide) (by decide)
  have hfirst : Delivery.Passes (Memory.beside {}) (fun m => m.database) (fun _ => True)
    (Notification.IsLocal keys "default" .pod) ⟨r, []⟩ m .head ⟨r, []⟩ m := .start
  have hruns := (hfirst.receive ⟨0, id⟩ hseen).receive ⟨1, id⟩ (e := .listed .empty) nofun
  refine ⟨r, m, hwarm, ?_, namespaces_apart hkeys (Memory.keeps {}) hreports rfl hstart hnamed hwarm
    (.between hruns)⟩
  cases hwarm
  decide +kernel

/-- The exception is there. A row of a pod in another namespace that is kept under a container of a
pod in the namespace goes to that pod when it is upserted. -/
theorem container_taken_over :
    let keys := [["default", "web-1"], ["default", "web-1", "nginx"], ["other", "web-9"]]
    let other : ObjectId := ⟨"other", "web-9"⟩
    let before := storeOf [other] [(.container "default" "web-1" "nginx", other)]
    let new := barePod "default" "web-1" ["nginx"]
    Distinct keys ∧ before.IsSound ∧
      Kind.pod.table.NamedRows keys (before.rows Kind.pod.table.name) ∧
      (Notification.seen new).IsLocal keys "default" .pod ∧
      ∃ r m, (Reconciler.warmUp ⟨.pod, { ns := some "default" }, .empty⟩).runIn (Memory.beside {})
          { database := before } = (.ok r, m) ∧
        let (_, m) :=
          Delivery.receive (Memory.beside {}) ⟨0, id⟩ (.notification (.seen new)) ⟨r, []⟩ m
        before.find Schema.container "pod_id" (.id other.entityId) ≠ [] ∧
          m.database.find Schema.container "pod_id" (.id other.entityId) = [] := by
  intro keys other before new
  have hsound : before.IsSound := storeOf_sound (by decide +kernel) (by decide +kernel)
  have hcoherent : before.Coherent .pod keys :=
    storeOf_coherent (by decide) (by decide +kernel) (by decide +kernel) (by decide +kernel)
  have hnamed : Kind.pod.table.NamedRows keys (before.rows Kind.pod.table.name) :=
    ⟨hsound _ Kind.pod.table_mem, hcoherent.primary⟩
  exact ⟨⟨by decide, by decide, by decide +kernel⟩, hsound, hnamed,
    barePod_isLocal (by decide) (by decide), _, _, rfl, by decide +kernel, by decide +kernel⟩

end KubeLedger
