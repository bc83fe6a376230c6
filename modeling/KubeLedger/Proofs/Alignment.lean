import KubeLedger.Proofs.Identities
import KubeLedger.Proofs.Integrity
import KubeLedger.Proofs.Refinement
import KubeLedger.Proofs.Service
import KubeLedger.Proofs.Transactions

/- How rows, tables and cascades fit each other. Columns are listed in one place, rows are built in
   another, and which column a table is replaced and cleared by is said in a third; nothing but
   their order holds them together. `Mapped.Aligned` says that for whatever object can be mapped
   they agree, position by position, and that all that is said about a container goes by one
   identity. So no store ever refuses a write of a sync for its shape (`Write.Shaped`), and what a
   sync writes about an object, apart from its own row and the label dictionary, is found again by
   the cascade of its kind (`Kind.Clears`). -/
namespace KubeLedger

open Database

/-! ## Shapes -/

/-- A write that no store refuses for its shape: each row is as wide as the table, and so neither a
store in memory nor one on a server, whatever the server replies, finds fault with it. -/
structure Write.Shaped (w : Write) : Prop where
  checked : checkShape w.table w.rows = .ok ()
  memory : ∀ (m : Memory) (table : String) (expected actual : Nat),
    (m.write w).1 ≠ .error (.shape table expected actual)
  server : ∀ (trace : List Server.Exchange) (table : String) (expected actual : Nat),
    ¬(Server.write w).Runs trace (.error (.shape table expected actual))

section Shapes
variable {w : Write} {e : StoreError} {trace : List Server.Exchange}

theorem Server.Reply.error_of_affected {r : Server.Reply} (h : r.affected? = .error e) :
    ∃ words, e = .database words := by
  obtain ⟨words, rfl⟩ | ⟨n, -, haffected⟩ := r.affected?_cases
  · exact ⟨words, (Except.error.inj h).symm⟩
  · rw [haffected] at h
    cases h

theorem Server.write_error (hshape : checkShape w.table w.rows = .ok ())
    (h : (Server.write w).Runs trace (.error e)) : ∃ words, e = .database words := by
  have counted : ∀ {x : Server.Session (Except StoreError Nat)},
      (∀ {trace e}, x.Runs trace (.error e) → ∃ words, e = .database words) →
      (x.bind fun r => .done (r.map fun _ => ())).Runs trace (.error e) →
        ∃ words, e = .database words := by
    intro x hx hbind
    obtain ⟨a, before, after, -, hrun, hdone⟩ := Script.runs_bind.mp hbind
    cases a with
    | error e' =>
      cases (Script.runs_done.mp hdone).2
      exact hx hrun
    | ok n => cases (Script.runs_done.mp hdone).2
  cases w with
  | upsert u rows =>
    refine counted (fun {trace e} hrun => ?_) h
    unfold Server.upsert at hrun
    rw [show checkShape u.table rows = .ok () from hshape] at hrun
    split at hrun
    · cases (Script.runs_done.mp hrun).2
    · obtain ⟨r, rest, -, hdone⟩ := Script.runs_ask.mp hrun
      exact Server.Reply.error_of_affected (Script.runs_done.mp hdone).2.symm
  | replace t foreignKey owner rows =>
    have hrun : (Server.replace t foreignKey owner rows).Runs trace (.error e) := h
    rw [Server.replace_eq, show checkShape t rows = .ok () from hshape] at hrun
    obtain ⟨first, rest, -, hafter⟩ := Script.runs_ask.mp hrun
    cases hfirst : first.affected? with
    | error e' =>
      rw [hfirst] at hafter
      cases (Script.runs_done.mp hafter).2
      exact Server.Reply.error_of_affected hfirst
    | ok n =>
      rw [hfirst] at hafter
      rcases Server.inOrder_runs hafter with ⟨hok, -⟩ | ⟨_, _, _, words, _, -, -, -, herror⟩
      · cases hok
      · exact ⟨words, Except.error.inj herror⟩
  | delete step owner =>
    refine counted (fun {trace e} hrun => ?_) h
    obtain ⟨r, rest, -, hdone⟩ := Script.runs_ask.mp hrun
    exact Server.Reply.error_of_affected (Script.runs_done.mp hdone).2.symm

theorem Write.shaped_of_fits (h : ∀ row ∈ w.rows, w.table.Fits row) : w.Shaped := by
  have hshape : checkShape w.table w.rows = .ok () := checkShape_ok_iff.mpr h
  refine ⟨hshape, fun m table expected actual hrefused => ?_,
    fun trace table expected actual hrun => ?_⟩
  · simp only [Memory.write, Memory.refusal?, hshape] at hrefused
    split at hrefused
    · next e hinjected =>
      split at hinjected <;> cases hinjected
      cases hrefused
    · cases hrefused
  · obtain ⟨words, hwords⟩ := Server.write_error hshape hrun
    cases hwords

end Shapes

/-! ## What a cascade finds -/

/-- The cascade of a kind clears a table by a column, and rows hold their owner there. -/
structure Kind.Clears (k : Kind) (t : Table) (column : String) (e : EntityId) (rows : List Row) :
    Prop where
  column_mem : column ∈ t.columns
  step_mem : Cascade.direct t column ∈ k.cascade
  owned : ∀ row ∈ rows, t.cell row column = .id e

section Clears
variable {k : Kind} {t : Table} {column : String} {e : EntityId} {rows : List Row} {w : Write}

theorem Kind.clears_of_mem (hmem : (t, column) ∈ k.sets ++ k.snapshots)
    (howned : ∀ row ∈ rows, t.ownedBy column e row = true) : k.Clears t column e rows := by
  have hall : ∀ s ∈ k.sets ++ k.snapshots, s.2 ∈ s.1.columns ∧ .direct s.1 s.2 ∈ k.cascade := by
    cases k <;> decide
  obtain ⟨hcolumn, hstep⟩ := hall _ hmem
  exact ⟨hcolumn, hstep, fun row hrow => Table.ownedBy_iff.mp (howned row hrow)⟩

theorem Write.Adds.cleared (h : w.Adds k e) : w.table = k.table ∨ w.table = Schema.label ∨
    ∃ column, k.Clears w.table column e w.rows := by
  cases h with
  | object => exact .inl rfl
  | entries => exact .inr (.inl rfl)
  | set hmem hrows =>
    exact .inr (.inr ⟨_, Kind.clears_of_mem (List.mem_append_left _ hmem)
      fun row hrow => (hrows row hrow).2⟩)
  | snapshot hmem hrows =>
    exact .inr (.inr ⟨_, Kind.clears_of_mem (List.mem_append_right _ hmem)
      fun row hrow => (hrows row hrow).2⟩)

end Clears

/-! ## One object -/

/-- What is said about a container of an object: by which name and which identity. -/
inductive Mapped.Mentions (m : Mapped) : Cell → Cell → Prop
  | row {r : Relation} {row : Row} : r ∈ m.relations → r.table = Schema.container → row ∈ r.rows →
    Mentions m (Schema.container.cell row "name") (Schema.container.cell row "id")
  | target {t : SnapshotTarget} : t ∈ m.targets → Mentions m (.text t.name) (.id t.id)
  | logs {t : SnapshotTarget} {row : Row} (text : String) : t ∈ m.targets →
    row = ContainerLog.row ⟨t.id, m.objectId, t.name, text⟩ →
    Mentions m (Schema.containerLogs.cell row "container_name")
      (Schema.containerLogs.cell row "container_id")
  | usage {metrics : ClusterObject} {us : List ContainerUsage} {u : ContainerUsage} :
    ContainerUsage.ofMetrics m.objectId metrics = .ok us → u ∈ us →
    Mentions m (Schema.podMetrics.cell u.row "container_name")
      (Schema.podMetrics.cell u.row "container_id")

/-- The rows of an object fit their tables, and each other. -/
structure Mapped.Aligned (m : Mapped) (k : Kind) (o : ClusterObject) : Prop where
  row : k.table.Fits m.row
  related : ∀ r ∈ m.relations, ∀ row ∈ r.rows, r.table.Fits row
  replaced : ∀ r ∈ m.relations, r.discipline = .replaceSet →
    r.owner = o.id.entityId ∧ k.Clears r.table r.foreignKey o.id.entityId r.rows
  logs : ∀ t ∈ m.targets, ∀ text : String,
    Schema.containerLogs.Fits (ContainerLog.row ⟨t.id, m.objectId, t.name, text⟩) ∧
      k.Clears Schema.containerLogs "pod_id" o.id.entityId
        [ContainerLog.row ⟨t.id, m.objectId, t.name, text⟩]
  usage : ∀ metrics us, ContainerUsage.ofMetrics m.objectId metrics = .ok us →
    (∀ u ∈ us, Schema.podMetrics.Fits u.row) ∧
      (k = .pod → k.Clears Schema.podMetrics "pod_id" o.id.entityId (us.map ContainerUsage.row))
  /-- Entry by entry, the labels of the object are those that it brings to the dictionary. -/
  labels : ∃ entries assigned, m.relations.filter (fun r => r.table = Schema.label) = [entries] ∧
    m.relations.filter (fun r => r.table = k.labels) = [assigned] ∧
    assigned.rows.map (fun row => k.labels.cell row "label_id") =
      entries.rows.map fun row => Schema.label.cell row "id"
  containers : ∀ name id id', m.Mentions name id → m.Mentions name id' → id = id'

section Objects
variable {k : Kind} {o : ClusterObject} {m : Mapped} {r : Relation} {row : Row}

theorem Mapped.mem_replaced : r ∈ m.replaced ↔ r ∈ m.relations ∧ r.discipline = .replaceSet := by
  simp [Mapped.replaced]

theorem Mapped.Describes.kind_of_container (hd : m.Describes k o) (hr : r ∈ m.relations)
    (htable : r.table = Schema.container) : k = .pod := by
  have hdisc : r.discipline = .replaceSet := by
    cases hdisc : r.discipline with
    | replaceSet => rfl
    | insertIfAbsent =>
      have hlabel := (hd.dictionary r hr hdisc).1
      exact absurd (htable.symm.trans hlabel) (by decide)
  have hmem := hd.mem_replaced (Mapped.mem_replaced.mpr ⟨hr, hdisc⟩)
  have hall : ∀ k : Kind, ∀ s ∈ k.sets, s.1 = Schema.container → k = .pod := by
    intro k
    cases k <;> decide
  exact hall k _ hmem htable

/-- Whatever is said about a container of a name goes by the identity under that name. -/
theorem Mapped.Describes.mentions (hd : m.Describes k o) (hmap : k.map o = .ok m) {name id : Cell}
    (h : m.Mentions name id) :
    ∃ c : String, name = .text c ∧ id = .id (.container o.id.ns o.id.name c) := by
  cases h with
  | row hr htable hrow =>
    obtain rfl := hd.kind_of_container hr htable
    obtain ⟨c, -, hid, hname⟩ := Kind.container_rows hmap hr htable hrow
    exact ⟨c, hname, hid⟩
  | target ht => exact ⟨_, rfl, congrArg Cell.id (hd.targets _ ht)⟩
  | @logs t _ text ht hrow =>
    subst hrow
    exact ⟨t.name, rfl, congrArg Cell.id (hd.targets t ht)⟩
  | @usage metrics us u hread hu =>
    have hid := (ContainerUsage.ids_of_ok hread u hu).1
    rw [hd.objectId] at hid
    exact ⟨u.containerName, rfl, congrArg Cell.id hid⟩

/-- The dictionary and the labels of the object are one relation each, made of the same labels. -/
theorem Kind.map_labels_only (hmap : k.map o = .ok m) :
    ∃ entries assigned, m.relations.filter (fun r => r.table = Schema.label) = [entries] ∧
      m.relations.filter (fun r => r.table = k.labels) = [assigned] ∧
      assigned.rows.map (fun row => k.labels.cell row "label_id") =
        entries.rows.map fun row => Schema.label.cell row "id" := by
  have hcells : ∀ (labels : List Label) (e : EntityId),
      (labels.map (Label.ownedRow e)).map (fun row => k.labels.cell row "label_id") =
        (labels.map Label.row).map fun row => Schema.label.cell row "id" := by
    intro labels e
    have hcolumn : k.labels.indexOf? "label_id" = some 1 := by cases k <;> decide
    simp only [List.map_map, List.map_inj_left]
    intro l hl
    simp only [Function.comp_apply, Table.cell_of_indexOf hcolumn,
      Table.cell_of_indexOf Schema.label_id]
    rfl
  cases k with
  | pod =>
    cases hp : Pod.ofObject o with
    | error e => simp [Kind.map, hp, Except.map] at hmap
    | ok p =>
      simp only [Kind.map, hp, Except.map, Except.ok.injEq] at hmap
      subst hmap
      exact ⟨_, _, rfl, rfl, hcells p.labels p.id⟩
  | claim =>
    cases hc : VolumeClaim.ofObject o with
    | error e => simp [Kind.map, hc, Except.map] at hmap
    | ok c =>
      simp only [Kind.map, hc, Except.map, Except.ok.injEq] at hmap
      subst hmap
      exact ⟨_, _, rfl, rfl, hcells c.labels c.id⟩

theorem Kind.map_aligned (hmap : k.map o = .ok m) : m.Aligned k o := by
  have hd := Kind.map_describes hmap
  have hid := fun {a : ObjectId} (h : a = o.id) => congrArg (fun x => Cell.id x.entityId) h
  refine
    { row := hd.row_takes.fits
      related := ?_
      replaced := ?_
      logs := ?_
      usage := ?_
      labels := Kind.map_labels_only hmap
      containers := ?_ }
  · intro r hr row hrow
    cases hdisc : r.discipline with
    | replaceSet => exact (hd.rows r (Mapped.mem_replaced.mpr ⟨hr, hdisc⟩) row hrow).1.fits
    | insertIfAbsent =>
      obtain ⟨htable, htakes⟩ := hd.dictionary r hr hdisc
      exact htable ▸ (htakes row hrow).fits
  · intro r hr hdisc
    have hrep : r ∈ m.replaced := Mapped.mem_replaced.mpr ⟨hr, hdisc⟩
    refine ⟨(hd.owner r hr).trans hd.id, ?_⟩
    exact Kind.clears_of_mem (List.mem_append_left _ (hd.mem_replaced hrep))
      fun row hrow => hd.id ▸ (hd.rows r hrep row hrow).2
  · intro t ht text
    obtain rfl := hd.pod (List.ne_nil_of_mem ht)
    refine ⟨rfl, Kind.clears_of_mem (by decide) fun row hrow => ?_⟩
    obtain rfl := List.mem_singleton.mp hrow
    exact Table.ownedBy_iff.mpr (hid hd.objectId)
  · intro metrics us hread
    refine ⟨fun u hu => rfl, fun hk => ?_⟩
    subst hk
    refine Kind.clears_of_mem (by decide) fun row hrow => ?_
    obtain ⟨u, hu, rfl⟩ := List.mem_map.mp hrow
    have hpod : u.pod = m.objectId := (ContainerUsage.ids_of_ok hread u hu).2
    exact Table.ownedBy_iff.mpr (hid (hpod.trans hd.objectId))
  · intro name id id' h h'
    obtain ⟨c, rfl, rfl⟩ := hd.mentions hmap h
    obtain ⟨c', hname, rfl⟩ := hd.mentions hmap h'
    obtain rfl := Cell.text.inj hname
    rfl

end Objects

/-! ## Every sync -/

theorem Sync.seen_adds {r : Reconciler} {n : Notification} {o : ClusterObject}
    {trace : List Exchange} {result : Except SyncError Reconciler} (hn : n.object = some o)
    (h : (r.sync n).Runs trace result) : ∀ w ∈ asked trace, w.Adds r.kind o.id.entityId := by
  intro w hw
  obtain ⟨upserted, hupsert, -⟩ := (Sync.sync_seen hn).mp h
  obtain ⟨m, hmap, hplan | hsnapshot⟩ := Sync.upsert_asked hupsert hw
  · exact (Kind.map_describes hmap).plan_adds w hplan
  · exact (Kind.map_describes hmap).snapshot_adds hsnapshot

/-- Mapped rows fit their tables and cascades. Of every object that can be mapped, each row is as
wide as its table, each dependent row holds the identity of the object where the cascade of the kind
looks for it, the labels are those of the dictionary, and containers go by one identity. So in
whatever surroundings a sync runs, none of its writes is refused for its shape, and what it writes
apart from the row of the object and the dictionary is found by the cascade. -/
theorem rows_aligned :
    (∀ (k : Kind) (o : ClusterObject) (m : Mapped), k.map o = .ok m → m.Aligned k o) ∧
    ∀ (r : Reconciler) (n : Notification) (trace : List Exchange)
      (result : Except SyncError Reconciler), (r.sync n).Runs trace result →
      ∀ w ∈ asked trace, w.Shaped ∧ ∀ o, n.object = some o →
        w.table = r.kind.table ∨ w.table = Schema.label ∨
          ∃ column, r.kind.Clears w.table column o.id.entityId w.rows := by
  refine ⟨fun k o m hmap => Kind.map_aligned hmap, fun r n trace result h w hw => ⟨?_, ?_⟩⟩
  · have hproper := Reconciler.sync_proper h (List.Subset.refl (n.keys r.kind)) w hw
    exact Write.shaped_of_fits hproper.fits
  · exact fun o hn => (Sync.seen_adds hn h w hw).cleared

/-- A pod with a label, a condition and a container. -/
def webPod : ClusterObject :=
  ⟨.object [("metadata", .object [("labels", .object [("app", .text "web")]),
      ("name", .text "web-1"), ("namespace", .text "default")]),
    ("spec", .object [("containers", .array [.object [("name", .text "nginx")]])]),
    ("status", .object [("conditions", .array [.object [("type", .text "Ready")]])])]⟩

/-- It applies to a pod that is accepted and can be mapped, to the usage of its container, and to the
write that its sync begins with. -/
theorem rows_aligned_webPod :
    ∃ m us, ClusterObject.ofJson webPod.value = .ok webPod ∧ Kind.pod.map webPod = .ok m ∧
      ContainerUsage.ofMetrics m.objectId
        ⟨.object [("containers", .array [.object [("name", .text "nginx")]])]⟩ = .ok us ∧
      m.relations.map (fun r => r.rows.length) = [1, 1, 1, 1] ∧ us.length = 1 ∧
      m.Aligned .pod webPod ∧
      (∀ u ∈ us, ∀ t ∈ m.targets, t.name = u.containerName → t.id = u.containerId) ∧
      (Write.upsert ⟨Schema.pod, .updateAll⟩ [m.row]).Shaped := by
  obtain ⟨haligned, hsync⟩ := rows_aligned
  obtain ⟨m, hmap, hlengths⟩ : ∃ m, Kind.pod.map webPod = .ok m ∧
      m.relations.map (fun r => r.rows.length) = [1, 1, 1, 1] := ⟨_, rfl, rfl⟩
  obtain ⟨us, hread, hcount⟩ : ∃ us, ContainerUsage.ofMetrics m.objectId
      ⟨.object [("containers", .array [.object [("name", .text "nginx")]])]⟩ = .ok us ∧
        us.length = 1 := ⟨_, rfl, rfl⟩
  have hfits : m.Aligned .pod webPod := haligned .pod webPod m hmap
  refine ⟨m, us, rfl, hmap, hread, hlengths, hcount, hfits, fun u hu t ht hname => ?_, ?_⟩
  · have hmentions : m.Mentions (.text t.name) (.id u.containerId) := hname ▸ .usage hread hu
    exact Cell.id_inj.mp (hfits.containers _ _ _ (.target ht) hmentions)
  · -- the store refuses the first write for a reason of its own
    let r : Reconciler := ⟨.pod, {}, .empty⟩
    obtain ⟨m', hmap', hruns⟩ : ∃ m', Kind.pod.map webPod = .ok m' ∧ (r.sync (.seen webPod)).Runs
        [⟨.write (.upsert ⟨Schema.pod, .updateAll⟩ [m'.row]),
          (.error (.injected "pod") : Except StoreError Nat)⟩]
        (.error (.store (.injected "pod"))) := ⟨_, rfl, .ask (.done _)⟩
    obtain rfl : m = m' := Except.ok.inj (hmap.symm.trans hmap')
    exact (hsync r _ _ _ hruns _ List.mem_cons_self).1

end KubeLedger
