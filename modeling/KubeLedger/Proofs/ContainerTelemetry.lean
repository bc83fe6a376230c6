import KubeLedger.Proofs.Effects
import KubeLedger.Proofs.Service
import KubeLedger.Proofs.Upserts
import KubeLedger.Telemetry.Query

/- Telemetry of containers after its pod is gone. A deletion finds the telemetry through the rows of
   the containers that the store holds at that time, and these are the containers of the last
   upsert. Telemetry of a container that an earlier upsert had, and a later one had not, is found by
   no deletion any more, unless the container comes back (`telemetry_left`). So a deletion leaves no
   telemetry of a pod exactly if each record was followed by a deletion that still saw the container
   of the record. -/
namespace KubeLedger

open Database

/-! ## Histories of a pod -/

/-- What happens to a pod: an upsert gives it containers, records come in for some identities, or it
is deleted. -/
inductive PodEvent where
  | upserted (containers : List EntityId)
  | recorded (entities : List EntityId)
  | deleted

namespace PodEvent

/-- The containers that the store holds after a history, the latest event first. -/
def present : List PodEvent → List EntityId
  | [] => []
  | .upserted containers :: _ => containers
  | .recorded _ :: es => present es
  | .deleted :: _ => []

def ever : List PodEvent → List EntityId
  | [] => []
  | .upserted containers :: es => containers ++ ever es
  | _ :: es => ever es

/-- Whether a history leaves telemetry of a container: a deletion takes that of the containers that
are present. -/
def Leaves : List PodEvent → EntityId → Prop
  | [], _ => False
  | .upserted _ :: es, e => Leaves es e
  | .recorded entities :: es, e => e ∈ entities ∨ Leaves es e
  | .deleted :: es, e => Leaves es e ∧ e ∉ present es

theorem deletions_cons {x : PodEvent} {later : List PodEvent} {p : List PodEvent → Prop} :
    (∀ after before, x :: later = after ++ .deleted :: before → p before) ↔
      (x = .deleted → p later) ∧
        ∀ after before, later = after ++ .deleted :: before → p before := by
  constructor
  · intro h
    refine ⟨fun hx => h [] later (hx ▸ rfl), fun after before hlater => ?_⟩
    exact h (x :: after) before (hlater ▸ rfl)
  · rintro ⟨hnow, hlater⟩ after before heq
    cases after with
    | nil =>
      obtain ⟨hx, rfl⟩ := List.cons.inj heq
      exact hnow hx
    | cons y after => exact hlater after before (List.cons.inj heq).2

/-- What is left was recorded at some time, and no deletion since saw its container. -/
theorem leaves_iff {es : List PodEvent} {e : EntityId} :
    Leaves es e ↔ ∃ later entities earlier, es = later ++ .recorded entities :: earlier ∧
      e ∈ entities ∧ ∀ after before, later = after ++ .deleted :: before →
        e ∉ present (before ++ .recorded entities :: earlier) := by
  induction es with
  | nil =>
    constructor
    · exact fun h => h.elim
    · rintro ⟨later, entities, earlier, hes, -⟩
      cases later <;> cases hes
  | cons x es ih =>
    constructor
    · -- the latest event is put before the history in which the record is found
      have older : Leaves es e → (x = .deleted → e ∉ present es) → ∃ later entities earlier,
          x :: es = later ++ .recorded entities :: earlier ∧ e ∈ entities ∧
            ∀ after before, later = after ++ .deleted :: before →
              e ∉ present (before ++ .recorded entities :: earlier) := by
        intro h hnow
        obtain ⟨later, entities, earlier, rfl, he, hfree⟩ := ih.mp h
        exact ⟨x :: later, entities, earlier, rfl, he, deletions_cons.mpr ⟨hnow, hfree⟩⟩
      cases x with
      | upserted containers => exact fun h => older h fun hx => nomatch hx
      | recorded entities =>
        rintro (he | h)
        · refine ⟨[], entities, es, rfl, he, fun after before heq => ?_⟩
          cases after <;> cases heq
        · exact older h fun hx => nomatch hx
      | deleted => exact fun h => older h.1 fun _ => h.2
    · rintro ⟨later, entities, earlier, hes, he, hfree⟩
      cases later with
      | nil =>
        cases hes
        exact Or.inl he
      | cons y later =>
        obtain ⟨rfl, rfl⟩ := List.cons.inj hes
        obtain ⟨hnow, hfree⟩ := deletions_cons.mp hfree
        have h := ih.mpr ⟨later, entities, earlier, rfl, he, hfree⟩
        cases x with
        | upserted containers => exact h
        | recorded entities' => exact Or.inr h
        | deleted => exact ⟨h, hnow rfl⟩

end PodEvent

/-- The databases that a history of a pod leads to, the latest event first. Each sync succeeds, in
whatever surroundings, and each record is of a series that is attributed to a container. -/
inductive PodRun (id : ObjectId) : List PodEvent → Database → Prop
  | start : PodRun id [] {}
  | upserted {σ : Type} {env : Surroundings σ} {db : σ → Database} {w w' : σ} {r r' : Reconciler}
    {o : ClusterObject} {m : Mapped} {es : List PodEvent} :
    env.Keeps db (fun _ => True) → r.kind = .pod → o.id = id → Kind.pod.map o = .ok m →
    PodRun id es (db w) → (r.sync (.seen o)).runIn env w = (.ok r', w') →
    PodRun id (.upserted (m.targets.map fun t => t.id) :: es) (db w')
  | recorded {d : Database} {es : List PodEvent} (how : OnConflict)
    {records : List TelemetryRecord} :
    (∀ r ∈ records, ∃ labels, Granularity.container.owner? labels = some r.entity) →
    PodRun id es d →
    PodRun id (.recorded (records.map fun r => r.entity) :: es)
      (d.apply (.upsert ⟨Schema.containerMetric, how⟩ (records.map TelemetryRecord.row)))
  | deleted {σ : Type} {env : Surroundings σ} {db : σ → Database} {w w' : σ} {r r' : Reconciler}
    {es : List PodEvent} :
    env.Keeps db (fun _ => True) → r.kind = .pod → PodRun id es (db w) →
    (r.sync (.deleted id)).runIn env w = (.ok r', w') → PodRun id (.deleted :: es) (db w')

/-! ## What a history leaves -/

/-- A database shows a history of a pod: the containers that are present, and the telemetry that is
left. -/
structure Database.Shows (d : Database) (id : ObjectId) (es : List PodEvent) : Prop where
  sound : Schema.container.Sound (d.rows Schema.container.name)
  present : ∀ c, (∃ r ∈ d.find Schema.container "pod_id" (.id id.entityId), cellAt r 0 = c) ↔
    ∃ e ∈ PodEvent.present es, Cell.id e = c
  telemetry : ∀ e, (∃ r ∈ d.rows Schema.containerMetric.name, cellAt r 0 = .id e) ↔
    PodEvent.Leaves es e

namespace PodRun

variable {id : ObjectId} {es : List PodEvent} {d d' : Database} {own : String → Prop}

theorem shows_start : Shows {} id [] where
  sound := Table.Sound.nil _
  present := fun c => by simp [Table.find_id, rows_empty, PodEvent.present]
  telemetry := fun e => by simp [rows_empty, PodEvent.Leaves]

theorem shows_upserted {m : Mapped} {o : ClusterObject} {trace : List Exchange} {taken : List Write}
    (hshows : Shows d id es) (hid : o.id = id) (hd : m.Describes .pod o)
    (htaken : ∀ w ∈ taken, Sync.IsSnapshot m trace w)
    (h : Changes (fun _ => True) (m.plan .pod ++ taken) d d') :
    Shows d' id (.upserted (m.targets.map fun t => t.id) :: es) := by
  subst hid
  -- every upsert of a pod replaces its containers, also when there are none
  obtain ⟨s, hs, htable, hforeign⟩ : ∃ s ∈ m.replaced,
      s.table = Schema.container ∧ s.foreignKey = "pod_id" := by
    have hmem : (Schema.container, "pod_id") ∈ m.replaced.map fun r => (r.table, r.foreignKey) := by
      rw [hd.sets]
      decide
    obtain ⟨s, hs, heq⟩ := List.mem_map.mp hmem
    exact ⟨s, hs, Prod.mk.inj heq⟩
  have hlawful := Schema.lawful (t := Schema.container) (by decide)
  have htakes : ∀ row ∈ s.rows, Schema.container.Takes row :=
    fun row hrow => htable ▸ (hd.rows s hs row hrow).1
  have hrows := hd.set_rows htaken h hs trivial
  have hperm := hd.find_set htaken h hs trivial (htable ▸ hshows.sound)
  have hcells := hd.containers s hs htable
  rw [htable] at hrows
  rw [htable, hforeign] at hperm
  refine ⟨?_, fun c => ?_, fun e => ?_⟩
  · rw [hrows]
    exact Table.sound_upsertRows hlawful htakes (Table.sound_filter _ hshows.sound)
  · simp only [hperm.mem_iff]
    rw [Table.cells_latest hlawful htakes (by decide)]
    have hmem : (∃ r ∈ s.rows, cellAt r 0 = c) ↔ c ∈ s.rows.map fun row => cellAt row 0 :=
      List.mem_map.symm
    rw [hmem, hcells]
    simp [PodEvent.present]
  · rw [h.frame trivial (hd.telemetry_frame htaken)]
    exact hshows.telemetry e

theorem shows_recorded (hshows : Shows d id es) (how : OnConflict)
    (records : List TelemetryRecord) :
    Shows (d.apply (.upsert ⟨Schema.containerMetric, how⟩ (records.map TelemetryRecord.row))) id
      (.recorded (records.map fun r => r.entity) :: es) := by
  let w := Write.upsert ⟨Schema.containerMetric, how⟩ (records.map TelemetryRecord.row)
  have hne : Schema.container.name ≠ Schema.containerMetric.name := by decide
  have hframe : (d.apply w).rows Schema.container.name = d.rows Schema.container.name :=
    rows_apply_ne d hne
  have hrows : (d.apply w).rows Schema.containerMetric.name = d.rowsAfter w := rows_apply_self d w
  refine ⟨by rw [hframe]; exact hshows.sound, fun c => ?_, fun e => ?_⟩
  · rw [Table.find_id, hframe, ← Table.find_id]
    exact hshows.present c
  · have hkey : 0 ∈ Schema.containerMetric.keyAt := by decide
    have htakes : ∀ r ∈ records.map TelemetryRecord.row, Schema.containerMetric.Takes r := by
      intro r hr
      obtain ⟨record, -, rfl⟩ := List.mem_map.mp hr
      exact record.row_takes .container
    have hcells : (∃ r ∈ d.rowsAfter w, cellAt r 0 = .id e) ↔
        (∃ r ∈ d.rows Schema.containerMetric.name, cellAt r 0 = .id e) ∨
          ∃ r ∈ records.map TelemetryRecord.row, cellAt r 0 = .id e :=
      Table.cells_upsertRows ⟨Schema.containerMetric, how⟩ htakes hkey
    have hnew : (∃ r ∈ records.map TelemetryRecord.row, cellAt r 0 = .id e) ↔
        e ∈ records.map fun r => r.entity := by
      simp [TelemetryRecord.row, cellAt, Cell.id_inj]
    rw [hshows.telemetry, hnew, or_comm] at hcells
    rw [hrows]
    exact hcells

/-- The first step of a deletion takes the telemetry of the containers that are present. -/
theorem shows_deleted (hshows : Shows d id es)
    (h : Changes (fun _ => True) (Kind.pod.removal id.entityId) d d') :
    Shows d' id (.deleted :: es) := by
  have hcontainer : d'.rows Schema.container.name = (d.rows Schema.container.name).filter
      fun r => !Schema.container.ownedBy "pod_id" id.entityId r :=
    Kind.removed_direct h (by decide) trivial
  refine ⟨?_, fun c => ?_, fun e => ?_⟩
  · rw [hcontainer]
    exact Table.sound_filter _ hshows.sound
  · simp [Table.find_id, hcontainer, PodEvent.present]
  · rw [Kind.removed_through h trivial trivial, Table.cells_deleteRows (by decide),
      hshows.telemetry, mem_keysVia, hshows.present]
    simp only [Cell.id_inj, exists_eq_right]
    rfl

theorem shows (hid : id.ns = "" → NoSlash id.name) (h : PodRun id es d) : Shows d id es := by
  induction h with
  | start => exact shows_start
  | upserted henv hkind ho hmap _ hrun ih =>
    obtain ⟨-, m, trace, taken, hmap', hchanges, htaken⟩ := Reconciler.seen_ok henv rfl hrun
    rw [hkind] at hmap' hchanges
    obtain rfl := Except.ok.inj (hmap.symm.trans hmap')
    exact shows_upserted ih ho (Kind.map_describes hmap) htaken hchanges
  | recorded how _ _ ih => exact shows_recorded ih how _
  | deleted henv hkind _ hrun ih =>
    have hchanges := Reconciler.deleted_ok henv rfl hrun
    have hentity : (Notification.deleted id).id.entityId = id.entityId :=
      ObjectId.entityId_ofKey hid
    rw [hkind, hentity] at hchanges
    exact shows_deleted ih hchanges

end PodRun

/-! ## Attribution -/

theorem Granularity.getD_present {labels : Labels} {name value : String}
    (h : labels.lookup name = some value) : (present? labels name).getD "" = value := by
  unfold present?
  by_cases hv : value = "" <;> simp [h, hv, Option.filter]

theorem Mapped.Describes.attributed {k : Kind} {o : ClusterObject} {m : Mapped}
    (hd : m.Describes k o) {t : SnapshotTarget} (ht : t ∈ m.targets) (hname : t.name ≠ "")
    {labels : Labels} (hns : labels.lookup "namespace" = some o.id.ns)
    (hpod : labels.lookup "pod" = some o.id.name)
    (hcontainer : labels.lookup "container" = some t.name) :
    Granularity.container.owner? labels = some t.id := by
  have hpresent : Granularity.present? labels "container" = some t.name := by
    simp [Granularity.present?, hcontainer, hname]
  simp only [Granularity.owner?, hpresent, Option.map_some, Granularity.getD_present hns,
    Granularity.getD_present hpod, hd.targets t ht]

/-! ## Histories of bare pods -/

section Bare
variable {ns name : String} {es : List PodEvent} {w : World}

/-- A store without failing tables, next to a cluster that reports nothing. -/
def World.IsQuiet (w : World) : Prop := w.store.failing = [] ∧ w.cluster = {}

theorem PodRun.bare_upserted (hw : w.IsQuiet) (h : PodRun ⟨ns, name⟩ es w.store.database)
    (containers : List String) :
    ∃ w' : World, w'.IsQuiet ∧
      PodRun ⟨ns, name⟩ (.upserted (containers.map (.container ns name)) :: es)
        w'.store.database := by
  obtain ⟨m, hmap, -, htargets⟩ := barePod_map ns name containers
  have hids : m.targets.map (fun t => t.id) = containers.map (.container ns name) := by
    rw [htargets, List.map_map]
    rfl
  let r : Reconciler := ⟨.pod, {}, .empty⟩
  obtain ⟨result, w', hrun⟩ : ∃ result w', (r.sync (.seen (barePod ns name containers))).runIn
    World.answer w = (result, w') := ⟨_, _, rfl⟩
  obtain ⟨hquiet, hresult, -⟩ := (World.serves rfl rfl).seen World.keeps hw rfl hmap hrun
  obtain rfl | ⟨-, hunreadable⟩ := hresult
  · have hstep := PodRun.upserted World.keeps rfl rfl hmap h hrun
    rw [hids] at hstep
    exact ⟨w', hquiet, hstep⟩
  · refine absurd (fun metrics hreports => ?_) hunreadable
    obtain ⟨s, s', hs, hcall⟩ := hreports
    simp only [World.answer, hs.2] at hcall
    cases hcall

theorem PodRun.bare_recorded (hw : w.IsQuiet) (h : PodRun ⟨ns, name⟩ es w.store.database)
    {c : String} (hc : c ≠ "") :
    ∃ w' : World, w'.IsQuiet ∧
      PodRun ⟨ns, name⟩ (.recorded [.container ns name c] :: es) w'.store.database := by
  obtain ⟨m, hmap, -, htargets⟩ := barePod_map ns name [c]
  have hmem : ⟨c, .container ns name c, false⟩ ∈ m.targets := htargets ▸ List.mem_cons_self
  let labels : Labels := [("namespace", ns), ("pod", name), ("container", c)]
  have howner : Granularity.container.owner? labels = some (.container ns name c) :=
    (Kind.map_describes hmap).attributed hmem hc rfl rfl rfl
  let record : TelemetryRecord := ⟨.container ns name c, 0, "cpu", "", 1⟩
  have howners : ∀ r ∈ [record], ∃ labels, Granularity.container.owner? labels = some r.entity := by
    intro r hr
    obtain rfl := List.mem_singleton.mp hr
    exact ⟨labels, howner⟩
  let d := w.store.database.apply (.upsert ⟨Schema.containerMetric, .updateAll⟩ [record.row])
  exact ⟨{ w with store := { w.store with database := d } }, hw, .recorded .updateAll howners h⟩

theorem PodRun.bare_deleted (hw : w.IsQuiet) (h : PodRun ⟨ns, name⟩ es w.store.database) :
    ∃ d, PodRun ⟨ns, name⟩ (.deleted :: es) d := by
  let r : Reconciler := ⟨.pod, {}, .empty⟩
  obtain ⟨result, w', hrun⟩ : ∃ result w', (r.sync (.deleted ⟨ns, name⟩)).runIn World.answer w =
    (result, w') := ⟨_, _, rfl⟩
  obtain ⟨-, r', rfl⟩ := (World.serves rfl rfl).deleted hw rfl hrun
  have hstep := PodRun.deleted World.keeps rfl h hrun
  exact ⟨_, hstep⟩

end Bare

/-! ## What a deletion leaves -/

/-- A deletion at the end of a history leaves no telemetry of any container that the pod ever had
exactly if each record of one was followed by a deletion at which the container was present. -/
theorem deletion_clears_iff {id : ObjectId} (hid : id.ns = "" → NoSlash id.name)
    {es : List PodEvent} {d : Database} (h : PodRun id (.deleted :: es) d) :
    (∀ e ∈ PodEvent.ever es, ∀ r ∈ d.rows Schema.containerMetric.name,
        Schema.containerMetric.cell r "container_id" ≠ .id e) ↔
      ∀ e ∈ PodEvent.ever es, ∀ later entities earlier,
        .deleted :: es = later ++ .recorded entities :: earlier → e ∈ entities →
          ∃ after before, later = after ++ .deleted :: before ∧
            e ∈ PodEvent.present (before ++ .recorded entities :: earlier) := by
  refine forall₂_congr fun e he => ?_
  have hcolumn : Schema.containerMetric.indexOf? "container_id" = some 0 := by decide +kernel
  have hleaves := ((h.shows hid).telemetry e).trans PodEvent.leaves_iff
  simp only [Table.cell_of_indexOf hcolumn]
  constructor
  · intro hclear later entities earlier hes hin
    by_contra hnone
    push Not at hnone
    obtain ⟨r, hr, hcell⟩ := hleaves.mpr ⟨later, entities, earlier, hes, hin, hnone⟩
    exact hclear r hr hcell
  · intro hfollowed r hr hcell
    obtain ⟨later, entities, earlier, hes, hin, hnone⟩ := hleaves.mp ⟨r, hr, hcell⟩
    obtain ⟨after, before, hlater, hpresent⟩ := hfollowed later entities earlier hes hin
    exact hnone after before hlater hpresent

/-- It applies to a pod that keeps its container: nothing is left. -/
theorem deletion_clears_kept :
    let c := EntityId.container "default" "web-1" "nginx"
    ∃ d, PodRun ⟨"default", "web-1"⟩ [.deleted, .recorded [c], .upserted [c]] d ∧
      ∀ r ∈ d.rows Schema.containerMetric.name,
        Schema.containerMetric.cell r "container_id" ≠ .id c := by
  intro c
  have hstart : PodRun ⟨"default", "web-1"⟩ [] ({} : World).store.database := .start
  obtain ⟨w₁, hquiet₁, h₁⟩ := hstart.bare_upserted ⟨rfl, rfl⟩ ["nginx"]
  obtain ⟨w₂, hquiet₂, h₂⟩ := h₁.bare_recorded hquiet₁ (c := "nginx") (by decide)
  obtain ⟨d, h⟩ := h₂.bare_deleted hquiet₂
  refine ⟨d, h, (deletion_clears_iff (by decide) h).mpr ?_ c List.mem_cons_self⟩
  intro e he later entities earlier hes hin
  rcases later with _ | ⟨x, _ | ⟨y, _ | ⟨z, _ | ⟨u, later⟩⟩⟩⟩ <;> cases hes
  exact ⟨[], [], rfl, he⟩

/-- A container that the pod had once, and has no more, leaves its telemetry behind. -/
theorem deletion_orphans :
    let c := EntityId.container "default" "web-1"
    ∃ d, PodRun ⟨"default", "web-1"⟩
        [.deleted, .upserted [c "new"], .recorded [c "old"], .upserted [c "old"]] d ∧
      ∃ r ∈ d.rows Schema.containerMetric.name,
        Schema.containerMetric.cell r "container_id" = .id (c "old") := by
  intro c
  have hstart : PodRun ⟨"default", "web-1"⟩ [] ({} : World).store.database := .start
  obtain ⟨w₁, hquiet₁, h₁⟩ := hstart.bare_upserted ⟨rfl, rfl⟩ ["old"]
  obtain ⟨w₂, hquiet₂, h₂⟩ := h₁.bare_recorded hquiet₁ (c := "old") (by decide)
  obtain ⟨w₃, hquiet₃, h₃⟩ := h₂.bare_upserted hquiet₂ ["new"]
  obtain ⟨d, h⟩ := h₃.bare_deleted hquiet₃
  have hcolumn : Schema.containerMetric.indexOf? "container_id" = some 0 := by decide +kernel
  have hnew : c "old" ∉ [c "new"] := by decide +kernel
  obtain ⟨row, hrow, hcell⟩ := ((h.shows (by decide)).telemetry (c "old")).mpr
    ⟨Or.inl List.mem_cons_self, hnew⟩
  exact ⟨d, h, row, hrow, (Table.cell_of_indexOf hcolumn row).trans hcell⟩

end KubeLedger
