import Mathlib.Tactic.FinCases
import KubeLedger.Proofs.Names
import KubeLedger.Proofs.Tables
import KubeLedger.Mapping.Kind
import KubeLedger.Mapping.Snapshot

/- What mapping an object gives. Column lists, rows, relations and cascades are written down apart
   from each other; `Mapped.Describes` says how they fit together, and `Kind.map_describes` that
   they do for every object that can be mapped at all: each row has the width of its table and no
   double in its key, the primary row carries the name of the object and its identity, and the
   dependent rows carry that identity in the column that their table is replaced and cleared by.

   Rows of containers have a key of their own. `Anchored` says that such a row carries the identity
   of a container of the pod that it refers to, which is what keeps the rows of different pods
   apart. -/
namespace KubeLedger

open Database

/-- The row of a primary table that is about an object: it holds its identity and its name. -/
structure Table.Names (t : Table) (r : Row) (o : ObjectId) : Prop where
  id : t.cell r "id" = .id o.entityId
  ns : t.cell r "namespace" = .text o.ns
  name : t.cell r "name" = .text o.name

theorem Table.Names.unique {t : Table} {r : Row} {a b : ObjectId} (ha : t.Names r a)
    (hb : t.Names r b) : a = b := by
  have hns : a.ns = b.ns := Cell.text.inj (ha.ns.symm.trans hb.ns)
  have hname : a.name = b.name := Cell.text.inj (ha.name.symm.trans hb.name)
  obtain ⟨ns, name⟩ := a
  obtain ⟨ns', name'⟩ := b
  exact congrArg₂ ObjectId.mk hns hname

/-- A row that is keyed by a container and refers to its pod, for one of the given keys. -/
def Anchored (keys : List (List String)) (r : Row) : Prop :=
  ∃ (pod : ObjectId) (name : String), [pod.ns, pod.name, name] ∈ keys ∧
    cellAt r 0 = .id (.container pod.ns pod.name name) ∧ cellAt r 1 = .id pod.entityId

/-- A row of one owner has its key apart from the rows of all others: either the owner belongs to
the key, or the key is a container of the owner. -/
theorem Table.apart {keys : List (List String)} (hkeys : Distinct keys) {t : Table}
    {column : String} {e : EntityId} {new row : Row} (htakes : t.Takes new)
    (howned : t.ownedBy column e new = true) (hfree : t.ownedBy column e row = false)
    (hkind : column ∈ t.key ∨ (t.keyAt = [0] ∧ t.indexOf? column = some 1) ∧
      Anchored keys new ∧ Anchored keys row) : t.sameKey row new = false := by
  by_contra hk
  rw [Bool.not_eq_false] at hk
  have hrow : t.ownedBy column e row = true := by
    rcases hkind with hkey |
      ⟨⟨hat, hcolumn⟩, ⟨pod, name, hin, hid, hpod⟩, pod', name', hin', hid', hpod'⟩
    · exact sameKey_owned hkey htakes howned hk
    · have hcell : cellAt row 0 = cellAt new 0 := htakes.sameKey_iff.mp hk 0 (by simp [hat])
      rw [hid, hid', Cell.id_inj] at hcell
      obtain rfl := hkeys.container_inj hin' hin hcell
      rw [ownedBy_iff, cell_of_indexOf hcolumn] at howned ⊢
      exact hpod'.trans (hpod.symm.trans howned)
  rw [hfree] at hrow
  cases hrow

namespace Kind

/-- The tables in which the rows of an object are replaced, and the column of the owner there. -/
def sets : Kind → List (Table × String)
  | .pod =>
    [(Schema.podCondition, "pod_id"), (Schema.podLabel, "pod_id"), (Schema.container, "pod_id")]
  | .claim => [(Schema.claimCondition, "pvc_id"), (Schema.claimLabel, "pvc_id")]

theorem table_mem (k : Kind) : k.table ∈ Schema.tables := by
  cases k <;> decide

theorem sets_mem (k : Kind) {s : Table × String} (h : s ∈ k.sets) : s.1 ∈ Schema.tables := by
  have hall : ∀ s ∈ k.sets, s.1 ∈ Schema.tables := by cases k <;> decide
  exact hall s h

theorem sets_key (k : Kind) {s : Table × String} (h : s ∈ k.sets) :
    s.2 ∈ s.1.key ∨ s = (Schema.container, "pod_id") := by
  have hall : ∀ s ∈ k.sets, s.2 ∈ s.1.key ∨ s = (Schema.container, "pod_id") := by
    cases k <;> decide
  exact hall s h

/-- In every other table the owner comes first, and is the first half of the key. -/
theorem sets_first (k : Kind) {s : Table × String} (h : s ∈ k.sets)
    (hne : s.1 ≠ Schema.container) : s.1.keyAt = [0, 1] ∧ s.1.indexOf? s.2 = some 0 := by
  have hall : ∀ s ∈ k.sets, s.1 ≠ Schema.container →
      s.1.keyAt = [0, 1] ∧ s.1.indexOf? s.2 = some 0 := by
    cases k <;> decide
  exact hall s h hne

end Kind

namespace Mapped

/-- The keys that a mapped object brings into play: its own, and those of its containers. -/
def keys (m : Mapped) : List (List String) :=
  [m.objectId.ns, m.objectId.name] ::
    m.targets.map fun t => [m.objectId.ns, m.objectId.name, t.name]

def replaced (m : Mapped) : List Relation := m.relations.filter fun r => r.discipline = .replaceSet

/-- How a mapped object of a kind fits together. -/
structure Describes (m : Mapped) (k : Kind) (o : ClusterObject) : Prop where
  id : m.id = o.id.entityId
  objectId : m.objectId = o.id
  row_takes : k.table.Takes m.row
  row_names : k.table.Names m.row o.id
  sets : m.replaced.map (fun r => (r.table, r.foreignKey)) = k.sets
  owner : ∀ r ∈ m.relations, r.owner = m.id
  rows : ∀ r ∈ m.replaced, ∀ row ∈ r.rows,
    r.table.Takes row ∧ r.table.ownedBy r.foreignKey m.id row = true
  anchored : ∀ r ∈ m.replaced, r.table = Schema.container → ∀ row ∈ r.rows, Anchored m.keys row
  dictionary : ∀ r ∈ m.relations, r.discipline = .insertIfAbsent →
    r.table = Schema.label ∧ ∀ row ∈ r.rows, Schema.label.Takes row
  tables : (Schema.containerLogs.name :: Schema.podMetrics.name :: k.table.name ::
    m.relations.map fun r => r.table.name).Nodup
  targets : ∀ t ∈ m.targets, t.id = .container o.id.ns o.id.name t.name
  pod : m.targets ≠ [] → k = .pod
  containers : ∀ r ∈ m.replaced, r.table = Schema.container →
    r.rows.map (fun row => cellAt row 0) = m.targets.map fun t => Cell.id t.id

end Mapped

/-! ## Pods and claims -/

theorem of_bind_ok {α β ε : Type} {x : Except ε α} {f : α → Except ε β} {b : β}
    (h : (x >>= f) = .ok b) : ∃ a, x = .ok a ∧ f a = .ok b := by
  cases x with
  | error e => cases h
  | ok a => exact ⟨a, rfl, h⟩

theorem mem_of_mapM_ok {α β ε : Type} {f : α → Except ε β} {xs : List α} {ys : List β}
    (h : xs.mapM f = .ok ys) : ∀ y ∈ ys, ∃ x ∈ xs, f x = .ok y := by
  induction xs generalizing ys with
  | nil =>
    cases h
    simp
  | cons x xs ih =>
    rw [List.mapM_cons] at h
    obtain ⟨y, hy, h⟩ := of_bind_ok h
    obtain ⟨rest, hrest, h⟩ := of_bind_ok h
    cases h
    intro z hz
    rcases List.mem_cons.mp hz with rfl | hz
    · exact ⟨x, List.mem_cons_self, hy⟩
    · obtain ⟨x', hx', hfx'⟩ := ih hrest z hz
      exact ⟨x', List.mem_cons_of_mem x hx', hfx'⟩

theorem Condition.owner_of_ok {owner : EntityId} {v : Json} {c : Condition}
    (h : Condition.ofJson owner v = .ok c) : c.owner = owner := by
  unfold Condition.ofJson at h
  split at h
  · cases h
  · cases h
    rfl

theorem Container.ids_of_ok {pod : ObjectId} {statuses : List Json} {spec : Json} {c : Container}
    (h : Container.ofJson pod statuses spec = .ok c) :
    c.id = .container pod.ns pod.name c.name ∧ c.podId = pod.entityId := by
  unfold Container.ofJson at h
  split at h
  · cases h
  · cases h
    exact ⟨rfl, rfl⟩

theorem ContainerUsage.ids_of_ok {pod : ObjectId} {metrics : ClusterObject}
    {us : List ContainerUsage} (h : ofMetrics pod metrics = .ok us) :
    ∀ u ∈ us, u.containerId = .container pod.ns pod.name u.containerName ∧ u.pod = pod := by
  unfold ofMetrics at h
  obtain ⟨duration, -, h⟩ := of_bind_ok h
  intro u hu
  obtain ⟨value, -, hvalue⟩ := mem_of_mapM_ok h u hu
  unfold ofJson at hvalue
  split at hvalue
  · cases hvalue
  · obtain ⟨cpu, -, hvalue⟩ := of_bind_ok hvalue
    obtain ⟨memory, -, hvalue⟩ := of_bind_ok hvalue
    obtain ⟨storage, -, hvalue⟩ := of_bind_ok hvalue
    obtain ⟨ephemeral, -, hvalue⟩ := of_bind_ok hvalue
    cases hvalue
    exact ⟨rfl, rfl⟩

theorem Pod.parts_of_ok {o : ClusterObject} {p : Pod} (h : Pod.ofObject o = .ok p) :
    p.objectId = o.id ∧ (∀ c ∈ p.conditions, c.owner = o.id.entityId) ∧
      ∀ c ∈ p.containers, c.id = .container o.id.ns o.id.name c.name ∧ c.podId = o.id.entityId := by
  unfold Pod.ofObject at h
  obtain ⟨conds, hconds, h⟩ := of_bind_ok h
  obtain ⟨conts, hconts, h⟩ := of_bind_ok h
  cases h
  refine ⟨rfl, fun c hc => ?_, fun c hc => ?_⟩
  · obtain ⟨v, _, hv⟩ := mem_of_mapM_ok hconds c hc
    exact Condition.owner_of_ok hv
  · obtain ⟨v, _, hv⟩ := mem_of_mapM_ok hconts c hc
    exact Container.ids_of_ok hv

theorem VolumeClaim.parts_of_ok {o : ClusterObject} {c : VolumeClaim}
    (h : VolumeClaim.ofObject o = .ok c) :
    c.objectId = o.id ∧ ∀ x ∈ c.conditions, x.owner = o.id.entityId := by
  unfold VolumeClaim.ofObject at h
  obtain ⟨conds, hconds, h⟩ := of_bind_ok h
  cases h
  refine ⟨rfl, fun x hx => ?_⟩
  obtain ⟨v, _, hv⟩ := mem_of_mapM_ok hconds x hx
  exact Condition.owner_of_ok hv

/-! ## Every mapped object fits together -/

section Rows
variable {t : Table} {column : String} {e : EntityId}

theorem takes_single {rest : Row} (hwidth : rest.length + 1 = t.columns.length)
    (hkey : t.keyAt = [0]) : t.Takes (.id e :: rest) := by
  refine ⟨hwidth, fun i hi => ?_⟩
  rw [hkey, List.mem_singleton] at hi
  subst hi
  exact trivial

theorem takes_pair {b : Cell} {rest : Row} (hb : b.IsExact)
    (hwidth : rest.length + 2 = t.columns.length) (hkey : t.keyAt = [0, 1]) :
    t.Takes (.id e :: b :: rest) := by
  refine ⟨hwidth, fun i hi => ?_⟩
  rw [hkey] at hi
  rcases List.mem_cons.mp hi with rfl | hi
  · exact trivial
  · obtain rfl := List.mem_singleton.mp hi
    exact hb

theorem owned_first {rest : Row} (h : t.indexOf? column = some 0) :
    t.ownedBy column e (.id e :: rest) = true := by
  rw [Table.ownedBy_iff, Table.cell_of_indexOf h]
  rfl

theorem Condition.row_spec {c : Condition} (hc : c.owner = e) (hwidth : t.columns.length = 7)
    (hfirst : t.keyAt = [0, 1] ∧ t.indexOf? column = some 0) :
    t.Takes c.row ∧ t.ownedBy column e c.row = true := by
  subst hc
  exact ⟨takes_pair trivial hwidth.symm hfirst.1, owned_first hfirst.2⟩

theorem Label.ownedRow_spec {l : Label} (hwidth : t.columns.length = 2)
    (hfirst : t.keyAt = [0, 1] ∧ t.indexOf? column = some 0) :
    t.Takes (l.ownedRow e) ∧ t.ownedBy column e (l.ownedRow e) = true :=
  ⟨takes_pair trivial hwidth.symm hfirst.1, owned_first hfirst.2⟩

theorem names_of_positions {r : Row} {o : ObjectId} (hid : t.indexOf? "id" = some 0)
    (hns : t.indexOf? "namespace" = some 1) (hname : t.indexOf? "name" = some 2)
    (h : cellAt r 0 = .id o.entityId ∧ cellAt r 1 = .text o.ns ∧ cellAt r 2 = .text o.name) :
    t.Names r o :=
  ⟨(Table.cell_of_indexOf hid r).trans h.1, (Table.cell_of_indexOf hns r).trans h.2.1,
    (Table.cell_of_indexOf hname r).trans h.2.2⟩

end Rows

theorem Container.row_spec {pod : ObjectId} {c : Container} {keys : List (List String)}
    (h : c.id = .container pod.ns pod.name c.name ∧ c.podId = pod.entityId)
    (hkey : [pod.ns, pod.name, c.name] ∈ keys) :
    (Schema.container.Takes c.row ∧
      Schema.container.ownedBy "pod_id" pod.entityId c.row = true) ∧ Anchored keys c.row := by
  refine ⟨⟨takes_single rfl (by decide), ?_⟩, pod, c.name, hkey, ?_, ?_⟩
  · rw [Table.ownedBy_iff, Table.cell_of_indexOf Schema.container_pod]
    exact congrArg Cell.id h.2
  · exact congrArg Cell.id h.1
  · exact congrArg Cell.id h.2

theorem Pod.describes {o : ClusterObject} {p : Pod} (h : Pod.ofObject o = .ok p) :
    p.mapped.Describes .pod o := by
  obtain ⟨hid, hconds, hconts⟩ := parts_of_ok h
  have hentity : p.id = o.id.entityId := congrArg ObjectId.entityId hid
  have hkeys : ∀ c ∈ p.containers, [o.id.ns, o.id.name, c.name] ∈ p.mapped.keys := by
    intro c hc
    refine List.mem_cons_of_mem _ (List.mem_map.mpr ⟨c.target, List.mem_map_of_mem hc, ?_⟩)
    exact congrArg (fun x : ObjectId => [x.ns, x.name, c.name]) hid
  refine
    { id := hentity
      objectId := hid
      row_takes := takes_single rfl (by decide)
      row_names := names_of_positions (by decide) (by decide) (by decide)
        ⟨congrArg Cell.id hentity, congrArg (fun x : ObjectId => Cell.text x.ns) hid,
          congrArg (fun x : ObjectId => Cell.text x.name) hid⟩
      sets := rfl
      owner := ?_
      rows := ?_
      anchored := ?_
      dictionary := ?_
      tables := show ["container_logs", "pod_metrics", "pod", "pod_condition", "label", "pod_label",
        "container"].Nodup by decide
      targets := ?_
      pod := fun _ => rfl
      containers := ?_ }
  · intro r hr
    fin_cases hr <;> rfl
  · -- rows of conditions and labels begin with the pod, those of containers have it second
    intro r hr row hrow
    have hfirst := fun s hs => Kind.sets_first .pod (s := s) hs
    fin_cases hr
    · obtain ⟨c, hc, rfl⟩ := List.mem_map.mp hrow
      exact Condition.row_spec ((hconds c hc).trans hentity.symm) rfl
        (hfirst (Schema.podCondition, "pod_id") (by decide) (by decide))
    · obtain ⟨l, _, rfl⟩ := List.mem_map.mp hrow
      exact Label.ownedRow_spec rfl (hfirst (Schema.podLabel, "pod_id") (by decide) (by decide))
    · obtain ⟨c, hc, rfl⟩ := List.mem_map.mp hrow
      have := (Container.row_spec (hconts c hc) (hkeys c hc)).1
      rw [← hentity] at this
      exact this
  · intro r hr htable row hrow
    fin_cases hr
    · exact absurd htable (show ¬Schema.podCondition = Schema.container by decide)
    · exact absurd htable (show ¬Schema.podLabel = Schema.container by decide)
    · obtain ⟨c, hc, rfl⟩ := List.mem_map.mp hrow
      exact (Container.row_spec (hconts c hc) (hkeys c hc)).2
  · -- the dictionary is the second of four relations
    intro r hr hdict
    fin_cases hr
    · cases hdict
    · refine ⟨rfl, fun row hrow => ?_⟩
      obtain ⟨l, _, rfl⟩ := List.mem_map.mp hrow
      exact takes_single rfl (by decide)
    · cases hdict
    · cases hdict
  · intro t ht
    obtain ⟨c, hc, rfl⟩ := List.mem_map.mp ht
    exact (hconts c hc).1
  · intro r hr htable
    fin_cases hr
    · exact absurd htable (show ¬Schema.podCondition = Schema.container by decide)
    · exact absurd htable (show ¬Schema.podLabel = Schema.container by decide)
    · show (p.containers.map Container.row).map (fun row => cellAt row 0) =
        (p.containers.map Container.target).map fun t => Cell.id t.id
      rw [List.map_map, List.map_map]
      rfl

theorem VolumeClaim.describes {o : ClusterObject} {c : VolumeClaim}
    (h : VolumeClaim.ofObject o = .ok c) : c.mapped.Describes .claim o := by
  obtain ⟨hid, hconds⟩ := parts_of_ok h
  have hentity : c.id = o.id.entityId := congrArg ObjectId.entityId hid
  refine
    { id := hentity
      objectId := hid
      row_takes := takes_single rfl (by decide)
      row_names := names_of_positions (by decide) (by decide) (by decide)
        ⟨congrArg Cell.id hentity, congrArg (fun x : ObjectId => Cell.text x.ns) hid,
          congrArg (fun x : ObjectId => Cell.text x.name) hid⟩
      sets := rfl
      owner := ?_
      rows := ?_
      anchored := ?_
      dictionary := ?_
      tables := show ["container_logs", "pod_metrics", "persistent_volume_claim", "pvc_condition",
        "label", "pvc_label"].Nodup by decide
      targets := fun t ht => absurd ht List.not_mem_nil
      pod := fun h => absurd rfl h
      containers := ?_ }
  · intro r hr
    fin_cases hr <;> rfl
  · intro r hr row hrow
    have hfirst := fun s hs => Kind.sets_first .claim (s := s) hs
    fin_cases hr
    · obtain ⟨x, hx, rfl⟩ := List.mem_map.mp hrow
      exact Condition.row_spec ((hconds x hx).trans hentity.symm) rfl
        (hfirst (Schema.claimCondition, "pvc_id") (by decide) (by decide))
    · obtain ⟨l, _, rfl⟩ := List.mem_map.mp hrow
      exact Label.ownedRow_spec rfl (hfirst (Schema.claimLabel, "pvc_id") (by decide) (by decide))
  · intro r hr htable row hrow
    fin_cases hr
    · exact absurd htable (show ¬Schema.claimCondition = Schema.container by decide)
    · exact absurd htable (show ¬Schema.claimLabel = Schema.container by decide)
  · -- the dictionary is the second of three relations
    intro r hr hdict
    fin_cases hr
    · cases hdict
    · refine ⟨rfl, fun row hrow => ?_⟩
      obtain ⟨l, _, rfl⟩ := List.mem_map.mp hrow
      exact takes_single rfl (by decide)
    · cases hdict
  · intro r hr htable
    fin_cases hr
    · exact absurd htable (show ¬Schema.claimCondition = Schema.container by decide)
    · exact absurd htable (show ¬Schema.claimLabel = Schema.container by decide)

theorem Kind.map_describes {k : Kind} {o : ClusterObject} {m : Mapped} (h : k.map o = .ok m) :
    m.Describes k o := by
  cases k with
  | pod =>
    cases hp : Pod.ofObject o with
    | error e => simp [Kind.map, hp, Except.map] at h
    | ok p =>
      simp only [Kind.map, hp, Except.map, Except.ok.injEq] at h
      exact h ▸ Pod.describes hp
  | claim =>
    cases hc : VolumeClaim.ofObject o with
    | error e => simp [Kind.map, hc, Except.map] at h
    | ok c =>
      simp only [Kind.map, hc, Except.map, Except.ok.injEq] at h
      exact h ▸ VolumeClaim.describes hc

/-! ## Keys in play -/

/-- The keys that a notification brings into play. An object that cannot be mapped brings none. -/
def Notification.keys (k : Kind) (n : Notification) : List (List String) :=
  match n.object.map k.map with
  | some (.ok m) => m.keys
  | _ => []

theorem Notification.keys_seen {k : Kind} {n : Notification} {o : ClusterObject} {m : Mapped}
    (hn : n.object = some o) (hm : k.map o = .ok m) : n.keys k = m.keys := by
  simp [keys, hn, hm]

def barePod (ns name : String) (containers : List String) : ClusterObject :=
  ⟨.object [("metadata", .object [("name", .text name), ("namespace", .text ns)]),
    ("spec", .object [("containers",
      .array (containers.map fun c => .object [("name", .text c)]))])]⟩

theorem barePod_id (ns name : String) (containers : List String) :
    (barePod ns name containers).id = ⟨ns, name⟩ := rfl

theorem mapM_ok {α β γ ε : Type} {f : α → Except ε β} {g : γ → α} {h : γ → β}
    (hf : ∀ c, f (g c) = .ok (h c)) (cs : List γ) : (cs.map g).mapM f = .ok (cs.map h) := by
  induction cs with
  | nil => rfl
  | cons c cs ih =>
    rw [List.map_cons, List.mapM_cons, hf, ih]
    rfl

theorem Container.ofJson_bare (pod : ObjectId) (c : String) :
    Container.ofJson pod [] (.object [("name", .text c)]) =
      .ok ⟨.container pod.ns pod.name c, pod.entityId, c, "", false, 0, "unknown", false⟩ := rfl

theorem barePod_map (ns name : String) (containers : List String) :
    ∃ m, Kind.pod.map (barePod ns name containers) = .ok m ∧
      m.keys = [ns, name] :: (containers.map fun c => [ns, name, c]) ∧
      m.targets = containers.map fun c => ⟨c, .container ns name c, false⟩ := by
  have hspec : (barePod ns name containers).items ["spec", "containers"] =
      containers.map fun c => .object [("name", .text c)] := rfl
  have hconditions : (barePod ns name containers).items ["status", "conditions"] = [] := rfl
  have hstatuses : (barePod ns name containers).items ["status", "containerStatuses"] = [] := rfl
  have hconts := mapM_ok (Container.ofJson_bare ⟨ns, name⟩) containers
  simp only [Kind.map, Pod.ofObject, hspec, hconditions, hstatuses, barePod_id, hconts]
  refine ⟨_, rfl, ?_, ?_⟩ <;> simp [Mapped.keys, Pod.mapped, Container.target]

end KubeLedger
