import KubeLedger.Proofs.Effects
import KubeLedger.Proofs.Upserts

/- Rows by object. A kind has tables that hold rows of an object, each with a column of the owner:
   its primary table, and those that a deletion clears by owner. An upsert brings rows of its
   object and of no other (`Write.Brings`), so a row of another object can only be touched through
   its key. Where the key names the owner that does not happen, and where it names a container it
   does not as long as the row is kept under a container of its own pod (`Brings.find_other`). A
   deletion removes the rows of its object from all of these tables, and no others
   (`Kind.removed_find`). -/
namespace KubeLedger

open Database

namespace Kind

/-- The tables that hold rows of an object, each with the column of the owner. -/
def holdings (k : Kind) : List (Table × String) :=
  (k.cascade ++ [Cascade.direct k.table "id"]).filterMap fun step =>
    match step with
    | .direct t column => some (t, column)
    | .through .. => none

theorem mem_holdings {k : Kind} {t : Table} {column : String} :
    (t, column) ∈ k.holdings ↔ Cascade.direct t column ∈ k.cascade ++ [.direct k.table "id"] := by
  unfold holdings
  rw [List.mem_filterMap]
  constructor
  · rintro ⟨step, hstep, heq⟩
    cases step with
    | direct t' column' =>
      cases heq
      exact hstep
    | through t' column' via viaColumn => cases heq
  · exact fun h => ⟨_, h, rfl⟩

theorem primary_mem (k : Kind) : (k.table, "id") ∈ k.holdings ∧ "id" ∈ k.table.key := by
  cases k <;> decide

theorem containers_held : (Schema.container, "pod_id") ∈ Kind.pod.holdings := by decide

theorem sets_subset (k : Kind) : k.sets ⊆ k.holdings := by
  have hall : ∀ h ∈ k.sets, h ∈ k.holdings := by cases k <;> decide
  exact hall

theorem holdings_mem (k : Kind) {h : Table × String} (hh : h ∈ k.holdings) :
    h.1 ∈ Schema.tables := by
  have hall : ∀ h ∈ k.holdings, h.1 ∈ Schema.tables := by cases k <;> decide
  exact hall h hh

theorem holdings_unique (k : Kind) {t : Table} {column column' : String}
    (h : (t, column) ∈ k.holdings) (h' : (t, column') ∈ k.holdings) : column = column' := by
  have hall : ∀ h ∈ k.holdings, ∀ h' ∈ k.holdings, h.1 = h'.1 → h.2 = h'.2 := by
    cases k <;> decide
  exact hall _ h _ h' rfl

theorem holdings_ne (k : Kind) {h : Table × String} (hh : h ∈ k.holdings) :
    h.1.name ≠ Schema.label.name := by
  have hall : ∀ h ∈ k.holdings, h.1.name ≠ Schema.label.name := by cases k <;> decide
  exact hall h hh

theorem holdings_ne_telemetry (k : Kind) {h : Table × String} (hh : h ∈ k.holdings) :
    h.1.name ≠ Schema.containerMetric.name := by
  have hall : ∀ h ∈ k.holdings, h.1.name ≠ Schema.containerMetric.name := by
    cases k <;> decide
  exact hall h hh

/-- The key names the owner, or else a container in the column before that of the owner. -/
theorem holdings_key (k : Kind) {h : Table × String} (hh : h ∈ k.holdings) :
    h.2 ∈ h.1.key ∨ (h.1.keyAt = [0] ∧ h.1.indexOf? h.2 = some 1) := by
  have hall : ∀ h ∈ k.holdings,
      h.2 ∈ h.1.key ∨ (h.1.keyAt = [0] ∧ h.1.indexOf? h.2 = some 1) := by
    cases k <;> decide
  exact hall h hh

/-- What a removal takes: the rows of the object, and the telemetry of the containers of a pod. -/
theorem removal_cases {k : Kind} {e : EntityId} {w : Write} (hw : w ∈ k.removal e) :
    (∃ t column, (t, column) ∈ k.holdings ∧ w = .delete (.direct t column) e) ∨ k = .pod ∧
      w = .delete (.through Schema.containerMetric "container_id" Schema.container "pod_id") e := by
  obtain ⟨step, hstep, rfl⟩ := List.mem_map.mp hw
  cases step with
  | direct t column => exact .inl ⟨t, column, mem_holdings.mpr hstep, rfl⟩
  | through t column via viaColumn =>
    refine .inr ?_
    cases k with
    | pod =>
      simp only [cascade, Schema.podCascade, List.cons_append, List.mem_cons, Cascade.through.injEq,
        reduceCtorEq, List.nil_append, List.not_mem_nil, or_false] at hstep
      obtain ⟨rfl, rfl, rfl, rfl⟩ := hstep
      exact ⟨rfl, rfl⟩
    | claim => simp [cascade, Schema.claimCascade] at hstep

theorem removal_mem {k : Kind} {e : EntityId} {w : Write} (hw : w ∈ k.removal e) :
    w.table ∈ Schema.tables := by
  rcases removal_cases hw with ⟨t, column, hmem, rfl⟩ | ⟨rfl, rfl⟩
  · exact k.holdings_mem hmem
  · exact (by decide : Schema.containerMetric ∈ Schema.tables)

theorem removal_filter_rows {k : Kind} {e : EntityId} {w : Write} (hw : w ∈ k.removal e)
    {d : Database} {t : Table} {column : String} (hmem : (t, column) ∈ k.holdings)
    {p : Row → Bool} (hother : ∀ row, p row = true → t.ownedBy column e row = false) :
    ((d.apply w).rows t.name).filter p = (d.rows t.name).filter p := by
  by_cases hname : t.name = w.table.name
  · rcases removal_cases hw with ⟨t', column', hmem', rfl⟩ | ⟨-, rfl⟩
    · obtain rfl : t = t' := Schema.eq_of_name (k.holdings_mem hmem) (k.holdings_mem hmem') hname
      obtain rfl := k.holdings_unique hmem hmem'
      have hrows : (d.apply (.delete (.direct t column) e)).rows t.name =
          (d.rows t.name).filter fun row => !t.ownedBy column e row :=
        (rows_apply_self d _).trans (Table.deleteRows_id _)
      rw [hrows, List.filter_filter]
      refine List.filter_congr fun row _ => ?_
      cases hp : p row with
      | false => rfl
      | true => simp [hother row hp]
    · exact absurd hname (k.holdings_ne_telemetry hmem)
  · rw [rows_apply_ne d hname]

end Kind

/-! ## Writes that bring rows of an object -/

/-- A row as an owner may have it in a table. -/
structure Table.Admits (keys : List (List String)) (t : Table) (column : String) (e : EntityId)
    (row : Row) : Prop where
  takes : t.Takes row
  owned : t.ownedBy column e row = true
  anchored : column ∈ t.key ∨ Anchored keys row

/-- A write that brings rows of one owner, or entries of the label dictionary. -/
inductive Write.Brings (k : Kind) (keys : List (List String)) (e : EntityId) : Write → Prop
  | upsert {t : Table} {column : String} {rows : List Row} (hmem : (t, column) ∈ k.holdings)
    (hrows : ∀ row ∈ rows, t.Admits keys column e row) :
    Brings k keys e (.upsert ⟨t, .updateAll⟩ rows)
  | replace {t : Table} {column : String} {rows : List Row} (hmem : (t, column) ∈ k.holdings)
    (hrows : ∀ row ∈ rows, t.Admits keys column e row) : Brings k keys e (.replace t column e rows)
  | dictionary {rows : List Row} (hrows : ∀ row ∈ rows, Schema.label.Takes row) :
    Brings k keys e (.upsert ⟨Schema.label, .keep⟩ rows)

namespace Write.Brings

variable {k : Kind} {keys : List (List String)} {e e' : EntityId} {w : Write} {d : Database}
  {t : Table} {column : String}

theorem sane (hw : w.Brings k keys e) : w.IsSane := by
  cases hw with
  | upsert hmem hrows =>
    exact ⟨k.holdings_mem hmem, Or.inl rfl, fun row hrow => (hrows row hrow).takes⟩
  | replace hmem hrows => exact ⟨k.holdings_mem hmem, fun row hrow => (hrows row hrow).takes⟩
  | dictionary hrows => exact ⟨by decide, Or.inr rfl, hrows⟩

theorem table_mem (hw : w.Brings k keys e) : w.table ∈ Schema.tables := by
  cases hw with
  | upsert hmem hrows => exact k.holdings_mem hmem
  | replace hmem hrows => exact k.holdings_mem hmem
  | dictionary hrows => exact (by decide : Schema.label ∈ Schema.tables)

theorem ne_telemetry (hw : w.Brings k keys e) : w.table.name ≠ Schema.containerMetric.name := by
  cases hw with
  | upsert hmem hrows => exact k.holdings_ne_telemetry hmem
  | replace hmem hrows => exact k.holdings_ne_telemetry hmem
  | dictionary hrows => exact (by decide : Schema.label.name ≠ Schema.containerMetric.name)

theorem mem (hw : w.Brings k keys e) (hd : d.IsSound) (hmem : (t, column) ∈ k.holdings) {row : Row}
    (hrow : row ∈ (d.apply w).rows t.name) :
    t.ownedBy column e row = true ∨ row ∈ d.rows t.name := by
  rcases hd.mem_apply hw.sane (k.holdings_mem hmem) hrow with hold | ⟨hname, hnew⟩
  · exact Or.inr hold
  · refine Or.inl ?_
    cases hw with
    | @upsert t' column' rows hmem' hrows =>
      obtain rfl : t = t' := Schema.eq_of_name (k.holdings_mem hmem) (k.holdings_mem hmem') hname
      obtain rfl := k.holdings_unique hmem hmem'
      exact (hrows row hnew).owned
    | @replace t' column' rows hmem' hrows =>
      obtain rfl : t = t' := Schema.eq_of_name (k.holdings_mem hmem) (k.holdings_mem hmem') hname
      obtain rfl := k.holdings_unique hmem hmem'
      exact (hrows row hnew).owned
    | dictionary hrows => exact absurd hname (k.holdings_ne hmem)

/-- Rows that are not of the owner, and that share their key with none that the owner may have,
stay as they are. -/
theorem filter_rows (hw : w.Brings k keys e) (hd : d.IsSound) (hmem : (t, column) ∈ k.holdings)
    {p : Row → Bool} (hother : ∀ row, p row = true → t.ownedBy column e row = false)
    (hapart : ∀ row ∈ d.rows t.name, p row = true → ∀ new, t.Admits keys column e new →
      t.sameKey row new = false) :
    ((d.apply w).rows t.name).filter p = (d.rows t.name).filter p := by
  by_cases hname : t.name = w.table.name
  · have hlawful := Schema.lawful (k.holdings_mem hmem)
    have hfits := (hd t (k.holdings_mem hmem)).fits
    rw [hname, rows_apply_self]
    cases hw with
    | @upsert t' column' rows hmem' hrows =>
      obtain rfl : t = t' := Schema.eq_of_name (k.holdings_mem hmem) (k.holdings_mem hmem') hname
      obtain rfl := k.holdings_unique hmem hmem'
      refine Table.filter_upsertRows hlawful (fun row hrow => (hrows row hrow).takes) hfits
        (fun n hn => ?_) fun row hrow n hn hk => ?_
      · by_contra hp
        have hfree := hother n ((Bool.not_eq_false _).mp hp)
        rw [(hrows n hn).owned] at hfree
        cases hfree
      · by_contra hp
        have hfree := hapart row hrow ((Bool.not_eq_false _).mp hp) n (hrows n hn)
        rw [hk] at hfree
        cases hfree
    | @replace t' column' rows hmem' hrows =>
      obtain rfl : t = t' := Schema.eq_of_name (k.holdings_mem hmem) (k.holdings_mem hmem') hname
      obtain rfl := k.holdings_unique hmem hmem'
      have hafter : d.rowsAfter (.replace t column e rows) = upsertRows ⟨t, .updateAll⟩ rows
          ((d.rows t.name).filter fun row => !t.ownedBy column e row) := by
        rw [← Table.deleteRows_id]
        rfl
      rw [hafter]
      exact Table.others_replace hlawful (fun row hrow => (hrows row hrow).takes) hfits hother
        (fun row hrow => (hrows row hrow).owned)
        fun row hrow hp n hn => hapart row hrow hp n (hrows n hn)
    | dictionary hrows => exact absurd hname (k.holdings_ne hmem)
  · rw [rows_apply_ne d hname]

/-- The rows of another owner stay as they are. -/
theorem find_other (hkeys : Distinct keys) (hw : w.Brings k keys e) (hd : d.IsSound)
    (hmem : (t, column) ∈ k.holdings) (hne : e' ≠ e)
    (hanchored : column ∈ t.key ∨ ∀ row ∈ d.find t column (.id e'), Anchored keys row) :
    (d.apply w).find t column (.id e') = d.find t column (.id e') := by
  rw [Table.find_id] at hanchored
  rw [Table.find_id, Table.find_id]
  have hother : ∀ row, t.ownedBy column e' row = true → t.ownedBy column e row = false :=
    fun row hrow => Table.ownedBy_unique hrow hne
  -- no row of the other owner has the key of a new one
  refine hw.filter_rows hd hmem hother fun row hrow howned new hnew => ?_
  refine Table.apart hkeys hnew.takes hnew.owned (hother row howned) ?_
  rcases k.holdings_key hmem with hkey | hcontainer
  · exact Or.inl hkey
  · rcases hanchored with hkey | hanchored
    · exact Or.inl hkey
    · have hrow' := hanchored row (List.mem_filter.mpr ⟨hrow, howned⟩)
      exact hnew.anchored.imp_right fun hn => ⟨hcontainer, hn, hrow'⟩

end Write.Brings

/-! ## Upserts -/

section Upserts
variable {k : Kind} {keys : List (List String)} {o : ClusterObject} {m : Mapped}

theorem Mapped.Describes.plan_brings (hd : m.Describes k o) (hkeys : m.keys ⊆ keys) :
    ∀ w ∈ m.plan k, w.Brings k keys o.id.entityId := by
  intro w hw
  rcases List.mem_cons.mp hw with rfl | hw
  · refine .upsert k.primary_mem.1 fun row hrow => ?_
    obtain rfl := List.mem_singleton.mp hrow
    exact ⟨hd.row_takes, hd.row_owned, Or.inl k.primary_mem.2⟩
  · obtain ⟨r, hr, hw⟩ := List.mem_flatMap.mp hw
    cases hdisc : r.discipline with
    | replaceSet =>
      rw [Relation.writes_replaced hdisc, List.mem_singleton] at hw
      have hrep : r ∈ m.replaced := List.mem_filter.mpr ⟨hr, by simp [hdisc]⟩
      have hset := hd.mem_replaced hrep
      rw [hw, hd.owner r hr, hd.id]
      refine .replace (k.sets_subset hset) fun row hrow => ?_
      obtain ⟨htakes, howned⟩ := hd.rows r hrep row hrow
      refine ⟨htakes, hd.id ▸ howned, (k.sets_key hset).imp_right fun hcontainer => ?_⟩
      obtain ⟨pod, name, hin, hcells⟩ := hd.anchored r hrep (Prod.mk.inj hcontainer).1 row hrow
      exact ⟨pod, name, hkeys hin, hcells⟩
    | insertIfAbsent =>
      obtain ⟨htable, hrows⟩ := hd.dictionary r hr hdisc
      unfold Relation.writes at hw
      simp only [hdisc] at hw
      split at hw
      · cases hw
      · rw [List.mem_singleton.mp hw, htable]
        exact .dictionary hrows

theorem Mapped.Describes.snapshot_brings (hd : m.Describes k o) (hkeys : m.keys ⊆ keys)
    {trace : List Exchange} {w : Write} (hw : Sync.IsSnapshot m trace w)
    (hreported : ∀ metrics, (⟨.usage m.objectId, (.ok (some metrics) :
      Except ClientError (Option ClusterObject))⟩ : Exchange) ∈ trace →
        ∀ us, ContainerUsage.ofMetrics o.id metrics = .ok us →
          ∀ u ∈ us, [o.id.ns, o.id.name, u.containerName] ∈ keys) :
    w.Brings k keys o.id.entityId := by
  -- both tables have the container first and the pod second
  have admits : ∀ {t : Table} {name : String} {rest : Row}, t.keyAt = [0] →
      t.indexOf? "pod_id" = some 1 → rest.length + 2 = t.columns.length →
      [o.id.ns, o.id.name, name] ∈ keys →
      t.Admits keys "pod_id" o.id.entityId
        (.id (.container o.id.ns o.id.name name) :: .id o.id.entityId :: rest) := by
    intro t name rest hat hcolumn hwidth hin
    refine ⟨takes_single hwidth hat, ?_, Or.inr ⟨o.id, name, hin, rfl, rfl⟩⟩
    exact Table.ownedBy_iff.mpr (Table.cell_of_indexOf hcolumn _)
  cases hw with
  | logs ls hne h =>
    obtain rfl := hd.pod hne
    have hmem : (Schema.containerLogs, "pod_id") ∈ Kind.pod.holdings := by decide
    refine .upsert hmem fun row hrow => ?_
    obtain ⟨l, hl, rfl⟩ := List.mem_map.mp hrow
    obtain ⟨hpod, t, ht, hid, -⟩ := h l hl
    have hkey : [o.id.ns, o.id.name, t.name] ∈ m.keys := by
      rw [← hd.objectId]
      exact List.mem_cons_of_mem _ (List.mem_map_of_mem (f := fun t : SnapshotTarget =>
        [m.objectId.ns, m.objectId.name, t.name]) ht)
    have hrow : l.row = .id (.container o.id.ns o.id.name t.name) :: .id o.id.entityId ::
        l.row.drop 2 := by
      simp [ContainerLog.row, hid, hpod, hd.targets t ht, hd.objectId]
    rw [hrow]
    exact admits (by decide) (by decide) rfl (hkeys hkey)
  | usage metrics us hne hin hread =>
    obtain rfl := hd.pod hne
    have hmem : (Schema.podMetrics, "pod_id") ∈ Kind.pod.holdings := by decide
    refine .upsert hmem fun row hrow => ?_
    obtain ⟨u, hu, rfl⟩ := List.mem_map.mp hrow
    rw [hd.objectId] at hread
    obtain ⟨hid, hpod⟩ := ContainerUsage.ids_of_ok hread u hu
    have hrow : u.row = .id (.container o.id.ns o.id.name u.containerName) :: .id o.id.entityId ::
        u.row.drop 2 := by
      simp [ContainerUsage.row, hid, hpod]
    rw [hrow]
    exact admits (by decide) (by decide) rfl (hreported metrics hin us hread u hu)

end Upserts

/-! ## Runs -/

section Runs
variable {k : Kind} {keys : List (List String)} {e e' : EntityId} {d d' : Database}
  {ws : List Write} {t : Table} {column : String}

theorem Changes.sound (h : Changes (fun _ => True) ws d d') (hws : ∀ w ∈ ws, w.IsSane)
    (hd : d.IsSound) : d'.IsSound :=
  h.preserves (fun hs hd => hd.sameOn (fun _ => trivial) hs)
    (fun w hw {_} hd => hd.apply (hws w hw)) hd

theorem Changes.mem_brought (h : Changes (fun _ => True) ws d d')
    (hws : ∀ w ∈ ws, w.Brings k keys e) (hd : d.IsSound) (hmem : (t, column) ∈ k.holdings) :
    ∀ row ∈ d'.rows t.name, t.ownedBy column e row = true ∨ row ∈ d.rows t.name := by
  refine (h.preserves (P := fun x => x.IsSound ∧
    ∀ row ∈ x.rows t.name, t.ownedBy column e row = true ∨ row ∈ d.rows t.name) ?_ ?_
    ⟨hd, fun row hrow => Or.inr hrow⟩).2
  · rintro x x' hs ⟨hx, hrows⟩
    exact ⟨hx.sameOn (fun _ => trivial) hs, by rwa [hs _ trivial]⟩
  · rintro w hw x ⟨hx, hrows⟩
    refine ⟨hx.apply (hws w hw).sane, fun row hrow => ?_⟩
    exact ((hws w hw).mem hx hmem hrow).elim Or.inl (hrows row)

theorem Changes.find_other (hkeys : Distinct keys) (h : Changes (fun _ => True) ws d d')
    (hws : ∀ w ∈ ws, w.Brings k keys e) (hd : d.IsSound) (hmem : (t, column) ∈ k.holdings)
    (hne : e' ≠ e)
    (hanchored : column ∈ t.key ∨ ∀ row ∈ d.find t column (.id e'), Anchored keys row) :
    d'.find t column (.id e') = d.find t column (.id e') := by
  refine (h.preserves (P := fun x => x.IsSound ∧
    x.find t column (.id e') = d.find t column (.id e')) ?_ ?_ ⟨hd, rfl⟩).2
  · rintro x x' hs ⟨hx, hfind⟩
    refine ⟨hx.sameOn (fun _ => trivial) hs, ?_⟩
    rw [Table.find_id, hs _ trivial, ← Table.find_id]
    exact hfind
  · rintro w hw x ⟨hx, hfind⟩
    refine ⟨hx.apply (hws w hw).sane, ?_⟩
    rw [(hws w hw).find_other hkeys hx hmem hne (by rwa [hfind])]
    exact hfind

theorem Kind.removed_find (h : Changes (fun _ => True) (k.removal e) d d')
    (hmem : (t, column) ∈ k.holdings) :
    d'.find t column (.id e) = [] ∧
      ∀ e', e' ≠ e → d'.find t column (.id e') = d.find t column (.id e') := by
  have hrows := Kind.removed_direct h (Kind.mem_holdings.mp hmem) trivial
  simp only [Table.find_id, hrows, List.filter_filter]
  refine ⟨by simp, fun e' hne => List.filter_congr fun row _ => ?_⟩
  cases howned : t.ownedBy column e' row
  · rfl
  · simp [Table.ownedBy_unique howned hne]

/-- A container is told by its identity. -/
theorem Database.IsSound.container_unique (hd : d.IsSound) {x y : Row} {c : Cell} (hc : c.IsExact)
    (hx : x ∈ d.rows Schema.container.name) (hy : y ∈ d.rows Schema.container.name)
    (hxc : cellAt x 0 = c) (hyc : cellAt y 0 = c) : x = y := by
  have hkey : Schema.container.keyAt = [0] := by decide
  have hsame : ∀ a b : Row, cellAt a 0 = c → cellAt b 0 = c →
      Schema.container.sameKey a b = true := by
    intro a b ha hb
    simp [Table.sameKey, hkey, agree, ha, hb, (Cell.same_iff hc).mpr rfl]
  exact (hd Schema.container (by decide)).keyed.unique hx hy (hsame x y hxc hyc) (hsame y x hyc hxc)

theorem Kind.removed_telemetry (h : Changes (fun _ => True) (Kind.pod.removal e) d d')
    (hd : d.IsSound) (hne : e' ≠ e) {c : EntityId}
    (hc : ∃ row ∈ d.find Schema.container "pod_id" (.id e'), cellAt row 0 = .id c) :
    d'.find Schema.containerMetric "container_id" (.id c) =
      d.find Schema.containerMetric "container_id" (.id c) := by
  rw [Table.find_id, Kind.removed_through h trivial trivial, (Table.owned_deleteRows _ _).2,
    ← Table.find_id]
  -- a container of the deleted pod with this identity would be the row of the other pod
  intro hvia
  obtain ⟨y, hy, hcell'⟩ := mem_keysVia.mp hvia
  obtain ⟨x, hx, hcell⟩ := hc
  rw [Table.find_id] at hx hy
  obtain ⟨hx, hother⟩ := List.mem_filter.mp hx
  obtain ⟨hy, howned⟩ := List.mem_filter.mp hy
  obtain rfl := hd.container_unique (c := .id c) trivial hx hy hcell hcell'
  rw [Table.ownedBy_unique hother hne] at howned
  cases howned

end Runs

end KubeLedger
