import KubeLedger.Proofs.Effects
import KubeLedger.Proofs.IdSets
import KubeLedger.Proofs.Upserts

/- What a sync does to the primary table, and to what is known. An upsert writes the primary row
   first and knows the object last, a deletion removes the row last and then forgets the object. So
   a sync that fails leaves what is known as it was, and the primary table either as it was or,
   after an upsert, with the row put (`seen_primary`, `deleted_primary`). Others may write every
   other table in the meantime. -/
namespace KubeLedger

open Database

section Primary
variable {σ : Type} {env : Surroundings σ} {db : σ → Database} {own : String → Prop} {w w' : σ}
  {r : Reconciler} {n : Notification} {result : Except SyncError Reconciler}

/-- An upsert that succeeds knows the object and has put its row. One that fails has put it, or
not. -/
theorem Reconciler.seen_primary (henv : env.Keeps db own) (hown : own r.kind.table.name)
    {o : ClusterObject} (hn : n.object = some o)
    (hrun : (r.sync n).runIn env w = (result, w')) :
    (∃ m, r.kind.map o = .ok m ∧
      (db w').rows r.kind.table.name = r.kind.table.put m.row ((db w).rows r.kind.table.name) ∧
      ∀ r', result = .ok r' → r' = { r with known := r.known.insert o.id }) ∨
    ((db w').rows r.kind.table.name = (db w).rows r.kind.table.name ∧ ∃ e, result = .error e) := by
  obtain ⟨trace, hruns, halong⟩ := Sync.runIn_iff.mp hrun
  obtain ⟨upserted, hupsert, rfl⟩ := (Sync.sync_seen hn).mp hruns
  have hchanges := henv.changes halong
  rcases Sync.upsert_inv hupsert with ⟨e, -, rfl, rfl⟩ | ⟨m, hmap, hend⟩
  · exact Or.inr ⟨hchanges.frame hown fun x hx => (nomatch hx), _, rfl⟩
  · have hd := Kind.map_describes hmap
    rcases hend with ⟨e, rfl, -, -, x, rest, hcut⟩ |
      ⟨before, after, taken, rfl, -, hall, htaken, rfl⟩
    · rcases hd.primary_rows_of_cut hcut hchanges hown with hrows | hrows
      · exact Or.inr ⟨hrows, e, rfl⟩
      · exact Or.inl ⟨m, hmap, hrows, fun r' hr' => nomatch hr'⟩
    · rw [written_append, hall] at hchanges
      have hsnapshots := fun w hw => (Sync.snapshots_inv htaken).1 w (written_subset_asked after hw)
      refine Or.inl ⟨m, hmap, hd.primary_rows hsnapshots hchanges hown, ?_⟩
      intro r' hr'
      cases taken with
      | error e => cases hr'
      | ok u =>
        cases hr'
        rw [hd.objectId]

theorem Kind.cascade_ne_primary (k : Kind) :
    ∀ step ∈ k.cascade, step.table.name ≠ k.table.name := by
  cases k <;> decide

/-- A deletion that succeeds has removed the row and forgets the object. One that fails has not. -/
theorem Reconciler.deleted_primary (henv : env.Keeps db own) (hown : own r.kind.table.name)
    (hn : n.object = none) (hrun : (r.sync n).runIn env w = (result, w')) :
    (result = .ok { r with known := r.known.erase n.id } ∧
      (db w').rows r.kind.table.name = ((db w).rows r.kind.table.name).filter fun x =>
        !r.kind.table.ownedBy "id" n.id.entityId x) ∨
    ((db w').rows r.kind.table.name = (db w).rows r.kind.table.name ∧
      ∃ e, result = .error e ∧ e.isRetryable = true) := by
  obtain ⟨trace, hruns, halong⟩ := Sync.runIn_iff.mp hrun
  obtain ⟨deleted, hdelete, rfl⟩ := (Sync.sync_deleted hn).mp hruns
  have hchanges := henv.changes halong
  have hcascade : ∀ x ∈ r.kind.cascade.map fun step => Write.delete step n.id.entityId,
      x.table.name ≠ r.kind.table.name := by
    intro x hx
    obtain ⟨step, hstep, rfl⟩ := List.mem_map.mp hx
    exact r.kind.cascade_ne_primary step hstep
  obtain ⟨-, ⟨rfl, hall⟩ | ⟨e, rfl, hretry, x, rest, hcut⟩⟩ :=
    Sync.delete_follows r.kind n.id hdelete
  · rw [hall] at hchanges
    exact Or.inl ⟨rfl, Kind.removed_direct hchanges
      (List.mem_append_right r.kind.cascade List.mem_cons_self) hown⟩
  · refine Or.inr ⟨hchanges.frame hown fun x' hx' => hcascade x' ?_, e, rfl, hretry⟩
    -- what was written is a proper prefix, so the removal of the row itself is not in it
    have hlast : written trace <+: r.kind.cascade.map fun step => .delete step n.id.entityId := by
      rw [Kind.removal, List.map_append, List.map_singleton] at hcut
      have hrest : (x :: rest).dropLast ++ [(x :: rest).getLast (List.cons_ne_nil x rest)] =
          x :: rest := List.dropLast_append_getLast _
      rw [← hrest, ← List.append_assoc] at hcut
      exact ⟨_, (List.append_inj_left' hcut rfl).symm⟩
    exact hlast.subset hx'

end Primary

/-! ## What is known from the start -/

/-- Where the name of an object stands in its row. -/
theorem Kind.name_columns (k : Kind) :
    positions k.table ["namespace", "name"] = [1, 2] ∧ k.table.indexOf? "namespace" = some 1 ∧
      k.table.indexOf? "name" = some 2 := by
  cases k <;> decide

theorem Kind.names_iff (k : Kind) {row : Row} {id : ObjectId} :
    k.table.cell row "namespace" = .text id.ns ∧ k.table.cell row "name" = .text id.name ↔
      cellAt row 1 = .text id.ns ∧ cellAt row 2 = .text id.name := by
  rw [Table.cell_of_indexOf k.name_columns.2.1, Table.cell_of_indexOf k.name_columns.2.2]

theorem Reconciler.knownRow?_eq_some {r : Reconciler} {a b : Cell} {id : ObjectId} :
    r.knownRow? [a, b] = some id ↔
      (a = .text id.ns ∧ b = .text id.name) ∧ r.inScope id.ns = true := by
  unfold knownRow?
  split
  · rename_i ns name heq
    obtain ⟨rfl, hb⟩ := List.cons.inj heq
    obtain rfl := List.head_eq_of_cons_eq hb
    by_cases hscope : r.inScope ns = true
    · rw [if_pos hscope]
      constructor
      · rintro h
        cases h
        exact ⟨⟨rfl, rfl⟩, hscope⟩
      · rintro ⟨⟨hns, hname⟩, -⟩
        cases hns
        cases hname
        rfl
    · rw [if_neg hscope]
      constructor
      · exact fun h => nomatch h
      · rintro ⟨⟨hns, -⟩, h⟩
        cases hns
        exact absurd h hscope
  · rename_i hother
    constructor
    · exact fun h => nomatch h
    · rintro ⟨⟨rfl, rfl⟩, -⟩
      exact absurd rfl (hother _ _)

/-- A warm-up leaves the store alone, whether it succeeds or not. -/
theorem Reconciler.warmUp_same {σ : Type} {env : Surroundings σ} {db : σ → Database}
    {own : String → Prop} {w w' : σ} {r : Reconciler} {result : Except SyncError Reconciler}
    (henv : env.Keeps db own) (hrun : r.warmUp.runIn env w = (result, w')) :
    SameOn own (db w) (db w') := by
  obtain ⟨trace, hruns, halong⟩ := Sync.runIn_iff.mp hrun
  obtain ⟨selected, hselect, -⟩ := Sync.runs_map.mp hruns
  obtain ⟨rows, rfl, -⟩ := Sync.runs_select.mp hselect
  obtain ⟨mid, henvq, rfl⟩ := halong
  exact henv.other (x := ⟨_, _⟩) henvq rfl

theorem Reconciler.warmUp_known {σ : Type} {env : Surroundings σ} {db : σ → Database}
    {own : String → Prop} {w w' : σ} {r r' : Reconciler} (henv : env.Keeps db own)
    (hown : own r.kind.table.name) (hrun : r.warmUp.runIn env w = (.ok r', w')) :
    SameOn own (db w) (db w') ∧ r'.kind = r.kind ∧ r'.config = r.config ∧ r'.known.Grouped ∧
      ∀ id, r'.known.contains id = true ↔ r.inScope id.ns = true ∧
        ∃ row ∈ (db w).rows r.kind.table.name,
          r.kind.table.cell row "namespace" = .text id.ns ∧
            r.kind.table.cell row "name" = .text id.name := by
  obtain ⟨trace, hruns, halong⟩ := Sync.runIn_iff.mp hrun
  obtain ⟨selected, hselect, hresult⟩ := Sync.runs_map.mp hruns
  obtain ⟨a | rows, rfl, rfl⟩ := Sync.runs_select.mp hselect <;> cases hresult
  obtain ⟨mid, henvq, rfl⟩ := halong
  refine ⟨warmUp_same henv hrun, rfl, rfl, IdSet.grouped_ofList _, fun id => ?_⟩
  obtain ⟨d, hd, rfl⟩ := henv.selected henvq
  -- the columns that are read are the second and the third
  have hselected : d.select r.kind.table ["namespace", "name"] =
      ((db w).rows r.kind.table.name).map fun row => [cellAt row 1, cellAt row 2] := by
    unfold Database.select
    rw [r.kind.name_columns.1, hd _ hown]
    rfl
  unfold knowing
  rw [IdSet.contains_ofList, hselected, List.filterMap_map, List.mem_filterMap]
  constructor
  · rintro ⟨row, hrow, hknown⟩
    obtain ⟨hcells, hscope⟩ := knownRow?_eq_some.mp hknown
    exact ⟨hscope, row, hrow, r.kind.names_iff.mpr hcells⟩
  · rintro ⟨hscope, row, hrow, hcells⟩
    exact ⟨row, hrow, knownRow?_eq_some.mpr ⟨r.kind.names_iff.mp hcells, hscope⟩⟩

end KubeLedger
