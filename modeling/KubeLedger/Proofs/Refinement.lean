import KubeLedger.Proofs.RowSets
import KubeLedger.Store.Memory

/- A store on a database server does what the store in memory does. Both are given the same writes;
   the one sends statements, which the database reads and executes, and the other changes its lists.
   After each write every table holds the same set of rows, both have returned the same, and no
   transaction is open (`Agrees`). -/
namespace KubeLedger

open Database

/-! ## A write -/

def Server.write : Write → Server.Session (Except StoreError Unit)
  | .upsert u rows => (Server.upsert u rows).bind fun r => .done (r.map fun _ => ())
  | .replace t foreignKey owner rows => Server.replace t foreignKey owner rows
  | .delete step owner => (Server.delete step owner).bind fun r => .done (r.map fun _ => ())

/-- A write to a database through its statements. -/
def Engine.write (catalog : Catalog) (read : Sql → Option Sql) (affected : Sql → List Cell → Nat)
    (w : Write) (e : Engine) : Except StoreError Unit × Engine :=
  (Server.write w).run (Engine.answer catalog read affected) e

def Memory.written (w : Write) (m : Memory) : Except StoreError Unit × Memory :=
  ((m.write w).1.map fun _ => (), (m.write w).2)

/-- The values that rows have in the key can be compared. Rows may have any number of values. -/
def Table.Keyable (t : Table) (rows : List Row) : Prop :=
  ∀ r ∈ rows, ∀ i ∈ t.keyAt, ∀ c ∈ r[i]?, c.IsKeyable

instance (t : Table) (rows : List Row) : Decidable (t.Keyable rows) :=
  inferInstanceAs (Decidable (∀ r ∈ rows, _))

/-- A write to tables of a catalog and by their columns, of rows whose keys can be compared. -/
def Write.Admitted (catalog : Catalog) : Write → Prop
  | .upsert u rows =>
    u.table ∈ catalog.tables ∧ (∀ c ∈ u.updated, c ∈ u.table.columns) ∧ u.table.Keyable rows
  | .replace t foreignKey _ rows =>
    t ∈ catalog.tables ∧ foreignKey ∈ t.columns ∧ t.Keyable rows
  | .delete (.direct t column) _ => t ∈ catalog.tables ∧ column ∈ t.columns
  | .delete (.through t column via viaColumn) _ =>
    (t ∈ catalog.tables ∧ column ∈ t.columns) ∧ via ∈ catalog.tables ∧ viaColumn ∈ via.columns

instance (catalog : Catalog) : DecidablePred (Write.Admitted catalog)
  | .upsert .. | .replace .. => inferInstanceAs (Decidable (_ ∧ _ ∧ _))
  | .delete (.direct ..) _ => inferInstanceAs (Decidable (_ ∧ _))
  | .delete (.through ..) _ => inferInstanceAs (Decidable ((_ ∧ _) ∧ _ ∧ _))

/-- A database server holds what a store in memory holds. -/
structure Agrees (catalog : Catalog) (e : Engine) (m : Memory) : Prop where
  idle : e.pending = none
  rows : ∀ name, e.committed name = {r | r ∈ m.database.rows name}
  settled : ∀ t ∈ catalog.tables, t.Settled (m.database.rows t.name)
  working : m.failing = []

theorem Table.Keyable.storable {t : Table} {rows : List Row} (h : t.Keyable rows)
    (hshape : checkShape t rows = .ok ()) : ∀ r ∈ rows, t.Storable r := by
  intro r hr
  have hfits := checkShape_ok_iff.mp hshape r hr
  refine ⟨hfits, fun i hi => ?_⟩
  obtain ⟨c, -, hindex⟩ := List.mem_filterMap.mp hi
  have hlt : i < r.length := by
    have hfound := List.findIdx?_eq_some_iff_getElem.mp hindex
    exact hfits ▸ hfound.1
  refine h r hr i hi (cellAt r i) ?_
  rw [Table.cellAt_eq_getElem hlt, List.getElem?_eq_getElem hlt, Option.mem_def]

section Step
variable {catalog : Catalog} {read : Sql → Option Sql} {affected : Sql → List Cell → Nat}
  {e : Engine} {m : Memory} {w : Write}

theorem Engine.execute_eq (hread : catalog.Reads read) {s : Sql} {bound : List Cell} {db : RowSets}
    (hplain : catalog.Worded → s.IsPlain)
    (hmeaning : Sql.meaning catalog bound e.current s = some db) :
    e.answer catalog read affected (.execute s bound) =
      (.done (affected s bound), e.changed db) := by
  rw [answer, execute, hread.read hplain, Option.bind_some, hmeaning]

variable (affected) in
/-- In a transaction a statement changes what is pending. -/
theorem Engine.execute_pending (committed : RowSets) (hread : catalog.Reads read) {s : Sql}
    {bound : List Cell} {db db' : RowSets} (hplain : catalog.Worded → s.IsPlain)
    (hmeaning : Sql.meaning catalog bound db s = some db') :
    Engine.answer catalog read affected (.execute s bound) ⟨committed, some db⟩ =
      (.done (affected s bound), ⟨committed, some db'⟩) :=
  execute_eq hread hplain hmeaning

theorem Memory.written_refused {error : StoreError}
    (h : checkShape w.table w.rows = .error error) : m.written w = (.error error, m) := by
  have hrefusal : m.refusal? w = some error := by simp [refusal?, h]
  rw [written, write, hrefusal]
  rfl

theorem Memory.written_done (hworking : m.failing = []) (h : checkShape w.table w.rows = .ok ()) :
    m.written w = (.ok (), m.applied w) := by
  have hrefusal : m.refusal? w = none := by simp [refusal?, h, hworking]
  rw [written, write, hrefusal]
  rfl

/-- What a write leaves: both have returned the same, and they agree again. -/
def Agrees.After (catalog : Catalog) (served : Except StoreError Unit × Engine)
    (kept : Except StoreError Unit × Memory) : Prop :=
  served.1 = kept.1 ∧ Agrees catalog served.2 kept.2

theorem Agrees.refused (h : Agrees catalog e m) {error : StoreError}
    (hshape : checkShape w.table w.rows = .error error) :
    After catalog (.error error, e) (m.written w) := by
  rw [Memory.written_refused hshape]
  exact ⟨rfl, h⟩

/-- A write that changes one table alike in both leaves them in agreement. -/
theorem Agrees.applied (h : Agrees catalog e m) (ht : w.table ∈ catalog.tables)
    (hshape : checkShape w.table w.rows = .ok ())
    (hsettled : w.table.Settled (m.database.rowsAfter w)) :
    After catalog
      (.ok (), ⟨Function.update e.committed w.table.name {r | r ∈ m.database.rowsAfter w}, none⟩)
      (m.written w) := by
  have hself : (m.applied w).database.rows w.table.name = m.database.rowsAfter w :=
    m.database.rows_apply_self w
  have hother : ∀ name, name ≠ w.table.name →
      (m.applied w).database.rows name = m.database.rows name :=
    fun _ hname => m.database.rows_apply_ne hname
  rw [Memory.written_done h.working hshape]
  refine ⟨rfl, rfl, fun name => ?_, fun t hmem => ?_, h.working⟩
  · by_cases hname : name = w.table.name
    · subst hname
      rw [hself]
      exact Function.update_self ..
    · rw [hother name hname, ← h.rows]
      exact Function.update_of_ne hname ..
  · by_cases hname : t.name = w.table.name
    · obtain rfl := catalog.unique t hmem w.table ht hname
      rw [hself]
      exact hsettled
    · rw [hother t.name hname]
      exact h.settled t hmem

variable (affected) in
/-- Outside of a transaction a statement changes a table for good. -/
theorem Agrees.executed (h : Agrees catalog e m) (hread : catalog.Reads read) {s : Sql}
    {bound : List Cell} {name : String} {rows : Set Row} (hplain : catalog.Worded → s.IsPlain)
    (hmeaning : Sql.meaning catalog bound e.committed s =
      some (Function.update e.committed name rows)) :
    e.answer catalog read affected (.execute s bound) =
      (.done (affected s bound), ⟨Function.update e.committed name rows, none⟩) := by
  have hcurrent : e.current = e.committed := by rw [Engine.current, h.idle, Option.getD_none]
  have hchanged : e.changed (Function.update e.committed name rows) =
      ⟨Function.update e.committed name rows, none⟩ := by
    simp only [Engine.changed, h.idle]
  rw [← hchanged]
  exact Engine.execute_eq hread hplain (by rw [hcurrent]; exact hmeaning)

theorem Agrees.upsert (h : Agrees catalog e m) (hread : catalog.Reads read) {u : Upsert}
    {rows : List Row} (hw : (Write.upsert u rows).Admitted catalog) :
    After catalog (e.write catalog read affected (.upsert u rows)) (m.written (.upsert u rows)) := by
  obtain ⟨ht, hu, hkeyable⟩ := hw
  cases hshape : checkShape u.table rows with
  | error error =>
    have hsome : rows.isEmpty = false := by
      cases rows with
      | nil => cases hshape
      | cons => rfl
    have hserved : e.write catalog read affected (.upsert u rows) = (.error error, e) := by
      simp [Engine.write, Server.write, Server.upsert, hsome, hshape, Script.bind, Script.run,
        Except.map]
    rw [hserved]
    exact h.refused (w := .upsert u rows) hshape
  | ok _ =>
    have hstorable := hkeyable.storable hshape
    have hsettled := h.settled u.table ht
    have hafter := (Table.foldl_inserted (catalog.key_columns ht) hstorable hsettled).2
    have hserved : e.write catalog read affected (.upsert u rows) =
        (.ok (), ⟨Function.update e.committed u.table.name
          {r | r ∈ m.database.rowsAfter (.upsert u rows)}, none⟩) := by
      by_cases hempty : rows.isEmpty
      · -- nothing is said to the server, and nothing changes in memory
        obtain rfl := List.isEmpty_iff.mp hempty
        have hsame : {r | r ∈ m.database.rowsAfter (.upsert u [])} = e.committed u.table.name :=
          (h.rows u.table.name).symm
        rw [hsame, Function.update_eq_self, ← h.idle]
        rfl
      · have hpos : 0 < rows.length := List.length_pos_iff.mpr (by simpa using hempty)
        have hmeaning := Sql.meaning_ofUpsert ht hu hstorable (h.rows u.table.name) hsettled
        have hexecuted := h.executed affected hread
          (fun hwords => Sql.plain_ofUpsert hwords ht hu hpos) hmeaning
        simp only [Engine.write, Server.write, Server.upsert, hempty, Bool.false_eq_true, if_false,
          hshape, Script.bind, Script.run, hexecuted]
        rfl
    rw [hserved]
    exact h.applied (w := .upsert u rows) ht hshape hafter

theorem Agrees.delete (h : Agrees catalog e m) (hread : catalog.Reads read) {step : Cascade}
    {owner : EntityId} (hw : (Write.delete step owner).Admitted catalog) :
    After catalog (e.write catalog read affected (.delete step owner))
      (m.written (.delete step owner)) := by
  have hdone : step.table ∈ catalog.tables ∧ (catalog.Worded → (Sql.ofCascade step).IsPlain) ∧
      Sql.meaning catalog [.id owner] e.committed (Sql.ofCascade step) =
        some (Function.update e.committed step.table.name
          {r | r ∈ m.database.cascadeRows step owner}) := by
    cases step with
    | direct t column =>
      obtain ⟨ht, hc⟩ := hw
      exact ⟨ht, fun hwords => Sql.plain_deleteWhere hwords ht hc,
        Sql.meaning_deleteWhere ht hc (h.rows t.name)⟩
    | through t column via viaColumn =>
      obtain ⟨⟨ht, hc⟩, hvia, hv⟩ := hw
      exact ⟨ht, fun hwords => Sql.plain_deleteVia hwords ht hc hvia hv,
        Sql.meaning_deleteVia ht hc hvia hv m.database h.rows (h.settled via hvia)⟩
  obtain ⟨ht, hplain, hmeaning⟩ := hdone
  have hafter : step.table.Settled (m.database.cascadeRows step owner) := by
    cases step with
    | direct t column => exact Table.settled_deleteRows (h.settled t ht)
    | through t column via viaColumn => exact Table.settled_deleteRows (h.settled t ht)
  have hexecuted := h.executed affected hread hplain hmeaning
  have hserved : e.write catalog read affected (.delete step owner) =
      (.ok (), ⟨Function.update e.committed step.table.name
        {r | r ∈ m.database.cascadeRows step owner}, none⟩) := by
    simp only [Engine.write, Server.write, Server.delete, Script.bind, Script.run, hexecuted]
    rfl
  rw [hserved]
  exact h.applied (w := .delete step owner) ht rfl hafter

theorem Agrees.replace (h : Agrees catalog e m) (hread : catalog.Reads read) {t : Table}
    {foreignKey : String} {owner : EntityId} {rows : List Row}
    (hw : (Write.replace t foreignKey owner rows).Admitted catalog) :
    After catalog (e.write catalog read affected (.replace t foreignKey owner rows))
      (m.written (.replace t foreignKey owner rows)) := by
  obtain ⟨ht, hc, hkeyable⟩ := hw
  cases hshape : checkShape t rows with
  | error error =>
    have hserved : e.write catalog read affected (.replace t foreignKey owner rows) =
        (.error error, e) := by
      simp [Engine.write, Server.write, Server.replace, hshape, Script.run]
    rw [hserved]
    exact h.refused (w := .replace t foreignKey owner rows) hshape
  | ok _ =>
    have hstorable := hkeyable.storable hshape
    let kept := deleteRows t foreignKey [.id owner] (m.database.rows t.name)
    have hkept : t.Settled kept := Table.settled_deleteRows (h.settled t ht)
    have hu : ∀ c ∈ (Upsert.mk t .updateAll).updated, c ∈ t.columns :=
      fun c hmem => (List.mem_filter.mp hmem).1
    have hafter := (Table.foldl_inserted (u := ⟨t, .updateAll⟩) (catalog.key_columns ht) hstorable
      hkept).2
    have hbegin : e.answer catalog read affected .begin =
        (.done 0, ⟨e.committed, some e.committed⟩) := by
      simp [Engine.answer, Engine.current, h.idle]
    have hdeletion : Sql.meaning catalog [.id owner] e.committed (.deleteWhere t.name foreignKey) =
        some (Function.update e.committed t.name {r | r ∈ kept}) :=
      Sql.meaning_deleteWhere ht hc (h.rows t.name)
    have hdeleted := Engine.execute_pending affected e.committed hread
      (fun hwords => Sql.plain_deleteWhere hwords ht hc) hdeletion
    have hserved : e.write catalog read affected (.replace t foreignKey owner rows) =
        (.ok (), ⟨Function.update e.committed t.name {r | r ∈ upsertRows ⟨t, .updateAll⟩ rows kept},
          none⟩) := by
      by_cases hempty : rows.isEmpty
      · -- only the deletion is pending when the transaction is committed
        obtain rfl := List.isEmpty_iff.mp hempty
        simp only [Engine.write, Server.write, Server.replace, hshape, Script.run, hbegin,
          Server.Reply.affected?, hdeleted, List.isEmpty_nil, if_true]
        rfl
      · have hpos : 0 < rows.length := List.length_pos_iff.mpr (by simpa using hempty)
        have hrows : Function.update e.committed t.name {r | r ∈ kept} t.name = {r | r ∈ kept} :=
          Function.update_self ..
        have hmeaning := Sql.meaning_ofUpsert (u := ⟨t, .updateAll⟩) ht hu hstorable hrows hkept
        rw [Function.update_idem] at hmeaning
        have hinserted := Engine.execute_pending affected e.committed hread
          (fun hwords => Sql.plain_ofUpsert hwords ht hu hpos) hmeaning
        simp only [Engine.write, Server.write, Server.replace, hshape, Script.run, hbegin, hdeleted,
          hempty, Bool.false_eq_true, if_false, Server.Reply.affected?, hinserted]
        rfl
    rw [hserved]
    exact h.applied (w := .replace t foreignKey owner rows) ht hshape hafter

theorem Agrees.write (h : Agrees catalog e m) (hread : catalog.Reads read)
    (hw : w.Admitted catalog) :
    After catalog (e.write catalog read affected w) (m.written w) := by
  cases w with
  | upsert u rows => exact h.upsert hread hw
  | replace t foreignKey owner rows => exact h.replace hread hw
  | delete step owner => exact h.delete hread hw

end Step

/-! ## Sequences of writes -/

/-- Writes, one after another: what each of them returns, and what is left. -/
def writeAll {σ : Type} (write : Write → σ → Except StoreError Unit × σ) :
    List Write → σ → List (Except StoreError Unit) × σ
  | [], s => ([], s)
  | w :: ws, s =>
    let (result, s) := write w s
    let (results, s) := writeAll write ws s
    (result :: results, s)

section Run
variable {catalog : Catalog} {read : Sql → Option Sql} {affected : Sql → List Cell → Nat}
  {e : Engine} {m : Memory} {ws : List Write}

theorem Agrees.empty : Agrees catalog {} {} := by
  refine ⟨rfl, fun name => ?_, fun t _ => ⟨nofun, .nil⟩, rfl⟩
  rw [Database.rows_empty]
  ext r
  simp

/-- Writes, one after another, keep both in agreement. -/
theorem Agrees.run (h : Agrees catalog e m) (hread : catalog.Reads read)
    (hws : ∀ w ∈ ws, w.Admitted catalog) :
    let served := writeAll (Engine.write catalog read affected) ws e
    let kept := writeAll Memory.written ws m
    served.1 = kept.1 ∧ Agrees catalog served.2 kept.2 := by
  induction ws generalizing e m with
  | nil => exact ⟨rfl, h⟩
  | cons w ws ih =>
    obtain ⟨hw, hrest⟩ := List.forall_mem_cons.mp hws
    obtain ⟨hresult, hagree⟩ := h.write hread hw
    obtain ⟨hresults, hlast⟩ := ih hagree hrest
    exact ⟨congrArg₂ List.cons hresult hresults, hlast⟩

/-- However writes to empty tables follow one another, a database that executes the statements of a
server returns what a store in memory returns, refusals of rows among it, and each of its tables
holds the same rows. -/
theorem server_refines_memory (hread : catalog.Reads read) (hws : ∀ w ∈ ws, w.Admitted catalog) :
    (writeAll (Engine.write catalog read affected) ws {}).1 = (writeAll Memory.written ws {}).1 ∧
      (writeAll (Engine.write catalog read affected) ws {}).2.pending = none ∧
      ∀ name, (writeAll (Engine.write catalog read affected) ws {}).2.committed name =
        {r | r ∈ (writeAll Memory.written ws {}).2.database.rows name} := by
  obtain ⟨hresults, hagree⟩ := Agrees.empty.run hread hws
  exact ⟨hresults, hagree.idle, hagree.rows⟩

end Run

def Schema.catalog : Catalog where
  tables := tables
  unique := fun _ h _ h' hname => eq_of_name h h' hname
  keyed := by decide +kernel

/-- All names of the ledger's tables can stand in a text. -/
theorem Schema.worded : catalog.Worded := by decide +kernel

namespace Schema

/-- Writes to tables of the ledger: a label is written twice, a row is too short, a table that is all
key gets a row twice, and telemetry goes with the container that it is of. -/
@[irreducible]
def someWrites : List Write :=
  let one : EntityId := ⟨List.replicate 20 1, rfl⟩
  let two : EntityId := ⟨List.replicate 20 2, rfl⟩
  [.upsert ⟨label, .keep⟩
    [[.id one, .text "app", .text "web"], [.id one, .text "App", .text "Web"]],
   .upsert ⟨label, .updateAll⟩ [[.id one]],
   .replace podLabel "pod_id" two [[.id two, .id one], [.id two, .id one]],
   .upsert ⟨container, .update ["state"]⟩
    [[.id one, .id two, .text "nginx", .null, .bool true, .int 0, .null]],
   .upsert ⟨containerMetric, .updateAll⟩ [[.id one, .int 0, .text "cpu", .text "usage", .null]],
   .delete (.through containerMetric "container_id" container "pod_id") two]

end Schema

/-- It applies to the tables of the ledger, by the texts of statements. -/
theorem server_refines_memory_ledger :
    Schema.catalog.Reads (fun s => Sql.read? s.text) ∧
      (∀ w ∈ Schema.someWrites, w.Admitted Schema.catalog) ∧
      (writeAll (Engine.write Schema.catalog (fun s => Sql.read? s.text) fun _ _ => 0)
        Schema.someWrites {}).1 =
          [.ok (), .error (.shape "label" 3 1), .ok (), .ok (), .ok (), .ok ()] ∧
      (∀ name, (writeAll (Engine.write Schema.catalog (fun s => Sql.read? s.text) fun _ _ => 0)
        Schema.someWrites {}).2.committed name =
          {r | r ∈ (writeAll Memory.written Schema.someWrites {}).2.database.rows name}) ∧
      (["label", "pod_label", "prometheus_container_metric"].map fun name =>
        ((writeAll Memory.written Schema.someWrites {}).2.database.rows name).length) = [1, 1, 0] := by
  have hread : Schema.catalog.Reads fun s => Sql.read? s.text := .texts Schema.worded
  have hws : ∀ w ∈ Schema.someWrites, w.Admitted Schema.catalog := by decide +kernel
  have hresults : (writeAll Memory.written Schema.someWrites {}).1 =
      [.ok (), .error (.shape "label" 3 1), .ok (), .ok (), .ok (), .ok ()] := by
    decide +kernel
  obtain ⟨hsame, -, hrows⟩ := server_refines_memory hread hws
  exact ⟨hread, hws, hsame.trans hresults, hrows, by decide +kernel⟩

end KubeLedger
