import KubeLedger.Table

/- What is written to a store, and a store in memory. Rows are upserted: a row whose key is new is
   inserted, and one whose key is taken refreshes some columns of the row there. A database keeps each
   table as a list of rows in the order of their insertion, and every write to it is total; refusals
   are decided before. A store in memory is a database whose tables can be made to fail, and it
   remembers the size of every upsert. A refused write changes nothing. -/
namespace KubeLedger

/-! ## Writes -/

/-- What happens to the row whose key an upserted row shares. -/
inductive OnConflict where
  /-- Every column outside the key is refreshed. -/
  | updateAll
  /-- The given columns are refreshed. -/
  | update (columns : List String)
  /-- The row stays as it is. -/
  | keep
deriving DecidableEq, Repr

structure Upsert where
  table : Table
  onConflict : OnConflict := .updateAll
deriving DecidableEq, Repr

/-- The columns that are refreshed where the key is taken. -/
def Upsert.updated (u : Upsert) : List String :=
  match u.onConflict with
  | .updateAll => u.table.valueColumns
  | .update columns => columns
  | .keep => []

inductive Write where
  /-- Upserts rows in order. -/
  | upsert (how : Upsert) (rows : List Row)
  | replace (table : Table) (foreignKey : String) (owner : EntityId) (rows : List Row)
  /-- Removes rows that depend on the owner. -/
  | delete (step : Cascade) (owner : EntityId)

def Write.table : Write → Table
  | .upsert u _ => u.table
  | .replace t _ _ _ => t
  | .delete step _ => step.table

def Write.rows : Write → List Row
  | .upsert _ rows => rows
  | .replace _ _ _ rows => rows
  | .delete _ _ => []

/-- Why a store refuses. -/
inductive StoreError where
  /-- A row does not have one value for each column. -/
  | shape (table : String) (expected actual : Nat)
  /-- Writes to the table were made to fail. -/
  | injected (table : String)
  /-- The database failed; the words are its own. -/
  | database (words : String)
deriving DecidableEq, Repr

def StoreError.message : StoreError → String
  | .shape table expected actual =>
    "Row for table '" ++ table ++ "' has " ++ toString actual ++ " values but the table has " ++
      toString expected ++ " columns"
  | .injected table => "Injected failure: writes to " ++ table ++ " are failing"
  | .database words => "Database error: " ++ words

/-- Refuses the first row that does not fit the table. -/
def checkShape (t : Table) (rows : List Row) : Except StoreError Unit :=
  match rows.find? fun r => r.length != t.columns.length with
  | some r => .error (.shape t.name t.columns.length r.length)
  | none => .ok ()

/-! ## Databases -/

/-- The rows of each table that has been written to. -/
structure Database where
  tables : List (String × List Row) := []

/-- Puts the rows of a table in place of those before. -/
def putRows (name : String) (rows : List Row) : List (String × List Row) → List (String × List Row)
  | [] => [(name, rows)]
  | (n, r) :: rest => if name = n then (n, rows) :: rest else (n, r) :: putRows name rows rest

namespace Database

/-- The rows of a table in the order of insertion. -/
def rows (db : Database) (name : String) : List Row := (db.tables.lookup name).getD []

def setRows (db : Database) (name : String) (rows : List Row) : Database :=
  ⟨putRows name rows db.tables⟩

def cellAt (row : Row) (i : Nat) : Cell := row[i]?.getD .null

def agree (positions : List Nat) (a b : Row) : Bool :=
  positions.all fun i => (cellAt a i).same (cellAt b i)

/-- The stored row with the values of the new one at some positions. -/
def refresh (positions : List Nat) (stored new : Row) : Row :=
  stored.mapIdx fun i c => if positions.contains i then cellAt new i else c

/-- Upserts one row: the first row with its key is refreshed, and without one it goes to the end. -/
def upsertRow (key updated : List Nat) (new : Row) : List Row → List Row
  | [] => [new]
  | stored :: rest =>
    if agree key stored new then refresh updated stored new :: rest
    else stored :: upsertRow key updated new rest

/-- The positions of columns; unknown ones are left out. -/
def positions (t : Table) (columns : List String) : List Nat := columns.filterMap t.indexOf?

def upsertRows (u : Upsert) (new stored : List Row) : List Row :=
  new.foldl
    (fun rows r => upsertRow (positions u.table u.table.key) (positions u.table u.updated) r rows)
    stored

def holds (i : Nat) (values : List Cell) (row : Row) : Bool :=
  values.any fun v => v.same (cellAt row i)

def deleteRows (t : Table) (column : String) (values : List Cell) (stored : List Row) : List Row :=
  match t.indexOf? column with
  | some i => stored.filter fun r => !holds i values r
  | none => stored

/-- The keys of the rows of `via` that refer to the owner. -/
def keysVia (db : Database) (via : Table) (viaColumn : String) (owner : EntityId) : List Cell :=
  match via.indexOf? viaColumn, via.key.head?.bind via.indexOf? with
  | some v, some k =>
    ((db.rows via.name).filter fun r => (cellAt r v).same (.id owner)).map fun r => cellAt r k
  | _, _ => []

def cascadeRows (db : Database) (step : Cascade) (owner : EntityId) : List Row :=
  match step with
  | .direct t column => deleteRows t column [.id owner] (db.rows t.name)
  | .through t column via viaColumn =>
    deleteRows t column (db.keysVia via viaColumn owner) (db.rows t.name)

def rowsAfter (db : Database) : Write → List Row
  | .upsert u new => upsertRows u new (db.rows u.table.name)
  | .replace t foreignKey owner new =>
    upsertRows ⟨t, .updateAll⟩ new (deleteRows t foreignKey [.id owner] (db.rows t.name))
  | .delete step owner => db.cascadeRows step owner

def apply (db : Database) (w : Write) : Database := db.setRows w.table.name (db.rowsAfter w)

/-- How many rows a write affects: those it brings, or those it removes. -/
def affected (db : Database) (w : Write) : Nat :=
  match w with
  | .delete _ _ => (db.rows w.table.name).length - (db.rowsAfter w).length
  | _ => w.rows.length

def select (db : Database) (t : Table) (columns : List String) : List Row :=
  (db.rows t.name).map fun r => (positions t columns).map (cellAt r)

def find (db : Database) (t : Table) (column : String) (value : Cell) : List Row :=
  match t.indexOf? column with
  | some i => (db.rows t.name).filter fun r => (cellAt r i).same value
  | none => []

end Database

/-! ## The store -/

/-- A store in memory. -/
structure Memory where
  database : Database := {}
  /-- The tables whose writes fail. -/
  failing : List String := []
  /-- The table and row count of each upsert, in order. -/
  upserts : List (String × Nat) := []

namespace Memory

/-- Makes every later write to a table fail. -/
def fail (m : Memory) (table : String) : Memory := { m with failing := table :: m.failing }

def clear (m : Memory) : Memory := { m with failing := [] }

def rows (m : Memory) (t : Table) : List Row := m.database.rows t.name

def batches (m : Memory) (t : Table) : List Nat :=
  (m.upserts.filter fun u => u.1 == t.name).map fun u => u.2

/-- Why a write is refused, if it is. A row of the wrong shape is found first. -/
def refusal? (m : Memory) (w : Write) : Option StoreError :=
  match checkShape w.table w.rows with
  | .error e => some e
  | .ok () => if m.failing.contains w.table.name then some (.injected w.table.name) else none

/-- The store after a write that is not refused. -/
def applied (m : Memory) (w : Write) : Memory :=
  { m with
    database := m.database.apply w
    upserts :=
      match w with
      | .upsert u rows => m.upserts ++ [(u.table.name, rows.length)]
      | _ => m.upserts }

/-- Writes, and says how many rows were affected. -/
def write (m : Memory) (w : Write) : Except StoreError Nat × Memory :=
  match m.refusal? w with
  | some e => (.error e, m)
  | none => (.ok (m.database.affected w), m.applied w)

end Memory

end KubeLedger
