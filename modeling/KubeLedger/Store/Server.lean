import KubeLedger.Script
import KubeLedger.Store.Memory
import KubeLedger.Text.Bytes

/- A store on a database server. What is said to the server are statements of the relational language,
   as data with their text. Values are not part of a statement: each question mark of the text takes
   one bound value. Each operation is a script of requests: a write is one prepared statement, and a
   replacement is a transaction that deletes, inserts and commits. A transaction that is given up is
   rolled back. Values come back typed by the columns of the server. -/
namespace KubeLedger

/-! ## Statements -/

/-- An assignment to a column of the stored row where a key is taken. -/
inductive Assignment where
  /-- The column takes the value of the new row. -/
  | fromNew (column : String)
  /-- The column takes the value it has. -/
  | unchanged (column : String)
deriving DecidableEq, Repr

/-- A statement. -/
inductive Sql where
  /-- Inserts rows, and assigns where the key is taken. -/
  | insert (table : String) (columns : List String) (rowCount : Nat) (onDuplicate : List Assignment)
  /-- Deletes the rows whose column has the bound value. -/
  | deleteWhere (table column : String)
  /-- Deletes the rows whose column has the key of a `via` row that has the bound value. -/
  | deleteVia (table column key via viaColumn : String)
  /-- Reads columns of all rows. -/
  | select (columns : List String) (table : String)
deriving DecidableEq, Repr

namespace Sql

def commas (parts : List String) : String := String.intercalate ", " parts

def assignmentText : Assignment → String
  | .fromNew c => c ++ "=VALUES(" ++ c ++ ")"
  | .unchanged c => c ++ "=" ++ c

def placeholders (columns : List String) : String :=
  "(" ++ commas (columns.map fun _ => "?") ++ ")"

def text : Sql → String
  | .insert table columns rowCount onDuplicate =>
    "INSERT INTO " ++ table ++ " (" ++ commas columns ++ ") VALUES " ++
      commas (List.replicate rowCount (placeholders columns)) ++ " ON DUPLICATE KEY UPDATE " ++
      commas (onDuplicate.map assignmentText)
  | .deleteWhere table column => "DELETE FROM " ++ table ++ " WHERE " ++ column ++ " = ?"
  | .deleteVia table column key via viaColumn =>
    "DELETE FROM " ++ table ++ " WHERE " ++ column ++ " IN (SELECT " ++ key ++ " FROM " ++ via ++
      " WHERE " ++ viaColumn ++ " = ?)"
  | .select columns table => "SELECT " ++ commas columns ++ " FROM " ++ table

/-- The assignments of an upsert. One that refreshes nothing assigns the first key column to itself,
since the language asks for at least one assignment. -/
def assignments (u : Upsert) : List Assignment :=
  match u.updated with
  | [] => [.unchanged (u.table.key.headD "")]
  | columns => columns.map .fromNew

def ofUpsert (u : Upsert) (rowCount : Nat) : Sql :=
  .insert u.table.name u.table.columns rowCount (assignments u)

/-- The statement of a cascade step. -/
def ofCascade : Cascade → Sql
  | .direct t column => .deleteWhere t.name column
  | .through t column via viaColumn =>
    .deleteVia t.name column (via.key.headD "") via.name viaColumn

end Sql

/-! ## Operations -/

namespace Server

open KubeLedger.Text

/-- What is asked of the server. -/
inductive Request where
  | begin
  | commit
  | rollback
  /-- A prepared statement with its bound values. -/
  | execute (statement : Sql) (bound : List Cell)

inductive Wire where
  | null
  | int (value : Int)
  | float (value : Float)
  | bytes (value : Bytes)

/-- What the server answers. -/
inductive Reply where
  | failed (words : String)
  | done (affected : Nat)
  /-- A result: the type names of its columns, and its rows. -/
  | result (types : List String) (rows : List (List Wire))

abbrev Session (α : Type) := Script Request (fun _ => Reply) α

/-- How many rows a reply says were affected. -/
def Reply.affected? : Reply → Except StoreError Nat
  | .failed words => .error (.database words)
  | .done n => .ok n
  | .result _ _ => .ok 0

/-- Upserts rows with one statement. Without rows there is nothing to say to the server. -/
def upsert (u : Upsert) (rows : List Row) : Session (Except StoreError Nat) :=
  if rows.isEmpty then .done (.ok 0)
  else
    match checkShape u.table rows with
    | .error e => .done (.error e)
    | .ok () => .ask (.execute (Sql.ofUpsert u rows.length) rows.flatten) fun r => .done r.affected?

def giveUp (e : StoreError) : Session (Except StoreError Unit) :=
  .ask .rollback fun _ => .done (.error e)

/-- Commits a transaction; one that cannot be committed is given up. -/
def commit : Session (Except StoreError Unit) :=
  .ask .commit fun r =>
    match r.affected? with
    | .error e => giveUp e
    | .ok _ => .done (.ok ())

/-- Replaces the rows of an owner in one transaction. -/
def replace (t : Table) (foreignKey : String) (owner : EntityId) (rows : List Row) :
    Session (Except StoreError Unit) :=
  match checkShape t rows with
  | .error e => .done (.error e)
  | .ok () =>
    .ask .begin fun r =>
      match r.affected? with
      | .error e => .done (.error e)
      | .ok _ =>
        .ask (.execute (.deleteWhere t.name foreignKey) [.id owner]) fun r =>
          match r.affected? with
          | .error e => giveUp e
          | .ok _ =>
            if rows.isEmpty then commit
            else
              .ask (.execute (Sql.ofUpsert ⟨t, .updateAll⟩ rows.length) rows.flatten) fun r =>
                match r.affected? with
                | .error e => giveUp e
                | .ok _ => commit

def delete (step : Cascade) (owner : EntityId) : Session (Except StoreError Nat) :=
  .ask (.execute (Sql.ofCascade step) [.id owner]) fun r => .done r.affected?

def textTypes : List String :=
  ["CHAR", "VARCHAR", "ENUM", "TINYTEXT", "TEXT", "MEDIUMTEXT", "LONGTEXT"]

def byteTypes : List String :=
  ["BINARY", "VARBINARY", "TINYBLOB", "BLOB", "MEDIUMBLOB", "LONGBLOB"]

/-- The cell for a value in a column of a type. A value that the type cannot hold is an error. -/
def decode (type : String) (w : Wire) : Except StoreError Cell :=
  let refused : Except StoreError Cell := .error (.database "mismatched column type")
  match w with
  | .null => .ok .null
  | .int n =>
    if type = "BOOLEAN" then .ok (.bool (n != 0))
    else if type.endsWith "INT" || type.endsWith "UNSIGNED" then .ok (.int (Int64.ofInt n))
    else refused
  | .float x => if type = "FLOAT" ∨ type = "DOUBLE" then .ok (.float x) else refused
  | .bytes bs =>
    if byteTypes.contains type then .ok (.binary bs)
    else if textTypes.contains type then
      match decode? bs with
      | some s => .ok (.text s)
      | none => refused
    else refused

/-- The cells of the first columns of a result row. -/
def decodeRow (count : Nat) (types : List String) (row : List Wire) : Except StoreError Row :=
  (((types.zip row).take count).mapM fun (t, w) => decode t w)

def select (t : Table) (columns : List String) : Session (Except StoreError (List Row)) :=
  .ask (.execute (.select columns t.name) []) fun r =>
    match r with
    | .failed words => .done (.error (.database words))
    | .done _ => .done (.ok [])
    | .result types rows => .done (rows.mapM (decodeRow columns.length types))

end Server

end KubeLedger
