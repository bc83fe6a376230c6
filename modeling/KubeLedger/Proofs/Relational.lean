import Mathlib.Data.Set.Basic
import Mathlib.Logic.Function.Basic
import KubeLedger.Proofs.Statements
import KubeLedger.Store.Server

/- What statements mean. A database holds a set of rows for each table of its catalog. An insertion
   takes its rows in their order: a row whose key is new is added, and where the key is taken the
   assignments are made, one after another, to the row that has it. A deletion takes all rows for
   which its condition is true. Nothing is equal to null, and a statement that names a table or a
   column that is not there is refused.

   A database is given statements with bound values, and reads the statements by their texts. What is
   executed in a transaction takes effect when it is committed, and nothing of it does when it is
   rolled back. -/
namespace KubeLedger

/-- Tables of a database. No two have one name, and each has a key among its columns. -/
structure Catalog where
  tables : List Table
  unique : ∀ t ∈ tables, ∀ t' ∈ tables, t.name = t'.name → t = t'
  keyed : ∀ t ∈ tables, t.key ≠ [] ∧ ∀ c ∈ t.key, c ∈ t.columns

namespace Catalog

/-- All names can stand in a text. -/
def Worded (c : Catalog) : Prop :=
  ∀ t ∈ c.tables, Sql.IsWord t.name ∧ ∀ column ∈ t.columns, Sql.IsWord column

instance (c : Catalog) : Decidable c.Worded := inferInstanceAs (Decidable (∀ t ∈ c.tables, _))

/-- How a database reads statements: it takes them as they are, or, where names are words, it reads
their texts. -/
inductive Reads (c : Catalog) : (Sql → Option Sql) → Prop
  | statements : c.Reads some
  | texts (h : c.Worded) : c.Reads fun s => Sql.read? s.text

def find? (c : Catalog) (name : String) : Option Table := c.tables.find? fun t => t.name == name

theorem find?_name {c : Catalog} {t : Table} (h : t ∈ c.tables) : c.find? t.name = some t := by
  cases hfind : c.find? t.name with
  | none =>
    have hnone := List.find?_eq_none.mp hfind t h
    simp at hnone
  | some t' =>
    have hname : t'.name = t.name := by simpa using List.find?_some hfind
    rw [c.unique t' (List.mem_of_find?_eq_some hfind) t h hname]

end Catalog

/-- Whether two values are equal, in a condition. -/
def Cell.equals (a b : Cell) : Bool :=
  match a, b with
  | .null, _ => false
  | _, .null => false
  | a, b => a.same b

namespace Table

def Clash (t : Table) (a b : Row) : Prop := ∀ c ∈ t.key, (t.cell a c).equals (t.cell b c)

def assigned (t : Table) (new stored : Row) : Assignment → Cell
  | .fromNew c => t.cell new c
  | .unchanged c => t.cell stored c

def assign (t : Table) (new stored : Row) (a : Assignment) : Row :=
  match t.indexOf? (Sql.target a) with
  | some i => stored.set i (t.assigned new stored a)
  | none => stored

def inserted (t : Table) (onDuplicate : List Assignment) (rows : Set Row) (new : Row) : Set Row :=
  {r | (r ∈ rows ∧ ¬ t.Clash r new) ∨
    (∃ stored ∈ rows, t.Clash stored new ∧ r = onDuplicate.foldl (t.assign new) stored) ∨
    (r = new ∧ ∀ stored ∈ rows, ¬ t.Clash stored new)}

end Table

abbrev RowSets := String → Set Row

def Sql.rowsOf (width : Nat) : Nat → List Cell → List Row
  | 0, _ => []
  | count + 1, bound => bound.take width :: rowsOf width count (bound.drop width)

/-- What a statement makes of the contents of a database, if it can be executed. -/
def Sql.meaning (catalog : Catalog) (bound : List Cell) (db : RowSets) : Sql → Option RowSets
  | .insert name columns count onDuplicate => do
    let t ← catalog.find? name
    if columns = t.columns ∧ bound.length = count * columns.length ∧
        ∀ a ∈ onDuplicate, target a ∈ t.columns then
      let rows := (rowsOf columns.length count bound).foldl (t.inserted onDuplicate) (db name)
      some (Function.update db name rows)
    else none
  | .deleteWhere name column => do
    let t ← catalog.find? name
    match bound with
    | [value] =>
      if column ∈ t.columns then
        some (Function.update db name {r ∈ db name | ¬ (t.cell r column).equals value})
      else none
    | _ => none
  | .deleteVia name column key via viaColumn => do
    let t ← catalog.find? name
    let u ← catalog.find? via
    match bound with
    | [value] =>
      if column ∈ t.columns ∧ key ∈ u.columns ∧ viaColumn ∈ u.columns then
        let keys : Set Cell := {k | ∃ r ∈ db via, (u.cell r viaColumn).equals value ∧ u.cell r key = k}
        some (Function.update db name
          {r ∈ db name | ¬ ∃ k ∈ keys, (t.cell r column).equals k})
      else none
    | _ => none
  | .select _ _ => some db

/-- A database with its transaction, if one is open. -/
structure Engine where
  committed : RowSets := fun _ => ∅
  pending : Option RowSets := none

namespace Engine

/-- The contents as a statement finds them. -/
def current (e : Engine) : RowSets := e.pending.getD e.committed

/-- The database after a statement changed the contents. -/
def changed (e : Engine) (db : RowSets) : Engine :=
  match e.pending with
  | some _ => { e with pending := some db }
  | none => { e with committed := db }

/-- Executes a statement with bound values. How many rows it says were affected is left open. -/
def execute (catalog : Catalog) (read : Sql → Option Sql) (affected : Sql → List Cell → Nat)
    (statement : Sql) (bound : List Cell) (e : Engine) : Server.Reply × Engine :=
  match (read statement).bind (Sql.meaning catalog bound e.current) with
  | some db => (.done (affected statement bound), e.changed db)
  | none => (.failed ("cannot execute: " ++ statement.text), e)

/-- Answers a request. To begin commits what is pending. -/
def answer (catalog : Catalog) (read : Sql → Option Sql) (affected : Sql → List Cell → Nat)
    (q : Server.Request) (e : Engine) : Server.Reply × Engine :=
  match q with
  | .begin => (.done 0, ⟨e.current, some e.current⟩)
  | .commit => (.done 0, ⟨e.current, none⟩)
  | .rollback => (.done 0, ⟨e.committed, none⟩)
  | .execute statement bound => e.execute catalog read affected statement bound

end Engine

end KubeLedger
