import KubeLedger.Proofs.Refinement

/- Replacing rows is all or nothing. A replacement is a transaction of a deletion, an insertion if there
   are rows, and a commit, each of which the server can fail. The requests are made in order, and the
   first that fails is followed by a rollback (`Server.Follows`). So either all of them were done, the
   commit last, or no commit was and the transaction has been rolled back; and what the server replies
   decides which of them it is.

   What this means for the tables is left to the server. It is only asked to be transactional
   (`Transactional`): nothing is committed but by a commit that succeeds, and then it is what the
   statements before it have made of the contents; and a transaction that is given up leaves nothing,
   whatever the server answers to that. -/
namespace KubeLedger.Server

open Database

/-! ## Requests in order -/

def Reply.isFailure : Reply → Bool
  | .failed _ => true
  | .done _ | .result _ _ => false

theorem Reply.affected?_cases (r : Reply) :
    (∃ words, r = .failed words) ∨ ∃ n, r.isFailure = false ∧ r.affected? = .ok n := by
  cases r with
  | failed words => exact .inl ⟨words, rfl⟩
  | done n => exact .inr ⟨n, rfl, rfl⟩
  | result types rows => exact .inr ⟨0, rfl, rfl⟩

abbrev Exchange := (_ : Request) × Reply

/-- Makes requests one after another, and gives up at the first that fails. -/
def inOrder : List Request → Session (Except StoreError Unit)
  | [] => .done (.ok ())
  | q :: rest => .ask q fun r =>
    match r.affected? with
    | .error e => giveUp e
    | .ok _ => inOrder rest

/-- The statements of a replacement with what is bound to them. Without rows there is no insertion. -/
def statements (t : Table) (foreignKey : String) (owner : EntityId) (rows : List Row) :
    List (Sql × List Cell) :=
  (.deleteWhere t.name foreignKey, [.id owner]) ::
    if rows.isEmpty then [] else [(Sql.ofUpsert ⟨t, .updateAll⟩ rows.length, rows.flatten)]

def requests (ss : List (Sql × List Cell)) : List Request :=
  ss.map (fun s => .execute s.1 s.2) ++ [.commit]

/-- All requests of a replacement. -/
def plan (t : Table) (foreignKey : String) (owner : EntityId) (rows : List Row) : List Request :=
  .begin :: requests (statements t foreignKey owner rows)

/-- Planned requests were made in order, up to the first that failed. What was begun before it is
rolled back then. -/
inductive Follows (planned : List Request) : List Exchange → Except StoreError Unit → Prop
  | through {trace : List Exchange} : trace.map Sigma.fst = planned →
    (∀ x ∈ trace, x.2.isFailure = false) → Follows planned trace (.ok ())
  | refused {q : Request} {rest : List Request} {words : String} : planned = q :: rest →
    Follows planned [⟨q, .failed words⟩] (.error (.database words))
  | givenUp {done : List Exchange} {q : Request} {rest : List Request} {words : String}
    {last : Reply} : planned = done.map Sigma.fst ++ q :: rest → done ≠ [] →
    (∀ x ∈ done, x.2.isFailure = false) →
    Follows planned (done ++ [⟨q, .failed words⟩, ⟨.rollback, last⟩]) (.error (.database words))

/-- A replacement checks its rows, and then makes its requests in order. -/
theorem replace_eq (t : Table) (foreignKey : String) (owner : EntityId) (rows : List Row) :
    replace t foreignKey owner rows =
      match checkShape t rows with
      | .error e => .done (.error e)
      | .ok () => .ask .begin fun r =>
        match r.affected? with
        | .error e => .done (.error e)
        | .ok _ => inOrder (requests (statements t foreignKey owner rows)) := by
  unfold replace requests statements
  cases rows.isEmpty <;> rfl

section Traces
variable {trace : List Exchange} {result : Except StoreError Unit} {qs planned : List Request}

/-- Requests in order end in one of two ways: all were done, or one failed after those before it were
done, and a rollback followed. -/
theorem inOrder_runs (h : (inOrder qs).Runs trace result) :
    (result = .ok () ∧ trace.map Sigma.fst = qs ∧ ∀ x ∈ trace, x.2.isFailure = false) ∨
      ∃ done : List Exchange, ∃ q rest words last, qs = done.map Sigma.fst ++ q :: rest ∧
        (∀ x ∈ done, x.2.isFailure = false) ∧
        trace = done ++ [⟨q, .failed words⟩, ⟨.rollback, last⟩] ∧
        result = .error (.database words) := by
  induction qs generalizing trace with
  | nil =>
    obtain ⟨rfl, rfl⟩ := Script.runs_done.mp h
    exact .inl ⟨rfl, rfl, nofun⟩
  | cons q rest ih =>
    obtain ⟨r, after, rfl, hafter⟩ := Script.runs_ask.mp h
    obtain ⟨words, rfl⟩ | ⟨n, hdone, haffected⟩ := r.affected?_cases
    · obtain ⟨last, after, rfl, hrolled⟩ := Script.runs_ask.mp hafter
      obtain ⟨rfl, rfl⟩ := Script.runs_done.mp hrolled
      exact .inr ⟨[], q, rest, words, last, rfl, nofun, rfl, rfl⟩
    · rw [haffected] at hafter
      rcases ih hafter with ⟨rfl, rfl, hall⟩ |
        ⟨done, q', rest', words, last, rfl, hall, rfl, rfl⟩
      · exact .inl ⟨rfl, rfl, List.forall_mem_cons.mpr ⟨hdone, hall⟩⟩
      · exact .inr ⟨⟨q, r⟩ :: done, q', rest', words, last, rfl,
          List.forall_mem_cons.mpr ⟨hdone, hall⟩, rfl, rfl⟩

/-- Requests that follow a beginning are part of its plan. -/
theorem Follows.of_inOrder {q : Request} {r : Reply} (hdone : r.isFailure = false)
    (h : (inOrder qs).Runs trace result) : Follows (q :: qs) (⟨q, r⟩ :: trace) result := by
  rcases inOrder_runs h with ⟨rfl, rfl, hall⟩ | ⟨done, q', rest, words, last, rfl, hall, rfl, rfl⟩
  · exact .through rfl (List.forall_mem_cons.mpr ⟨hdone, hall⟩)
  · exact @Follows.givenUp _ (⟨q, r⟩ :: done) _ _ _ _ rfl (List.cons_ne_nil _ _)
      (List.forall_mem_cons.mpr ⟨hdone, hall⟩)

theorem Follows.ok_iff (h : Follows planned trace result) : result = .ok () ↔
    trace.map Sigma.fst = planned ∧ ∀ x ∈ trace, x.2.isFailure = false := by
  cases h with
  | through hasked hall => exact ⟨fun _ => ⟨hasked, hall⟩, fun _ => rfl⟩
  | refused _ => exact ⟨nofun, fun h => nomatch h.2 _ (.head _)⟩
  | @givenUp _ q _ words _ _ _ _ =>
    exact ⟨nofun, fun h => nomatch h.2 ⟨q, .failed words⟩ (by simp)⟩

/-- Where no request fails, all are made. -/
theorem Follows.of_done (h : Follows planned trace result)
    (hall : ∀ x ∈ trace, x.2.isFailure = false) :
    result = .ok () ∧ trace.map Sigma.fst = planned := by
  cases h with
  | through hasked _ => exact ⟨rfl, hasked⟩
  | refused _ => exact nomatch hall _ (.head _)
  | @givenUp _ q _ words _ _ _ _ => exact nomatch hall ⟨q, .failed words⟩ (by simp)

end Traces

/-! ## Transactional servers -/

/-- What a statement with bound values makes of the contents of a database, if it can be executed. -/
abbrev Meaning := Sql → List Cell → RowSets → Option RowSets

/-- What statements one after another make of the contents. -/
def Meaning.all (meaning : Meaning) (ss : List (Sql × List Cell)) (db : RowSets) : Option RowSets :=
  ss.foldlM (fun db s => meaning s.1 s.2 db) db

/-- A server that does nothing by halves, as far as it is seen from a connection of its own. Requests
may fail at any time. -/
structure Transactional {σ : Type} (env : (q : Request) → σ → Reply × σ) (view : σ → Engine)
    (meaning : Meaning) : Prop where
  /-- A transaction begins with what is committed. -/
  begins : ∀ {s r s'}, (view s).pending = none → env .begin s = (r, s') →
    (view s').committed = (view s).committed ∧
      (view s').pending = if r.isFailure then none else some (view s).committed
  /-- A statement in a transaction changes what is pending. -/
  executes : ∀ {statement bound s r s' db}, (view s).pending = some db →
    env (.execute statement bound) s = (r, s') →
      (view s').committed = (view s).committed ∧
        (r.isFailure = false →
          ∃ db', meaning statement bound db = some db' ∧ (view s').pending = some db')
  /-- A commit makes what is pending the contents, unless it fails. -/
  commits : ∀ {s r s' db}, (view s).pending = some db → env .commit s = (r, s') →
    if r.isFailure then (view s').committed = (view s).committed
    else (view s').committed = db ∧ (view s').pending = none
  /-- A transaction that is rolled back is gone, whatever the reply. -/
  rollsBack : ∀ {s r s'}, env .rollback s = (r, s') →
    (view s').committed = (view s).committed ∧ (view s').pending = none

section Transactional
variable {σ : Type} {env : (q : Request) → σ → Reply × σ} {view : σ → Engine} {meaning : Meaning}
  {ss : List (Sql × List Cell)} {s s' : σ} {db : RowSets} {result : Except StoreError Unit}

/-- What a transaction that began with some contents leaves: what it was to make of them, or the same
contents if it failed. In either case it is over. -/
structure Concluded (view : σ → Engine) (result : Except StoreError Unit) (old : RowSets)
    (new : Option RowSets) (s' : σ) : Prop where
  idle : (view s').pending = none
  all : result = .ok () → new = some (view s').committed
  nothing : ∀ e, result = .error e → (view s').committed = old

theorem Concluded.failed {e : StoreError} {old : RowSets} {new : Option RowSets}
    (hidle : (view s').pending = none) (hsame : (view s').committed = old) :
    Concluded view (.error e) old new s' where
  idle := hidle
  all := nofun
  nothing := fun _ _ => hsame

theorem run_inOrder {q : Request} {r : Reply} (h : env q s = (r, s')) (qs : List Request) :
    (inOrder (q :: qs)).run env s =
      (match r.affected? with
        | .error e => giveUp e
        | .ok _ => inOrder qs).run env s' := by
  simp only [inOrder, Script.run, h]

namespace Transactional

theorem giveUp (h : Transactional env view meaning) {e : StoreError} {new : Option RowSets}
    (hrun : (Server.giveUp e).run env s = (result, s')) :
    Concluded view result (view s).committed new s' := by
  obtain ⟨last, s₁, hlast⟩ : ∃ last s₁, env .rollback s = (last, s₁) := ⟨_, _, rfl⟩
  obtain ⟨hcommitted, hpending⟩ := h.rollsBack hlast
  simp only [Server.giveUp, Script.run, hlast] at hrun
  cases hrun
  exact .failed hpending hcommitted

/-- Requests in order conclude a transaction. -/
theorem inOrder (h : Transactional env view meaning) (hpending : (view s).pending = some db)
    (hrun : (Server.inOrder (requests ss)).run env s = (result, s')) :
    Concluded view result (view s).committed (meaning.all ss db) s' := by
  induction ss generalizing s db with
  | nil =>
    obtain ⟨r, s₁, hcommit⟩ : ∃ r s₁, env .commit s = (r, s₁) := ⟨_, _, rfl⟩
    have hdone := h.commits hpending hcommit
    have hnext := (run_inOrder hcommit []).symm.trans hrun
    -- a commit that fails is rolled back like a statement
    obtain ⟨words, rfl⟩ | ⟨n, hfailure, haffected⟩ := r.affected?_cases
    · rw [Reply.isFailure, if_pos rfl] at hdone
      rw [← hdone]
      exact h.giveUp hnext
    · rw [hfailure, if_neg Bool.false_ne_true] at hdone
      rw [haffected] at hnext
      cases hnext
      exact ⟨hdone.2, fun _ => congrArg some hdone.1.symm, nofun⟩
  | cons statement ss ih =>
    obtain ⟨r, s₁, hexecute⟩ : ∃ r s₁, env (.execute statement.1 statement.2) s = (r, s₁) :=
      ⟨_, _, rfl⟩
    obtain ⟨hcommitted, hdone⟩ := h.executes hpending hexecute
    have hnext := (run_inOrder hexecute (requests ss)).symm.trans hrun
    rw [← hcommitted]
    obtain ⟨words, rfl⟩ | ⟨n, hfailure, haffected⟩ := r.affected?_cases
    · exact h.giveUp hnext
    · obtain ⟨db', hmeaning, hpending'⟩ := hdone hfailure
      rw [haffected] at hnext
      have hall : meaning.all (statement :: ss) db = meaning.all ss db' := by
        simp [Meaning.all, hmeaning]
      rw [hall]
      exact ih hpending' hnext

theorem replace (h : Transactional env view meaning) (hidle : (view s).pending = none)
    {t : Table} {foreignKey : String} {owner : EntityId} {rows : List Row}
    (hrun : (Server.replace t foreignKey owner rows).run env s = (result, s')) :
    Concluded view result (view s).committed
      (meaning.all (statements t foreignKey owner rows) (view s).committed) s' := by
  rw [replace_eq] at hrun
  cases hshape : checkShape t rows with
  | error e =>
    rw [hshape] at hrun
    cases hrun
    exact .failed hidle rfl
  | ok _ =>
    rw [hshape] at hrun
    obtain ⟨r, s₁, hbegin⟩ : ∃ r s₁, env .begin s = (r, s₁) := ⟨_, _, rfl⟩
    obtain ⟨hcommitted, hpending⟩ := h.begins hidle hbegin
    simp only [Script.run, hbegin] at hrun
    obtain ⟨words, rfl⟩ | ⟨n, hfailure, haffected⟩ := r.affected?_cases
    · rw [Reply.isFailure, if_pos rfl] at hpending
      cases hrun
      exact .failed hpending hcommitted
    · rw [haffected] at hrun
      rw [hfailure, if_neg Bool.false_ne_true] at hpending
      rw [← hcommitted] at hpending ⊢
      exact h.inOrder hpending hrun

end Transactional

end Transactional

/-! ## Replacements -/

section Replace
variable {t : Table} {foreignKey : String} {owner : EntityId} {rows : List Row}
  {trace : List Exchange} {result : Except StoreError Unit}

/-- All that a replacement can ask, and what it returns then. -/
theorem replace_runs (h : (replace t foreignKey owner rows).Runs trace result) :
    (∃ r ∈ rows, ¬ t.Fits r ∧ trace = [] ∧
      result = .error (.shape t.name t.columns.length r.length)) ∨
    (∀ r ∈ rows, t.Fits r) ∧ Follows (plan t foreignKey owner rows) trace result := by
  rw [replace_eq] at h
  cases hshape : checkShape t rows with
  | error e =>
    rw [hshape] at h
    obtain ⟨rfl, rfl⟩ := Script.runs_done.mp h
    obtain ⟨r, hr, hfits, rfl⟩ := checkShape_error hshape
    exact .inl ⟨r, hr, hfits, rfl, rfl⟩
  | ok _ =>
    rw [hshape] at h
    obtain ⟨first, after, rfl, hafter⟩ := Script.runs_ask.mp h
    refine .inr ⟨checkShape_ok_iff.mp hshape, ?_⟩
    obtain ⟨words, rfl⟩ | ⟨n, hdone, haffected⟩ := first.affected?_cases
    · obtain ⟨rfl, rfl⟩ := Script.runs_done.mp hafter
      exact .refused rfl
    · rw [haffected] at hafter
      exact .of_inOrder hdone hafter

/-- The commit is the last request, so where an earlier or the same one fails no commit was done. -/
theorem commit_notMem {ss : List (Sql × List Cell)} {before rest : List Request} {q : Request}
    (h : requests ss = before ++ q :: rest) : .commit ∉ before := by
  have hsteps : before <+: ss.map fun s => Request.execute s.1 s.2 := by
    refine ⟨(q :: rest).dropLast, ?_⟩
    rw [← List.dropLast_append_of_ne_nil (List.cons_ne_nil q rest), ← h, requests,
      List.dropLast_concat]
  intro hmem
  obtain ⟨s, -, hs⟩ := List.mem_map.mp (hsteps.subset hmem)
  cases hs

theorem replace_shape (h : (replace t foreignKey owner rows).Runs trace result)
    (hbad : ∃ r ∈ rows, ¬ t.Fits r) : trace = [] ∧
      ∃ r ∈ rows, ¬ t.Fits r ∧ result = .error (.shape t.name t.columns.length r.length) := by
  rcases replace_runs h with ⟨r, hr, hfits, htrace, hresult⟩ | ⟨hall, -⟩
  · exact ⟨htrace, r, hr, hfits, hresult⟩
  · obtain ⟨r, hr, hfits⟩ := hbad
    exact absurd (hall r hr) hfits

theorem replace_follows (h : (replace t foreignKey owner rows).Runs trace result)
    (hfits : ∀ r ∈ rows, t.Fits r) : Follows (plan t foreignKey owner rows) trace result := by
  rcases replace_runs h with ⟨r, hr, hbad, -⟩ | ⟨-, hfollows⟩
  · exact absurd (hfits r hr) hbad
  · exact hfollows

theorem replace_ok_iff (h : (replace t foreignKey owner rows).Runs trace result) :
    result = .ok () ↔
      trace.map Sigma.fst = plan t foreignKey owner rows ∧ ∀ x ∈ trace, x.2.isFailure = false := by
  rcases replace_runs h with ⟨r, -, -, rfl, rfl⟩ | ⟨-, hfollows⟩
  · simp [plan]
  · exact hfollows.ok_iff

theorem Follows.rolledBack {ss : List (Sql × List Cell)} {e : StoreError} {first : Reply}
    {after : List Exchange} (h : Follows (.begin :: requests ss) (⟨.begin, first⟩ :: after) (.error e))
    (hfirst : first.isFailure = false) :
    (∀ x ∈ after, x.1 = .commit → x.2.isFailure = true) ∧
      ∃ before last, after = before ++ [⟨.rollback, last⟩] := by
  generalize htrace : (⟨.begin, first⟩ :: after : List Exchange) = trace at h
  cases h with
  | refused _ =>
    cases htrace
    cases hfirst
  | @givenUp done q rest words last hplanned hbegun _ =>
    cases done with
    | nil => exact absurd rfl hbegun
    | cons x done =>
      rw [List.cons_append] at htrace
      obtain ⟨rfl, rfl⟩ := List.cons.inj htrace
      have hnot := commit_notMem (List.cons.inj hplanned).2
      refine ⟨fun y hy hcommit => ?_, done ++ [⟨q, .failed words⟩], last, by simp⟩
      simp only [List.mem_append, List.mem_cons, List.not_mem_nil, or_false] at hy
      rcases hy with hdone | rfl | rfl
      · exact absurd (hcommit ▸ List.mem_map_of_mem hdone) hnot
      · rfl
      · cases hcommit

theorem replace_rolledBack (h : (replace t foreignKey owner rows).Runs trace result) {e : StoreError}
    {first : Reply} {after : List Exchange} (herror : result = .error e)
    (htrace : trace = ⟨.begin, first⟩ :: after) (hfirst : first.isFailure = false) :
    (∀ x ∈ trace, x.1 = .commit → x.2.isFailure = true) ∧
      ∃ before last, after = before ++ [⟨.rollback, last⟩] := by
  subst herror htrace
  rcases replace_runs h with ⟨_, -, -, hnone, -⟩ | ⟨-, hfollows⟩
  · cases hnone
  · obtain ⟨hcommits, hlast⟩ := hfollows.rolledBack hfirst
    exact ⟨List.forall_mem_cons.mpr ⟨nofun, hcommits⟩, hlast⟩

end Replace

/-! ## The contents -/

/-- What statements mean to a database that reads them in some way. -/
def Meaning.of (catalog : Catalog) (read : Sql → Option Sql) : Meaning := fun statement bound db =>
  (read statement).bind (Sql.meaning catalog bound db)

section Contents
variable {catalog : Catalog} {read : Sql → Option Sql} {affected : Sql → List Cell → Nat}
  {t : Table} {foreignKey : String} {owner : EntityId} {rows stored : List Row} {db : RowSets}

theorem Meaning.of_read (hread : catalog.Reads read) {statement : Sql} {bound : List Cell}
    (hplain : catalog.Worded → statement.IsPlain) :
    Meaning.of catalog read statement bound db = Sql.meaning catalog bound db statement := by
  rw [of, hread.read hplain, Option.bind_some]

/-- The statements of a replacement make the rows of the owner the new ones. -/
theorem Meaning.all_statements (owner : EntityId) (hread : catalog.Reads read)
    (ht : t ∈ catalog.tables) (hc : foreignKey ∈ t.columns) (hrows : ∀ r ∈ rows, t.Storable r)
    (hdb : db t.name = {r | r ∈ stored}) (hstored : t.Settled stored) :
    (Meaning.of catalog read).all (statements t foreignKey owner rows) db =
      some (Function.update db t.name
        {r | r ∈ upsertRows ⟨t, .updateAll⟩ rows (deleteRows t foreignKey [.id owner] stored)}) := by
  have hdeletion : Meaning.of catalog read (.deleteWhere t.name foreignKey) [.id owner] db =
      some (Function.update db t.name {r | r ∈ deleteRows t foreignKey [.id owner] stored}) :=
    (of_read hread fun hwords => Sql.plain_deleteWhere hwords ht hc).trans
      (Sql.meaning_deleteWhere ht hc hdb)
  unfold statements Meaning.all
  rw [List.foldlM_cons, hdeletion, Option.bind_eq_bind, Option.bind_some]
  by_cases hempty : rows.isEmpty
  · obtain rfl := List.isEmpty_iff.mp hempty
    rfl
  · have hpos : 0 < rows.length := List.length_pos_iff.mpr (by simpa using hempty)
    have hu : ∀ c ∈ (Upsert.mk t .updateAll).updated, c ∈ t.columns :=
      fun c hmem => (List.mem_filter.mp hmem).1
    have hmeaning := Sql.meaning_ofUpsert (u := ⟨t, .updateAll⟩) ht hu hrows
      (Function.update_self t.name {r | r ∈ deleteRows t foreignKey [.id owner] stored} db)
      (Table.settled_deleteRows hstored)
    rw [Function.update_idem] at hmeaning
    have hinsertion := (of_read hread fun hwords =>
      Sql.plain_ofUpsert hwords ht hu hpos).trans hmeaning
    rw [if_neg hempty, List.foldlM_cons, hinsertion]
    rfl

/-- On a transactional server the table holds the complete new set after a replacement that
succeeds. -/
theorem replace_contents {σ : Type} {env : (q : Request) → σ → Reply × σ} {view : σ → Engine}
    (h : Transactional env view (.of catalog read)) (hread : catalog.Reads read)
    (ht : t ∈ catalog.tables) (hc : foreignKey ∈ t.columns) (hkeyable : t.Keyable rows)
    {s s' : σ} (hidle : (view s).pending = none)
    (hstored : (view s).committed t.name = {r | r ∈ stored}) (hsettled : t.Settled stored)
    (hrun : (replace t foreignKey owner rows).run env s = (.ok (), s')) :
    (view s').committed = Function.update (view s).committed t.name
      {r | r ∈ upsertRows ⟨t, .updateAll⟩ rows (deleteRows t foreignKey [.id owner] stored)} := by
  have hshape : checkShape t rows = .ok () := by
    cases hshape : checkShape t rows with
    | ok _ => rfl
    | error e =>
      rw [replace_eq, hshape] at hrun
      cases hrun
  have hnew := Meaning.all_statements owner hread ht hc (hkeyable.storable hshape) hstored hsettled
  exact Option.some.inj (((h.replace hidle hrun).all rfl).symm.trans hnew)

end Contents

/-! ## All or nothing -/

section Atomic
variable {σ : Type}

/-- A replacement that is all or nothing, by the requests that were made and their replies. -/
structure IsAtomic (env : (q : Request) → σ → Reply × σ) (t : Table) (foreignKey : String)
    (owner : EntityId) (rows : List Row) (s : σ) (trace : List Exchange)
    (result : Except StoreError Unit) (s' : σ) : Prop where
  /-- The replacement asks this by the answers that it gets. -/
  runs : (replace t foreignKey owner rows).Runs trace result
  /-- The server was asked this, and has answered so. -/
  asked : Script.Along env trace s s'
  /-- If a row does not fit, nothing is asked at all. -/
  shape : (∃ r ∈ rows, ¬ t.Fits r) → trace = [] ∧
    ∃ r ∈ rows, ¬ t.Fits r ∧ result = .error (.shape t.name t.columns.length r.length)
  /-- Else the transaction is begun, and all its statements and then the commit are asked for, up to the
  first request that fails. -/
  follows : (∀ r ∈ rows, t.Fits r) → Follows (plan t foreignKey owner rows) trace result
  /-- So it succeeds if none of them fails, -/
  succeeds : (∀ r ∈ rows, t.Fits r) → (∀ x ∈ trace, x.2.isFailure = false) →
    result = .ok () ∧ trace.map Sigma.fst = plan t foreignKey owner rows
  /-- and only if all of them were asked for and done. -/
  ok : result = .ok () ↔ trace.map Sigma.fst = plan t foreignKey owner rows ∧
    ∀ x ∈ trace, x.2.isFailure = false
  /-- If it fails in the transaction, no commit was done, and the last request is a rollback. -/
  rolledBack : ∀ e first after, result = .error e → trace = ⟨.begin, first⟩ :: after →
    first.isFailure = false →
      (∀ x ∈ trace, x.1 = .commit → x.2.isFailure = true) ∧
        ∃ before last, after = before ++ [⟨.rollback, last⟩]
  /-- On a transactional server the contents are what the statements make of them if it succeeds, and
  else they are what they were. -/
  contents : ∀ view meaning, Transactional env view meaning → (view s).pending = none →
    Concluded view result (view s).committed
      (meaning.all (statements t foreignKey owner rows) (view s).committed) s'
  /-- What they make of them is that the table holds the complete new set of the owner. -/
  replaced : ∀ view catalog read stored, Transactional env view (.of catalog read) →
    catalog.Reads read → t ∈ catalog.tables → foreignKey ∈ t.columns → t.Keyable rows →
    (view s).pending = none → (view s).committed t.name = {r | r ∈ stored} → t.Settled stored →
    result = .ok () → (view s').committed = Function.update (view s).committed t.name
      {r | r ∈ upsertRows ⟨t, .updateAll⟩ rows (deleteRows t foreignKey [.id owner] stored)}

/-- Whatever a server answers, a replacement is all or nothing. -/
theorem replace_atomic (env : (q : Request) → σ → Reply × σ) (t : Table) (foreignKey : String)
    (owner : EntityId) (rows : List Row) (s : σ) :
    ∃ trace, IsAtomic env t foreignKey owner rows s trace
      ((replace t foreignKey owner rows).run env s).1
      ((replace t foreignKey owner rows).run env s).2 := by
  obtain ⟨result, s', hrun⟩ : ∃ result s', (replace t foreignKey owner rows).run env s =
      (result, s') := ⟨_, _, rfl⟩
  obtain ⟨trace, hruns, halong⟩ := Script.run_iff.mp hrun
  rw [hrun]
  exact ⟨trace,
    { runs := hruns
      asked := halong
      shape := replace_shape hruns
      follows := replace_follows hruns
      succeeds := fun hfits => (replace_follows hruns hfits).of_done
      ok := replace_ok_iff hruns
      rolledBack := fun _ _ _ => replace_rolledBack hruns
      contents := fun _ _ htransactional hidle => htransactional.replace hidle hrun
      replaced := by
        rintro view catalog read stored h hread ht hc hkeyable hidle hstored hsettled rfl
        exact replace_contents h hread ht hc hkeyable hidle hstored hsettled hrun }⟩

end Atomic

/-! ## A server that fails at times -/

/-- A server of which some requests fail, by their number. They do nothing then; only a rollback is done
all the same. -/
def faulty (fails : Nat → Bool) (env : (q : Request) → Engine → Reply × Engine) (q : Request)
    (s : Engine × Nat) : Reply × (Engine × Nat) :=
  let (r, e) := env q s.1
  if fails s.2 then
    match q with
    | .rollback => (.failed "lost", e, s.2 + 1)
    | _ => (.failed "lost", s.1, s.2 + 1)
  else (r, e, s.2 + 1)

section Faulty
variable {catalog : Catalog} {read : Sql → Option Sql} {affected : Sql → List Cell → Nat}

theorem engine_transactional :
    Transactional (Engine.answer catalog read affected) id (.of catalog read) where
  begins := by
    intro e r e' hidle h
    cases h
    have hcurrent : e.current = e.committed := by
      rw [Engine.current, show e.pending = none from hidle, Option.getD_none]
    exact ⟨hcurrent, congrArg some hcurrent⟩
  executes := by
    intro statement bound e r e' db hpending h
    have hcurrent : e.current = db := by
      rw [Engine.current, show e.pending = some db from hpending, Option.getD_some]
    simp only [Engine.answer, Engine.execute, hcurrent] at h
    split at h
    · rename_i db' hmeaning
      cases h
      have hchanged : e.changed db' = { e with pending := some db' } := by
        simp only [Engine.changed, show e.pending = some db from hpending]
      rw [hchanged]
      exact ⟨rfl, fun _ => ⟨db', hmeaning, rfl⟩⟩
    · cases h
      refine ⟨rfl, fun hdone => ?_⟩
      cases hdone
  commits := by
    intro e r e' db hpending h
    cases h
    have hcurrent : e.current = db := by
      rw [Engine.current, show e.pending = some db from hpending, Option.getD_some]
    exact ⟨hcurrent, rfl⟩
  rollsBack := by
    intro e r e' h
    cases h
    exact ⟨rfl, rfl⟩

theorem faulty_transactional (fails : Nat → Bool) {env : (q : Request) → Engine → Reply × Engine}
    {meaning : Meaning} (h : Transactional env id meaning) :
    Transactional (faulty fails env) Prod.fst meaning where
  begins := by
    intro s r s' hidle hstep
    cases hfails : fails s.2 <;> simp only [faulty, hfails] at hstep <;> cases hstep
    · exact h.begins hidle rfl
    · exact ⟨rfl, hidle⟩
  executes := by
    intro statement bound s r s' db hpending hstep
    cases hfails : fails s.2 <;> simp only [faulty, hfails] at hstep <;> cases hstep
    · exact h.executes hpending rfl
    · exact ⟨rfl, nofun⟩
  commits := by
    intro s r s' db hpending hstep
    cases hfails : fails s.2 <;> simp only [faulty, hfails] at hstep <;> cases hstep
    · exact h.commits hpending rfl
    · exact rfl
  rollsBack := by
    intro s r s' hstep
    cases hfails : fails s.2 <;> simp only [faulty, hfails] at hstep <;> cases hstep
    · exact h.rollsBack rfl
    · exact h.rollsBack (r := (env .rollback s.1).1) rfl

/-- A pod, and labels of it by number. -/
def somePod : EntityId := ⟨List.replicate 20 1, List.length_replicate⟩

def podLabelRow (label : UInt8) : Row :=
  [.id somePod, .id ⟨List.replicate 20 label, List.length_replicate⟩]

def labelled : Engine where
  committed := Function.update (fun _ => ∅) "pod_label" {r | r ∈ [podLabelRow 1]}

/-- The replacement of this label by another one, on a server that reads statements by their texts. -/
def relabelled (fails : Nat → Bool) : Except StoreError Unit × (Engine × Nat) :=
  (replace Schema.podLabel "pod_id" somePod [podLabelRow 2]).run
    (faulty fails (Engine.answer Schema.catalog (fun s => Sql.read? s.text) fun _ _ => 0))
    (labelled, 0)

/-- If the insertion fails the old label is still there, and if nothing fails the new one alone is. -/
theorem replace_atomic_labels :
    ((relabelled (· == 2)).1 = .error (.database "lost") ∧
      (relabelled (· == 2)).2.1.committed = labelled.committed) ∧
    (relabelled fun _ => false).1 = .ok () ∧
      (relabelled fun _ => false).2.1.committed "pod_label" = {r | r ∈ [podLabelRow 2]} := by
  have hlost : (relabelled (· == 2)).1 = .error (.database "lost") := by decide +kernel
  have hok : (relabelled fun _ => false).1 = .ok () := by decide +kernel
  have htransactional : ∀ fails, Transactional
      (faulty fails (Engine.answer Schema.catalog (fun s => Sql.read? s.text) fun _ _ => 0))
      Prod.fst (.of Schema.catalog fun s => Sql.read? s.text) :=
    fun fails => faulty_transactional fails engine_transactional
  have hatomic : ∀ fails, ∃ trace, IsAtomic
      (faulty fails (Engine.answer Schema.catalog (fun s => Sql.read? s.text) fun _ _ => 0))
      Schema.podLabel "pod_id" somePod [podLabelRow 2] (labelled, 0) trace
      (relabelled fails).1 (relabelled fails).2 := fun fails => replace_atomic _ _ _ _ _ _
  obtain ⟨_, hfailed⟩ := hatomic (· == 2)
  obtain ⟨_, hdone⟩ := hatomic fun _ => false
  have hkept := hfailed.contents Prod.fst _ (htransactional _) rfl
  have hsettled : Schema.podLabel.Settled [podLabelRow 1] :=
    ⟨List.forall_mem_singleton.mpr ⟨rfl, by decide⟩, List.pairwise_singleton _ _⟩
  have hnew := hdone.replaced Prod.fst Schema.catalog _ _ (htransactional _)
    (.texts Schema.worded) (by decide +kernel) (by decide) (by decide) rfl rfl hsettled hok
  exact ⟨⟨hlost, hkept.nothing _ hlost⟩, hok,
    (congrFun hnew "pod_label").trans (Function.update_self "pod_label" _ _)⟩

end Faulty

end KubeLedger.Server
