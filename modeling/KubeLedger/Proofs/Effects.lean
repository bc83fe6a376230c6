import Mathlib.Data.List.Nodup
import KubeLedger.Proofs.Syncs
import KubeLedger.Proofs.Tables
import KubeLedger.Proofs.Traces
import KubeLedger.Reconcile.Rehearsal

/- What the writes of a sync do to a database that the surroundings keep. Surroundings may refuse
   any write, fail at any call, and let others write in between; `Surroundings.Keeps` holds them to
   the rest: a write that is done has its meaning, and tables that are the reconciler's own change
   in no other way. The effect of a run is then that of its written writes (`Keeps.changes`), and
   is read off table by table: a table that no write names stays as it is (`Changes.frame`), one
   that a single write names is what this write makes of it (`Changes.rows_split`), and what every
   write preserves holds at the end (`Changes.preserves`). -/
namespace KubeLedger

open Database

def Database.SameOn (own : String → Prop) (d d' : Database) : Prop :=
  ∀ n, own n → d'.rows n = d.rows n

namespace Database.SameOn

variable {own : String → Prop} {a b c : Database}

theorem refl (own : String → Prop) (d : Database) : SameOn own d d := fun _ _ => rfl

theorem trans (hab : SameOn own a b) (hbc : SameOn own b c) : SameOn own a c :=
  fun n hn => (hbc n hn).trans (hab n hn)

theorem find_eq (hab : SameOn (fun _ => True) a b) : b.find = a.find := by
  have hrows : b.rows = a.rows := funext fun n => hab n trivial
  unfold Database.find
  rw [hrows]

end Database.SameOn

/-- Surroundings that keep a database of which nobody else writes the tables of the given names. A
write is refused or done, and a selection reads what is there. -/
structure Surroundings.Keeps {σ : Type} (env : Surroundings σ) (db : σ → Database)
    (own : String → Prop) : Prop where
  done : ∀ {w : Write} {n : Nat} {s s' : σ},
    env (.write w) s = ((.ok n : Except StoreError Nat), s') →
      ∃ d, SameOn own (db s) d ∧ SameOn own (d.apply w) (db s')
  other : ∀ {x : Exchange} {s s' : σ}, env x.1 s = (x.2, s') → x.written? = none →
    SameOn own (db s) (db s')
  selected : ∀ {t : Table} {columns : List String} {rows : List Row} {s s' : σ},
    env (.select t columns) s = ((.ok rows : Except StoreError (List Row)), s') →
      ∃ d, SameOn own (db s) d ∧ rows = d.select t columns

/-- The database that writes lead to, if others leave the tables of the given names alone. -/
inductive Changes (own : String → Prop) : List Write → Database → Database → Prop
  | nil {d d' : Database} : SameOn own d d' → Changes own [] d d'
  | cons {w : Write} {ws : List Write} {d mid d' : Database} :
    SameOn own d mid → Changes own ws (mid.apply w) d' → Changes own (w :: ws) d d'

/-! ## Writes that look at one table -/

namespace Write

/-- What a write makes of the rows of its table, if it looks at no other table. -/
def on : Write → List Row → List Row
  | .upsert u new, rows => upsertRows u new rows
  | .replace t foreignKey owner new, rows =>
    upsertRows ⟨t, .updateAll⟩ new (deleteRows t foreignKey [.id owner] rows)
  | .delete (.direct t column) owner, rows => deleteRows t column [.id owner] rows
  | .delete (.through ..) _, rows => rows

/-- A write that looks at no table but its own. -/
def IsLocal : Write → Prop
  | .delete (.through ..) _ => False
  | _ => True

theorem rowsAfter_eq_on {w : Write} (h : w.IsLocal) (d : Database) :
    d.rowsAfter w = w.on (d.rows w.table.name) := by
  cases w with
  | upsert u new => rfl
  | replace t foreignKey owner new => rfl
  | delete step owner =>
    cases step with
    | direct t column => rfl
    | through t column via viaColumn => exact h.elim

end Write

/-! ## Reading off the effect -/

namespace Changes

variable {own : String → Prop} {d d' : Database} {ws : List Write}

theorem drift {d₁ : Database} (h : SameOn own d d₁) (hc : Changes own ws d₁ d') :
    Changes own ws d d' := by
  cases hc with
  | nil h₁ => exact .nil (h.trans h₁)
  | cons h₁ hrest => exact .cons (h.trans h₁) hrest

theorem append_inv {xs ys : List Write} (h : Changes own (xs ++ ys) d d') :
    ∃ mid, Changes own xs d mid ∧ Changes own ys mid d' := by
  induction xs generalizing d with
  | nil => exact ⟨d, .nil (SameOn.refl own d), h⟩
  | cons x xs ih =>
    cases h with
    | cons hd hrest =>
      obtain ⟨mid, hxs, hys⟩ := ih hrest
      exact ⟨mid, .cons hd hxs, hys⟩

theorem frame (h : Changes own ws d d') {n : String} (hn : own n)
    (hws : ∀ w ∈ ws, w.table.name ≠ n) : d'.rows n = d.rows n := by
  induction h with
  | nil hd => exact hd n hn
  | @cons w ws d mid d' hd hrest ih =>
    have hw : n ≠ w.table.name := (hws w List.mem_cons_self).symm
    rw [ih fun x hx => hws x (List.mem_cons_of_mem w hx), rows_apply_ne mid hw, hd n hn]

theorem rows_split {before after : List Write} {w : Write}
    (h : Changes own (before ++ w :: after) d d') (hown : own w.table.name) (hw : w.IsLocal)
    (hbefore : ∀ x ∈ before, x.table.name ≠ w.table.name)
    (hafter : ∀ x ∈ after, x.table.name ≠ w.table.name) :
    d'.rows w.table.name = w.on (d.rows w.table.name) := by
  obtain ⟨mid, hb, ha⟩ := h.append_inv
  cases ha with
  | @cons _ _ _ mid' _ hmid hrest =>
    rw [hrest.frame hown hafter, rows_apply_self, Write.rowsAfter_eq_on hw, hmid _ hown,
      hb.frame hown hbefore]

/-- Among writes of different tables each is the only one of its table. -/
theorem rows_of_mem (h : Changes own ws d d') (hws : (ws.map fun w => w.table.name).Nodup)
    {w : Write} (hmem : w ∈ ws) (hown : own w.table.name) (hw : w.IsLocal) :
    d'.rows w.table.name = w.on (d.rows w.table.name) := by
  obtain ⟨before, after, rfl⟩ := List.append_of_mem hmem
  rw [List.map_append, List.map_cons, List.nodup_middle, ← List.map_append] at hws
  have hothers : ∀ x ∈ before ++ after, x.table.name ≠ w.table.name := fun x hx he =>
    (List.nodup_cons.mp hws).1 (List.mem_map.mpr ⟨x, hx, he⟩)
  exact h.rows_split hown hw (fun x hx => hothers x (List.mem_append_left after hx))
    fun x hx => hothers x (List.mem_append_right before hx)

/-- What others cannot spoil and every write preserves holds at the end. -/
theorem preserves (h : Changes own ws d d') {P : Database → Prop}
    (hsame : ∀ {d d'}, SameOn own d d' → P d → P d')
    (hws : ∀ w ∈ ws, ∀ {d}, P d → P (d.apply w)) (hd : P d) : P d' := by
  induction h with
  | nil hsd => exact hsame hsd hd
  | @cons w ws d mid d' hsd hrest ih =>
    exact ih (fun x hx => hws x (List.mem_cons_of_mem w hx))
      (hws w List.mem_cons_self (hsame hsd hd))

end Changes

theorem Surroundings.Keeps.changes {σ : Type} {env : Surroundings σ} {db : σ → Database}
    {own : String → Prop} (henv : env.Keeps db own) {trace : List Exchange} {s s' : σ}
    (h : Script.Along env trace s s') : Changes own (written trace) (db s) (db s') := by
  induction trace generalizing s with
  | nil =>
    obtain rfl : s = s' := h
    exact .nil (SameOn.refl own _)
  | cons x rest ih =>
    obtain ⟨mid, hx, hrest⟩ := h
    have hchanges := ih hrest
    unfold written
    -- what is not written may still let others write their tables
    cases hw : x.written? with
    | none =>
      rw [List.filterMap_cons_none hw]
      exact hchanges.drift (henv.other hx hw)
    | some w =>
      rw [List.filterMap_cons_some hw]
      obtain ⟨n, hxw⟩ : ∃ n : Nat, x = ⟨.write w, (.ok n : Except StoreError Nat)⟩ := by
        unfold Exchange.written? at hw
        split at hw
        · rename_i w' a
          cases a with
          | error e => cases hw
          | ok n =>
            cases hw
            exact ⟨n, rfl⟩
        · cases hw
      subst hxw
      obtain ⟨d, hd, hdone⟩ := henv.done hx
      exact .cons hd (hchanges.drift hdone)

theorem Memory.write_cases (m : Memory) (w : Write) :
    (∃ e, m.write w = (.error e, m)) ∨ ∃ n, m.write w = (.ok n, m.applied w) := by
  unfold write
  cases m.refusal? w with
  | some e => exact .inl ⟨e, rfl⟩
  | none => exact .inr ⟨_, rfl⟩

theorem World.keeps :
    Surroundings.Keeps World.answer (fun w => w.store.database) fun _ => True where
  done := by
    intro w n s s' h
    refine ⟨s.store.database, SameOn.refl _ _, ?_⟩
    simp only [World.answer, Memory.write] at h
    split at h
    · cases h
    · cases h
      exact SameOn.refl _ _
  other := by
    intro x s s' h hx
    obtain ⟨q, a⟩ := x
    cases q with
    | write w =>
      simp only [World.answer, Memory.write] at h
      split at h
      · cases h
        exact SameOn.refl _ _
      · cases h
        cases hx
    | select t columns => cases h; exact SameOn.refl _ _
    | logs pod container => cases h; exact SameOn.refl _ _
    | usage pod => cases h; exact SameOn.refl _ _
  selected := by
    intro t columns rows s s' h
    cases h
    exact ⟨_, SameOn.refl _ _, rfl⟩

def Memory.beside (c : ScriptedCluster) : Surroundings Memory := fun q m =>
  let (answer, w) := World.answer q { store := m, cluster := c }
  (answer, w.store)

theorem Memory.beside_answer {c : ScriptedCluster} {q : Call} {m m' : Memory} {a : q.Answer}
    (h : beside c q m = (a, m')) :
    ∃ w, World.answer q { store := m, cluster := c } = (a, w) ∧ w.store = m' := by
  obtain ⟨ha, hm⟩ := Prod.mk.inj h
  exact ⟨_, Prod.ext ha rfl, hm⟩

theorem Memory.keeps (c : ScriptedCluster) :
    Surroundings.Keeps (beside c) (fun m => m.database) fun _ => True where
  done h := by
    obtain ⟨w, hw, rfl⟩ := beside_answer h
    exact World.keeps.done hw
  other h hquiet := by
    obtain ⟨w, hw, rfl⟩ := beside_answer h
    exact World.keeps.other hw hquiet
  selected h := by
    obtain ⟨w, hw, rfl⟩ := beside_answer h
    exact World.keeps.selected hw

open Database

variable {own : String → Prop} {d d' : Database} {e : EntityId}

theorem Kind.removal_tables (k : Kind) (e : EntityId) :
    ((k.removal e).map fun w => w.table.name).Nodup := by
  have hnames : ((k.cascade ++ [Cascade.direct k.table "id"]).map fun s => s.table.name).Nodup := by
    cases k <;> decide
  unfold removal
  rw [List.map_map]
  exact hnames

theorem Kind.removed_direct {k : Kind} (h : Changes own (k.removal e) d d') {t : Table}
    {column : String} (hstep : Cascade.direct t column ∈ k.cascade ++ [.direct k.table "id"])
    (hown : own t.name) :
    d'.rows t.name = (d.rows t.name).filter fun r => !t.ownedBy column e r := by
  have hmem : Write.delete (.direct t column) e ∈ k.removal e :=
    List.mem_map_of_mem (f := fun step => Write.delete step e) hstep
  rw [← Table.deleteRows_id]
  exact h.rows_of_mem (k.removal_tables e) hmem hown trivial

/-- The identities under which containers of an owner are stored. -/
theorem Database.mem_keysVia {c : Cell} :
    c ∈ d.keysVia Schema.container "pod_id" e ↔
      ∃ r ∈ d.find Schema.container "pod_id" (.id e), cellAt r 0 = c := by
  simp only [keysVia, Database.find, Schema.container_pod, Schema.container_key, List.mem_map]

theorem Kind.removed_through (h : Changes own (Kind.pod.removal e) d d')
    (hcontainer : own Schema.container.name) (hmetric : own Schema.containerMetric.name) :
    d'.rows Schema.containerMetric.name =
      deleteRows Schema.containerMetric "container_id" (d.keysVia Schema.container "pod_id" e)
        (d.rows Schema.containerMetric.name) := by
  have hnodup := Kind.removal_tables .pod e
  obtain ⟨rest, hremoval⟩ : ∃ rest, Kind.pod.removal e = .delete (.through Schema.containerMetric
      "container_id" Schema.container "pod_id") e :: rest := ⟨_, rfl⟩
  rw [hremoval] at h hnodup
  cases h with
  | @cons _ _ _ mid _ hmid hrest =>
    have hothers : ∀ w ∈ rest, w.table.name ≠ Schema.containerMetric.name := by
      intro w hw he
      exact (List.nodup_cons.mp hnodup).1 (List.mem_map.mpr ⟨w, hw, he⟩)
    have hvia :
        mid.keysVia Schema.container "pod_id" e = d.keysVia Schema.container "pod_id" e := by
      simp only [keysVia, hmid _ hcontainer]
    rw [hrest.frame hmetric hothers, ← hvia, ← hmid _ hmetric]
    exact rows_apply_self mid _

/-- What a deletion that succeeded has done. -/
theorem Reconciler.deleted_ok {σ : Type} {env : Surroundings σ} {db : σ → Database}
    (henv : env.Keeps db own) {r r' : Reconciler} {n : Notification} {w w' : σ}
    (hn : n.object = none) (hrun : (r.sync n).runIn env w = (.ok r', w')) :
    Changes own (r.kind.removal n.id.entityId) (db w) (db w') := by
  obtain ⟨trace, hruns, halong⟩ := Sync.runIn_iff.mp hrun
  obtain ⟨deleted, hdelete, hresult⟩ := (Sync.sync_deleted hn).mp hruns
  obtain ⟨-, ⟨-, hall⟩ | ⟨e, rfl, -⟩⟩ := Sync.delete_follows r.kind n.id hdelete
  · rw [← hall]
    exact henv.changes halong
  · cases hresult

/-- A deletion that succeeds forgets the object, and changes nothing else of the reconciler. -/
theorem Reconciler.deleted_known {σ : Type} {env : Surroundings σ} {r r' : Reconciler}
    {n : Notification} {w w' : σ} (hn : n.object = none)
    (hrun : (r.sync n).runIn env w = (.ok r', w')) :
    r' = { r with known := r.known.erase n.id } := by
  obtain ⟨trace, hruns, -⟩ := Sync.runIn_iff.mp hrun
  obtain ⟨deleted, -, hresult⟩ := (Sync.sync_deleted hn).mp hruns
  cases deleted with
  | error e => cases hresult
  | ok u =>
    cases hresult
    rfl

end KubeLedger
