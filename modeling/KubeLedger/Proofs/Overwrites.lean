import KubeLedger.Proofs.Reached

/- Writes as overwrites. A write that brings its rows in full does the same to every table that no
   two rows share a key in: it takes some rows out, by what they hold, and adds rows that do not
   depend on what was there (`Write.on_perm`). Two laws are all that is needed of this form. What
   takes out the rows it adds can be done again without effect (`Overwrite.again`), and two that
   leave the rows of each other can be done in either order (`Overwrite.commute`).

   The label dictionary is written by another discipline: a row that is there stays. So an entry
   goes to whoever writes it first, but the identities in the dictionary are those that were there
   and those that were brought, in whatever order (`Table.cells_upsertRows`), and what was brought
   once is there for good (`Table.keepRows_again`). -/
namespace KubeLedger

open Database

/-- What becomes of the rows of a table: which of them are left, and what is added. -/
structure Overwrite where
  leaves : Row → Bool
  adds : List Row

namespace Overwrite

def on (o : Overwrite) (rows : List Row) : List Row := rows.filter o.leaves ++ o.adds

/-- Nothing is done. -/
def none : Overwrite := ⟨fun _ => true, []⟩

variable {a b o : Overwrite} {rows rows' : List Row}

theorem on_none (rows : List Row) : none.on rows = rows := by simp [none, on]

theorem on_perm (h : rows.Perm rows') : (o.on rows).Perm (o.on rows') :=
  (h.filter o.leaves).append_right o.adds

/-- What takes out the rows that it adds is done once and for all. -/
theorem again (ho : ∀ r ∈ o.adds, o.leaves r = false) : o.on (o.on rows) = o.on rows := by
  have hadds : o.adds.filter o.leaves = [] :=
    List.filter_eq_nil_iff.mpr fun r hr => by simp [ho r hr]
  simp [on, List.filter_append, List.filter_filter, hadds]

theorem on_on (hb : ∀ r ∈ a.adds, b.leaves r = true) :
    b.on (a.on rows) =
      (rows.filter fun r => b.leaves r && a.leaves r) ++ (a.adds ++ b.adds) := by
  simp only [on, List.filter_append, List.filter_filter, List.filter_eq_self.mpr hb,
    List.append_assoc]

/-- Overwrites that leave the rows of each other can be done in either order. -/
theorem commute (hb : ∀ r ∈ a.adds, b.leaves r = true) (ha : ∀ r ∈ b.adds, a.leaves r = true) :
    (b.on (a.on rows)).Perm (a.on (b.on rows)) := by
  rw [on_on hb, on_on ha]
  have hleaves : (fun r => b.leaves r && a.leaves r) = fun r => a.leaves r && b.leaves r :=
    funext fun r => Bool.and_comm ..
  rw [hleaves]
  exact List.perm_append_comm.append_left _

end Overwrite

/-! ## Writes that bring their rows in full -/

namespace Write

def IsFirm : Write → Prop
  | .upsert u rows => u.table ∈ Schema.tables ∧ u.onConflict = .updateAll ∧
      ∀ r ∈ rows, u.table.Takes r
  | .replace t foreignKey owner rows => t ∈ Schema.tables ∧
      ∀ r ∈ rows, t.Takes r ∧ t.ownedBy foreignKey owner r = true
  | .delete (.direct ..) _ => True
  | .delete (.through ..) _ => False

def overwrite : Write → Overwrite
  | .upsert u new => ⟨fun r => !new.any (u.table.sameKey r), u.table.latest new⟩
  | .replace t foreignKey owner new =>
    ⟨fun r => !new.any (t.sameKey r) && !t.ownedBy foreignKey owner r, t.latest new⟩
  | .delete (.direct t column) owner => ⟨fun r => !t.ownedBy column owner r, []⟩
  | .delete (.through ..) _ => .none

variable {w : Write}

theorem IsFirm.isLocal (h : w.IsFirm) : w.IsLocal := by
  cases w with
  | upsert u rows => exact trivial
  | replace t foreignKey owner rows => exact trivial
  | delete step e =>
    cases step with
    | direct t column => exact trivial
    | through t column via viaColumn => exact h

theorem IsFirm.on_perm (h : w.IsFirm) {rows : List Row} (hs : w.table.Sound rows) :
    (w.on rows).Perm (w.overwrite.on rows) := by
  cases w with
  | upsert u new =>
    obtain ⟨t, conflict⟩ := u
    obtain ⟨ht, hconflict, htakes⟩ := h
    obtain rfl : conflict = .updateAll := hconflict
    exact Table.upsertRows_perm (Schema.lawful ht) htakes hs
  | replace t foreignKey owner new =>
    obtain ⟨ht, hnew⟩ := h
    have hperm := Table.upsertRows_perm (Schema.lawful ht) (fun r hr => (hnew r hr).1)
      (Table.sound_filter (fun r => !t.ownedBy foreignKey owner r) hs)
    rw [List.filter_filter] at hperm
    show (upsertRows ⟨t, .updateAll⟩ new (deleteRows t foreignKey [.id owner] rows)).Perm _
    rw [Table.deleteRows_id]
    exact hperm
  | delete step e =>
    cases step with
    | direct t column =>
      show (deleteRows t column [.id e] rows).Perm _
      rw [Table.deleteRows_id, overwrite, Overwrite.on, List.append_nil]
    | through t column via viaColumn => exact h.elim

theorem sameKey_self {t : Table} {r : Row} (h : t.Takes r) : t.sameKey r r = true :=
  h.sameKey_iff.mpr fun _ _ => rfl

/-- A write takes out the rows that it adds, since they share their keys. -/
theorem IsFirm.adds_out (h : w.IsFirm) : ∀ r ∈ w.overwrite.adds, w.overwrite.leaves r = false := by
  intro r hr
  have hany : ∀ {t : Table} {new : List Row}, (∀ x ∈ new, t.Takes x) → r ∈ t.latest new →
      new.any (t.sameKey r) = true := fun htakes hr =>
    have hnew := Table.mem_of_mem_latest hr
    List.any_eq_true.mpr ⟨r, hnew, sameKey_self (htakes r hnew)⟩
  cases w with
  | upsert u new =>
    have := hany h.2.2 hr
    simp [overwrite, this]
  | replace t foreignKey owner new =>
    have := hany (fun x hx => (h.2 x hx).1) hr
    simp [overwrite, this]
  | delete step e =>
    cases step with
    | direct t column => cases hr
    | through t column via viaColumn => cases hr

/-- A write that changes nothing more if it is done again. -/
def Repeatable (w : Write) : Prop :=
  ∀ ⦃rows⦄, w.table.Sound rows → w.table.Sound (w.on rows) → (w.on (w.on rows)).Perm (w.on rows)

theorem IsFirm.repeatable (h : w.IsFirm) : w.Repeatable := by
  intro rows hs hafter
  have hfirst := h.on_perm hs
  refine (h.on_perm hafter).trans ((Overwrite.on_perm hfirst).trans ?_)
  rw [Overwrite.again h.adds_out]
  exact hfirst.symm

end Write

/-! ## The dictionary -/

namespace Table

variable {t : Table} {new rows : List Row}

theorem keepRows_eq (t : Table) (new rows : List Row) : upsertRows ⟨t, .keep⟩ new rows =
    new.foldl (fun rows r => upsertRow t.keyAt [] r rows) rows := rfl

theorem subset_keepRows (new rows : List Row) : rows ⊆ upsertRows ⟨t, .keep⟩ new rows := by
  rw [keepRows_eq]
  induction new generalizing rows with
  | nil => exact List.Subset.refl _
  | cons n rest ih =>
    refine List.Subset.trans ?_ (ih _)
    simp only [upsertRow_keep]
    split
    · exact List.Subset.refl _
    · exact List.subset_append_left _ _

/-- Where every key is taken nothing is added. -/
theorem keepRows_self (h : ∀ n ∈ new, rows.any (t.sameKey · n) = true) :
    upsertRows ⟨t, .keep⟩ new rows = rows := by
  rw [keepRows_eq]
  induction new with
  | nil => rfl
  | cons n rest ih =>
    have hn : rows.any (agree t.keyAt · n) = true := h n List.mem_cons_self
    rw [List.foldl_cons, upsertRow_keep, if_pos hn]
    exact ih fun m hm => h m (List.mem_cons_of_mem n hm)

theorem any_keepRows (hn : ∀ r ∈ new, t.Takes r) :
    ∀ n ∈ new, (upsertRows ⟨t, .keep⟩ new rows).any (t.sameKey · n) = true := by
  induction new generalizing rows with
  | nil => exact fun n hn => nomatch hn
  | cons n rest ih =>
    intro m hm
    rcases List.mem_cons.mp hm with rfl | hm
    · -- the first row is there or is added, and then stays
      have hthere : (upsertRow t.keyAt [] m rows).any (t.sameKey · m) = true := by
        rw [upsertRow_keep]
        split
        · assumption
        · simp [Write.sameKey_self (hn m List.mem_cons_self)]
      obtain ⟨r, hr, hk⟩ := List.any_eq_true.mp hthere
      exact List.any_eq_true.mpr ⟨r, subset_keepRows rest _ hr, hk⟩
    · exact ih (fun r hr => hn r (List.mem_cons_of_mem n hr)) m hm

/-- Bringing entries a second time changes nothing. -/
theorem keepRows_again (hn : ∀ r ∈ new, t.Takes r) :
    upsertRows ⟨t, .keep⟩ new (upsertRows ⟨t, .keep⟩ new rows) = upsertRows ⟨t, .keep⟩ new rows :=
  keepRows_self (any_keepRows hn)

end Table

/-- Bringing entries to a dictionary again adds nothing. -/
theorem Write.keep_repeatable {t : Table} {new : List Row} (hn : ∀ r ∈ new, t.Takes r) :
    (Write.upsert ⟨t, .keep⟩ new).Repeatable := by
  intro rows _ _
  exact .of_eq (Table.keepRows_again hn)

end KubeLedger
