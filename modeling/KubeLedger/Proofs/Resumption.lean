import KubeLedger.Proofs.Deliveries
import KubeLedger.Proofs.Holdings
import KubeLedger.Proofs.Service

/- Deletions that are interrupted. A deletion takes several writes, and the store can refuse any of
   them; what is done by then stays done, and the deletion is tried again from its beginning. Telemetry
   of containers is found through the rows of the containers, which a later write removes. So it
   matters that it goes first: once a write of the deletion was done, the telemetry that could be found
   at the beginning is gone (`Removing`), and what later attempts find is part of it.

   On such a way the rest of the database is as it was but for rows of the object, and a deletion that
   comes to its end leaves what it would have left from the beginning. -/
namespace KubeLedger

open Database

/-! ## One write -/

/-- Removing rows by fewer values than before removes nothing. -/
theorem Table.deleteRows_absorb {t : Table} {column : String} {values values' : List Cell}
    (h : values ⊆ values') (rows : List Row) :
    deleteRows t column values (deleteRows t column values' rows) =
      deleteRows t column values' rows := by
  unfold deleteRows
  cases t.indexOf? column with
  | none => rfl
  | some i =>
    refine List.filter_eq_self.mpr fun r hr => ?_
    have hkept := (List.mem_filter.mp hr).2
    rw [Bool.not_eq_true', holds, List.any_eq_false] at hkept ⊢
    exact fun v hv => hkept v (h hv)

theorem Database.rows_delete_subset (d : Database) (step : Cascade) (e : EntityId) (name : String) :
    (d.apply (.delete step e)).rows name ⊆ d.rows name := by
  by_cases hname : name = step.table.name
  · subst hname
    obtain ⟨p, hp⟩ := cascadeRows_eq_filter d step e
    have hrows : (d.apply (.delete step e)).rows step.table.name = d.cascadeRows step e :=
      rows_apply_self d (.delete step e)
    rw [hrows, hp]
    exact List.filter_sublist.subset
  · rw [rows_apply_ne d (w := .delete step e) hname]
    exact List.Subset.refl _

theorem Database.rows_delete_telemetry (d : Database) (e : EntityId) :
    (d.apply (.delete (.through Schema.containerMetric "container_id" Schema.container "pod_id")
        e)).rows Schema.containerMetric.name =
      deleteRows Schema.containerMetric "container_id" (d.keysVia Schema.container "pod_id" e)
        (d.rows Schema.containerMetric.name) :=
  rows_apply_self d (.delete (.through Schema.containerMetric "container_id" Schema.container
    "pod_id") e)

/-- A database on the way of a removal, once a write of it was done. -/
structure Removing (k : Kind) (e : EntityId) (d₀ d : Database) : Prop where
  /-- Rows of other owners are as they were. -/
  others : ∀ t column, (t, column) ∈ k.holdings →
    (d.rows t.name).filter (fun r => !t.ownedBy column e r) =
      (d₀.rows t.name).filter fun r => !t.ownedBy column e r
  /-- Telemetry is gone where it could be found through a container. -/
  telemetry : k = .pod → d.rows Schema.containerMetric.name =
    deleteRows Schema.containerMetric "container_id" (d₀.keysVia Schema.container "pod_id" e)
      (d₀.rows Schema.containerMetric.name)
  /-- No container has come. -/
  containers : k = .pod → d.rows Schema.container.name ⊆ d₀.rows Schema.container.name
  /-- No other table has changed. -/
  outside : ∀ name, (∀ w ∈ k.removal e, w.table.name ≠ name) → d.rows name = d₀.rows name

namespace Removing

variable {k : Kind} {e : EntityId} {d₀ d d' : Database} {ws : List Write}

theorem keysVia_subset (hrows : d.rows Schema.container.name ⊆ d₀.rows Schema.container.name) :
    d.keysVia Schema.container "pod_id" e ⊆ d₀.keysVia Schema.container "pod_id" e := by
  intro c hc
  obtain ⟨r, hr, rfl⟩ := mem_keysVia.mp hc
  rw [Table.find_id, List.mem_filter] at hr
  refine mem_keysVia.mpr ⟨r, ?_, rfl⟩
  rw [Table.find_id, List.mem_filter]
  exact ⟨hrows hr.1, hr.2⟩

theorem sameOn (hs : SameOn (fun _ => True) d d') (h : Removing k e d₀ d) : Removing k e d₀ d' where
  others t column ht := by rw [hs t.name trivial]; exact h.others t column ht
  telemetry hk := by rw [hs _ trivial]; exact h.telemetry hk
  containers hk := by rw [hs _ trivial]; exact h.containers hk
  outside name hname := by rw [hs name trivial]; exact h.outside name hname

/-- A write of the removal goes on along the way. -/
theorem apply (h : Removing k e d₀ d) {w : Write} (hw : w ∈ k.removal e) :
    Removing k e d₀ (d.apply w) where
  others t column ht := by
    rw [Kind.removal_filter_rows hw ht (fun row hrow => by simpa using hrow)]
    exact h.others t column ht
  telemetry hk := by
    subst hk
    rcases Kind.removal_cases hw with ⟨t, column, ht, rfl⟩ | ⟨-, rfl⟩
    · rw [rows_apply_ne d (Kind.holdings_ne_telemetry _ ht).symm]
      exact h.telemetry rfl
    · rw [rows_delete_telemetry, h.telemetry rfl]
      exact Table.deleteRows_absorb (keysVia_subset (h.containers rfl)) _
  containers hk := by
    obtain ⟨step, -, rfl⟩ := List.mem_map.mp hw
    exact List.Subset.trans (rows_delete_subset d step e _) (h.containers hk)
  outside name hname := by
    rw [rows_apply_ne d (hname w hw).symm]
    exact h.outside name hname

theorem changes (h : Removing k e d₀ d) (hws : ws ⊆ k.removal e)
    (hrun : Changes (fun _ => True) ws d d') : Removing k e d₀ d' :=
  hrun.preserves (P := Removing k e d₀) sameOn (fun _ hw _ hd => hd.apply (hws hw)) h

/-- The first write of a removal sets out on the way: for a pod it takes the telemetry. -/
theorem first {w : Write} {rest : List Write} (hremoval : k.removal e = w :: rest)
    (hs : SameOn (fun _ => True) d₀ d) : Removing k e d₀ (d.apply w) := by
  have hw : w ∈ k.removal e := hremoval ▸ List.mem_cons_self
  have hrows : ∀ name, d.rows name = d₀.rows name := fun name => hs name trivial
  refine ⟨fun t column ht => ?_, fun hk => ?_, fun hk => ?_, fun name hname => ?_⟩
  · rw [Kind.removal_filter_rows hw ht (fun row hrow => by simpa using hrow), hrows]
  · subst hk
    cases hremoval
    rw [rows_delete_telemetry]
    simp only [keysVia, hrows]
  · obtain ⟨step, -, rfl⟩ := List.mem_map.mp hw
    rw [← hrows]
    exact rows_delete_subset d step e _
  · rw [rows_apply_ne d (hname w hw).symm, hrows]

theorem interrupted (h : SameOn (fun _ => True) d₀ d ∨ Removing k e d₀ d)
    (hws : ws <+: k.removal e) (hrun : Changes (fun _ => True) ws d d') :
    (ws = [] ∧ SameOn (fun _ => True) d₀ d') ∨ Removing k e d₀ d' := by
  cases hrun with
  | nil hs => exact h.imp (fun h₀ => ⟨rfl, h₀.trans hs⟩) (sameOn hs)
  | @cons w ws d mid d' hs hrest =>
    obtain ⟨later, hremoval⟩ := hws
    have hsub : ws ⊆ k.removal e := by
      rw [← hremoval]
      exact fun x hx => List.mem_append_left later (List.mem_cons_of_mem w hx)
    have hstart : Removing k e d₀ (mid.apply w) := by
      rcases h with h | h
      · exact first hremoval.symm (h.trans hs)
      · exact (h.sameOn hs).apply (hremoval ▸ List.mem_cons_self)
    exact .inr (hstart.changes hsub hrest)

/-- A removal that comes to its end is on the way, and has taken the rows of the object. -/
theorem complete (h : SameOn (fun _ => True) d₀ d ∨ Removing k e d₀ d)
    (hrun : Changes (fun _ => True) (k.removal e) d d') : Removing k e d₀ d' ∧
      ∀ t column, (t, column) ∈ k.holdings →
        d'.rows t.name = (d₀.rows t.name).filter fun r => !t.ownedBy column e r := by
  have hsome : k.removal e ≠ [] := by simp [Kind.removal]
  have hway : Removing k e d₀ d' := by
    rcases interrupted h (List.prefix_refl _) hrun with ⟨hnone, -⟩ | hway
    · exact absurd hnone hsome
    · exact hway
  refine ⟨hway, fun t column ht => ?_⟩
  have hdone := Kind.removed_direct hrun (Kind.mem_holdings.mp ht) trivial
  have hclean : (d'.rows t.name).filter (fun r => !t.ownedBy column e r) = d'.rows t.name := by
    rw [hdone, List.filter_filter]
    simp
  rw [← hclean]
  exact hway.others t column ht

theorem same_end {d₁ d₁' : Database} (h : SameOn (fun _ => True) d₀ d ∨ Removing k e d₀ d)
    (hrun : Changes (fun _ => True) (k.removal e) d d')
    (h₁ : SameOn (fun _ => True) d₀ d₁ ∨ Removing k e d₀ d₁)
    (hrun₁ : Changes (fun _ => True) (k.removal e) d₁ d₁') (name : String) :
    d'.rows name = d₁'.rows name := by
  obtain ⟨hway, hrows⟩ := complete h hrun
  obtain ⟨hway₁, hrows₁⟩ := complete h₁ hrun₁
  by_cases htouched : ∃ w ∈ k.removal e, w.table.name = name
  · obtain ⟨w, hw, rfl⟩ := htouched
    rcases Kind.removal_cases hw with ⟨t, column, ht, rfl⟩ | ⟨hk, rfl⟩
    · exact (hrows t column ht).trans (hrows₁ t column ht).symm
    · exact (hway.telemetry hk).trans (hway₁.telemetry hk).symm
  · have hother : ∀ w ∈ k.removal e, w.table.name ≠ name := fun w hw he => htouched ⟨w, hw, he⟩
    exact (hway.outside name hother).trans (hway₁.outside name hother).symm

end Removing

/-! ## Attempts -/

section Attempts
variable {σ : Type} {env : Surroundings σ} {db : σ → Database} {n : Notification}

/-- However a deletion ends, what it has written is where its writes begin. -/
theorem Reconciler.deleted_prefix {own : String → Prop} (henv : env.Keeps db own)
    (hn : n.object = none) {r : Reconciler} {result : Except SyncError Reconciler} {s s' : σ}
    (hrun : (r.sync n).runIn env s = (result, s')) :
    ∃ ws, ws <+: r.kind.removal n.id.entityId ∧ Changes own ws (db s) (db s') := by
  obtain ⟨trace, hruns, halong⟩ := Sync.runIn_iff.mp hrun
  obtain ⟨deleted, hdelete, -⟩ := (Sync.sync_deleted hn).mp hruns
  refine ⟨written trace, ?_, henv.changes halong⟩
  obtain ⟨-, ⟨-, hall⟩ | ⟨e, -, -, w, rest, hplan⟩⟩ := Sync.delete_follows r.kind n.id hdelete
  · exact hall ▸ List.prefix_refl _
  · exact ⟨_, hplan.symm⟩

theorem Delivery.reconciler_attempt {d : Delivery} {s : σ} {e : SyncError}
    (h : ((d.reconciler.sync n).runIn env s).1 = .error e) (clock : Clock) (b : Option Backoff) :
    (d.attempt env clock n b s).1.reconciler = d.reconciler := by
  rw [attempt_eq, h]
  exact settle_error_reconciler d e

/-- Attempts to deliver a notification, each of which stops with an error. What is not stored may
change in between, such as which tables fail. -/
inductive Delivery.Interrupted (env : Surroundings σ) (db : σ → Database) (n : Notification) :
    Delivery → σ → Delivery → σ → Prop
  | start {d : Delivery} {s : σ} : Interrupted env db n d s d s
  | pause {d d' : Delivery} {s mid s' : σ} : SameOn (fun _ => True) (db s) (db mid) →
    Interrupted env db n d mid d' s' → Interrupted env db n d s d' s'
  | attempt {d d' : Delivery} {s s' : σ} {clock : Clock} {b : Option Backoff} {e : SyncError} :
    ((d.reconciler.sync n).runIn env s).1 = .error e →
    Interrupted env db n (d.attempt env clock n b s).1 (d.attempt env clock n b s).2 d' s' →
    Interrupted env db n d s d' s'

theorem Delivery.Interrupted.removing (henv : env.Keeps db fun _ => True) (hn : n.object = none)
    {d d' : Delivery} {s s' : σ} (h : Interrupted env db n d s d' s') {d₀ : Database}
    (hstart : SameOn (fun _ => True) d₀ (db s) ∨
      Removing d.reconciler.kind n.id.entityId d₀ (db s)) :
    d'.reconciler = d.reconciler ∧ (SameOn (fun _ => True) d₀ (db s') ∨
      Removing d.reconciler.kind n.id.entityId d₀ (db s')) := by
  induction h with
  | start => exact ⟨rfl, hstart⟩
  | pause hs _ ih => exact ih (hstart.imp (fun h₀ => h₀.trans hs) (Removing.sameOn hs))
  | @attempt d d' s s' clock b e herror _ ih =>
    obtain ⟨ws, hws, hchanges⟩ := Reconciler.deleted_prefix henv hn (r := d.reconciler) (s := s) rfl
    rw [reconciler_attempt herror] at ih
    exact ih ((Removing.interrupted hstart hws hchanges).imp And.right id)

/-- A removal takes the telemetry of every container that could be found when it was tried first. -/
theorem Removing.telemetry_gone {e : EntityId} {d₀ d : Database} (h : Removing .pod e d₀ d)
    {c row : Row} (hc : c ∈ d₀.find Schema.container "pod_id" (.id e))
    (hrow : row ∈ d.rows Schema.containerMetric.name) :
    (Schema.container.cell c "id").same (Schema.containerMetric.cell row "container_id") = false := by
  have hid : Schema.container.indexOf? "id" = some 0 := by decide
  have hkey : cellAt c 0 ∈ d₀.keysVia Schema.container "pod_id" e := mem_keysVia.mpr ⟨c, hc, rfl⟩
  rw [h.telemetry rfl, deleteRows, Schema.containerMetric_container] at hrow
  have hkept := (List.mem_filter.mp hrow).2
  rw [Bool.not_eq_true', holds, List.any_eq_false] at hkept
  rw [Table.cell_of_indexOf hid, Table.cell_of_indexOf Schema.containerMetric_container]
  exact Bool.eq_false_iff.mpr (hkept _ hkey)

/-- A deletion that was interrupted can be resumed. Attempts may stop at any of its writes and any
number of times: once it runs to its end, with nobody else writing in between, every table has the rows
that a single deletion would have left, and the reconciler is the one that this would have made. Until
then the reconciler stays as it was, so it still knows the object if it did. The telemetry of
containers is gone where the first attempt could find it. -/
theorem deletion_resumes (henv : env.Keeps db fun _ => True) (hn : n.object = none)
    {d d' : Delivery} {s s' s'' : σ} (hstops : Delivery.Interrupted env db n d s d' s')
    {r : Reconciler} (hdone : (d'.reconciler.sync n).runIn env s' = (.ok r, s'')) :
    let once := (d.reconciler.sync n).runIn World.answer { store := { database := db s } }
    d'.reconciler = d.reconciler ∧ once.1 = .ok r ∧
      (∀ name, (db s'').rows name = once.2.store.database.rows name) ∧
      (d.reconciler.kind = .pod →
        ∀ c ∈ (db s).find Schema.container "pod_id" (.id n.id.entityId),
          ∀ row ∈ (db s'').rows Schema.containerMetric.name,
            (Schema.container.cell c "id").same (Schema.containerMetric.cell row "container_id") =
              false) := by
  intro once
  obtain ⟨hsame, hway⟩ := hstops.removing henv hn (.inl (SameOn.refl _ _))
  rw [hsame] at hdone
  -- a store in memory of which no table fails takes every write of the deletion
  obtain ⟨-, r₁, honce⟩ := (World.serves (c := {}) rfl rfl).deleted (r := d.reconciler)
    (w := { store := { database := db s } }) ⟨rfl, rfl⟩ hn rfl
  have hrun : (d.reconciler.sync n).runIn World.answer { store := { database := db s } } =
      (.ok r₁, once.2) := Prod.ext honce rfl
  have hchanges := Reconciler.deleted_ok henv hn hdone
  have hchanges₁ := Reconciler.deleted_ok World.keeps hn hrun
  refine ⟨hsame, ?_, Removing.same_end hway hchanges (.inl (SameOn.refl _ _)) hchanges₁,
    fun hpod c hc row hrow => ?_⟩
  · rw [Reconciler.deleted_known hn hdone, ← Reconciler.deleted_known hn hrun]
    exact honce
  · have hend := (Removing.complete hway hchanges).1
    rw [hpod] at hend
    exact hend.telemetry_gone hc hrow

end Attempts

/-- It applies where a pod's logs cannot be removed at first, and then its own row cannot: its
telemetry is gone after the first attempt, its containers after the second. -/
theorem deletion_resumes_pod :
    let n := Notification.deleted ⟨"default", "web-1"⟩
    let d : Delivery := ⟨⟨.pod, {}, IdSet.empty.insert n.id⟩, []⟩
    let nginx : EntityId := ⟨List.replicate 20 1, rfl⟩
    let other : EntityId := ⟨List.replicate 20 2, rfl⟩
    let store : Database := ⟨[
      ("container", [[.id nginx, .id n.id.entityId, .text "nginx"], [.id other, .id other]]),
      ("prometheus_container_metric", [[.id nginx, .int 0], [.id other, .int 0]])]⟩
    let s : World := { store := { database := store, failing := ["container_logs"] } }
    let s₁ := ((d.reconciler.sync n).runIn World.answer s).2
    let s₂ := ((d.reconciler.sync n).runIn World.answer
      { s₁ with store := s₁.store.clear.fail "pod" }).2
    let s₃ := ((d.reconciler.sync n).runIn World.answer { s₂ with store := s₂.store.clear }).2
    let once := ((d.reconciler.sync n).runIn World.answer { store := { database := store } }).2
    ([s₁, s₂].map fun s => ["container", "prometheus_container_metric"].map fun name =>
      (s.store.database.rows name).length) = [[2, 1], [1, 1]] ∧
      ∀ name, s₃.store.database.rows name = once.store.database.rows name := by
  intro n d nginx other store s s₁ s₂ s₃ once
  refine ⟨by decide +kernel, ?_⟩
  let clock : Clock := ⟨0, id⟩
  let again : World := { s₁ with store := s₁.store.clear.fail "pod" }
  let calm : World := { s₂ with store := s₂.store.clear }
  have hfirst : ((d.reconciler.sync n).runIn World.answer s).1 =
      .error (.store (.injected "container_logs")) := rfl
  have hsecond : ((d.reconciler.sync n).runIn World.answer again).1 =
      .error (.store (.injected "pod")) := rfl
  -- the reconciler stays as it is, so each attempt is one of the same deletion
  let d₁ := (d.attempt World.answer clock n none s).1
  let d₂ := (d₁.attempt World.answer clock n none again).1
  have hd₁ : d₁.reconciler = d.reconciler := Delivery.reconciler_attempt hfirst clock none
  have hsecond₁ : ((d₁.reconciler.sync n).runIn World.answer again).1 =
      .error (.store (.injected "pod")) := by
    rw [hd₁]
    exact hsecond
  have hd₂ : d₂.reconciler = d.reconciler :=
    (Delivery.reconciler_attempt hsecond₁ clock none).trans hd₁
  have hquiet : SameOn (fun _ => True)
      (d₁.attempt World.answer clock n none again).2.store.database calm.store.database := by
    show SameOn _ ((d₁.reconciler.sync n).runIn World.answer again).2.store.database _
    rw [hd₁]
    exact SameOn.refl _ s₂.store.database
  obtain ⟨-, r, hlast⟩ := (World.serves (c := {}) rfl rfl).deleted (r := d.reconciler) (n := n)
    (w := calm) ⟨rfl, rfl⟩ rfl rfl
  have hdone : (d₂.reconciler.sync n).runIn World.answer calm = (.ok r, s₃) := by
    rw [hd₂]
    exact Prod.ext hlast rfl
  have hstops : Delivery.Interrupted World.answer (fun w => w.store.database) n d s d₂ calm := by
    refine .attempt hfirst (.pause ?_ (.attempt hsecond₁ (.pause hquiet .start)))
    exact SameOn.refl _ s₁.store.database
  exact (deletion_resumes World.keeps rfl hstops hdone).2.2.1

end KubeLedger
