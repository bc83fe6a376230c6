import KubeLedger.Proofs.Views

/- Redelivery. A notification is delivered again after a failure, after a reconnect and after a
   restart, so an upsert may begin any number of times before it comes to its end. What such runs
   leave is midway (`Midway`): each table of the course either has its rows from before, or what its
   one write makes of them, and that write can be done again without effect (`Write.Repeatable`). So
   what the last run makes of each table is what a single run would have made of it. -/
namespace KubeLedger

open Database

/-- A database on the way from another to what some writes make of it: in each of their tables they
would still make the same rows, and all other tables are as they were. -/
structure Midway (ws : List Write) (d₀ d : Database) : Prop where
  sound : d.IsSound
  same : ∀ w ∈ ws, (w.on (d.rows w.table.name)).Perm (w.on (d₀.rows w.table.name))
  other : ∀ n, (∀ w ∈ ws, w.table.name ≠ n) → d.rows n = d₀.rows n

/-- Writes of different tables, each of which can be done again. -/
structure Course (ws : List Write) : Prop where
  tables : (ws.map fun w => w.table.name).Nodup
  mem : ∀ w ∈ ws, w.table ∈ Schema.tables
  sane : ∀ w ∈ ws, w.IsSane
  isLocal : ∀ w ∈ ws, w.IsLocal
  repeatable : ∀ w ∈ ws, w.Repeatable

namespace Midway

variable {ws done : List Write} {d₀ d d' d₀' : Database}

theorem start (hd : d.IsSound) : Midway ws d d where
  sound := hd
  same := fun _ _ => List.Perm.refl _
  other := fun _ _ => rfl

theorem apply (hws : Course ws) (h : Midway ws d₀ d) {w : Write} (hw : w ∈ ws) :
    Midway ws d₀ (d.apply w) where
  sound := h.sound.apply (hws.sane w hw)
  same := by
    intro x hx
    by_cases hname : x.table.name = w.table.name
    · obtain rfl : x = w := List.inj_on_of_nodup_map hws.tables hx hw hname
      have hrows : (d.apply x).rows x.table.name = x.on (d.rows x.table.name) :=
        (rows_apply_self d x).trans (Write.rowsAfter_eq_on (hws.isLocal x hx) d)
      have hafter := (h.sound.apply (hws.sane x hx)) x.table (hws.mem x hx)
      rw [hrows] at hafter ⊢
      exact (hws.repeatable x hx (h.sound _ (hws.mem x hx)) hafter).trans (h.same x hx)
    · rw [rows_apply_ne d hname]
      exact h.same x hx
  other := by
    intro n hn
    rw [rows_apply_ne d (hn w hw).symm]
    exact h.other n hn

/-- A run that does some of the writes is still midway. -/
theorem changes (hws : Course ws) (h : Midway ws d₀ d) (hdone : done ⊆ ws)
    (hrun : Changes (fun _ => True) done d d') : Midway ws d₀ d' := by
  refine hrun.preserves (P := Midway ws d₀) (fun hs hm => ?_)
    (fun w hw {d} hm => hm.apply hws (hdone hw)) h
  have hrows := fun n => hs n trivial
  exact ⟨hm.sound.sameOn (fun _ => trivial) hs, fun w hw => hrows _ ▸ hm.same w hw,
    fun n hn => (hrows n).trans (hm.other n hn)⟩

/-- A run that does all of the writes comes to the same end from anywhere on the way. -/
theorem complete (hws : Course ws) (h : Midway ws d₀ d) (hrun : Changes (fun _ => True) ws d d')
    (honce : Changes (fun _ => True) ws d₀ d₀') (n : String) : (d'.rows n).Perm (d₀'.rows n) := by
  by_cases hn : ∃ w ∈ ws, w.table.name = n
  · obtain ⟨w, hw, rfl⟩ := hn
    rw [hrun.rows_of_mem hws.tables hw trivial (hws.isLocal w hw),
      honce.rows_of_mem hws.tables hw trivial (hws.isLocal w hw)]
    exact h.same w hw
  · have hother : ∀ w ∈ ws, w.table.name ≠ n := fun w hw he => hn ⟨w, hw, he⟩
    rw [hrun.frame trivial hother, honce.frame trivial hother, h.other n hother]

end Midway

/-- The writes of an upsert can be done again. -/
theorem ClusterView.course_course (v : ClusterView) (k : Kind) (c : ReconcilerConfig)
    (o : ClusterObject) : Course (v.course k c o) := by
  cases hmap : k.map o with
  | error e =>
    have hnone : ∀ w, w ∉ v.course k c o := by simp [course, hmap]
    refine ⟨course_tables k c o, ?_, ?_, ?_, ?_⟩ <;> exact fun w hw => absurd hw (hnone w)
  | ok m =>
    have hbrings := v.course_brings (c := c) hmap (List.Subset.refl _)
    refine ⟨course_tables k c o, fun w hw => (hbrings w hw).table_mem,
      fun w hw => (hbrings w hw).sane, fun w hw => ?_, fun w hw => ?_⟩
    · rcases (hbrings w hw).firm with hfirm | ⟨rows, rfl, -⟩
      · exact hfirm.isLocal
      · exact trivial
    · rcases (hbrings w hw).firm with hfirm | ⟨rows, rfl, htakes⟩
      · exact hfirm.repeatable
      · exact Write.keep_repeatable htakes

/-- The databases that runs of one sync lead to, one after another, however each of them ends. The
reconciler may know anything. -/
inductive Redelivered (v : ClusterView) (k : Kind) (c : ReconcilerConfig) (n : Notification)
    (d : Database) : Database → Prop
  | none : Redelivered v k c n d d
  | again {r : Reconciler} {result : Except SyncError Reconciler} {d₁ d₂ : Database} :
    Redelivered v k c n d d₁ → r.kind = k → r.config = c → r.Leads v n result d₁ d₂ →
    Redelivered v k c n d d₂

theorem Redelivered.midway {v : ClusterView} {k : Kind} {c : ReconcilerConfig} {n : Notification}
    {o : ClusterObject} {d d' : Database} (hn : n.object = some o) (hd : d.IsSound)
    (h : Redelivered v k c n d d') : Midway (v.course k c o) d d' := by
  induction h with
  | none => exact .start hd
  | again _ hkind hconfig hrun ih =>
    subst hkind hconfig
    obtain ⟨ws, hchanges, hsub, -⟩ := hrun.seen hn
    exact ih.changes (v.course_course _ _ o) hsub hchanges

/-- Redelivery is harmless. Next to a cluster whose answers do not change, in every database that
syncs and telemetry reach, an upsert may run any number of times and be cut short by any failure:
once it has run to its end, every table has the rows that it would have if the upsert had run just
once. -/
theorem redelivery_harmless {keys : List (List String)} {v : ClusterView} {k : Kind}
    {c : ReconcilerConfig} {o : ClusterObject} {d d₁ d₂ d₃ : Database} (hreached : Reached keys d)
    (hruns : Redelivered v k c (.seen o) d d₁) {last once : Except SyncError Reconciler}
    {r r' : Reconciler} (hr : r.kind = k ∧ r.config = c) (hr' : r'.kind = k ∧ r'.config = c)
    (hlast : r.Leads v (.seen o) last d₁ d₂) (honce : r'.Leads v (.seen o) once d d₃)
    (hends : ∀ result ∈ [last, once], ∀ e, result = .error e → e.isRetryable = false) :
    ∀ n, (d₂.rows n).Perm (d₃.rows n) := by
  obtain ⟨rfl, rfl⟩ := hr
  have hcourse := v.course_course r.kind r.config o
  have hmidway := hruns.midway rfl hreached.tidy.sound
  obtain ⟨ws, hchanges, -, hall⟩ := hlast.seen rfl
  obtain rfl := hall (hends last List.mem_cons_self)
  obtain ⟨ws', hchanges', -, hall'⟩ := honce.seen rfl
  obtain rfl := hall' (hends once (List.mem_cons_of_mem _ List.mem_cons_self))
  rw [hr'.1, hr'.2] at hchanges'
  exact hmidway.complete hcourse hchanges hchanges'

/-- It applies where the first run is cut short by a table whose writes fail. -/
theorem redelivery_harmless_cut_short :
    let r : Reconciler := ⟨.pod, {}, .empty⟩
    let n := Notification.seen (barePod "default" "web-1" ["nginx"])
    let half := ((r.sync n).runIn World.answer { store := { failing := ["pod_label"] } }).2
    let last := ((r.sync n).runIn World.answer { half with store := half.store.clear }).2
    let once := ((r.sync n).runIn World.answer {}).2
    half.store.database.rows Schema.container.name = [] ∧
      ∀ n, (last.store.database.rows n).Perm (once.store.database.rows n) := by
  intro r n half last once
  obtain ⟨cut, hhalf⟩ : ∃ cut, (r.sync n).runIn World.answer
      { store := { failing := ["pod_label"] } } = (cut, half) := ⟨_, rfl⟩
  obtain ⟨r', hlast⟩ : ∃ r', (r.sync n).runIn World.answer
      { half with store := half.store.clear } = (.ok r', last) := ⟨_, rfl⟩
  obtain ⟨r'', honce⟩ : ∃ r'', (r.sync n).runIn World.answer {} = (.ok r'', once) := ⟨_, rfl⟩
  have hruns : Redelivered ({} : ScriptedCluster).view .pod {} n {} half.store.database :=
    Redelivered.none.again rfl rfl (World.leads hhalf)
  have hends : ∀ result ∈ [Except.ok r', .ok r''], ∀ e : SyncError, result = .error e →
      e.isRetryable = false := by
    intro result hresult e he
    rcases List.mem_pair.mp hresult with rfl | rfl <;> cases he
  exact ⟨rfl, redelivery_harmless (.empty : Reached [] {}) hruns ⟨rfl, rfl⟩ ⟨rfl, rfl⟩
    (World.leads hlast) (World.leads honce) hends⟩

end KubeLedger
