import KubeLedger.Proofs.Holdings
import KubeLedger.Proofs.Tandem

/- Removals are complete, and touch nothing else. The cascades are written down apart from what is
   mapped, taken as snapshots and recorded, so `Kind.belongings` lists again, by kind, where rows of
   an object can be. `Removed` says what the removal of one makes of a database: these tables lose
   the rows of the object and keep all others in their order, telemetry of containers goes with the
   containers that are there at that time, and every other table stays as it is.

   Identities do not tell the kind, so it is the tables alone that keep a pod and a claim of one name
   apart. Two pods are kept apart by their identities, and their telemetry by those of the
   containers; for this the containers in the store have to be kept under a key of their pod, which
   they are in all that a tandem of reconcilers reaches (`Tandem.Reached.tidy`). -/
namespace KubeLedger

open Database

/-- Where rows of an object can be, and the column of the object there. -/
def Kind.belongings : Kind → List (Table × String)
  | .pod =>
    [(Schema.pod, "id"), (Schema.podCondition, "pod_id"), (Schema.podLabel, "pod_id"),
      (Schema.container, "pod_id"), (Schema.containerLogs, "pod_id"),
      (Schema.podMetrics, "pod_id"), (Schema.podMetric, "pod_id")]
  | .claim =>
    [(Schema.claim, "id"), (Schema.claimCondition, "pvc_id"), (Schema.claimLabel, "pvc_id")]

/-- What the removal of an object makes of a database. -/
structure Removed (k : Kind) (keys : List (List String)) (id : ObjectId) (d d' : Database) :
    Prop where
  /-- No row of the object is left. -/
  gone : ∀ s ∈ k.belongings, d'.find s.1 s.2 (.id id.entityId) = []
  /-- Nor is telemetry of a container that was there. -/
  silent : k = .pod → ∀ c ∈ d.find Schema.container "pod_id" (.id id.entityId),
    ∀ r ∈ d'.rows Schema.containerMetric.name,
      Schema.containerMetric.cell r "container_id" ≠ Schema.container.cell c "id"
  /-- All other rows stay in their order. -/
  kept : ∀ s ∈ k.belongings, d'.rows s.1.name =
    (d.rows s.1.name).filter fun r => !s.1.ownedBy s.2 id.entityId r
  /-- So does all other telemetry of containers. -/
  heard : k = .pod → d'.rows Schema.containerMetric.name =
    (d.rows Schema.containerMetric.name).filter fun r =>
      !(d.find Schema.container "pod_id" (.id id.entityId)).any fun c =>
        (Schema.container.cell c "id").same (Schema.containerMetric.cell r "container_id")
  /-- Every other table stays as it is. -/
  untouched : ∀ name, (∀ s ∈ k.belongings, name ≠ s.1.name) →
    (k = .pod → name ≠ Schema.containerMetric.name) → d'.rows name = d.rows name
  /-- The label dictionary does. -/
  labels : d'.rows Schema.label.name = d.rows Schema.label.name
  /-- So do the tables of the other kind, even if it has an object of that name. -/
  otherKind : ∀ k', k' ≠ k → ∀ s ∈ k'.belongings, d'.rows s.1.name = d.rows s.1.name
  /-- Other objects of the kind keep their rows. -/
  others : ∀ o : ObjectId, [o.ns, o.name] ∈ keys → o ≠ id →
    ∀ s ∈ k.belongings, d'.find s.1 s.2 (.id o.entityId) = d.find s.1 s.2 (.id o.entityId)
  /-- And other pods the telemetry of their containers. -/
  otherTelemetry : ∀ o : ObjectId, [o.ns, o.name] ∈ keys → k = .claim ∨ o ≠ id →
    ∀ c, [o.ns, o.name, c] ∈ keys →
      d'.find Schema.containerMetric "container_id" (.id (.container o.ns o.name c)) =
        d.find Schema.containerMetric "container_id" (.id (.container o.ns o.name c))

namespace Kind

/-- The cascade of a kind, and at last the removal of the row itself, go to all of these tables. -/
theorem belongings_subset (k : Kind) {s : Table × String} (hs : s ∈ k.belongings) :
    s ∈ k.holdings := by
  have hall : ∀ s ∈ k.belongings, s ∈ k.holdings := by cases k <;> decide
  exact hall s hs

theorem removal_within (k : Kind) {w : Write} {e : EntityId} (hw : w ∈ k.removal e) :
    (∃ s ∈ k.belongings, w.table = s.1) ∨ k = .pod ∧ w.table = Schema.containerMetric := by
  have hall : ∀ step ∈ k.cascade ++ [.direct k.table "id"],
      (∃ s ∈ k.belongings, step.table = s.1) ∨ k = .pod ∧ step.table = Schema.containerMetric := by
    cases k <;> decide
  obtain ⟨step, hstep, rfl⟩ := List.mem_map.mp hw
  exact hall step hstep

theorem belongings_ne (k : Kind) {s : Table × String} (hs : s ∈ k.belongings) :
    s.1.name ≠ Schema.containerMetric.name := by
  have hall : ∀ s ∈ k.belongings, s.1.name ≠ Schema.containerMetric.name := by
    cases k <;> decide
  exact hall s hs

theorem belongings_apart {k k' : Kind} (hne : k' ≠ k) {s s' : Table × String}
    (hs : s ∈ k.belongings) (hs' : s' ∈ k'.belongings) : s'.1.name ≠ s.1.name := by
  have hall : ∀ k k' : Kind, k' ≠ k → ∀ s ∈ k.belongings, ∀ s' ∈ k'.belongings,
      s'.1.name ≠ s.1.name := by
    intro k k'
    cases k <;> cases k' <;> decide
  exact hall k k' hne s hs s' hs'

end Kind

/-! ## What a tandem reaches is tidy -/

section Tidy
variable {keys : List (List String)} {k : Kind} {n : Notification} {ws : List Write}

theorem Kind.Begins.proper (h : k.Begins n ws) (hkeys : n.keys k ⊆ keys) :
    ∀ w ∈ ws, w.Proper keys := by
  intro w hw
  cases h with
  | @seen o m taken _ hn hmap htaken hws =>
    rw [Notification.keys_seen hn hmap] at hkeys
    rcases List.mem_append.mp (hws.subset hw) with hplan | hsnap
    · exact (Kind.map_describes hmap).plan_proper hkeys w hplan
    · obtain ⟨trace, hw⟩ := htaken w hsnap
      exact hw.proper
  | deleted hn hws => exact Kind.removal_proper (hws.subset hw)

theorem Tandem.Reached.tidy {config : Kind → ReconcilerConfig} {x : Tandem}
    (h : Tandem.Reached config (fun k n => n.keys k ⊆ keys) x) :
    Tidy keys x.store.database ∧
      ∀ r, x.task k = .resting r → r.kind = k ∧ r.known.Grouped := by
  obtain ⟨ws, hwithin, htidy⟩ := h.invariant (I := fun d _ => Tidy keys d) (.empty keys)
    (fun _ ht => ht)
    (fun hadmits hbegins ht => ht.apply (hbegins.proper hadmits _ (by simp)))
    (fun g records ht => ht.apply (telemetry_proper g records))
  refine ⟨htidy, fun r hr => ?_⟩
  obtain ⟨hkind, hgrouped, -⟩ := (hr ▸ hwithin k).resting_inv
  exact ⟨hkind, hgrouped⟩

end Tidy

/-! ## Removals are exact -/

section Removed
variable {keys : List (List String)} {k : Kind} {id : ObjectId} {d d' : Database}

theorem Kind.removed_heard (h : Changes (fun _ => True) (Kind.pod.removal id.entityId) d d') :
    d'.rows Schema.containerMetric.name =
      (d.rows Schema.containerMetric.name).filter fun r =>
        !(d.find Schema.container "pod_id" (.id id.entityId)).any fun c =>
          (Schema.container.cell c "id").same (Schema.containerMetric.cell r "container_id") := by
  have hmetric := Schema.containerMetric_container
  have hcontainer : Schema.container.indexOf? "id" = some 0 := by decide
  rw [Kind.removed_through h trivial trivial]
  simp only [deleteRows, hmetric, keysVia, Schema.container_pod, Schema.container_key,
    Database.find, holds, List.any_map, Table.cell_of_indexOf hmetric,
    Table.cell_of_indexOf hcontainer, Function.comp_def]

theorem Kind.removed_silent (ht : Tidy keys d)
    (h : Changes (fun _ => True) (Kind.pod.removal id.entityId) d d') {c r : Row}
    (hc : c ∈ d.find Schema.container "pod_id" (.id id.entityId))
    (hr : r ∈ d'.rows Schema.containerMetric.name) :
    Schema.containerMetric.cell r "container_id" ≠ Schema.container.cell c "id" := by
  have hstored : c ∈ d.rows Schema.container.name := by
    rw [Table.find_id] at hc
    exact (List.mem_filter.mp hc).1
  obtain ⟨pod, name, -, hcell, -⟩ := ht.anchored c hstored
  have hid : Schema.container.cell c "id" = .id (.container pod.ns pod.name name) :=
    (Table.cell_of_indexOf (by decide) c).trans hcell
  intro howned
  rw [Kind.removed_heard h] at hr
  have hkept := (List.mem_filter.mp hr).2
  rw [Bool.not_eq_true', List.any_eq_false] at hkept
  exact hkept c hc (by rw [howned, hid]; exact Cell.same_id.mpr rfl)

theorem Kind.removed_others (hkeys : Distinct keys) (hid : [id.ns, id.name] ∈ keys)
    (ht : Tidy keys d) (h : Changes (fun _ => True) (Kind.pod.removal id.entityId) d d')
    {o : ObjectId} (ho : [o.ns, o.name] ∈ keys) (hne : o ≠ id) {c : String}
    (hc : [o.ns, o.name, c] ∈ keys) :
    d'.find Schema.containerMetric "container_id" (.id (.container o.ns o.name c)) =
      d.find Schema.containerMetric "container_id" (.id (.container o.ns o.name c)) := by
  rw [Table.find_id, Table.find_id, Kind.removed_through h trivial trivial]
  refine (Table.owned_deleteRows _ _).2 fun hvia => ?_
  -- a container row under this identity is one of the other pod
  obtain ⟨row, hrow, hcell⟩ := mem_keysVia.mp hvia
  rw [Table.find_id, List.mem_filter, Table.ownedBy_iff,
    Table.cell_of_indexOf Schema.container_pod] at hrow
  obtain ⟨pod, name, hin, hfirst, hsecond⟩ := ht.anchored row hrow.1
  obtain rfl := hkeys.container_inj hc hin (Cell.id_inj.mp (hcell.symm.trans hfirst))
  exact hne (hkeys.object_inj ho hid (Cell.id_inj.mp (hsecond.symm.trans hrow.2)))

/-- What a removal that is done to its end makes of a tidy database. -/
theorem Kind.removed (hkeys : Distinct keys) (hid : [id.ns, id.name] ∈ keys)
    (ht : Tidy keys d) (h : Changes (fun _ => True) (k.removal id.entityId) d d') :
    Removed k keys id d d' := by
  have huntouched : ∀ name, (∀ s ∈ k.belongings, name ≠ s.1.name) →
      (k = .pod → name ≠ Schema.containerMetric.name) → d'.rows name = d.rows name := by
    intro name hfree hmetric
    refine h.frame trivial fun w hw he => ?_
    rcases k.removal_within hw with ⟨s, hs, htable⟩ | ⟨hpod, htable⟩
    · exact hfree s hs (he.symm.trans (congrArg Table.name htable))
    · exact hmetric hpod (he.symm.trans (congrArg Table.name htable))
  have hother : ∀ q : ObjectId, [q.ns, q.name] ∈ keys → q ≠ id → q.entityId ≠ id.entityId :=
    fun q hq hne he => hne (hkeys.object_inj hq hid he)
  refine
    { gone := fun s hs => (Kind.removed_find h (k.belongings_subset hs)).1
      silent := ?_
      kept := fun s hs =>
        Kind.removed_direct h (Kind.mem_holdings.mp (k.belongings_subset hs)) trivial
      heard := ?_
      untouched := huntouched
      labels := huntouched _ (fun s hs => (k.holdings_ne (k.belongings_subset hs)).symm)
        fun _ => by decide
      otherKind := fun k' hne s' hs' => huntouched _
        (fun s hs => Kind.belongings_apart hne hs hs') fun _ => k'.belongings_ne hs'
      others := fun o ho hne s hs =>
        (Kind.removed_find h (k.belongings_subset hs)).2 _ (hother o ho hne)
      otherTelemetry := ?_ }
  · rintro rfl c hc r hr
    exact Kind.removed_silent ht h hc hr
  · rintro rfl
    exact Kind.removed_heard h
  · intro o ho hfree c hc
    cases k with
    | pod => exact Kind.removed_others hkeys hid ht h ho (hfree.resolve_left nofun) hc
    | claim =>
      rw [Table.find_id, Table.find_id,
        huntouched _ (fun s hs => (Kind.claim.belongings_ne hs).symm) nofun]

/-- A deletion that succeeds is complete and touches nothing else, in every state that syncs of both
kinds and telemetry reach in turns, however the syncs before it ended. -/
theorem deletion_exact (hkeys : Distinct keys) {config : Kind → ReconcilerConfig} {x : Tandem}
    (hreached : Tandem.Reached config (fun k n => n.keys k ⊆ keys) x) {r r' : Reconciler}
    (htask : x.task k = .resting r) (hid : [id.ns, id.name] ∈ keys) {σ : Type}
    {env : Surroundings σ} {db : σ → Database} (henv : env.Keeps db fun _ => True) {w w' : σ}
    (hw : db w = x.store.database)
    (hrun : (r.sync (.deleted id)).runIn env w = (.ok r', w')) :
    Removed k keys id x.store.database (db w') ∧
      ∀ o, r'.known.contains o = true ↔ o ≠ id ∧ r.known.contains o = true := by
  obtain ⟨htidy, hresting⟩ := hreached.tidy (k := k)
  obtain ⟨hkind, hgrouped⟩ := hresting r htask
  have hplain : id.IsPlain := ⟨hkeys.plain _ hid _ (by simp), hkeys.plain _ hid _ (by simp)⟩
  have hsame : (Notification.deleted id).id = id := Notification.deleted_id hplain
  have hchanges := Reconciler.deleted_ok henv rfl hrun
  rw [hkind, hsame, hw] at hchanges
  refine ⟨Kind.removed hkeys hid htidy hchanges, fun o => ?_⟩
  rw [Reconciler.deleted_known rfl hrun, hsame]
  exact IdSet.contains_erase hgrouped id o

/-- It applies to a pod with telemetry of its container, beside a claim of the same name. -/
theorem deletion_exact_namesake :
    let keys := [["default", "web-1"], ["default", "web-1", "nginx"]]
    let id : ObjectId := ⟨"default", "web-1"⟩
    ∃ x r r' w', Tandem.Reached (fun _ => {}) (fun k n => n.keys k ⊆ keys) x ∧
      x.task .pod = .resting r ∧
      (r.sync (.deleted id)).runIn World.answer { store := x.store } = (.ok r', w') ∧
      (x.store.rows Schema.containerMetric).length = 1 ∧ (x.store.rows Schema.claim).length = 1 ∧
      Removed .pod keys id x.store.database w'.store.database ∧ r'.known.contains id = false := by
  intro keys id
  have hkeys : Distinct keys := ⟨by decide, by decide, by decide +kernel⟩
  let claimed := Notification.seen (barePod "default" "web-1" [])
  let seen := Notification.seen (barePod "default" "web-1" ["nginx"])
  let rc : Reconciler := { kind := .claim, config := {} }
  let rp : Reconciler := { kind := .pod, config := {} }
  let rp' : Reconciler := { rp with known := rp.known.insert id }
  let w₁ := ((rc.sync claimed).runIn World.answer {}).2
  let w₂ := ((rp.sync seen).runIn World.answer { store := w₁.store }).2
  have hrunc : (rc.sync claimed).runIn World.answer {} =
      (.ok { rc with known := rc.known.insert id }, w₁) := rfl
  have hrunp : (rp.sync seen).runIn World.answer { store := w₁.store } = (.ok rp', w₂) := rfl
  have hstart : Tandem.Reached (fun _ => {}) (fun k n => n.keys k ⊆ keys)
      (Tandem.start fun _ => {}) := .start
  have hclaimed := hstart.sync (k := .claim) (r := rc) (n := claimed) rfl (by decide +kernel) rfl
    hrunc
  have hseen := hclaimed.sync (k := .pod) (r := rp) (n := seen) rfl (by decide +kernel) rfl hrunp
  have hrecorded := hseen.turn
    (.records .container [⟨.container "default" "web-1" "nginx", 0, "memory", "rss", 1⟩])
  obtain ⟨x, hreached, htask, hmetrics, hclaims, hok⟩ : ∃ x,
      Tandem.Reached (fun _ => {}) (fun k n => n.keys k ⊆ keys) x ∧ x.task .pod = .resting rp' ∧
        (x.store.rows Schema.containerMetric).length = 1 ∧
        (x.store.rows Schema.claim).length = 1 ∧
        ((rp'.sync (.deleted id)).runIn World.answer { store := x.store }).1.isOk :=
    ⟨_, hrecorded, rfl, by decide +kernel, by decide +kernel, by decide +kernel⟩
  cases hrun : (rp'.sync (.deleted id)).runIn World.answer { store := x.store } with
  | mk result w' =>
    rw [hrun] at hok
    cases result with
    | error e => cases hok
    | ok r' =>
      obtain ⟨hremoved, hknown⟩ := deletion_exact hkeys hreached htask (by simp [keys, id])
        World.keeps rfl hrun
      exact ⟨x, rp', r', w', hreached, htask, hrun, hmetrics, hclaims, hremoved,
        by simpa using hknown id⟩

end Removed

end KubeLedger
