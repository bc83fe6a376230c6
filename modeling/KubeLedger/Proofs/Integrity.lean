import KubeLedger.Proofs.References

/- Referential integrity. Whether the next write of a sync is safe depends on the order in which a
   sync writes: the row of the object comes first, the labels before those who have them, and in a
   removal the row of the object goes last (`Kind.Begins.safe`). What was written before is settled,
   so the database is intact between any two writes, whatever fails and however the reconcilers of
   both kinds and telemetry take turns (`references_hold`). -/
namespace KubeLedger

open Database

/-! ## The order of a sync -/

def Kind.labels : Kind → Table
  | .pod => Schema.podLabel
  | .claim => Schema.claimLabel

section Order
variable {d : Database} {k : Kind} {e : EntityId} {o : ClusterObject} {m : Mapped} {w : Write}
  {ws rest taken : List Write} {n : Notification}

/-- What stands before an element in a list comes before it. -/
theorem prefix_of_notMem {α : Type} {before after xs ys : List α} {x : α}
    (h : before ++ after = xs ++ x :: ys) (hx : x ∉ before) : before <+: xs := by
  rcases List.append_eq_append_iff.mp h with ⟨more, hxs, -⟩ | ⟨more, hbefore, htail⟩
  · exact ⟨more, hxs.symm⟩
  · cases more with
    | nil => exact ⟨[], by simpa using hbefore⟩
    | cons y more =>
      obtain rfl : x = y := (List.cons.inj htail).1
      exact absurd (by simp [hbefore]) hx

theorem Kind.set_reference {s : Table × String} (hs : s ∈ k.sets) {f : Reference}
    (hf : f ∈ Schema.references) (hname : f.table.name = s.1.name) :
    f = ⟨s.1, s.2, k.table⟩ ∨ s.1 = k.labels ∧ f = ⟨s.1, "label_id", Schema.label⟩ := by
  have hall : ∀ s ∈ k.sets, ∀ f ∈ Schema.references, f.table.name = s.1.name →
      f = ⟨s.1, s.2, k.table⟩ ∨ s.1 = k.labels ∧ f = ⟨s.1, "label_id", Schema.label⟩ := by
    cases k <;> decide
  exact hall s hs f hf hname

theorem Kind.snapshot_reference {s : Table × String} (hs : s ∈ k.snapshots) {f : Reference}
    (hf : f ∈ Schema.references) (hname : f.table.name = s.1.name) :
    f = ⟨s.1, s.2, k.table⟩ := by
  have hall : ∀ s ∈ k.snapshots, ∀ f ∈ Schema.references, f.table.name = s.1.name →
      f = ⟨s.1, s.2, k.table⟩ := by
    cases k <;> decide
  exact hall s hs f hf hname

/-- Rows of objects are referred to, and so are entries of the dictionary. -/
theorem Kind.targeted (k : Kind) : ∃ f ∈ Schema.references, f.target = k.table := by
  cases k <;> decide

theorem Kind.sets_refer {s : Table × String} (hs : s ∈ k.sets) :
    ∃ f ∈ Schema.references, f.table = s.1 := by
  have hall : ∀ s ∈ k.sets, ∃ f ∈ Schema.references, f.table = s.1 := by
    cases k <;> decide
  exact hall s hs

/-- The labels of an object are assigned after they have been entered in the dictionary. -/
theorem Kind.map_labels (h : k.map o = .ok m) :
    ∃ (before after : List Relation) (labels : List Label) (column : String),
      m.relations = before ++
        .ofOwner k.labels column m.id (labels.map (Label.ownedRow m.id)) :: after ∧
      Relation.dictionary Schema.label m.id (labels.map Label.row) ∈ before := by
  cases k with
  | pod =>
    cases hp : Pod.ofObject o with
    | error e => simp [Kind.map, hp, Except.map] at h
    | ok p =>
      simp only [Kind.map, hp, Except.map, Except.ok.injEq] at h
      subst h
      refine ⟨_ :: [_], _, p.labels, "pod_id", rfl, ?_⟩
      exact List.mem_cons_of_mem _ (List.mem_singleton.mpr rfl)
  | claim =>
    cases hc : VolumeClaim.ofObject o with
    | error e => simp [Kind.map, hc, Except.map] at h
    | ok c =>
      simp only [Kind.map, hc, Except.map, Except.ok.injEq] at h
      subst h
      refine ⟨_ :: [_], _, c.labels, "pvc_id", rfl, ?_⟩
      exact List.mem_cons_of_mem _ (List.mem_singleton.mpr rfl)

/-- The row of the object comes first. -/
theorem Mapped.Describes.has_owner (hd : m.Describes k o)
    (hplan : m.plan k ++ taken = ws ++ w :: rest) (hw : w.table.name ≠ k.table.name)
    (hsettled : ∀ v ∈ ws, v.Settled d) : d.Has k.table (.id o.id.entityId) := by
  have hfirst : [Write.upsert ⟨k.table, .updateAll⟩ [m.row]] <+: ws := by
    refine prefix_of_notMem hplan fun hmem => hw ?_
    rw [List.mem_singleton.mp hmem]
    rfl
  obtain ⟨f, hf, hft⟩ := k.targeted
  have hkey := hft ▸ Reference.target_key hf
  obtain ⟨s, hs, hcell⟩ := hsettled _ (hfirst.subset (List.mem_singleton.mpr rfl)) m.row
    (List.mem_singleton.mpr rfl) 0 (by simp [hkey.2])
  refine ⟨s, hs, ?_⟩
  rw [Table.cell_of_indexOf hkey.1, hcell, ← Table.cell_of_indexOf hkey.1, hd.row_names.id]

/-- Where a sync replaces the labels of an object, it replaces them by those of the object. -/
theorem Mapped.Describes.plan_labels (hd : m.Describes k o) {assign : Relation}
    (hassign : assign ∈ m.relations) (htable : assign.table = k.labels) {column : String}
    {rows : List Row} (hw : .replace k.labels column e rows ∈ m.plan k) : rows = assign.rows := by
  rcases List.mem_cons.mp hw with hfirst | hw
  · cases hfirst
  · obtain ⟨r, hr, hw⟩ := List.mem_flatMap.mp hw
    have hnames : (m.relations.map fun r => r.table.name).Nodup :=
      (List.nodup_cons.mp (List.nodup_cons.mp (List.nodup_cons.mp hd.tables).2).2).2
    have hname : r.table.name = assign.table.name := by
      rw [← Relation.table_of_writes hw, htable]
      rfl
    obtain rfl := List.inj_on_of_nodup_map hnames hr hassign hname
    unfold Relation.writes at hw
    split at hw
    · exact (Write.replace.inj (List.mem_singleton.mp hw)).2.2.2
    · split at hw
      · cases hw
      · exact Write.noConfusion (List.mem_singleton.mp hw)

/-- The labels come before those who have them. -/
theorem Mapped.Describes.has_labels (hd : m.Describes k o) (hmap : k.map o = .ok m)
    {column : String} {rows : List Row}
    (hplan : m.plan k ++ taken = ws ++ .replace k.labels column e rows :: rest)
    (hw : .replace k.labels column e rows ∈ m.plan k) (hsettled : ∀ v ∈ ws, v.Settled d) :
    ∀ r ∈ rows, d.Has Schema.label (k.labels.cell r "label_id") := by
  obtain ⟨before, after, labels, column', hrelations, hdictionary⟩ := Kind.map_labels hmap
  let assign := Relation.ofOwner k.labels column' m.id (labels.map (Label.ownedRow m.id))
  have hassign : assign ∈ m.relations := by simp [hrelations, assign]
  obtain rfl : rows = labels.map (Label.ownedRow m.id) := hd.plan_labels hassign rfl hw
  have hnames : (k.table.name :: m.relations.map fun r => r.table.name).Nodup :=
    (List.nodup_cons.mp (List.nodup_cons.mp hd.tables).2).2
  have hfirst : .upsert ⟨k.table, .updateAll⟩ [m.row] :: before.flatMap Relation.writes <+: ws := by
    have hall : (.upsert ⟨k.table, .updateAll⟩ [m.row] :: before.flatMap Relation.writes) ++
        ((assign :: after).flatMap Relation.writes ++ taken) = m.plan k ++ taken := by
      simp [Mapped.plan, hrelations, assign]
    refine prefix_of_notMem (hall.trans hplan) fun hmem => ?_
    rcases List.mem_cons.mp hmem with hfirst | hmem
    · exact Write.noConfusion hfirst
    · -- no relation before this one is of the same table
      obtain ⟨r, hr, hmem⟩ := List.mem_flatMap.mp hmem
      rw [hrelations, List.map_append, List.map_cons] at hnames
      have hfree := (List.nodup_append.mp (List.nodup_cons.mp hnames).2).2.2
      refine hfree _ (List.mem_map_of_mem hr) _ List.mem_cons_self ?_
      rw [← Relation.table_of_writes hmem]
      rfl
  intro r hr
  obtain ⟨l, hl, rfl⟩ := List.mem_map.mp hr
  have hentries : .upsert ⟨Schema.label, .keep⟩ (labels.map Label.row) ∈ ws := by
    refine hfirst.subset (List.mem_cons_of_mem _ (List.mem_flatMap.mpr ⟨_, hdictionary, ?_⟩))
    have hne : labels ≠ [] := List.ne_nil_of_mem hl
    simp [Relation.writes, Relation.dictionary, hne]
  obtain ⟨s, hs, hcell⟩ := hsettled _ hentries l.row (List.mem_map_of_mem hl) 0 (by decide)
  refine ⟨s, hs, ?_⟩
  have hcolumn : k.labels.indexOf? "label_id" = some 1 := by cases k <;> decide
  rw [Table.cell_of_indexOf Schema.label_id, hcell, Table.cell_of_indexOf hcolumn]
  rfl

/-- What an upsert writes next is safe. -/
theorem Mapped.Describes.safe (hd : m.Describes k o) (hmap : k.map o = .ok m)
    (htaken : ∀ w ∈ taken, ∃ trace, Sync.IsSnapshot m trace w)
    (hplan : m.plan k ++ taken = ws ++ w :: rest) (hsettled : ∀ v ∈ ws, v.Settled d) :
    w.Safe d := by
  have hmem : w ∈ m.plan k ++ taken := by simp [hplan]
  have hadds : w.Adds k o.id.entityId := by
    rcases List.mem_append.mp hmem with hw | hw
    · exact hd.plan_adds w hw
    · obtain ⟨trace, hw⟩ := htaken w hw
      exact hd.snapshot_adds hw
  cases hadds with
  | object =>
    intro f hf hname
    obtain ⟨f', hf', htarget⟩ := k.targeted
    exact absurd (hname.trans (congrArg Table.name htarget.symm)) (Reference.target_ne hf hf')
  | entries =>
    intro f hf hname
    have hlabel : ⟨Schema.podLabel, "label_id", Schema.label⟩ ∈ Schema.references := by decide
    exact absurd hname (Reference.target_ne hf hlabel)
  | @set t column rows hset hrows =>
    obtain ⟨f', hf', htable⟩ := Kind.sets_refer hset
    have hfree : ∀ f ∈ Schema.references, f.target.name ≠ t.name := fun f hf hname =>
      Reference.target_ne hf' hf ((congrArg Table.name htable).trans hname.symm)
    refine ⟨hfree, fun f hf hname r hr => ?_⟩
    rcases Kind.set_reference hset hf hname with rfl | ⟨rfl, rfl⟩
    · rw [Table.ownedBy_iff.mp (hrows r hr).2]
      exact hd.has_owner hplan (Reference.target_ne hf hf) hsettled
    · have hw : .replace k.labels column o.id.entityId rows ∈ m.plan k := by
        rcases List.mem_append.mp hmem with hw | hw
        · exact hw
        · obtain ⟨trace, hsnap⟩ := htaken _ hw
          cases hsnap
      exact hd.has_labels hmap hplan hw hsettled r hr
  | @snapshot t column rows hsnapshot hrows =>
    intro f hf hname r hr
    obtain rfl := Kind.snapshot_reference hsnapshot hf hname
    rw [Table.ownedBy_iff.mp (hrows r hr).2]
    exact hd.has_owner hplan (Reference.target_ne hf hf) hsettled

/-- A cascade removes what refers to the object, and nothing that is referred to. -/
theorem Kind.cascade_references (k : Kind) {f : Reference} (hf : f ∈ Schema.references) :
    (f.target = k.table → Cascade.direct f.table f.column ∈ k.cascade) ∧
      ∀ step ∈ k.cascade, f.target.name ≠ step.table.name := by
  have hall : ∀ f ∈ Schema.references,
      (f.target = k.table → Cascade.direct f.table f.column ∈ k.cascade) ∧
        ∀ step ∈ k.cascade, f.target.name ≠ step.table.name := by
    cases k <;> decide
  exact hall f hf

/-- What a deletion writes next is safe: the row of the object goes last. -/
theorem Kind.removal_safe (hplan : k.removal e = ws ++ w :: rest)
    (hsettled : ∀ v ∈ ws, v.Settled d) : w.Safe d := by
  have hmem : w ∈ k.removal e := by simp [hplan]
  obtain ⟨step, hstep, rfl⟩ := List.mem_map.mp hmem
  intro f hf hname
  obtain ⟨hdependents, hfree⟩ := k.cascade_references hf
  rcases List.mem_append.mp hstep with hcascade | hlast
  · exact absurd hname (hfree step hcascade)
  · obtain rfl := List.mem_singleton.mp hlast
    have htarget : f.target = k.table :=
      Schema.eq_of_name (Reference.tables_mem hf).2 k.table_mem hname
    refine ⟨by rw [htarget], hsettled (.delete (.direct f.table f.column) e) ?_ f hf rfl⟩
    have hcleared : (k.cascade.map fun step => .delete step e) <+: ws := by
      refine prefix_of_notMem ((List.map_append ..).symm.trans hplan) fun hmem => ?_
      obtain ⟨step, hstep, heq⟩ := List.mem_map.mp hmem
      exact hfree step hstep ((Write.delete.inj heq).1 ▸ hname)
    exact hcleared.subset (List.mem_map_of_mem (hdependents htarget))

theorem Kind.Begins.safe (h : k.Begins n (ws ++ [w])) (hsettled : ∀ v ∈ ws, v.Settled d) :
    w.Safe d := by
  cases h with
  | @seen o m taken _ hn hmap htaken hws =>
    obtain ⟨rest, hplan⟩ := hws
    rw [List.append_assoc] at hplan
    exact (Kind.map_describes hmap).safe hmap htaken hplan.symm hsettled
  | deleted hn hws =>
    obtain ⟨rest, hplan⟩ := hws
    rw [List.append_assoc] at hplan
    exact Kind.removal_safe hplan.symm hsettled

end Order

/-! ## Every reached database -/

section Reached
variable {config : Kind → ReconcilerConfig} {d : Database} {ws : Kind → List Write} {w : Write}

/-- A database in which all references hold, with what the syncs in progress have settled. -/
structure Referred (d : Database) (ws : Kind → List Write) : Prop where
  sound : d.IsSound
  intact : d.Intact
  does : ∀ k : Kind, k.Does (ws k)
  settled : ∀ k, ∀ v ∈ ws k, v.Settled d

theorem Referred.start : Referred {} fun _ => [] where
  sound := fun t _ => Table.Sound.nil t
  intact := fun _ _ _ hr => nomatch hr
  does := fun k => k.does_nil
  settled := fun _ _ hv => nomatch hv

theorem Referred.apply (h : Referred d ws) (hw : w.IsSane) (hsafe : w.Safe d)
    (hspares : ∀ k, ∀ v ∈ ws k, w.Spares v) : Referred (d.apply w) ws where
  sound := h.sound.apply hw
  intact := h.intact.apply h.sound hw hsafe
  does := h.does
  settled := fun k v hv =>
    (h.settled k v hv).apply ((h.does k).sane v hv) hw (hspares k v hv)

theorem Referred.update (h : Referred d ws) (k : Kind) {xs : List Write} (hdoes : k.Does xs)
    (hsettled : ∀ v ∈ xs, v.Settled d) : Referred d (Function.update ws k xs) where
  sound := h.sound
  intact := h.intact
  does := by
    intro k'
    by_cases hk : k' = k
    · subst hk
      simpa using hdoes
    · simpa [Function.update_of_ne hk] using h.does k'
  settled := by
    intro k' v hv
    by_cases hk : k' = k
    · subst hk
      exact hsettled v (by simpa using hv)
    · exact h.settled k' v (by simpa [Function.update_of_ne hk] using hv)

/-- The next write of a sync keeps the references. -/
theorem Referred.write (h : Referred d ws) {k : Kind} {n : Notification}
    (hbegins : k.Begins n (ws k ++ [w])) :
    Referred (d.apply w) (Function.update ws k (ws k ++ [w])) := by
  have hsane : w.IsSane := hbegins.does.sane w (by simp)
  have happly := h.apply hsane (hbegins.safe (h.settled k)) fun k' v hv =>
    hbegins.does.spares (h.does k') (fun hk => hk ▸ rfl) hv
  refine happly.update k hbegins.does fun v hv => ?_
  rcases List.mem_append.mp hv with hv | hv
  · exact happly.settled k v hv
  · obtain rfl := List.mem_singleton.mp hv
    exact hsane.settles

theorem Referred.telemetry (h : Referred d ws) (g : Granularity)
    (records : List TelemetryRecord) :
    Referred (d.apply (.upsert ⟨g.table, .updateAll⟩ (records.map TelemetryRecord.row))) ws := by
  have hfree : ∀ f ∈ Schema.references, f.table.name ≠ g.table.name := by
    cases g <;> decide
  have hproper : Write.Proper [] _ := telemetry_proper g records
  refine h.apply hproper.sane ?_ fun _ v _ => g.spares _ v
  exact fun f hf hname => absurd hname (hfree f hf)

/-- References between tables hold at any time, whatever the reconcilers of both kinds are in the
middle of. -/
theorem references_hold {x : Tandem}
    (h : Tandem.Reached config (fun _ _ => True) x) : x.store.database.Intact := by
  obtain ⟨ws, -, hreferred⟩ := h.invariant (I := Referred) .start
    (fun k h => h.update k k.does_nil fun _ hv => nomatch hv)
    (fun _ hbegins h => h.write hbegins) (fun g records h => h.telemetry g records)
  exact hreferred.intact

/-- They hold in the middle of the removal of a pod, whose container still refers to it. -/
theorem references_hold_midway : ∃ x r rest,
    Tandem.Reached (fun _ => {}) (fun _ _ => True) x ∧ x.task .pod = .busy r rest ∧
      (x.store.database.rows Schema.container.name).length = 1 ∧ x.store.database.Intact := by
  let seen := Notification.seen (barePod "default" "web-1" ["nginx"])
  let r : Reconciler := { kind := .pod, config := {} }
  let r' : Reconciler := { r with known := r.known.insert ⟨"default", "web-1"⟩ }
  let w := ((r.sync seen).runIn World.answer {}).2
  have hrun : (r.sync seen).runIn World.answer {} = (.ok r', w) := rfl
  have hstart : Tandem.Reached (fun _ => {}) (fun _ _ => True) (Tandem.start fun _ => {}) := .start
  have hseen := hstart.sync (k := .pod) (r := r) (n := seen) rfl trivial rfl hrun
  have hdeleted := hseen.turn (.syncs (k := .pod) (r := r') (n := .deleted ⟨"default", "web-1"⟩)
    rfl trivial)
  have hwritten := hdeleted.turn (.writes (k := .pod) (r := r') rfl)
  refine ⟨_, r', _, hwritten, rfl, ?_, references_hold hwritten⟩
  decide +kernel

end Reached

end KubeLedger
