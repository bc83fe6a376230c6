import KubeLedger.Proofs.Accounts
import KubeLedger.Proofs.Identities
import KubeLedger.Proofs.IdSets
import KubeLedger.Proofs.Views

/- Syncs of different objects commute. Every write of a sync that succeeds is either an overwrite of
   one table or brings entries to the dictionary. The rows that a sync adds are rows of its object,
   and it takes out rows of its object or under the keys of those that it adds; so neither takes out
   what the other adds (`Heard.leaves`), and the two overwrites of each table commute.

   Telemetry of containers has no column of the owner and is found through the containers that are
   stored, which the other sync may have written. But it changes none of the first object
   (`Heard.owned`), so both orders take out the same telemetry.

   Histories may have brought names with slashes, and only the names of the two objects and of their
   containers are known to hold none. That is enough, since a message without slashes to spare is
   shared by no other key of the same length. -/
namespace KubeLedger

open Database

/-! ## Rows apart -/

def PlainIn (keys plain : List (List String)) : Prop :=
  ∀ key ∈ plain, key ∈ keys ∧ ∀ s ∈ key, NoSlash s

theorem Table.Admits.apart {keys plain : List (List String)} (hkeys : Collisionless keys)
    (hplain : PlainIn keys plain) {t : Table} {column : String} {e : EntityId} {new row : Row}
    (hnew : t.Admits plain column e new) (hfree : t.ownedBy column e row = false)
    (hrow : column ∈ t.key ∨ (t.keyAt = [0] ∧ t.indexOf? column = some 1) ∧ Anchored keys row) :
    t.sameKey row new = false := by
  by_contra hk
  rw [Bool.not_eq_false] at hk
  have howned : t.ownedBy column e row = true := by
    rcases hrow with hkey | ⟨⟨hat, hcolumn⟩, pod', name', hin', hid', hpod'⟩
    · exact sameKey_owned hkey hnew.takes hnew.owned hk
    · rcases hnew.anchored with hkey | ⟨pod, name, hin, hid, hpod⟩
      · exact sameKey_owned hkey hnew.takes hnew.owned hk
      · have hcell : cellAt row 0 = cellAt new 0 := hnew.takes.sameKey_iff.mp hk 0 (by simp [hat])
        rw [hid, hid', Cell.id_inj] at hcell
        obtain ⟨hin, hslash⟩ := hplain _ hin
        have hsame := EntityId.message_inj_of_length (b := [pod'.ns, pod'.name, name']) hslash rfl
          (hkeys.message_eq hin hin' hcell.symm)
        have hpods : pod = pod' := by
          cases pod
          cases pod'
          simp_all
        have howner := hnew.owned
        rw [ownedBy_iff, cell_of_indexOf hcolumn] at howner ⊢
        exact hpod'.trans (hpods ▸ hpod.symm.trans howner)
  rw [hfree] at howned
  cases howned

/-! ## The writes of a sync -/

namespace ClusterView

/-- The writes of a sync that succeeds. -/
def writes (v : ClusterView) (k : Kind) (c : ReconcilerConfig) (n : Notification) : List Write :=
  match n.object with
  | some o => v.course k c o
  | none => k.removal n.id.entityId

/-- The keys that a sync brings into play: those of the object, of its containers, and of those
whose usage is reported. -/
def keys (v : ClusterView) (k : Kind) (n : Notification) : List (List String) :=
  [n.id.ns, n.id.name] ::
    match n.object.map k.map with
    | some (.ok m) => v.keysOf m
    | _ => []

end ClusterView

/-- A sync that succeeded, told by the object that it was of: its writes bring rows of the object,
under plain keys, or they remove the object. -/
inductive Heard (k : Kind) (plain : List (List String)) (e : EntityId) : List Write → Prop
  | seen {ws : List Write} (tables : (ws.map fun w => w.table.name).Nodup)
    (brings : ∀ w ∈ ws, w.Brings k plain e) : Heard k plain e ws
  | deleted : Heard k plain e (k.removal e)

namespace Heard

variable {k : Kind} {plain keys : List (List String)} {e e' : EntityId} {ws : List Write}
  {d d' : Database} {w : Write}

theorem tables (h : Heard k plain e ws) : (ws.map fun w => w.table.name).Nodup := by
  cases h with
  | seen tables brings => exact tables
  | deleted => exact k.removal_tables e

theorem mem (h : Heard k plain e ws) (hw : w ∈ ws) : w.table ∈ Schema.tables := by
  cases h with
  | seen tables brings => exact (brings w hw).table_mem
  | deleted => exact Kind.removal_mem hw

theorem sane (h : Heard k plain e ws) (hw : w ∈ ws) : w.IsSane := by
  cases h with
  | seen tables brings => exact (brings w hw).sane
  | deleted => exact Kind.removal_sane hw

/-- Apart from the dictionary and the telemetry of containers, every write is an overwrite. -/
theorem firm (h : Heard k plain e ws) (hw : w ∈ ws) (hlabel : w.table ≠ Schema.label)
    (hmetric : w.table ≠ Schema.containerMetric) : w.IsFirm := by
  cases h with
  | seen tables brings =>
    refine (brings w hw).firm.resolve_right ?_
    rintro ⟨rows, rfl, -⟩
    exact hlabel rfl
  | deleted =>
    rcases Kind.removal_cases hw with ⟨t, column, -, rfl⟩ | ⟨-, rfl⟩
    · exact trivial
    · exact absurd rfl hmetric

theorem adds (h : Heard k plain e ws) (hw : w ∈ ws) (hlabel : w.table ≠ Schema.label) {r : Row}
    (hr : r ∈ w.overwrite.adds) : ∃ column, (w.table, column) ∈ k.holdings ∧
      w.table.Admits plain column e r := by
  cases h with
  | seen tables brings =>
    cases brings w hw with
    | upsert hmem hrows => exact ⟨_, hmem, hrows r (Table.mem_of_mem_latest hr)⟩
    | replace hmem hrows => exact ⟨_, hmem, hrows r (Table.mem_of_mem_latest hr)⟩
    | dictionary hrows => exact absurd rfl hlabel
  | deleted =>
    obtain ⟨step, -, rfl⟩ := List.mem_map.mp hw
    cases step with
    | direct t column => cases hr
    | through t column via viaColumn => cases hr

/-- The rows of another object are left. -/
theorem leaves (hkeys : Collisionless keys) (hplain : PlainIn keys plain) (h : Heard k plain e ws)
    (hw : w ∈ ws) {column : String} (hmem : (w.table, column) ∈ k.holdings) {r : Row}
    (hfree : w.table.ownedBy column e r = false)
    (hr : column ∈ w.table.key ∨ Anchored keys r) : w.overwrite.leaves r = true := by
  have apart : ∀ {new : Row}, w.table.Admits plain column e new →
      w.table.sameKey r new = false := by
    intro new hnew
    refine hnew.apart hkeys hplain hfree ?_
    rcases k.holdings_key hmem with hkey | hcontainer
    · exact .inl hkey
    · exact hr.imp_right fun hanchored => ⟨hcontainer, hanchored⟩
  have unmet : ∀ {rows : List Row}, (∀ row ∈ rows, w.table.Admits plain column e row) →
      rows.any (w.table.sameKey r) = false := fun hrows =>
    List.any_eq_false.mpr fun new hnew => by simp [apart (hrows new hnew)]
  cases h with
  | seen tables brings =>
    cases brings w hw with
    | upsert hmem' hrows =>
      obtain rfl := k.holdings_unique hmem hmem'
      simp only [Write.overwrite, Bool.not_eq_true']
      exact unmet hrows
    | replace hmem' hrows =>
      obtain rfl := k.holdings_unique hmem hmem'
      have hunmet := unmet hrows
      simp only [Write.overwrite, Bool.and_eq_true, Bool.not_eq_true']
      exact ⟨hunmet, hfree⟩
    | dictionary hrows => exact absurd rfl (k.holdings_ne hmem)
  | deleted =>
    obtain ⟨step, hstep, rfl⟩ := List.mem_map.mp hw
    cases step with
    | direct t column' =>
      obtain rfl := k.holdings_unique hmem (Kind.mem_holdings.mpr hstep)
      show (!t.ownedBy column e r) = true
      rw [Bool.not_eq_true']
      exact hfree
    | through t column' via viaColumn => rfl

/-! ## Table by table -/

theorem sound (h : Heard k plain e ws) (hd : d.IsSound)
    (hchanges : Changes (fun _ => True) ws d d') : d'.IsSound :=
  hchanges.sound (fun _ hw => h.sane hw) hd

end Heard

def overwriteOf (ws : List Write) (name : String) : Overwrite :=
  ((ws.find? fun w => w.table.name == name).map Write.overwrite).getD .none

theorem overwriteOf_cases (ws : List Write) (name : String) :
    (∃ w ∈ ws, w.table.name = name ∧ overwriteOf ws name = w.overwrite) ∨
      (∀ w ∈ ws, w.table.name ≠ name) ∧ overwriteOf ws name = .none := by
  unfold overwriteOf
  cases hfind : ws.find? fun w => w.table.name == name with
  | some w =>
    have hname : w.table.name = name := by simpa using List.find?_some hfind
    exact .inl ⟨w, List.mem_of_find?_eq_some hfind, hname, rfl⟩
  | none => exact .inr ⟨fun w hw => by simpa using List.find?_eq_none.mp hfind w hw, rfl⟩

namespace Heard

variable {k : Kind} {plain keys : List (List String)} {e e' : EntityId} {ws ws' : List Write}
  {d d' : Database} {w : Write} {name : String}

/-- Apart from the dictionary and the telemetry of containers, every table is overwritten. -/
theorem rows_perm (h : Heard k plain e ws) (hd : d.IsSound)
    (hchanges : Changes (fun _ => True) ws d d') (hlabel : name ≠ Schema.label.name)
    (hmetric : name ≠ Schema.containerMetric.name) :
    (d'.rows name).Perm ((overwriteOf ws name).on (d.rows name)) := by
  rcases overwriteOf_cases ws name with ⟨w, hw, rfl, heq⟩ | ⟨hother, heq⟩
  · have hfirm := h.firm hw (fun he => hlabel (he ▸ rfl)) fun he => hmetric (he ▸ rfl)
    rw [heq, hchanges.rows_of_mem h.tables hw trivial hfirm.isLocal]
    exact hfirm.on_perm (hd _ (h.mem hw))
  · rw [heq, Overwrite.on_none, hchanges.frame trivial hother]

/-- What the sync of one object adds is left by the sync of another. -/
theorem spares (hkeys : Collisionless keys) (hplain : PlainIn keys plain) (h : Heard k plain e ws)
    (h' : Heard k plain e' ws') (hne : e ≠ e') (hlabel : name ≠ Schema.label.name) :
    ∀ r ∈ (overwriteOf ws name).adds, (overwriteOf ws' name).leaves r = true := by
  intro r hr
  rcases overwriteOf_cases ws name with ⟨w, hw, rfl, heq⟩ | ⟨-, heq⟩
  · rcases overwriteOf_cases ws' w.table.name with ⟨w', hw', hname, heq'⟩ | ⟨-, heq'⟩
    · rw [heq] at hr
      obtain ⟨column, hmem, hadmits⟩ := h.adds hw (fun he => hlabel (he ▸ rfl)) hr
      have htable : w'.table = w.table := Schema.eq_of_name (h'.mem hw') (h.mem hw) hname
      rw [heq']
      refine h'.leaves hkeys hplain hw' (htable ▸ hmem) ?_ ?_
      · exact htable ▸ Table.ownedBy_unique hadmits.owned hne
      · rw [htable]
        refine hadmits.anchored.imp_right ?_
        rintro ⟨pod, name, hin, hcells⟩
        exact ⟨pod, name, (hplain _ hin).1, hcells⟩
    · rw [heq']
      rfl
  · rw [heq] at hr
    cases hr

/-- Writes of two objects make the same of a table in either order. -/
theorem rows_commute {d₁ d₁₂ d₂ d₂₁ : Database} (hkeys : Collisionless keys)
    (hplain : PlainIn keys plain) (h : Heard k plain e ws) (h' : Heard k plain e' ws')
    (hne : e ≠ e') (hd : d.IsSound) (h₁ : Changes (fun _ => True) ws d d₁)
    (h₁₂ : Changes (fun _ => True) ws' d₁ d₁₂) (h₂ : Changes (fun _ => True) ws' d d₂)
    (h₂₁ : Changes (fun _ => True) ws d₂ d₂₁) (hlabel : name ≠ Schema.label.name)
    (hmetric : name ≠ Schema.containerMetric.name) :
    (d₁₂.rows name).Perm (d₂₁.rows name) := by
  have hrows := (h'.rows_perm (h.sound hd h₁) h₁₂ hlabel hmetric).trans
    (Overwrite.on_perm (h.rows_perm hd h₁ hlabel hmetric))
  have hrows' := (h.rows_perm (h'.sound hd h₂) h₂₁ hlabel hmetric).trans
    (Overwrite.on_perm (h'.rows_perm hd h₂ hlabel hmetric))
  exact hrows.trans ((Overwrite.commute (h.spares hkeys hplain h' hne hlabel)
    (h'.spares hkeys hplain h hne.symm hlabel)).trans hrows'.symm)

/-! ## The dictionary -/

/-- The identities in the dictionary are those that were there and those that were brought. -/
theorem labels (h : Heard k plain e ws) (hchanges : Changes (fun _ => True) ws d d') (c : Cell) :
    (∃ r ∈ d'.rows Schema.label.name, cellAt r 0 = c) ↔
      (∃ r ∈ d.rows Schema.label.name, cellAt r 0 = c) ∨
        ∃ w ∈ ws, w.table = Schema.label ∧ ∃ r ∈ w.rows, cellAt r 0 = c := by
  by_cases hexists : ∃ w ∈ ws, w.table = Schema.label
  · obtain ⟨w, hw, htable⟩ := hexists
    have hdictionary : ∃ rows, w = .upsert ⟨Schema.label, .keep⟩ rows ∧
        ∀ row ∈ rows, Schema.label.Takes row := by
      cases h with
      | seen tables brings =>
        cases brings w hw with
        | upsert hmem hrows => exact absurd (congrArg Table.name htable) (k.holdings_ne hmem)
        | replace hmem hrows => exact absurd (congrArg Table.name htable) (k.holdings_ne hmem)
        | dictionary hrows => exact ⟨_, rfl, hrows⟩
      | deleted =>
        rcases Kind.removal_cases hw with ⟨t, column, hmem, rfl⟩ | ⟨-, rfl⟩
        · exact absurd (congrArg Table.name htable) (k.holdings_ne hmem)
        · exact absurd htable (by decide : Schema.containerMetric ≠ Schema.label)
    obtain ⟨rows, rfl, htakes⟩ := hdictionary
    have hrows : d'.rows Schema.label.name = upsertRows ⟨Schema.label, .keep⟩ rows
        (d.rows Schema.label.name) := hchanges.rows_of_mem h.tables hw trivial trivial
    have hcells : (∃ r ∈ upsertRows ⟨Schema.label, .keep⟩ rows (d.rows Schema.label.name),
        cellAt r 0 = c) ↔ (∃ r ∈ d.rows Schema.label.name, cellAt r 0 = c) ∨
          ∃ r ∈ rows, cellAt r 0 = c := Table.cells_upsertRows ⟨Schema.label, .keep⟩ htakes
            (by decide)
    rw [hrows, hcells]
    refine or_congr_right ⟨fun hr => ⟨_, hw, rfl, hr⟩, ?_⟩
    rintro ⟨w', hw', htable', hr⟩
    obtain rfl := List.inj_on_of_nodup_map h.tables hw' hw (congrArg Table.name htable')
    exact hr
  · have hother : ∀ w ∈ ws, w.table.name ≠ Schema.label.name := fun w hw hname =>
      hexists ⟨w, hw, Schema.eq_of_name (h.mem hw) (by decide) hname⟩
    rw [hchanges.frame trivial hother]
    refine (or_iff_left ?_).symm
    rintro ⟨w, hw, htable, -⟩
    exact hexists ⟨w, hw, htable⟩

/-! ## Telemetry of containers -/

/-- A sync leaves the rows that another object has in a table. -/
theorem owned (hkeys : Collisionless keys) (hplain : PlainIn keys plain) (h : Heard k plain e ws)
    (hne : e' ≠ e) (hd : d.IsSound) (hchanges : Changes (fun _ => True) ws d d') {t : Table}
    {column : String} (hmem : (t, column) ∈ k.holdings)
    (hanchored : column ∈ t.key ∨ ∀ r ∈ d.rows t.name, Anchored keys r) :
    (d'.find t column (.id e')).Perm (d.find t column (.id e')) := by
  have hlabel : t.name ≠ Schema.label.name := k.holdings_ne hmem
  have hmetric : t.name ≠ Schema.containerMetric.name := k.holdings_ne_telemetry hmem
  have hperm := (h.rows_perm hd hchanges hlabel hmetric).filter (t.ownedBy column e')
  rw [Table.find_id, Table.find_id]
  refine hperm.trans ?_
  rcases overwriteOf_cases ws t.name with ⟨w, hw, hname, heq⟩ | ⟨-, heq⟩
  · have htable : w.table = t := Schema.eq_of_name (h.mem hw) (k.holdings_mem hmem) hname
    subst htable
    have hadds : w.overwrite.adds.filter (w.table.ownedBy column e') = [] := by
      refine List.filter_eq_nil_iff.mpr fun r hr => ?_
      obtain ⟨column', hmem', hadmits⟩ := h.adds hw (fun he => hlabel (he ▸ rfl)) hr
      obtain rfl := k.holdings_unique hmem hmem'
      simp [Table.ownedBy_unique hadmits.owned hne.symm]
    rw [heq, Overwrite.on, List.filter_append, hadds, List.append_nil, List.filter_filter]
    refine .of_eq (List.filter_congr fun r hr => ?_)
    cases howned : w.table.ownedBy column e' r with
    | false => rfl
    | true =>
      have hleft := h.leaves hkeys hplain hw hmem (Table.ownedBy_unique howned hne)
        (hanchored.imp_right fun hall => hall r hr)
      simp [hleft]
  · rw [heq, Overwrite.on_none]

theorem claim_ne_telemetry (hw : w ∈ Kind.claim.removal e) :
    w.table.name ≠ Schema.containerMetric.name := by
  obtain ⟨step, hstep, rfl⟩ := List.mem_map.mp hw
  have hall : ∀ step ∈ Kind.claim.cascade ++ [Cascade.direct Kind.claim.table "id"],
      step.table.name ≠ Schema.containerMetric.name := by decide
  exact hall step hstep

theorem telemetry_cases (h : Heard k plain e ws) :
    (∀ w ∈ ws, w.table.name ≠ Schema.containerMetric.name) ∨
      k = .pod ∧ ws = Kind.pod.removal e := by
  cases h with
  | seen tables brings => exact .inl fun w hw => (brings w hw).ne_telemetry
  | deleted =>
    cases k with
    | pod => exact .inr ⟨rfl, rfl⟩
    | claim => exact .inl fun w hw => claim_ne_telemetry hw

/-- A sync of another object finds the same containers. -/
theorem keysVia_iff (hkeys : Collisionless keys) (hplain : PlainIn keys plain)
    (h : Heard .pod plain e ws) (hne : e' ≠ e) (hd : Tidy keys d)
    (hchanges : Changes (fun _ => True) ws d d') (c : Cell) :
    c ∈ d'.keysVia Schema.container "pod_id" e' ↔ c ∈ d.keysVia Schema.container "pod_id" e' := by
  have hperm := h.owned hkeys hplain hne hd.sound hchanges
    Kind.containers_held (.inr hd.anchored)
  simp only [mem_keysVia, hperm.mem_iff]

end Heard

/-- Removing rows by values depends on which values there are. -/
theorem deleteRows_congr {t : Table} {column : String} {values values' : List Cell}
    (h : ∀ c, c ∈ values ↔ c ∈ values') (rows : List Row) :
    deleteRows t column values rows = deleteRows t column values' rows := by
  unfold deleteRows
  cases t.indexOf? column with
  | none => rfl
  | some i =>
    have hholds : ∀ r, holds i values r = holds i values' r := fun r => by
      rw [Bool.eq_iff_iff, holds, holds, List.any_eq_true, List.any_eq_true]
      exact exists_congr fun c => and_congr_left fun _ => h c
    simp only [hholds]

theorem deleteRows_comm (t : Table) (column : String) (values values' : List Cell)
    (rows : List Row) : deleteRows t column values (deleteRows t column values' rows) =
      deleteRows t column values' (deleteRows t column values rows) := by
  unfold deleteRows
  cases t.indexOf? column with
  | none => rfl
  | some i =>
    dsimp only
    rw [List.filter_filter, List.filter_filter]
    exact List.filter_congr fun r _ => Bool.and_comm ..

namespace Heard

variable {k : Kind} {plain keys : List (List String)} {e e' : EntityId} {ws ws' : List Write}
  {d d₁ d₁₂ d₂ d₂₁ : Database}

/-- Both orders take out the same telemetry of containers. -/
theorem telemetry_commute (hkeys : Collisionless keys) (hplain : PlainIn keys plain)
    (h : Heard k plain e ws) (h' : Heard k plain e' ws') (hne : e ≠ e') (hd : Tidy keys d)
    (h₁ : Changes (fun _ => True) ws d d₁) (h₁₂ : Changes (fun _ => True) ws' d₁ d₁₂)
    (h₂ : Changes (fun _ => True) ws' d d₂) (h₂₁ : Changes (fun _ => True) ws d₂ d₂₁) :
    d₁₂.rows Schema.containerMetric.name = d₂₁.rows Schema.containerMetric.name := by
  rcases h.telemetry_cases with hquiet | ⟨rfl, rfl⟩
  · rw [h₂₁.frame trivial hquiet]
    rcases h'.telemetry_cases with hquiet' | ⟨rfl, rfl⟩
    · rw [h₁₂.frame trivial hquiet', h₁.frame trivial hquiet, h₂.frame trivial hquiet']
    · rw [Kind.removed_through h₁₂ trivial trivial, Kind.removed_through h₂ trivial trivial,
        h₁.frame trivial hquiet]
      exact deleteRows_congr (h.keysVia_iff hkeys hplain hne.symm hd h₁) _
  · rw [Kind.removed_through h₂₁ trivial trivial]
    rw [deleteRows_congr (h'.keysVia_iff hkeys hplain hne hd h₂)]
    rcases h'.telemetry_cases with hquiet' | ⟨-, rfl⟩
    · rw [h₁₂.frame trivial hquiet', h₂.frame trivial hquiet',
        Kind.removed_through h₁ trivial trivial]
    · rw [Kind.removed_through h₁₂ trivial trivial, Kind.removed_through h₂ trivial trivial,
        Kind.removed_through h₁ trivial trivial,
        deleteRows_congr (h.keysVia_iff hkeys hplain hne.symm hd h₁)]
      exact deleteRows_comm ..

end Heard

/-! ## What is known -/

/-- The known objects after a sync that succeeds. -/
def IdSet.heard (s : IdSet) (n : Notification) : IdSet :=
  match n.object with
  | some o => s.insert o.id
  | none => s.erase n.id

theorem IdSet.Grouped.heard {s : IdSet} (hs : s.Grouped) (n : Notification) :
    (s.heard n).Grouped := by
  unfold IdSet.heard
  cases n.object with
  | some o => exact hs.insert o.id
  | none => exact hs.erase n.id

/-- Afterwards the object of the notification is known if it was seen, and no other is affected. -/
theorem IdSet.contains_heard {s : IdSet} (hs : s.Grouped) {n : Notification} (hn : n.IsPlain)
    (id : ObjectId) : (s.heard n).contains id = true ↔
      id = n.id ∧ n.isSeen = true ∨ id ≠ n.id ∧ s.contains id = true := by
  unfold IdSet.heard Notification.isSeen
  cases hobject : n.object with
  | some o =>
    rw [IdSet.contains_insert, hn.object o hobject]
    by_cases hid : id = n.id <;> simp [hid]
  | none =>
    rw [IdSet.contains_erase hs]
    simp

/-! ## Both orders -/

/-- What a sync that succeeds has done, told by its object. -/
theorem Reconciler.Leads.heard {v : ClusterView} {r r' : Reconciler} {n : Notification}
    {plain : List (List String)} {d d' : Database} (hn : n.IsPlain)
    (hkeys : v.keys r.kind n ⊆ plain) (h : r.Leads v n (.ok r') d d') :
    Heard r.kind plain n.id.entityId (v.writes r.kind r.config n) ∧
      Changes (fun _ => True) (v.writes r.kind r.config n) d d' ∧
        r' = { r with known := r.known.heard n } := by
  unfold ClusterView.writes IdSet.heard
  unfold ClusterView.keys at hkeys
  cases hobject : n.object with
  | some o =>
    obtain ⟨⟨m, hmap⟩, hknown⟩ := h.seen_known hobject
    obtain ⟨ws, hchanges, -, hall⟩ := h.seen hobject
    obtain rfl := hall nofun
    have hm : v.keysOf m ⊆ plain := by
      simp only [hobject, Option.map_some, hmap] at hkeys
      exact fun key hkey => hkeys (List.mem_cons_of_mem _ hkey)
    rw [← hn.object o hobject]
    exact ⟨.seen (v.course_tables _ _ o) (v.course_brings hmap hm), hchanges, hknown⟩
  | none =>
    obtain ⟨hchanges, hknown⟩ := h.deleted hobject
    exact ⟨.deleted, hchanges, hknown⟩

theorem PlainIn.append {keys xs ys : List (List String)} (hx : PlainIn keys xs)
    (hy : PlainIn keys ys) : PlainIn keys (xs ++ ys) :=
  fun key hkey => (List.mem_append.mp hkey).elim (hx key) (hy key)

/-- Syncs of different objects commute. Next to a cluster whose answers do not change, in every
database that syncs and telemetry reach, take two notifications of one kind for different objects,
where the names of the objects and of their containers hold no slash. If both syncs succeed in both
orders, then both orders leave the same rows in every table other than the dictionary, the same
identities in the dictionary, and the same objects known. -/
theorem syncs_commute {keys : List (List String)} (hkeys : Collisionless keys) {v : ClusterView}
    {r r₁ r₁₂ r₂ r₂₁ : Reconciler} (hknown : r.known.Grouped) {a b : Notification}
    (ha : a.IsPlain) (hb : b.IsPlain) (hne : a.key ≠ b.key)
    (hplain : ∀ n ∈ [a, b], PlainIn keys (v.keys r.kind n)) {d d₁ d₁₂ d₂ d₂₁ : Database}
    (hreached : Reached keys d) (h₁ : r.Leads v a (.ok r₁) d d₁)
    (h₁₂ : r₁.Leads v b (.ok r₁₂) d₁ d₁₂) (h₂ : r.Leads v b (.ok r₂) d d₂)
    (h₂₁ : r₂.Leads v a (.ok r₂₁) d₂ d₂₁) :
    (∀ name, name ≠ Schema.label.name → (d₁₂.rows name).Perm (d₂₁.rows name)) ∧
      (∀ c, (∃ row ∈ d₁₂.rows Schema.label.name, Schema.label.cell row "id" = c) ↔
        ∃ row ∈ d₂₁.rows Schema.label.name, Schema.label.cell row "id" = c) ∧
      ∀ id, r₁₂.known.contains id = r₂₁.known.contains id := by
  have hina := hplain a List.mem_cons_self
  have hinb := hplain b (List.mem_cons_of_mem _ List.mem_cons_self)
  have hin := hina.append hinb
  have hida : a.id ≠ b.id := fun he => hne (by rw [ha.key, hb.key, he])
  have hent : a.id.entityId ≠ b.id.entityId := by
    intro he
    obtain ⟨hkeya, hslash⟩ := hina [a.id.ns, a.id.name] List.mem_cons_self
    obtain ⟨hkeyb, -⟩ := hinb [b.id.ns, b.id.name] List.mem_cons_self
    have hsame := EntityId.message_inj_of_length (b := [b.id.ns, b.id.name]) hslash rfl
      (hkeys.message_eq hkeya hkeyb he)
    apply hida
    cases hx : a.id
    cases hy : b.id
    simp_all
  -- the four syncs by the objects that they are of
  have hsuba := List.subset_append_left (v.keys r.kind a) (v.keys r.kind b)
  have hsubb := List.subset_append_right (v.keys r.kind a) (v.keys r.kind b)
  obtain ⟨hheard, hchanges₁, rfl⟩ := h₁.heard ha hsuba
  obtain ⟨hheard', hchanges₁₂, rfl⟩ :=
    Reconciler.Leads.heard (r := { r with known := r.known.heard a }) hb hsubb h₁₂
  obtain ⟨-, hchanges₂, rfl⟩ := h₂.heard hb hsubb
  obtain ⟨-, hchanges₂₁, rfl⟩ :=
    Reconciler.Leads.heard (r := { r with known := r.known.heard b }) ha hsuba h₂₁
  have htidy := hreached.tidy
  refine ⟨fun name hname => ?_, fun c => ?_, fun id => ?_⟩
  · by_cases hmetric : name = Schema.containerMetric.name
    · rw [hmetric]
      exact .of_eq (hheard.telemetry_commute hkeys hin hheard' hent htidy hchanges₁ hchanges₁₂
        hchanges₂ hchanges₂₁)
    · exact hheard.rows_commute hkeys hin hheard' hent htidy.sound hchanges₁ hchanges₁₂
        hchanges₂ hchanges₂₁ hname hmetric
  · simp only [Table.cell_of_indexOf Schema.label_id]
    rw [hheard'.labels hchanges₁₂, hheard.labels hchanges₁, hheard.labels hchanges₂₁,
      hheard'.labels hchanges₂]
    exact or_right_comm
  · rw [Bool.eq_iff_iff, IdSet.contains_heard (hknown.heard a) hb, IdSet.contains_heard hknown ha,
      IdSet.contains_heard (hknown.heard b) ha, IdSet.contains_heard hknown hb]
    by_cases hid : id = a.id
    · subst hid
      simp [hida]
    · simp [hid]

/-- It applies to the upsert of one pod and the deletion of another that is stored. -/
theorem syncs_commute_web :
    let r : Reconciler := ⟨.pod, {}, .empty⟩
    let a := Notification.seen (barePod "default" "web-1" ["nginx"])
    let b := Notification.deleted ⟨"default", "web-2"⟩
    let w₀ := ((r.sync (.seen (barePod "default" "web-2" ["main"]))).runIn World.answer {}).2
    ∃ (r₁ r₁₂ r₂ r₂₁ : Reconciler) (w₁ w₁₂ w₂ w₂₁ : World),
      (r.sync a).runIn World.answer w₀ = (.ok r₁, w₁) ∧
      (r₁.sync b).runIn World.answer w₁ = (.ok r₁₂, w₁₂) ∧
      (r.sync b).runIn World.answer w₀ = (.ok r₂, w₂) ∧
      (r₂.sync a).runIn World.answer w₂ = (.ok r₂₁, w₂₁) ∧
      (∀ name, name ≠ Schema.label.name →
        (w₁₂.store.database.rows name).Perm (w₂₁.store.database.rows name)) ∧
      ∀ id, r₁₂.known.contains id = r₂₁.known.contains id := by
  intro r a b w₀
  let keys := [["default", "web-1"], ["default", "web-1", "nginx"], ["default", "web-2"],
    ["default", "web-2", "main"]]
  have hkeys : Collisionless keys := by unfold Collisionless; decide +kernel
  have hstored : (Notification.seen (barePod "default" "web-2" ["main"])).keys .pod ⊆ keys := by
    decide +kernel
  have hfirst : (r.sync (.seen (barePod "default" "web-2" ["main"]))).runIn World.answer {} =
    (_, w₀) := rfl
  have hreached := Reached.sync World.keeps hstored .empty hfirst
  have hplain : ∀ n ∈ [a, b],
      PlainIn keys (({} : ScriptedCluster).view.keys Kind.pod n) := by
    unfold PlainIn
    decide +kernel
  -- the four syncs succeed, and none of them changes the cluster
  let r₁ := ((r.sync a).runIn World.answer w₀).1.toOption.getD r
  let r₂ := ((r.sync b).runIn World.answer w₀).1.toOption.getD r
  let w₁ := ((r.sync a).runIn World.answer w₀).2
  let w₂ := ((r.sync b).runIn World.answer w₀).2
  have h₁ : (r.sync a).runIn World.answer w₀ = (.ok r₁, w₁) := Sync.runIn_ok r (by decide +kernel)
  have h₂ : (r.sync b).runIn World.answer w₀ = (.ok r₂, w₂) := Sync.runIn_ok r (by decide +kernel)
  have h₁₂ : (r₁.sync b).runIn World.answer w₁ = _ := Sync.runIn_ok r (by decide +kernel)
  have h₂₁ : (r₂.sync a).runIn World.answer w₂ = _ := Sync.runIn_ok r (by decide +kernel)
  have hcluster : w₀.cluster = {} := World.runIn_cluster _ _
  have hcluster₁ : w₁.cluster = {} := (World.runIn_cluster _ _).trans hcluster
  have hcluster₂ : w₂.cluster = {} := (World.runIn_cluster _ _).trans hcluster
  obtain ⟨hrows, -, hknown⟩ := syncs_commute hkeys (v := ({} : ScriptedCluster).view)
    (show r.known.Grouped from IdSet.grouped_empty) (Notification.seen_isPlain (by decide))
    (Notification.deleted_isPlain (by decide)) (by decide) hplain hreached
    (hcluster ▸ World.leads h₁) (hcluster₁ ▸ World.leads h₁₂) (hcluster ▸ World.leads h₂)
    (hcluster₂ ▸ World.leads h₂₁)
  exact ⟨r₁, _, r₂, _, w₁, _, w₂, _, h₁, h₁₂, h₂, h₂₁, hrows, hknown⟩

end KubeLedger
