import KubeLedger.Proofs.Accounts

/- What a reconciler knows against what the store holds. Membership is kept in memory, apart from the
   rows that it stands for: an upsert writes the row first and knows the object last, a deletion
   removes the row last and forgets the object after it. So whatever a sync stops at, an object that
   is known has its row, and a row without a known object is what a failed upsert leaves (`Backed`).

   As long as every sync succeeds there is no such row. What is known is then what a warm-up would
   find, and a reconciler that starts afresh takes the same objects for stale (`known_rows`). -/
namespace KubeLedger

open Database

/-- A reconciler at work: it has warmed up, and has then synced notifications of one sort, each to
its end or up to an error. In between nobody else writes the tables of the given names. The flag
says whether every sync so far has succeeded. -/
inductive Reconciler.Works {σ : Type} (env : Surroundings σ) (db : σ → Database)
    (own : String → Prop) (sort : Notification → Prop) (k : Kind) (c : ReconcilerConfig) (w₀ : σ) :
    Bool → Reconciler → σ → Prop
  | warmed {r : Reconciler} {w : σ} :
    (warmUp ⟨k, c, .empty⟩).runIn env w₀ = (.ok r, w) → Works env db own sort k c w₀ true r w
  | idle {ok : Bool} {r : Reconciler} {w w' : σ} : Works env db own sort k c w₀ ok r w →
    SameOn own (db w) (db w') → Works env db own sort k c w₀ ok r w'
  | synced {ok : Bool} {r r' : Reconciler} {n : Notification} {w w' : σ} :
    Works env db own sort k c w₀ ok r w → sort n → (r.sync n).runIn env w = (.ok r', w') →
    Works env db own sort k c w₀ ok r' w'
  | failed {ok : Bool} {r : Reconciler} {n : Notification} {e : SyncError} {w w' : σ} :
    Works env db own sort k c w₀ ok r w → sort n → (r.sync n).runIn env w = (.error e, w') →
    Works env db own sort k c w₀ false r w'

/-- A notification of an object in scope, under one of the keys in play. -/
structure Notification.InScope (k : Kind) (c : ReconcilerConfig) (keys : List (List String))
    (n : Notification) : Prop extends n.IsPlain where
  scope : Reconciler.inScope ⟨k, c, .empty⟩ n.id.ns = true
  within : [n.id.ns, n.id.name] ∈ keys

/-- Rows that are each about an object with one of the keys in play, one row for each identity. -/
structure Table.NamedRows (t : Table) (keys : List (List String)) (rows : List Row) : Prop where
  sound : t.Sound rows
  named : ∀ row ∈ rows, ∃ id : ObjectId, [id.ns, id.name] ∈ keys ∧ t.Names row id

theorem Table.Names.of_texts {t : Table} {row : Row} {a b : ObjectId} (h : t.Names row a)
    (hns : t.cell row "namespace" = .text b.ns) (hname : t.cell row "name" = .text b.name) :
    a = b := by
  cases a
  cases b
  exact congrArg₂ ObjectId.mk (Cell.text.inj (h.ns.symm.trans hns))
    (Cell.text.inj (h.name.symm.trans hname))

namespace Table.NamedRows

variable {k : Kind} {keys : List (List String)} {rows : List Row}

theorem filter (p : Row → Bool) (h : k.table.NamedRows keys rows) :
    k.table.NamedRows keys (rows.filter p) :=
  ⟨Table.sound_filter p h.sound, fun row hrow => h.named row (List.mem_filter.mp hrow).1⟩

theorem put {id : ObjectId} {new : Row} (h : k.table.NamedRows keys rows)
    (hid : [id.ns, id.name] ∈ keys) (hnew : k.table.Takes new) (hnames : k.table.Names new id) :
    k.table.NamedRows keys (k.table.put new rows) := by
  refine ⟨Table.sound_put (Schema.lawful k.table_mem) hnew h.sound, fun row hrow => ?_⟩
  rcases Table.mem_put (Schema.lawful k.table_mem) hnew h.sound.fits hrow with rfl | hrow
  · exact ⟨id, hid, hnames⟩
  · exact h.named row hrow

/-- Rows of different objects have different identities. -/
theorem row_apart (hkeys : Distinct keys) (h : k.table.NamedRows keys rows) {id : ObjectId}
    (hid : [id.ns, id.name] ∈ keys) {row : Row} (hrow : row ∈ rows) {id' : ObjectId}
    (hnames : k.table.Names row id') (hne : id' ≠ id) :
    k.table.ownedBy "id" id.entityId row = false := by
  obtain ⟨id'', hid', hnames'⟩ := h.named row hrow
  obtain rfl := hnames.unique hnames'
  have hne' : id'.entityId ≠ id.entityId := fun he => hne (hkeys.object_inj hid' hid he)
  exact Table.ownedBy_unique (Table.ownedBy_iff.mpr hnames.id) hne'

theorem mem_put (hkeys : Distinct keys) (h : k.table.NamedRows keys rows) {id : ObjectId}
    (hid : [id.ns, id.name] ∈ keys) {new : Row} (hnew : k.table.Takes new)
    (hnames : k.table.Names new id) {row : Row} {id' : ObjectId} (hrow : k.table.Names row id') :
    row ∈ k.table.put new rows ↔ row = new ∨ id' ≠ id ∧ row ∈ rows := by
  obtain ⟨hkey, hcolumn⟩ := k.table_identity
  have hsame := fun row => Table.sameKey_identity hkey hcolumn hnew
    (Table.ownedBy_iff.mpr hnames.id) row
  rw [(Table.put_perm (Schema.lawful k.table_mem) hnew h.sound).mem_iff, List.mem_cons,
    List.mem_filter, hsame, Bool.not_eq_true']
  refine or_congr_right ⟨fun ⟨hin, hfree⟩ => ⟨?_, hin⟩, fun ⟨hne, hin⟩ => ⟨hin, ?_⟩⟩
  · rintro rfl
    rw [Table.ownedBy_iff.mpr hrow.id] at hfree
    cases hfree
  · exact h.row_apart hkeys hid hin hrow hne

end Table.NamedRows

/-- Every object that is known has a row, and if all has gone well so far, every row in scope is of
an object that is known. -/
structure Backed (keys : List (List String)) (k : Kind) (c : ReconcilerConfig) (ok : Bool)
    (r : Reconciler) (rows : List Row) : Prop where
  kind : r.kind = k
  config : r.config = c
  grouped : r.known.Grouped
  stored : k.table.NamedRows keys rows
  backed : ∀ id, r.known.contains id = true → [id.ns, id.name] ∈ keys ∧
    r.inScope id.ns = true ∧ ∃ row ∈ rows, k.table.Names row id
  all : ok = true → ∀ row ∈ rows, ∀ id : ObjectId, k.table.Names row id →
    r.inScope id.ns = true → r.known.contains id = true

namespace Backed

variable {keys : List (List String)} {k : Kind} {c : ReconcilerConfig} {ok : Bool} {r : Reconciler}
  {rows : List Row} {id : ObjectId}

theorem failed (h : Backed keys k c ok r rows) : Backed keys k c false r rows :=
  { h with all := nofun }

/-! ## What an upsert and a deletion do -/

section Put
variable {new : Row}

theorem seen (hkeys : Distinct keys) (h : Backed keys k c ok r rows)
    (hid : [id.ns, id.name] ∈ keys) (hscope : r.inScope id.ns = true) (hnew : k.table.Takes new)
    (hnames : k.table.Names new id) :
    Backed keys k c ok { r with known := r.known.insert id } (k.table.put new rows) := by
  have hmem := fun {row : Row} {id' : ObjectId} (hrow : k.table.Names row id') =>
    h.stored.mem_put hkeys hid hnew hnames hrow
  have hput : ∀ row ∈ k.table.put new rows, row = new ∨ row ∈ rows := fun row hrow =>
    Table.mem_put (Schema.lawful k.table_mem) hnew h.stored.sound.fits hrow
  refine
    { kind := h.kind
      config := h.config
      grouped := h.grouped.insert id
      stored := h.stored.put hid hnew hnames
      backed := fun id' hknown => ?_
      all := fun hok row hrow id' hrow' hscope' => ?_ }
  · rw [IdSet.contains_insert] at hknown
    by_cases hne : id' = id
    · subst hne
      exact ⟨hid, hscope, new, (hmem hnames).mpr (.inl rfl), hnames⟩
    · obtain ⟨hid', hscope', row, hrow, hrow'⟩ := h.backed id' (hknown.resolve_left hne)
      exact ⟨hid', hscope', row, (hmem hrow').mpr (.inr ⟨hne, hrow⟩), hrow'⟩
  · rw [IdSet.contains_insert]
    rcases hput row hrow with rfl | hrow
    · exact .inl (hrow'.unique hnames)
    · exact .inr (h.all hok row hrow id' hrow' hscope')

theorem seen_failed (hkeys : Distinct keys) (h : Backed keys k c ok r rows)
    (hid : [id.ns, id.name] ∈ keys) (hnew : k.table.Takes new) (hnames : k.table.Names new id) :
    Backed keys k c false r (k.table.put new rows) where
  kind := h.kind
  config := h.config
  grouped := h.grouped
  stored := h.stored.put hid hnew hnames
  backed := by
    intro id' hknown
    obtain ⟨hid', hscope', row, hrow, hrow'⟩ := h.backed id' hknown
    refine ⟨hid', hscope', ?_⟩
    by_cases hne : id' = id
    · subst hne
      exact ⟨new, (h.stored.mem_put hkeys hid hnew hnames hnames).mpr (.inl rfl), hnames⟩
    · exact ⟨row, (h.stored.mem_put hkeys hid hnew hnames hrow').mpr (.inr ⟨hne, hrow⟩), hrow'⟩
  all := nofun

end Put

/-- A deletion removes the row of its object, and then forgets the object. -/
theorem deleted (hkeys : Distinct keys) (h : Backed keys k c ok r rows)
    (hid : [id.ns, id.name] ∈ keys) :
    Backed keys k c ok { r with known := r.known.erase id }
      (rows.filter fun row => !k.table.ownedBy "id" id.entityId row) where
  kind := h.kind
  config := h.config
  grouped := h.grouped.erase id
  stored := h.stored.filter _
  backed := by
    intro id' hknown
    obtain ⟨hne, hknown⟩ := (IdSet.contains_erase h.grouped id id').mp hknown
    obtain ⟨hid', hscope', row, hrow, hrow'⟩ := h.backed id' hknown
    have hfree := h.stored.row_apart hkeys hid hrow hrow' hne
    exact ⟨hid', hscope', row, List.mem_filter.mpr ⟨hrow, by simp [hfree]⟩, hrow'⟩
  all := by
    intro hok row hrow id' hrow' hscope'
    obtain ⟨hrow, hfree⟩ := List.mem_filter.mp hrow
    refine (IdSet.contains_erase h.grouped id id').mpr ⟨?_, h.all hok row hrow id' hrow' hscope'⟩
    rintro rfl
    simp [Table.ownedBy_iff.mpr hrow'.id] at hfree

/-! ## Syncs -/

section Sync
variable {σ : Type} {env : Surroundings σ} {db : σ → Database} {own : String → Prop} {w w' : σ}
  {n : Notification} {result : Except SyncError Reconciler}

theorem sync (hkeys : Distinct keys) (henv : env.Keeps db own) (hown : own k.table.name)
    (h : Backed keys k c ok r ((db w).rows k.table.name)) (hn : n.InScope k c keys)
    (hrun : (r.sync n).runIn env w = (result, w')) :
    (∀ r', result = .ok r' → Backed keys k c ok r' ((db w').rows k.table.name)) ∧
      ∀ e, result = .error e → Backed keys k c false r ((db w').rows k.table.name) := by
  obtain rfl := h.kind
  have hscope : r.inScope n.id.ns = true := by
    have hscope := hn.scope
    unfold Reconciler.inScope at hscope ⊢
    rwa [h.config]
  cases hobject : n.object with
  | some o =>
    have hid := hn.object o hobject
    rcases Reconciler.seen_primary henv hown hobject hrun with
      ⟨m, hmap, hput, hknown⟩ | ⟨hsame, e, rfl⟩
    · have hd := Kind.map_describes hmap
      have hnames : r.kind.table.Names m.row n.id := hid ▸ hd.row_names
      rw [hput]
      refine ⟨fun r' hr' => ?_, fun e _ => h.seen_failed hkeys hn.within hd.row_takes hnames⟩
      rw [hknown r' hr', hid]
      exact h.seen hkeys hn.within hscope hd.row_takes hnames
    · rw [hsame]
      exact ⟨nofun, fun e _ => h.failed⟩
  | none =>
    rcases Reconciler.deleted_primary henv hown hobject hrun with
      ⟨rfl, hremoved⟩ | ⟨hsame, e, rfl, -⟩
    · rw [hremoved]
      refine ⟨fun r' hr' => ?_, nofun⟩
      obtain rfl := Except.ok.inj hr'
      exact h.deleted hkeys hn.within
    · rw [hsame]
      exact ⟨nofun, fun e _ => h.failed⟩

theorem warmUp (henv : env.Keeps db own) (hown : own k.table.name)
    (hrows : k.table.NamedRows keys ((db w).rows k.table.name))
    (hrun : (Reconciler.warmUp ⟨k, c, .empty⟩).runIn env w = (.ok r, w')) :
    Backed keys k c true r ((db w').rows k.table.name) := by
  obtain ⟨hsame, hkind, hconfig, hgrouped, hknown⟩ := Reconciler.warmUp_known henv hown hrun
  have hscope : ∀ ns, r.inScope ns = Reconciler.inScope ⟨k, c, .empty⟩ ns := by
    intro ns
    simp only [Reconciler.inScope, hconfig]
  rw [hsame _ hown]
  refine ⟨hkind, hconfig, hgrouped, hrows, fun id hid => ?_, ?_⟩
  · obtain ⟨hin, row, hrow, hns, hname⟩ := (hknown id).mp hid
    obtain ⟨id', hid', hnames⟩ := hrows.named row hrow
    obtain rfl := hnames.of_texts hns hname
    exact ⟨hid', (hscope id'.ns).trans hin, row, hrow, hnames⟩
  · intro _ row hrow id hnames hin
    exact (hknown id).mpr ⟨(hscope id.ns).symm.trans hin, row, hrow, hnames.ns, hnames.name⟩

theorem of_works {w₀ : σ} (hkeys : Distinct keys) (henv : env.Keeps db own)
    (hown : own k.table.name) (hrows : k.table.NamedRows keys ((db w₀).rows k.table.name))
    (hworks : Reconciler.Works env db own (Notification.InScope k c keys) k c w₀ ok r w) :
    Backed keys k c ok r ((db w).rows k.table.name) := by
  induction hworks with
  | warmed hrun => exact warmUp henv hown hrows hrun
  | idle _ hsame ih =>
    rw [hsame _ hown]
    exact ih
  | synced _ hn hrun ih => exact (ih.sync hkeys henv hown hn hrun).1 _ rfl
  | failed _ hn hrun ih => exact (ih.sync hkeys henv hown hn hrun).2 _ rfl

end Sync

end Backed

/-- What is known has a row, and a restart loses nothing. After a warm-up and any syncs, however they
ended, each known object has a row with its identity. If all of them succeeded, the known objects are
those of the rows in scope; so a reconciler that warms up afresh knows the same objects, and a
complete listing makes it delete the same ones. -/
theorem known_rows {keys : List (List String)} (hkeys : Distinct keys) {σ : Type}
    {env : Surroundings σ} {db : σ → Database} {own : String → Prop} (henv : env.Keeps db own)
    {k : Kind} {c : ReconcilerConfig} (hown : own k.table.name) {w₀ w : σ} {ok : Bool}
    {r : Reconciler} (hrows : k.table.NamedRows keys ((db w₀).rows k.table.name))
    (hworks : Reconciler.Works env db own (Notification.InScope k c keys) k c w₀ ok r w) :
    (∀ id, r.known.contains id = true →
      ∃ row ∈ (db w).rows k.table.name, k.table.cell row "id" = .id id.entityId) ∧
    (ok = true →
      (∀ id, r.known.contains id = true ↔ Reconciler.inScope ⟨k, c, .empty⟩ id.ns = true ∧
        ∃ row ∈ (db w).rows k.table.name, k.table.cell row "namespace" = .text id.ns ∧
          k.table.cell row "name" = .text id.name) ∧
      ∀ fresh w', (Reconciler.warmUp ⟨k, c, .empty⟩).runIn env w = (.ok fresh, w') →
        (∀ id, fresh.known.contains id = true ↔ r.known.contains id = true) ∧
        ∀ listed n, n ∈ fresh.stale listed ↔ n ∈ r.stale listed) := by
  have h := Backed.of_works hkeys henv hown hrows hworks
  refine ⟨fun id hid => ?_, fun hok => ?_⟩
  · obtain ⟨-, -, row, hrow, hnames⟩ := h.backed id hid
    exact ⟨row, hrow, hnames.id⟩
  · have hscope : ∀ ns, r.inScope ns = Reconciler.inScope ⟨k, c, .empty⟩ ns := by
      intro ns
      simp only [Reconciler.inScope, h.config]
    have hknown : ∀ id, r.known.contains id = true ↔
        Reconciler.inScope ⟨k, c, .empty⟩ id.ns = true ∧
          ∃ row ∈ (db w).rows k.table.name, k.table.cell row "namespace" = .text id.ns ∧
            k.table.cell row "name" = .text id.name := by
      intro id
      constructor
      · intro hid
        obtain ⟨-, hin, row, hrow, hnames⟩ := h.backed id hid
        exact ⟨hscope id.ns ▸ hin, row, hrow, hnames.ns, hnames.name⟩
      · rintro ⟨hin, row, hrow, hns, hname⟩
        obtain ⟨id', -, hnames⟩ := h.stored.named row hrow
        obtain rfl := hnames.of_texts hns hname
        exact h.all hok row hrow id' hnames (hscope id'.ns ▸ hin)
    refine ⟨hknown, fun fresh w' hwarm => ?_⟩
    obtain ⟨-, -, hconfig, hgrouped, hfresh⟩ := Reconciler.warmUp_known henv hown hwarm
    have hsame : ∀ id, fresh.known.contains id = true ↔ r.known.contains id = true := fun id =>
      (hfresh id).trans (hknown id).symm
    refine ⟨hsame, fun listed n => ?_⟩
    -- both look for stale objects among the same ones, in the same scope
    have hscope' : ∀ ns, fresh.inScope ns = r.inScope ns := by
      intro ns
      simp only [Reconciler.inScope, hconfig, h.config]
    simp only [Delivery.mem_stale, IdSet.mem_difference hgrouped, IdSet.mem_difference h.grouped,
      hsame, hscope']

/-- It applies to a reconciler of claims that saw two claims, lost one of them, and starts again. -/
theorem known_rows_restarted :
    let keys := [["default", "data-1"], ["default", "data-2"]]
    let start : Reconciler := ⟨.claim, {}, .empty⟩
    ∃ r w fresh w', Reconciler.Works World.answer (fun w => w.store.database) (fun _ => True)
        (Notification.InScope .claim {} keys) .claim {} {} true r w ∧
      start.warmUp.runIn World.answer w = (.ok fresh, w') ∧
      r.known.toList = [⟨"default", "data-2"⟩] ∧
      ∀ listed n, n ∈ fresh.stale listed ↔ n ∈ r.stale listed := by
  intro keys start
  have hkeys : Distinct keys := ⟨by decide, by decide, by decide +kernel⟩
  have hrows : Kind.claim.table.NamedRows keys (({} : Database).rows Kind.claim.table.name) :=
    ⟨⟨nofun, .nil⟩, nofun⟩
  have hseen : ∀ name, NoSlash name → ["default", name] ∈ keys →
      (Notification.seen (barePod "default" name [])).InScope .claim {} keys := by
    intro name hplain hname
    have hdefault : NoSlash "default" := by decide
    have hid : (Notification.seen (barePod "default" name [])).id = ⟨"default", name⟩ :=
      @ObjectId.ofKey_key ⟨"default", name⟩ ⟨hdefault, hplain⟩
    exact ⟨Notification.seen_isPlain ⟨hdefault, hplain⟩, rfl, hid ▸ hname⟩
  have hdeleted : (Notification.deleted ⟨"default", "data-1"⟩).InScope .claim {} keys :=
    ⟨Notification.deleted_isPlain (by decide), rfl, by decide⟩
  have hworks : Reconciler.Works World.answer (fun w => w.store.database) (fun _ => True)
      (Notification.InScope .claim {} keys) .claim {} {} true _ _ :=
    (((Reconciler.Works.warmed rfl).synced (hseen "data-1" (by decide) (by decide)) rfl).synced
      (hseen "data-2" (by decide) (by decide)) rfl).synced hdeleted rfl
  refine ⟨_, _, _, _, hworks, rfl, by decide +kernel, ?_⟩
  exact (((known_rows hkeys World.keeps trivial hrows hworks).2 rfl).2 _ _ rfl).2

end KubeLedger
