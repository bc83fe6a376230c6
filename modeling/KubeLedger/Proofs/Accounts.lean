import KubeLedger.Proofs.Deliveries
import KubeLedger.Proofs.PrimaryRows

/- Every primary row is accounted for. A row in scope belongs to an object that is known, or to one
   that waits to be tried again, or the last attempt of its object found it invalid
   (`Delivery.Accounts`). The primary row is written first and the object known last, so what has
   to be shown is that every end of an attempt in between leaves the notification waiting.

   The one attempt that decides an object settles its account whatever it was before, and leaves
   the accounts of all others alone (`Accounted.attempt`). A turn is then a list of attempts that
   are still due (`todo`): a listing drops what waits only for keys that it is about to delete. -/
namespace KubeLedger

open Database

/-- A notification of an object whose names hold no slash, under the object's key. -/
structure Notification.IsPlain (n : Notification) : Prop where
  plain : n.id.IsPlain
  key : n.key = n.id.key
  object : ∀ o, n.object = some o → o.id = n.id

namespace Notification

theorem seen_isPlain {o : ClusterObject} (h : o.id.IsPlain) : (seen o).IsPlain := by
  have hid : (seen o).id = o.id := ObjectId.ofKey_key h
  refine ⟨hid ▸ h, congrArg ObjectId.key hid.symm, fun o' ho' => ?_⟩
  cases ho'
  exact hid.symm

theorem deleted_isPlain {id : ObjectId} (h : id.IsPlain) : (deleted id).IsPlain :=
  ⟨(deleted_id h).symm ▸ h, congrArg ObjectId.key (deleted_id h).symm, fun _ ho => nomatch ho⟩

/-- Plain notifications have one key exactly if they are of one object. -/
theorem IsPlain.key_eq {n : Notification} (hn : n.IsPlain) {id : ObjectId} (hid : id.IsPlain) :
    id.key = n.key ↔ id = n.id := by
  rw [hn.key]
  exact ⟨ObjectId.key_inj hid hn.plain, congrArg ObjectId.key⟩

end Notification

/-- Rows that are each about an object whose names hold no slash. -/
def Table.PlainRows (t : Table) (rows : List Row) : Prop :=
  ∀ row ∈ rows, t.Fits row ∧ ∃ id : ObjectId, id.IsPlain ∧ t.Names row id

/-- An object is known, or waits to be tried again, or was found invalid when it was last tried. -/
def Delivery.Accounts (h : History) (d : Delivery) (id : ObjectId) : Prop :=
  d.reconciler.known.contains id = true ∨ (∃ r ∈ d.pending, r.notification.id = id) ∨
    ∃ a, h.latest? id.key = some a ∧ a.IsInvalid

/-- A delivery that accounts for every primary row in scope, but for the objects under some keys
that are still to be tried. -/
structure Accounted (k : Kind) (c : ReconcilerConfig) (todo : List String) (h : History)
    (d : Delivery) (rows : List Row) : Prop where
  kind : d.reconciler.kind = k
  config : d.reconciler.config = c
  grouped : d.reconciler.known.Grouped
  known : ∀ id, d.reconciler.known.contains id = true → id.IsPlain
  pending : ∀ r ∈ d.pending, r.notification.IsPlain
  plain : k.table.PlainRows rows
  accounts : ∀ row ∈ rows, ∀ id : ObjectId, id.IsPlain → k.table.Names row id →
    d.reconciler.inScope id.ns = true → id.key ∈ todo ∨ d.Accounts h id

namespace Accounted

variable {k : Kind} {c : ReconcilerConfig} {todo : List String} {h : History} {d : Delivery}
  {rows : List Row}

theorem mono {todo' : List String} (hl : Accounted k c todo h d rows) (hsub : todo ⊆ todo') :
    Accounted k c todo' h d rows :=
  { hl with accounts := fun row hrow id hid hnames hscope =>
      (hl.accounts row hrow id hid hnames hscope).imp_left fun hkey => hsub hkey }

/-! ## One attempt -/

section Attempt
variable {n : Notification} {clock : Clock} {b : Option Backoff}
  {result : Except SyncError Reconciler}

/-- An attempt settles the account of its object: unless it succeeds without knowing the object. -/
theorem accounts_self (hn : n.IsPlain)
    (hok : ∀ r', result = .ok r' → r'.known.contains n.id = true) :
    ((d.forget n.key).settle clock n b result).Accounts (.of n result :: h) n.id := by
  cases result with
  | ok r' => exact Or.inl (hok r' rfl)
  | error e =>
    by_cases he : e.isRetryable = true
    · obtain ⟨r, hr, hrn⟩ := Delivery.settle_waits (d.forget n.key) he
      exact Or.inr (Or.inl ⟨r, hr, congrArg Notification.id hrn⟩)
    · -- not worth another try, so the object is invalid, and this is its latest attempt
      refine Or.inr (Or.inr ⟨.of n (.error e), ?_, ?_⟩)
      · simp [History.latest?, hn.key]
      · cases e with
        | invalid e => exact ⟨e, rfl⟩
        | store e => exact absurd rfl he
        | client e => exact absurd rfl he

/-- An attempt leaves the accounts of all other objects alone. -/
theorem accounts_other (hn : n.IsPlain) {id : ObjectId} (hid : id.IsPlain) (hne : id ≠ n.id)
    (hok : ∀ r', result = .ok r' → d.reconciler.known.contains id = true →
      r'.known.contains id = true)
    (hacc : d.Accounts h id) :
    ((d.forget n.key).settle clock n b result).Accounts (.of n result :: h) id := by
  rcases hacc with hknown | ⟨r, hr, hrid⟩ | ⟨a, ha, hinvalid⟩
  · left
    cases result with
    | ok r' => exact hok r' rfl hknown
    | error e =>
      rw [Delivery.settle_error_reconciler]
      exact hknown
  · refine Or.inr (Or.inl ⟨r, Delivery.mem_settle_of_ne hr fun hkey => hne ?_, hrid⟩)
    exact hrid.symm.trans (congrArg ObjectId.ofKey hkey)
  · refine Or.inr (Or.inr ⟨a, ?_, hinvalid⟩)
    have hkey : n.key ≠ id.key := fun hkey => hne ((hn.key_eq hid).mp hkey.symm)
    unfold History.latest? at ha ⊢
    rw [List.find?_cons_of_neg (by simpa using hkey)]
    exact ha

end Attempt

/-- What an attempt may do to the primary rows and to what is known, for an object that it is not
about and for the one that it is. -/
structure Moves (k : Kind) (n : Notification) (r : Reconciler) (rows rows' : List Row)
    (result : Except SyncError Reconciler) : Prop where
  stored : ∀ row ∈ rows', row ∈ rows ∨ k.table.Fits row ∧ k.table.Names row n.id
  kept : ∀ r', result = .ok r' → r'.kind = r.kind ∧ r'.config = r.config ∧ r'.known.Grouped ∧
    ∀ id, id ≠ n.id → (r'.known.contains id = true ↔ r.known.contains id = true)
  self : (∀ r', result = .ok r' → r'.known.contains n.id = true) ∨
    ∃ r', result = .ok r' ∧ r'.known.contains n.id = false ∧ ∀ row ∈ rows', ¬k.table.Names row n.id

theorem Moves.failed {n : Notification} {r : Reconciler} {rows' : List Row}
    {result : Except SyncError Reconciler} {e : SyncError} (hsame : rows' = rows)
    (he : result = .error e) : Moves k n r rows rows' result where
  stored := fun row hrow => Or.inl (hsame ▸ hrow)
  kept := fun r' hr' => by
    rw [he] at hr'
    cases hr'
  self := Or.inl fun r' hr' => by
    rw [he] at hr'
    cases hr'

section Sync
variable {σ : Type} {env : Surroundings σ} {db : σ → Database} {own : String → Prop}
  {r : Reconciler} {n : Notification} {w : σ}

theorem moves (henv : env.Keeps db own) (hown : own r.kind.table.name) (hn : n.IsPlain)
    (hgrouped : r.known.Grouped) (hrows : r.kind.table.PlainRows ((db w).rows r.kind.table.name)) :
    Moves r.kind n r ((db w).rows r.kind.table.name)
      ((db ((r.sync n).runIn env w).2).rows r.kind.table.name) ((r.sync n).runIn env w).1 := by
  have hrun : (r.sync n).runIn env w =
      (((r.sync n).runIn env w).1, ((r.sync n).runIn env w).2) := rfl
  cases hobject : n.object with
  | some o =>
    have hid := hn.object o hobject
    rcases Reconciler.seen_primary henv hown hobject hrun with
      ⟨m, hmap, hput, hknown⟩ | ⟨hsame, e, he⟩
    · -- the row is put whether or not the rest succeeds; if it does, the object is known
      have hd := Kind.map_describes hmap
      refine ⟨fun row hrow => ?_, fun r' hr' => ?_, Or.inl fun r' hr' => ?_⟩
      · rw [hput] at hrow
        have hfits := fun x hx => (hrows x hx).1
        rcases Table.mem_put (Schema.lawful r.kind.table_mem) hd.row_takes hfits hrow
          with rfl | hrow
        · exact Or.inr ⟨hd.row_takes.fits, hid ▸ hd.row_names⟩
        · exact Or.inl hrow
      · rw [hknown r' hr', hid]
        refine ⟨rfl, rfl, hgrouped.insert n.id, fun id hne => ?_⟩
        rw [IdSet.contains_insert]
        exact or_iff_right hne
      · rw [hknown r' hr', IdSet.contains_insert]
        exact Or.inl hid.symm
    · exact .failed hsame he
  | none =>
    rcases Reconciler.deleted_primary henv hown hobject hrun with ⟨hok, hdel⟩ | ⟨hsame, e, he, -⟩
    · -- the object is not known any more, but no row of it is left either
      refine ⟨fun row hrow => Or.inl ?_, fun r' hr' => ?_, Or.inr ⟨_, hok, ?_, fun row hrow => ?_⟩⟩
      · rw [hdel] at hrow
        exact (List.mem_filter.mp hrow).1
      · rw [hok] at hr'
        cases hr'
        refine ⟨rfl, rfl, hgrouped.erase n.id, fun id hne => ?_⟩
        rw [IdSet.contains_erase hgrouped]
        exact and_iff_right hne
      · rw [Bool.eq_false_iff, ne_eq, IdSet.contains_erase hgrouped]
        exact fun h => h.1 rfl
      · rw [hdel] at hrow
        intro hnames
        have hfree := (List.mem_filter.mp hrow).2
        rw [Table.ownedBy_iff.mpr hnames.id] at hfree
        cases hfree
    · exact .failed hsame he

/-- One attempt takes its key off what is still to be tried. -/
theorem attempt (henv : env.Keeps db own) (hown : own k.table.name) (hn : n.IsPlain)
    (clock : Clock) (b : Option Backoff)
    (hl : Accounted k c (n.key :: todo) h d ((db w).rows k.table.name)) :
    Accounted k c todo (d.attempted env n w :: h) ((d.forget n.key).attempt env clock n b w).1
      ((db ((d.forget n.key).attempt env clock n b w).2).rows k.table.name) := by
  obtain rfl := hl.kind
  have hmoves := moves henv hown hn hl.grouped hl.plain
  rw [Delivery.attempt_eq, Delivery.forget_reconciler]
  unfold Delivery.attempted
  generalize ((d.reconciler.sync n).runIn env w).1 = result at hmoves ⊢
  generalize (db ((d.reconciler.sync n).runIn env w).2).rows d.reconciler.kind.table.name = rows'
    at hmoves ⊢
  -- the reconciler afterwards is the one that the sync gave, or the one before
  have hreconciler : (∃ r', result = .ok r' ∧
      ((d.forget n.key).settle clock n b result).reconciler = r') ∨
        ((d.forget n.key).settle clock n b result).reconciler = d.reconciler := by
    cases result with
    | ok r' => exact Or.inl ⟨r', rfl, rfl⟩
    | error e => exact Or.inr (Delivery.settle_error_reconciler _ e)
  have hkept : ((d.forget n.key).settle clock n b result).reconciler.kind = d.reconciler.kind ∧
      ((d.forget n.key).settle clock n b result).reconciler.config = d.reconciler.config ∧
      ((d.forget n.key).settle clock n b result).reconciler.known.Grouped := by
    rcases hreconciler with ⟨r', hr', heq⟩ | heq
    · rw [heq]
      exact ⟨(hmoves.kept r' hr').1, (hmoves.kept r' hr').2.1, (hmoves.kept r' hr').2.2.1⟩
    · rw [heq]
      exact ⟨rfl, rfl, hl.grouped⟩
  refine
    { kind := hkept.1
      config := hkept.2.1.trans hl.config
      grouped := hkept.2.2
      known := fun id hid => ?_
      pending := fun r hr => ?_
      plain := fun row hrow => ?_
      accounts := fun row hrow id hid hnames hscope => ?_ }
  · by_cases hne : id = n.id
    · exact hne ▸ hn.plain
    · rcases hreconciler with ⟨r', hr', heq⟩ | heq
      · rw [heq] at hid
        exact hl.known id (((hmoves.kept r' hr').2.2.2 id hne).mp hid)
      · rw [heq] at hid
        exact hl.known id hid
  · rcases Delivery.mem_settle hr with ⟨hr, -⟩ | ⟨rfl, -⟩
    · exact hl.pending r hr
    · exact hn
  · rcases hmoves.stored row hrow with hrow | ⟨hfits, hnames⟩
    · exact hl.plain row hrow
    · exact ⟨hfits, n.id, hn.plain, hnames⟩
  · have hscope' : d.reconciler.inScope id.ns = true := by
      unfold Reconciler.inScope at hscope ⊢
      rwa [hkept.2.1] at hscope
    by_cases hne : id = n.id
    · -- the attempt settles the account of its own object
      subst hne
      rcases hmoves.self with hok | ⟨r', -, -, hgone⟩
      · exact Or.inr (accounts_self hn hok)
      · exact absurd hnames (hgone row hrow)
    · -- the row of any other object was there before, and its account was settled then
      have hstored : row ∈ (db w).rows d.reconciler.kind.table.name := by
        rcases hmoves.stored row hrow with hrow | ⟨-, hnames'⟩
        · exact hrow
        · exact absurd (hnames.unique hnames') hne
      rcases hl.accounts row hstored id hid hnames hscope' with hkey | hacc
      · rcases List.mem_cons.mp hkey with hkey | hkey
        · exact absurd ((hn.key_eq hid).mp hkey) hne
        · exact Or.inl hkey
      · refine Or.inr (accounts_other hn hid hne (fun r' hr' hknown => ?_) hacc)
        exact ((hmoves.kept r' hr').2.2.2 id hne).mpr hknown

theorem deliverAll (henv : env.Keeps db own) (hown : own k.table.name) (clock : Clock)
    {ns : List Notification} (hns : ∀ n ∈ ns, n.IsPlain)
    (hl : Accounted k c (ns.map (fun n => n.key) ++ todo) h d ((db w).rows k.table.name)) :
    Accounted k c todo (Delivery.deliveredAll env clock ns d w h) (d.deliverAll env clock ns w).1
      ((db (d.deliverAll env clock ns w).2).rows k.table.name) := by
  induction ns generalizing d w h with
  | nil => exact hl
  | cons n ns ih =>
    exact ih (fun n' hn' => hns n' (List.mem_cons_of_mem n hn'))
      (hl.attempt henv hown (hns n List.mem_cons_self) clock _)

theorem retryAll (henv : env.Keeps db own) (hown : own k.table.name) (clock : Clock)
    (keys : List String) (hl : Accounted k c todo h d ((db w).rows k.table.name)) :
    Accounted k c todo (Delivery.retriedAll env clock keys d w h) (d.retryAll env clock keys w).1
      ((db (d.retryAll env clock keys w).2).rows k.table.name) := by
  induction keys generalizing d w h with
  | nil => exact hl
  | cons key keys ih =>
    unfold Delivery.retriedAll Delivery.retryAll
    cases hretry : d.retry? key with
    | none => exact ih hl
    | some r =>
      obtain ⟨hr, rfl⟩ := Delivery.retry?_some hretry
      exact ih ((hl.mono (List.subset_cons_self _ _)).attempt henv hown (hl.pending r hr) clock _)

end Sync

/-! ## Turns -/

/-- A listing drops only what it is about to delete. -/
theorem dropLost (hl : Accounted k c [] h d rows) {listed : IdSet} {ns : List Notification}
    (hns : ns.Perm (d.deletions listed)) :
    (∀ n ∈ ns, n.IsPlain) ∧
      Accounted k c (ns.map (fun n => n.key) ++ []) h (d.dropLost listed) rows := by
  have hplain : ∀ n ∈ ns, n.IsPlain := by
    intro n hn
    rcases Delivery.mem_deletions (hns.subset hn) with hstale | ⟨r, hr, -, rfl⟩
    · obtain ⟨id, hid, -, rfl⟩ := Delivery.mem_stale.mp hstale
      exact Notification.deleted_isPlain
        (hl.known id ((IdSet.mem_difference hl.grouped).mp hid).1)
    · exact Notification.deleted_isPlain (hl.pending r hr).plain
  refine ⟨hplain, { hl with
    pending := fun r hr => hl.pending r (List.mem_filter.mp hr).1
    accounts := fun row hrow id hid hnames hscope => ?_ }⟩
  rcases hl.accounts row hrow id hid hnames hscope with hkey | hknown | ⟨r, hr, rfl⟩ | hinvalid
  · cases hkey
  · exact Or.inr (Or.inl hknown)
  · by_cases hlost : Delivery.isLost listed r = true
    · -- what is lost waits no more, but a deletion of it is due
      left
      obtain ⟨n, hn, hkey⟩ := Delivery.lost_deleted hr hlost
      refine List.mem_append_left _ (List.mem_map.mpr ⟨n, hns.mem_iff.mpr hn, ?_⟩)
      rcases hkey with hkey | rfl
      · exact hkey.trans (hl.pending r hr).key
      · rfl
    · exact Or.inr (Or.inr (Or.inl ⟨r, List.mem_filter.mpr ⟨hr, by simpa using hlost⟩, rfl⟩))
  · exact Or.inr (Or.inr (Or.inr hinvalid))

theorem of_runs {σ : Type} {env : Surroundings σ} {db : σ → Database} {own : String → Prop}
    {d₀ : Delivery} {w₀ w : σ} (henv : env.Keeps db own) (hown : own k.table.name)
    (hstart : Accounted k c [] [] d₀ ((db w₀).rows k.table.name))
    (hrun : Delivery.Runs env db own Notification.IsPlain d₀ w₀ h d w) :
    Accounted k c [] h d ((db w).rows k.table.name) := by
  induction hrun with
  | start => exact hstart
  | idle _ hsame ih =>
    rw [hsame _ hown]
    exact ih
  | notified clock _ hn ih =>
    exact (ih.mono (List.nil_subset _)).attempt henv hown hn clock _
  | listed clock _ hns ih =>
    obtain ⟨hplain, hdropped⟩ := ih.dropLost hns
    exact hdropped.deliverAll henv hown clock hplain
  | due clock _ _ ih => exact ih.retryAll henv hown clock _

theorem of_warmUp {σ : Type} {env : Surroundings σ} {db : σ → Database} {own : String → Prop}
    {r : Reconciler} {w w₀ : σ} (henv : env.Keeps db own) (hown : own k.table.name)
    (hplain : k.table.PlainRows ((db w).rows k.table.name))
    (hwarm : (Reconciler.warmUp ⟨k, c, .empty⟩).runIn env w = (.ok r, w₀)) :
    Accounted k c [] [] ⟨r, []⟩ ((db w₀).rows k.table.name) := by
  obtain ⟨hsame, hkind, hconfig, hgrouped, hknown⟩ := Reconciler.warmUp_known henv hown hwarm
  rw [hsame _ hown]
  refine
    { kind := hkind
      config := hconfig
      grouped := hgrouped
      known := fun id hid => ?_
      pending := fun _ hr => nomatch hr
      plain := hplain
      accounts := fun row hrow id _ hnames hscope => ?_ }
  · obtain ⟨-, row, hrow, hns, hname⟩ := (hknown id).mp hid
    obtain ⟨-, id', hplain', hnames⟩ := hplain row hrow
    have hns' : id'.ns = id.ns := Cell.text.inj (hnames.ns.symm.trans hns)
    have hname' : id'.name = id.name := Cell.text.inj (hnames.name.symm.trans hname)
    unfold ObjectId.IsPlain at hplain' ⊢
    rwa [hns', hname'] at hplain'
  · refine Or.inr (Or.inl ((hknown id).mpr ⟨?_, row, hrow, hnames.ns, hnames.name⟩))
    unfold Reconciler.inScope at hscope ⊢
    rwa [hconfig] at hscope

end Accounted

/-! ## After a listing -/

theorem Delivery.deletions_succeed {σ : Type} {env : Surroundings σ} {clock : Clock}
    {ns : List Notification} {d : Delivery} {w : σ} (hgrouped : d.reconciler.known.Grouped)
    (hns : ∀ n ∈ ns, n.object = none)
    (hok : ∀ a ∈ deliveredAll env clock ns d w [], a.failure = none) :
    (∀ r ∈ (d.deliverAll env clock ns w).1.pending, r ∈ d.pending) ∧
      ∀ id, (d.deliverAll env clock ns w).1.reconciler.known.contains id = true →
        d.reconciler.known.contains id = true ∧ ∀ n ∈ ns, n.id ≠ id := by
  induction ns generalizing d w with
  | nil => exact ⟨fun r hr => hr, fun id hid => ⟨hid, fun n hn => nomatch hn⟩⟩
  | cons n ns ih =>
    -- the first deletion is in the history and succeeded, so the rest starts without its object
    unfold deliveredAll at hok
    dsimp only at hok
    rw [deliveredAll_append] at hok
    have hfirst := hok (d.attempted env n w) (List.mem_append_right _ List.mem_cons_self)
    obtain ⟨r', hr'⟩ : ∃ r', ((d.reconciler.sync n).runIn env w).1 = .ok r' := by
      unfold attempted at hfirst
      cases hresult : ((d.reconciler.sync n).runIn env w).1 with
      | error e =>
        rw [hresult] at hfirst
        cases hfirst
      | ok r' => exact ⟨r', rfl⟩
    have hknown : r' = { d.reconciler with known := d.reconciler.known.erase n.id } :=
      Reconciler.deleted_known (hns n List.mem_cons_self) (Prod.ext hr' rfl)
    have hnext : (d.deliver env clock n w).1 = { d.forget n.key with reconciler := r' } := by
      unfold deliver
      rw [attempt_eq, forget_reconciler, hr', settle_ok]
    have hgrouped' : (d.deliver env clock n w).1.reconciler.known.Grouped := by
      rw [hnext, hknown]
      exact hgrouped.erase n.id
    obtain ⟨hpending, hrest⟩ := ih hgrouped' (fun n' hn' => hns n' (List.mem_cons_of_mem n hn'))
      fun a ha => hok a (List.mem_append_left _ ha)
    refine ⟨fun r hr => ?_, fun id hid => ?_⟩
    · have hr := hpending r hr
      rw [hnext] at hr
      exact (mem_forget.mp hr).1
    · obtain ⟨hid, hothers⟩ := hrest id hid
      rw [hnext, hknown, IdSet.contains_erase hgrouped] at hid
      refine ⟨hid.2, fun n' hn' => ?_⟩
      rcases List.mem_cons.mp hn' with rfl | hn'
      · exact hid.1.symm
      · exact hothers n' hn'

/-- After a listing whose deletions succeed, an object in scope that is not listed has no account
left, but for a deletion of it that still waits, or an attempt that found it invalid. -/
theorem Accounted.after_listing {σ : Type} {env : Surroundings σ} {k : Kind}
    {c : ReconcilerConfig} {h : History} {d : Delivery} {w : σ} {rows : List Row}
    (hl : Accounted k c [] h d rows) {clock : Clock} {listed : IdSet} {ns : List Notification}
    (hns : ns.Perm (d.deletions listed))
    (hok : ∀ a ∈ Delivery.deliveredAll env clock ns (d.dropLost listed) w [], a.failure = none)
    {h' : History} {id : ObjectId} (hscope : d.reconciler.inScope id.ns = true)
    (hgone : listed.contains id = false)
    (hacc : ((d.dropLost listed).deliverAll env clock ns w).1.Accounts h' id) :
    (∃ r ∈ ((d.dropLost listed).deliverAll env clock ns w).1.pending,
      r.notification.id = id ∧ r.notification.object = none) ∨
      ∃ a, h'.latest? id.key = some a ∧ a.IsInvalid := by
  have hdeleted : ∀ n ∈ ns, n.object = none := by
    intro n hn
    rcases Delivery.mem_deletions (hns.subset hn) with hstale | ⟨r, -, -, rfl⟩
    · obtain ⟨id, -, -, rfl⟩ := Delivery.mem_stale.mp hstale
      rfl
    · rfl
  have hgrouped : (d.dropLost listed).reconciler.known.Grouped := hl.grouped
  obtain ⟨hpending, hknown⟩ := Delivery.deletions_succeed hgrouped hdeleted hok
  rcases hacc with hid | ⟨r, hr, rfl⟩ | hinvalid
  · -- it would be stale, and all that is stale was deleted
    exfalso
    obtain ⟨hid, hothers⟩ := hknown id hid
    have hstale : Notification.deleted id ∈ d.reconciler.stale listed :=
      Delivery.mem_stale.mpr ⟨id, (IdSet.mem_difference hl.grouped).mpr ⟨hid, hgone⟩, hscope, rfl⟩
    exact hothers _ (hns.mem_iff.mpr (Delivery.stale_subset_deletions _ hstale))
      (Notification.deleted_id (hl.known id hid))
  · left
    refine ⟨r, hr, rfl, ?_⟩
    have hlost := (List.mem_filter.mp (hpending r hr)).2
    unfold Delivery.isLost Notification.isSeen at hlost
    rw [hgone] at hlost
    simpa using hlost
  · exact Or.inr hinvalid

/-- No primary row is lost sight of. At any turn of a warmed-up delivery, whatever its feed was and
however its attempts ended, the object of a primary row in scope is known, or waits to be tried
again, or was found invalid by its last attempt. So after a listing whose deletions all succeed, a
row in scope of an object that is not listed is one whose deletion still waits, or whose last
attempt found the object invalid. -/
theorem rows_accounted {σ : Type} {env : Surroundings σ} {db : σ → Database} {own : String → Prop}
    (henv : env.Keeps db own) {k : Kind} {c : ReconcilerConfig} (hown : own k.table.name)
    {r : Reconciler} {w w₀ w' : σ} {h : History} {d : Delivery}
    (hplain : k.table.PlainRows ((db w).rows k.table.name))
    (hwarm : (Reconciler.warmUp ⟨k, c, .empty⟩).runIn env w = (.ok r, w₀))
    (hrun : Delivery.Runs env db own Notification.IsPlain ⟨r, []⟩ w₀ h d w') :
    (∀ row ∈ (db w').rows k.table.name, ∃ id : ObjectId, k.table.Names row id ∧
      (d.reconciler.inScope id.ns = true → d.Accounts h id)) ∧
    ∀ (clock : Clock) (listed : IdSet) (ns : List Notification), ns.Perm (d.deletions listed) →
      (∀ a ∈ Delivery.deliveredAll env clock ns (d.dropLost listed) w' [], a.failure = none) →
      ∀ row ∈ (db ((d.dropLost listed).deliverAll env clock ns w').2).rows k.table.name,
        ∃ id : ObjectId, k.table.Names row id ∧
          (d.reconciler.inScope id.ns = true → listed.contains id = false →
            (∃ r ∈ ((d.dropLost listed).deliverAll env clock ns w').1.pending,
              r.notification.id = id ∧ r.notification.object = none) ∨
            ∃ a, History.latest? (Delivery.deliveredAll env clock ns (d.dropLost listed) w' h)
              id.key = some a ∧ a.IsInvalid) := by
  have hstart := Accounted.of_warmUp henv hown hplain hwarm
  have hl := Accounted.of_runs henv hown hstart hrun
  refine ⟨fun row hrow => ?_, fun clock listed ns hns hok row hrow => ?_⟩
  · obtain ⟨-, id, hid, hnames⟩ := hl.plain row hrow
    refine ⟨id, hnames, fun hscope => ?_⟩
    exact (hl.accounts row hrow id hid hnames hscope).resolve_left fun h => nomatch h
  · have hl' := Accounted.of_runs henv hown hstart (hrun.listed clock hns)
    obtain ⟨-, id, hid, hnames⟩ := hl'.plain row hrow
    refine ⟨id, hnames, fun hscope hgone => ?_⟩
    have hscope' : ((d.dropLost listed).deliverAll env clock ns w').1.reconciler.inScope id.ns =
        true := by
      unfold Reconciler.inScope at hscope ⊢
      rw [hl'.config]
      rwa [hl.config] at hscope
    have hacc := (hl'.accounts row hrow id hid hnames hscope').resolve_left fun h => nomatch h
    exact hl.after_listing hns hok hscope hgone hacc

/-- It applies to a delivery that took a notification of a pod, and has put the row of the pod. -/
theorem rows_accounted_notified :
    ∃ h d w, Delivery.Runs World.answer (fun w => w.store.database) (fun _ => True)
        Notification.IsPlain ⟨⟨.pod, { fetchUsage := false }, .empty⟩, []⟩ {} h d w ∧
      (w.store.database.rows Schema.pod.name).length = 1 ∧
      ∀ row ∈ w.store.database.rows Schema.pod.name, ∃ id : ObjectId, Schema.pod.Names row id ∧
        (d.reconciler.inScope id.ns = true → d.Accounts h id) := by
  have hpod : (Notification.seen (barePod "default" "web-1" ["nginx"])).IsPlain :=
    Notification.seen_isPlain (by decide)
  have hrun : Delivery.Runs World.answer (fun w => w.store.database) (fun _ => True)
      Notification.IsPlain ⟨⟨.pod, { fetchUsage := false }, .empty⟩, []⟩ {} _ _ _ :=
    Delivery.Runs.start.notified ⟨0, id⟩ hpod
  have hplain : Kind.pod.table.PlainRows (({} : Database).rows Kind.pod.table.name) :=
    fun row hrow => (nomatch hrow)
  have hwarm : (Reconciler.warmUp ⟨.pod, { fetchUsage := false }, .empty⟩).runIn World.answer {} =
      (.ok ⟨.pod, { fetchUsage := false }, .empty⟩, {}) := rfl
  exact ⟨_, _, _, hrun, by decide +kernel,
    (rows_accounted World.keeps trivial hplain hwarm hrun).1⟩

/-- The exceptions are there. A pod whose usage cannot be read is in the store, but neither known
nor waiting; and a listing does not delete a claim of which a deletion waits already. -/
theorem rows_unaccounted :
    (∃ h d w, Delivery.Runs World.answer (fun w => w.store.database) (fun _ => True)
        Notification.IsPlain ⟨⟨.pod, { fetchLogs := false }, .empty⟩, []⟩
        { cluster := { usages := [(⟨"default", "web-1"⟩, ⟨.object [("window", .text "soon")]⟩)] } }
        h d w ∧
      (w.store.database.find Schema.pod "id" (.id (.object "default" "web-1"))).length = 1 ∧
      d.reconciler.known.contains ⟨"default", "web-1"⟩ = false ∧ d.pending.length = 0) ∧
    ∃ h d w, Delivery.Runs World.answer (fun w => w.store.database) (fun _ => True)
        Notification.IsPlain ⟨⟨.claim, {}, .empty⟩, []⟩ { store := { failing := ["pvc_label"] } }
        h d w ∧
      (d.deletions .empty).length = 0 ∧
      ((d.receive World.answer ⟨0, id⟩ (.listed .empty) w).2.store.database.find Schema.claim "id"
        (.id (.object "default" "data-1"))).length = 1 := by
  constructor
  · have hpod : (Notification.seen (barePod "default" "web-1" ["nginx"])).IsPlain :=
      Notification.seen_isPlain (by decide)
    refine ⟨_, _, _, Delivery.Runs.start.notified ⟨0, id⟩ hpod, ?_, ?_, ?_⟩ <;> decide +kernel
  · have hseen : (Notification.seen (barePod "default" "data-1" [])).IsPlain :=
      Notification.seen_isPlain (by decide)
    have hdeleted : (Notification.deleted ⟨"default", "data-1"⟩).IsPlain :=
      Notification.deleted_isPlain (by decide)
    refine ⟨_, _, _, (Delivery.Runs.start.notified ⟨0, id⟩ hseen).notified ⟨0, id⟩ hdeleted, ?_, ?_⟩
      <;> decide +kernel
end KubeLedger
