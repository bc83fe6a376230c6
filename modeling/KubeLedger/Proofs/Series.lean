import KubeLedger.Proofs.Answers
import KubeLedger.Proofs.Groupings
import KubeLedger.Proofs.Identities
import KubeLedger.Proofs.Reached

/- Series and their rows. A query that groups has one series for each combination of the values of
   the labels it groups by, and each of these is to have a row of its own. A row shows of the labels
   only who owns the series and what the series is called, so a query has to separate its series: each
   label that it groups by has to be part of either (`Query.Separates`). Then the samples of an
   answer overwrite no row of each other (`catalog_series_kept`).

   Two things are left out on purpose. Pods and containers are the same wherever they run, so series
   of a pod on two nodes are one series of it; and names are joined by slashes, so names that hold
   slashes of their own may be taken for others (`catalog_series_lost`). -/
namespace KubeLedger

open Database

/-! ## Labels -/

section Labels
variable {labels a b : Labels} {names : List String} {l : String}

/-- The value of a label. A label that is missing counts as an empty one. -/
def Labels.value (labels : Labels) (l : String) : String := (labels.lookup l).getD ""

def Labels.Over (labels : Labels) (names : List String) : Prop :=
  ∀ l v, labels.lookup l = some v → l ∈ names

theorem Labels.Over.value_eq (h : labels.Over names) (hl : l ∉ names) : labels.value l = "" := by
  unfold Labels.value
  cases hv : labels.lookup l with
  | none => rfl
  | some v => exact absurd (h l v hv) hl

theorem Query.seriesName_some {q : Query} (h : q.nameLabel = some l) :
    q.seriesName labels = labels.value l := by
  simp [seriesName, h, Labels.value]

theorem Query.seriesName_none {q : Query} (h : q.nameLabel = none) : q.seriesName labels = "" := by
  simp [seriesName, h]

end Labels

namespace Granularity

variable {g : Granularity} {labels a b : Labels} {l : String}

theorem present?_eq (labels : Labels) (l : String) :
    present? labels l = if labels.value l = "" then none else some (labels.value l) := by
  unfold present? Labels.value
  cases labels.lookup l with
  | none => simp
  | some v => by_cases hv : v = "" <;> simp [hv, Option.filter]

theorem getD_present? (labels : Labels) (l : String) :
    (present? labels l).getD "" = labels.value l := by
  rw [present?_eq]
  split
  · next hempty => simp [hempty]
  · rfl

/-- The names of the owner of a series, outermost first. -/
def names (g : Granularity) (labels : Labels) : List String :=
  match g with
  | .cluster => []
  | .node => [if labels.value "node" = "" then labels.value "instance" else labels.value "node"]
  | .pod => [labels.value "namespace", labels.value "pod"]
  | .container => [labels.value "namespace", labels.value "pod", labels.value "container"]

theorem owner?_eq (h : (g.owner? labels).isSome) :
    g.owner? labels = some (.of (g.names labels)) := by
  cases g with
  | cluster => rfl
  | node =>
    simp only [owner?, names, present?_eq] at h ⊢
    by_cases hnode : labels.value "node" = ""
    · by_cases hinstance : labels.value "instance" = ""
      · simp [hnode, hinstance] at h
      · simp [hnode, hinstance, EntityId.node]
    · simp [hnode, EntityId.node]
  | pod =>
    simp only [owner?, names, getD_present?] at h ⊢
    rw [present?_eq] at h ⊢
    by_cases hpod : labels.value "pod" = ""
    · simp [hpod] at h
    · simp [hpod, EntityId.object]
  | container =>
    simp only [owner?, names, getD_present?] at h ⊢
    rw [present?_eq] at h ⊢
    by_cases hcontainer : labels.value "container" = ""
    · simp [hcontainer] at h
    · simp [hcontainer, EntityId.container]

/-- The labels that an owner is named by. A node has one of two. -/
def sources : Granularity → List String
  | .cluster => []
  | .node => ["node", "instance"]
  | .pod => ["namespace", "pod"]
  | .container => ["namespace", "pod", "container"]

/-- Whether a label can tell series of a level apart. Pods and containers are the same wherever they
run, so their node tells nothing. -/
def tells : Granularity → String → Bool
  | .cluster, _ | .node, _ => true
  | .pod, l | .container, l => l ≠ "node"

/-- The names of the owner as they are digested, joined by slashes. -/
def joined (g : Granularity) (labels : Labels) : String := "/".intercalate (g.names labels)

/-- No name of a pod or container, nor of its namespace, holds a slash. -/
def Plain (g : Granularity) (labels : Labels) : Prop :=
  g = .pod ∨ g = .container → ∀ name ∈ g.names labels, NoSlash name

theorem message_eq_iff : EntityId.message (g.names a) = EntityId.message (g.names b) ↔
    g.joined a = g.joined b := ⟨encode_inj, congrArg Text.encode⟩

theorem names_inj (ha : g.Plain a) (h : g.joined a = g.joined b) : g.names a = g.names b := by
  have hmessage := message_eq_iff.mpr h
  cases g with
  | cluster => rfl
  | node => simpa [joined, names] using h
  | pod => exact EntityId.message_inj_of_length (ha (.inl rfl)) rfl hmessage
  | container => exact EntityId.message_inj_of_length (ha (.inr rfl)) rfl hmessage

end Granularity

/-! ## Separated series -/

/-- The labels by which a query tells its series apart. -/
def Query.telling (q : Query) (g : Granularity) : List String := q.grouping.filter g.tells

/-- A query shows in the rows of a level all that tells its series apart: each such label names the
owner or the series, and of the two labels that can name a node it groups by one at most. -/
structure Query.Separates (q : Query) (g : Granularity) : Prop where
  shown : ∀ l ∈ q.telling g, l ∈ g.sources ∨ q.nameLabel = some l
  named : ∀ l, q.nameLabel = some l → l ∈ q.telling g
  node : g = .node → "node" ∈ q.grouping → "instance" ∉ q.grouping

namespace Query.Separates

variable {q : Query} {g : Granularity} {a b : Labels} {l : String}

/-- Where all labels agree that can tell, all others do that an owner or a series is named by. -/
theorem value_eq (ha : a.Over q.grouping) (hb : b.Over q.grouping)
    (h : ∀ l ∈ q.telling g, a.value l = b.value l) (hl : g.tells l = true) :
    a.value l = b.value l := by
  by_cases hgrouped : l ∈ q.grouping
  · exact h l (List.mem_filter.mpr ⟨hgrouped, hl⟩)
  · rw [ha.value_eq hgrouped, hb.value_eq hgrouped]

/-- The names of an owner show each label that they are taken from. -/
theorem value_of_names (h : q.Separates g) (ha : a.Over q.grouping) (hb : b.Over q.grouping)
    (hnames : g.names a = g.names b) (hl : l ∈ q.grouping) (hsource : l ∈ g.sources) :
    a.value l = b.value l := by
  cases g with
  | cluster => cases hsource
  | node =>
    simp only [Granularity.names, List.cons.injEq, and_true] at hnames
    rcases List.mem_cons.mp hsource with rfl | hsource
    · -- there is no other label to name the node by
      have hother : "instance" ∉ q.grouping := h.node rfl hl
      have hself : ∀ name : String, (if name = "" then "" else name) = name := by
        intro name
        split
        · next hempty => exact hempty.symm
        · rfl
      rwa [ha.value_eq hother, hb.value_eq hother, hself, hself] at hnames
    · obtain rfl := List.mem_singleton.mp hsource
      have hother : "node" ∉ q.grouping := fun hnode => h.node rfl hnode hl
      simpa [ha.value_eq hother, hb.value_eq hother] using hnames
  | pod =>
    simp only [Granularity.names, List.cons.injEq, and_true] at hnames
    rcases List.mem_cons.mp hsource with rfl | hsource
    · exact hnames.1
    · obtain rfl := List.mem_singleton.mp hsource
      exact hnames.2
  | container =>
    simp only [Granularity.names, List.cons.injEq, and_true] at hnames
    rcases List.mem_cons.mp hsource with rfl | hsource
    · exact hnames.1
    · rcases List.mem_cons.mp hsource with rfl | hsource
      · exact hnames.2.1
      · obtain rfl := List.mem_singleton.mp hsource
        exact hnames.2.2

/-- Series have the same owner and the same name exactly if they agree in all that tells them
apart. -/
theorem same_iff (h : q.Separates g) (ha : a.Over q.grouping) (hb : b.Over q.grouping) :
    (g.names a = g.names b ∧ q.seriesName a = q.seriesName b) ↔
      ∀ l ∈ q.telling g, a.value l = b.value l := by
  constructor
  · rintro ⟨hnames, hseries⟩ l hl
    rcases h.shown l hl with hsource | hname
    · exact h.value_of_names ha hb hnames (List.mem_filter.mp hl).1 hsource
    · rwa [seriesName_some hname, seriesName_some hname] at hseries
  · intro hagree
    have hvalue := fun l (hl : g.tells l = true) => value_eq ha hb hagree hl
    constructor
    · cases g with
      | cluster => rfl
      | node => simp only [Granularity.names, hvalue "node" rfl, hvalue "instance" rfl]
      | pod => simp only [Granularity.names, hvalue "namespace" rfl, hvalue "pod" rfl]
      | container =>
        simp only [Granularity.names, hvalue "namespace" rfl, hvalue "pod" rfl,
          hvalue "container" rfl]
    · cases hname : q.nameLabel with
      | none => rw [seriesName_none hname, seriesName_none hname]
      | some l =>
        rw [seriesName_some hname, seriesName_some hname]
        exact hagree l (h.named l hname)

end Query.Separates

theorem Query.catalog_separates {g : Granularity} {q : Query} (hq : q ∈ catalog g)
    (hnamed : g = .cluster → q.category ∉ unnamed) : q.Separates g := by
  have hall : ∀ x ∈ forms g, (∀ l ∈ x.1.filter g.tells, l ∈ g.sources ∨ x.2 = some l) ∧
      (∀ l ∈ x.2, l ∈ x.1.filter g.tells) ∧
      (g = .node → "node" ∈ x.1 → "instance" ∉ x.1) := by
    cases g <;> decide
  obtain ⟨hshown, hnames, hnode⟩ := hall _ (catalog_form hq hnamed)
  exact ⟨hshown, hnames, hnode⟩

/-! ## Rows of samples -/

/-- The record of a usable sample taken in a minute. -/
def Query.recorded (q : Query) (g : Granularity) (m : Int64) (s : Sample) : TelemetryRecord :=
  ⟨.of (g.names s.labels), m, q.category, q.seriesName s.labels, s.value⟩

def Query.SharesRow (q : Query) (g : Granularity) (s s' : Sample) : Prop :=
  ∃ r r', q.recordsOf? g [s] = some [r] ∧ q.recordsOf? g [s'] = some [r'] ∧
    g.table.sameKey r.row r'.row = true

section Rows
variable {q : Query} {g : Granularity} {m : Int64} {s s' : Sample} {ss : List Sample}

theorem Query.recordsOf?_eq (h : ∀ s ∈ ss, s.Usable g)
    (hm : ∀ s ∈ ss, StartsMinute m.toInt s.time.toInt) :
    q.recordsOf? g ss = some (ss.map (q.recorded g m)) := by
  induction ss with
  | nil => rfl
  | cons s rest ih =>
    obtain ⟨husable, hrest⟩ := List.forall_mem_cons.mp h
    obtain ⟨hminute, hminutes⟩ := List.forall_mem_cons.mp hm
    have howner : s.owner? g = some (.of (g.names s.labels)) :=
      Sample.owner?_eq_some.mpr ⟨husable.number, Granularity.owner?_eq husable.attributed⟩
    rw [recordsOf?_used howner, record?_eq_some.mpr ⟨m, hminute, rfl⟩, ih hrest hminutes]
    rfl

/-- Samples of one minute share a row exactly if they have the same joined names of the owner and the
same name of the series. -/
theorem Query.sameKey_iff {keys : List (List String)} (hkeys : Collisionless keys)
    (hs : g.names s.labels ∈ keys) (hs' : g.names s'.labels ∈ keys) :
    g.table.sameKey (q.recorded g m s).row (q.recorded g m s').row = true ↔
      g.joined s.labels = g.joined s'.labels ∧ q.seriesName s.labels = q.seriesName s'.labels := by
  have howner : EntityId.of (g.names s.labels) = .of (g.names s'.labels) ↔
      g.joined s.labels = g.joined s'.labels := by
    rw [← Granularity.message_eq_iff]
    exact ⟨hkeys.message_eq hs hs', fun hmessage => by simp only [EntityId.of, hmessage]⟩
  rw [TelemetryRecord.sameKey_iff]
  simp only [recorded, howner, true_and]

/-- Rows with different keys are all the last of their key. -/
theorem Table.latest_eq {t : Table} {rows : List Row} (h : t.Keyed rows) : t.latest rows = rows := by
  induction rows with
  | nil => rfl
  | cons r rest ih =>
    obtain ⟨hfirst, hrest⟩ := List.pairwise_cons.mp h
    have hlast : rest.any (t.sameKey r) = false := by simpa using hfirst
    rw [latest, hlast, ih hrest]
    rfl

theorem Granularity.stored_perm {records : List TelemetryRecord}
    (h : g.table.Keyed (records.map TelemetryRecord.row)) {stored : List Row}
    (hs : g.table.Sound stored) :
    (upsertRows ⟨g.table, .update ["value"]⟩ (records.map TelemetryRecord.row) stored).Perm
      (stored.filter (fun r => !(records.map TelemetryRecord.row).any (g.table.sameKey r)) ++
        records.map TelemetryRecord.row) := by
  have hmem : g.table ∈ Schema.tables := by cases g <;> decide
  have htakes : ∀ r ∈ records.map TelemetryRecord.row, g.table.Takes r := by
    intro r hr
    obtain ⟨record, -, rfl⟩ := List.mem_map.mp hr
    exact record.row_takes g
  rw [upsertRows_value]
  simpa only [Table.latest_eq h] using Table.upsertRows_perm (Schema.lawful hmem) htakes hs

end Rows

/-! ## Answers -/

/-- Samples as they may stand in the answer to a query: they are of one point in time, all can be
used, they have no labels but those that the query groups by, and the identities of their owners do
not collide. -/
structure Query.Answered (q : Query) (g : Granularity) (t : Int64) (ss : List Sample) : Prop where
  time : ∀ s ∈ ss, s.time = t
  usable : ∀ s ∈ ss, s.Usable g
  grouped : ∀ s ∈ ss, s.labels.Over q.grouping
  distinct : Collisionless (ss.map fun s => g.names s.labels)

namespace Query.Answered

variable {q : Query} {g : Granularity} {t m : Int64} {ss : List Sample} {s s' : Sample}

theorem recordsOf?_eq (h : q.Answered g t ss) (hm : StartsMinute m.toInt t.toInt) :
    q.recordsOf? g ss = some (ss.map (q.recorded g m)) :=
  Query.recordsOf?_eq h.usable fun s hs => by rwa [h.time s hs]

theorem sharesRow_iff (h : q.Answered g t ss) (hm : StartsMinute m.toInt t.toInt) (hs : s ∈ ss)
    (hs' : s' ∈ ss) : q.SharesRow g s s' ↔
      g.table.sameKey (q.recorded g m s).row (q.recorded g m s').row = true := by
  have hrecord : ∀ x ∈ ss, q.recordsOf? g [x] = some [q.recorded g m x] := fun x hx =>
    Query.recordsOf?_eq (by simpa using h.usable x hx) (by simpa [h.time x hx] using hm)
  simp [SharesRow, hrecord s hs, hrecord s' hs']

theorem sameKey_iff (h : q.Answered g t ss) (hs : s ∈ ss) (hs' : s' ∈ ss) :
    g.table.sameKey (q.recorded g m s).row (q.recorded g m s').row = true ↔
      g.joined s.labels = g.joined s'.labels ∧ q.seriesName s.labels = q.seriesName s'.labels :=
  Query.sameKey_iff h.distinct (List.mem_map_of_mem hs) (List.mem_map_of_mem hs')

/-- Samples of separated series share a row only if nothing tells them apart. -/
theorem agree_iff (h : q.Answered g t ss) (hq : q.Separates g) (hs : s ∈ ss) (hs' : s' ∈ ss)
    (hplain : g.Plain s.labels) :
    g.table.sameKey (q.recorded g m s).row (q.recorded g m s').row = true ↔
      ∀ l ∈ q.telling g, s.labels.value l = s'.labels.value l := by
  rw [h.sameKey_iff hs hs', ← hq.same_iff (h.grouped s hs) (h.grouped s' hs')]
  refine and_congr_left fun _ => ⟨Granularity.names_inj hplain, fun hnames => ?_⟩
  simp only [Granularity.joined, hnames]

theorem keyed (h : q.Answered g t ss) (hq : q.Separates g) (hplain : ∀ s ∈ ss, g.Plain s.labels)
    (hdiffer : ss.Pairwise fun s s' => ∃ l ∈ q.telling g, s.labels.value l ≠ s'.labels.value l) :
    g.table.Keyed ((ss.map (q.recorded g m)).map TelemetryRecord.row) := by
  rw [List.map_map]
  refine List.pairwise_map.mpr (hdiffer.imp_of_mem fun {s s'} hs hs' hdiffers => ?_)
  obtain ⟨l, hl, hne⟩ := hdiffers
  rw [← Bool.not_eq_true]
  exact fun hsame => hne ((h.agree_iff hq hs hs' (hplain s hs)).mp hsame l hl)

end Query.Answered

/-- The built-in queries do not overwrite their own series. Apart from the queries about the cluster
that leave their series unnamed, two samples of an answer share a row exactly if the joined names of
their owners and the names of their series agree. Where names hold no slashes, that is exactly if the
samples agree in all labels that the query groups by, the node of pods and containers aside. So
samples that differ there pairwise all get a row of their own, beside the rows of other keys. -/
theorem catalog_series_kept {g : Granularity} {q : Query} (hq : q ∈ Query.catalog g)
    (hnamed : g = .cluster → q.category ∉ Query.unnamed) {t : Int64} {ss : List Sample}
    (h : q.Answered g t ss) (hdated : firstMinute ≤ t.toInt) :
    (∀ s ∈ ss, ∀ s' ∈ ss, q.SharesRow g s s' ↔
      g.joined s.labels = g.joined s'.labels ∧ q.seriesName s.labels = q.seriesName s'.labels) ∧
    ((∀ s ∈ ss, g.Plain s.labels) →
      (∀ s ∈ ss, ∀ s' ∈ ss, q.SharesRow g s s' ↔
        ∀ l ∈ q.telling g, s.labels.value l = s'.labels.value l) ∧
      (ss.Pairwise (fun s s' => ∃ l ∈ q.telling g, s.labels.value l ≠ s'.labels.value l) →
        ∃ records, q.records? g (.vector ss) = some records ∧
          let rows := records.map TelemetryRecord.row
          rows.length = ss.length ∧ g.table.Keyed rows ∧
            ∀ stored, g.table.Sound stored →
              (upsertRows ⟨g.table, .update ["value"]⟩ rows stored).Perm
                (stored.filter (fun r => !rows.any (g.table.sameKey r)) ++ rows))) := by
  have hseparates : q.Separates g := Query.catalog_separates hq hnamed
  obtain ⟨m, hm⟩ := Option.isSome_iff_exists.mp ((truncateMinute?_isSome t).mpr hdated)
  have hstarts := truncateMinute?_eq_some.mp hm
  refine ⟨fun s hs s' hs' => (h.sharesRow_iff hstarts hs hs').trans (h.sameKey_iff hs hs'),
    fun hplain => ⟨fun s hs s' hs' => ?_, fun hdiffer => ?_⟩⟩
  · exact (h.sharesRow_iff hstarts hs hs').trans (h.agree_iff hseparates hs hs' (hplain s hs))
  · have hkeyed := h.keyed (m := m) hseparates hplain hdiffer
    refine ⟨_, h.recordsOf?_eq hstarts, ?_, hkeyed, fun stored hs =>
      Granularity.stored_perm hkeyed hs⟩
    rw [List.length_map, List.length_map]

/-! ## Series of the catalog -/

def seriesAt (labels : Labels) : Sample := ⟨labels, 0, 1⟩

section Fixed
variable {q : Query} {g : Granularity} {a b : Labels}

theorem Labels.over_of_subset {labels : Labels} {names : List String}
    (h : labels.map Prod.fst ⊆ names) : labels.Over names := by
  intro l v hlookup
  obtain ⟨before, after, rfl, -⟩ := List.lookup_eq_some_iff.mp hlookup
  exact h (by simp)

theorem seriesAt_answered {all : List Labels}
    (hover : ∀ labels ∈ all, labels.map Prod.fst ⊆ q.grouping)
    (howned : ∀ labels ∈ all, (g.owner? labels).isSome)
    (hkeys : Collisionless (all.map g.names)) : q.Answered g 0 (all.map seriesAt) where
  time := by
    intro s hs
    obtain ⟨labels, -, rfl⟩ := List.mem_map.mp hs
    rfl
  usable := by
    intro s hs
    obtain ⟨labels, hlabels, rfl⟩ := List.mem_map.mp hs
    exact ⟨show Decimal.isNaN 1 = false by decide +kernel, howned labels hlabels⟩
  grouped := by
    intro s hs
    obtain ⟨labels, hlabels, rfl⟩ := List.mem_map.mp hs
    exact Labels.over_of_subset (hover labels hlabels)
  distinct := by rwa [List.map_map]

/-- A query loses one of two series: they differ in a label that it groups by, but their samples share
a row, and only one row is stored. -/
def Query.Loses (q : Query) (g : Granularity) (a b : Labels) : Prop :=
  let samples := [seriesAt a, seriesAt b]
  q.Answered g 0 samples ∧ a.map Prod.fst = q.grouping ∧ b.map Prod.fst = q.grouping ∧
    (∃ l ∈ q.grouping, a.value l ≠ b.value l) ∧
    ∃ records, q.records? g (.vector samples) = some records ∧
      let rows := records.map TelemetryRecord.row
      ¬g.table.Keyed rows ∧ (upsertRows ⟨g.table, .update ["value"]⟩ rows []).length = 1

/-- Two series are lost if no name shows in what they differ. -/
theorem Query.loses_of_joined (names : List String) (hgrouping : q.grouping = names)
    (ha : a.map Prod.fst = names) (hb : b.map Prod.fst = names)
    (howned : (g.owner? a).isSome ∧ (g.owner? b).isSome)
    (hkeys : Collisionless [g.names a, g.names b]) (hdiffer : ∃ l ∈ names, a.value l ≠ b.value l)
    (hjoined : g.joined a = g.joined b) (hseries : q.nameLabel = none) : q.Loses g a b := by
  subst hgrouping
  have hboth : q.Answered g 0 ([a, b].map seriesAt) :=
    seriesAt_answered (by simp [ha, hb]) (by simpa using howned) hkeys
  have hanswered : q.Answered g 0 [seriesAt a, seriesAt b] := hboth
  have hname : q.seriesName a = q.seriesName b := by
    rw [seriesName_none hseries, seriesName_none hseries]
  have hsame : g.table.sameKey (q.recorded g 0 (seriesAt a)).row (q.recorded g 0 (seriesAt b)).row :=
    (hanswered.sameKey_iff (by simp) (by simp)).mpr ⟨hjoined, hname⟩
  refine ⟨hanswered, ha, hb, hdiffer, _,
    hanswered.recordsOf?_eq (m := 0) ⟨by decide, by decide, by decide⟩, ?_, ?_⟩
  · intro hkeyed
    have hapart := (List.pairwise_cons.mp hkeyed).1 _ List.mem_cons_self
    exact absurd hsame (by simp [hapart])
  · have hagree : agree g.table.keyAt (q.recorded g 0 (seriesAt a)).row
        (q.recorded g 0 (seriesAt b)).row = true := hsame
    rw [upsertRows_value]
    show (g.table.put _ [_]).length = 1
    unfold Table.put upsertRow
    rw [if_pos hagree]
    rfl

end Fixed

def Query.filesystems : Query :=
  ⟨"filesystem.usage", "sum by (instance, mountpoint) (1 - (node_filesystem_avail_bytes / " ++
    "node_filesystem_size_bytes))", some "mountpoint"⟩

/-- Two filesystems of one node and one of another node fill three rows. -/
theorem catalog_series_kept_filesystems :
    let all : List Labels := [[("instance", "n1"), ("mountpoint", "/")],
      [("instance", "n1"), ("mountpoint", "/var")], [("instance", "n2"), ("mountpoint", "/")]]
    Query.filesystems ∈ Query.catalog .node ∧
      Query.filesystems.Answered .node 0 (all.map seriesAt) ∧
      ∃ records, Query.filesystems.records? .node (.vector (all.map seriesAt)) = some records ∧
        let rows := records.map TelemetryRecord.row
        Granularity.node.table.Keyed rows ∧
          (upsertRows ⟨Granularity.node.table, .update ["value"]⟩ rows []).length = 3 := by
  intro all
  have hq : Query.filesystems ∈ Query.catalog .node :=
    List.mem_append_right _ (.tail _ (.tail _ (.head _)))
  have hgrouping : Query.filesystems.grouping = ["instance", "mountpoint"] := by
    simp only [Query.grouping, Query.filesystems, String.toList_append]
    repeat rw [String.toList_ofList]
    decide +kernel
  have hanswered : Query.filesystems.Answered .node 0 (all.map seriesAt) := by
    refine seriesAt_answered ?_ (by decide) ?_
    · rw [hgrouping]
      decide
    · unfold Collisionless
      decide +kernel
  obtain ⟨-, hkept⟩ := catalog_series_kept hq (by simp) hanswered (by decide)
  obtain ⟨-, hstored⟩ := hkept fun s hs h => by simp at h
  obtain ⟨records, hrecords, hlength, hkeyed, hperm⟩ := hstored (by
    rw [Query.telling, hgrouping]
    decide)
  refine ⟨hq, hanswered, records, hrecords, hkeyed, ?_⟩
  have hcount := (hperm [] (Table.Sound.nil _)).length_eq
  rw [hcount, List.filter_nil, List.nil_append]
  exact hlength

/-- Of the series that one pod or container has on two nodes the last one is kept, and so it is of
series whose names are taken for each other because of slashes in them. -/
theorem catalog_series_lost :
    (∃ q ∈ Query.catalog .pod, q.category = "cpu.usage" ∧ q.Loses .pod
      [("node", "n1"), ("namespace", "default"), ("pod", "web-1")]
      [("node", "n2"), ("namespace", "default"), ("pod", "web-1")]) ∧
    (∃ q ∈ Query.catalog .container, q.category = "cpu.request" ∧ q.Loses .container
      [("node", "n1"), ("namespace", "default"), ("pod", "web-1"), ("container", "nginx")]
      [("node", "n2"), ("namespace", "default"), ("pod", "web-1"), ("container", "nginx")]) ∧
    ∃ q ∈ Query.catalog .pod, q.category = "cpu.usage.cores" ∧ q.Loses .pod
      [("namespace", "a/b"), ("pod", "c")] [("namespace", "a"), ("pod", "b/c")] := by
  refine ⟨⟨_, .head _, rfl, ?_⟩, ?_, ⟨_, .tail _ (.tail _ (.head _)), rfl, ?_⟩⟩
  · refine Query.loses_of_joined ["node", "namespace", "pod"] ?_ rfl rfl (by decide) ?_
      ⟨"node", by decide, by decide⟩ rfl rfl
    · rw [Query.grouping, String.toList_ofList]
      decide +kernel
    · unfold Collisionless
      decide +kernel
  · obtain ⟨q, hq, hcategory⟩ : ∃ q ∈ Query.containerCatalog, q.category = "cpu.request" :=
      ⟨_, .head _, by decide +kernel⟩
    -- queries about containers have one form
    have hform := List.mem_singleton.mp (Query.containerCatalog_form hq)
    refine ⟨q, hq, hcategory, Query.loses_of_joined _ (congrArg Prod.fst hform) rfl rfl (by decide)
      ?_ ⟨"node", by decide, by decide⟩ rfl (congrArg Prod.snd hform)⟩
    unfold Collisionless
    decide +kernel
  · refine Query.loses_of_joined ["namespace", "pod"] ?_ rfl rfl (by decide) ?_
      ⟨"pod", by decide, by decide⟩ (by decide +kernel) rfl
    · rw [Query.grouping, String.toList_ofList]
      decide +kernel
    · unfold Collisionless
      decide +kernel

end KubeLedger
