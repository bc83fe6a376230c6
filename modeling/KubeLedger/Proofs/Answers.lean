import KubeLedger.Proofs.Minutes
import KubeLedger.Telemetry.Sample

/- What an answer is to make, said without the code that makes it, sample by sample
   (`Query.Reports`): a usable sample has one record, which carries the start of its minute. This is
   what is made of an answer (`Query.makes_iff`), with one exception: a usable sample may be so early
   that no number of sixty-four bits is the start of its minute, and then nothing is made of the whole
   answer (`Query.records?_eq_none`). -/
namespace KubeLedger

/-- A sample has a number for a value, and labels that name its owner. -/
structure Sample.Usable (s : Sample) (g : Granularity) : Prop where
  number : Decimal.isNaN s.value = false
  attributed : (g.owner? s.labels).isSome

/-- The minutes of all usable samples of a result lie within sixty-four bits. -/
def QueryResult.IsDated (g : Granularity) (r : QueryResult) : Prop :=
  ∀ s ∈ r.samples, s.Usable g → firstMinute ≤ s.time.toInt

namespace Query

/-- The name that samples with some labels are stored under: what the label says that tells series
apart, or nothing. -/
inductive Names (q : Query) (labels : Labels) : String → Prop
  | labelled {l name : String} : q.nameLabel = some l → labels.lookup l = some name →
    Names q labels name
  | unnamed : (∀ l, q.nameLabel = some l → labels.lookup l = none) → Names q labels ""

/-- Samples and their records, in order: one for each sample that is a number and can be attributed. -/
inductive Reports (q : Query) (g : Granularity) : List Sample → List TelemetryRecord → Prop
  | nil : Reports q g [] []
  | used {s : Sample} {samples : List Sample} {records : List TelemetryRecord} {id : EntityId}
    {m : Int64} {name : String} : Decimal.isNaN s.value = false → g.owner? s.labels = some id →
    StartsMinute m.toInt s.time.toInt → q.Names s.labels name → Reports q g samples records →
    Reports q g (s :: samples) (⟨id, m, q.category, name, s.value⟩ :: records)
  | skipped {s : Sample} {samples : List Sample} {records : List TelemetryRecord} :
    Decimal.isNaN s.value = true ∨ g.owner? s.labels = none → Reports q g samples records →
    Reports q g (s :: samples) records

/-- A result and its records. A scalar is one sample without labels; a result that is neither this nor
a vector has no record. -/
inductive Makes (q : Query) (g : Granularity) : QueryResult → List TelemetryRecord → Prop
  | vector {samples : List Sample} {records : List TelemetryRecord} :
    Reports q g samples records → Makes q g (.vector samples) records
  | scalar {time : Int64} {value : Float} {records : List TelemetryRecord} :
    Reports q g [⟨[], time, value⟩] records → Makes q g (.scalar time value) records
  | other (type : String) : Makes q g (.other type) []

end Query

/-! ## Samples -/

namespace Sample

variable {s : Sample} {g : Granularity} {id : EntityId}

theorem owner?_eq_some : s.owner? g = some id ↔
    Decimal.isNaN s.value = false ∧ g.owner? s.labels = some id := by
  unfold owner?
  split <;> simp [*]

/-- A sample that is passed over is one that cannot be used. -/
theorem owner?_eq_none :
    s.owner? g = none ↔ Decimal.isNaN s.value = true ∨ g.owner? s.labels = none := by
  unfold owner?
  split <;> simp [*]

theorem usable_iff : s.Usable g ↔ (s.owner? g).isSome := by
  rw [Option.isSome_iff_exists]
  simp only [owner?_eq_some]
  constructor
  · rintro ⟨hnumber, howned⟩
    obtain ⟨id, hid⟩ := Option.isSome_iff_exists.mp howned
    exact ⟨id, hnumber, hid⟩
  · rintro ⟨id, hnumber, hid⟩
    exact ⟨hnumber, by rw [hid]; rfl⟩

end Sample

namespace Query

variable {q : Query} {g : Granularity} {s : Sample} {samples : List Sample}
  {records : List TelemetryRecord} {result : QueryResult} {labels : Labels} {name : String}
  {id : EntityId}

theorem names_iff : q.Names labels name ↔ q.seriesName labels = name := by
  unfold seriesName
  constructor
  · rintro (⟨hlabel, hname⟩ | hnone)
    · simp [hlabel, hname]
    · cases hlabel : q.nameLabel with
      | none => rfl
      | some l => simp [hnone l hlabel]
  · rintro rfl
    cases hlabel : q.nameLabel with
    | none => exact .unnamed (by simp [hlabel])
    | some l =>
      cases hname : labels.lookup l with
      | none =>
        rw [Option.bind_some, hname]
        exact .unnamed fun l' hl' => Option.some.inj (hlabel.symm.trans hl') ▸ hname
      | some name =>
        rw [Option.bind_some, hname]
        exact .labelled hlabel hname

theorem record?_eq_some {r : TelemetryRecord} : q.record? id s = some r ↔
    ∃ m : Int64, StartsMinute m.toInt s.time.toInt ∧
      ⟨id, m, q.category, q.seriesName s.labels, s.value⟩ = r :=
  TelemetryRecord.sampled?_eq_some

theorem record?_isSome : (q.record? id s).isSome ↔ firstMinute ≤ s.time.toInt := by
  rw [record?, TelemetryRecord.sampled?, Option.isSome_map, truncateMinute?_isSome]

/-! ## Records -/

@[simp] theorem recordsOf?_nil : q.recordsOf? g [] = some [] := rfl

theorem recordsOf?_skipped (h : s.owner? g = none) :
    q.recordsOf? g (s :: samples) = q.recordsOf? g samples := by
  rw [recordsOf?, h]

theorem recordsOf?_used (h : s.owner? g = some id) : q.recordsOf? g (s :: samples) =
    (q.record? id s).bind fun r => (q.recordsOf? g samples).map (r :: ·) := by
  rw [recordsOf?, h]
  cases q.recordsOf? g samples <;> rfl

theorem reports_iff : q.Reports g samples records ↔ q.recordsOf? g samples = some records := by
  constructor
  · intro h
    induction h with
    | nil => rfl
    | used hnumber howner hminute hname _ ih =>
      rw [recordsOf?_used (Sample.owner?_eq_some.mpr ⟨hnumber, howner⟩), ih,
        record?_eq_some.mpr ⟨_, hminute, rfl⟩, names_iff.mp hname]
      rfl
    | skipped hunusable _ ih => rw [recordsOf?_skipped (Sample.owner?_eq_none.mpr hunusable), ih]
  · intro h
    induction samples generalizing records with
    | nil =>
      cases h
      exact .nil
    | cons s rest ih =>
      cases howner : s.owner? g with
      | none =>
        rw [recordsOf?_skipped howner] at h
        exact .skipped (Sample.owner?_eq_none.mp howner) (ih h)
      | some id =>
        -- the minute of this sample and those of the others all have to be there
        simp only [recordsOf?_used howner, Option.bind_eq_some_iff, Option.map_eq_some_iff] at h
        obtain ⟨r, hr, more, hmore, rfl⟩ := h
        obtain ⟨m, hminute, rfl⟩ := record?_eq_some.mp hr
        obtain ⟨hnumber, hid⟩ := Sample.owner?_eq_some.mp howner
        exact .used hnumber hid hminute (names_iff.mpr rfl) (ih hmore)

/-- What is made of a result is what is to be made of it. -/
theorem makes_iff : q.Makes g result records ↔ q.records? g result = some records := by
  unfold records?
  cases result with
  | vector samples => exact ⟨fun | .vector h => reports_iff.mp h, fun h => .vector (reports_iff.mpr h)⟩
  | scalar time value =>
    exact ⟨fun | .scalar h => reports_iff.mp h, fun h => .scalar (reports_iff.mpr h)⟩
  | other type =>
    refine ⟨fun | .other _ => rfl, fun h => ?_⟩
    cases h
    exact .other type

/-- One usable sample without a minute is enough for nothing to be made. -/
theorem recordsOf?_isSome : (q.recordsOf? g samples).isSome ↔
    ∀ s ∈ samples, s.Usable g → firstMinute ≤ s.time.toInt := by
  induction samples with
  | nil => simp
  | cons s rest ih =>
    rw [List.forall_mem_cons, ← ih, Sample.usable_iff]
    cases howner : s.owner? g with
    | none => simp [recordsOf?_skipped howner]
    | some id =>
      have hdated : (q.record? id s).isSome ↔ firstMinute ≤ s.time.toInt := record?_isSome
      rw [recordsOf?_used howner, ← hdated]
      cases q.record? id s <;> simp

/-- There is something to make of a result exactly if it is dated. -/
theorem exists_makes : (∃ records, q.Makes g result records) ↔ result.IsDated g := by
  simp only [makes_iff, ← Option.isSome_iff_exists]
  exact recordsOf?_isSome

theorem records?_eq_none : q.records? g result = none ↔ ¬result.IsDated g := by
  rw [← exists_makes (q := q)]
  simp only [makes_iff, ← Option.isSome_iff_exists, Bool.not_eq_true, Option.isSome_eq_false_iff,
    Option.isNone_iff_eq_none]

end Query

end KubeLedger
