import KubeLedger.Proofs.Denotations
import KubeLedger.Proofs.Upserts
import KubeLedger.Proofs.Usages

/- Which accepted quantities are finite. Whether a quantity is accepted depends on its number alone,
   but then the number is scaled by the suffix, and what was finite may overflow
   (`Quantity.isFinite_value_iff`). The rows of a pod's usage are finite exactly if no quantity of the
   metrics they are made of does so (`ContainerUsage.isFinite_rows_iff`). -/
namespace KubeLedger

open Decimal

namespace Quantity

variable {s : Suffix} {w : Written} {q : String} {x : Float}

/-! ## Scales -/

/-- The exact number that a suffix scales by. -/
def Suffix.factor (s : Suffix) : ℚ :=
  match s.text with
  | ['K', 'i'] => 2 ^ 10
  | ['M', 'i'] => 2 ^ 20
  | ['G', 'i'] => 2 ^ 30
  | ['T', 'i'] => 2 ^ 40
  | ['P', 'i'] => 2 ^ 50
  | ['E', 'i'] => 2 ^ 60
  | ['n'] => 1 / 10 ^ 9
  | ['u'] => 1 / 10 ^ 6
  | ['m'] => 1 / 10 ^ 3
  | ['k'] => 10 ^ 3
  | ['M'] => 10 ^ 6
  | ['G'] => 10 ^ 9
  | ['T'] => 10 ^ 12
  | ['P'] => 10 ^ 15
  | ['E'] => 10 ^ 18
  | _ => 1

/-- A number that is written in scientific notation is scaled by the nearest double. -/
theorem of_scale_eq {text : List Char} (m : ℕ) (negative : Bool) (e : ℕ)
    (h : Suffix.factor ⟨text, Float.ofScientific m negative e⟩ = m * 10 ^ signed negative e) :
    Reading.of (Suffix.scale ⟨text, Float.ofScientific m negative e⟩) =
      .nearest false (Suffix.factor ⟨text, Float.ofScientific m negative e⟩) := by
  rw [h]
  exact of_ofScientific m negative e

theorem of_scale : ∀ s ∈ suffixes, Reading.of s.scale = .nearest false s.factor := by
  simp only [suffixes, binarySuffixes, decimalSuffixes, List.cons_append, List.nil_append,
    List.forall_mem_cons]
  refine ⟨of_scale_eq 1 false 0 ?_, of_scale_eq 1024 false 0 ?_, of_scale_eq 1048576 false 0 ?_,
    of_scale_eq 1073741824 false 0 ?_, of_scale_eq 1099511627776 false 0 ?_,
    of_scale_eq 1125899906842624 false 0 ?_, of_scale_eq 1152921504606846976 false 0 ?_,
    of_scale_eq 1 true 9 ?_, of_scale_eq 1 true 6 ?_, of_scale_eq 1 true 3 ?_,
    of_scale_eq 1 false 3 ?_, of_scale_eq 1 false 6 ?_, of_scale_eq 1 false 9 ?_,
    of_scale_eq 1 false 12 ?_, of_scale_eq 1 false 15 ?_, of_scale_eq 1 false 18 ?_, by simp⟩
  all_goals norm_num [Suffix.factor, signed]

/-- A suffix divides, or scales by a number of few places. -/
theorem factor_cases : ∀ s ∈ suffixes, 0 < s.factor ∧
    (s.factor ≤ 1 / 2 ∨ ∃ m k : ℕ, m < 2 ^ 53 ∧ k ≤ 60 ∧ s.factor = m * 2 ^ k) := by
  simp only [suffixes, binarySuffixes, decimalSuffixes, List.cons_append, List.nil_append,
    List.forall_mem_cons]
  refine ⟨⟨?_, .inr ⟨1, 0, ?_⟩⟩, ⟨?_, .inr ⟨1, 10, ?_⟩⟩, ⟨?_, .inr ⟨1, 20, ?_⟩⟩,
    ⟨?_, .inr ⟨1, 30, ?_⟩⟩, ⟨?_, .inr ⟨1, 40, ?_⟩⟩, ⟨?_, .inr ⟨1, 50, ?_⟩⟩, ⟨?_, .inr ⟨1, 60, ?_⟩⟩,
    ⟨?_, .inl ?_⟩, ⟨?_, .inl ?_⟩, ⟨?_, .inl ?_⟩, ⟨?_, .inr ⟨10 ^ 3, 0, ?_⟩⟩,
    ⟨?_, .inr ⟨10 ^ 6, 0, ?_⟩⟩, ⟨?_, .inr ⟨10 ^ 9, 0, ?_⟩⟩, ⟨?_, .inr ⟨10 ^ 12, 0, ?_⟩⟩,
    ⟨?_, .inr ⟨10 ^ 15, 0, ?_⟩⟩, ⟨?_, .inr ⟨5 ^ 18, 18, ?_⟩⟩, by simp⟩
  all_goals norm_num [Suffix.factor]

theorem factor_lt_overflow (hs : s ∈ suffixes) : s.factor < overflow := by
  refine lt_of_lt_of_le ?_ two_zpow_le_overflow
  obtain ⟨-, hdivides | ⟨m, k, hm, hk, hfactor⟩⟩ := factor_cases s hs
  · calc s.factor < 2 ^ (0 : ℤ) := hdivides.trans_lt (by norm_num)
      _ ≤ 2 ^ (1023 : ℤ) := two_zpow_le_iff.mpr (by norm_num)
  · have hcast : (m : ℚ) < 2 ^ (53 : ℤ) := by exact_mod_cast hm
    calc s.factor = m * 2 ^ (k : ℤ) := by rw [hfactor, zpow_natCast]
      _ < 2 ^ (53 : ℤ) * 2 ^ (k : ℤ) := mul_lt_mul_of_pos_right hcast (two_zpow_pos _)
      _ = 2 ^ (53 + k : ℤ) := (two_zpow_add _ _).symm
      _ ≤ 2 ^ (1023 : ℤ) := two_zpow_le_iff.mpr (by omega)

/-- Scales that are no doubles are below one, and do not let a number overflow. -/
theorem rounded_factor_lt_iff {v : ℚ} (hs : s ∈ suffixes) (hv : 0 ≤ v) (hlt : v < overflow) :
    rounded v * rounded s.factor < overflow ↔ rounded v * s.factor < overflow := by
  obtain ⟨hpos, hdivides | ⟨m, k, hm, hk, hfactor⟩⟩ := factor_cases s hs
  · have hrounded : rounded s.factor < 1 := by
      have hbelow : s.factor < 2 ^ (0 : ℤ) - 2 ^ (0 - 54 : ℤ) := hdivides.trans_lt (by norm_num)
      have hone := (rounded_lt_iff hpos.le (by norm_num)).mpr hbelow
      rwa [zpow_zero] at hone
    have hvlt := rounded_lt_overflow hv hlt
    have hle : ∀ c : ℚ, c ≤ 1 → rounded v * c < overflow := fun c hc =>
      (mul_le_of_le_one_right (rounded_nonneg v) hc).trans_lt hvlt
    exact iff_of_true (hle _ hrounded.le) (hle _ (hdivides.trans (by norm_num)))
  · have hexact : rounded s.factor = s.factor := by
      rw [hfactor, ← zpow_natCast]
      exact rounded_of_exact hm (by omega)
    rw [hexact]

/-! ## Values -/

/-- What a quantity overflows by: its number, rounded to a double, times the scale of its suffix. -/
def Written.size (w : Written) : ℚ := rounded |w.number.literal.value| * w.suffix.factor

theorem of_value (h : |w.number.literal.value| < overflow) :
    Reading.of w.value = .nearest w.number.literal.negative
      (rounded |w.number.literal.value| * rounded w.suffix.factor) := by
  have hproduct := Reading.of_mul_nearest (w.number.literal.of_toFloat)
    (of_scale _ w.suffix_mem) (abs_nonneg _) (factor_cases _ w.suffix_mem).1.le h
    (factor_lt_overflow w.suffix_mem)
  rwa [Bool.bne_false] at hproduct

theorem isFinite_value_iff (h : |w.number.literal.value| < overflow) :
    isFinite w.value = true ↔ w.size < overflow := by
  rw [isFinite_iff_of_nearest (of_value h) (mul_nonneg (rounded_nonneg _) (rounded_nonneg _)),
    rounded_factor_lt_iff w.suffix_mem (abs_nonneg _) h]
  rfl

/-- For powers of two it makes no difference that the number is rounded before it is scaled. -/
theorem size_lt_iff {k : ℕ} (h : w.suffix.factor = 2 ^ k) :
    w.size < overflow ↔ |w.number.literal.value * w.suffix.factor| < overflow := by
  have hk : (2 : ℚ) ^ (k : ℤ) < 2 ^ (1024 : ℤ) := by
    have hlt := factor_lt_overflow w.suffix_mem
    rw [h, ← zpow_natCast] at hlt
    exact hlt.trans (sub_lt_self _ (two_zpow_pos _))
  have := two_zpow_lt_iff.mp hk
  have hpos : (0 : ℚ) < 2 ^ k := pow_pos two_pos k
  rw [Written.size, abs_mul, h, abs_of_pos hpos]
  exact rounded_mul_two_pow_lt_iff (abs_nonneg _) (by omega)

/-- A quantity that is written is accepted if its number denotes a finite double. -/
theorem readChars?_written {cs : List Char} (h : Text.Pads w.chars cs) :
    readChars? cs = if isFinite w.number.toFloat then some w.value else none := by
  have hread : Decimal.readChars? w.number.chars = some w.number.toFloat := by
    rw [Decimal.readChars?, Literal.read?_spelling]
    rfl
  simp only [readChars?, h.trimChars_eq w.bare, splitSuffix_written, hread]
  rfl

theorem read_written_iff (h : Text.Pads w.chars q.toList) :
    read q = .ok x ↔ |w.number.literal.value| < overflow ∧ x = w.value := by
  rw [read_ok_iff, readChars?_written h, ← Literal.isFinite_iff]
  show (if isFinite w.number.literal.toFloat = true then some w.value else none) = some x ↔ _
  split
  · next hfinite => simp [hfinite, eq_comm]
  · next hnot => simp [hnot]

/-- A text is accepted as a quantity, its number not being too great, and overflows when it is
scaled. -/
def Overflows (q : String) : Prop :=
  ∃ w : Written, Text.Pads w.chars q.toList ∧ |w.number.literal.value| < overflow ∧
    overflow ≤ w.size

theorem isFinite_iff_not_overflows (h : read q = .ok x) : isFinite x = true ↔ ¬Overflows q := by
  constructor
  · rintro hfinite ⟨w, hpads, haccepted, hover⟩
    obtain ⟨-, rfl⟩ := (read_written_iff hpads).mp h
    exact absurd ((isFinite_value_iff haccepted).mp hfinite) (not_lt.mpr hover)
  · intro hnot
    obtain ⟨w, hpads, hnumber, rfl⟩ := readChars?_iff.mp (read_ok_iff.mp h)
    have haccepted := (Literal.isFinite_iff _).mp hnumber
    exact (isFinite_value_iff haccepted).mpr
      (not_le.mp fun hover => hnot ⟨w, hpads, haccepted, hover⟩)

end Quantity

/-! ## Rows -/

/-- No infinity and no NaN. -/
def Cell.isFinite : Cell → Bool
  | .float x => Decimal.isFinite x
  | _ => true

namespace ContainerUsage

variable {v : Json} {resource : String} {x : Float} {u : ContainerUsage} {pod : ObjectId}
  {metrics : ClusterObject}

def Exceeds (v : Json) (resource : String) : Prop :=
  ∃ s, v.at? ["usage", resource] = some (.text s) ∧ Quantity.Overflows s

theorem Uses.isFinite_iff (h : Uses v resource x) :
    isFinite x = true ↔ ¬Exceeds v resource := by
  obtain ⟨s, hs, hread⟩ | ⟨hnone, rfl⟩ := h
  · rw [Quantity.isFinite_iff_not_overflows hread]
    simp [Exceeds, hs]
  · have hzero : isFinite 0 = true := by decide +kernel
    simp [Exceeds, hnone, hzero]

theorem isFinite_div_mebibyte (x : Float) : isFinite (x / mebibyte) = isFinite x := by
  have hunit : Reading.of mebibyte = .finite ⟨false, 2 ^ 52, -32⟩ := by decide +kernel
  cases hx : Reading.of x with
  | nan => simp [isFinite, hx, Reading.of_div_nan hx]
  | infinite negative => simp [isFinite, hx, Reading.of_div_infinite hx hunit]
  | finite a =>
    have hone : 1 ≤ Binary.magnitude ⟨false, 2 ^ 52, -32⟩ := by norm_num [Binary.magnitude]
    have hquotient := isFinite_iff_of_nearest (Reading.of_div hx hunit (by norm_num))
      (div_nonneg a.magnitude_nonneg (zero_le_one.trans hone))
    have hfinite : isFinite x = true := by rw [isFinite, hx]
    rw [hfinite, hquotient]
    exact (div_le_self a.magnitude_nonneg hone).trans_lt (Reading.magnitude_lt_overflow hx)

/-- The row of a usage is finite exactly if nothing that its container reports overflows. -/
theorem Describes.isFinite_row_iff (h : u.Describes pod metrics v) :
    (∀ c ∈ u.row, c.isFinite = true) ↔ ¬∃ resource ∈ resources, Exceeds v resource := by
  obtain ⟨memory, hmemory, hu⟩ := h.memory
  obtain ⟨storage, hstorage, hv⟩ := h.storage
  obtain ⟨ephemeral, hephemeral, hw⟩ := h.ephemeralStorage
  have hcells : (∀ c ∈ u.row, c.isFinite = true) ↔ isFinite u.cpu = true ∧ isFinite u.memory = true ∧
      isFinite u.storage = true ∧ isFinite u.ephemeralStorage = true := by
    simp [row, Cell.isFinite, Cell.id]
  rw [hcells, hu, hv, hw, isFinite_div_mebibyte, isFinite_div_mebibyte, isFinite_div_mebibyte,
    h.cpu.isFinite_iff, hmemory.isFinite_iff, hstorage.isFinite_iff, hephemeral.isFinite_iff]
  simp [resources]

def Overflow (metrics : ClusterObject) : Prop :=
  ∃ v ∈ metrics.items ["containers"], ∃ resource ∈ resources, Exceeds v resource

theorem forall_iff_of_forall₂ {α β : Type} {P : α → Prop} {Q : β → Prop} {as : List α} {bs : List β}
    (h : List.Forall₂ (fun a b => Q b ↔ ¬P a) as bs) : (∀ b ∈ bs, Q b) ↔ ¬∃ a ∈ as, P a := by
  induction h with
  | nil => simp
  | cons hab _ ih => rw [List.forall_mem_cons, hab, ih, List.exists_mem_cons_iff, not_or]

/-- The rows of a pod's usage are finite exactly if nothing overflows. -/
theorem isFinite_rows_iff {us : List ContainerUsage} (h : ofMetrics pod metrics = .ok us) :
    (∀ row ∈ us.map ContainerUsage.row, ∀ c ∈ row, c.isFinite = true) ↔ ¬Overflow metrics := by
  rw [List.forall_mem_map]
  exact forall_iff_of_forall₂ ((ofMetrics_describes h).imp fun v u => Describes.isFinite_row_iff)

end ContainerUsage

theorem usage_rows {r : Reconciler} {n : Notification} {trace : List Exchange}
    {result : Except SyncError Reconciler} (h : (r.sync n).Runs trace result) {how : Upsert}
    {rows : List Row} (hw : .upsert how rows ∈ asked trace) (htable : how.table = Schema.podMetrics) :
    ∃ pod metrics us, (⟨.usage pod, (.ok (some metrics) :
        Except ClientError (Option ClusterObject))⟩ : Exchange) ∈ trace ∧
      ContainerUsage.ofMetrics pod metrics = .ok us ∧ rows = us.map ContainerUsage.row := by
  cases hn : n.object with
  | none =>
    -- a deletion writes no rows
    obtain ⟨r', hdelete, -⟩ := (Sync.sync_deleted hn).mp h
    obtain ⟨step, -, hstep⟩ := List.mem_map.mp ((Sync.delete_follows _ _ hdelete).1 hw)
    cases hstep
  | some o =>
    obtain ⟨r', hupsert, -⟩ := (Sync.sync_seen hn).mp h
    obtain ⟨m, hmap, hplan | hsnapshot⟩ := Sync.upsert_asked hupsert hw
    · have hothers : r.kind.table ≠ Schema.podMetrics ∧ Schema.label ≠ Schema.podMetrics ∧
          ∀ s ∈ r.kind.sets, s.1 ≠ Schema.podMetrics := by
        cases r.kind <;> decide
      obtain ⟨hprimary, hlabel, hsets⟩ := hothers
      rcases (Kind.map_describes hmap).plan_tables _ hplan with ht | ht | ⟨s, hs, ht⟩
      · exact absurd (ht.symm.trans htable) hprimary
      · exact absurd (ht.symm.trans htable) hlabel
      · exact absurd (ht.symm.trans htable) (hsets s hs)
    · cases hsnapshot with
      | logs ls hne hls => exact absurd htable (by decide)
      | usage metrics us hne hreported hread => exact ⟨_, metrics, us, hreported, hread, rfl⟩

/-! ## An overflow -/

/-- A number that is a double, in a suffix that makes it greater than any. -/
def great : Quantity.Written where
  number := {
    sign := []
    whole := ['1']
    fraction := none
    exponent := some {
      letter := 'E'
      sign := []
      digits := ['3', '0', '8']
      letter_mem := by decide
      sign_mem := by decide
      isDigit := by simp
      digits_ne := by decide }
    sign_mem := by decide
    isDigit := by simp
    digits_ne := by decide }
  suffix := ⟨['E', 'i'], 1152921504606846976⟩
  suffix_mem := List.mem_of_getElem? (i := 6) rfl

/-- A pod whose container uses more memory than a double can say. -/
def greatPod : ClusterObject :=
  ⟨.object [("metadata", .object [("name", .text "web-1"), ("namespace", .text "default")]),
    ("spec", .object [("containers", .array [.object [("name", .text "nginx")]])])]⟩

def greatMetrics : ClusterObject :=
  ⟨.object [("containers", .array [.object [("name", .text "nginx"),
      ("usage", .object [("cpu", .text "250m"), ("memory", .text "1e308Ei")])]])]⟩

/-- Surroundings that do every write, keep a list of them, and report the same usage of every pod. -/
def recording (metrics : ClusterObject) : Surroundings (List Write) := fun q ws =>
  match q with
  | .write w => ((.ok 1 : Except StoreError Nat), ws ++ [w])
  | .select _ _ => ((.ok [] : Except StoreError (List Row)), ws)
  | .logs _ _ => ((.ok none : Except ClientError (Option String)), ws)
  | .usage _ => ((.ok (some metrics) : Except ClientError (Option ClusterObject)), ws)

theorem recording_asked {metrics : ClusterObject} {trace : List Exchange} {ws ws' : List Write}
    (h : Script.Along (recording metrics) trace ws ws') : ws' = ws ++ asked trace := by
  induction trace generalizing ws with
  | nil => simpa [asked, Script.Along, eq_comm] using h
  | cons e rest ih =>
    obtain ⟨q, answer⟩ := e
    obtain ⟨mid, hanswer, hrest⟩ := h
    rw [ih hrest]
    cases q with
    | write w =>
      cases hanswer
      exact List.append_assoc ws [w] (asked rest)
    | select | logs | usage =>
      cases hanswer
      rfl

def greatWrites : List Write :=
  (((⟨.pod, { fetchLogs := false }, .empty⟩ : Reconciler).sync (.seen greatPod)).runIn
    (recording greatMetrics) []).2

def Write.isGreat : Write → Bool
  | .upsert how rows =>
    how.table == Schema.podMetrics && rows.any fun row => row.any fun c => !c.isFinite
  | _ => false

theorem great_writes : greatWrites.any Write.isGreat = true := by
  decide +kernel

/-! ## Finiteness -/

/-- Whether a quantity is accepted depends on its number alone, and not on its suffix: it has to lie
below the overflow. Then it is scaled, and the product is rounded again. It stays finite exactly if
its size lies below the overflow too; for powers of two the size is the exact product, and dividing
suffixes are always fine. What does not stay finite becomes infinite, with the sign of the number. The
rows of usage that a reconciler writes are those of metrics that the cluster reported, and they are
finite exactly if no quantity of these overflows. -/
theorem finite_below_overflow (q : String) (r : Reconciler) (n : Notification) :
    (∀ w : Quantity.Written, Text.Pads w.chars q.toList →
      ((∃ x, Quantity.read q = .ok x) ↔ |w.number.literal.value| < overflow)) ∧
    (∀ x, Quantity.read q = .ok x → ∃ w : Quantity.Written, Text.Pads w.chars q.toList) ∧
    (∀ (w : Quantity.Written) (x : Float), Text.Pads w.chars q.toList →
      Quantity.read q = .ok x →
        Reading.of x = .nearest w.number.literal.negative
          (rounded |w.number.literal.value| * rounded w.suffix.factor) ∧
        (isFinite x = true ↔ w.size < overflow) ∧
        (∀ k : ℕ, w.suffix.factor = 2 ^ k →
          (isFinite x = true ↔ |w.number.literal.value * w.suffix.factor| < overflow)) ∧
        (w.suffix.factor ≤ 1 → isFinite x = true) ∧
        (isFinite x = false → Reading.of x = .infinite w.number.literal.negative)) ∧
    ∀ (trace : List Exchange) (result : Except SyncError Reconciler),
      (r.sync n).Runs trace result →
      ∀ how rows, .upsert how rows ∈ asked trace → how.table = Schema.podMetrics →
        ∃ pod metrics, (⟨.usage pod, (.ok (some metrics) :
            Except ClientError (Option ClusterObject))⟩ : Exchange) ∈ trace ∧
          ((∀ row ∈ rows, ∀ c ∈ row, c.isFinite = true) ↔ ¬ContainerUsage.Overflow metrics) := by
  refine ⟨fun w hpads => ?_, fun x hread => ?_, fun w x hpads hread => ?_,
    fun trace result h how rows hw ht => ?_⟩
  · simp [Quantity.read_written_iff hpads]
  · obtain ⟨w, hpads, -⟩ := Quantity.readChars?_iff.mp (Quantity.read_ok_iff.mp hread)
    exact ⟨w, hpads⟩
  · obtain ⟨haccepted, rfl⟩ := (Quantity.read_written_iff hpads).mp hread
    have hvalue := Quantity.of_value haccepted
    have hfinite := Quantity.isFinite_value_iff haccepted
    refine ⟨hvalue, hfinite, fun k hk => hfinite.trans (Quantity.size_lt_iff hk),
      fun hle => hfinite.mpr ?_,
      infinite_of_nearest hvalue (mul_nonneg (rounded_nonneg _) (rounded_nonneg _))⟩
    exact (mul_le_of_le_one_right (rounded_nonneg _) hle).trans_lt
      (rounded_lt_overflow (abs_nonneg _) haccepted)
  · obtain ⟨pod, metrics, us, hreported, hread, rfl⟩ := usage_rows h hw ht
    exact ⟨pod, metrics, hreported, ContainerUsage.isFinite_rows_iff hread⟩

/-- A number that is a double is accepted, and becomes infinite behind its suffix; so does a cell of a
usage row that is written. -/
theorem quantity_infinite :
    (∃ x, Quantity.read "1e308Ei" = .ok x ∧ Reading.of x = .infinite false) ∧
    greatWrites.any Write.isGreat = true := by
  refine ⟨?_, great_writes⟩
  have hread : (Quantity.readChars? "1e308Ei".toList).map Reading.of = some (.infinite false) := by
    decide +kernel
  obtain ⟨x, hx, hof⟩ := Option.map_eq_some_iff.mp hread
  exact ⟨x, Quantity.read_ok_iff.mpr hx, hof⟩

/-- It applies to that number, here with a capital letter and with white space in front of it, and to
the run that writes it. -/
theorem finite_below_overflow_great :
    (∃ x, Quantity.read " 1E308Ei" = .ok x ∧ Reading.of x = .infinite false) ∧
    ∃ trace how rows, .upsert how rows ∈ asked trace ∧ how.table = Schema.podMetrics ∧
      ∃ pod metrics, (⟨.usage pod, (.ok (some metrics) :
        Except ClientError (Option ClusterObject))⟩ : Exchange) ∈ trace ∧
        ContainerUsage.Overflow metrics := by
  obtain ⟨haccepted, -, hvalue, hrows⟩ := finite_below_overflow " 1E308Ei"
    ⟨.pod, { fetchLogs := false }, .empty⟩ (.seen greatPod)
  have hpads : Text.Pads great.chars " 1E308Ei".toList := ⟨[' '], [], by simp [Text.isBlank], rfl⟩
  have hliteral : great.number.literal = ⟨false, 1, 308⟩ := by decide
  have hnumber : |great.number.literal.value| = (10 ^ 308 : ℕ) := by
    rw [Literal.abs_value, hliteral, Nat.cast_one, one_mul, Nat.cast_pow, Nat.cast_ofNat]
    rfl
  constructor
  · have hbelow : |great.number.literal.value| < overflow := by
      rw [hnumber, overflow_eq_natCast]
      exact Nat.cast_lt.mpr (by decide +kernel)
    have hgreat : overflow ≤ |great.number.literal.value * great.suffix.factor| := by
      rw [abs_mul, hnumber, overflow_eq_natCast, show great.suffix.factor = (2 ^ 60 : ℕ) from rfl,
        Nat.abs_cast, ← Nat.cast_mul]
      exact Nat.cast_le.mpr (by decide +kernel)
    obtain ⟨x, hx⟩ := (haccepted great hpads).mpr hbelow
    obtain ⟨-, -, hbinary, -, hinfinite⟩ := hvalue great x hpads hx
    have hnot : isFinite x = false := by
      rw [Bool.eq_false_iff, ne_eq, hbinary 60 rfl]
      exact not_lt.mpr hgreat
    rw [hliteral] at hinfinite
    exact ⟨x, hx, hinfinite hnot⟩
  · obtain ⟨w, hw, hgreat⟩ := List.any_eq_true.mp great_writes
    obtain ⟨trace, hruns, halong⟩ := Sync.runIn_iff.mp (Prod.mk.eta.symm : (Sync.runIn _ _ _) = _)
    rw [greatWrites, recording_asked halong, List.nil_append] at hw
    cases w with
    | upsert how rows =>
      simp only [Write.isGreat, Bool.and_eq_true, beq_iff_eq] at hgreat
      obtain ⟨htable, hgreat⟩ := hgreat
      obtain ⟨row, hrow, hcells⟩ := List.any_eq_true.mp hgreat
      obtain ⟨c, hc, hinfinite⟩ := List.any_eq_true.mp hcells
      obtain ⟨pod, metrics, hreported, hiff⟩ := hrows trace _ hruns how rows hw htable
      refine ⟨trace, how, rows, hw, htable, pod, metrics, hreported, not_not.mp fun hnot => ?_⟩
      rw [hiff.mpr hnot row hrow c hc] at hinfinite
      cases hinfinite
    | replace | delete => cases hgreat

end KubeLedger
