import KubeLedger.Proofs.Rows
import KubeLedger.Telemetry.Prometheus

/- Minutes of points in time. A record keeps of the time of its sample only the start of its minute,
   so that samples of one minute share a row. The start is computed as a difference in arithmetic of
   sixty-four bits. The range of these begins within a minute, so that the start of this one lies
   below it and the difference overflows: points in time before the first whole minute have no start
   and make no records (`truncateMinute?_isSome`). Wherever there is a result, it is the start of the
   minute (`truncateMinute?_eq_some`), and the keys of rows tell minutes apart. -/
namespace KubeLedger

/-- The number of the minute that a point in time falls into. -/
def minuteOf (t : Int64) : Int := t.toInt / 60000

/-- The start of the first minute that lies within sixty-four bits as a whole. -/
def firstMinute : Int := -9223372036854720000

/-- A number is the start of the minute that a point in time falls into: of all whole minutes it is
the last one not after it. -/
structure StartsMinute (m t : Int) : Prop where
  multiple : 60000 ∣ m
  start : m ≤ t
  within : t < m + 60000

theorem startsMinute_iff {m t : Int} : StartsMinute m t ↔ m = t - t % 60000 := by
  constructor
  · rintro ⟨⟨n, rfl⟩, hstart, hwithin⟩
    omega
  · rintro rfl
    exact ⟨Int.dvd_self_sub_emod, by omega, by omega⟩

/-! ## The arithmetic -/

theorem toInt_minute : minute.toInt = 60000 := by decide

/-- A remainder towards zero, moved up by the divisor where it is negative. -/
theorem emod_of_tmod (a : Int) :
    a % 60000 = if a.tmod 60000 < 0 then a.tmod 60000 + 60000 else a.tmod 60000 := by
  have hsplit := Int.tmod_add_mul_tdiv a 60000
  have hlow := Int.lt_tmod_of_pos a (show (0 : Int) < 60000 by decide)
  have hhigh := Int.tmod_lt_of_pos a (show (0 : Int) < 60000 by decide)
  split <;> omega

/-- The remainder never overflows. -/
theorem toInt_remainder (t : Int64) : (remainder t minute).toInt = t.toInt % 60000 := by
  have hmod : (t % minute).toInt = t.toInt.tmod 60000 := by rw [Int64.toInt_mod, toInt_minute]
  have hsign : t % minute < 0 ↔ t.toInt.tmod 60000 < 0 := by
    rw [Int64.lt_iff_toInt_lt, hmod]
    rfl
  have hlow := Int.lt_tmod_of_pos t.toInt (show (0 : Int) < 60000 by decide)
  rw [emod_of_tmod, remainder]
  by_cases hneg : t.toInt.tmod 60000 < 0
  · rw [if_pos (hsign.mpr hneg), if_pos hneg, Int64.toInt_add, hmod, toInt_minute]
    exact Int.bmod_eq_of_le (by omega) (by omega)
  · rw [if_neg (mt hsign.mp hneg), if_neg hneg, hmod]

theorem difference?_eq_some {a b c : Int64} :
    difference? a b = some c ↔ c.toInt = a.toInt - b.toInt := by
  have hlow := c.le_toInt
  have hhigh := c.toInt_lt
  have hoverflow : a.toBitVec.ssubOverflow b.toBitVec = true ↔
      2 ^ 63 ≤ a.toInt - b.toInt ∨ a.toInt - b.toInt < -2 ^ 63 := by
    simp [BitVec.ssubOverflow]
  unfold difference?
  split
  · next h =>
    have hout := hoverflow.mp h
    exact ⟨nofun, fun hc => by omega⟩
  · next h =>
    have hwithin := mt hoverflow.mpr h
    have hexact : (a - b).toInt = a.toInt - b.toInt := by
      rw [Int64.toInt_sub]
      exact Int.bmod_eq_of_le (by omega) (by omega)
    rw [Option.some.injEq, ← Int64.toInt_inj, hexact]
    exact eq_comm

/-- Where truncation has a result, it is the start of the minute, and it has one where this start is a
number of sixty-four bits. -/
theorem truncateMinute?_eq_some {t m : Int64} :
    truncateMinute? t = some m ↔ StartsMinute m.toInt t.toInt := by
  rw [truncateMinute?, difference?_eq_some, toInt_remainder, startsMinute_iff]

theorem truncateMinute?_isSome (t : Int64) :
    (truncateMinute? t).isSome ↔ firstMinute ≤ t.toInt := by
  have hlow := t.le_toInt
  have hhigh := t.toInt_lt
  rw [Option.isSome_iff_exists]
  unfold firstMinute
  constructor
  · rintro ⟨m, hm⟩
    obtain ⟨⟨n, hn⟩, hstart, -⟩ := truncateMinute?_eq_some.mp hm
    have hrange := m.le_toInt
    -- there is no multiple of a minute between the least number and `firstMinute`
    omega
  · intro hwhole
    refine ⟨Int64.ofInt (t.toInt - t.toInt % 60000), truncateMinute?_eq_some.mpr ?_⟩
    rw [Int64.toInt_ofInt_of_le (by omega) (by omega), startsMinute_iff]

theorem StartsMinute.minuteOf {m t : Int64} (h : StartsMinute m.toInt t.toInt) :
    m.toInt = 60000 * minuteOf t := by
  rw [startsMinute_iff.mp h]
  unfold KubeLedger.minuteOf
  omega

/-! ## Rows -/

theorem TelemetryRecord.sameKey_iff (g : Granularity) (a b : TelemetryRecord) :
    g.table.sameKey a.row b.row = true ↔
      a.entity = b.entity ∧ a.timestamp = b.timestamp ∧ a.category = b.category ∧
        a.name = b.name := by
  have hkey : g.table.keyAt = [0, 1, 2, 3] := by cases g <;> decide
  have hid : (Cell.id a.entity).same (.id b.entity) = true ↔ a.entity = b.entity := by
    rw [Cell.same_id]
    exact Cell.id_inj
  rw [Table.sameKey, hkey]
  simp only [Database.agree, List.all_cons, List.all_nil, Bool.and_true, Bool.and_eq_true]
  refine Iff.and hid (Iff.and ?_ (Iff.and ?_ ?_)) <;>
    simp [Database.cellAt, TelemetryRecord.row, Cell.same]

theorem TelemetryRecord.sampled?_eq_some {e : EntityId} {t : Int64} {category name : String}
    {x : Float} {r : TelemetryRecord} : sampled? e t category name x = some r ↔
      ∃ m : Int64, StartsMinute m.toInt t.toInt ∧ ⟨e, m, category, name, x⟩ = r := by
  simp only [sampled?, Option.map_eq_some_iff, truncateMinute?_eq_some]

/-! ## Samples -/

/-- Truncation comes to a result exactly from the first minute on that lies within sixty-four bits as a
whole, and there it is the start of the minute; it keeps the order and changes nothing more when it is
done again. Records exist just so, and those of one thing, category and name share a row exactly if
they are of the same minute. -/
theorem truncation_floors_iff (t : Int64) :
    (∀ m, truncateMinute? t = some m ↔ StartsMinute m.toInt t.toInt) ∧
    ((truncateMinute? t).isSome ↔ firstMinute ≤ t.toInt) ∧
    (∀ m, truncateMinute? t = some m → truncateMinute? m = some m ∧
      ∀ u, t ≤ u → ∃ n, truncateMinute? u = some n ∧ m ≤ n) ∧
    ∀ (e : EntityId) (category name : String) (x : Float),
      ((TelemetryRecord.sampled? e t category name x).isSome ↔ firstMinute ≤ t.toInt) ∧
      ∀ r, TelemetryRecord.sampled? e t category name x = some r →
        ∀ (g : Granularity) (u : Int64) (y : Float) (r' : TelemetryRecord),
          TelemetryRecord.sampled? e u category name y = some r' →
          (g.table.sameKey r.row r'.row = true ↔ minuteOf t = minuteOf u) := by
  refine ⟨fun m => truncateMinute?_eq_some, truncateMinute?_isSome t, fun m hm => ⟨?_, ?_⟩, ?_⟩
  · have hstarts := truncateMinute?_eq_some.mp hm
    exact truncateMinute?_eq_some.mpr ⟨hstarts.multiple, Int.le_refl _, by omega⟩
  · intro u hlater
    have horder := Int64.le_iff_toInt_le.mp hlater
    have hdated := (truncateMinute?_isSome t).mp (by rw [hm]; rfl)
    obtain ⟨n, hn⟩ := Option.isSome_iff_exists.mp
      ((truncateMinute?_isSome u).mpr (Int.le_trans hdated horder))
    refine ⟨n, hn, Int64.le_iff_toInt_le.mpr ?_⟩
    rw [(truncateMinute?_eq_some.mp hm).minuteOf, (truncateMinute?_eq_some.mp hn).minuteOf]
    unfold minuteOf
    omega
  · intro e category name x
    refine ⟨by rw [TelemetryRecord.sampled?, Option.isSome_map, truncateMinute?_isSome], ?_⟩
    intro r hr g u y r' hr'
    obtain ⟨m, hm, rfl⟩ := TelemetryRecord.sampled?_eq_some.mp hr
    obtain ⟨n, hn, rfl⟩ := TelemetryRecord.sampled?_eq_some.mp hr'
    have hminutes : m = n ↔ minuteOf t = minuteOf u := by
      rw [← Int64.toInt_inj, hm.minuteOf, hn.minuteOf]
      omega
    rw [TelemetryRecord.sameKey_iff, ← hminutes]
    simp

/-- Two samples of the last minute before the epoch share a row, but not with one of the next minute. -/
theorem truncation_floors_iff_before_epoch :
    truncateMinute? (-60000) = some (-60000) ∧ (-60000 : Int64) ≤ -1 ∧
      (∃ n, truncateMinute? (-1) = some n ∧ -60000 ≤ n) ∧
      ∃ a b c, TelemetryRecord.sampled? .cluster (-60000) "cpu.usage" "" 1 = some a ∧
        TelemetryRecord.sampled? .cluster (-1) "cpu.usage" "" 2 = some b ∧
        TelemetryRecord.sampled? .cluster 0 "cpu.usage" "" 2 = some c ∧
        Granularity.cluster.table.sameKey a.row b.row = true ∧
        Granularity.cluster.table.sameKey a.row c.row ≠ true := by
  obtain ⟨-, -, hkeeps, hrecords⟩ := truncation_floors_iff (-60000)
  obtain ⟨hagain, hlater⟩ := hkeeps (-60000) rfl
  obtain ⟨-, hshared⟩ := hrecords .cluster "cpu.usage" "" 1
  refine ⟨hagain, by decide, hlater (-1) (by decide), _, _, _, rfl, rfl, rfl, ?_, ?_⟩
  · exact (hshared _ rfl .cluster (-1) 2 _ rfl).mpr (by decide)
  · exact fun hsame => absurd ((hshared _ rfl .cluster 0 2 _ rfl).mp hsame) (by decide)

/-- A point in time that a server reports as far below the range counts as the least one. The start of
its minute lies below the range, and it makes no record. -/
theorem truncation_overflows :
    Prometheus.millisOf (-1e300) = Int64.minValue ∧
      StartsMinute (-9223372036854780000) Int64.minValue.toInt ∧
      (-9223372036854780000 : Int) < Int64.minValue.toInt ∧
      truncateMinute? Int64.minValue = none ∧
      TelemetryRecord.sampled? .cluster Int64.minValue "cpu.usage" "" 1 = none := by
  refine ⟨by decide +kernel, ⟨by decide, by decide, by decide⟩, by decide, by decide, ?_⟩
  rfl

end KubeLedger
