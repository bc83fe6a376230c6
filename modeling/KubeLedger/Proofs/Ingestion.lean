import KubeLedger.Proofs.Lanes
import KubeLedger.Proofs.Reached

/- Ingestion: a pipeline at work on a store. The moves of the pipeline come in any order that is
   possible; a write is answered by the store, while others may make writes fail or write tables that
   hold no telemetry (`Turn`).

   Until something is cancelled or fails, the rows that a lane has written, the rows whose write is
   under way, its unfinished batch and its channel are, in this order, an interleaving of what its
   pollers emitted (`telemetry_exact`). The table of the lane holds what was written, row by row. -/
namespace KubeLedger

open Database Table

/-- A pipeline with its store, and a log for each place of a lane. -/
structure Ingestion where
  pipeline : Pipeline
  store : Memory
  log : Nat → LaneLog := fun _ => {}

namespace Ingestion

/-- A pipeline that has just begun. -/
def start (c : PipelineConfig) (store : Memory) : Ingestion := { pipeline := .start c, store }

def noted (x : Ingestion) (m : PipelineMove) : Nat → LaneLog :=
  match m.lane?.bind fun i => x.pipeline.lanes[i]?.map fun l => (i, l) with
  | some (i, l) => Function.update x.log i ((x.log i).note l m)
  | none => x.log

def answer (x : Ingestion) (l : Lane) : Except StoreError Unit × Memory :=
  let (result, store) := x.store.write (.upsert l.streamer.how l.streamer.underway)
  (result.map fun _ => (), store)

/-- One move of the pipeline, or something else that happens to the store. -/
inductive Turn (x : Ingestion) : Ingestion → Prop
  | moved {m : PipelineMove} {p : Pipeline} : (∀ i result, m ≠ .wrote i result) →
    x.pipeline.step? m = some p → Turn x ⟨p, x.store, x.noted m⟩
  | wrote {i : Nat} {l : Lane} {p : Pipeline} : x.pipeline.lanes[i]? = some l →
    x.pipeline.step? (.wrote i (x.answer l).1) = some p →
    Turn x ⟨p, (x.answer l).2, x.noted (.wrote i (x.answer l).1)⟩
  | elsewhere {store : Memory} : (∀ g : Granularity, store.rows g.table = x.store.rows g.table) →
    Turn x { x with store }

/-- Where an ingestion can go. -/
inductive Goes (x₀ : Ingestion) : Ingestion → Prop
  | stay : Goes x₀ x₀
  | turn {x x' : Ingestion} : Goes x₀ x → Turn x x' → Goes x₀ x'

/-! ## What a run keeps -/

/-- What holds of an ingestion all along. -/
structure Sound (c : PipelineConfig) (store₀ : Memory) (x : Ingestion) : Prop where
  levels : (x.pipeline.lanes.map Lane.granularity).Nodup
  balanced : ∀ (i : Nat) (l : Lane), x.pipeline.lanes[i]? = some l → l.Balanced c (x.log i)
  tables : ∀ (i : Nat) (l : Lane), x.pipeline.lanes[i]? = some l →
    x.store.rows l.granularity.table =
      upsertRows l.how (x.log i).streamer.stored.flatten (store₀.rows l.granularity.table)
  lively : x.pipeline.Calm → x.pipeline.Lively

section Sound
variable {c : PipelineConfig} {store₀ : Memory} {x x' : Ingestion} {m : PipelineMove}
  {p p' : Pipeline} {l l' : Lane} {i : Nat} {ending : Bool} {ends : List (Option IngestError)}

theorem sound_start (c : PipelineConfig) (store : Memory) : Sound c store (start c store) where
  levels := by
    have hlevels : (start c store).pipeline.lanes.map Lane.granularity =
        Granularity.all.filter fun g => !(c.queries g).isEmpty := by
      simp [start, Pipeline.start, Lane.start, Function.comp_def]
    rw [hlevels]
    exact List.Nodup.filter _ (by decide)
  balanced := by
    intro i l hl
    simp only [start, Pipeline.start, List.getElem?_map, Option.map_eq_some_iff] at hl
    obtain ⟨g, -, rfl⟩ := hl
    exact Lane.balanced_start c g
  tables := fun _ _ _ => rfl
  lively := by
    intro _ l hl
    simp only [start, Pipeline.start, List.mem_map, List.mem_filter] at hl
    obtain ⟨g, ⟨-, hqueries⟩, rfl⟩ := hl
    exact ⟨Lane.lively_start c g, by simpa [Lane.start] using hqueries⟩

/-- Telemetry tables of different levels are different. -/
theorem table_ne {g g' : Granularity} (h : g ≠ g') : g.table.name ≠ g'.table.name := by
  revert h
  cases g <;> cases g' <;> decide

theorem noted_self (hm : m.lane? = some i) (hl : x.pipeline.lanes[i]? = some l) :
    x.noted m i = (x.log i).note l m := by
  simp [noted, hm, hl]

theorem noted_other {k : Nat} (hm : m.lane? = some i) (hki : k ≠ i) : x.noted m k = x.log k := by
  unfold noted
  rw [hm, Option.bind_some]
  cases x.pipeline.lanes[i]? with
  | none => rfl
  | some l => exact Function.update_of_ne hki _ _

/-- A move of the pipeline keeps what does not concern the store. -/
theorem Sound.step (h : Sound c store₀ x) (hstep : x.pipeline.step? m = some p') {store : Memory}
    (htables : ∀ (k : Nat) (q : Lane), p'.lanes[k]? = some q →
      store.rows q.granularity.table = upsertRows q.how (x.noted m k).streamer.stored.flatten
        (store₀.rows q.granularity.table)) :
    Sound c store₀ ⟨p', store, x.noted m⟩ := by
  have hturn := Pipeline.step_turn hstep
  refine ⟨?_, ?_, htables, hturn.lively h.lively⟩
  · cases hturn with
    | stop | join => exact h.levels
    | @lane i m l l' ends _ hl hlane =>
      rw [map_set_same hl hlane.granularity]
      exact h.levels
  · cases hturn with
    | stop | join => exact h.balanced
    | @lane i m l l' ends hm hl hlane =>
      intro k q hq
      change Lane.Balanced c (x.noted m k) q
      rcases getElem?_set_cases hq with ⟨rfl, rfl⟩ | ⟨hki, hq⟩
      · rw [noted_self hm hl]
        exact (h.balanced k l hl).turn hlane
      · rw [noted_other hm hki]
        exact h.balanced k q hq

/-- Lanes in different places have different levels. -/
theorem Sound.level_ne (h : Sound c store₀ x) {k : Nat} {q : Lane}
    (hl : x.pipeline.lanes[i]? = some l) (hq : x.pipeline.lanes[k]? = some q) (hki : k ≠ i) :
    q.granularity ≠ l.granularity := by
  intro heq
  have hk : (x.pipeline.lanes.map Lane.granularity)[k]? = some l.granularity := by
    simp [hq, heq]
  have hi : (x.pipeline.lanes.map Lane.granularity)[i]? = some l.granularity := by simp [hl]
  have hbound := (List.getElem?_eq_some_iff.mp hk).1
  exact hki ((List.getElem?_inj hbound h.levels).mp (hk.trans hi.symm))

/-- What the store makes of a write that is under way. -/
theorem answer_cases (x : Ingestion) (l : Lane) :
    (∃ e, x.answer l = (.error e, x.store)) ∨
      x.answer l = (.ok (), x.store.applied (.upsert l.streamer.how l.streamer.underway)) := by
  rcases x.store.write_cases (.upsert l.streamer.how l.streamer.underway) with ⟨e, h⟩ | ⟨n, h⟩
  · exact .inl ⟨e, by simp [answer, h, Except.map]⟩
  · exact .inr (by simp [answer, h, Except.map])

/-- Every turn keeps the invariant. -/
theorem Sound.turn (h : Sound c store₀ x) (hturn : Turn x x') : Sound c store₀ x' := by
  cases hturn with
  | moved hquiet hstep =>
    refine h.step hstep fun k q hq => ?_
    cases Pipeline.step_turn hstep with
    | stop | join => exact h.tables k q hq
    | @lane i m l l' ends hm hl hlane =>
      rcases getElem?_set_cases hq with ⟨rfl, rfl⟩ | ⟨hki, hq⟩
      · rw [noted_self hm hl, hlane.stored hquiet, hlane.how, hlane.granularity]
        exact h.tables k l hl
      · rw [noted_other hm hki]
        exact h.tables k q hq
  | @wrote i l p hl hstep =>
    have hhow := (h.balanced i l hl).streamer.same_how
    rcases x.answer_cases l with ⟨e, hanswer⟩ | hanswer
    · rw [hanswer] at hstep ⊢
      refine h.step hstep fun k q hq => ?_
      obtain ⟨l', ends, hlane, rfl⟩ := Pipeline.step_wrote hl hstep
      rcases getElem?_set_cases hq with ⟨rfl, rfl⟩ | ⟨hki, hq⟩
      · rw [noted_self rfl hl, hlane.stored_refused, hlane.how, hlane.granularity]
        exact h.tables k l hl
      · rw [noted_other rfl hki]
        exact h.tables k q hq
    · rw [hanswer] at hstep ⊢
      refine h.step hstep fun k q hq => ?_
      obtain ⟨l', ends, hlane, rfl⟩ := Pipeline.step_wrote hl hstep
      rcases getElem?_set_cases hq with ⟨rfl, rfl⟩ | ⟨hki, hq⟩
      · rw [noted_self rfl hl, hlane.stored_done, hhow, hlane.how, hlane.granularity,
          List.flatten_append, List.flatten_singleton, upsertRows_append, ← h.tables k l hl]
        exact rows_apply_self x.store.database (.upsert l.how l.streamer.underway)
      · rw [noted_other rfl hki, ← h.tables k q hq, hhow]
        exact rows_apply_ne x.store.database (table_ne (h.level_ne hl hq hki))
  | elsewhere hsame =>
    exact ⟨h.levels, h.balanced, fun k q hq => (hsame _).trans (h.tables k q hq), h.lively⟩

theorem Goes.sound (h : (start c store₀).Goes x) : Sound c store₀ x := by
  induction h with
  | stay => exact sound_start c store₀
  | turn _ hturn ih => exact ih.turn hturn

theorem Sound.lively_lane (h : Sound c store₀ x) (hcalm : x.pipeline.Calm)
    (hl : x.pipeline.lanes[i]? = some l) : l.Lively :=
  (h.lively hcalm l (List.mem_of_getElem? hl)).1

/-- What the store has written came through the lane. -/
theorem Sound.stored_takes (h : Sound c store₀ x) (hl : x.pipeline.lanes[i]? = some l) :
    ∀ r ∈ (x.log i).streamer.stored.flatten, l.granularity.table.Takes r := by
  intro r hr
  have hbalanced := h.balanced i l hl
  have hpassed : r ∈ (x.log i).streamer.batches.flatten := by
    obtain ⟨batch, hbatch, hr⟩ := List.mem_flatten.mp hr
    exact List.mem_flatten.mpr ⟨batch, hbalanced.streamer.stored_prefix.subset hbatch, hr⟩
  have hreceived : r ∈ (x.log i).streamer.received := by
    rw [← hbalanced.streamer.rows]
    exact List.mem_append_left _ hpassed
  have hentered : r ∈ (x.log i).entered.map TelemetryRecord.row := by
    rw [hbalanced.through]
    exact List.mem_append_left _ hreceived
  obtain ⟨record, -, rfl⟩ := List.mem_map.mp hentered
  exact record.row_takes l.granularity

end Sound

/-! ## What a run amounts to -/

/-- Nothing that the pollers of a lane emitted is lost, duplicated or put in another order. -/
structure Exact (c : PipelineConfig) (store₀ : Memory) (x : Ingestion) (i : Nat) (l : Lane) : Prop
    where
  pollers : ∀ (j : Nat) (p : Poller), l.pollers[j]? = some p →
    (c.queries l.granularity)[j]? = some p.query ∧ p.granularity = l.granularity
  order : Interleaves (x.log i).sent (x.log i).entered
  strangers : ∀ j : Nat, l.pollers.length ≤ j → (x.log i).sent j = []
  /-- A poller has sent all that it was answered but what it is still to send. -/
  emitted : x.pipeline.Calm → ∀ (j : Nat) (p : Poller), l.pollers[j]? = some p →
    (x.log i).sent j ++ p.unsent = (x.log i).answered j
  accounted : x.pipeline.Calm →
    (x.log i).streamer.stored.flatten ++ l.streamer.underway ++ l.streamer.batch ++
      l.channel.map TelemetryRecord.row = (x.log i).entered.map TelemetryRecord.row
  room : l.channel.length ≤ c.capacity
  /-- A batch size of zero counts as one. -/
  short : l.streamer.batch.length < max 1 c.batchSize
  /-- The table is what was there, with the rows written one at a time. -/
  table : x.store.rows l.granularity.table =
    (x.log i).streamer.stored.flatten.foldl (fun rows r => upsertRows l.how [r] rows)
      (store₀.rows l.granularity.table)
  /-- For each key that was written it holds the row that was written last. -/
  latest : l.granularity.table.Sound (store₀.rows l.granularity.table) →
    (x.store.rows l.granularity.table).Perm
      ((store₀.rows l.granularity.table).filter (fun r =>
          !(x.log i).streamer.stored.flatten.any (l.granularity.table.sameKey r)) ++
        l.granularity.table.latest (x.log i).streamer.stored.flatten)

/-- However the tasks of a pipeline take turns, its lanes are exact. -/
theorem telemetry_exact (c : PipelineConfig) (store₀ : Memory) {x : Ingestion}
    (h : (start c store₀).Goes x) {i : Nat} {l : Lane} (hl : x.pipeline.lanes[i]? = some l) :
    x.Exact c store₀ i l := by
  have hsound := h.sound
  have hbalanced := hsound.balanced i l hl
  have htable := hsound.tables i l hl
  exact {
    pollers := hbalanced.pollers
    order := hbalanced.order
    strangers := hbalanced.strangers
    emitted := by
      intro hcalm j p hp
      have hlively := hsound.lively_lane hcalm hl
      exact hbalanced.unsent j p hp (hlively.pollers p (List.mem_of_getElem? hp))
    accounted := by
      intro hcalm
      have hopen := (hsound.lively_lane hcalm hl).isOpen
      have hgoing : l.streamer.end? = none := by simpa [Lane.isOpen] using hopen
      obtain ⟨-, hpassed⟩ := hbalanced.streamer.going hgoing
      rw [hbalanced.through, ← hbalanced.streamer.rows, hpassed]
    room := hbalanced.room
    short := hbalanced.streamer.short
    table := htable
    latest := by
      intro hstart
      have hmem : l.granularity.table ∈ Schema.tables := by cases l.granularity <;> decide
      rw [htable, Lane.how, upsertRows_value]
      exact upsertRows_perm (Schema.lawful hmem) (hsound.stored_takes hl) hstart }

/-- A query about the cluster. -/
def nodeCount : Query := ⟨"node.count", "count(kube_node_info)", none⟩

/-- The settings for this query alone, with a channel for one record. -/
def nodeCountConfig : PipelineConfig where
  capacity := 1
  batchSize := 1
  queries := (PipelineConfig.empty.withQueries .cluster [nodeCount]).queries

def nodeCountAt (phase : PollPhase) (channel : List TelemetryRecord)
    (signals : List StreamSignal) : Pipeline where
  lanes := [{
    granularity := .cluster
    capacity := 1
    channel
    streamer := signals.foldl Streamer.step
      { how := ⟨Granularity.cluster.table, .update ["value"]⟩, config := .of 1 250 }
    pollers := [{ granularity := .cluster, query := nodeCount, phase }] }]

/-- The record of an answer goes through the channel into the table. -/
theorem telemetry_exact_written :
    ∃ x l r, (start nodeCountConfig {}).Goes x ∧ x.pipeline.lanes[0]? = some l ∧
      x.pipeline.Calm ∧ nodeCount.records? .cluster (.scalar 0 1) = some [r] ∧
      (x.log 0).streamer.stored.flatten = [r.row] ∧ x.Exact nodeCountConfig {} 0 l := by
  have hanswered : (start nodeCountConfig {}).Goes ⟨nodeCountAt (.sending _ []) [] [], {}, _⟩ :=
    (Goes.stay.turn (.moved (m := .query 0 0) (by simp) rfl)).turn
      (.moved (m := .answer 0 0 (.ok ⟨.scalar 0 1, []⟩)) (by simp) rfl)
  have hrun := ((hanswered.turn
    (.moved (m := .send 0 0) (p := nodeCountAt .resting [_] []) (by simp) rfl)).turn
    (.moved (m := .receive 0 0) (p := nodeCountAt .resting [] [.row _ 0]) (by simp) rfl)).turn
    (.wrote (i := 0) (p := nodeCountAt .resting [] [.row _ 0, .wrote (.ok ())]) rfl rfl)
  exact ⟨_, _, _, hrun, rfl, ⟨rfl, by simp [nodeCountAt]⟩, rfl, rfl,
    telemetry_exact nodeCountConfig {} hrun rfl⟩

end Ingestion

end KubeLedger
