import KubeLedger.Proofs.Endings
import KubeLedger.Proofs.Ingestion
import KubeLedger.Telemetry.Rehearsal

/- Schedules of a pipeline: which move is made when, without end. Any order of possible moves is a
   schedule, and so is one in which nothing happens any more.

   What a pipeline returns is right under every schedule; that it returns takes a schedule that is
   fair. No more is asked of it than that a task does at some time what it has to do all along, and
   only a few moves are things to do: to join a task that has ended, to end when all tasks are to
   end, and to hear of a write that is under way (`PipelineMove.duty?`). Neither the pollers' queries
   nor their answers are among them.

   Fairness is used in two ways. What waits to be joined is joined, since the queue only grows at its
   end (`Schedule.Fair.joined`). And once all tasks are to end, every move but that of the caller
   leaves less to do, while some task has something to do as long as one goes on or waits
   (`Pipeline.load`, `Schedule.Fair.returns`). -/
namespace KubeLedger

/-- The task that has to make a move once it can make it all along. -/
def PipelineMove.duty? : PipelineMove → Option PipelineTask
  | .join => some .joiner
  | .quit i j => some (.poller i j)
  | .wrote i _ => some (.streamer i)
  | .drop i => some (.streamer i)
  | _ => none

namespace Pipeline

/-- The pipeline after a point of time, at which a move may be made. -/
def after? (p : Pipeline) : Option PipelineMove → Option Pipeline
  | none => some p
  | some m => p.step? m

/-- The ends joined at a point of time. -/
def joinedAt (p : Pipeline) : Option PipelineMove → List (Option IngestError)
  | none => []
  | some m => p.joinedBy m

def Owes (p : Pipeline) (t : PipelineTask) : Prop := ∃ m, m.duty? = some t ∧ (p.step? m).isSome

end Pipeline

/-- A run of a pipeline without end. -/
structure Schedule (c : PipelineConfig) where
  state : Nat → Pipeline
  move : Nat → Option PipelineMove
  start : state 0 = .start c
  next : ∀ n, (state n).after? (move n) = some (state (n + 1))

namespace Schedule

variable {c : PipelineConfig}

/-- What the tasks ended with that were joined before a point of time. -/
def joins (σ : Schedule c) : Nat → List (Option IngestError)
  | 0 => []
  | n + 1 => σ.joins n ++ (σ.state n).joinedAt (σ.move n)

/-- What a task has to do all along, it does. -/
def Fair (σ : Schedule c) : Prop :=
  ∀ t n, (∀ k ≥ n, (σ.state k).Owes t) → ∃ k ≥ n, ∃ m, σ.move k = some m ∧ m.duty? = some t

end Schedule

/-! ## What is left to do in a pipeline that is ending -/

/-- The end of a poller leaves a task less. -/
theorem Lane.going_ended {l : Lane} {j : Nat} {q : Poller} (reason : PollEnd)
    (hq : l.pollers[j]? = some q) (hgoing : q.isEnded = false) :
    ({ l with pollers := l.pollers.set j { q with phase := .ended reason } } : Lane).going + 1 =
      l.going := by
  obtain ⟨hj, rfl⟩ := List.getElem?_eq_some_iff.mp hq
  have hpos : 0 < l.pollers.countP fun q => !q.isEnded :=
    List.countP_pos_iff.mpr ⟨_, List.getElem_mem hj, by simp [hgoing]⟩
  have hended : ({ l.pollers[j] with phase := .ended reason } : Poller).isEnded = true := rfl
  unfold Lane.going Lane.isOpen
  simp only [List.countP_set hj, hgoing, hended, Bool.not_true, Bool.not_false, if_true]
  simp only [Bool.false_eq_true, if_false]
  omega

namespace Pipeline

/-- The number of writes that are under way. -/
def writes (p : Pipeline) : Nat := (p.lanes.map Lane.writes).sum

/-- What is left to do: every task ends and is joined, and every write under way is heard of. -/
def load (p : Pipeline) : Nat := 2 * p.going + p.writes + p.unjoined.length

theorem sum_map_set {α : Type} {f : α → Nat} {xs : List α} {i : Nat} {a b : α}
    (h : xs[i]? = some a) : ((xs.set i b).map f).sum + f a = (xs.map f).sum + f b := by
  induction xs generalizing i with
  | nil => cases h
  | cons x rest ih =>
    cases i with
    | zero =>
      obtain rfl : x = a := by simpa using h
      simp only [List.set_cons_zero, List.map_cons, List.sum_cons]
      omega
    | succ i =>
      have hrest := @ih i (by simpa using h)
      simp only [List.set_cons_succ, List.map_cons, List.sum_cons]
      omega

section Load
variable {p p' : Pipeline} {m : PipelineMove}

/-- In a pipeline that is ending only the caller makes moves that nobody has to make. -/
theorem duty_of_ending (h : p.step? m = some p') (hending : p.isEnding = true) :
    m = .stop ∨ m.duty?.isSome := by
  have hpoller : ∀ i j, (∀ l q, p.pollSignal? l q m = none) → p.movePoller? i j m ≠ some p' := by
    intro i j hnone hmove
    simp only [movePoller?, Option.bind_eq_bind, Option.bind_eq_some_iff, hnone] at hmove
    obtain ⟨l, -, q, -, g, hg, -⟩ := hmove
    cases hg
  cases m with
  | stop => exact .inl rfl
  | join | quit | wrote | drop => exact .inr rfl
  | query i j | answer i j a | send i j | rest i j =>
    refine absurd h (hpoller i j fun l q => ?_)
    cases hphase : q.phase <;> simp [pollSignal?, hphase, hending]
  | receive i now =>
    simp only [step?, receive?, hending, Bool.not_true, Bool.and_false, Option.bind_eq_bind,
      Option.bind_eq_some_iff] at h
    obtain ⟨l, -, h⟩ := h
    split at h <;> cases h
  | expire i | close i =>
    simp only [step?, moveStreamer?, hending, Bool.not_true, Bool.and_false, Bool.false_and,
      Option.bind_eq_bind, Option.bind_eq_some_iff] at h
    obtain ⟨l, -, h⟩ := h
    cases h

/-- Less is left to do when a lane asks for less by more than the ends that wait. -/
theorem load_set_lt {i : Nat} {l l' : Lane} {ends : List (Option IngestError)}
    (hl : p.lanes[i]? = some l)
    (hlt : 2 * l'.going + l'.writes + ends.length < 2 * l.going + l.writes) :
    ({ p with lanes := p.lanes.set i l', unjoined := p.unjoined ++ ends } : Pipeline).load <
      p.load := by
  have hgoing := sum_map_set (f := Lane.going) (b := l') hl
  have hwrites := sum_map_set (f := Lane.writes) (b := l') hl
  simp only [load, going, writes, List.length_append]
  omega

theorem feeds_lt {ending : Bool} {l : Lane} {g : StreamSignal} {channel : List TelemetryRecord}
    (hfeeds : l.Feeds ending m g channel) (hduty : m.duty?.isSome) :
    2 * ({ l with channel, streamer := l.streamer.step g } : Lane).going +
      ({ l with channel, streamer := l.streamer.step g } : Lane).writes +
      ((l.streamer.step g).end?.map streamFailure).toList.length < 2 * l.going + l.writes := by
  cases hfeeds with
  | row | expired | closed => cases hduty
  | @wrote i rows isLast result hwriting =>
    rcases result with e | _
    · simp [Lane.going, Lane.writes, Lane.isOpen, Streamer.end?, hwriting,
        Streamer.step_refused hwriting]
    · cases isLast <;>
        simp [Lane.going, Lane.writes, Lane.isOpen, Streamer.end?, hwriting,
          Streamer.step_wrote hwriting]
  | cancelled i hfilling hending =>
    simp [Lane.going, Lane.writes, Lane.isOpen, Streamer.end?, hfilling,
      Streamer.step_cancelled hfilling]
    omega

theorem quit_ended {i j : Nat} (h : p.step? (.quit i j) = some p') (hending : p.isEnding = true) :
    ∃ l q, p.lanes[i]? = some l ∧ l.pollers[j]? = some q ∧ q.isEnded = false ∧
      p' = { p with
        lanes := p.lanes.set i
          { l with pollers := l.pollers.set j { q with phase := .ended .cancelled } }
        unjoined := p.unjoined ++ [none] } := by
  simp only [step?, movePoller?, Option.bind_eq_bind, Option.bind_eq_some_iff, Option.pure_def,
    Option.some.injEq] at h
  obtain ⟨l, hl, q, hq, g, hg, rfl⟩ := h
  refine ⟨l, q, hl, hq, ?_⟩
  cases hphase : q.phase with
  | ended reason => simp [pollSignal?, hphase] at hg
  | ready | asking | sending | resting =>
    obtain rfl : g = .cancelled := by simpa [pollSignal?, hphase, hending, eq_comm] using hg
    simp [Poller.isEnded, Poller.end?, Poller.step, hphase, tellPoller, setLane, pollFailure, sent]

/-- Every move leaves less to do in a pipeline that is ending, but that of the caller. -/
theorem load_lt (h : p.step? m = some p') (hending : p.isEnding = true) (hm : m ≠ .stop) :
    p'.load < p.load := by
  have hduty := (duty_of_ending h hending).resolve_left hm
  cases m with
  | stop => exact absurd rfl hm
  | query | answer | send | rest | receive | expire | close => cases hduty
  | quit i j =>
    obtain ⟨l, q, hl, hq, hgoing, rfl⟩ := quit_ended h hending
    refine load_set_lt hl ?_
    have hless := Lane.going_ended .cancelled hq hgoing
    simp only [Lane.writes, List.length_singleton]
    omega
  | join =>
    cases step_turn h with
    | join hunjoined => simp [load, going, writes, hunjoined]
    | lane hm _ _ => cases hm
  | wrote i result | drop i =>
    cases step_turn h with
    | @lane _ _ l l' ends _ hl hlane =>
      cases hlane with
      | poll hj _ _ => cases hj
      | stream hfeeds => exact load_set_lt hl (feeds_lt hfeeds hduty)

/-- In a pipeline that is ending, with tasks that go on or wait to be joined, some task has something
to do, and keeps it while no lane and no queue changes. -/
theorem exists_due (htodo : p.going ≠ 0 ∨ p.unjoined ≠ []) :
    ∃ t, ∀ q : Pipeline, q.lanes = p.lanes → q.unjoined = p.unjoined → q.isEnding = true →
      q.Owes t := by
  by_cases hunjoined : p.unjoined = []
  · obtain ⟨n, hn, hpos⟩ := List.sum_pos_iff_exists_pos_nat.mp
      (Nat.pos_of_ne_zero (htodo.resolve_right (· hunjoined)))
    obtain ⟨l, hmem, rfl⟩ := List.mem_map.mp hn
    obtain ⟨i, hi⟩ := List.getElem?_of_mem hmem
    by_cases hopen : l.isOpen
    · refine ⟨.streamer i, fun q hlanes _ hq => ?_⟩
      have hl : q.lanes[i]? = some l := by rw [hlanes, hi]
      by_cases hfilling : l.isFilling
      · exact ⟨.drop i, rfl, by simp [step?, moveStreamer?, hl, hfilling, hq]⟩
      · exact ⟨.wrote i (.ok ()), rfl, by simp [step?, moveStreamer?, hl, hfilling, hopen]⟩
    · have hpollers : 0 < l.pollers.countP fun q => !q.isEnded := by
        simpa [Lane.going, hopen] using hpos
      obtain ⟨x, hx, hgoing⟩ := List.countP_pos_iff.mp hpollers
      obtain ⟨j, hj⟩ := List.getElem?_of_mem hx
      refine ⟨.poller i j, fun q hlanes _ hq => ⟨.quit i j, rfl, ?_⟩⟩
      have hl : q.lanes[i]? = some l := by rw [hlanes, hi]
      cases hphase : x.phase with
      | ended reason => simp [Poller.isEnded, Poller.end?, hphase] at hgoing
      | _ => simp [step?, movePoller?, hl, hj, pollSignal?, hphase, hq]
  · refine ⟨.joiner, fun q _ hq _ => ⟨.join, rfl, ?_⟩⟩
    obtain ⟨e, rest, hsome⟩ := List.exists_cons_of_ne_nil hunjoined
    simp [step?, join?, hq, hsome]

theorem load_congr {q : Pipeline} (hlanes : q.lanes = p.lanes)
    (hunjoined : q.unjoined = p.unjoined) : q.load = p.load := by
  simp only [load, going, writes, hlanes, hunjoined]

/-- The caller touches no lane and no queue. -/
theorem step_stop (h : p.step? .stop = some p') :
    p'.lanes = p.lanes ∧ p'.unjoined = p.unjoined := by
  obtain rfl := Option.some.inj h
  exact ⟨rfl, rfl⟩

theorem joinedBy_join (h : p.step? .join = some p') : ∃ e, p.joinedBy .join = [e] := by
  cases step_turn h with
  | @join e rest hunjoined => exact ⟨e, by simp [joinedBy, hunjoined]⟩
  | lane hm _ _ => cases hm

end Load

end Pipeline

/-! ## What holds along a schedule -/

namespace Schedule

variable {c : PipelineConfig} (σ : Schedule c)

theorem step_of_move {n : Nat} {m : PipelineMove} (h : σ.move n = some m) :
    (σ.state n).step? m = some (σ.state (n + 1)) := by
  have hnext := σ.next n
  rwa [h] at hnext

/-- At a point of time nothing happens, or a move is made. -/
theorem next_cases (n : Nat) :
    σ.move n = none ∧ σ.state (n + 1) = σ.state n ∨
      ∃ m, σ.move n = some m ∧ (σ.state n).step? m = some (σ.state (n + 1)) := by
  cases hmove : σ.move n with
  | none =>
    have hnext := σ.next n
    rw [hmove] at hnext
    exact .inl ⟨rfl, (Option.some.inj hnext).symm⟩
  | some m => exact .inr ⟨m, rfl, σ.step_of_move hmove⟩

theorem joins_succ {n : Nat} {m : PipelineMove} (h : σ.move n = some m) :
    σ.joins (n + 1) = σ.joins n ++ (σ.state n).joinedBy m := by
  rw [joins, h, Pipeline.joinedAt]

theorem joins_idle {n : Nat} (h : σ.move n = none) : σ.joins (n + 1) = σ.joins n := by
  rw [joins, h, Pipeline.joinedAt, List.append_nil]

theorem tallied (n : Nat) : Pipeline.Tallied (σ.joins n) (σ.state n) := by
  induction n with
  | zero => exact σ.start ▸ Pipeline.tallied_start c
  | succ n ih =>
    rcases σ.next_cases n with ⟨hidle, hsame⟩ | ⟨m, hmove, hstep⟩
    · rw [σ.joins_idle hidle, hsame]
      exact ih
    · rw [σ.joins_succ hmove]
      exact ih.step hstep

theorem kept {P : Pipeline → Prop} (hP : ∀ p p' m, p.step? m = some p' → P p → P p') {n m : Nat}
    (hnm : n ≤ m) (h : P (σ.state n)) : P (σ.state m) := by
  induction m, hnm using Nat.le_induction with
  | base => exact h
  | succ m _ ih =>
    rcases σ.next_cases m with ⟨-, hsame⟩ | ⟨move, -, hstep⟩
    · rwa [hsame]
    · exact hP _ _ _ hstep ih

theorem isEnding_of_le {n m : Nat} (hnm : n ≤ m) (h : (σ.state n).isEnding = true) :
    (σ.state m).isEnding = true :=
  σ.kept (P := fun p => p.isEnding = true) (fun _ _ _ hstep => (Pipeline.step_turn hstep).isEnding) hnm h

theorem taskCount_of_le {n m : Nat} (hnm : n ≤ m) :
    (σ.state m).taskCount = (σ.state n).taskCount :=
  σ.kept (P := fun p => p.taskCount = (σ.state n).taskCount)
    (fun _ _ _ hstep h => (Pipeline.step_turn hstep).taskCount.trans h) hnm rfl

/-- What the tasks that have ended ended with, in the order in which they are joined. -/
def arrivals (n : Nat) : List (Option IngestError) := σ.joins n ++ (σ.state n).unjoined

theorem arrivals_prefix {n m : Nat} (hnm : n ≤ m) : σ.arrivals n <+: σ.arrivals m := by
  induction m, hnm using Nat.le_induction with
  | base => exact List.prefix_refl _
  | succ m _ ih =>
    refine ih.trans ?_
    rcases σ.next_cases m with ⟨hidle, hsame⟩ | ⟨move, hmove, hstep⟩
    · have hstill : σ.arrivals (m + 1) = σ.arrivals m := by
        rw [arrivals, arrivals, σ.joins_idle hidle, hsame]
      exact hstill ▸ List.prefix_refl _
    · rw [arrivals, arrivals, σ.joins_succ hmove, List.append_assoc]
      exact List.prefix_append_right_inj _ |>.mpr (Pipeline.step_turn hstep).queued

theorem joins_prefix {n m : Nat} (hnm : n ≤ m) : σ.joins n <+: σ.joins m := by
  induction m, hnm using Nat.le_induction with
  | base => exact List.prefix_refl _
  | succ m _ ih => exact ih.trans (List.prefix_append _ _)

/-- The first failure that is joined stays the failure. -/
theorem failure_of_le {n m : Nat} (hnm : n ≤ m) {e : IngestError}
    (h : (σ.joins n).findSome? id = some e) : (σ.state m).failure = some e := by
  obtain ⟨more, hmore⟩ := σ.joins_prefix hnm
  rw [(σ.tallied m).first, ← hmore, List.findSome?_append, h, Option.some_or]

/-! ## What comes about under a fair schedule -/

/-- What is measured and can be made less, until it does not matter, stops to matter. -/
theorem exists_of_descent {P : Nat → Prop} (load : Nat → Nat) {n : Nat}
    (h : ∀ k ≥ n, P k ∨ ∃ m ≥ k, load m < load k) : ∃ m ≥ n, P m := by
  induction hload : load n using Nat.strongRecOn generalizing n with
  | ind N ih =>
    rcases h n le_rfl with hn | ⟨m, hm, hlt⟩
    · exact ⟨n, le_rfl, hn⟩
    · obtain ⟨k, hk, hPk⟩ := ih (load m) (hload ▸ hlt) (fun k hk => h k (le_trans hm hk)) rfl
      exact ⟨k, le_trans hm hk, hPk⟩

variable {σ}

/-- While something waits to be joined, something is joined. -/
theorem Fair.joins_more (hfair : σ.Fair) {n k : Nat} (hnk : n ≤ k)
    (h : (σ.joins k).length < (σ.arrivals n).length) :
    ∃ m ≥ k, (σ.joins k).length < (σ.joins m).length := by
  by_contra hnever
  push Not at hnever
  have howes : ∀ m ≥ k, (σ.state m).Owes .joiner := by
    intro m hm
    have hqueue : (σ.state m).unjoined ≠ [] := by
      intro hempty
      have hall : σ.arrivals m = σ.joins m := by rw [arrivals, hempty, List.append_nil]
      have hgrown := (σ.arrivals_prefix (le_trans hnk hm)).length_le
      have hstuck := hnever m hm
      rw [hall] at hgrown
      omega
    obtain ⟨e, rest, hsome⟩ := List.exists_cons_of_ne_nil hqueue
    exact ⟨.join, rfl, by simp [Pipeline.step?, Pipeline.join?, hsome]⟩
  obtain ⟨m, hm, move, hmove, hduty⟩ := hfair .joiner k howes
  cases move with
  | join =>
    obtain ⟨e, he⟩ := Pipeline.joinedBy_join (σ.step_of_move hmove)
    have hafter := hnever (m + 1) (Nat.le_succ_of_le hm)
    have hbefore := (σ.joins_prefix hm).length_le
    rw [σ.joins_succ hmove, he, List.length_append, List.length_singleton] at hafter
    omega
  | _ => cases hduty

theorem Fair.joined (hfair : σ.Fair) (n : Nat) : ∃ m ≥ n, σ.arrivals n <+: σ.joins m := by
  have hlong : ∃ m ≥ n, (σ.arrivals n).length ≤ (σ.joins m).length := by
    refine exists_of_descent (fun m => (σ.arrivals n).length - (σ.joins m).length) fun k hk => ?_
    by_cases hlong : (σ.arrivals n).length ≤ (σ.joins k).length
    · exact .inl hlong
    · obtain ⟨m, hm, hmore⟩ := hfair.joins_more hk (Nat.lt_of_not_le hlong)
      exact .inr ⟨m, hm, by omega⟩
  obtain ⟨m, hm, hlong⟩ := hlong
  exact ⟨m, hm, List.prefix_of_prefix_length_le (σ.arrivals_prefix hm)
    (List.prefix_append _ _) hlong⟩

theorem Fair.load_less (hfair : σ.Fair) {n : Nat} (hending : (σ.state n).isEnding = true)
    (htodo : (σ.state n).going ≠ 0 ∨ (σ.state n).unjoined ≠ []) :
    ∃ m ≥ n, (σ.state m).load < (σ.state n).load := by
  by_contra hnever
  push Not at hnever
  -- if it never has, then nobody moves but the caller, so some task does not do what it has to
  have hstill : ∀ k ≥ n, (σ.state k).lanes = (σ.state n).lanes ∧
      (σ.state k).unjoined = (σ.state n).unjoined := by
    intro k hk
    induction k, hk using Nat.le_induction with
    | base => exact ⟨rfl, rfl⟩
    | succ k hk ih =>
      rcases σ.next_cases k with ⟨-, hsame⟩ | ⟨m, -, hstep⟩
      · rwa [hsame]
      · have hload : (σ.state k).load = (σ.state n).load := Pipeline.load_congr ih.1 ih.2
        by_cases hm : m = .stop
        · obtain ⟨hlanes, hunjoined⟩ := Pipeline.step_stop (hm ▸ hstep)
          exact ⟨hlanes.trans ih.1, hunjoined.trans ih.2⟩
        · have hless := Pipeline.load_lt hstep (σ.isEnding_of_le hk hending) hm
          have hmore := hnever (k + 1) (Nat.le_succ_of_le hk)
          omega
  obtain ⟨t, ht⟩ := Pipeline.exists_due htodo
  obtain ⟨k, hk, m, hmove, hduty⟩ := hfair t n fun k hk =>
    ht _ (hstill k hk).1 (hstill k hk).2 (σ.isEnding_of_le hk hending)
  have hm : m ≠ .stop := by
    rintro rfl
    cases hduty
  have hless := Pipeline.load_lt (σ.step_of_move hmove) (σ.isEnding_of_le hk hending) hm
  have hload := Pipeline.load_congr (hstill k hk).1 (hstill k hk).2
  have hmore := hnever (k + 1) (Nat.le_succ_of_le hk)
  omega

theorem Fair.returns (hfair : σ.Fair) {n : Nat} (hending : (σ.state n).isEnding = true) :
    ∃ m ≥ n, (σ.state m).joined = (σ.state m).taskCount := by
  refine exists_of_descent (fun m => (σ.state m).load) fun k hk => ?_
  by_cases hdone : (σ.state k).going = 0 ∧ (σ.state k).unjoined = []
  · exact .inl ((σ.tallied k).all_joined.mpr hdone)
  · exact .inr (hfair.load_less (σ.isEnding_of_le hk hending) (not_and_or.mp hdone))

end Schedule

/-! ## How a pipeline ends -/

/-- How a pipeline ends under a schedule. -/
structure Schedule.Outcome {c : PipelineConfig} (σ : Schedule c) : Prop where
  /-- It returns only after every task has ended, and is joined. -/
  exited : ∀ n r, (σ.state n).result? = some r → (σ.state n).unjoined = [] ∧
    ∀ l ∈ (σ.state n).lanes, l.streamer.end?.isSome ∧ ∀ p ∈ l.pollers, p.isEnded
  /-- It returns once. -/
  final : ∀ n r, (σ.state n).result? = some r → ∀ m ≥ n, (σ.state m).result? = some r
  /-- It returns without failure only if the caller has stopped it. -/
  stopped : ∀ n, (σ.state n).result? = some (.ok ()) → (σ.state n).isStopped
  /-- It returns with a failure if and only if some task ended with one. -/
  failed_iff : ∀ n r, (σ.state n).result? = some r →
    ((∃ e, r = .error e) ↔ ∃ e, some e ∈ (σ.state n).ends)
  /-- The failure is that of the first task to be joined that has one. -/
  first : ∀ n e, (σ.state n).result? = some (.error e) → (σ.joins n).findSome? id = some e
  /-- From the time at which this task is joined, all tasks are to end. -/
  scope : ∀ n e, (σ.joins n).findSome? id = some e →
    ∀ m ≥ n, (σ.state m).failure = some e ∧ (σ.state m).isEnding
  /-- If a task fails or the caller stops it, it returns. -/
  returns : σ.Fair → ∀ n, (σ.state n).isStopped ∨ (∃ e, some e ∈ (σ.state n).ends) →
    ∃ m ≥ n, (σ.state m).result?.isSome
  /-- No task ends as long as none has failed and the caller has not stopped it. -/
  lively : ∀ n, (σ.state n).isStopped = false → (∀ e, some e ∉ (σ.state n).ends) →
    ∀ l ∈ (σ.state n).lanes, l.streamer.end? = none ∧ ∀ p ∈ l.pollers, p.isEnded = false
  /-- A streamer has found its channel closed only if all its pollers have ended. -/
  drained : ∀ n, ∀ l ∈ (σ.state n).lanes, Stream.IsFinal l.streamer.phase →
    ∀ p ∈ l.pollers, p.isEnded
  /-- A poller finds its channel closed only after its streamer failed, or if all are to end. -/
  closed : ∀ n, ∀ l ∈ (σ.state n).lanes, l.isOpen = false → ∀ p ∈ l.pollers, p.isEnded = false →
    (σ.state n).isEnding ∨ ∃ e, l.streamer.phase = .ended (.failed e)

namespace Schedule

variable {c : PipelineConfig} (σ : Schedule c) {n : Nat}

theorem mem_ends {e : Option IngestError} : e ∈ (σ.state n).ends ↔ e ∈ σ.arrivals n :=
  (σ.tallied n).tally.mem_iff.symm

theorem failure_isSome : (σ.state n).failure.isSome ↔ ∃ e, some e ∈ σ.joins n := by
  rw [(σ.tallied n).first, List.findSome?_isSome_iff]
  constructor
  · rintro ⟨x, hx, hsome⟩
    obtain ⟨e, rfl⟩ := Option.isSome_iff_exists.mp hsome
    exact ⟨e, hx⟩
  · rintro ⟨e, he⟩
    exact ⟨some e, he, rfl⟩

theorem returned {r : Except IngestError Unit} (h : (σ.state n).result? = some r) :
    (σ.state n).joined = (σ.state n).taskCount ∧
      r = (match (σ.state n).failure with | some e => .error e | none => .ok ()) := by
  unfold Pipeline.result? at h
  split at h
  · exact ⟨‹_›, (Option.some.inj h).symm⟩
  · cases h

theorem joins_of_returned (h : (σ.state n).joined = (σ.state n).taskCount) {m : Nat}
    (hnm : n ≤ m) : σ.joins m = σ.joins n := by
  have hgrown := σ.joins_prefix hnm
  have hall := (σ.tallied m).tally.length_eq
  have htasks := (σ.state m).ends_going
  rw [List.length_append] at hall
  have hn : (σ.joins n).length = (σ.state n).taskCount := (σ.tallied n).joined.symm.trans h
  have hcount := σ.taskCount_of_le hnm
  exact (hgrown.eq_of_length_le (by omega)).symm

theorem lanes_ne_nil (hqueries : ∃ g, c.queries g ≠ []) (n : Nat) : (σ.state n).lanes ≠ [] := by
  refine σ.kept (P := fun p => p.lanes ≠ []) (fun p p' m hstep h => ?_) (Nat.zero_le n) ?_
  · cases Pipeline.step_turn hstep with
    | stop | join => exact h
    | lane => simpa using h
  · obtain ⟨g, hg⟩ := hqueries
    have hmem : g ∈ Granularity.all := by cases g <;> decide
    rw [σ.start]
    simp only [Pipeline.start, ne_eq, List.map_eq_nil_iff, List.filter_eq_nil_iff]
    intro hnone
    exact hnone g hmem (by simpa using hg)

theorem lively_of_unfailed (hstop : (σ.state n).isStopped = false)
    (hends : ∀ e, some e ∉ (σ.state n).ends) : (σ.state n).Lively := by
  refine (σ.tallied n).lively ⟨?_, fun e he => hends e ?_⟩
  · rw [Pipeline.isEnding, hstop, Bool.false_or]
    refine Bool.eq_false_iff.mpr fun hfailure => ?_
    obtain ⟨e, he⟩ := σ.failure_isSome.mp hfailure
    exact hends e (σ.mem_ends.mpr (List.mem_append_left _ he))
  · exact σ.mem_ends.mpr (List.mem_append_right _ he)

end Schedule

/-- The outcome of a pipeline with some queries, under every schedule. -/
theorem pipeline_outcome {c : PipelineConfig} (hqueries : ∃ g, c.queries g ≠ [])
    (σ : Schedule c) : σ.Outcome := by
  have hexited : ∀ n r, (σ.state n).result? = some r → (σ.state n).unjoined = [] ∧
      ∀ l ∈ (σ.state n).lanes, l.streamer.end?.isSome ∧ ∀ p ∈ l.pollers, p.isEnded := by
    intro n r hr
    obtain ⟨hgoing, hunjoined⟩ := (σ.tallied n).all_joined.mp (σ.returned hr).1
    exact ⟨hunjoined, Pipeline.all_ended hgoing⟩
  have hfailed : ∀ n r, (σ.state n).result? = some r →
      ((∃ e, r = .error e) ↔ ∃ e, some e ∈ (σ.state n).ends) := by
    intro n r hr
    have hall : ∀ e, some e ∈ (σ.state n).ends ↔ some e ∈ σ.joins n := by
      intro e
      rw [σ.mem_ends, Schedule.arrivals, (hexited n r hr).1, List.append_nil]
    simp only [hall, ← σ.failure_isSome, (σ.returned hr).2]
    cases (σ.state n).failure <;> simp
  have hreturns : σ.Fair → ∀ n, (σ.state n).isEnding = true →
      ∃ m ≥ n, (σ.state m).result?.isSome := by
    intro hfair n hending
    obtain ⟨m, hm, hjoined⟩ := hfair.returns hending
    exact ⟨m, hm, by simp [Pipeline.result?, hjoined]⟩
  exact {
    exited := hexited
    failed_iff := hfailed
    final := by
      intro n r hr m hm
      obtain ⟨hjoined, hresult⟩ := σ.returned hr
      have hjoins := σ.joins_of_returned hjoined hm
      have hfailure : (σ.state m).failure = (σ.state n).failure := by
        rw [(σ.tallied m).first, hjoins, (σ.tallied n).first]
      have hall : (σ.state m).joined = (σ.state m).taskCount := by
        rw [(σ.tallied m).joined, hjoins, ← (σ.tallied n).joined, hjoined, σ.taskCount_of_le hm]
      rw [Pipeline.result?, if_pos hall, hfailure]
      exact congrArg some hresult.symm
    stopped := by
      intro n hr
      by_contra hstop
      have hunfailed : ∀ e, some e ∉ (σ.state n).ends := by
        intro e he
        obtain ⟨e', he'⟩ := (hfailed n _ hr).mpr ⟨e, he⟩
        cases he'
      obtain ⟨l, hl⟩ := List.exists_mem_of_ne_nil _ (σ.lanes_ne_nil hqueries n)
      have hopen := (σ.lively_of_unfailed (by simpa using hstop) hunfailed l hl).1.isOpen
      have hended := ((hexited n _ hr).2 l hl).1
      simp [Lane.isOpen, Option.isSome_iff_ne_none.mp hended] at hopen
    first := by
      intro n e hr
      have hresult := (σ.returned hr).2
      rw [← (σ.tallied n).first]
      cases hfailure : (σ.state n).failure with
      | none => simp [hfailure] at hresult
      | some e' => simpa [hfailure, eq_comm] using hresult
    scope := by
      intro n e he m hm
      have hfailure := σ.failure_of_le hm he
      exact ⟨hfailure, by simp [Pipeline.isEnding, hfailure]⟩
    returns := by
      rintro hfair n (hstop | ⟨e, he⟩)
      · exact hreturns hfair n (by simp [Pipeline.isEnding, hstop])
      · obtain ⟨k, hk, hjoined⟩ := hfair.joined n
        have hfailure := σ.failure_isSome.mpr ⟨e, hjoined.subset (σ.mem_ends.mp he)⟩
        obtain ⟨m, hm, hresult⟩ := hreturns hfair k (by simp [Pipeline.isEnding, hfailure])
        exact ⟨m, le_trans hk hm, hresult⟩
    lively := by
      intro n hstop hunfailed l hl
      have hlively := (σ.lively_of_unfailed hstop hunfailed l hl).1
      exact ⟨by simpa [Lane.isOpen] using hlively.isOpen, hlively.pollers⟩
    drained := fun n l hl hfinal => ((σ.tallied n).explained l hl).drained hfinal
    closed := fun n l hl hclosed p hp hgoing =>
      ((σ.tallied n).explained l hl).closed hp hgoing hclosed }

/-- What is made of a move at a point of time; one that is not possible is not made. -/
def Pipeline.attempt (p : Pipeline) (m : Option PipelineMove) : Option PipelineMove × Pipeline :=
  match p.after? m with
  | some p' => (m, p')
  | none => (none, p)

theorem Pipeline.after_attempt (p : Pipeline) (m : Option PipelineMove) :
    p.after? (p.attempt m).1 = some (p.attempt m).2 := by
  unfold attempt
  split
  · assumption
  · rfl

/-- The pipeline after the first of some moves. -/
def Pipeline.played (c : PipelineConfig) (moves : List PipelineMove) : Nat → Pipeline
  | 0 => .start c
  | n + 1 => ((played c moves n).attempt moves[n]?).2

/-- The schedule of some moves, after which nothing happens. -/
def Schedule.of (c : PipelineConfig) (moves : List PipelineMove) : Schedule c where
  state := Pipeline.played c moves
  move := fun n => ((Pipeline.played c moves n).attempt moves[n]?).1
  start := rfl
  next := fun _ => Pipeline.after_attempt _ _

theorem Schedule.fair_of_done {c : PipelineConfig} {σ : Schedule c} {n : Nat}
    (hending : (σ.state n).isEnding = true) (hload : (σ.state n).load = 0) : σ.Fair := by
  intro t k howes
  have hdone : ∀ m ≥ n, (σ.state m).isEnding = true ∧ (σ.state m).load = 0 := by
    intro m hm
    refine σ.kept (P := fun p => p.isEnding = true ∧ p.load = 0) ?_ hm ⟨hending, hload⟩
    rintro p p' move hstep ⟨hp, hzero⟩
    refine ⟨(Pipeline.step_turn hstep).isEnding hp, ?_⟩
    by_cases hmove : move = .stop
    · obtain ⟨hlanes, hunjoined⟩ := Pipeline.step_stop (hmove ▸ hstep)
      rw [Pipeline.load_congr hlanes hunjoined, hzero]
    · have hless := Pipeline.load_lt hstep hp hmove
      omega
  obtain ⟨hp, hzero⟩ := hdone (max n k) (le_max_left n k)
  obtain ⟨m, hduty, hpossible⟩ := howes (max n k) (le_max_right n k)
  obtain ⟨p', hstep⟩ := Option.isSome_iff_exists.mp hpossible
  have hm : m ≠ .stop := by
    rintro rfl
    cases hduty
  have hless := Pipeline.load_lt hstep hp hm
  omega

/-- A query that fails, which ends the streamer and the pipeline. -/
theorem pipeline_outcome_failed :
    ∃ σ : Schedule Ingestion.nodeCountConfig, σ.Fair ∧
      (σ.state 5).result? = some (.error (.query (.http 503))) ∧ σ.Outcome := by
  let σ := Schedule.of Ingestion.nodeCountConfig
    [.query 0 0, .answer 0 0 (.error (.http 503)), .join, .drop 0, .join]
  have hending : (σ.state 5).isEnding = true := by decide +kernel
  have hload : (σ.state 5).load = 0 := by decide +kernel
  have hfair : σ.Fair := Schedule.fair_of_done hending hload
  exact ⟨σ, hfair, by decide +kernel, pipeline_outcome ⟨.cluster, by decide⟩ σ⟩

end KubeLedger
