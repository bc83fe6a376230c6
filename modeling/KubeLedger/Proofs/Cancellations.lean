import KubeLedger.Proofs.Schedules

/- What happens in a pipeline once all tasks are to end. Tasks are looked at by their places: a poller, a
   streamer and a channel (`Pipeline.pollerAt?`, `streamerAt?`, `channelAt?`). A step of a pipeline that
   is ending does one of four things (`Pipeline.Closes`): it leaves all lanes alone, a poller ends, a
   streamer that waits ends, or the store answers a write that was under way before. So no query, no
   record and no write begins (`Pipeline.Begins`).

   Along a schedule each task therefore has a fate that its state at the beginning leaves open in a few
   ways only (`Poller.Fate`, `Streamer.Fate`), and under a fair schedule it comes to its end. -/
namespace KubeLedger

/-- The task that makes a move. The caller is none of them. -/
def PipelineMove.task? : PipelineMove → Option PipelineTask
  | .stop => none
  | .join => some .joiner
  | .query i j => some (.poller i j)
  | .answer i j _ => some (.poller i j)
  | .send i j => some (.poller i j)
  | .rest i j => some (.poller i j)
  | .quit i j => some (.poller i j)
  | .receive i _ => some (.streamer i)
  | .expire i => some (.streamer i)
  | .close i => some (.streamer i)
  | .wrote i _ => some (.streamer i)
  | .drop i => some (.streamer i)

def Poller.cancelled (p : Poller) : Poller := { p with phase := .ended .cancelled }

/-- The streamer, cancelled. Its unfinished batch is not written. -/
def Streamer.cancelled (s : Streamer) : Streamer := { s with phase := .ended .cancelled }

/-- The streamer after the answer to its write: it ends with a failure, or after its last write with the
count of its rows, or waits. -/
def Streamer.answered (s : Streamer) (rows : List Row) (isLast : Bool) :
    Except StoreError Unit → Streamer
  | .error e => { s with phase := .ended (.failed e) }
  | .ok () =>
    { s with
      written := s.written + rows.length
      phase := if isLast then .ended (.finished (s.written + rows.length)) else .filling }

theorem Streamer.step_wrote_eq {s : Streamer} {rows : List Row} {isLast : Bool}
    (h : s.phase = .writing rows isLast) (result : Except StoreError Unit) :
    s.step (.wrote result) = s.answered rows isLast result := by
  cases result with
  | error e => exact step_refused h
  | ok _ => exact step_wrote h

theorem Streamer.answered_phase_ne (s : Streamer) (rows batch : List Row) (isLast last : Bool)
    (result : Except StoreError Unit) : (s.answered rows isLast result).phase ≠ .writing batch last := by
  rcases result with e | _
  · simp [answered]
  · cases isLast <;> simp [answered]

/-- The next step of a streamer in a pipeline that is ending: it ends if it waited, or its write is
answered. -/
inductive Streamer.Closes (s : Streamer) : Streamer → Prop
  | dropped : s.phase = .filling → Closes s s.cancelled
  | answered {rows : List Row} {isLast : Bool} (result : Except StoreError Unit) :
    s.phase = .writing rows isLast → Closes s (s.answered rows isLast result)

/-- What a poller can have become once all tasks are to end. -/
inductive Poller.Fate (q : Poller) : Poller → Prop
  | waits : Fate q q
  | cancelled : q.isEnded = false → Fate q q.cancelled

/-- What a streamer can have become once all tasks are to end. -/
inductive Streamer.Fate (s : Streamer) : Streamer → Prop
  | waits : Fate s s
  | dropped : s.phase = .filling → Fate s s.cancelled
  | answered {rows : List Row} {isLast : Bool} (result : Except StoreError Unit) :
    s.phase = .writing rows isLast → Fate s (s.answered rows isLast result)
  /-- A write that was not the last one is done, and the streamer cancelled after it. -/
  | abandoned {rows : List Row} : s.phase = .writing rows false →
    Fate s (s.answered rows false (.ok ())).cancelled

/-- A fate is followed by a next step only from where the streamer goes on. -/
theorem Streamer.Fate.closes {s s' s'' : Streamer} (h : s.Fate s') (hnext : s'.Closes s'') :
    s.Fate s'' := by
  cases h with
  | waits =>
    cases hnext with
    | dropped hfilling => exact .dropped hfilling
    | answered result hwriting => exact .answered result hwriting
  | dropped | abandoned => cases hnext <;> contradiction
  | @answered rows isLast result hwriting =>
    rcases result with e | _
    · cases hnext <;> contradiction
    · cases isLast with
      | true => cases hnext <;> contradiction
      | false =>
        cases hnext with
        | dropped => exact .abandoned hwriting
        | answered _ hagain => cases hagain

namespace Pipeline

def pollerAt? (p : Pipeline) (i j : Nat) : Option Poller := p.lanes[i]?.bind fun l => l.pollers[j]?

def streamerAt? (p : Pipeline) (i : Nat) : Option Streamer := p.lanes[i]?.map Lane.streamer

def channelAt? (p : Pipeline) (i : Nat) : Option (List TelemetryRecord) :=
  p.lanes[i]?.map Lane.channel

/-- From one state to another a query, the sending of a record, or a write begins. -/
inductive Begins (p p' : Pipeline) : Prop
  | query {i j : Nat} {q : Poller} : p'.pollerAt? i j = some q → q.phase = .asking →
    (∀ before ∈ p.pollerAt? i j, before.phase ≠ .asking) → Begins p p'
  | record {i : Nat} {channel : List TelemetryRecord} : p'.channelAt? i = some channel →
    (∀ before ∈ p.channelAt? i, ¬ channel <:+ before) → Begins p p'
  | write {i : Nat} {s : Streamer} {rows : List Row} {isLast : Bool} :
    p'.streamerAt? i = some s → s.phase = .writing rows isLast →
    (∀ before ∈ p.streamerAt? i, before.phase ≠ .writing rows isLast) → Begins p p'

/-- What a move does to a pipeline that is ending. -/
inductive Closes (p : Pipeline) : PipelineMove → Pipeline → Prop
  | stop {p' : Pipeline} : p'.lanes = p.lanes → Closes p .stop p'
  | join {p' : Pipeline} : p'.lanes = p.lanes → Closes p .join p'
  | quit {i j : Nat} {l : Lane} {q : Poller} {p' : Pipeline} : p.lanes[i]? = some l →
    l.pollers[j]? = some q → q.isEnded = false →
    p'.lanes = p.lanes.set i { l with pollers := l.pollers.set j q.cancelled } →
    Closes p (.quit i j) p'
  | drop {i : Nat} {l : Lane} {p' : Pipeline} : p.lanes[i]? = some l →
    l.streamer.phase = .filling →
    p'.lanes = p.lanes.set i { l with streamer := l.streamer.cancelled } → Closes p (.drop i) p'
  | wrote {i : Nat} {l : Lane} {rows : List Row} {isLast : Bool} {p' : Pipeline}
    (result : Except StoreError Unit) : p.lanes[i]? = some l →
    l.streamer.phase = .writing rows isLast →
    p'.lanes = p.lanes.set i { l with streamer := l.streamer.answered rows isLast result } →
    Closes p (.wrote i result) p'

section Closes
variable {p p' : Pipeline} {m : PipelineMove} {i j : Nat}

theorem step_closes (h : p.step? m = some p') (hending : p.isEnding = true) : Closes p m p' := by
  rcases duty_of_ending h hending with rfl | hduty
  · exact .stop (step_stop h).1
  cases m with
  | stop | query | answer | send | rest | receive | expire | close => cases hduty
  | join =>
    cases step_turn h with
    | join => exact .join rfl
    | lane hm _ _ => cases hm
  | quit i j =>
    obtain ⟨l, q, hl, hq, hgoing, rfl⟩ := quit_ended h hending
    exact .quit hl hq hgoing rfl
  | wrote i result =>
    cases step_turn h with
    | lane hm hl hlane =>
      cases hm
      cases hlane with
      | poll hj _ _ => cases hj
      | stream hfeeds =>
        cases hfeeds with
        | wrote i result hwriting =>
          exact .wrote result hl hwriting (by rw [Streamer.step_wrote_eq hwriting])
  | drop i =>
    cases step_turn h with
    | lane hm hl hlane =>
      cases hm
      cases hlane with
      | poll hj _ _ => cases hj
      | stream hfeeds =>
        cases hfeeds with
        | cancelled i hfilling _ =>
          exact .drop hl hfilling (by rw [Streamer.step_cancelled hfilling]; rfl)

/-! ## The tasks by their places -/

section Places
variable {l l' : Lane} {k : Nat}

theorem lane_of_set (hset : p'.lanes = p.lanes.set i l') (hl : p.lanes[i]? = some l) :
    p'.lanes[k]? = if k = i then some l' else p.lanes[k]? := by
  have hi := (List.getElem?_eq_some_iff.mp hl).1
  rw [hset, List.getElem?_set]
  by_cases hki : k = i
  · simp [hki, hi]
  · simp [hki, Ne.symm hki]

theorem pollerAt?_of_set (hset : p'.lanes = p.lanes.set i l') (hl : p.lanes[i]? = some l) :
    p'.pollerAt? k j = if k = i then l'.pollers[j]? else p.pollerAt? k j := by
  unfold pollerAt?
  rw [lane_of_set hset hl]
  split <;> rfl

theorem streamerAt?_of_set (hset : p'.lanes = p.lanes.set i l') (hl : p.lanes[i]? = some l) :
    p'.streamerAt? k = if k = i then some l'.streamer else p.streamerAt? k := by
  unfold streamerAt?
  rw [lane_of_set hset hl]
  split <;> rfl

/-- What a lane keeps can be seen in its place as before, and so in all other places. -/
theorem look_of_set {β : Type} {f : Lane → β} (hset : p'.lanes = p.lanes.set i l')
    (hl : p.lanes[i]? = some l) (hsame : f l' = f l) : p'.lanes[k]?.map f = p.lanes[k]?.map f := by
  rw [← List.getElem?_map, ← List.getElem?_map, hset, map_set_same hl hsame]

theorem pollerAt?_eq (p : Pipeline) (i j : Nat) :
    p.pollerAt? i j = (p.lanes[i]?.map Lane.pollers).bind fun pollers => pollers[j]? := by
  rw [pollerAt?, Option.bind_map]
  rfl

end Places

/-- A move of another task leaves a poller alone. -/
theorem Closes.poller_other (h : Closes p m p') (hm : m.task? ≠ some (.poller i j)) :
    p'.pollerAt? i j = p.pollerAt? i j := by
  cases h with
  | stop hsame | join hsame => rw [pollerAt?, hsame, pollerAt?]
  | @quit k x l q _ hl hq hgoing hset =>
    rw [pollerAt?_of_set hset hl]
    split
    · rename_i hik
      -- it is in the lane of the poller that ends, but in another place
      have hjx : x ≠ j := by
        rintro rfl
        exact hm (by rw [hik]; rfl)
      rw [pollerAt?, hik, hl, Option.bind_some, List.getElem?_set_ne hjx]
    · rfl
  | drop hl _ hset | wrote _ hl _ hset =>
    rw [pollerAt?_eq, pollerAt?_eq, look_of_set hset hl rfl]

/-- A move of its own ends it. -/
theorem Closes.poller_self (h : Closes p m p') (hm : m.task? = some (.poller i j)) :
    ∃ q, p.pollerAt? i j = some q ∧ q.isEnded = false ∧ p'.pollerAt? i j = some q.cancelled := by
  cases h with
  | stop | join | drop | wrote => cases hm
  | @quit i j l q _ hl hq hgoing hset =>
    cases hm
    refine ⟨q, by rw [pollerAt?, hl, Option.bind_some, hq], hgoing, ?_⟩
    rw [pollerAt?_of_set hset hl, if_pos rfl]
    exact List.getElem?_set_self (List.getElem?_eq_some_iff.mp hq).1

theorem Closes.streamer_other (h : Closes p m p') (hm : m.task? ≠ some (.streamer i)) :
    p'.streamerAt? i = p.streamerAt? i := by
  cases h with
  | stop hsame | join hsame => rw [streamerAt?, hsame, streamerAt?]
  | quit hl _ _ hset => exact look_of_set hset hl rfl
  | drop hl _ hset | wrote _ hl _ hset =>
    rw [streamerAt?_of_set hset hl, if_neg]
    rintro rfl
    exact hm rfl

theorem Closes.streamer_self (h : Closes p m p') (hm : m.task? = some (.streamer i)) :
    ∃ s s', p.streamerAt? i = some s ∧ p'.streamerAt? i = some s' ∧ s.Closes s' := by
  cases h with
  | stop | join | quit => cases hm
  | drop hl hfilling hset =>
    cases hm
    refine ⟨_, _, by rw [streamerAt?, hl, Option.map_some], ?_, .dropped hfilling⟩
    rw [streamerAt?_of_set hset hl, if_pos rfl]
  | wrote result hl hwriting hset =>
    cases hm
    refine ⟨_, _, by rw [streamerAt?, hl, Option.map_some], ?_, .answered result hwriting⟩
    rw [streamerAt?_of_set hset hl, if_pos rfl]

theorem Closes.channel (h : Closes p m p') (i : Nat) : p'.channelAt? i = p.channelAt? i := by
  cases h with
  | stop hsame | join hsame => rw [channelAt?, hsame, channelAt?]
  | quit hl _ _ hset | drop hl _ hset | wrote _ hl _ hset => exact look_of_set hset hl rfl

/-- Where nothing changes, nothing begins. -/
theorem not_begins_self (p : Pipeline) : ¬ p.Begins p := by
  rintro (⟨hq, hasking, hnew⟩ | ⟨hchannel, hnew⟩ | ⟨hs, hwriting, hnew⟩)
  · exact hnew _ hq hasking
  · exact hnew _ hchannel (List.suffix_refl _)
  · exact hnew _ hs hwriting

theorem Closes.not_begins (h : Closes p m p') : ¬ p.Begins p' := by
  rintro (@⟨i, j, q, hq, hasking, hnew⟩ | ⟨hchannel, hnew⟩ | @⟨i, s, rows, isLast, hs, hwriting, hnew⟩)
  · by_cases hm : m.task? = some (.poller i j)
    · obtain ⟨before, -, -, hended⟩ := h.poller_self hm
      rw [hq] at hended
      cases hended
      cases hasking
    · exact hnew q (h.poller_other hm ▸ hq) hasking
  · rw [h.channel] at hchannel
    exact hnew _ hchannel (List.suffix_refl _)
  · by_cases hm : m.task? = some (.streamer i)
    · obtain ⟨before, s', -, hs', hcloses⟩ := h.streamer_self hm
      obtain rfl : s = s' := Option.some.inj (hs.symm.trans hs')
      cases hcloses with
      | dropped => cases hwriting
      | answered result _ => exact Streamer.answered_phase_ne _ _ _ _ _ _ hwriting
    · exact hnew s (h.streamer_other hm ▸ hs) hwriting

/-! ## What each task does next -/

section Next
variable {q : Poller} {s : Streamer} {rows : List Row} {isLast : Bool}

theorem quit_possible (hending : p.isEnding = true) (hq : p.pollerAt? i j = some q)
    (hgoing : q.isEnded = false) : (p.step? (.quit i j)).isSome := by
  obtain ⟨l, hl, hj⟩ := Option.bind_eq_some_iff.mp hq
  cases hphase : q.phase with
  | ended reason => exact absurd hphase (Poller.phase_ne_ended hgoing reason)
  | _ => simp [step?, movePoller?, hl, hj, pollSignal?, hphase, hending]

theorem drop_possible (hending : p.isEnding = true) (hs : p.streamerAt? i = some s)
    (hfilling : s.phase = .filling) : (p.step? (.drop i)).isSome := by
  obtain ⟨l, hl, rfl⟩ := Option.map_eq_some_iff.mp hs
  simp [step?, moveStreamer?, hl, Lane.isFilling, hfilling, hending]

theorem wrote_possible (hs : p.streamerAt? i = some s) (hwriting : s.phase = .writing rows isLast)
    (result : Except StoreError Unit) : ∃ p', p.step? (.wrote i result) = some p' ∧
      p'.streamerAt? i = some (s.answered rows isLast result) := by
  obtain ⟨l, hl, rfl⟩ := Option.map_eq_some_iff.mp hs
  have hopen : l.isOpen = true ∧ l.isFilling = false := by
    simp [Lane.isOpen, Lane.isFilling, Streamer.end?, hwriting]
  refine ⟨p.tellStreamer i l (.wrote result), by simp [step?, moveStreamer?, hl, hopen], ?_⟩
  have hset : (p.tellStreamer i l (.wrote result)).lanes =
      p.lanes.set i { l with streamer := l.streamer.step (.wrote result) } := rfl
  rw [streamerAt?_of_set hset hl, if_pos rfl, Streamer.step_wrote_eq hwriting]

theorem Closes.of_waiting (h : Closes p m p') (hm : m.task? = some (.streamer i))
    (hs : p.streamerAt? i = some s) (hfilling : s.phase = .filling) :
    p'.streamerAt? i = some s.cancelled := by
  obtain ⟨before, s', hbefore, hs', hcloses⟩ := h.streamer_self hm
  obtain rfl : s = before := Option.some.inj (hs.symm.trans hbefore)
  cases hcloses with
  | dropped => exact hs'
  | answered _ hwriting =>
    rw [hfilling] at hwriting
    cases hwriting

/-- Nothing but the answer of the store comes to a streamer that writes. -/
theorem Closes.of_writing (h : Closes p m p') (hm : m.task? = some (.streamer i))
    (hs : p.streamerAt? i = some s) (hwriting : s.phase = .writing rows isLast) :
    ∃ result, m = .wrote i result := by
  cases h with
  | stop | join | quit => cases hm
  | wrote result => exact ⟨result, by cases hm; rfl⟩
  | drop hl hfilling =>
    cases hm
    rw [streamerAt?, hl, Option.map_some, Option.some.injEq] at hs
    rw [hs, hwriting] at hfilling
    cases hfilling

end Next
end Closes
end Pipeline

/-! ## Last writes -/

/-- A streamer that writes its last rows, or has done so, has no record before it and none to come. -/
def Lane.Drained (l : Lane) : Prop := Stream.IsFinal l.streamer.phase → l.isDone = true

namespace Lane

variable {l l' : Lane} {m : PipelineMove} {ending : Bool} {ends : List (Option IngestError)}

theorem Drained.turn (h : l.Drained) (hturn : l.Turn ending m l' ends)
    (hgoing : ∀ j q, m.poller? = some j → l.pollers[j]? = some q → q.isEnded = false) :
    l'.Drained := by
  cases hturn with
  | @poll j q m g hj hq hpolls =>
    intro hfinal
    -- a poller that makes a move has not ended
    have hdone := h hfinal
    simp only [isDone, Bool.and_eq_true, List.all_eq_true] at hdone
    have hended := hdone.2 q (List.mem_of_getElem? hq)
    rw [hgoing j q hj hq] at hended
    cases hended
  | @stream m g channel hfeeds =>
    unfold Drained
    cases hfeeds with
    | row i now hfilling hchannel =>
      simp only [Streamer.step_row hfilling]
      split <;> simp [Streamer.flush, Streamer.take, hfilling, Stream.IsFinal]
    | expired i hfilling =>
      simp only [Streamer.step_expired hfilling]
      split <;> simp [Streamer.flush, hfilling, Stream.IsFinal]
    | closed i hfilling hdone => exact fun _ => hdone
    | @wrote i rows isLast result hwriting =>
      cases result with
      | error e =>
        simp only [Streamer.step_refused hwriting]
        exact fun hfinal => hfinal.elim
      | ok _ =>
        simp only [Streamer.step_wrote hwriting]
        cases isLast with
        | true => exact fun _ => h (by simp [hwriting, Stream.IsFinal])
        | false => exact fun hfinal => hfinal.elim
    | cancelled i hfilling hending =>
      simp only [Streamer.step_cancelled hfilling]
      exact fun hfinal => hfinal.elim

end Lane

namespace Schedule

variable {c : PipelineConfig} (σ : Schedule c) {n m i j : Nat}

/-- Before a last write the channel was found closed. -/
theorem drained (n : Nat) : ∀ l ∈ (σ.state n).lanes, l.Drained := by
  refine σ.kept (P := fun p => ∀ l ∈ p.lanes, l.Drained) (fun p p' move hstep h => ?_)
    (Nat.zero_le n) ?_
  · cases Pipeline.step_turn hstep with
    | stop | join => exact h
    | @lane i _ l l' ends hm hl hlane =>
      intro x hx
      rcases List.mem_or_eq_of_mem_set hx with hx | rfl
      · exact h x hx
      · exact (h l (List.mem_of_getElem? hl)).turn hlane fun j q hj hq =>
          Pipeline.step_going hstep hm hj hl hq
  · rw [σ.start]
    intro l hl
    obtain ⟨g, -, rfl⟩ := List.mem_map.mp hl
    exact fun hfinal => hfinal.elim

/-! ## The fates of the tasks -/

variable {σ} (hending : (σ.state n).isEnding = true)

include hending

/-- Under a fair schedule all tasks end. -/
theorem Fair.all_end (hfair : σ.Fair) : ∃ m ≥ n,
    (∀ i j q, (σ.state m).pollerAt? i j = some q → q.isEnded) ∧
      ∀ i s, (σ.state m).streamerAt? i = some s → s.end?.isSome := by
  obtain ⟨m, hm, hjoined⟩ := hfair.returns hending
  have hended := Pipeline.all_ended ((σ.tallied m).all_joined.mp hjoined).1
  refine ⟨m, hm, fun i j q hq => ?_, fun i s hs => ?_⟩
  · obtain ⟨l, hl, hj⟩ := Option.bind_eq_some_iff.mp hq
    exact (hended l (List.mem_of_getElem? hl)).2 q (List.mem_of_getElem? hj)
  · obtain ⟨l, hl, rfl⟩ := Option.map_eq_some_iff.mp hs
    exact (hended l (List.mem_of_getElem? hl)).1

variable (hnm : n ≤ m)

include hnm

/-- From the time at which all tasks are to end, each point of time leaves the pipeline as it is, or
closes something. -/
theorem closes_cases : σ.state (m + 1) = σ.state m ∨
    ∃ move, (σ.state m).Closes move (σ.state (m + 1)) := by
  rcases σ.next_cases m with ⟨-, hsame⟩ | ⟨move, -, hstep⟩
  · exact .inl hsame
  · exact .inr ⟨move, Pipeline.step_closes hstep (σ.isEnding_of_le hnm hending)⟩

theorem quiet : ¬ (σ.state m).Begins (σ.state (m + 1)) := by
  rcases closes_cases hending hnm with hsame | ⟨move, hcloses⟩
  · rw [hsame]
    exact Pipeline.not_begins_self _
  · exact hcloses.not_begins

theorem channel_kept : (σ.state m).channelAt? i = (σ.state n).channelAt? i := by
  induction m, hnm using Nat.le_induction with
  | base => rfl
  | succ m hnm ih =>
    rcases closes_cases hending hnm with hsame | ⟨move, hcloses⟩
    · rw [hsame, ih]
    · rw [hcloses.channel, ih]

theorem poller_fate {q : Poller} (hq : (σ.state n).pollerAt? i j = some q) :
    ∃ q', (σ.state m).pollerAt? i j = some q' ∧ q.Fate q' := by
  induction m, hnm using Nat.le_induction with
  | base => exact ⟨q, hq, .waits⟩
  | succ m hnm ih =>
    obtain ⟨q', hq', hfate⟩ := ih
    rcases closes_cases hending hnm with hsame | ⟨move, hcloses⟩
    · exact ⟨q', hsame ▸ hq', hfate⟩
    · by_cases hmove : move.task? = some (.poller i j)
      · obtain ⟨before, hbefore, hgoing, hended⟩ := hcloses.poller_self hmove
        obtain rfl : q' = before := Option.some.inj (hq'.symm.trans hbefore)
        -- a poller ends only once
        cases hfate with
        | waits => exact ⟨_, hended, .cancelled hgoing⟩
        | cancelled => cases hgoing
      · exact ⟨q', (hcloses.poller_other hmove).trans hq', hfate⟩

theorem streamer_fate {s : Streamer} (hs : (σ.state n).streamerAt? i = some s) :
    ∃ s', (σ.state m).streamerAt? i = some s' ∧ s.Fate s' := by
  induction m, hnm using Nat.le_induction with
  | base => exact ⟨s, hs, .waits⟩
  | succ m hnm ih =>
    obtain ⟨s', hs', hfate⟩ := ih
    rcases closes_cases hending hnm with hsame | ⟨move, hcloses⟩
    · exact ⟨s', hsame ▸ hs', hfate⟩
    · by_cases hmove : move.task? = some (.streamer i)
      · obtain ⟨before, after, hbefore, hafter, hnext⟩ := hcloses.streamer_self hmove
        obtain rfl : s' = before := Option.some.inj (hs'.symm.trans hbefore)
        exact ⟨after, hafter, hfate.closes hnext⟩
      · exact ⟨s', (hcloses.streamer_other hmove).trans hs', hfate⟩

end Schedule

/-- From a point of time on a pipeline does nothing but come to its end. -/
structure Schedule.WindsDown {c : PipelineConfig} (σ : Schedule c) (n : Nat) : Prop where
  ending : ∀ m ≥ n, (σ.state m).isEnding
  /-- Nothing is possible but that the caller stops it, that tasks end or are joined, and that the store
  answers. -/
  moves : ∀ m ≥ n, ∀ move, ((σ.state m).step? move).isSome → move = .stop ∨ move.duty?.isSome
  /-- No query, no record and no write begins. -/
  quiet : ∀ m ≥ n, ¬ (σ.state m).Begins (σ.state (m + 1))
  channels : ∀ m ≥ n, ∀ i, (σ.state m).channelAt? i = (σ.state n).channelAt? i
  /-- A poller that goes on can do nothing but end. -/
  poller : ∀ m ≥ n, ∀ i j q, (σ.state m).pollerAt? i j = some q → q.isEnded = false →
    ((σ.state m).step? (.quit i j)).isSome ∧
      ∀ move p', move.task? = some (.poller i j) → (σ.state m).step? move = some p' →
        p'.pollerAt? i j = some q.cancelled
  /-- Neither can a streamer that waits, whatever is in its batch and its channel. -/
  waiting : ∀ m ≥ n, ∀ i s, (σ.state m).streamerAt? i = some s → s.phase = .filling →
    ((σ.state m).step? (.drop i)).isSome ∧
      ∀ move p', move.task? = some (.streamer i) → (σ.state m).step? move = some p' →
        p'.streamerAt? i = some s.cancelled
  /-- A write that is under way is answered first. -/
  writing : ∀ m ≥ n, ∀ i s rows isLast, (σ.state m).streamerAt? i = some s →
    s.phase = .writing rows isLast →
    (∀ result, ∃ p', (σ.state m).step? (.wrote i result) = some p' ∧
      p'.streamerAt? i = some (s.answered rows isLast result)) ∧
      ∀ move p', move.task? = some (.streamer i) → (σ.state m).step? move = some p' →
        ∃ result, move = .wrote i result
  /-- The last write is that of a channel that is empty, and into which nobody sends any more. -/
  last : ∀ m ≥ n, ∀ i s rows, (σ.state m).streamerAt? i = some s → s.phase = .writing rows true →
    (σ.state m).channelAt? i = some [] ∧
      ∀ j q, (σ.state m).pollerAt? i j = some q → q.isEnded
  pollers : ∀ m ≥ n, ∀ i j q, (σ.state n).pollerAt? i j = some q →
    ∃ q', (σ.state m).pollerAt? i j = some q' ∧ q.Fate q'
  streamers : ∀ m ≥ n, ∀ i s, (σ.state n).streamerAt? i = some s →
    ∃ s', (σ.state m).streamerAt? i = some s' ∧ s.Fate s'
  ends : σ.Fair → ∃ m ≥ n,
    (∀ i j q, (σ.state m).pollerAt? i j = some q → q.isEnded) ∧
      ∀ i s, (σ.state m).streamerAt? i = some s → s.end?.isSome

/-- Once all tasks of a pipeline are to end, nothing begins any more under any schedule, what is under
way is finished, and all else ends. -/
theorem pipeline_winds_down {c : PipelineConfig} (σ : Schedule c) {n : Nat}
    (hending : (σ.state n).isEnding = true) : σ.WindsDown n := by
  have hlater : ∀ m ≥ n, (σ.state m).isEnding = true := fun m hm => σ.isEnding_of_le hm hending
  exact {
    ending := hlater
    moves := by
      intro m hm move hpossible
      obtain ⟨p', hstep⟩ := Option.isSome_iff_exists.mp hpossible
      exact Pipeline.duty_of_ending hstep (hlater m hm)
    quiet := fun _ hm => Schedule.quiet hending hm
    channels := fun _ hm _ => Schedule.channel_kept hending hm
    poller := by
      intro m hm i j q hq hgoing
      refine ⟨Pipeline.quit_possible (hlater m hm) hq hgoing, fun move p' hmove hstep => ?_⟩
      obtain ⟨before, hbefore, -, hended⟩ :=
        (Pipeline.step_closes hstep (hlater m hm)).poller_self hmove
      obtain rfl : q = before := Option.some.inj (hq.symm.trans hbefore)
      exact hended
    waiting := fun m hm i s hs hfilling =>
      ⟨Pipeline.drop_possible (hlater m hm) hs hfilling, fun move p' hmove hstep =>
        (Pipeline.step_closes hstep (hlater m hm)).of_waiting hmove hs hfilling⟩
    writing := fun m hm i s rows isLast hs hwriting =>
      ⟨Pipeline.wrote_possible hs hwriting, fun move p' hmove hstep =>
        (Pipeline.step_closes hstep (hlater m hm)).of_writing hmove hs hwriting⟩
    last := by
      intro m _ i s rows hs hwriting
      obtain ⟨l, hl, rfl⟩ := Option.map_eq_some_iff.mp hs
      have hdone := σ.drained m l (List.mem_of_getElem? hl) (by simp [hwriting, Stream.IsFinal])
      simp only [Lane.isDone, Bool.and_eq_true, List.isEmpty_iff, List.all_eq_true] at hdone
      refine ⟨by rw [Pipeline.channelAt?, hl, Option.map_some, hdone.1], fun j q hq => ?_⟩
      rw [Pipeline.pollerAt?, hl, Option.bind_some] at hq
      exact hdone.2 q (List.mem_of_getElem? hq)
    pollers := fun _ hm _ _ _ => Schedule.poller_fate hending hm
    streamers := fun _ hm _ _ => Schedule.streamer_fate hending hm
    ends := fun hfair => Schedule.Fair.all_end hending hfair }

/-- The caller stops a pipeline while a record is written. -/
theorem pipeline_winds_down_writing :
    ∃ σ : Schedule Ingestion.nodeCountConfig, σ.Fair ∧ (σ.state 5).isEnding = true ∧
      ((σ.state 5).streamerAt? 0).map (fun s => s.underway.length) = some 1 ∧
      ((σ.state 10).streamerAt? 0).map Streamer.written = some 1 ∧
      ((σ.state 10).streamerAt? 0).bind Streamer.end? = some .cancelled ∧ σ.WindsDown 5 := by
  let σ := Schedule.of Ingestion.nodeCountConfig
    [.query 0 0, .answer 0 0 (.ok ⟨.scalar 0 1, []⟩), .send 0 0, .receive 0 0, .stop,
      .wrote 0 (.ok ()), .quit 0 0, .drop 0, .join, .join]
  have hending : (σ.state 5).isEnding = true := by decide +kernel
  have hload : (σ.state 10).load = 0 := by decide +kernel
  have hfair : σ.Fair :=
    Schedule.fair_of_done (σ.isEnding_of_le (by decide : 5 ≤ 10) hending) hload
  exact ⟨σ, hfair, hending, by decide +kernel, by decide +kernel, by decide +kernel,
    pipeline_winds_down σ hending⟩

end KubeLedger
