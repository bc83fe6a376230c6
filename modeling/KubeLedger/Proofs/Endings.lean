import Mathlib.Algebra.GroupWithZero.Nat
import Mathlib.Data.List.Perm.Basic
import KubeLedger.Proofs.Lanes
import KubeLedger.Proofs.Streams

/- How the tasks of a pipeline end. A task ends with a failure, or it is cancelled, or it finds its
   channel closed; only failures are reported. So it has to be shown that an end that is not reported
   has a cause that is: a poller is cancelled only in a pipeline that is ending or by a streamer that
   failed, and a streamer sees the end of its channel only after all its pollers (`Lane.Explained`).

   The ends are counted as well. Those that were joined, in their order, and those that wait to be
   joined are the ends of the tasks, each of them once, and the failure of the pipeline is the first
   that was joined (`Pipeline.Tallied`). -/
namespace KubeLedger

def Lane.ends (l : Lane) : List (Option IngestError) :=
  (l.streamer.end?.map Pipeline.streamFailure).toList ++
    l.pollers.flatMap fun p => (p.end?.map Pipeline.pollFailure).toList

namespace Pipeline

def ends (p : Pipeline) : List (Option IngestError) := p.lanes.flatMap Lane.ends

def joinedBy (p : Pipeline) : PipelineMove → List (Option IngestError)
  | .join => p.unjoined.head?.toList
  | _ => []

end Pipeline

/-! ## Ends that have a cause -/

/-- The ends of the tasks of a lane that are no failures have a cause. -/
structure Lane.Explained (ending : Bool) (l : Lane) : Prop where
  drained : Stream.IsFinal l.streamer.phase → ∀ p ∈ l.pollers, p.isEnded
  dropped : l.streamer.phase = .ended .cancelled → ending = true
  quit : ∀ p ∈ l.pollers, p.phase = .ended .cancelled →
    ending = true ∨ ∃ e, l.streamer.phase = .ended (.failed e)

namespace Lane

variable {ending : Bool} {l l' : Lane} {m : PipelineMove} {ends : List (Option IngestError)}

theorem explained_start (c : PipelineConfig) (g : Granularity) :
    Explained false (start c g) where
  drained := fun h => h.elim
  dropped := fun h => nomatch h
  quit := by
    intro p hp hphase
    obtain ⟨q, -, rfl⟩ := List.mem_map.mp hp
    cases hphase

/-- The cause of an end stays. -/
theorem Explained.mono {ending' : Bool} (h : Explained ending l)
    (hending : ending = true → ending' = true) : Explained ending' l where
  drained := h.drained
  dropped := fun hphase => hending (h.dropped hphase)
  quit := fun p hp hphase => (h.quit p hp hphase).imp_left hending

/-- A poller that goes on finds its channel closed only if the streamer failed, or all are to end. -/
theorem Explained.closed (h : Explained ending l) {p : Poller} (hp : p ∈ l.pollers)
    (hgoing : p.isEnded = false) (hclosed : l.isOpen = false) :
    ending = true ∨ ∃ e, l.streamer.phase = .ended (.failed e) := by
  unfold isOpen Streamer.end? at hclosed
  cases hphase : l.streamer.phase with
  | filling => simp [hphase] at hclosed
  | writing rows isLast => simp [hphase] at hclosed
  | ended result =>
    cases result with
    | finished n =>
      have hended := h.drained (by rw [hphase]; trivial) p hp
      rw [hgoing] at hended
      cases hended
    | failed e => exact .inr ⟨e, rfl⟩
    | cancelled => exact .inl (h.dropped hphase)

/-- A signal cancels a poller only if its channel is closed, or all are to end. -/
theorem Polls.cancelled_cause {p : Poller} {g : PollSignal} (h : Polls ending l p m g)
    (hphase : (p.step g).phase = .ended .cancelled) :
    l.isOpen = false ∨ ending = true := by
  cases h with
  | asked i j hready | rested i j hready => simp [Poller.step, hready] at hphase
  | answered i j a hasking =>
    cases a with
    | error e => simp [Poller.step, hasking] at hphase
    | ok a =>
      rw [Poller.step_answered hasking] at hphase
      cases hrecords : p.records? a with
      | none => simp [hrecords, Poller.received] at hphase
      | some records =>
        have hended := Poller.isEnded_handOn (p := p) records
        simp only [hrecords, Poller.received] at hphase
        simp [Poller.isEnded, Poller.end?, hphase] at hended
  | @sent i j r rest hsending _ =>
    have hstep : p.step .sent = { p with phase := Poller.handOn rest } := by
      simp [Poller.step, hsending]
    have hended : (p.step .sent).isEnded := by simp [Poller.isEnded, Poller.end?, hphase]
    rw [hstep, Poller.isEnded_handOn] at hended
    cases hended
  | closed i j hclosed => exact .inl hclosed
  | cancelled i j hending => exact .inr hending

theorem Explained.turn (h : Explained ending l) (hturn : l.Turn ending m l' ends)
    (hgoing : ∀ j p, m.poller? = some j → l.pollers[j]? = some p → p.isEnded = false) :
    Explained ending l' := by
  cases hturn with
  | @poll j p m g hj hp hpolls =>
    have hmem := List.mem_of_getElem? hp
    have hfirst := hgoing j p hj hp
    refine ⟨fun hfinal => ?_, h.dropped, fun q hq hphase => ?_⟩
    · -- a streamer that drains has outlived all pollers, this one too
      have hended := h.drained hfinal p hmem
      rw [hfirst] at hended
      cases hended
    · rcases List.mem_or_eq_of_mem_set hq with hq | rfl
      · exact h.quit q hq hphase
      · rcases hpolls.cancelled_cause hphase with hclosed | hending
        · exact h.closed hmem hfirst hclosed
        · exact .inl hending
  | @stream m g channel hfeeds =>
    have hquit : ∀ p ∈ l.pollers, p.phase = .ended .cancelled →
        (∀ e, l.streamer.phase ≠ .ended (.failed e)) → ending = true := by
      intro p hp hphase hunfailed
      exact (h.quit p hp hphase).resolve_right fun hfailed => hfailed.elim hunfailed
    cases hfeeds with
    | row i now hfilling hchannel =>
      refine ⟨?_, ?_, fun p hp hphase => .inl (hquit p hp hphase (by simp [hfilling]))⟩
      all_goals
        simp only [Streamer.step_row hfilling]
        split <;> simp [Streamer.flush, Streamer.take, hfilling, Stream.IsFinal]
    | expired i hfilling =>
      refine ⟨?_, ?_, fun p hp hphase => .inl (hquit p hp hphase (by simp [hfilling]))⟩
      all_goals
        simp only [Streamer.step_expired hfilling]
        split <;> simp [Streamer.flush, hfilling, Stream.IsFinal]
    | closed i hfilling hdone =>
      simp only [isDone, Bool.and_eq_true, List.all_eq_true] at hdone
      refine ⟨fun _ => hdone.2, ?_, fun p hp hphase => .inl (hquit p hp hphase (by simp [hfilling]))⟩
      simp only [Streamer.step_closed hfilling]
      split <;> simp [Streamer.flush]
    | @wrote i rows isLast result hwriting =>
      have hcause := fun p hp hphase => hquit p hp hphase (by simp [hwriting])
      cases result with
      | error e =>
        simp only [Streamer.step_refused hwriting]
        refine ⟨fun hfinal => hfinal.elim, fun hdropped => ?_, fun p hp hphase =>
          .inl (hcause p hp hphase)⟩
        cases hdropped
      | ok _ =>
        simp only [Streamer.step_wrote hwriting]
        refine ⟨fun hfinal => h.drained ?_, ?_, fun p hp hphase => .inl (hcause p hp hphase)⟩
        · cases isLast with
          | true => simp [hwriting, Stream.IsFinal]
          | false => exact hfinal.elim
        · cases isLast <;> simp
    | cancelled i hfilling hending =>
      simp only [Streamer.step_cancelled hfilling]
      exact ⟨fun hfinal => hfinal.elim, fun _ => hending, fun _ _ _ => .inl hending⟩

end Lane

/-! ## A count of the ends -/

/-- The image of a list grows by what that of one entry grows by. -/
theorem flatMap_set_perm {α β : Type} {f : α → List β} {xs : List α} {i : Nat} {a b : α}
    {more : List β} (h : xs[i]? = some a) (hf : (f b).Perm (f a ++ more)) :
    ((xs.set i b).flatMap f).Perm (xs.flatMap f ++ more) := by
  induction xs generalizing i with
  | nil => cases h
  | cons x rest ih =>
    cases i with
    | zero =>
      obtain rfl : x = a := by simpa using h
      simp only [List.set_cons_zero, List.flatMap_cons, List.append_assoc]
      refine (hf.append_right _).trans ?_
      rw [List.append_assoc]
      exact (List.perm_append_comm).append_left _
    | succ i =>
      simp only [List.set_cons_succ, List.flatMap_cons, List.append_assoc]
      exact (ih (by simpa using h)).append_left _

namespace Pipeline

variable {p p' : Pipeline} {m : PipelineMove} {joins : List (Option IngestError)}

theorem step_going {i j : Nat} {l : Lane} {q : Poller} (h : p.step? m = some p')
    (hm : m.lane? = some i) (hj : m.poller? = some j) (hl : p.lanes[i]? = some l)
    (hq : l.pollers[j]? = some q) : q.isEnded = false := by
  have hmove : p.movePoller? i j m = some p' := by
    cases m <;> cases hm <;> cases hj <;> exact h
  simp only [movePoller?, hl, hq, Option.bind_eq_bind, Option.bind_some, Option.bind_eq_some_iff]
    at hmove
  obtain ⟨g, hg, -⟩ := hmove
  by_contra hended
  unfold Poller.isEnded Poller.end? at hended
  cases hphase : q.phase with
  | ended reason => cases m <;> simp [pollSignal?, hphase] at hg
  | _ => simp [hphase] at hended

theorem joinedBy_lane {i : Nat} (hm : m.lane? = some i) : p.joinedBy m = [] := by
  cases m with
  | join => cases hm
  | _ => rfl

/-- The queue of the ends to be joined grows only at its end. -/
theorem Turn.queued (hturn : p.Turn m p') : p.unjoined <+: p.joinedBy m ++ p'.unjoined := by
  cases hturn with
  | stop => exact List.prefix_refl _
  | @join e rest hunjoined =>
    have hqueue : p.joinedBy .join ++ rest = p.unjoined := by simp [joinedBy, hunjoined]
    exact hqueue ▸ List.prefix_refl _
  | lane hm _ _ =>
    rw [joinedBy_lane hm, List.nil_append]
    exact List.prefix_append _ _

theorem Turn.isEnding (hturn : p.Turn m p') (h : p.isEnding = true) : p'.isEnding = true := by
  cases hturn with
  | stop => rfl
  | @join e rest _ =>
    simp only [Pipeline.isEnding, Bool.or_eq_true, Option.isSome_iff_exists] at h ⊢
    refine h.imp_right (Exists.imp fun e' he' => ?_)
    rw [he', Option.some_or]
  | lane _ _ _ => exact h

theorem lane_ends {ending : Bool} {l l' : Lane} {ends : List (Option IngestError)}
    (hturn : l.Turn ending m l' ends)
    (hgoing : ∀ j q, m.poller? = some j → l.pollers[j]? = some q → q.isEnded = false) :
    l'.ends.Perm (l.ends ++ ends) := by
  cases hturn with
  | @poll j q m g hj hq hpolls =>
    have hfirst : q.end? = none := by
      simpa [Poller.isEnded] using hgoing j q hj hq
    unfold Lane.ends
    rw [List.append_assoc]
    exact (flatMap_set_perm hq (by simp [hfirst])).append_left _
  | @stream m g channel hfeeds =>
    have hfirst : l.streamer.end? = none := by
      cases hfeeds with
      | row _ _ hphase _ | expired _ hphase | closed _ hphase _ | wrote _ _ hphase
      | cancelled _ hphase _ => simp [Streamer.end?, hphase]
    unfold Lane.ends
    simp only [hfirst, Option.map_none, Option.toList_none, List.nil_append]
    exact List.perm_append_comm

/-- What was joined, and what is to be joined, against the ends of the tasks. -/
structure Tallied (joins : List (Option IngestError)) (p : Pipeline) : Prop where
  tally : (joins ++ p.unjoined).Perm p.ends
  joined : p.joined = joins.length
  first : p.failure = joins.findSome? id
  peopled : ∀ l ∈ p.lanes, l.pollers ≠ []
  lively : p.Calm → p.Lively
  explained : ∀ l ∈ p.lanes, l.Explained p.isEnding

theorem tallied_start (c : PipelineConfig) : Tallied [] (start c) where
  tally := by
    have hnone : (start c).ends = [] := by
      refine List.flatMap_eq_nil_iff.mpr fun l hl => ?_
      obtain ⟨g, -, rfl⟩ := List.mem_map.mp hl
      simp [Lane.ends, Lane.start, Streamer.end?, Poller.end?]
    rw [hnone]
    exact List.Perm.refl _
  joined := rfl
  first := rfl
  peopled := by
    intro l hl
    obtain ⟨g, hg, rfl⟩ := List.mem_map.mp hl
    simpa [Lane.start] using (List.mem_filter.mp hg).2
  lively := by
    intro _ l hl
    obtain ⟨g, hg, rfl⟩ := List.mem_map.mp hl
    exact ⟨Lane.lively_start c g, by simpa [Lane.start] using (List.mem_filter.mp hg).2⟩
  explained := by
    intro l hl
    obtain ⟨g, -, rfl⟩ := List.mem_map.mp hl
    exact Lane.explained_start c g

theorem findSome?_snoc (joins : List (Option IngestError)) (e : Option IngestError) :
    (joins ++ [e]).findSome? id = (joins.findSome? id).or e := by
  rw [List.findSome?_append]
  cases e <;> rfl

/-- Every move keeps the count. -/
theorem Tallied.step (h : Tallied joins p) (hstep : p.step? m = some p') :
    Tallied (joins ++ p.joinedBy m) p' := by
  have hturn := step_turn hstep
  have hlively := hturn.lively h.lively
  cases hturn with
  | stop =>
    have hnone : p.joinedBy .stop = [] := rfl
    rw [hnone, List.append_nil]
    exact { h with
      lively := hlively
      explained := fun l hl => (h.explained l hl).mono fun _ => rfl }
  | @join e rest hunjoined =>
    have hjoined : p.joinedBy .join = [e] := by simp [joinedBy, hunjoined]
    rw [hjoined]
    refine ⟨?_, ?_, ?_, h.peopled, hlively, fun l hl =>
      (h.explained l hl).mono (Turn.join hunjoined).isEnding⟩
    · have hsame : joins ++ [e] ++ rest = joins ++ p.unjoined := by simp [hunjoined]
      exact (List.Perm.of_eq hsame).trans h.tally
    · simp [h.joined]
    · rw [findSome?_snoc, ← h.first]
  | @lane i m l l' ends hm hl hlane =>
    have hgoing := fun j q hj hq => step_going (j := j) (q := q) hstep hm hj hl hq
    have hmem := List.mem_of_getElem? hl
    rw [joinedBy_lane hm, List.append_nil]
    refine ⟨?_, h.joined, h.first, fun x hx => ?_, hlively, fun x hx => ?_⟩
    · have hends : ((p.lanes.set i l').flatMap Lane.ends).Perm (p.ends ++ ends) :=
        flatMap_set_perm hl (lane_ends hlane hgoing)
      have htally := (h.tally.append_right ends).trans hends.symm
      rwa [List.append_assoc] at htally
    · rcases List.mem_or_eq_of_mem_set hx with hx | rfl
      · exact h.peopled x hx
      · cases hlane with
        | poll => simpa using h.peopled l hmem
        | stream => exact h.peopled l hmem
    · rcases List.mem_or_eq_of_mem_set hx with hx | rfl
      · exact h.explained x hx
      · exact (h.explained l hmem).turn hlane hgoing

end Pipeline

/-! ## The tasks that go on -/

def Lane.going (l : Lane) : Nat :=
  (if l.isOpen then 1 else 0) + l.pollers.countP fun p => !p.isEnded

def Lane.writes (l : Lane) : Nat :=
  match l.streamer.phase with
  | .writing _ _ => 1
  | _ => 0

namespace Lane

theorem ends_going (l : Lane) : l.ends.length + l.going = l.taskCount := by
  have hstreamer : (l.streamer.end?.map Pipeline.streamFailure).toList.length +
      (if l.isOpen then 1 else 0) = 1 := by
    unfold isOpen
    cases l.streamer.end? <;> rfl
  have hpollers : ∀ ps : List Poller,
      (ps.flatMap fun p => (p.end?.map Pipeline.pollFailure).toList).length +
        ps.countP (fun p => !p.isEnded) = ps.length := by
    intro ps
    induction ps with
    | nil => rfl
    | cons p rest ih =>
      have hfirst : (p.end?.map Pipeline.pollFailure).toList.length +
          (if (!p.isEnded) = true then 1 else 0) = 1 := by
        unfold Poller.isEnded
        cases p.end? <;> rfl
      simp only [List.flatMap_cons, List.length_append, List.countP_cons, List.length_cons]
      omega
  have htasks := hpollers l.pollers
  simp only [ends, going, taskCount, List.length_append]
  omega

theorem going_eq_zero {l : Lane} (h : l.going = 0) :
    l.streamer.end?.isSome ∧ ∀ p ∈ l.pollers, p.isEnded := by
  unfold going isOpen at h
  obtain ⟨hstreamer, hpollers⟩ := Nat.add_eq_zero_iff.mp h
  refine ⟨?_, fun p hp => by simpa using List.countP_eq_zero.mp hpollers p hp⟩
  cases hend : l.streamer.end? with
  | none => simp [hend] at hstreamer
  | some _ => rfl

end Lane

namespace Pipeline

/-- The number of tasks that have not ended. -/
def going (p : Pipeline) : Nat := (p.lanes.map Lane.going).sum

theorem ends_going (p : Pipeline) : p.ends.length + p.going = p.taskCount := by
  unfold ends going taskCount
  induction p.lanes with
  | nil => rfl
  | cons l rest ih =>
    have hlane := l.ends_going
    simp only [List.flatMap_cons, List.length_append, List.map_cons, List.sum_cons,
      List.foldr_cons]
    omega

theorem Turn.taskCount {p p' : Pipeline} {m : PipelineMove} (hturn : p.Turn m p') :
    p'.taskCount = p.taskCount := by
  have hsum : ∀ p : Pipeline, p.taskCount = (p.lanes.map Lane.taskCount).sum := by
    intro p
    simp only [Pipeline.taskCount, List.sum, List.foldr_map]
  cases hturn with
  | stop | join => rfl
  | @lane i _ l l' _ _ hl hlane =>
    have hsame : l'.taskCount = l.taskCount := by
      cases hlane <;> simp [Lane.taskCount]
    rw [hsum, hsum, map_set_same hl hsame]

/-- All tasks are joined once all have ended and none of them waits, and only then. -/
theorem Tallied.all_joined {joins : List (Option IngestError)} {p : Pipeline}
    (h : Tallied joins p) : p.joined = p.taskCount ↔ p.going = 0 ∧ p.unjoined = [] := by
  have hlength := h.tally.length_eq
  have htasks := p.ends_going
  have hjoined := h.joined
  rw [List.length_append] at hlength
  rw [← List.length_eq_zero_iff]
  omega

/-- A pipeline without a task that goes on. -/
theorem all_ended {p : Pipeline} (h : p.going = 0) :
    ∀ l ∈ p.lanes, l.streamer.end?.isSome ∧ ∀ q ∈ l.pollers, q.isEnded := by
  intro l hl
  have hzero := List.sum_eq_zero_iff_forall_eq_nat.mp h
  exact Lane.going_eq_zero (hzero _ (List.mem_map_of_mem hl))

end Pipeline

end KubeLedger
