import Mathlib.Logic.Function.Basic
import KubeLedger.Proofs.Batches
import KubeLedger.Telemetry.Pipeline

/- Accounts of a lane. What a move does to a pipeline is said once (`Pipeline.Turn`): the caller
   stops it, a task is joined, or one lane takes a turn, of a poller or of its streamer
   (`Lane.Turn`). A log collects what went through the lane, and every turn of the lane keeps the two
   in balance (`Lane.Balanced`): what entered the channel is an interleaving of what the pollers
   sent, and what the streamer received, followed by what is in the channel, is what entered.

   As long as a pipeline is calm, neither ending nor with a failed task to join, no task of it has
   ended (`Pipeline.Turn.lively`). -/
namespace KubeLedger

/-- A list is an interleaving of parts: each entry was added to the list and to one part. -/
inductive Interleaves {α : Type} : (Nat → List α) → List α → Prop
  | nil : Interleaves (fun _ => []) []
  | snoc {parts : Nat → List α} {whole : List α} (j : Nat) (a : α) : Interleaves parts whole →
    Interleaves (Function.update parts j (parts j ++ [a])) (whole ++ [a])

/-- What went through a lane. Pollers are named by their place. -/
structure LaneLog where
  entered : List TelemetryRecord := []
  sent : Nat → List TelemetryRecord := fun _ => []
  /-- The records that the answers to each poller made. -/
  answered : Nat → List TelemetryRecord := fun _ => []
  streamer : StreamLog := {}

/-- The records that a poller has still to send; the first of them may be blocked. -/
def Poller.unsent (p : Poller) : List TelemetryRecord :=
  match p.phase with
  | .sending r rest => r :: rest
  | _ => []

def Poller.made (p : Poller) : PipelineMove → List TelemetryRecord
  | .answer _ _ (.ok a) => (p.records? a).getD []
  | _ => []

namespace PipelineMove

def lane? : PipelineMove → Option Nat
  | .stop => none
  | .join => none
  | .query i _ => some i
  | .answer i _ _ => some i
  | .send i _ => some i
  | .rest i _ => some i
  | .quit i _ => some i
  | .receive i _ => some i
  | .expire i => some i
  | .close i => some i
  | .wrote i _ => some i
  | .drop i => some i

def poller? : PipelineMove → Option Nat
  | .query _ j => some j
  | .answer _ j _ => some j
  | .send _ j => some j
  | .rest _ j => some j
  | .quit _ j => some j
  | _ => none

end PipelineMove

def Lane.signal? (l : Lane) : PipelineMove → Option StreamSignal
  | .receive _ now => l.channel.head?.map fun r => .row r.row now
  | .expire _ => some .expired
  | .close _ => some .closed
  | .wrote _ result => some (.wrote result)
  | .drop _ => some .cancelled
  | _ => none

def LaneLog.note (log : LaneLog) (l : Lane) (m : PipelineMove) : LaneLog :=
  match m.poller?.bind fun j => l.pollers[j]?.map fun p => (j, p) with
  | some (j, p) =>
    { log with
      entered := log.entered ++ Pipeline.sent p m
      sent := Function.update log.sent j (log.sent j ++ Pipeline.sent p m)
      answered := Function.update log.answered j (log.answered j ++ p.made m) }
  | none =>
    match l.signal? m with
    | some g => { log with streamer := log.streamer.note l.streamer g }
    | none => log

/-! ## What a move does -/

namespace Lane

/-- The signal that a move gives a poller. -/
inductive Polls (ending : Bool) (l : Lane) (p : Poller) : PipelineMove → PollSignal → Prop
  | asked (i j : Nat) : p.phase = .ready → Polls ending l p (.query i j) .started
  | answered (i j : Nat) (a : Except QueryError QueryAnswer) : p.phase = .asking →
    Polls ending l p (.answer i j a) (.answered a)
  | sent (i j : Nat) {r : TelemetryRecord} {rest : List TelemetryRecord} :
    p.phase = .sending r rest → l.channel.length < l.capacity → Polls ending l p (.send i j) .sent
  | rested (i j : Nat) : p.phase = .resting → Polls ending l p (.rest i j) .rested
  | closed (i j : Nat) : l.isOpen = false → Polls ending l p (.quit i j) .closed
  | cancelled (i j : Nat) : ending = true → Polls ending l p (.quit i j) .cancelled

/-- The signal that a move gives the streamer, and what it leaves in the channel. -/
inductive Feeds (ending : Bool) (l : Lane) :
    PipelineMove → StreamSignal → List TelemetryRecord → Prop
  | row (i now : Nat) {r : TelemetryRecord} {rest : List TelemetryRecord} :
    l.streamer.phase = .filling → l.channel = r :: rest →
    Feeds ending l (.receive i now) (.row r.row now) rest
  | expired (i : Nat) : l.streamer.phase = .filling →
    Feeds ending l (.expire i) .expired l.channel
  | closed (i : Nat) : l.streamer.phase = .filling → l.isDone →
    Feeds ending l (.close i) .closed l.channel
  | wrote (i : Nat) {rows : List Row} {isLast : Bool} (result : Except StoreError Unit) :
    l.streamer.phase = .writing rows isLast →
    Feeds ending l (.wrote i result) (.wrote result) l.channel
  | cancelled (i : Nat) : l.streamer.phase = .filling → ending = true →
    Feeds ending l (.drop i) .cancelled l.channel

/-- A lane after a move in it, and the ends that tasks came to. -/
inductive Turn (ending : Bool) (l : Lane) :
    PipelineMove → Lane → List (Option IngestError) → Prop
  | poll {j : Nat} {p : Poller} {m : PipelineMove} {g : PollSignal} : m.poller? = some j →
    l.pollers[j]? = some p → Polls ending l p m g →
    Turn ending l m
      { l with
        channel := l.channel ++ Pipeline.sent p m
        pollers := l.pollers.set j (p.step g) }
      ((p.step g).end?.map Pipeline.pollFailure).toList
  | stream {m : PipelineMove} {g : StreamSignal} {channel : List TelemetryRecord} :
    Feeds ending l m g channel →
    Turn ending l m { l with channel, streamer := l.streamer.step g }
      ((l.streamer.step g).end?.map Pipeline.streamFailure).toList

theorem phase_of_isFilling {l : Lane} (h : l.isFilling) : l.streamer.phase = .filling := by
  unfold isFilling at h
  split at h
  · assumption
  · cases h

theorem phase_of_isOpen {l : Lane} (hopen : l.isOpen) (hfilling : l.isFilling = false) :
    ∃ rows isLast, l.streamer.phase = .writing rows isLast := by
  unfold isOpen Streamer.end? at hopen
  unfold isFilling at hfilling
  cases hphase : l.streamer.phase with
  | filling => simp [hphase] at hfilling
  | writing rows isLast => exact ⟨rows, isLast, rfl⟩
  | ended => simp [hphase] at hopen

end Lane

namespace Pipeline

/-- What a move does to a pipeline. -/
inductive Turn (p : Pipeline) : PipelineMove → Pipeline → Prop
  | stop : Turn p .stop { p with isStopped := true }
  | join {e : Option IngestError} {rest : List (Option IngestError)} : p.unjoined = e :: rest →
    Turn p .join { p with unjoined := rest, joined := p.joined + 1, failure := p.failure.or e }
  | lane {i : Nat} {m : PipelineMove} {l l' : Lane} {ends : List (Option IngestError)} :
    m.lane? = some i → p.lanes[i]? = some l → l.Turn p.isEnding m l' ends →
    Turn p m { p with lanes := p.lanes.set i l', unjoined := p.unjoined ++ ends }

section Step
variable {p p' : Pipeline} {m : PipelineMove} {l : Lane} {poller : Poller} {g : PollSignal}
  {signal : StreamSignal} {i j now : Nat}

theorem polls_of_signal (hg : p.pollSignal? l poller m = some g) :
    l.Polls p.isEnding poller m g := by
  cases m with
  | query i j =>
    cases hphase : poller.phase <;> simp [pollSignal?, hphase] at hg
    obtain ⟨-, rfl⟩ := hg
    exact .asked i j hphase
  | answer i j a =>
    cases hphase : poller.phase <;> simp [pollSignal?, hphase] at hg
    obtain ⟨-, rfl⟩ := hg
    exact .answered i j a hphase
  | send i j =>
    cases hphase : poller.phase <;> simp [pollSignal?, hphase] at hg
    obtain ⟨⟨-, hroom⟩, rfl⟩ := hg
    exact .sent i j hphase hroom
  | rest i j =>
    cases hphase : poller.phase <;> simp [pollSignal?, hphase] at hg
    obtain ⟨-, rfl⟩ := hg
    exact .rested i j hphase
  | quit i j =>
    by_cases hending : p.isEnding = true
    · cases hphase : poller.phase <;> simp [pollSignal?, hphase, hending] at hg
      all_goals exact hg ▸ .cancelled i j hending
    · cases hphase : poller.phase <;> simp [pollSignal?, hphase, hending] at hg
      obtain ⟨hclosed, rfl⟩ := hg
      exact .closed i j hclosed
  | stop | join | receive | expire | close | wrote | drop => cases hg

theorem movePoller_turn (hm : m.lane? = some i) (hj : m.poller? = some j)
    (h : p.movePoller? i j m = some p') : Turn p m p' := by
  simp only [movePoller?, Option.bind_eq_bind, Option.bind_eq_some_iff, Option.pure_def,
    Option.some.injEq] at h
  obtain ⟨l, hl, poller, hpoller, g, hg, rfl⟩ := h
  exact .lane hm hl (.poll hj hpoller (polls_of_signal hg))

theorem moveStreamer_turn {possible : Lane → Bool} (hm : m.lane? = some i)
    (hfeeds : ∀ l, possible l → l.Feeds p.isEnding m signal l.channel)
    (h : p.moveStreamer? i possible signal = some p') : Turn p m p' := by
  simp only [moveStreamer?, Option.bind_eq_bind, Option.bind_eq_some_iff] at h
  obtain ⟨l, hl, h⟩ := h
  split at h
  · rename_i hpossible
    obtain rfl := Option.some.inj h
    exact .lane hm hl (.stream (hfeeds l hpossible))
  · cases h

theorem receive_turn (h : p.receive? i now = some p') : Turn p (.receive i now) p' := by
  simp only [receive?, Option.bind_eq_bind, Option.bind_eq_some_iff] at h
  obtain ⟨l, hl, h⟩ := h
  split at h
  · cases h
  · rename_i r rest hchannel
    split at h
    · rename_i hguard
      obtain rfl := Option.some.inj h
      have hfilling := Lane.phase_of_isFilling (Bool.and_eq_true _ _ ▸ hguard).1
      exact .lane rfl hl (.stream (.row i now hfilling hchannel))
    · cases h

/-- A move that is possible does one of three things. -/
theorem step_turn (h : p.step? m = some p') : Turn p m p' := by
  cases m with
  | stop =>
    obtain rfl := Option.some.inj h
    exact .stop
  | join =>
    simp only [step?, join?] at h
    split at h
    · cases h
    · rename_i hunjoined
      obtain rfl := Option.some.inj h
      exact .join hunjoined
  | query | answer | send | rest | quit => exact movePoller_turn rfl rfl h
  | receive => exact receive_turn h
  | expire i =>
    refine moveStreamer_turn rfl (fun l hl => ?_) h
    simp only [Bool.and_eq_true] at hl
    exact .expired i (Lane.phase_of_isFilling hl.1.1.1)
  | close i =>
    refine moveStreamer_turn rfl (fun l hl => ?_) h
    simp only [Bool.and_eq_true] at hl
    exact .closed i (Lane.phase_of_isFilling hl.1.1) hl.2
  | wrote i result =>
    refine moveStreamer_turn rfl (fun l hl => ?_) h
    simp only [Bool.and_eq_true, Bool.not_eq_true'] at hl
    obtain ⟨rows, isLast, hwriting⟩ := Lane.phase_of_isOpen hl.1 hl.2
    exact .wrote i result hwriting
  | drop i =>
    refine moveStreamer_turn rfl (fun l hl => ?_) h
    simp only [Bool.and_eq_true] at hl
    exact .cancelled i (Lane.phase_of_isFilling hl.1) hl.2

end Step

theorem step_wrote {p p' : Pipeline} {i : Nat} {l : Lane} {result : Except StoreError Unit}
    (hl : p.lanes[i]? = some l) (h : p.step? (.wrote i result) = some p') :
    ∃ l' ends, l.Turn p.isEnding (.wrote i result) l' ends ∧
      p' = { p with lanes := p.lanes.set i l', unjoined := p.unjoined ++ ends } := by
  cases step_turn h with
  | @lane i' _ l₀ l' ends hm hl₀ hlane =>
    cases hm
    obtain rfl : l = l₀ := Option.some.inj (hl.symm.trans hl₀)
    exact ⟨l', ends, hlane, rfl⟩

end Pipeline

/-! ## The balance of a lane -/

namespace Poller

@[simp] theorem step_query (p : Poller) (g : PollSignal) : (p.step g).query = p.query := by
  unfold step
  split <;> rfl

@[simp] theorem step_granularity (p : Poller) (g : PollSignal) :
    (p.step g).granularity = p.granularity := by
  unfold step
  split <;> rfl

theorem step_of_isEnded {p : Poller} (h : p.isEnded) (g : PollSignal) : p.step g = p := by
  unfold isEnded end? at h
  cases hphase : p.phase with
  | ended reason => simp [step, hphase]
  | _ => simp [hphase] at h

theorem end?_of_phase {p : Poller} {reason : PollEnd} :
    p.end? = some reason ↔ p.phase = .ended reason := by
  unfold end?
  cases p.phase <;> simp

theorem phase_ne_ended {p : Poller} (h : p.isEnded = false) (reason : PollEnd) :
    p.phase ≠ .ended reason := by
  intro hended
  simp [isEnded, end?, hended] at h

theorem step_cancelled {p : Poller} (h : p.isEnded = false) :
    p.step .cancelled = { p with phase := .ended .cancelled } := by
  cases hphase : p.phase with
  | ended reason => exact absurd hphase (phase_ne_ended h reason)
  | _ => simp [step, hphase]

theorem step_answered {p : Poller} (h : p.phase = .asking) (a : QueryAnswer) :
    p.step (.answered (.ok a)) = { p with phase := received (p.records? a) } := by
  simp [step, h]

theorem unsent_handOn {p : Poller} (records : List TelemetryRecord) :
    ({ p with phase := handOn records } : Poller).unsent = records := by
  cases records <;> rfl

theorem isEnded_handOn {p : Poller} (records : List TelemetryRecord) :
    ({ p with phase := handOn records } : Poller).isEnded = false := by
  cases records <;> rfl

end Poller

/-- A place of a list after another entry was put somewhere. -/
theorem getElem?_set_cases {α : Type} {xs : List α} {i j : Nat} {a b : α}
    (h : (xs.set i a)[j]? = some b) : j = i ∧ b = a ∨ j ≠ i ∧ xs[j]? = some b := by
  rw [List.getElem?_set] at h
  split at h
  · rename_i hij
    split at h
    · exact .inl ⟨hij.symm, (Option.some.inj h).symm⟩
    · cases h
  · rename_i hij
    exact .inr ⟨Ne.symm hij, h⟩

/-- Another entry with the same image leaves the images as they are. -/
theorem map_set_same {α β : Type} {f : α → β} {xs : List α} {i : Nat} {a b : α}
    (h : xs[i]? = some a) (hf : f b = f a) : (xs.set i b).map f = xs.map f := by
  refine List.ext_getElem? fun j => ?_
  by_cases hij : i = j
  · subst hij
    have hi := (List.getElem?_eq_some_iff.mp h).1
    rw [List.getElem?_map, List.getElem?_map, h, List.getElem?_set_self hi]
    exact congrArg some hf
  · rw [List.getElem?_map, List.getElem?_map, List.getElem?_set_ne hij]

namespace Lane

/-- How the records of a level are upserted. -/
def how (l : Lane) : Upsert := ⟨l.granularity.table, .update ["value"]⟩

/-- A log accounts for a lane. -/
structure Balanced (c : PipelineConfig) (log : LaneLog) (l : Lane) : Prop where
  capacity : l.capacity = c.capacity
  room : l.channel.length ≤ c.capacity
  pollers : ∀ (j : Nat) (p : Poller), l.pollers[j]? = some p →
    (c.queries l.granularity)[j]? = some p.query ∧ p.granularity = l.granularity
  streamer : l.streamer.Balanced l.how c.batches log.streamer
  order : Interleaves log.sent log.entered
  through : log.entered.map TelemetryRecord.row =
    log.streamer.received ++ l.channel.map TelemetryRecord.row
  unsent : ∀ (j : Nat) (p : Poller), l.pollers[j]? = some p → p.isEnded = false →
    log.sent j ++ p.unsent = log.answered j
  strangers : ∀ j : Nat, l.pollers.length ≤ j → log.sent j = []

section Balance
variable {c : PipelineConfig} {log : LaneLog} {l l' : Lane} {m : PipelineMove} {ending : Bool}
  {p : Poller} {g : PollSignal} {s : StreamSignal} {channel : List TelemetryRecord}
  {ends : List (Option IngestError)}

theorem balanced_start (c : PipelineConfig) (g : Granularity) : Balanced c {} (start c g) where
  capacity := rfl
  room := Nat.zero_le _
  pollers := by
    intro j p hp
    simp only [start, List.getElem?_map, Option.map_eq_some_iff] at hp
    obtain ⟨q, hq, rfl⟩ := hp
    exact ⟨hq, rfl⟩
  streamer := Streamer.balanced_start _ (Nat.le_max_left 1 c.batchSize)
  order := .nil
  through := rfl
  unsent := by
    intro j p hp _
    simp only [start, List.getElem?_map, Option.map_eq_some_iff] at hp
    obtain ⟨q, -, rfl⟩ := hp
    rfl
  strangers := fun _ _ => rfl

/-- What a poller sends and has then still to send is what it had to send, and what it made of an
answer. -/
theorem Polls.unsent (h : Polls ending l p m g) (hgoing : (p.step g).isEnded = false) :
    Pipeline.sent p m ++ (p.step g).unsent = p.unsent ++ p.made m := by
  cases h with
  | asked i j hphase | rested i j hphase =>
    simp [Pipeline.sent, Poller.step, Poller.unsent, Poller.made, hphase]
  | answered i j a hphase =>
    cases a with
    | ok a =>
      rw [Poller.step_answered hphase] at hgoing ⊢
      cases hrecords : p.records? a with
      | some records =>
        simp only [Poller.received, Poller.unsent_handOn, Poller.made, hrecords, Pipeline.sent]
        simp [Poller.unsent, hphase]
      | none => simp [hrecords, Poller.received, Poller.isEnded, Poller.end?] at hgoing
    | error e => simp [Poller.step, hphase, Poller.isEnded, Poller.end?] at hgoing
  | sent i j hphase _ =>
    simp [Pipeline.sent, Poller.step, hphase, Poller.unsent_handOn, Poller.made]
    simp [Poller.unsent, hphase]
  | closed i j _ =>
    cases hphase : p.phase <;>
      simp [Poller.step, hphase, Poller.isEnded, Poller.end?] at hgoing <;>
      simp [Pipeline.sent, Poller.step, Poller.unsent, Poller.made, hphase]
  | cancelled i j _ =>
    cases hphase : p.phase <;>
      simp [Poller.step, hphase, Poller.isEnded, Poller.end?] at hgoing

theorem Polls.sent_cases (h : Polls ending l p m g) :
    Pipeline.sent p m = [] ∨
      ∃ r, Pipeline.sent p m = [r] ∧ l.channel.length < l.capacity := by
  cases h with
  | @sent i j r rest hphase hroom => exact .inr ⟨r, by simp [Pipeline.sent, hphase], hroom⟩
  | _ => exact .inl rfl

theorem Feeds.signal (h : Feeds ending l m s channel) :
    m.poller? = none ∧ l.signal? m = some s := by
  cases h with
  | row i now _ hchannel => exact ⟨rfl, by simp [signal?, hchannel]⟩
  | _ => exact ⟨rfl, rfl⟩

theorem Feeds.through (h : Feeds ending l m s channel) :
    l.channel.map TelemetryRecord.row =
      l.streamer.taken s ++ channel.map TelemetryRecord.row := by
  cases h with
  | row i now hfilling hchannel => simp [Streamer.taken, hfilling, hchannel]
  | expired _ hphase | closed _ hphase _ | wrote _ _ hphase | cancelled _ hphase _ =>
    simp [Streamer.taken, hphase]

theorem Balanced.turn (h : Balanced c log l) (hturn : l.Turn ending m l' ends) :
    Balanced c (log.note l m) l' := by
  cases hturn with
  | @poll j p m g hm hp hpolls =>
    have hnote : log.note l m =
        { log with
          entered := log.entered ++ Pipeline.sent p m
          sent := Function.update log.sent j (log.sent j ++ Pipeline.sent p m)
          answered := Function.update log.answered j (log.answered j ++ p.made m) } := by
      simp [LaneLog.note, hm, hp]
    have hbound : j < l.pollers.length := (List.getElem?_eq_some_iff.mp hp).1
    rw [hnote]
    refine ⟨h.capacity, ?_, ?_, h.streamer, ?_, ?_, ?_, ?_⟩
    · have hroom := h.room
      have hcapacity := h.capacity
      rcases hpolls.sent_cases with hnone | ⟨r, hone, hfree⟩
      · simpa [hnone] using hroom
      · simp only [hone, List.length_append, List.length_singleton]
        omega
    · intro k q hq
      rcases getElem?_set_cases hq with ⟨rfl, rfl⟩ | ⟨-, hq⟩
      · simpa using h.pollers k p hp
      · exact h.pollers k q hq
    · rcases hpolls.sent_cases with hnone | ⟨r, hone, -⟩
      · simpa [hnone] using h.order
      · rw [hone]
        exact h.order.snoc j r
    · simp [h.through]
    · intro k q hq hgoing
      rcases getElem?_set_cases hq with ⟨rfl, rfl⟩ | ⟨hkj, hq⟩
      · -- a poller that goes on went on before
        have hbefore : p.isEnded = false := by
          by_contra hended
          rw [Poller.step_of_isEnded (by simpa using hended)] at hgoing
          exact hended hgoing
        have hunsent := h.unsent k p hp hbefore
        simp only [Function.update_self, List.append_assoc, hpolls.unsent hgoing]
        rw [← List.append_assoc, hunsent]
      · simp only [Function.update_of_ne hkj]
        exact h.unsent k q hq hgoing
    · intro k hk
      rw [List.length_set] at hk
      have hjk : k ≠ j := by omega
      simp only [Function.update_of_ne hjk]
      exact h.strangers k hk
  | @stream m s channel hfeeds =>
    obtain ⟨hnone, hsignal⟩ := hfeeds.signal
    have hnote : log.note l m = { log with streamer := log.streamer.note l.streamer s } := by
      simp [LaneLog.note, hnone, hsignal]
    have hthrough := hfeeds.through
    have hlength := congrArg List.length hthrough
    simp only [List.length_map, List.length_append] at hlength
    rw [hnote]
    refine ⟨h.capacity, ?_, h.pollers, h.streamer.step s, h.order, ?_, h.unsent, h.strangers⟩
    · have hroom := h.room
      simp only
      omega
    · rw [h.through, hthrough]
      simp [StreamLog.note]

theorem Turn.granularity (hturn : l.Turn ending m l' ends) : l'.granularity = l.granularity := by
  cases hturn <;> rfl

theorem Turn.how (hturn : l.Turn ending m l' ends) : l'.how = l.how := by
  rw [Lane.how, Lane.how, hturn.granularity]

/-- Only the store confirms batches. -/
theorem Turn.stored (hturn : l.Turn ending m l' ends) (hm : ∀ i result, m ≠ .wrote i result) :
    (log.note l m).streamer.stored = log.streamer.stored := by
  cases hturn with
  | poll hj hp _ => simp [LaneLog.note, hj, hp]
  | stream hfeeds =>
    obtain ⟨hnone, hsignal⟩ := hfeeds.signal
    cases hfeeds with
    | wrote i result _ => exact absurd rfl (hm i result)
    | row _ _ hphase _ | expired _ hphase | closed _ hphase _ | cancelled _ hphase _ =>
      simp [LaneLog.note, hnone, hsignal, StreamLog.note, Streamer.confirmed, hphase]

/-- A write that is done confirms the batch whose write was under way. -/
theorem Turn.stored_done {i : Nat} (hturn : l.Turn ending (.wrote i (.ok ())) l' ends) :
    (log.note l (.wrote i (.ok ()))).streamer.stored =
      log.streamer.stored ++ [l.streamer.underway] := by
  cases hturn with
  | poll hj _ _ => cases hj
  | stream hfeeds =>
    cases hfeeds with
    | wrote _ _ hwriting =>
      simp [LaneLog.note, PipelineMove.poller?, signal?, StreamLog.note, Streamer.confirmed,
        Streamer.underway, hwriting]

theorem Turn.stored_refused {i : Nat} {e : StoreError}
    (hturn : l.Turn ending (.wrote i (.error e)) l' ends) :
    (log.note l (.wrote i (.error e))).streamer.stored = log.streamer.stored := by
  cases hturn with
  | poll hj _ _ => cases hj
  | stream hfeeds =>
    cases hfeeds with
    | wrote _ _ hwriting =>
      simp [LaneLog.note, PipelineMove.poller?, signal?, StreamLog.note, Streamer.confirmed,
        hwriting]

end Balance

/-! ## Lively lanes -/

/-- No task of the lane has ended, and none is about to. -/
structure Lively (l : Lane) : Prop where
  pollers : ∀ p ∈ l.pollers, p.isEnded = false
  streamer : l.streamer.phase = .filling ∨ ∃ rows, l.streamer.phase = .writing rows false

theorem lively_start (c : PipelineConfig) (g : Granularity) : Lively (start c g) where
  pollers := by
    intro p hp
    obtain ⟨q, -, rfl⟩ := List.mem_map.mp hp
    rfl
  streamer := .inl rfl

theorem Lively.isOpen {l : Lane} (h : l.Lively) : l.isOpen := by
  unfold Lane.isOpen Streamer.end?
  rcases h.streamer with hphase | ⟨rows, hphase⟩ <;> simp [hphase]

theorem Lively.turn {l l' : Lane} {m : PipelineMove} {ends : List (Option IngestError)}
    (h : l.Lively) (hsome : l.pollers ≠ []) (hturn : l.Turn false m l' ends)
    (hends : ∀ e, some e ∉ ends) : l'.Lively := by
  cases hturn with
  | @poll j p m g _ hp hpolls =>
    have hgoing : p.isEnded = false := h.pollers p (List.mem_of_getElem? hp)
    refine ⟨fun q hq => ?_, h.streamer⟩
    rcases List.mem_or_eq_of_mem_set hq with hq | rfl
    · exact h.pollers q hq
    · cases hpolls with
      | asked i j hphase | rested i j hphase =>
        simp [Poller.step, hphase, Poller.isEnded, Poller.end?]
      | sent i j hphase hroom => simp [Poller.step, hphase, Poller.isEnded_handOn]
      | answered i j a hphase =>
        cases a with
        | ok a =>
          rw [Poller.step_answered hphase] at hends ⊢
          cases hrecords : p.records? a with
          | some records => exact Poller.isEnded_handOn records
          | none =>
            simp [hrecords, Poller.received, Poller.end?, Pipeline.pollFailure] at hends
        | error e =>
          have hend : (p.step (.answered (.error e))).end? = some (.failed e) := by
            simp [Poller.step, hphase, Poller.end?]
          exact absurd (by simp [hend, Pipeline.pollFailure]) (hends (.query e))
      | closed i j hclosed =>
        rw [h.isOpen] at hclosed
        cases hclosed
      | cancelled i j hending => cases hending
  | @stream m s channel hfeeds =>
    refine ⟨h.pollers, ?_⟩
    cases hfeeds with
    | row i now hfilling _ =>
      simp only [Streamer.step_row hfilling]
      split
      · exact .inr ⟨_, rfl⟩
      · exact .inl hfilling
    | expired i hfilling =>
      simp only [Streamer.step_expired hfilling]
      split
      · exact .inl hfilling
      · exact .inr ⟨_, rfl⟩
    | closed i hfilling hdone =>
      -- the end of the channel takes the end of all pollers
      obtain ⟨p, hp⟩ := List.exists_mem_of_ne_nil _ hsome
      simp only [isDone, Bool.and_eq_true, List.all_eq_true] at hdone
      have hended := hdone.2 p hp
      rw [h.pollers p hp] at hended
      cases hended
    | @wrote i rows isLast result hwriting =>
      cases result with
      | ok _ =>
        rcases h.streamer with hfilling | ⟨rows', hnotLast⟩
        · rw [hfilling] at hwriting
          cases hwriting
        · rw [hnotLast] at hwriting
          cases hwriting
          exact .inl (by simp [Streamer.step_wrote hnotLast])
      | error e =>
        have hend : (l.streamer.step (.wrote (.error e))).end? = some (.failed e) := by
          simp [Streamer.step_refused hwriting, Streamer.end?]
        exact absurd (by simp [hend, Pipeline.streamFailure]) (hends (.store e))
    | cancelled i _ hending => cases hending

end Lane

namespace Pipeline

/-- Nothing has been cancelled and nothing has failed. -/
structure Calm (p : Pipeline) : Prop where
  going : p.isEnding = false
  unfailed : ∀ e, some e ∉ p.unjoined

def Lively (p : Pipeline) : Prop := ∀ l ∈ p.lanes, l.Lively ∧ l.pollers ≠ []

/-- A pipeline that is calm was so before the last turn. -/
theorem Turn.calm {p p' : Pipeline} {m : PipelineMove} (hturn : Turn p m p') (h : p'.Calm) :
    p.Calm := by
  cases hturn with
  | stop => cases h.going
  | @join e rest hunjoined =>
    have hgoing := h.going
    simp only [isEnding, Bool.or_eq_false_iff] at hgoing
    cases e with
    | none =>
      refine ⟨by simpa [isEnding] using hgoing, fun e he => ?_⟩
      rw [hunjoined] at he
      exact h.unfailed e (by simpa using he)
    | some e => cases hfailure : p.failure <;> simp [hfailure] at hgoing
  | lane _ _ _ => exact ⟨h.going, fun e he => h.unfailed e (List.mem_append_left _ he)⟩

theorem Turn.lively {p p' : Pipeline} {m : PipelineMove} (hturn : Turn p m p')
    (hlively : p.Calm → p.Lively) (hcalm : p'.Calm) : p'.Lively := by
  have hbefore := hturn.calm hcalm
  have hlanes := hlively hbefore
  cases hturn with
  | stop => cases hcalm.going
  | join _ => exact hlanes
  | @lane i m l l' ends _ hl hlane =>
    intro x hx
    rcases List.mem_or_eq_of_mem_set hx with hx | rfl
    · exact hlanes x hx
    · obtain ⟨hl, hsome⟩ := hlanes l (List.mem_of_getElem? hl)
      rw [hbefore.going] at hlane
      refine ⟨hl.turn hsome hlane fun e he => hcalm.unfailed e (List.mem_append_right _ he), ?_⟩
      cases hlane with
      | poll => simpa using hsome
      | stream => exact hsome

end Pipeline

end KubeLedger
