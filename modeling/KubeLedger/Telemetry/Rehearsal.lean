import KubeLedger.Telemetry.Pipeline
import KubeLedger.Telemetry.Sample

/- Runs of pollers and pipelines with a made-up metrics server and a store in memory. The server
   answers each expression from a list, in order, and repeats the last answer; an expression without
   answers has an empty vector. Time passes only when every task waits. Tasks that can go on take turns
   in the order in which something happened for them; each goes on until it has to wait. Times are in
   milliseconds. -/
namespace KubeLedger

/-! ## The server -/

/-- A made-up metrics server. -/
structure ScriptedMetrics where
  answers : List (String × List (Except QueryError QueryAnswer)) := []
  /-- The expressions that were asked for, the last first. -/
  asked : List String := []

namespace ScriptedMetrics

/-- The answers without the one that is used up; the last is never used up. -/
def use (expression : String) :
    List (String × List (Except QueryError QueryAnswer)) →
      List (String × List (Except QueryError QueryAnswer))
  | [] => []
  | (e, answers) :: rest =>
    if e = expression then
      (e, if 1 < answers.length then answers.drop 1 else answers) :: rest
    else (e, answers) :: use expression rest

def query (s : ScriptedMetrics) (expression : String) :
    Except QueryError QueryAnswer × ScriptedMetrics :=
  let answer := ((s.answers.lookup expression).bind List.head?).getD (.ok ⟨.vector [], []⟩)
  (answer, ⟨use expression s.answers, expression :: s.asked⟩)

def calls (s : ScriptedMetrics) (expression : String) : Nat := s.asked.count expression

end ScriptedMetrics

/-! ## Pipelines -/

inductive PipelineTask where
  | streamer (lane : Nat)
  | poller (lane index : Nat)
  | joiner
deriving DecidableEq, Repr

/-- A pipeline with its surroundings. -/
structure PipelineRun where
  pipeline : Pipeline
  store : Memory
  metrics : ScriptedMetrics
  /-- How long pollers rest. -/
  interval : Nat
  now : Nat := 0
  /-- When resting pollers go on, by lane and place. -/
  wakes : List ((Nat × Nat) × Nat) := []
  /-- The tasks for which something has happened. -/
  queue : List PipelineTask := []

namespace PipelineRun

def woken (r : PipelineRun) (tasks : List PipelineTask) : PipelineRun :=
  { r with queue := r.queue ++ tasks.filter fun t => !r.queue.contains t }

def laneTasks (i : Nat) (l : Lane) : List PipelineTask :=
  .streamer i :: (List.range l.pollers.length).map (.poller i)

def tasks (p : Pipeline) : List PipelineTask := (p.lanes.mapIdx laneTasks).flatten

def pollersOf (r : PipelineRun) (i : Nat) : List PipelineTask :=
  match r.pipeline.lanes[i]? with
  | some l => (List.range l.pollers.length).map (.poller i)
  | none => []

def pollerMove? (r : PipelineRun) (i j : Nat) : Option (PipelineMove × PipelineRun) := do
  let l ← r.pipeline.lanes[i]?
  let poller ← l.pollers[j]?
  let orQuit (m : Option PipelineMove) : Option (PipelineMove × PipelineRun) :=
    if r.pipeline.isEnding then some (.quit i j, r) else m.map fun m => (m, r)
  match poller.phase with
  | .ready => orQuit (some (.query i j))
  | .asking =>
    if r.pipeline.isEnding then some (.quit i j, r)
    else
      let (a, metrics) := r.metrics.query poller.query.expression
      some (.answer i j a, { r with metrics })
  | .sending _ _ =>
    if !l.isOpen then some (.quit i j, r)
    else orQuit (if l.channel.length < l.capacity then some (.send i j) else none)
  | .resting =>
    let isOver := (r.wakes.lookup (i, j)).any fun t => t ≤ r.now
    orQuit (if isOver then some (.rest i j) else none)
  | .ended _ => none

def streamerMove? (r : PipelineRun) (i : Nat) : Option (PipelineMove × PipelineRun) := do
  let l ← r.pipeline.lanes[i]?
  match l.streamer.phase with
  | .writing rows _ =>
    let (result, store) := r.store.write (.upsert l.streamer.how rows)
    some (.wrote i (result.map fun _ => ()), { r with store })
  | .filling =>
    if r.pipeline.isEnding then some (.drop i, r)
    else if !l.channel.isEmpty then some (.receive i r.now, r)
    else if l.isDone then some (.close i, r)
    else if l.streamer.deadline.any fun t => t ≤ r.now then some (.expire i, r)
    else none
  | .ended _ => none

/-- The move that a task makes next; none if it has to wait. -/
def taskMove? (r : PipelineRun) : PipelineTask → Option (PipelineMove × PipelineRun)
  | .streamer i => r.streamerMove? i
  | .poller i j => r.pollerMove? i j
  | .joiner => if r.pipeline.unjoined.isEmpty then none else some (.join, r)

/-- The tasks for which a move makes something happen. -/
def consequences (r : PipelineRun) (before : Pipeline) : PipelineMove → List PipelineTask
  | .send i _ => [.streamer i]
  | .quit i _ => [.streamer i, .joiner]
  | .answer i _ _ => [.streamer i, .joiner]
  | .receive i _ => r.pollersOf i
  | .close _ => [.joiner]
  | .wrote i _ => r.pollersOf i ++ [.joiner]
  | .drop i => r.pollersOf i ++ [.joiner]
  | .join => if before.isEnding then [] else if r.pipeline.isEnding then tasks r.pipeline else []
  | _ => []

/-- The run with the time noted at which a poller goes on. -/
def noted (r : PipelineRun) : PipelineMove → PipelineRun
  | .send i j => { r with wakes := ((i, j), r.now + r.interval) :: r.wakes }
  | .answer i j _ => { r with wakes := ((i, j), r.now + r.interval) :: r.wakes }
  | _ => r

/-- Lets the first task of the queue make a move, or takes it out if it has to wait. -/
def turn (r : PipelineRun) : PipelineRun :=
  match r.queue with
  | [] => r
  | t :: rest =>
    match r.taskMove? t with
    | none => { r with queue := rest }
    | some (m, after) =>
      match after.pipeline.step? m with
      | none => { r with queue := rest }
      | some pipeline =>
        let moved := { after with pipeline }.noted m
        moved.woken (moved.consequences r.pipeline m)

/-- Goes on until every task waits. -/
def settle : Nat → PipelineRun → PipelineRun
  | 0, r => r
  | fuel + 1, r => if r.queue.isEmpty then r else settle fuel r.turn

/-- The resting pollers and waiting streamers of a lane with the times at which they go on. -/
def laneTimes (r : PipelineRun) (i : Nat) (l : Lane) : List (PipelineTask × Nat) :=
  (l.streamer.deadline.map fun t => (PipelineTask.streamer i, t)).toList ++
    (l.pollers.mapIdx fun j poller =>
      match poller.phase with
      | .resting => ((r.wakes.lookup (i, j)).map fun t => (PipelineTask.poller i j, t)).toList
      | _ => []).flatten

def times (r : PipelineRun) : List (PipelineTask × Nat) :=
  (r.pipeline.lanes.mapIdx r.laneTimes).flatten

/-- Lets time pass up to a point. -/
def elapse (fuel horizon : Nat) : Nat → PipelineRun → PipelineRun
  | 0, r => r
  | more + 1, r =>
    match (r.times.map fun t => t.2).min? with
    | some t =>
      if t ≤ horizon then
        let r := { r with now := t }
        let due := (r.times.filter fun x => x.2 ≤ t).map fun x => x.1
        elapse fuel horizon more ((r.woken due).settle fuel)
      else r
    | none => r

/-- A bound on the turns of a run, from how often pollers ask and how much they can be told. -/
def bound (r : PipelineRun) (horizon : Nat) : Nat :=
  let tasks := r.pipeline.taskCount
  let samples := (r.metrics.answers.flatMap fun a => a.2.map fun x =>
    match x with
    | .ok a => a.result.samples.length
    | .error _ => 0).foldl max 0
  let polls := tasks * (horizon / max 1 r.interval + 2)
  (polls * (4 * samples + 8) + 16 * tasks + 16) * (tasks + 3)

/-- Runs a pipeline until a point in time: the run then, and the run after the caller stopped it. -/
def run (r : PipelineRun) (horizon : Nat) : PipelineRun × PipelineRun :=
  let fuel := r.bound horizon
  let r := (r.woken (tasks r.pipeline)).settle fuel
  let r := r.elapse fuel horizon fuel
  let stopped := { r with pipeline := { r.pipeline with isStopped := true } }
  (r, (stopped.woken (tasks r.pipeline)).settle fuel)

end PipelineRun

/-- A poller with its surroundings. -/
structure PollerRun where
  poller : Poller
  metrics : ScriptedMetrics
  /-- How long the poller rests. -/
  interval : Nat
  /-- Whether anybody reads the records. -/
  isRead : Bool
  now : Nat := 0
  /-- The records that were taken, the last first. -/
  taken : List TelemetryRecord := []

namespace PollerRun

/-- The signal that the poller gets next, before it is cancelled at a point in time. -/
def signal? (r : PollerRun) (horizon : Nat) : Option (PollSignal × PollerRun) :=
  match r.poller.phase with
  | .ready => some (.started, r)
  | .asking =>
    let (a, metrics) := r.metrics.query r.poller.query.expression
    some (.answered a, { r with metrics })
  | .sending record _ =>
    some (if r.isRead then (.sent, { r with taken := record :: r.taken }) else (.closed, r))
  | .resting =>
    if r.now + r.interval ≤ horizon then some (.rested, { r with now := r.now + r.interval })
    else none
  | .ended _ => none

/-- Goes on until the poller waits for the cancellation, or has ended. -/
def settle (horizon : Nat) : Nat → PollerRun → PollerRun
  | 0, r => r
  | fuel + 1, r =>
    match r.signal? horizon with
    | none => r
    | some (g, r) => settle horizon fuel { r with poller := r.poller.step g }

def bound (r : PollerRun) (horizon : Nat) : Nat :=
  let samples := (r.metrics.answers.flatMap fun a => a.2.map fun x =>
    match x with
    | .ok a => a.result.samples.length
    | .error _ => 0).foldl max 0
  (horizon / max 1 r.interval + 2) * (samples + 4)

def cancel (r : PollerRun) : PollerRun := { r with poller := r.poller.step .cancelled }

/-- Runs a poller until it is cancelled at a point in time. -/
def run (r : PollerRun) (horizon : Nat) : PollerRun := (r.settle horizon (r.bound horizon)).cancel

end PollerRun

end KubeLedger
