import Mathlib.Data.List.Forall2
import KubeLedger.Proofs.Answers
import KubeLedger.Proofs.Lanes
import KubeLedger.Telemetry.Rehearsal

/- Runs of a poller on a clock. The poller asks, hears the answer, hands its records on one after
   another, and rests; the token may be set and the reader of the records may go away at any time, and
   time passes as it likes (`Turn`). Each query begins a poll, in which it is noted when it was asked,
   what was answered, which records were accepted, and when something happened in it last.

   A poll is over once all was accepted that its answer is to make (`Poll.IsOver`), and the phase of
   the poller says how far the last poll has come (`Poll.Fits`). Every turn keeps this (`Sound.turn`);
   what a run has emitted is read off it. It is what all answers make, unless an answer has a usable
   sample without a minute: of that one nothing is emitted, and the poller breaks off
   (`polling_exact_iff`). A rehearsal of a poller is one of these runs (`rehearsal_goes`). -/
namespace KubeLedger

/-! ## Polls -/

/-- A query with what came of it. -/
structure Poll where
  asked : Nat
  answer : Option (Except QueryError QueryAnswer) := none
  /-- The records that were accepted, in order. -/
  accepted : List TelemetryRecord := []
  /-- When something happened in it last. -/
  last : Nat

namespace Poll

def heard? (p : Poll) : Option QueryAnswer := p.answer.bind Except.toOption

/-- The query was answered, and all records of the answer were accepted. -/
def IsOver (q : Query) (g : Granularity) (p : Poll) : Prop :=
  ∃ a, p.answer = some (.ok a) ∧ q.Makes g a.result p.accepted

/-- What was accepted, followed by the records that lack, is what the answer makes. -/
def Lacks (q : Query) (g : Granularity) (p : Poll) (records : List TelemetryRecord) : Prop :=
  match p.heard? with
  | some a => q.Makes g a.result (p.accepted ++ records)
  | none => p.accepted = [] ∧ records = []

/-- The answer has a usable sample without a minute, and nothing of it was accepted. -/
def BrokeOff (g : Granularity) (p : Poll) : Prop :=
  ∃ a, p.answer = some (.ok a) ∧ ¬a.result.IsDated g ∧ p.accepted = []

/-- How far the last poll has come by the phase of its poller. -/
def Fits (q : Query) (g : Granularity) (p : Poll) : PollPhase → Prop
  | .ready => p.IsOver q g
  | .asking => p.answer = none ∧ p.accepted = []
  | .sending r rest => ∃ a, p.answer = some (.ok a) ∧ q.Makes g a.result (p.accepted ++ r :: rest)
  | .resting => p.IsOver q g
  | .ended (.failed e) => p.answer = some (.error e) ∧ p.accepted = []
  | .ended .cancelled => (∃ records, p.Lacks q g records) ∧ ∀ e, p.answer ≠ some (.error e)
  | .ended .overflowed => p.BrokeOff g

end Poll

/-- A poller with its surroundings. -/
structure Polling where
  poller : Poller
  /-- How long the poller rests. -/
  interval : Nat
  now : Nat := 0
  /-- Whether the token is set. -/
  isCancelled : Bool := false
  /-- Whether nobody reads the records any more. -/
  isClosed : Bool := false
  /-- When a rest that begins with what happened last is over. -/
  wakeAt : Nat := 0
  /-- The polls, the last first. -/
  polls : List Poll := []

/-- What can happen to a poller. -/
inductive PollMove where
  | pass (span : Nat)
  | cancel
  | close
  | ask
  | answer (a : Except QueryError QueryAnswer)
  /-- The record that is handed on is accepted. -/
  | accept
  /-- The rest is over. -/
  | wake
  /-- The poller finds the token set. -/
  | quit
  /-- The poller finds that nobody reads. -/
  | lose

/-- Whether a move is one of the poller, and not of those around it. -/
def PollMove.isOwn : PollMove → Bool
  | .pass _ => false
  | .cancel => false
  | .close => false
  | _ => true

namespace Polling

/-- A poller that has just begun. -/
def start (g : Granularity) (q : Query) (interval : Nat) : Polling where
  poller := { granularity := g, query := q }
  interval

def tell (s : Polling) (g : PollSignal) : Polling := { s with poller := s.poller.step g }

/-- With something that happened in the last poll. A rest after it takes the interval. -/
def noted (s : Polling) (f : Poll → Poll) : Polling :=
  { s with
    polls := s.polls.modifyHead fun p => { f p with last := s.now }
    wakeAt := s.now + s.interval }

/-- After a query. -/
def asked (s : Polling) : Polling :=
  tell { s with polls := { asked := s.now, last := s.now } :: s.polls } .started

def answered (s : Polling) (a : Except QueryError QueryAnswer) : Polling :=
  (s.noted fun p => { p with answer := some a }).tell (.answered a)

def accepted (s : Polling) (r : TelemetryRecord) : Polling :=
  (s.noted fun p => { p with accepted := p.accepted ++ [r] }).tell .sent

/-- One move, where it is possible. The token is looked at before anything else. -/
inductive Turn : Polling → PollMove → Polling → Prop
  | pass (s : Polling) (span : Nat) : Turn s (.pass span) { s with now := s.now + span }
  | cancel (s : Polling) : Turn s .cancel { s with isCancelled := true }
  | close (s : Polling) : Turn s .close { s with isClosed := true }
  | ask {s : Polling} : s.poller.phase = .ready → s.isCancelled = false →
    Turn s .ask s.asked
  | answer {s : Polling} (a : Except QueryError QueryAnswer) : s.poller.phase = .asking →
    s.isCancelled = false → Turn s (.answer a) (s.answered a)
  | accept {s : Polling} {r : TelemetryRecord} {rest : List TelemetryRecord} :
    s.poller.phase = .sending r rest → s.isCancelled = false → s.isClosed = false →
    Turn s .accept (s.accepted r)
  | wake {s : Polling} : s.poller.phase = .resting → s.isCancelled = false → s.wakeAt ≤ s.now →
    Turn s .wake (s.tell .rested)
  | quit {s : Polling} : s.poller.isEnded = false → s.isCancelled → Turn s .quit (s.tell .cancelled)
  | lose {s : Polling} {r : TelemetryRecord} {rest : List TelemetryRecord} :
    s.poller.phase = .sending r rest → s.isCancelled = false → s.isClosed →
    Turn s .lose (s.tell .closed)

/-- Where a poller can go. -/
inductive Goes (s₀ : Polling) : Polling → Prop
  | stay : Goes s₀ s₀
  | turn {s s' : Polling} {m : PollMove} : Goes s₀ s → Turn s m s' → Goes s₀ s'

/-- However a poller goes on by moves of its own, it comes to what is wanted, and can go on until
then. -/
inductive Leads (wanted : Polling → Prop) : Polling → Prop
  | there {s : Polling} : wanted s → Leads wanted s
  | onward {s : Polling} : (∃ m s', m.isOwn ∧ Turn s m s') →
    (∀ m s', m.isOwn → Turn s m s' → Leads wanted s') → Leads wanted s

/-- The records that were accepted, in order. -/
def sent (s : Polling) : List TelemetryRecord := s.polls.reverse.flatMap Poll.accepted

/-! ## What a run keeps -/

/-- The last poll is as far as the phase says, and all before it are over. Polls are an interval apart,
and so is the next one. -/
structure Sound (q : Query) (g : Granularity) (interval : Nat) (s : Polling) : Prop where
  query : s.poller.query = q
  level : s.poller.granularity = g
  same_interval : s.interval = interval
  past : ∀ p ∈ s.polls.tail, p.IsOver q g
  last : ∀ p ∈ s.polls.head?, p.Fits q g s.poller.phase
  /-- Without a query nothing can have happened but a cancellation. -/
  begun : s.polls = [] → s.poller.phase = .ready ∨ s.poller.phase = .ended .cancelled
  apart : s.polls.Pairwise fun later earlier => earlier.last + interval ≤ later.asked
  stamped : ∀ p ∈ s.polls, p.last ≤ s.now
  resting : s.poller.phase = .resting → ∀ p ∈ s.polls, p.last + interval ≤ s.wakeAt
  ready : s.poller.phase = .ready → ∀ p ∈ s.polls, p.last + interval ≤ s.now
  cause : s.poller.phase = .ended .cancelled → s.isCancelled ∨ s.isClosed

section Sound
variable {q : Query} {g : Granularity} {interval : Nat} {s s' : Polling} {m : PollMove}

theorem sound_start (q : Query) (g : Granularity) (interval : Nat) :
    Sound q g interval (start g q interval) where
  query := rfl
  level := rfl
  same_interval := rfl
  past := nofun
  last := nofun
  begun := fun _ => .inl rfl
  apart := .nil
  stamped := nofun
  resting := nofun
  ready := fun _ => nofun
  cause := nofun

theorem lacks_of_over {p : Poll} (h : p.IsOver q g) : p.Lacks q g [] := by
  obtain ⟨a, hanswer, hmakes⟩ := h
  simpa [Poll.Lacks, Poll.heard?, hanswer, Except.toOption] using hmakes

/-- The last poll lacks what its poller is still to hand on. -/
theorem lacks_of_fits {p : Poll} {poller : Poller} (h : p.Fits q g poller.phase)
    (hgoing : poller.phase ≠ .ended .cancelled) (hmade : poller.phase ≠ .ended .overflowed) :
    p.Lacks q g poller.unsent := by
  unfold Poller.unsent
  cases hphase : poller.phase with
  | ready | resting =>
    rw [hphase] at h
    exact lacks_of_over h
  | asking =>
    rw [hphase] at h
    simp [Poll.Lacks, Poll.heard?, h.1, h.2]
  | sending r rest =>
    rw [hphase] at h
    obtain ⟨a, hanswer, hmakes⟩ := h
    simpa [Poll.Lacks, Poll.heard?, hanswer, Except.toOption] using hmakes
  | ended reason =>
    rw [hphase] at h
    cases reason with
    | failed e => simp [Poll.Lacks, Poll.heard?, h.1, h.2, Except.toOption]
    | cancelled => exact absurd hphase hgoing
    | overflowed => exact absurd hphase hmade

/-- While its poller goes on, no poll was refused. -/
theorem unrefused_of_fits {p : Poll} {phase : PollPhase} (h : p.Fits q g phase)
    (hphase : ∀ e, phase ≠ .ended (.failed e)) (e : QueryError) : p.answer ≠ some (.error e) := by
  cases phase with
  | ready | resting | sending =>
    obtain ⟨a, hanswer, -⟩ := h
    simp [hanswer]
  | asking => simp [h.1]
  | ended reason =>
    cases reason with
    | failed e => exact absurd rfl (hphase e)
    | cancelled => exact h.2 e
    | overflowed =>
      obtain ⟨a, hanswer, -⟩ := h
      simp [hanswer]

theorem fits_handOn {p : Poll} {a : QueryAnswer} {unsent : List TelemetryRecord}
    (hanswer : p.answer = some (.ok a)) (hmakes : q.Makes g a.result (p.accepted ++ unsent)) :
    p.Fits q g (Poller.handOn unsent) := by
  cases unsent with
  | nil => exact ⟨a, hanswer, by rwa [List.append_nil] at hmakes⟩
  | cons r rest => exact ⟨a, hanswer, hmakes⟩

/-- Where the last poll is over, all are. -/
theorem Sound.all_over (h : Sound q g interval s)
    (hphase : s.poller.phase = .ready ∨ s.poller.phase = .resting) :
    ∀ p ∈ s.polls, p.IsOver q g := by
  have hlast := h.last
  have hpast := h.past
  cases hpolls : s.polls with
  | nil => simp
  | cons p rest =>
    rw [hpolls] at hlast hpast
    have hover : p.IsOver q g := by
      have hfits := hlast p rfl
      rcases hphase with hphase | hphase <;> rwa [hphase] at hfits
    exact List.forall_mem_cons.mpr ⟨hover, hpast⟩

/-- In most phases there is a last poll. -/
theorem Sound.exists_last (h : Sound q g interval s) (hready : s.poller.phase ≠ .ready)
    (hgoing : s.poller.phase ≠ .ended .cancelled) :
    ∃ p rest, s.polls = p :: rest ∧ p.Fits q g s.poller.phase := by
  cases hpolls : s.polls with
  | nil => exact ((h.begun hpolls).elim hready hgoing).elim
  | cons p rest => exact ⟨p, rest, rfl, h.last p (by rw [hpolls]; rfl)⟩

/-- What happens in the last poll keeps the invariant, if the phase goes with it. -/
theorem Sound.note (h : Sound q g interval s) {p : Poll} {rest : List Poll} {f : Poll → Poll}
    {signal : PollSignal} (hpolls : s.polls = p :: rest) (hasked : (f p).asked = p.asked)
    (hfits : Poll.Fits q g { f p with last := s.now } (s.poller.step signal).phase)
    (hready : (s.poller.step signal).phase ≠ .ready)
    (hgoing : (s.poller.step signal).phase ≠ .ended .cancelled) :
    Sound q g interval ((s.noted f).tell signal) := by
  have hpast := h.past
  have hapart := h.apart
  have hstamped := h.stamped
  rw [hpolls] at hpast hapart hstamped
  have hlater : ((s.noted f).tell signal).polls = { f p with last := s.now } :: rest := by
    simp [noted, tell, hpolls]
  obtain ⟨hfirst, hrest⟩ := List.pairwise_cons.mp hapart
  have hlast : ∀ x ∈ ({ f p with last := s.now } : Poll) :: rest, x.last ≤ s.now :=
    List.forall_mem_cons.mpr ⟨Nat.le_refl _, fun x hx => hstamped x (List.mem_cons_of_mem _ hx)⟩
  exact {
    query := by simp [noted, tell, h.query]
    level := by simp [noted, tell, h.level]
    same_interval := h.same_interval
    past := by
      rw [hlater]
      exact hpast
    last := by
      rw [hlater]
      rintro x ⟨⟩
      exact hfits
    begun := by simp [hlater]
    apart := by
      rw [hlater]
      exact List.pairwise_cons.mpr ⟨fun x hx => hasked ▸ hfirst x hx, hrest⟩
    stamped := by
      rw [hlater]
      exact hlast
    resting := by
      -- nothing has happened later than now, from which the rest is counted
      rw [hlater, show ((s.noted f).tell signal).wakeAt = s.now + s.interval from rfl,
        h.same_interval]
      exact fun _ x hx => Nat.add_le_add_right (hlast x hx) interval
    ready := fun hphase => absurd hphase hready
    cause := fun hphase => absurd hphase hgoing }

/-- A poller that is cancelled leaves its last poll as it is. -/
theorem Sound.cancelled (h : Sound q g interval s) {signal : PollSignal}
    (hgoing : s.poller.isEnded = false)
    (hstep : s.poller.step signal = { s.poller with phase := .ended .cancelled })
    (hcause : s.isCancelled ∨ s.isClosed) : Sound q g interval (s.tell signal) := by
  have hphase : (s.tell signal).poller.phase = .ended .cancelled := by rw [tell, hstep]
  refine { h with
    query := by simp [tell, h.query], level := by simp [tell, h.level]
    last := fun p hp => ?_, begun := fun _ => .inr hphase
    resting := fun hresting => ?_, ready := fun hready => ?_, cause := fun _ => hcause }
  · rw [hphase]
    exact ⟨⟨_, lacks_of_fits (h.last p hp) (Poller.phase_ne_ended hgoing _)
        (Poller.phase_ne_ended hgoing _)⟩,
      unrefused_of_fits (h.last p hp) fun e => Poller.phase_ne_ended hgoing _⟩
  · simp [hphase] at hresting
  · simp [hphase] at hready

/-- A question begins a poll an interval after those before it. -/
theorem Sound.ask (h : Sound q g interval s) (hphase : s.poller.phase = .ready) :
    Sound q g interval s.asked := by
  have hstep : s.asked.poller.phase = .asking := by simp [asked, tell, Poller.step, hphase]
  exact {
    query := by simp [asked, tell, h.query]
    level := by simp [asked, tell, h.level]
    same_interval := h.same_interval
    past := h.all_over (.inl hphase)
    last := by
      rintro p ⟨⟩
      rw [hstep]
      exact ⟨rfl, rfl⟩
    begun := by simp [asked, tell]
    apart := List.pairwise_cons.mpr ⟨h.ready hphase, h.apart⟩
    stamped := List.forall_mem_cons.mpr ⟨Nat.le_refl _, h.stamped⟩
    resting := by simp [hstep]
    ready := by simp [hstep]
    cause := by simp [hstep] }

/-- An answer ends the poller, or makes the records that it then hands on. -/
theorem Sound.answer (h : Sound q g interval s) (a : Except QueryError QueryAnswer)
    (hphase : s.poller.phase = .asking) : Sound q g interval (s.answered a) := by
  obtain ⟨p, rest, hpolls, hfits⟩ := h.exists_last (by simp [hphase]) (by simp [hphase])
  rw [hphase] at hfits
  obtain ⟨-, hnone⟩ := hfits
  cases a with
  | error e =>
    have hstep : (s.poller.step (.answered (.error e))).phase = .ended (.failed e) := by
      simp [Poller.step, hphase]
    refine h.note hpolls rfl ?_ ?_ ?_ <;> rw [hstep]
    · exact ⟨rfl, hnone⟩
    all_goals simp
  | ok a =>
    have hstep : (s.poller.step (.answered (.ok a))).phase =
        Poller.received (q.records? g a.result) := by
      rw [Poller.step_answered hphase, Poller.records?, h.query, h.level]
    cases hrecords : q.records? g a.result with
    | none =>
      rw [hrecords] at hstep
      refine h.note hpolls rfl ?_ ?_ ?_ <;> rw [hstep]
      · exact ⟨a, rfl, Query.records?_eq_none.mp hrecords, hnone⟩
      all_goals simp [Poller.received]
    | some records =>
      rw [hrecords] at hstep
      refine h.note hpolls rfl ?_ ?_ ?_ <;> rw [hstep]
      · exact fits_handOn (a := a) rfl (by simpa [hnone] using Query.makes_iff.mpr hrecords)
      all_goals cases records <;> simp [Poller.received, Poller.handOn]

theorem Sound.accept (h : Sound q g interval s) {r : TelemetryRecord}
    {unsent : List TelemetryRecord} (hphase : s.poller.phase = .sending r unsent) :
    Sound q g interval (s.accepted r) := by
  obtain ⟨p, rest, hpolls, hfits⟩ := h.exists_last (by simp [hphase]) (by simp [hphase])
  rw [hphase] at hfits
  obtain ⟨a, hanswer, hmakes⟩ := hfits
  have hstep : (s.poller.step .sent).phase = Poller.handOn unsent := by simp [Poller.step, hphase]
  refine h.note hpolls rfl ?_ ?_ ?_ <;> rw [hstep]
  · exact fits_handOn hanswer (by simpa using hmakes)
  all_goals cases unsent <;> simp [Poller.handOn]

theorem Sound.wake (h : Sound q g interval s) (hphase : s.poller.phase = .resting)
    (hover : s.wakeAt ≤ s.now) : Sound q g interval (s.tell .rested) := by
  have hstep : (s.tell .rested).poller.phase = .ready := by simp [tell, Poller.step, hphase]
  refine { h with
    query := by simp [tell, h.query], level := by simp [tell, h.level]
    last := fun p hp => ?_, begun := fun _ => .inl hstep
    resting := ?_, ready := fun _ p hp => Nat.le_trans (h.resting hphase p hp) hover, cause := ?_ }
  · rw [hstep]
    exact h.all_over (.inr hphase) p (List.mem_of_mem_head? hp)
  all_goals simp [hstep]

/-- Every turn keeps the invariant. -/
theorem Sound.turn (h : Sound q g interval s) (hturn : Turn s m s') : Sound q g interval s' := by
  cases hturn with
  | pass span =>
    exact { h with
      stamped := fun p hp => Nat.le_add_right_of_le (h.stamped p hp)
      ready := fun hphase p hp => Nat.le_add_right_of_le (h.ready hphase p hp) }
  | cancel => exact { h with cause := fun _ => .inl rfl }
  | close => exact { h with cause := fun _ => .inr rfl }
  | ask hphase _ => exact h.ask hphase
  | answer a hphase _ => exact h.answer a hphase
  | accept hphase _ _ => exact h.accept hphase
  | wake hphase _ hover => exact h.wake hphase hover
  | quit hgoing htoken =>
    exact h.cancelled hgoing (Poller.step_cancelled hgoing) (.inl htoken)
  | lose hphase _ hclosed =>
    exact h.cancelled (by simp [Poller.isEnded, Poller.end?, hphase]) (by simp [Poller.step, hphase])
      (.inr hclosed)

theorem Goes.sound {s₀ : Polling} (h : s₀.Goes s) (hstart : Sound q g interval s₀) :
    Sound q g interval s := by
  induction h with
  | stay => exact hstart
  | turn _ hturn ih => exact ih.turn hturn

/-! ## How a poller goes on -/

theorem Goes.of_ended (h : s.Goes s') (hended : s.poller.isEnded = true) :
    s'.poller = s.poller ∧ s'.polls = s.polls := by
  induction h with
  | stay => exact ⟨rfl, rfl⟩
  | turn _ hturn ih =>
    rw [← ih.1] at hended
    cases hturn with
    | pass | cancel | close => exact ih
    | ask hphase _ | answer _ hphase _ | accept hphase _ _ | wake hphase _ _ | lose hphase _ _ =>
      simp [Poller.isEnded, Poller.end?, hphase] at hended
    | quit hgoing _ => simp [hgoing] at hended

/-- A poller that goes on and finds its token set ends before it does anything else. -/
theorem cancels (htoken : s.isCancelled = true) (hgoing : s.poller.isEnded = false) :
    Leads (fun s' => s'.poller.end? = some .cancelled ∧ s'.polls = s.polls) s := by
  refine .onward ⟨.quit, _, rfl, .quit hgoing htoken⟩ fun m s' hown hturn => ?_
  cases hturn with
  | pass | cancel | close => cases hown
  | ask _ hunset | answer _ _ hunset | accept _ hunset _ | wake _ hunset _ | lose _ hunset _ =>
    rw [htoken] at hunset
    cases hunset
  | quit => exact .there ⟨by rw [tell, Poller.step_cancelled hgoing]; rfl, rfl⟩

/-- So does one that hands a record on and finds that nobody reads. -/
theorem closes (hclosed : s.isClosed = true) {r : TelemetryRecord} {rest : List TelemetryRecord}
    (hphase : s.poller.phase = .sending r rest) :
    Leads (fun s' => s'.poller.end? = some .cancelled ∧ s'.polls = s.polls) s := by
  have hgoing : s.poller.isEnded = false := by simp [Poller.isEnded, Poller.end?, hphase]
  cases htoken : s.isCancelled with
  | true => exact cancels htoken hgoing
  | false =>
    refine .onward ⟨.lose, _, rfl, .lose hphase htoken hclosed⟩ fun m s' hown hturn => ?_
    cases hturn with
    | pass | cancel | close => cases hown
    | ask hother _ | answer _ hother _ | wake hother _ _ => simp [hphase] at hother
    | accept _ _ hopen =>
      rw [hclosed] at hopen
      cases hopen
    | quit _ hset =>
      rw [htoken] at hset
      cases hset
    | lose => exact .there ⟨by simp [tell, Poller.step, hphase, Poller.end?], rfl⟩

/-- A poller whose records are taken does nothing but hand them on. -/
theorem Turn.of_sending (hturn : Turn s m s') (hown : m.isOwn) (htoken : s.isCancelled = false)
    (hopen : s.isClosed = false) {r : TelemetryRecord} {rest : List TelemetryRecord}
    (hphase : s.poller.phase = .sending r rest) : s' = s.accepted r := by
  cases hturn with
  | pass | cancel | close => cases hown
  | ask hother _ | answer _ hother _ | wake hother _ _ => simp [hphase] at hother
  | quit _ hset =>
    rw [htoken] at hset
    cases hset
  | lose _ _ hclosed =>
    rw [hopen] at hclosed
    cases hclosed
  | accept hsame _ _ =>
    rw [hphase] at hsame
    cases hsame
    rfl

theorem Sound.sent_accepted (h : Sound q g interval s) {r : TelemetryRecord}
    {rest : List TelemetryRecord} (hphase : s.poller.phase = .sending r rest) :
    (s.accepted r).sent = s.sent ++ [r] := by
  obtain ⟨p, earlier, hpolls, -⟩ := h.exists_last (by simp [hphase]) (by simp [hphase])
  simp [sent, accepted, noted, tell, hpolls]

theorem Sound.hands_on (h : Sound q g interval s) (htoken : s.isCancelled = false)
    (hopen : s.isClosed = false) {r : TelemetryRecord} {rest : List TelemetryRecord}
    (hphase : s.poller.phase = .sending r rest) :
    Leads (fun s' => s'.poller.phase = .resting ∧ s'.sent = s.sent ++ r :: rest) s := by
  -- on the records that wait behind the one that is handed on
  induction rest generalizing s r with
  | nil =>
    refine .onward ⟨.accept, _, rfl, .accept hphase htoken hopen⟩ fun m s' hown hturn => ?_
    obtain rfl := hturn.of_sending hown htoken hopen hphase
    refine .there ⟨?_, h.sent_accepted hphase⟩
    simp [Polling.accepted, noted, tell, Poller.step, hphase, Poller.handOn]
  | cons next rest ih =>
    refine .onward ⟨.accept, _, rfl, .accept hphase htoken hopen⟩ fun m s' hown hturn => ?_
    obtain rfl := hturn.of_sending hown htoken hopen hphase
    have hnext : (s.accepted r).poller.phase = .sending next rest := by
      simp [Polling.accepted, noted, tell, Poller.step, hphase, Poller.handOn]
    have hrest := ih (s := s.accepted r) (h.accept hphase) htoken hopen hnext
    simpa [h.sent_accepted hphase] using hrest

/-! ## The records of all polls -/

/-- The answers that were heard, in order. -/
def heard (s : Polling) : List QueryAnswer := s.polls.reverse.filterMap Poll.heard?

abbrev MakeAll (q : Query) (g : Granularity) : List QueryAnswer → List (List TelemetryRecord) → Prop :=
  List.Forall₂ fun a part => q.Makes g a.result part

theorem exists_parts_cons {p : Poll} {earlier : List Poll} {parts : List (List TelemetryRecord)}
    {records : List TelemetryRecord}
    (hparts : MakeAll q g (earlier.reverse.filterMap Poll.heard?) parts)
    (hsent : earlier.reverse.flatMap Poll.accepted = parts.flatten) (h : p.Lacks q g records) :
    ∃ parts', MakeAll q g ((p :: earlier).reverse.filterMap Poll.heard?) parts' ∧
      (p :: earlier).reverse.flatMap Poll.accepted ++ records = parts'.flatten := by
  unfold Poll.Lacks at h
  cases hheard : p.heard? with
  | none =>
    rw [hheard] at h
    exact ⟨parts, by simpa [hheard] using hparts, by simp [hsent, h.1, h.2]⟩
  | some a =>
    rw [hheard] at h
    refine ⟨parts ++ [p.accepted ++ records], ?_, by simp [hsent]⟩
    simpa [hheard] using List.rel_append hparts (.cons h .nil)

theorem exists_parts {polls : List Poll} (h : ∀ p ∈ polls, p.IsOver q g) :
    ∃ parts, MakeAll q g (polls.reverse.filterMap Poll.heard?) parts ∧
      polls.reverse.flatMap Poll.accepted = parts.flatten := by
  induction polls with
  | nil => exact ⟨[], .nil, rfl⟩
  | cons p earlier ih =>
    obtain ⟨hover, hearlier⟩ := List.forall_mem_cons.mp h
    obtain ⟨parts, hparts, hsent⟩ := ih hearlier
    simpa using exists_parts_cons hparts hsent (lacks_of_over hover)

/-- The last poll lacks what its poller is still to hand on, or, after a cancellation, some records. -/
theorem Sound.exists_lacks (h : Sound q g interval s) (hmade : s.poller.end? ≠ some .overflowed)
    {p : Poll} (hp : p ∈ s.polls.head?) :
    ∃ records, p.Lacks q g records ∧
      (s.poller.end? ≠ some .cancelled → records = s.poller.unsent) := by
  have hfits := h.last p hp
  have hwhole : s.poller.phase ≠ .ended .overflowed := mt Poller.end?_of_phase.mpr hmade
  by_cases hended : s.poller.phase = .ended .cancelled
  · rw [hended] at hfits
    obtain ⟨⟨records, hlacks⟩, -⟩ := hfits
    exact ⟨records, hlacks, fun hend => absurd (by rw [Poller.end?, hended]) hend⟩
  · exact ⟨_, lacks_of_fits hfits hended hwhole, fun _ => rfl⟩

theorem Sound.exists_sent (h : Sound q g interval s) (hmade : s.poller.end? ≠ some .overflowed) :
    ∃ parts unsent, MakeAll q g s.heard parts ∧ s.sent ++ unsent = parts.flatten ∧
      (s.poller.end? ≠ some .cancelled → unsent = s.poller.unsent) := by
  unfold heard sent
  cases hpolls : s.polls with
  | nil =>
    refine ⟨[], [], .nil, rfl, fun hend => ?_⟩
    rcases h.begun hpolls with hphase | hphase
    · rw [Poller.unsent, hphase]
    · exact absurd (by rw [Poller.end?, hphase]) hend
  | cons p earlier =>
    have hpast := h.past
    rw [hpolls] at hpast
    obtain ⟨parts, hparts, hsent⟩ := exists_parts hpast
    obtain ⟨unsent, hlacks, hunsent⟩ := h.exists_lacks hmade (p := p) (by rw [hpolls]; rfl)
    obtain ⟨all, hall, hflat⟩ := exists_parts_cons hparts hsent hlacks
    exact ⟨all, unsent, hall, hflat, hunsent⟩

theorem MakeAll.isDated {answers : List QueryAnswer} {parts : List (List TelemetryRecord)}
    (h : MakeAll q g answers parts) : ∀ a ∈ answers, a.result.IsDated g := by
  induction h with
  | nil => nofun
  | cons hmakes _ ih => exact List.forall_mem_cons.mpr ⟨Query.exists_makes.mp ⟨_, hmakes⟩, ih⟩

/-- How far the last poll has come after an answer that is not dated. -/
theorem fits_undated {p : Poll} {phase : PollPhase} {a : QueryAnswer} (h : p.Fits q g phase)
    (hanswer : p.answer = some (.ok a)) (hundated : ¬a.result.IsDated g) :
    phase = .ended .overflowed ∧ p.accepted = [] := by
  have hunmade : ∀ records, ¬q.Makes g a.result records :=
    fun records hmakes => hundated (Query.exists_makes.mp ⟨records, hmakes⟩)
  cases phase with
  | ready | resting | sending =>
    obtain ⟨a', hok, hmakes⟩ := h
    cases hanswer.symm.trans hok
    exact absurd hmakes (hunmade _)
  | asking => simp [h.1] at hanswer
  | ended reason =>
    cases reason with
    | failed e => simp [h.1] at hanswer
    | cancelled =>
      obtain ⟨⟨records, hlacks⟩, -⟩ := h
      simp only [Poll.Lacks, Poll.heard?, hanswer, Option.bind_some, Except.toOption] at hlacks
      exact absurd hlacks (hunmade _)
    | overflowed => exact ⟨rfl, h.choose_spec.2.2⟩

/-- An answer that is not dated was the last one, and has broken the poller off. -/
theorem Sound.broke_off (h : Sound q g interval s) {p : Poll} (hp : p ∈ s.polls) {a : QueryAnswer}
    (hanswer : p.answer = some (.ok a)) (hundated : ¬a.result.IsDated g) :
    s.polls.head? = some p ∧ p.accepted = [] ∧ s.poller.end? = some .overflowed := by
  cases hpolls : s.polls with
  | nil =>
    rw [hpolls] at hp
    cases hp
  | cons last earlier =>
    rw [hpolls] at hp
    have hpast := h.past
    rw [hpolls] at hpast
    rcases List.mem_cons.mp hp with rfl | hp
    · obtain ⟨hphase, hnone⟩ := fits_undated (h.last p (by rw [hpolls]; rfl)) hanswer hundated
      exact ⟨rfl, hnone, Poller.end?_of_phase.mpr hphase⟩
    · obtain ⟨a', hok, hmakes⟩ := hpast p hp
      cases hanswer.symm.trans hok
      exact absurd (Query.exists_makes.mp ⟨_, hmakes⟩) hundated

theorem Sound.overflowed (h : Sound q g interval s) (hend : s.poller.end? = some .overflowed) :
    ∃ p ∈ s.polls.head?, p.BrokeOff g := by
  have hphase : s.poller.phase = .ended .overflowed := Poller.end?_of_phase.mp hend
  obtain ⟨p, earlier, hpolls, hfits⟩ := h.exists_last (by simp [hphase]) (by simp [hphase])
  rw [hphase] at hfits
  exact ⟨p, by rw [hpolls]; rfl, hfits⟩

/-- A poller breaks off exactly at an answer that is not dated. -/
theorem Sound.overflowed_iff (h : Sound q g interval s) :
    s.poller.end? = some .overflowed ↔ ∃ a ∈ s.heard, ¬a.result.IsDated g := by
  constructor
  · intro hend
    obtain ⟨p, hp, a, hanswer, hundated, -⟩ := h.overflowed hend
    have hmem := List.mem_reverse.mpr (List.mem_of_mem_head? hp)
    exact ⟨a, List.mem_filterMap.mpr ⟨p, hmem, by rw [Poll.heard?, hanswer]; rfl⟩, hundated⟩
  · rintro ⟨a, ha, hundated⟩
    obtain ⟨p, hp, hheard⟩ := List.mem_filterMap.mp ha
    have hanswer : p.answer = some (.ok a) := by
      unfold Poll.heard? at hheard
      cases hok : p.answer with
      | none => simp [hok] at hheard
      | some r => cases r <;> simp_all [Except.toOption]
    exact (h.broke_off (List.mem_reverse.mp hp) hanswer hundated).2.2

/-- A query that failed was the last one, and has ended the poller. -/
theorem Sound.refused (h : Sound q g interval s) {p : Poll} (hp : p ∈ s.polls) {e : QueryError}
    (hanswer : p.answer = some (.error e)) :
    s.polls.head? = some p ∧ p.accepted = [] ∧ s.poller.end? = some (.failed e) := by
  cases hpolls : s.polls with
  | nil =>
    rw [hpolls] at hp
    cases hp
  | cons last earlier =>
    rw [hpolls] at hp
    have hpast := h.past
    rw [hpolls] at hpast
    rcases List.mem_cons.mp hp with rfl | hp
    · have hfits := h.last p (by rw [hpolls]; rfl)
      cases hend : s.poller.phase with
      | ended reason =>
        cases reason with
        | failed e' =>
          rw [hend] at hfits
          obtain ⟨hsame, hnone⟩ := hfits
          rw [hanswer] at hsame
          cases hsame
          exact ⟨rfl, hnone, by rw [Poller.end?, hend]⟩
        | _ => exact absurd hanswer (unrefused_of_fits hfits (by simp [hend]) e)
      | _ => exact absurd hanswer (unrefused_of_fits hfits (by simp [hend]) e)
    · obtain ⟨a, hok, -⟩ := hpast p hp
      rw [hanswer] at hok
      cases hok

end Sound

/-! ## What a run amounts to -/

/-- What holds of a poller whatever it is answered. -/
structure Orderly (q : Query) (g : Granularity) (interval : Nat) (s : Polling) : Prop where
  /-- Every answer but the last was a success, and all of its records were accepted, in order. -/
  past : ∀ p ∈ s.polls.tail, p.IsOver q g
  /-- Between what happened last in a poll and the next query the interval passes. -/
  apart : s.polls.Pairwise fun later earlier => earlier.last + interval ≤ later.asked
  /-- The poller asks only with all records accepted and the interval over. -/
  asks : ∀ s', Turn s .ask s' → ∀ p ∈ s.polls, p.IsOver q g ∧ p.last + interval ≤ s.now
  /-- Records that can be handed on are handed on. -/
  hands_on : s.isCancelled = false → s.isClosed = false → ∀ r rest,
    s.poller.phase = .sending r rest →
    Leads (fun s' => s'.poller.phase = .resting ∧ s'.sent = s.sent ++ r :: rest) s
  /-- The first failure is what the poller ends with, and nothing comes of that query. -/
  refused : ∀ p ∈ s.polls, ∀ e, p.answer = some (.error e) →
    s.polls.head? = some p ∧ p.accepted = [] ∧ s.poller.end? = some (.failed e)
  failed : ∀ e, s.poller.end? = some (.failed e) →
    ∃ p ∈ s.polls.head?, p.answer = some (.error e) ∧ p.accepted = []
  /-- The first answer that is not dated breaks the poller off, and nothing comes of it. -/
  broken_off : ∀ p ∈ s.polls, ∀ a, p.answer = some (.ok a) → ¬a.result.IsDated g →
    s.polls.head? = some p ∧ p.accepted = [] ∧ s.poller.end? = some .overflowed
  overflowed : s.poller.end? = some .overflowed → ∃ p ∈ s.polls.head?, p.BrokeOff g
  cancels : s.isCancelled → s.poller.isEnded = false →
    Leads (fun s' => s'.poller.end? = some .cancelled ∧ s'.polls = s.polls) s
  closes : s.isClosed → ∀ r rest, s.poller.phase = .sending r rest →
    Leads (fun s' => s'.poller.end? = some .cancelled ∧ s'.polls = s.polls) s
  cancelled : s.poller.end? = some .cancelled → s.isCancelled ∨ s.isClosed
  /-- A poller that has ended emits nothing any more. -/
  final : s.poller.isEnded → ∀ s', s.Goes s' → s'.poller = s.poller ∧ s'.polls = s.polls

/-- What a poller has emitted is exact. -/
structure Exact (q : Query) (g : Granularity) (interval : Nat) (s : Polling) : Prop
    extends Orderly q g interval s where
  /-- Of the last answer, all records were accepted that the poller is not still to hand on. -/
  last : ∀ p ∈ s.polls.head?, ∃ records, p.Lacks q g records ∧
    (s.poller.end? ≠ some .cancelled → records = s.poller.unsent)
  /-- So what was sent is, poll by poll, a beginning of what the answers make. -/
  sent : ∃ parts unsent, MakeAll q g s.heard parts ∧ s.sent ++ unsent = parts.flatten ∧
    (s.poller.end? ≠ some .cancelled → unsent = s.poller.unsent)

theorem Sound.orderly {q : Query} {g : Granularity} {interval : Nat} {s : Polling}
    (h : Sound q g interval s) : s.Orderly q g interval where
  past := h.past
  apart := h.apart
  asks := by
    rintro s' (_ | _ | _ | ⟨hphase, -⟩) p hp
    exact ⟨h.all_over (.inl hphase) p hp, h.ready hphase p hp⟩
  hands_on := fun htoken hopen _ _ => h.hands_on htoken hopen
  refused := fun _ hp _ => h.refused hp
  failed := by
    intro e hend
    have hphase : s.poller.phase = .ended (.failed e) := Poller.end?_of_phase.mp hend
    obtain ⟨p, earlier, hpolls, hfits⟩ := h.exists_last (by simp [hphase]) (by simp [hphase])
    rw [hphase] at hfits
    exact ⟨p, by rw [hpolls]; rfl, hfits⟩
  broken_off := fun _ hp _ => h.broke_off hp
  overflowed := h.overflowed
  cancels := cancels
  closes := fun hclosed _ _ => closes hclosed
  cancelled := fun hend => h.cause (Poller.end?_of_phase.mp hend)
  final := fun hended _ hgoes => hgoes.of_ended hended

/-- Whatever is answered, and whenever records are accepted, time passes, the token is set or the
reader goes away: what a poller has emitted is exact as long as it has heard no usable sample whose
minute lies before those of sixty-four bits. Such a sample breaks it off, and then it is not. -/
theorem polling_exact_iff (g : Granularity) (q : Query) (interval : Nat) {s : Polling}
    (h : (start g q interval).Goes s) : s.Orderly q g interval ∧
      (s.Exact q g interval ↔ ∀ a ∈ s.heard, a.result.IsDated g) := by
  have hsound : Sound q g interval s := h.sound (sound_start q g interval)
  refine ⟨hsound.orderly, fun hexact => ?_, fun hdated => ?_⟩
  · obtain ⟨parts, -, hparts, -⟩ := hexact.sent
    exact hparts.isDated
  · have hmade : s.poller.end? ≠ some .overflowed := by
      rw [Ne, hsound.overflowed_iff]
      rintro ⟨a, ha, hundated⟩
      exact hundated (hdated a ha)
    exact { hsound.orderly with
      last := fun _ => hsound.exists_lacks hmade
      sent := hsound.exists_sent hmade }

def podUsage : Query := ⟨"cpu.usage", "pods", none⟩

/-- Two samples that can be used, and between them one that is no number and one without a pod. -/
def podSamples : List Sample :=
  [⟨[("namespace", "default"), ("pod", "web-1")], 120500, 1.5⟩,
    ⟨[("namespace", "default"), ("pod", "web-2")], 120500, 0 / 0⟩,
    ⟨[("namespace", "default")], 120500, 2⟩,
    ⟨[("namespace", "default"), ("pod", "web-3")], 120500, 0.5⟩]

/-- A poll of which everything is accepted, the last record after some time, and one that fails. -/
theorem polling_exact_failed :
    ∃ s, (start .pod podUsage 55000).Goes s ∧
      s.sent = [⟨.object "default" "web-1", 120000, "cpu.usage", "", 1.5⟩,
        ⟨.object "default" "web-3", 120000, "cpu.usage", "", 0.5⟩] ∧
      s.polls.map Poll.asked = [55010, 0] ∧
      s.poller.end? = some (.failed (.http 503)) ∧ s.Exact podUsage .pod 55000 := by
  have hpoll : (start .pod podUsage 55000).Goes _ :=
    .turn (.turn (.turn (.turn (.turn .stay (.ask rfl rfl))
      (.answer (.ok ⟨.vector podSamples, []⟩) rfl rfl)) (.accept rfl rfl rfl)) (.pass _ 10))
      (.accept rfl rfl rfl)
  have hrun : (start .pod podUsage 55000).Goes _ :=
    .turn (.turn (.turn (.turn hpoll (.pass _ 55000)) (.wake rfl rfl (by decide))) (.ask rfl rfl))
      (.answer (.error (.http 503)) rfl rfl)
  have hdated : ∀ s ∈ podSamples, s.Usable .pod → firstMinute ≤ s.time.toInt := by
    simp only [podSamples, List.forall_mem_cons]
    exact ⟨fun _ => by decide, fun _ => by decide, fun _ => by decide, fun _ => by decide, nofun⟩
  refine ⟨_, hrun, rfl, rfl, rfl, (polling_exact_iff .pod podUsage 55000 hrun).2.mpr ?_⟩
  exact List.forall_mem_singleton.mpr hdated

/-- A sample that can be used, and one that a server reports as far below the range. -/
def earlySamples : List Sample :=
  [⟨[("namespace", "default"), ("pod", "web-1")], 120500, 1.5⟩,
    ⟨[("namespace", "default"), ("pod", "web-2")], Prometheus.millisOf (-1e300), 1⟩]

/-- Of an answer with both of these nothing is emitted, and the poller breaks off. -/
theorem polling_breaks_off :
    ∃ s, (start .pod podUsage 55000).Goes s ∧ s.heard = [⟨.vector earlySamples, []⟩] ∧
      s.isCancelled = false ∧ s.isClosed = false ∧ s.sent = [] ∧
      s.poller.end? = some .overflowed ∧ ¬s.Exact podUsage .pod 55000 := by
  have hundated : ¬QueryResult.IsDated .pod (.vector earlySamples) := by
    intro hdated
    have hearly := hdated _ (.tail _ (.head _)) ⟨by decide +kernel, by decide⟩
    exact absurd hearly (by decide +kernel)
  have hrun : (start .pod podUsage 55000).Goes _ :=
    .turn (.turn .stay (.ask rfl rfl)) (.answer (.ok ⟨.vector earlySamples, []⟩) rfl rfl)
  have hsound := hrun.sound (sound_start podUsage .pod 55000)
  obtain ⟨-, -, hend⟩ := hsound.broke_off (.head _) rfl hundated
  refine ⟨_, hrun, rfl, rfl, rfl, rfl, hend, fun hexact => ?_⟩
  obtain ⟨parts, -, hparts, -⟩ := hexact.sent
  exact hundated (hparts.isDated _ (.head _))

/-! ## Rehearsals -/

/-- A rehearsal has come as far as a poller on a clock. -/
structure Plays (r : PollerRun) (s : Polling) : Prop where
  poller : r.poller = s.poller
  now : r.now = s.now
  interval : r.interval = s.interval
  reader : r.isRead = !s.isClosed
  token : s.isCancelled = false
  taken : r.taken.reverse = s.sent
  /-- A rest never takes longer than the interval. -/
  wake : s.wakeAt ≤ s.now + s.interval

section Plays
variable {q : Query} {g : Granularity} {interval horizon : Nat} {r r' : PollerRun}
  {s₀ s : Polling} {told : PollSignal}

theorem sent_answered (a : Except QueryError QueryAnswer) : (s.answered a).sent = s.sent := by
  cases hpolls : s.polls <;> simp [sent, answered, noted, tell, hpolls]

/-- What a rehearsal lets happen can happen to a poller. -/
theorem Plays.signal (h : Plays r s) (hsound : Sound q g interval s) (hgoes : s₀.Goes s)
    (hsignal : r.signal? horizon = some (told, r')) :
    ∃ s', s₀.Goes s' ∧ Plays { r' with poller := r'.poller.step told } s' := by
  obtain ⟨poller, metrics, rest, isRead, now, taken⟩ := r
  obtain ⟨rfl, rfl, rfl, hreader, htoken, htaken, hwake⟩ := h
  unfold PollerRun.signal? at hsignal
  cases hphase : s.poller.phase with
  | ready =>
    simp only [hphase, Option.some.injEq, Prod.mk.injEq] at hsignal
    obtain ⟨rfl, rfl⟩ := hsignal
    refine ⟨_, hgoes.turn (.ask hphase htoken), rfl, rfl, rfl, hreader, htoken, ?_, hwake⟩
    simpa [sent, asked, tell] using htaken
  | asking =>
    simp only [hphase, Option.some.injEq, Prod.mk.injEq] at hsignal
    obtain ⟨rfl, rfl⟩ := hsignal
    exact ⟨_, hgoes.turn (.answer (metrics.query s.poller.query.expression).1 hphase htoken), rfl,
      rfl, rfl, hreader, htoken, htaken.trans (sent_answered _).symm, Nat.le_refl _⟩
  | sending record waiting =>
    cases hclosed : s.isClosed with
    | true =>
      obtain rfl : isRead = false := by simpa [hclosed] using hreader
      simp only [hphase, Bool.false_eq_true, if_false, Option.some.injEq, Prod.mk.injEq] at hsignal
      obtain ⟨rfl, rfl⟩ := hsignal
      exact ⟨_, hgoes.turn (.lose hphase htoken hclosed), rfl, rfl, rfl, hreader, htoken, htaken,
        hwake⟩
    | false =>
      obtain rfl : isRead = true := by simpa [hclosed] using hreader
      simp only [hphase, if_true, Option.some.injEq, Prod.mk.injEq] at hsignal
      obtain ⟨rfl, rfl⟩ := hsignal
      have hsent : (s.accepted record).sent = s.sent ++ [record] := hsound.sent_accepted hphase
      refine ⟨_, hgoes.turn (.accept hphase htoken hclosed), rfl, rfl, rfl, hreader, htoken, ?_,
        Nat.le_refl _⟩
      simpa [hsent] using htaken
  | resting =>
    simp only [hphase] at hsignal
    split at hsignal
    · simp only [Option.some.injEq, Prod.mk.injEq] at hsignal
      obtain ⟨rfl, rfl⟩ := hsignal
      -- with the interval every rest is over, whenever it began
      exact ⟨_, (hgoes.turn (.pass s s.interval)).turn (.wake hphase htoken hwake), rfl, rfl, rfl,
        hreader, htoken, htaken, Nat.le_add_right_of_le hwake⟩
    · cases hsignal
  | ended reason => simp [hphase] at hsignal

theorem Plays.settle (h : Plays r s) (hgoes : (start g q interval).Goes s) (horizon fuel : Nat) :
    ∃ s', (start g q interval).Goes s' ∧ Plays (r.settle horizon fuel) s' := by
  induction fuel generalizing r s with
  | zero => exact ⟨s, hgoes, h⟩
  | succ fuel ih =>
    unfold PollerRun.settle
    cases hsignal : r.signal? horizon with
    | none => exact ⟨s, hgoes, h⟩
    | some x =>
      obtain ⟨s', hgoes', hplays⟩ :=
        h.signal (hgoes.sound (sound_start q g interval)) hgoes hsignal
      exact ih hplays hgoes'

def rehearsed (g : Granularity) (q : Query) (metrics : ScriptedMetrics) (interval : Nat)
    (isRead : Bool) : PollerRun where
  poller := { granularity := g, query := q }
  metrics
  interval
  isRead

theorem exists_plays (g : Granularity) (q : Query) (metrics : ScriptedMetrics) (interval : Nat)
    (isRead : Bool) : ∃ s, (start g q interval).Goes s ∧
      Plays (rehearsed g q metrics interval isRead) s := by
  cases isRead with
  | true => exact ⟨_, .stay, rfl, rfl, rfl, rfl, rfl, rfl, Nat.zero_le _⟩
  | false => exact ⟨_, .turn .stay (.close _), rfl, rfl, rfl, rfl, rfl, rfl, Nat.zero_le _⟩

theorem rehearsal_goes (g : Granularity) (q : Query) (metrics : ScriptedMetrics) (interval : Nat)
    (isRead : Bool) (horizon : Nat) : ∃ s, (start g q interval).Goes s ∧
      ((rehearsed g q metrics interval isRead).run horizon).poller = s.poller ∧
      ((rehearsed g q metrics interval isRead).run horizon).taken.reverse = s.sent := by
  obtain ⟨s, hgoes, hplays⟩ := exists_plays g q metrics interval isRead
  obtain ⟨s', hgoes', hplays'⟩ := hplays.settle hgoes horizon
    ((rehearsed g q metrics interval isRead).bound horizon)
  have hpoller : ((rehearsed g q metrics interval isRead).run horizon).poller =
      s'.poller.step .cancelled := congrArg (Poller.step · .cancelled) hplays'.poller
  rw [hpoller]
  -- at the end it is cancelled, which changes nothing where it has ended before
  cases hended : s'.poller.isEnded with
  | true => exact ⟨s', hgoes', Poller.step_of_isEnded hended _, hplays'.taken⟩
  | false =>
    exact ⟨_, (hgoes'.turn (.cancel s')).turn (.quit hended rfl), rfl, hplays'.taken⟩

end Plays
end Polling
end KubeLedger
