import KubeLedger.Proofs.Streams

/- Streams on a clock. Time passes only while the streamer has nothing to do (`Stream.IsIdle`), so rows
   are taken when they arrive and writes take no time; nothing else holds the clock. With each row goes
   the time of its arrival: of rows in the channel (`stamps`), of rows that wait in the batch (`held`), and
   of rows that were passed to the store, with the time of that (`flushed`).

   The deadline is then that of the oldest row in the batch at all times (`Punctual`). A streamer that
   waits for a deadline is idle only until it comes, so time cannot pass it before the batch is written;
   and since each of its own moves leaves less to do, it comes to rest and time goes on (`Rests`). -/
namespace KubeLedger

namespace Stream

/-- Whether a stream can make a move of its own at a time. It takes a row at that time, and lets a
deadline pass that has come. -/
def IsTimely (s : Stream) (now : Nat) : StreamMove → Prop
  | .receive t => t = now
  | .expire => ∃ d ∈ s.streamer.deadline, d ≤ now
  | _ => True

/-- Nothing can be done by the streamer at a time. -/
def IsIdle (s : Stream) (now : Nat) : Prop :=
  ∀ m s', m.isOwn → s.IsTimely now m → ¬ Turn s m s'

/-- A streamer has nothing to do once it has ended, or as long as it finds neither a row nor the end of
its rows nor its token set, and its deadline has not come. -/
theorem isIdle_iff {s : Stream} {now : Nat} : s.IsIdle now ↔
    (∃ result, s.streamer.phase = .ended result) ∨
      s.streamer.phase = .filling ∧ s.isCancelled = false ∧ s.channel = [] ∧ s.isClosed = false ∧
        ∀ d ∈ s.streamer.deadline, now < d := by
  constructor
  · intro h
    cases hphase : s.streamer.phase with
    | ended result => exact .inl ⟨result, rfl⟩
    | writing rows isLast => exact absurd (.wrote (.ok ()) hphase) (h (.wrote (.ok ())) _ rfl trivial)
    | filling =>
      have htoken : s.isCancelled = false := Bool.eq_false_iff.mpr fun hset =>
        h .quit _ rfl trivial (.quit hphase hset)
      have hchannel : s.channel = [] := by
        cases hchannel : s.channel with
        | nil => rfl
        | cons r rest => exact absurd (.receive now hphase htoken hchannel) (h (.receive now) _ rfl rfl)
      have hopen : s.isClosed = false := Bool.eq_false_iff.mpr fun hclosed =>
        h .finish _ rfl trivial (.finish hphase htoken hclosed hchannel)
      refine .inr ⟨rfl, htoken, hchannel, hopen, fun d hd => Nat.lt_of_not_le fun hcome => ?_⟩
      have hsome : s.streamer.deadline.isSome := Option.isSome_of_mem hd
      exact h .expire _ rfl ⟨d, hd, hcome⟩ (.expire hphase htoken hsome)
  · rintro (⟨result, hended⟩ | ⟨hfilling, htoken, hchannel, hopen, hdeadline⟩) m s' hown htimely hturn
    · rw [(hturn.of_ended hended).1] at hown
      cases hown
    · cases hturn with
      | send | close | cancel => cases hown
      | receive _ _ _ hsome =>
        rw [hchannel] at hsome
        cases hsome
      | expire =>
        obtain ⟨d, hd, hcome⟩ := htimely
        exact absurd hcome (Nat.not_le_of_lt (hdeadline d hd))
      | finish _ _ hclosed =>
        rw [hopen] at hclosed
        cases hclosed
      | wrote _ hwriting =>
        rw [hfilling] at hwriting
        cases hwriting
      | quit _ hset =>
        rw [htoken] at hset
        cases hset

/-- A signal that makes the streamer write passes on the rows that waited. -/
theorem batches_tell_flush {s : Stream} {g : StreamSignal} {streamer : Streamer} {isLast : Bool}
    (hfilling : s.streamer.phase = .filling) (hstep : s.streamer.step g = streamer.flush isLast) :
    (s.tell g).log.batches = s.log.batches ++ [streamer.batch] := by
  simp [tell, StreamLog.note, Streamer.passed, hfilling, hstep, Streamer.flush]

theorem batches_tell_kept {s : Stream} {g : StreamSignal}
    (h : ∀ rows isLast, (s.streamer.step g).phase ≠ .writing rows isLast) :
    (s.tell g).log.batches = s.log.batches := by
  have hnone : s.streamer.passed g = [] := by
    unfold Streamer.passed
    split
    · rename_i hwriting
      exact absurd hwriting (h _ _)
    · rfl
  simp [tell, StreamLog.note, hnone]

end Stream

structure Flush where
  rows : List Row
  /-- When the rows arrived. -/
  arrivals : List Nat
  /-- When the batch was passed on. -/
  time : Nat

/-- A stream on a clock. -/
structure TimedStream where
  stream : Stream
  now : Nat := 0
  /-- When the rows in the channel arrived. -/
  stamps : List Nat := []
  /-- When the rows in the batch arrived. -/
  held : List Nat := []
  flushed : List Flush := []
  /-- When the channel was closed. -/
  closedAt : Option Nat := none

namespace TimedStream

/-- A streamer that has just begun. -/
def start (how : Upsert) (config : BatchConfig) : TimedStream where
  stream := .start how config

/-- The arrivals of the rows in the channel after a move. -/
def stampsAfter (s : TimedStream) : StreamMove → List Nat
  | .send _ => s.stamps ++ [s.now]
  | .receive _ => s.stamps.drop 1
  | _ => s.stamps

/-- The arrivals of the rows in the batch after a move, if it is not passed on. -/
def heldAfter (s : TimedStream) : StreamMove → List Nat
  | .receive _ => s.held ++ s.stamps.take 1
  | _ => s.held

def closedAfter (s : TimedStream) : StreamMove → Option Nat
  | .close => s.closedAt.or (some s.now)
  | _ => s.closedAt

/-- The stream after a move. Times go with their rows. -/
def after (s : TimedStream) (m : StreamMove) (stream : Stream) : TimedStream :=
  let passed := stream.log.batches.drop s.stream.log.batches.length
  { stream
    now := s.now
    stamps := s.stampsAfter m
    held := if passed.isEmpty then s.heldAfter m else []
    flushed := s.flushed ++ passed.map fun rows => ⟨rows, s.heldAfter m, s.now⟩
    closedAt := s.closedAfter m }

/-- What can happen: a move that is possible at the time, or that time passes while the streamer has
nothing to do. -/
inductive Turn : TimedStream → TimedStream → Prop
  | move {s : TimedStream} {m : StreamMove} {stream : Stream} : s.stream.Turn m stream →
    s.stream.IsTimely s.now m → Turn s (s.after m stream)
  | pass {s : TimedStream} (span : Nat) :
    (∀ t, s.now ≤ t → t < s.now + span → s.stream.IsIdle t) → Turn s { s with now := s.now + span }

/-- Where a stream can go. -/
inductive Goes (s₀ : TimedStream) : TimedStream → Prop
  | stay : Goes s₀ s₀
  | turn {s s' : TimedStream} : Goes s₀ s → Turn s s' → Goes s₀ s'

/-- However the streamer goes on by moves of its own, it comes to have nothing to do without that time
passes. -/
inductive Rests : TimedStream → Prop
  | idle {s : TimedStream} : s.stream.IsIdle s.now → Rests s
  | onward {s : TimedStream} :
    (∃ m stream, m.isOwn ∧ s.stream.IsTimely s.now m ∧ s.stream.Turn m stream) →
    (∀ m stream, m.isOwn → s.stream.IsTimely s.now m → s.stream.Turn m stream →
      Rests (s.after m stream)) → Rests s

end TimedStream

/-- A batch was passed on in time: when it was full, or when its oldest row had waited as long as it may,
or when the channel was closed, and at the latest then. -/
structure Flush.IsInTime (config : BatchConfig) (closedAt : Option Nat) (f : Flush) : Prop where
  aligned : f.arrivals.length = f.rows.length
  oldest : ∃ a ∈ f.arrivals.head?, (∀ b ∈ f.arrivals, a ≤ b ∧ b ≤ f.time) ∧
    f.time ≤ a + config.maxFill ∧
    (f.rows.length < config.maxSize → f.time = a + config.maxFill ∨ closedAt = some f.time)

/-- The arrivals of rows that wait are in order, and the deadline is that of the first. -/
structure Streamer.IsHeld (config : BatchConfig) (now : Nat) (held : List Nat) (s : Streamer) : Prop
    where
  aligned : held.length = s.batch.length
  deadline : s.deadline = held.head?.map fun a => a + config.maxFill
  oldest : ∀ a ∈ held.head?, ∀ b ∈ held, a ≤ b ∧ b ≤ now

namespace Streamer.IsHeld

variable {config : BatchConfig} {now : Nat} {held : List Nat} {s : Streamer}

theorem none (hbatch : s.batch = []) (hdeadline : s.deadline = .none) : s.IsHeld config now [] where
  aligned := by rw [hbatch]; rfl
  deadline := hdeadline
  oldest := nofun

theorem later (h : s.IsHeld config now held) (span : Nat) : s.IsHeld config (now + span) held where
  aligned := h.aligned
  deadline := h.deadline
  oldest := fun a ha b hb => ⟨(h.oldest a ha b hb).1, Nat.le_add_right_of_le (h.oldest a ha b hb).2⟩

theorem head_append (held : List Nat) (now : Nat) :
    (held ++ [now]).head? = held.head?.or (some now) := List.head?_append

/-- A row that comes now is the first, or is behind the first. -/
theorem take (h : s.IsHeld config now held) (hconfig : s.config = config) (r : Row) :
    (s.take r now).IsHeld config now (held ++ [now]) where
  aligned := by simp [Streamer.take, h.aligned]
  deadline := by
    show s.deadline.or (some (now + s.config.maxFill)) = _
    rw [h.deadline, hconfig, head_append]
    cases held.head? <;> rfl
  oldest := by
    intro a ha b hb
    rw [head_append] at ha
    cases hhead : held.head? with
    | none =>
      obtain rfl := List.head?_eq_none_iff.mp hhead
      obtain rfl : b = now := by simpa using hb
      obtain rfl : b = a := by simpa using ha
      exact ⟨Nat.le_refl _, Nat.le_refl _⟩
    | some first =>
      rw [hhead] at ha
      obtain rfl : first = a := by simpa using ha
      rcases List.mem_append.mp hb with hb | hb
      · exact h.oldest first hhead b hb
      · obtain rfl := List.mem_singleton.mp hb
        exact ⟨(h.oldest first hhead first (List.mem_of_head? hhead)).2, Nat.le_refl _⟩

/-- A batch that is passed on while its deadline has not gone by is passed on in time. -/
theorem inTime (h : s.IsHeld config now held) {closedAt : Option Nat} (hne : s.batch ≠ [])
    (hdue : ∀ a ∈ held.head?, now ≤ a + config.maxFill)
    (hcause : s.batch.length < config.maxSize → ∀ a ∈ held.head?,
      now = a + config.maxFill ∨ closedAt = some now) :
    Flush.IsInTime config closedAt ⟨s.batch, held, now⟩ where
  aligned := h.aligned
  oldest := by
    have hlength := h.aligned
    cases hhead : held.head? with
    | none =>
      rw [List.head?_eq_none_iff.mp hhead] at hlength
      exact absurd (List.length_eq_zero_iff.mp hlength.symm) hne
    | some a =>
      exact ⟨a, rfl, h.oldest a hhead, hdue a hhead, fun hshort => hcause hshort a hhead⟩

end Streamer.IsHeld

namespace TimedStream

/-- What holds of a stream on a clock all along. -/
structure Punctual (how : Upsert) (config : BatchConfig) (s : TimedStream) : Prop where
  sound : s.stream.Sound how config
  stamped : s.stamps.length = s.stream.channel.length
  /-- No time has passed since the rows in the channel arrived. -/
  arrived : s.stream.streamer.end? = none → ∀ a ∈ s.stamps, a = s.now
  closing : s.closedAt.isSome = s.stream.isClosed
  /-- Nor since the channel was closed. -/
  closed : s.stream.streamer.end? = none → ∀ c ∈ s.closedAt, c = s.now
  held : s.stream.streamer.IsHeld config s.now s.held
  due : s.stream.streamer.end? ≠ some .cancelled → ∀ a ∈ s.held.head?, s.now ≤ a + config.maxFill
  batches : s.flushed.map Flush.rows = s.stream.log.batches
  inTime : ∀ f ∈ s.flushed, f.IsInTime config s.closedAt

section Punctual
variable {how : Upsert} {config : BatchConfig} {s s' : TimedStream} {m : StreamMove} {stream : Stream}

theorem after_kept (h : stream.log.batches = s.stream.log.batches) : s.after m stream =
    { s with
      stream, stamps := s.stampsAfter m, held := s.heldAfter m, closedAt := s.closedAfter m } := by
  simp [after, h]

theorem after_flush {rows : List Row} (h : stream.log.batches = s.stream.log.batches ++ [rows]) :
    s.after m stream =
      { s with
        stream, stamps := s.stampsAfter m, held := []
        flushed := s.flushed ++ [⟨rows, s.heldAfter m, s.now⟩]
        closedAt := s.closedAfter m } := by
  simp [after, h]

theorem punctual_start (how : Upsert) {config : BatchConfig} (hsize : 1 ≤ config.maxSize) :
    Punctual how config (start how config) where
  sound := Stream.sound_start how hsize
  stamped := rfl
  arrived := fun _ => nofun
  closing := rfl
  closed := fun _ => nofun
  held := .none rfl rfl
  due := fun _ => nofun
  batches := rfl
  inTime := nofun

theorem Punctual.none_held (h : Punctual how config s) {result : StreamEnd}
    (hended : s.stream.streamer.phase = .ended result) (hresult : result ≠ .cancelled) :
    s.held = [] := by
  have hphase := h.sound.balanced.phase
  rw [hended] at hphase
  have hempty : s.stream.streamer.batch = [] := by
    cases result with
    | finished n => exact hphase.2.1
    | failed e => exact hphase.2.1
    | cancelled => exact absurd rfl hresult
  have hlength := h.held.aligned
  rw [hempty] at hlength
  exact List.length_eq_zero_iff.mp hlength

theorem Punctual.due_of_going (h : Punctual how config s) (hgoing : s.stream.streamer.end? = none) :
    ∀ a ∈ s.held.head?, s.now ≤ a + config.maxFill :=
  h.due (by simp [hgoing])

/-- Time passes only up to the deadline. -/
theorem Punctual.pass (h : Punctual how config s) (span : Nat)
    (hidle : ∀ t, s.now ≤ t → t < s.now + span → s.stream.IsIdle t) :
    Punctual how config { s with now := s.now + span } := by
  cases span with
  | zero => exact h
  | succ n =>
    -- the last instant that passes is one at which nothing could be done
    have hlast := Stream.isIdle_iff.mp (hidle (s.now + n) (Nat.le_add_right ..) (by omega))
    rcases hlast with ⟨result, hended⟩ | ⟨hfilling, -, hchannel, hopen, hdeadline⟩
    · have hend : s.stream.streamer.end? = some result := Stream.end?_of_phase.mpr hended
      refine { h with
        arrived := fun hgoing => ?_
        closed := fun hgoing => ?_
        held := h.held.later (n + 1)
        due := fun hcancelled a ha => ?_ }
      · rw [hend] at hgoing
        cases hgoing
      · rw [hend] at hgoing
        cases hgoing
      · have hresult : result ≠ .cancelled := by
          rintro rfl
          exact hcancelled hend
        rw [h.none_held hended hresult] at ha
        cases ha
    · have hstamps : s.stamps = [] := by
        have hlength := h.stamped
        rw [hchannel] at hlength
        exact List.length_eq_zero_iff.mp hlength
      have hclosedAt : s.closedAt = none := by
        have hclosing := h.closing
        rw [hopen] at hclosing
        simpa using hclosing
      refine { h with
        arrived := fun _ a ha => ?_
        closed := fun _ c hc => ?_
        held := h.held.later (n + 1)
        due := fun _ a ha => ?_ }
      · rw [hstamps] at ha
        cases ha
      · rw [hclosedAt] at hc
        cases hc
      · have hset : a + config.maxFill ∈ s.stream.streamer.deadline := by
          rw [h.held.deadline, show s.held.head? = some a from ha]
          rfl
        have hbefore := hdeadline _ hset
        show s.now + (n + 1) ≤ a + config.maxFill
        omega

/-- A move that neither takes a row nor passes on a batch. -/
theorem Punctual.kept (h : Punctual how config s) (hsound : stream.Sound how config)
    (hchannel : stream.channel = s.stream.channel) (hclosed : stream.isClosed = s.stream.isClosed)
    (hlog : stream.log.batches = s.stream.log.batches)
    (hbatch : stream.streamer.batch = s.stream.streamer.batch)
    (hdeadline : stream.streamer.deadline = s.stream.streamer.deadline)
    (hgoing : s.stream.streamer.end? = none ∨ stream.streamer = s.stream.streamer) :
    Punctual how config { s with stream } := by
  have hgoing' : stream.streamer.end? = none → s.stream.streamer.end? = none := by
    intro hend
    rcases hgoing with hgoing | hsame
    · exact hgoing
    · rw [← hsame, hend]
  refine
    { sound := hsound
      stamped := by rw [hchannel]; exact h.stamped
      arrived := fun hend => h.arrived (hgoing' hend)
      closing := by rw [hclosed]; exact h.closing
      closed := fun hend => h.closed (hgoing' hend)
      held := ⟨by rw [hbatch]; exact h.held.aligned, by rw [hdeadline]; exact h.held.deadline,
        h.held.oldest⟩
      due := fun hend => h.due ?_
      batches := h.batches.trans hlog.symm
      inTime := h.inTime }
  rcases hgoing with hgoing | hsame
  · rw [hgoing]
    exact nofun
  · rwa [← hsame]

/-- The batch that waits is passed on in time. -/
theorem Punctual.flush (h : Punctual how config s) (hgoing : s.stream.streamer.end? = none)
    {streamer : Streamer} {isLast : Bool} {held stamps : List Nat}
    (hheld : streamer.IsHeld config s.now held) (hne : streamer.batch ≠ [])
    (hdue : ∀ a ∈ held.head?, s.now ≤ a + config.maxFill)
    (hcause : streamer.batch.length < config.maxSize → ∀ a ∈ held.head?,
      s.now = a + config.maxFill ∨ s.closedAt = some s.now)
    (hsound : stream.Sound how config) (hstreamer : stream.streamer = streamer.flush isLast)
    (hlog : stream.log.batches = s.stream.log.batches ++ [streamer.batch])
    (hclosed : stream.isClosed = s.stream.isClosed)
    (hstamps : stamps.length = stream.channel.length) (hsub : stamps ⊆ s.stamps) :
    Punctual how config { s with
      stream, stamps, held := [], flushed := s.flushed ++ [⟨streamer.batch, held, s.now⟩] } where
  sound := hsound
  stamped := hstamps
  arrived := fun _ a ha => h.arrived hgoing a (hsub ha)
  closing := by rw [hclosed]; exact h.closing
  closed := fun _ => h.closed hgoing
  held := by
    show stream.streamer.IsHeld config s.now []
    rw [hstreamer]
    exact .none rfl rfl
  due := fun _ => nofun
  batches := by
    show (s.flushed ++ _).map Flush.rows = stream.log.batches
    rw [List.map_append, h.batches, hlog]
    rfl
  inTime := by
    intro f hf
    rcases List.mem_append.mp hf with hf | hf
    · exact h.inTime f hf
    · rw [List.mem_singleton.mp hf]
      exact hheld.inTime hne hdue hcause

/-- Taking a row, with or without that the batch is full. -/
theorem Punctual.receive (h : Punctual how config s) {r : Row} {rest : List Row}
    (hfilling : s.stream.streamer.phase = .filling) (htoken : s.stream.isCancelled = false)
    (hchannel : s.stream.channel = r :: rest) :
    Punctual how config (s.after (.receive s.now)
      ({ s.stream with channel := rest }.tell (.row r s.now))) := by
  have hgoing : s.stream.streamer.end? = none := by rw [Streamer.end?, hfilling]
  have hsound := h.sound.turn (.receive s.now hfilling htoken hchannel)
  obtain ⟨a, stamps, hstamps⟩ : ∃ a stamps, s.stamps = a :: stamps := by
    refine List.exists_cons_of_length_eq_add_one (n := rest.length) ?_
    rw [h.stamped, hchannel, List.length_cons]
  obtain rfl : a = s.now := h.arrived hgoing a (hstamps ▸ List.mem_cons_self)
  have htaken := h.held.take h.sound.balanced.same_config r
  have hdue : ∀ a ∈ (s.held ++ [s.now]).head?, s.now ≤ a + config.maxFill := by
    intro a ha
    rw [Streamer.IsHeld.head_append] at ha
    cases hhead : s.held.head? with
    | none =>
      rw [hhead] at ha
      obtain rfl : s.now = a := by simpa using ha
      exact Nat.le_add_right ..
    | some first =>
      rw [hhead] at ha
      obtain rfl : first = a := by simpa using ha
      exact h.due_of_going hgoing first hhead
  have hstep : s.stream.streamer.step (.row r s.now) = _ := Streamer.step_row hfilling
  have hheld : s.heldAfter (.receive s.now) = s.held ++ [s.now] := by simp [heldAfter, hstamps]
  have hrest : s.stampsAfter (.receive s.now) = stamps := by simp [stampsAfter, hstamps]
  have hlength : stamps.length = rest.length := by
    simpa [hstamps, hchannel] using h.stamped
  have hsub : stamps ⊆ s.stamps := hstamps ▸ List.subset_cons_self s.now stamps
  by_cases hfull : s.stream.streamer.config.maxSize ≤ s.stream.streamer.batch.length + 1
  · rw [if_pos hfull] at hstep
    have hlog : ({ s.stream with channel := rest }.tell (.row r s.now)).log.batches =
        s.stream.log.batches ++ [(s.stream.streamer.take r s.now).batch] :=
      Stream.batches_tell_flush hfilling hstep
    rw [after_flush hlog, hheld, hrest]
    refine h.flush hgoing htaken (by simp [Streamer.take]) hdue (fun hshort => ?_) hsound hstep hlog
      rfl hlength hsub
    -- the batch is full
    rw [← h.sound.balanced.same_config] at hshort
    simp only [Streamer.take, List.length_append, List.length_singleton] at hshort
    omega
  · rw [if_neg hfull] at hstep
    have hlog : ({ s.stream with channel := rest }.tell (.row r s.now)).log.batches =
        s.stream.log.batches := by
      refine Stream.batches_tell_kept fun rows isLast => ?_
      show (s.stream.streamer.step _).phase ≠ _
      simp [hstep, Streamer.take, hfilling]
    rw [after_kept hlog, hheld, hrest]
    exact { h with
      sound := hsound
      stamped := hlength
      arrived := fun _ a ha => h.arrived hgoing a (hsub ha)
      closed := fun _ => h.closed hgoing
      held := by
        show Streamer.IsHeld config s.now (s.held ++ [s.now]) (s.stream.streamer.step _)
        rw [hstep]
        exact htaken
      due := fun _ => hdue
      batches := h.batches.trans hlog.symm }

/-- Letting the deadline pass. -/
theorem Punctual.expire (h : Punctual how config s) (hfilling : s.stream.streamer.phase = .filling)
    (htoken : s.stream.isCancelled = false) (hcome : ∃ d ∈ s.stream.streamer.deadline, d ≤ s.now) :
    Punctual how config (s.after .expire (s.stream.tell .expired)) := by
  obtain ⟨d, hd, hcome⟩ := hcome
  have hgoing : s.stream.streamer.end? = none := by rw [Streamer.end?, hfilling]
  have hsome : s.stream.streamer.deadline.isSome := Option.isSome_of_mem hd
  have hne : s.stream.streamer.batch ≠ [] := by simpa [h.sound.balanced.deadline] using hsome
  have hsound := h.sound.turn (.expire hfilling htoken hsome)
  have hstep := Streamer.step_expired hfilling
  rw [if_neg (by simpa using hne)] at hstep
  have hlog := Stream.batches_tell_flush hfilling hstep
  have hdue := h.due_of_going hgoing
  rw [after_flush hlog]
  refine h.flush hgoing h.held hne hdue (fun _ a ha => .inl ?_) hsound hstep hlog rfl h.stamped
    (List.Subset.refl _)
  -- the deadline has come, and has not gone by
  have hset : d = a + config.maxFill := by
    rw [h.held.deadline, show s.held.head? = some a from ha] at hd
    exact (Option.some.inj hd).symm
  have hlate := hdue a ha
  omega

/-- Finding the channel closed, with or without that rows wait. -/
theorem Punctual.finish (h : Punctual how config s) (hfilling : s.stream.streamer.phase = .filling)
    (htoken : s.stream.isCancelled = false) (hclosed : s.stream.isClosed = true)
    (hchannel : s.stream.channel = []) :
    Punctual how config (s.after .finish (s.stream.tell .closed)) := by
  have hgoing : s.stream.streamer.end? = none := by rw [Streamer.end?, hfilling]
  have hsound := h.sound.turn (.finish hfilling htoken hclosed hchannel)
  have hstep := Streamer.step_closed hfilling
  by_cases hempty : s.stream.streamer.batch = []
  · rw [if_pos (by simpa using hempty)] at hstep
    have hlog : (s.stream.tell .closed).log.batches = s.stream.log.batches :=
      Stream.batches_tell_kept (by simp [hstep])
    rw [after_kept hlog]
    refine h.kept hsound rfl rfl hlog ?_ ?_ (.inl hgoing)
    · simp only [Stream.tell, hstep]
    · simp only [Stream.tell, hstep]
  · rw [if_neg (by simpa using hempty)] at hstep
    have hlog := Stream.batches_tell_flush hfilling hstep
    rw [after_flush hlog]
    refine h.flush hgoing h.held hempty (h.due_of_going hgoing)
      (fun _ a ha => .inr ?_) hsound hstep hlog rfl h.stamped (List.Subset.refl _)
    obtain ⟨c, hc⟩ := Option.isSome_iff_exists.mp (h.closing.trans hclosed)
    rw [hc, h.closed hgoing c hc]

theorem Punctual.send (h : Punctual how config s) {r : Row} (hopen : s.stream.isClosed = false)
    (hgoing : s.stream.streamer.end? = none) :
    Punctual how config (s.after (.send r)
      { s.stream with channel := s.stream.channel ++ [r], sent := s.stream.sent ++ [r] }) := by
  have hsound := h.sound.turn (.send r hopen hgoing)
  have hlog : { s.stream with
      channel := s.stream.channel ++ [r], sent := s.stream.sent ++ [r] }.log.batches =
        s.stream.log.batches := rfl
  rw [after_kept hlog]
  refine { h with sound := hsound, stamped := ?_, arrived := fun _ a ha => ?_ }
  · simp [stampsAfter, h.stamped]
  · rcases List.mem_append.mp ha with ha | ha
    · exact h.arrived hgoing a ha
    · exact List.mem_singleton.mp ha

theorem Punctual.close (h : Punctual how config s) :
    Punctual how config (s.after .close { s.stream with isClosed := true }) := by
  have hsound := h.sound.turn (.close s.stream)
  have hlog : { s.stream with isClosed := true }.log.batches = s.stream.log.batches := rfl
  have hsome : (s.closedAfter .close).isSome = true := by simp [closedAfter]
  rw [after_kept hlog]
  refine { h with
    sound := hsound, closing := hsome, closed := fun hgoing c hc => ?_, inTime := fun f hf => ?_ }
  · cases hclosedAt : s.closedAt with
    | none => simpa [closedAfter, hclosedAt, eq_comm] using hc
    | some t =>
      rw [closedAfter, hclosedAt, Option.some_or] at hc
      exact h.closed hgoing c (hclosedAt ▸ hc)
  · obtain ⟨haligned, a, ha, horder, hlast, hcause⟩ := h.inTime f hf
    refine ⟨haligned, a, ha, horder, hlast, fun hshort => (hcause hshort).imp_right fun hclosed => ?_⟩
    show s.closedAfter .close = some f.time
    rw [closedAfter, hclosed, Option.some_or]

/-- A move keeps the invariant. -/
theorem Punctual.move (h : Punctual how config s) (htimely : s.stream.IsTimely s.now m)
    (hturn : s.stream.Turn m stream) : Punctual how config (s.after m stream) := by
  have hsound := h.sound.turn hturn
  cases hturn with
  | send r hopen hgoing => exact h.send hopen hgoing
  | close => exact h.close
  | cancel =>
    have hlog : { s.stream with isCancelled := true }.log.batches = s.stream.log.batches := rfl
    rw [after_kept hlog]
    exact h.kept hsound rfl rfl rfl rfl rfl (.inr rfl)
  | receive now hfilling htoken hchannel =>
    obtain rfl : now = s.now := htimely
    exact h.receive hfilling htoken hchannel
  | expire hfilling htoken _ => exact h.expire hfilling htoken htimely
  | finish hfilling htoken hclosed hchannel => exact h.finish hfilling htoken hclosed hchannel
  | wrote result hwriting =>
    have hgoing : s.stream.streamer.end? = none := by rw [Streamer.end?, hwriting]
    have hlog : (s.stream.tell (.wrote result)).log.batches = s.stream.log.batches := by
      simp [Stream.tell, StreamLog.note, Streamer.passed, hwriting]
    rw [after_kept hlog]
    cases result with
    | error e =>
      have hstep := Streamer.step_refused (e := e) hwriting
      refine h.kept hsound rfl rfl hlog ?_ ?_ (.inl hgoing) <;> simp only [Stream.tell, hstep]
    | ok _ =>
      have hstep := Streamer.step_wrote hwriting
      refine h.kept hsound rfl rfl hlog ?_ ?_ (.inl hgoing) <;> simp only [Stream.tell, hstep]
  | quit hfilling hset =>
    have hgoing : s.stream.streamer.end? = none := by rw [Streamer.end?, hfilling]
    have hstep := Streamer.step_cancelled hfilling
    have hlog : (s.stream.tell .cancelled).log.batches = s.stream.log.batches :=
      Stream.batches_tell_kept (by simp [hstep])
    rw [after_kept hlog]
    refine h.kept hsound rfl rfl hlog ?_ ?_ (.inl hgoing) <;> simp only [Stream.tell, hstep]

theorem Punctual.turn (h : Punctual how config s) (hturn : Turn s s') : Punctual how config s' := by
  cases hturn with
  | move hturn htimely => exact h.move htimely hturn
  | pass span hidle => exact h.pass span hidle

theorem Goes.punctual {s₀ : TimedStream} (h : s₀.Goes s) (hstart : Punctual how config s₀) :
    Punctual how config s := by
  induction h with
  | stay => exact hstart
  | turn _ hturn ih => exact ih.turn hturn

/-- A streamer comes to rest, since it cannot go on for ever. -/
theorem rests (h : s.stream.Sound how config) : s.Rests := by
  induction hweight : s.stream.weight using Nat.strongRecOn generalizing s with
  | ind n ih =>
    by_cases hidle : s.stream.IsIdle s.now
    · exact .idle hidle
    · refine .onward ?_ fun m stream hown _ hturn => ?_
      · simpa [Stream.IsIdle] using hidle
      · have hlt := h.weight_lt hown hturn
        exact ih stream.weight (hweight ▸ hlt) (h.turn hturn) rfl

/-- A streamer that has nothing to do and was not refused has all written that it passed on. -/
theorem Punctual.written (h : Punctual how config s) (hidle : s.stream.IsIdle s.now)
    (hnone : s.stream.log.failures = []) : s.stream.log.stored = s.flushed.map Flush.rows := by
  have hphase := h.sound.balanced.phase
  rw [h.batches]
  rcases Stream.isIdle_iff.mp hidle with ⟨result, hended⟩ | ⟨hfilling, -⟩
  · rw [hended] at hphase
    cases result with
    | finished n => exact hphase.1.symm
    | cancelled => exact hphase.1.symm
    | failed e =>
      rw [hphase.2.2] at hnone
      cases hnone
  · rw [hfilling] at hphase
    exact hphase.1.symm

end Punctual

/-! ## What a run amounts to -/

/-- Rows are passed on in time. -/
structure OnTime (config : BatchConfig) (s : TimedStream) : Prop where
  /-- Every row that waits is held with its arrival. -/
  aligned : s.held.length = s.stream.streamer.batch.length
  set_iff : s.stream.streamer.deadline.isSome ↔ s.stream.streamer.batch ≠ []
  deadline : s.stream.streamer.deadline = s.held.head?.map fun a => a + config.maxFill
  /-- The first row is the oldest one. -/
  oldest : ∀ a ∈ s.held.head?, ∀ b ∈ s.held, a ≤ b ∧ b ≤ s.now
  /-- No row waits longer than it may. -/
  waiting : s.stream.isCancelled = false → ∀ a ∈ s.held.head?, s.now ≤ a + config.maxFill
  batches : s.flushed.map Flush.rows = s.stream.log.batches
  received : s.stream.log.received =
    (s.flushed.map Flush.rows).flatten ++ s.stream.streamer.batch
  inTime : ∀ f ∈ s.flushed, f.IsInTime config s.closedAt
  /-- Before time goes on, what was passed on is written. -/
  written : s.stream.IsIdle s.now → s.stream.log.failures = [] →
    s.stream.log.stored = s.flushed.map Flush.rows
  rests : s.Rests

/-- Whenever rows arrive, and whatever else happens, a batch is written when it is full, at the
deadline of its oldest row or when the channel is closed, and never later than the deadline. -/
theorem deadlines_met (how : Upsert) (maxSize maxFill : Nat) {s : TimedStream}
    (h : (start how (.of maxSize maxFill)).Goes s) : s.OnTime (.of maxSize maxFill) := by
  have hsize : 1 ≤ (BatchConfig.of maxSize maxFill).maxSize := Nat.le_max_left 1 maxSize
  have hpunctual : Punctual how (.of maxSize maxFill) s := h.punctual (punctual_start how hsize)
  exact {
    aligned := hpunctual.held.aligned
    set_iff := by simp [hpunctual.sound.balanced.deadline]
    deadline := hpunctual.held.deadline
    oldest := hpunctual.held.oldest
    waiting := by
      refine fun htoken => hpunctual.due fun hend => ?_
      have hset := hpunctual.sound.token (Stream.end?_of_phase.mp hend)
      rw [htoken] at hset
      cases hset
    batches := hpunctual.batches
    received := by rw [hpunctual.batches, hpunctual.sound.balanced.rows]
    inTime := hpunctual.inTime
    written := hpunctual.written
    rests := rests hpunctual.sound }

/-- A full batch, one whose deadline comes, and one that waits when the channel is closed. -/
theorem deadlines_met_thrice :
    ∃ s, (start ⟨Schema.label, .updateAll⟩ (.of 2 250)).Goes s ∧
      s.flushed.map Flush.rows = [[[.int 1], [.int 2]], [[.int 3]], [[.int 4]]] ∧
      s.flushed.map Flush.arrivals = [[0, 100], [100], [350]] ∧
      s.flushed.map Flush.time = [100, 350, 360] ∧
      s.stream.streamer.end? = some (.finished 4) ∧ s.OnTime (.of 2 250) := by
  have hfull : (start ⟨Schema.label, .updateAll⟩ (.of 2 250)).Goes _ :=
    .turn (.turn (.turn (.turn (.turn (.turn .stay (.move (.send [.int 1] rfl rfl) trivial))
      (.move (.receive 0 rfl rfl rfl) rfl))
      (.pass 100 fun t _ ht => Stream.isIdle_iff.mpr (.inr ⟨rfl, rfl, rfl, rfl, by
        rintro d ⟨⟩; exact Nat.lt_trans ht (by decide)⟩)))
      (.move (.send [.int 2] rfl rfl) trivial)) (.move (.receive 100 rfl rfl rfl) rfl))
      (.move (.wrote (.ok ()) rfl) trivial)
  have hexpired : (start ⟨Schema.label, .updateAll⟩ (.of 2 250)).Goes _ :=
    .turn (.turn (.turn (.turn (.turn hfull (.move (.send [.int 3] rfl rfl) trivial))
      (.move (.receive 100 rfl rfl rfl) rfl))
      (.pass 250 fun t _ ht => Stream.isIdle_iff.mpr (.inr ⟨rfl, rfl, rfl, rfl, by
        rintro d ⟨⟩; exact ht⟩)))
      (.move (.expire rfl rfl rfl) ⟨350, rfl, Nat.le_refl _⟩)) (.move (.wrote (.ok ()) rfl) trivial)
  have hrun : (start ⟨Schema.label, .updateAll⟩ (.of 2 250)).Goes _ :=
    .turn (.turn (.turn (.turn (.turn (.turn hexpired (.move (.send [.int 4] rfl rfl) trivial))
      (.move (.receive 350 rfl rfl rfl) rfl))
      (.pass 10 fun t _ ht => Stream.isIdle_iff.mpr (.inr ⟨rfl, rfl, rfl, rfl, by
        rintro d ⟨⟩; exact Nat.lt_trans ht (by decide)⟩)))
      (.move (.close _) trivial)) (.move (.finish rfl rfl rfl rfl) trivial))
      (.move (.wrote (.ok ()) rfl) trivial)
  exact ⟨_, hrun, rfl, rfl, rfl, rfl, deadlines_met ⟨Schema.label, .updateAll⟩ 2 250 hrun⟩

end TimedStream
end KubeLedger
