import KubeLedger.Proofs.Batches
import KubeLedger.Table

/- Runs of a streamer on its channel. Rows are sent, the channel is closed, and the token is set at
   any time; the streamer takes rows, lets a deadline pass, finds the channel closed or the token
   set, and hears from the store, each when it can (`Turn`). The token is looked at before anything
   else, but not while a write is under way.

   One invariant is kept by every turn (`Sound`); what a run has passed to the store is read off it.
   That a run comes to its end is a matter of its own: every turn of the streamer makes less of what
   is left to do (`weight`), so it ends however its turns fall (`Leads`). -/
namespace KubeLedger

/-- A streamer with the channel that it reads. -/
structure Stream where
  streamer : Streamer
  channel : List Row := []
  /-- Whether nobody can send any more. -/
  isClosed : Bool := false
  /-- Whether the token is set. -/
  isCancelled : Bool := false
  /-- The rows that were sent, in order. -/
  sent : List Row := []
  log : StreamLog := {}

/-- What can happen to a stream. -/
inductive StreamMove where
  | send (r : Row)
  | close
  | cancel
  /-- The streamer takes a row. -/
  | receive (now : Nat)
  /-- The oldest row has waited long enough. -/
  | expire
  /-- The streamer finds that the channel is closed and empty. -/
  | finish
  | wrote (result : Except StoreError Unit)
  /-- The streamer finds the token set. -/
  | quit

namespace StreamMove

/-- Whether a move is one of the streamer, and not of those around it. -/
def isOwn : StreamMove → Bool
  | .send _ => false
  | .close => false
  | .cancel => false
  | _ => true

/-- Whether a move is one of the streamer, and no failure of the store. -/
def isSmooth : StreamMove → Bool
  | .wrote (.error _) => false
  | m => m.isOwn

theorem isOwn_of_isSmooth {m : StreamMove} (h : m.isSmooth) : m.isOwn := by
  unfold isSmooth at h
  split at h
  · cases h
  · exact h

end StreamMove

namespace Stream

/-- A streamer that has just begun. -/
def start (how : Upsert) (config : BatchConfig) : Stream where
  streamer := { how, config }

def tell (s : Stream) (g : StreamSignal) : Stream :=
  { s with streamer := s.streamer.step g, log := s.log.note s.streamer g }

/-- One move, where it is possible. -/
inductive Turn : Stream → StreamMove → Stream → Prop
  | send {s : Stream} (r : Row) : s.isClosed = false → s.streamer.end? = none →
    Turn s (.send r) { s with channel := s.channel ++ [r], sent := s.sent ++ [r] }
  | close (s : Stream) : Turn s .close { s with isClosed := true }
  | cancel (s : Stream) : Turn s .cancel { s with isCancelled := true }
  | receive {s : Stream} {r : Row} {rest : List Row} (now : Nat) :
    s.streamer.phase = .filling → s.isCancelled = false → s.channel = r :: rest →
    Turn s (.receive now) ({ s with channel := rest }.tell (.row r now))
  | expire {s : Stream} : s.streamer.phase = .filling → s.isCancelled = false →
    s.streamer.deadline.isSome → Turn s .expire (s.tell .expired)
  | finish {s : Stream} : s.streamer.phase = .filling → s.isCancelled = false → s.isClosed →
    s.channel = [] → Turn s .finish (s.tell .closed)
  | wrote {s : Stream} {rows : List Row} {isLast : Bool} (result : Except StoreError Unit) :
    s.streamer.phase = .writing rows isLast → Turn s (.wrote result) (s.tell (.wrote result))
  | quit {s : Stream} : s.streamer.phase = .filling → s.isCancelled →
    Turn s .quit (s.tell .cancelled)

/-- Where a stream can go. -/
inductive Goes (s₀ : Stream) : Stream → Prop
  | stay : Goes s₀ s₀
  | turn {s s' : Stream} {m : StreamMove} : Goes s₀ s → Turn s m s' → Goes s₀ s'

/-- However a stream goes on by moves of one sort, it comes to what is wanted, and can go on until
then. -/
inductive Leads (sort : StreamMove → Bool) (wanted : Stream → Prop) : Stream → Prop
  | there {s : Stream} : wanted s → Leads sort wanted s
  | onward {s : Stream} : (∃ m s', sort m ∧ Turn s m s') →
    (∀ m s', sort m → Turn s m s' → Leads sort wanted s') → Leads sort wanted s

/-! ## What a run keeps -/

/-- A streamer that writes its last rows, or has written all. -/
def IsFinal : StreamPhase → Prop
  | .writing _ isLast => isLast = true
  | .ended (.finished _) => True
  | _ => False

/-- What holds of a stream all along. -/
structure Sound (how : Upsert) (config : BatchConfig) (s : Stream) : Prop where
  balanced : s.streamer.Balanced how config s.log
  arrival : s.log.received ++ s.channel = s.sent
  drained : IsFinal s.streamer.phase → s.isClosed ∧ s.channel = []
  token : s.streamer.phase = .ended .cancelled → s.isCancelled

section Sound
variable {how : Upsert} {config : BatchConfig} {s s' : Stream} {m : StreamMove} {g : StreamSignal}

theorem sound_start (how : Upsert) {config : BatchConfig} (hsize : 1 ≤ config.maxSize) :
    Sound how config (start how config) where
  balanced := Streamer.balanced_start how hsize
  arrival := rfl
  drained := fun h => h.elim
  token := fun h => (nomatch h)

theorem taken_of_ne_row {s : Streamer} (h : ∀ r now, g ≠ .row r now) : s.taken g = [] := by
  unfold Streamer.taken
  split
  · exact absurd rfl (h _ _)
  · rfl

/-- A turn keeps the invariant. -/
theorem Sound.turn (h : Sound how config s) (hturn : Turn s m s') : Sound how config s' := by
  cases hturn with
  | send r hopen hgoing =>
    refine ⟨h.balanced, by simp [← h.arrival], fun hfinal => ?_, h.token⟩
    rw [(h.drained hfinal).1] at hopen
    cases hopen
  | close => exact ⟨h.balanced, h.arrival, fun hfinal => ⟨rfl, (h.drained hfinal).2⟩, h.token⟩
  | cancel => exact ⟨h.balanced, h.arrival, h.drained, fun _ => rfl⟩
  | @receive r rest now hfilling _ hchannel =>
    have hphase : (s.streamer.step (.row r now)).phase = .filling ∨
        ∃ rows, (s.streamer.step (.row r now)).phase = .writing rows false := by
      rw [Streamer.step_row hfilling]
      split
      · exact .inr ⟨_, rfl⟩
      · exact .inl hfilling
    refine ⟨h.balanced.step _, ?_, ?_, ?_⟩
    · simp [tell, StreamLog.note, Streamer.taken, hfilling, ← h.arrival, hchannel]
    all_goals rcases hphase with hphase | ⟨_, hphase⟩ <;> simp [tell, hphase, IsFinal]
  | expire hfilling _ _ =>
    have hphase : (s.streamer.step .expired).phase = .filling ∨
        ∃ rows, (s.streamer.step .expired).phase = .writing rows false := by
      rw [Streamer.step_expired hfilling]
      split
      · exact .inl hfilling
      · exact .inr ⟨_, rfl⟩
    refine ⟨h.balanced.step _, ?_, ?_, ?_⟩
    · simp [tell, StreamLog.note, taken_of_ne_row, ← h.arrival]
    all_goals rcases hphase with hphase | ⟨_, hphase⟩ <;> simp [tell, hphase, IsFinal]
  | finish hfilling _ hclosed hchannel =>
    refine ⟨h.balanced.step _, ?_, fun _ => ⟨hclosed, hchannel⟩, fun hcancelled => ?_⟩
    · simp [tell, StreamLog.note, taken_of_ne_row, ← h.arrival]
    · simp only [tell, Streamer.step_closed hfilling] at hcancelled
      split at hcancelled <;> cases hcancelled
  | @wrote rows isLast result hwriting =>
    have harrival : (s.tell (.wrote result)).log.received ++ s.channel = s.sent := by
      simp [tell, StreamLog.note, taken_of_ne_row, ← h.arrival]
    cases result with
    | error e =>
      refine ⟨h.balanced.step _, harrival, ?_, ?_⟩ <;>
        simp [tell, Streamer.step_refused hwriting, IsFinal]
    | ok _ =>
      refine ⟨h.balanced.step _, harrival, fun hfinal => ?_, ?_⟩
      · refine h.drained ?_
        cases isLast with
        | true => simp [hwriting, IsFinal]
        | false => simp [tell, Streamer.step_wrote hwriting, IsFinal] at hfinal
      · cases isLast <;> simp [tell, Streamer.step_wrote hwriting]
  | quit hfilling hcancelled =>
    refine ⟨h.balanced.step _, ?_, ?_, fun _ => hcancelled⟩
    · simp [tell, StreamLog.note, taken_of_ne_row, ← h.arrival]
    · simp [tell, Streamer.step_cancelled hfilling, IsFinal]

theorem Goes.sound {s₀ : Stream} (h : s₀.Goes s) (hstart : Sound how config s₀) :
    Sound how config s := by
  induction h with
  | stay => exact hstart
  | turn _ hturn ih => exact ih.turn hturn

end Sound

/-! ## What is left to do -/

/-- What a phase still asks for. -/
def phaseWeight : StreamPhase → Nat
  | .filling => 1
  | .writing _ _ => 2
  | .ended _ => 0

/-- What is left to do: every row is taken and written, and the end is found. -/
def weight (s : Stream) : Nat :=
  3 * s.channel.length + 2 * s.streamer.batch.length + phaseWeight s.streamer.phase

section Weight
variable {how : Upsert} {config : BatchConfig} {s s' : Stream} {m : StreamMove}
  {sort : StreamMove → Bool} {wanted kept : Stream → Prop}

/-- Every turn of the streamer leaves less to do. -/
theorem Sound.weight_lt (h : Sound how config s) (hown : m.isOwn) (hturn : Turn s m s') :
    s'.weight < s.weight := by
  cases hturn with
  | send | close | cancel => cases hown
  | @receive r rest now hfilling _ hchannel =>
    simp only [weight, tell, Streamer.step_row hfilling, hfilling, hchannel, phaseWeight]
    split <;> simp [Streamer.flush, Streamer.take, hfilling] <;> omega
  | expire hfilling _ hdeadline =>
    -- a deadline is only set while rows wait
    have hwaiting : s.streamer.batch ≠ [] := by simpa [h.balanced.deadline] using hdeadline
    have hlength := List.length_pos_iff.mpr hwaiting
    simp [weight, tell, Streamer.step_expired hfilling, hwaiting, hfilling, Streamer.flush,
      phaseWeight]
    omega
  | finish hfilling _ _ _ =>
    by_cases hempty : s.streamer.batch = []
    · simp [weight, tell, Streamer.step_closed hfilling, hempty, hfilling, phaseWeight]
    · have hlength := List.length_pos_iff.mpr hempty
      simp [weight, tell, Streamer.step_closed hfilling, hempty, hfilling, Streamer.flush,
        phaseWeight]
      omega
  | @wrote rows isLast result hwriting =>
    rcases result with e | _
    · simp [weight, tell, Streamer.step_refused hwriting, hwriting, phaseWeight]
    · cases isLast <;> simp [weight, tell, Streamer.step_wrote hwriting, hwriting, phaseWeight]
  | quit hfilling _ =>
    simp [weight, tell, Streamer.step_cancelled hfilling, hfilling, phaseWeight]

/-- A stream that can go on unless it is where it is wanted gets there, since it cannot go on for
ever. -/
theorem Sound.leads (hown : ∀ m, sort m → m.isOwn)
    (honward : ∀ s, Sound how config s → kept s → ¬ wanted s → ∃ m s', sort m ∧ Turn s m s')
    (hkept : ∀ s m s', kept s → sort m → Turn s m s' → kept s')
    (h : Sound how config s) (hk : kept s) : Leads sort wanted s := by
  induction hweight : s.weight using Nat.strongRecOn generalizing s with
  | ind n ih =>
    by_cases hw : wanted s
    · exact .there hw
    · refine .onward (honward s h hk hw) fun m s' hm hturn => ?_
      have hlt := h.weight_lt (hown m hm) hturn
      exact ih s'.weight (hweight ▸ hlt) (h.turn hturn) (hkept s m s' hk hm hturn) rfl

end Weight

/-! ## How a stream ends -/

section Ends
variable {how : Upsert} {config : BatchConfig} {s s' : Stream} {m : StreamMove}

theorem end?_of_phase {result : StreamEnd} :
    s.streamer.end? = some result ↔ s.streamer.phase = .ended result := by
  unfold Streamer.end?
  cases s.streamer.phase <;> simp

theorem Turn.of_ended {result : StreamEnd} (hturn : Turn s m s')
    (hended : s.streamer.phase = .ended result) :
    m.isOwn = false ∧ s'.streamer = s.streamer ∧ s'.log = s.log := by
  cases hturn with
  | send | close | cancel => exact ⟨rfl, rfl, rfl⟩
  | receive _ hphase | expire hphase | finish hphase | wrote _ hphase | quit hphase =>
    rw [hended] at hphase
    cases hphase

theorem Goes.of_ended {result : StreamEnd} (h : s.Goes s')
    (hended : s.streamer.phase = .ended result) :
    s'.streamer = s.streamer ∧ s'.log = s.log := by
  induction h with
  | stay => exact ⟨rfl, rfl⟩
  | turn _ hturn ih =>
    obtain ⟨_, hstreamer, hlog⟩ := hturn.of_ended (by rw [ih.1, hended])
    exact ⟨hstreamer.trans ih.1, hlog.trans ih.2⟩

theorem Sound.finished {n : Nat} (h : Sound how config s)
    (hended : s.streamer.phase = .ended (.finished n)) :
    n = s.sent.length ∧ s.log.batches.flatten = s.sent ∧ s.log.stored = s.log.batches := by
  have hphase : Streamer.PhaseBalanced s.log s.streamer.batch (.ended (.finished n)) :=
    hended ▸ h.balanced.phase
  obtain ⟨hstored, hempty, -, hcount⟩ := hphase
  obtain ⟨-, hchannel⟩ := h.drained (by rw [hended]; trivial)
  have hrows := h.balanced.rows
  have harrival := h.arrival
  rw [hempty, List.append_nil] at hrows
  rw [hchannel, List.append_nil, ← hrows] at harrival
  exact ⟨by rw [hcount, ← hstored, harrival], harrival, hstored.symm⟩

/-- A failure of the store is the only one and has ended the stream. -/
theorem Sound.failed {e : StoreError} (h : Sound how config s) (he : e ∈ s.log.failures) :
    s.streamer.phase = .ended (.failed e) ∧ s.log.failures = [e] ∧
      ∃ rows, s.log.batches = s.log.stored ++ [rows] := by
  have hphase := h.balanced.phase
  unfold Streamer.PhaseBalanced at hphase
  split at hphase
  · rw [hphase.2] at he
    cases he
  · rw [hphase.2.2] at he
    cases he
  · rw [hphase.2.2.1] at he
    cases he
  · rename_i e' hended
    obtain ⟨hrows, -, hfailures⟩ := hphase
    rw [hfailures, List.mem_singleton] at he
    exact ⟨by rw [hended, he], by rw [hfailures, he], hrows⟩
  · rw [hphase.2] at he
    cases he

theorem Sound.cancelled (h : Sound how config s)
    (hended : s.streamer.phase = .ended .cancelled) :
    s.isCancelled ∧ s.log.batches = s.log.stored ∧
      s.log.received = s.log.batches.flatten ++ s.streamer.batch ∧
      s.streamer.batch.length < config.maxSize := by
  have hphase : Streamer.PhaseBalanced s.log s.streamer.batch (.ended .cancelled) :=
    hended ▸ h.balanced.phase
  exact ⟨h.token hended, hphase.1, h.balanced.rows.symm, h.balanced.short⟩

/-- A closed stream whose token is not set and whose store does not fail writes all that was sent,
however its turns fall. -/
theorem Sound.completes (h : Sound how config s) (hclosed : s.isClosed)
    (htoken : s.isCancelled = false) (hnone : s.log.failures = []) :
    Leads StreamMove.isSmooth (fun s' =>
      s'.streamer.end? = some (.finished s.sent.length) ∧ s'.log.batches.flatten = s.sent) s := by
  let kept : Stream → Prop := fun s' =>
    s'.isClosed ∧ s'.isCancelled = false ∧ s'.log.failures = [] ∧ s'.sent = s.sent
  have hkept : kept s := ⟨hclosed, htoken, hnone, rfl⟩
  refine h.leads (fun _ => StreamMove.isOwn_of_isSmooth) ?_ ?_ hkept
  · rintro s' h' ⟨hclosed', htoken', hnone', hsent⟩ hwanted
    cases hphase : s'.streamer.phase with
    | filling =>
      cases hchannel : s'.channel with
      | nil => exact ⟨.finish, _, rfl, .finish hphase htoken' hclosed' hchannel⟩
      | cons r rest => exact ⟨.receive 0, _, rfl, .receive 0 hphase htoken' hchannel⟩
    | writing rows isLast => exact ⟨.wrote (.ok ()), _, rfl, .wrote _ hphase⟩
    | ended result =>
      exfalso
      cases result with
      | finished n =>
        obtain ⟨hcount, hall, -⟩ := h'.finished hphase
        rw [hsent] at hcount hall
        exact hwanted ⟨by rw [end?_of_phase, hphase, hcount], hall⟩
      | failed e =>
        have hfailures : Streamer.PhaseBalanced s'.log s'.streamer.batch (.ended (.failed e)) :=
          hphase ▸ h'.balanced.phase
        rw [hfailures.2.2] at hnone'
        cases hnone'
      | cancelled => simp [h'.token hphase] at htoken'
  · rintro s' m s'' ⟨hclosed', htoken', hnone', hsent⟩ hm hturn
    have hquiet : ∀ g : StreamSignal, (∀ e, g ≠ .wrote (.error e)) →
        (s'.tell g).log.failures = [] := by
      intro g hg
      have hrefused : s'.streamer.refused g = [] := by
        unfold Streamer.refused
        split
        · exact absurd rfl (hg _)
        · rfl
      simp [tell, StreamLog.note, hnone', hrefused]
    cases hturn with
    | send | close | cancel => cases hm
    | receive | expire | finish | quit =>
      exact ⟨hclosed', htoken', hquiet _ (by simp), hsent⟩
    | wrote result _ =>
      cases result with
      | error e => cases hm
      | ok _ => exact ⟨hclosed', htoken', hquiet _ (by simp), hsent⟩

/-- A streamer that comes to look at the token while it is set ends, and passes nothing more. -/
theorem cancels (htoken : s.isCancelled) (hfilling : s.streamer.phase = .filling) :
    Leads StreamMove.isOwn (fun s' =>
      s'.streamer.end? = some .cancelled ∧ s'.log = s.log) s := by
  refine .onward ⟨.quit, _, rfl, .quit hfilling htoken⟩ fun m s' hown hturn => ?_
  cases hturn with
  | send | close | cancel => cases hown
  | receive _ _ hunset | expire _ hunset _ | finish _ hunset _ _ =>
    rw [htoken] at hunset
    cases hunset
  | wrote _ hwriting =>
    rw [hfilling] at hwriting
    cases hwriting
  | quit =>
    refine .there ⟨?_, ?_⟩
    · rw [end?_of_phase, tell, Streamer.step_cancelled hfilling]
    · simp [tell, StreamLog.note, Streamer.taken, Streamer.passed, Streamer.confirmed,
        Streamer.refused, hfilling, Streamer.step_cancelled hfilling]

/-- A write that is under way is answered before anything else is looked at. -/
theorem Turn.in_flight {rows : List Row} {isLast : Bool} (hturn : Turn s m s') (hown : m.isOwn)
    (hwriting : s.streamer.phase = .writing rows isLast) :
    (∃ e, m = .wrote (.error e) ∧ s'.streamer.phase = .ended (.failed e)) ∨
      m = .wrote (.ok ()) ∧ s'.isCancelled = s.isCancelled ∧
        s'.streamer.phase = if isLast then .ended (.finished s'.streamer.written) else .filling := by
  cases hturn with
  | send | close | cancel => cases hown
  | receive _ hphase | expire hphase | finish hphase | quit hphase =>
    rw [hwriting] at hphase
    cases hphase
  | wrote result _ =>
    rcases result with e | _
    · exact .inl ⟨e, rfl, by rw [tell, Streamer.step_refused hwriting]⟩
    · exact .inr ⟨rfl, rfl, by simp only [tell, Streamer.step_wrote hwriting]⟩

end Ends

/-! ## What a run amounts to -/

/-- What a stream has passed to the store is exact. -/
structure Exact (config : BatchConfig) (s : Stream) : Prop where
  in_order : s.log.batches.flatten <+: s.log.received
  arrival : s.log.received ++ s.channel = s.sent
  sizes : ∀ batch ∈ s.log.batches, 1 ≤ batch.length ∧ batch.length ≤ config.maxSize
  /-- With a closed channel and neither failure nor cancellation, it ends with all written. -/
  completes : s.isClosed → s.isCancelled = false → s.log.failures = [] →
    Leads StreamMove.isSmooth (fun s' =>
      s'.streamer.end? = some (.finished s.sent.length) ∧ s'.log.batches.flatten = s.sent) s
  finished : ∀ n, s.streamer.end? = some (.finished n) →
    n = s.sent.length ∧ s.log.batches.flatten = s.sent ∧ s.log.stored = s.log.batches
  /-- A failed write is the last one; all batches before it are written. -/
  failed : ∀ e ∈ s.log.failures, s.streamer.end? = some (.failed e) ∧
    (∃ rows, s.log.batches = s.log.stored ++ [rows]) ∧
    ∀ s', s.Goes s' → s'.streamer.end? = some (.failed e) ∧ s'.log = s.log
  /-- The token is not looked at while a write is under way. -/
  in_flight : ∀ rows isLast, s.streamer.phase = .writing rows isLast → ∀ m s', m.isOwn →
    Turn s m s' → (∃ e, m = .wrote (.error e) ∧ s'.streamer.phase = .ended (.failed e)) ∨
      m = .wrote (.ok ()) ∧ s'.isCancelled = s.isCancelled ∧
        s'.streamer.phase = if isLast then .ended (.finished s'.streamer.written) else .filling
  cancels : s.isCancelled → s.streamer.phase = .filling →
    Leads StreamMove.isOwn (fun s' => s'.streamer.end? = some .cancelled ∧ s'.log = s.log) s
  /-- What a cancellation loses of the rows received is the unfinished batch. -/
  cancelled : s.streamer.end? = some .cancelled →
    s.isCancelled ∧ s.log.batches = s.log.stored ∧
      s.log.received = s.log.batches.flatten ++ s.streamer.batch ∧
      s.streamer.batch.length < config.maxSize

/-- Whatever happens to a streamer and in whatever order, what it passes to the store is exact. -/
theorem stream_exact (how : Upsert) (maxSize maxFill : Nat) {s : Stream}
    (h : (start how (.of maxSize maxFill)).Goes s) : s.Exact (.of maxSize maxFill) := by
  have hsize : 1 ≤ (BatchConfig.of maxSize maxFill).maxSize := Nat.le_max_left 1 maxSize
  have hsound : Sound how (.of maxSize maxFill) s := h.sound (sound_start how hsize)
  exact {
    in_order := ⟨s.streamer.batch, hsound.balanced.rows⟩
    arrival := hsound.arrival
    sizes := hsound.balanced.sizes
    completes := hsound.completes
    finished := fun _ hend => hsound.finished (end?_of_phase.mp hend)
    failed := by
      intro e he
      obtain ⟨hphase, -, hrows⟩ := hsound.failed he
      refine ⟨end?_of_phase.mpr hphase, hrows, fun s' hgoes => ?_⟩
      obtain ⟨hstreamer, hlog⟩ := hgoes.of_ended hphase
      exact ⟨end?_of_phase.mpr (by rw [hstreamer, hphase]), hlog⟩
    in_flight := fun _ _ hwriting _ _ hown hturn => hturn.in_flight hown hwriting
    cancels := cancels
    cancelled := fun hend => hsound.cancelled (end?_of_phase.mp hend) }

/-- A cancellation after three rows of which two filled a batch loses the third. -/
theorem stream_exact_cancelled :
    ∃ s, (start ⟨Schema.label, .updateAll⟩ (.of 2 250)).Goes s ∧
      s.sent = [[.int 1], [.int 2], [.int 3]] ∧ s.log.batches = [[[.int 1], [.int 2]]] ∧
      s.streamer.end? = some .cancelled ∧ s.Exact (.of 2 250) := by
  have hrun : (start ⟨Schema.label, .updateAll⟩ (.of 2 250)).Goes _ :=
    .turn (.turn (.turn (.turn (.turn (.turn (.turn (.turn (.turn .stay
      (.send [.int 1] rfl rfl)) (.receive 0 rfl rfl rfl)) (.send [.int 2] rfl rfl))
      (.receive 10 rfl rfl rfl)) (.send [.int 3] rfl rfl)) (.wrote (.ok ()) rfl))
      (.receive 20 rfl rfl rfl)) (.cancel _)) (.quit rfl rfl)
  exact ⟨_, hrun, rfl, rfl, rfl, stream_exact ⟨Schema.label, .updateAll⟩ 2 250 hrun⟩

end Stream

end KubeLedger
