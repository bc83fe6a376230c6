import KubeLedger.Store.Streamer

/- Accounts of a streamer. What a signal makes a streamer do is read off its state (`taken`,
   `passed`, `confirmed`, `refused`), and a log collects it. Whatever signals come in whatever order,
   the log and the state balance (`Balanced`): the rows passed to the store, followed by the
   unfinished batch, are the rows taken, in their order; each batch passed has a fitting size; and
   the phase says which of the batches the store has confirmed. -/
namespace KubeLedger

/-- What a streamer has done. -/
structure StreamLog where
  /-- The rows that it took. -/
  received : List Row := []
  /-- The batches that it passed to the store. -/
  batches : List (List Row) := []
  stored : List (List Row) := []
  failures : List StoreError := []

namespace Streamer

def underway (s : Streamer) : List Row :=
  match s.phase with
  | .writing rows _ => rows
  | _ => []

/-- Whether the streamer waits for rows. -/
def isFilling (s : Streamer) : Bool :=
  match s.phase with
  | .filling => true
  | _ => false

def taken (s : Streamer) (g : StreamSignal) : List Row :=
  match s.phase, g with
  | .filling, .row r _ => [r]
  | _, _ => []

def passed (s : Streamer) (g : StreamSignal) : List (List Row) :=
  match s.phase, (s.step g).phase with
  | .filling, .writing rows _ => [rows]
  | _, _ => []

def confirmed (s : Streamer) (g : StreamSignal) : List (List Row) :=
  match s.phase, g with
  | .writing rows _, .wrote (.ok ()) => [rows]
  | _, _ => []

def refused (s : Streamer) (g : StreamSignal) : List StoreError :=
  match s.phase, g with
  | .writing _ _, .wrote (.error e) => [e]
  | _, _ => []

end Streamer

def StreamLog.note (log : StreamLog) (s : Streamer) (g : StreamSignal) : StreamLog where
  received := log.received ++ s.taken g
  batches := log.batches ++ s.passed g
  stored := log.stored ++ s.confirmed g
  failures := log.failures ++ s.refused g

namespace Streamer

/-- What the phase says of the batches: which of them the store has confirmed, and whether rows wait
besides. -/
def PhaseBalanced (log : StreamLog) (batch : List Row) : StreamPhase → Prop
  | .filling => log.batches = log.stored ∧ log.failures = []
  | .writing rows _ => log.batches = log.stored ++ [rows] ∧ batch = [] ∧ log.failures = []
  | .ended (.finished n) =>
    log.batches = log.stored ∧ batch = [] ∧ log.failures = [] ∧ n = log.stored.flatten.length
  | .ended (.failed e) =>
    (∃ rows, log.batches = log.stored ++ [rows]) ∧ batch = [] ∧ log.failures = [e]
  | .ended .cancelled => log.batches = log.stored ∧ log.failures = []

/-- A log accounts for the state of a streamer. -/
structure Balanced (how : Upsert) (config : BatchConfig) (log : StreamLog) (s : Streamer) : Prop
    where
  same_how : s.how = how
  same_config : s.config = config
  rows : log.batches.flatten ++ s.batch = log.received
  sizes : ∀ batch ∈ log.batches, 1 ≤ batch.length ∧ batch.length ≤ config.maxSize
  short : s.batch.length < config.maxSize
  deadline : s.deadline.isSome = !s.batch.isEmpty
  written : s.written = log.stored.flatten.length
  phase : PhaseBalanced log s.batch s.phase

/-! ## What a signal does -/

section Step
variable {s : Streamer} {g : StreamSignal} {r : Row} {rows : List Row} {now : Nat} {isLast : Bool}
  {e : StoreError}

theorem step_row (h : s.phase = .filling) : s.step (.row r now) =
    if s.config.maxSize ≤ s.batch.length + 1 then (s.take r now).flush false
    else s.take r now := by
  simp [step, h, take]

theorem step_closed (h : s.phase = .filling) : s.step .closed =
    if s.batch.isEmpty then { s with phase := .ended (.finished s.written) } else s.flush true := by
  cases s
  cases h
  rfl

theorem step_expired (h : s.phase = .filling) :
    s.step .expired = if s.batch.isEmpty then s else s.flush false := by
  cases s
  cases h
  rfl

theorem step_cancelled (h : s.phase = .filling) :
    s.step .cancelled = { s with phase := .ended .cancelled } := by
  cases s
  cases h
  rfl

theorem step_wrote (h : s.phase = .writing rows isLast) : s.step (.wrote (.ok ())) =
    { s with
      written := s.written + rows.length
      phase := if isLast then .ended (.finished (s.written + rows.length)) else .filling } := by
  cases s
  cases h
  rfl

theorem step_refused (h : s.phase = .writing rows isLast) :
    s.step (.wrote (.error e)) = { s with phase := .ended (.failed e) } := by
  cases s
  cases h
  rfl

/-- The signals that a phase waits for. -/
inductive Awaits : StreamPhase → StreamSignal → Prop
  | row (r : Row) (now : Nat) : Awaits .filling (.row r now)
  | closed : Awaits .filling .closed
  | expired : Awaits .filling .expired
  | cancelled : Awaits .filling .cancelled
  | wrote (rows : List Row) (isLast : Bool) (result : Except StoreError Unit) :
    Awaits (.writing rows isLast) (.wrote result)

theorem step_of_not_awaits (h : ¬ Awaits s.phase g) : s.step g = s := by
  unfold step
  split <;> rename_i hphase
  · exact absurd (hphase ▸ .row _ _) h
  · exact absurd (hphase ▸ .closed) h
  · exact absurd (hphase ▸ .expired) h
  · exact absurd (hphase ▸ .cancelled) h
  · exact absurd (hphase ▸ .wrote _ _ _) h
  · exact absurd (hphase ▸ .wrote _ _ _) h
  · rfl

theorem note_of_not_awaits {log : StreamLog} (h : ¬ Awaits s.phase g) : log.note s g = log := by
  have htaken : s.taken g = [] := by
    unfold taken
    split
    · rename_i hphase
      exact absurd (hphase ▸ .row _ _) h
    · rfl
  have hpassed : s.passed g = [] := by
    unfold passed
    rw [step_of_not_awaits h]
    cases s.phase <;> rfl
  have hconfirmed : s.confirmed g = [] := by
    unfold confirmed
    split
    · rename_i hphase
      exact absurd (hphase ▸ .wrote _ _ _) h
    · rfl
  have hrefused : s.refused g = [] := by
    unfold refused
    split
    · rename_i hphase
      exact absurd (hphase ▸ .wrote _ _ _) h
    · rfl
  simp [StreamLog.note, htaken, hpassed, hconfirmed, hrefused]

end Step

/-! ## The balance -/

section Balance
variable {how : Upsert} {config : BatchConfig} {log : StreamLog} {s : Streamer} {g : StreamSignal}

theorem balanced_start (how : Upsert) {config : BatchConfig} (hsize : 1 ≤ config.maxSize) :
    Balanced how config {} { how, config } where
  same_how := rfl
  same_config := rfl
  rows := rfl
  sizes := fun _ hbatch => (nomatch hbatch)
  short := hsize
  deadline := rfl
  written := rfl
  phase := ⟨rfl, rfl⟩

/-- Passing the waiting rows to the store keeps the balance. -/
theorem balanced_flush (log : StreamLog) (s : Streamer) (hhow : s.how = how) (hconfig : s.config = config)
    (hrows : log.batches.flatten ++ s.batch = log.received)
    (hsizes : ∀ batch ∈ log.batches, 1 ≤ batch.length ∧ batch.length ≤ config.maxSize)
    (hne : s.batch ≠ []) (hle : s.batch.length ≤ config.maxSize)
    (hwritten : s.written = log.stored.flatten.length) (hstored : log.batches = log.stored)
    (hnone : log.failures = []) (isLast : Bool) :
    Balanced how config { log with batches := log.batches ++ [s.batch] } (s.flush isLast) where
  same_how := hhow
  same_config := hconfig
  rows := by simpa [flush] using hrows
  sizes := by
    intro batch hbatch
    rcases List.mem_append.mp hbatch with hbatch | hbatch
    · exact hsizes batch hbatch
    · obtain rfl := List.mem_singleton.mp hbatch
      exact ⟨List.length_pos_iff.mpr hne, hle⟩
  short := Nat.lt_of_lt_of_le (List.length_pos_iff.mpr hne) hle
  deadline := rfl
  written := hwritten
  phase := ⟨by rw [hstored], rfl, hnone⟩

theorem Balanced.filling (h : Balanced how config log s) (hfilling : s.phase = .filling) :
    log.batches = log.stored ∧ log.failures = [] := by
  have hphase : PhaseBalanced log s.batch .filling := hfilling ▸ h.phase
  exact hphase

theorem Balanced.flushed (h : Balanced how config log s) (hfilling : s.phase = .filling)
    (hne : s.batch ≠ []) (isLast : Bool) :
    Balanced how config { log with batches := log.batches ++ [s.batch] } (s.flush isLast) :=
  balanced_flush log s h.same_how h.same_config h.rows h.sizes hne (Nat.le_of_lt h.short) h.written
    (h.filling hfilling).1 (h.filling hfilling).2 isLast

/-- What the store has written, it was passed before anything else. -/
theorem Balanced.stored_prefix (h : Balanced how config log s) : log.stored <+: log.batches := by
  have hphase := h.phase
  unfold PhaseBalanced at hphase
  split at hphase
  · exact hphase.1 ▸ List.prefix_refl _
  · exact ⟨_, hphase.1.symm⟩
  · exact hphase.1 ▸ List.prefix_refl _
  · obtain ⟨⟨rows, hrows⟩, -, -⟩ := hphase
    exact ⟨_, hrows.symm⟩
  · exact hphase.1 ▸ List.prefix_refl _

/-- A streamer that has not ended has had no failure, and all that it passed is written or under
way. -/
theorem Balanced.going (h : Balanced how config log s) (hgoing : s.end? = none) :
    log.failures = [] ∧ log.batches.flatten = log.stored.flatten ++ s.underway := by
  have hphase := h.phase
  unfold end? at hgoing
  unfold underway
  cases hp : s.phase with
  | filling =>
    rw [hp] at hphase
    exact ⟨hphase.2, by simp [hphase.1]⟩
  | writing rows isLast =>
    rw [hp] at hphase
    exact ⟨hphase.2.2, by simp [hphase.1]⟩
  | ended result => simp [hp] at hgoing

theorem Balanced.row (h : Balanced how config log s) (hfilling : s.phase = .filling) (r : Row)
    (now : Nat) : Balanced how config (log.note s (.row r now)) (s.step (.row r now)) := by
  obtain ⟨hstored, hnone⟩ := h.filling hfilling
  have hreceived : log.batches.flatten ++ (s.batch ++ [r]) = log.received ++ [r] := by
    rw [← List.append_assoc, h.rows]
  rw [step_row hfilling]
  by_cases hfull : s.config.maxSize ≤ s.batch.length + 1
  · have hnote : log.note s (.row r now) =
        { log with received := log.received ++ [r], batches := log.batches ++ [s.batch ++ [r]] } := by
      simp [StreamLog.note, taken, passed, confirmed, refused, hfilling, step_row, hfull, flush, take]
    have hshort := h.short
    rw [if_pos hfull, hnote]
    have hlength : (s.take r now).batch.length ≤ config.maxSize := by
      simp only [take, List.length_append, List.length_singleton]
      omega
    exact balanced_flush { log with received := log.received ++ [r] } (s.take r now) h.same_how
      h.same_config hreceived h.sizes (by simp [take]) hlength h.written hstored hnone false
  · have hnote : log.note s (.row r now) = { log with received := log.received ++ [r] } := by
      simp [StreamLog.note, taken, passed, confirmed, refused, hfilling, step_row, hfull, take]
    rw [if_neg hfull, hnote]
    refine ⟨h.same_how, h.same_config, hreceived, h.sizes, ?_, ?_, h.written, ?_⟩
    · rw [← h.same_config]
      simp only [take, List.length_append, List.length_singleton]
      omega
    · simp [take]
    · simpa only [take, hfilling] using ⟨hstored, hnone⟩

theorem Balanced.closed (h : Balanced how config log s) (hfilling : s.phase = .filling) :
    Balanced how config (log.note s .closed) (s.step .closed) := by
  obtain ⟨hstored, hnone⟩ := h.filling hfilling
  rw [step_closed hfilling]
  by_cases hempty : s.batch = []
  · have hnote : log.note s .closed = log := by
      simp [StreamLog.note, taken, passed, confirmed, refused, hfilling, step_closed, hempty]
    rw [if_pos (by simp [hempty]), hnote]
    exact { h with phase := ⟨hstored, hempty, hnone, h.written⟩ }
  · have hnote : log.note s .closed = { log with batches := log.batches ++ [s.batch] } := by
      simp [StreamLog.note, taken, passed, confirmed, refused, hfilling, step_closed, hempty, flush]
    rw [if_neg (by simp [hempty]), hnote]
    exact h.flushed hfilling hempty true

theorem Balanced.expired (h : Balanced how config log s) (hfilling : s.phase = .filling) :
    Balanced how config (log.note s .expired) (s.step .expired) := by
  rw [step_expired hfilling]
  by_cases hempty : s.batch = []
  · have hnote : log.note s .expired = log := by
      simp [StreamLog.note, taken, passed, confirmed, refused, hfilling, step_expired, hempty]
    rwa [if_pos (by simp [hempty]), hnote]
  · have hnote : log.note s .expired = { log with batches := log.batches ++ [s.batch] } := by
      simp [StreamLog.note, taken, passed, confirmed, refused, hfilling, step_expired, hempty,
        flush]
    rw [if_neg (by simp [hempty]), hnote]
    exact h.flushed hfilling hempty false

theorem Balanced.cancelled (h : Balanced how config log s) (hfilling : s.phase = .filling) :
    Balanced how config (log.note s .cancelled) (s.step .cancelled) := by
  have hnote : log.note s .cancelled = log := by
    simp [StreamLog.note, taken, passed, confirmed, refused, hfilling, step_cancelled]
  rw [step_cancelled hfilling, hnote]
  exact { h with phase := h.filling hfilling }

theorem Balanced.wrote {rows : List Row} {isLast : Bool} (h : Balanced how config log s)
    (hwriting : s.phase = .writing rows isLast) (result : Except StoreError Unit) :
    Balanced how config (log.note s (.wrote result)) (s.step (.wrote result)) := by
  have hphase : PhaseBalanced log s.batch (.writing rows isLast) := hwriting ▸ h.phase
  obtain ⟨hpassed, hempty, hnone⟩ := hphase
  cases result with
  | ok _ =>
    have hnote : log.note s (.wrote (.ok ())) = { log with stored := log.stored ++ [rows] } := by
      simp [StreamLog.note, taken, passed, confirmed, refused, hwriting]
    have hwritten : s.written + rows.length = (log.stored ++ [rows]).flatten.length := by
      simp [h.written]
    rw [step_wrote hwriting, hnote]
    refine { h with written := hwritten, phase := ?_ }
    cases isLast with
    | true => exact ⟨hpassed, hempty, hnone, hwritten⟩
    | false => exact ⟨hpassed, hnone⟩
  | error e =>
    have hnote : log.note s (.wrote (.error e)) = { log with failures := [e] } := by
      simp [StreamLog.note, taken, passed, confirmed, refused, hwriting, hnone]
    rw [step_refused hwriting, hnote]
    exact { h with phase := ⟨⟨rows, hpassed⟩, hempty, rfl⟩ }

theorem Balanced.step (h : Balanced how config log s) (g : StreamSignal) :
    Balanced how config (log.note s g) (s.step g) := by
  by_cases hawaits : Awaits s.phase g
  · cases hphase : s.phase with
    | filling =>
      rw [hphase] at hawaits
      cases hawaits with
      | row r now => exact h.row hphase r now
      | closed => exact h.closed hphase
      | expired => exact h.expired hphase
      | cancelled => exact h.cancelled hphase
    | writing rows isLast =>
      rw [hphase] at hawaits
      cases hawaits with
      | wrote _ _ result => exact h.wrote hphase result
    | ended result =>
      rw [hphase] at hawaits
      cases hawaits
  · rw [step_of_not_awaits hawaits, note_of_not_awaits hawaits]
    exact h

end Balance

end Streamer

end KubeLedger
