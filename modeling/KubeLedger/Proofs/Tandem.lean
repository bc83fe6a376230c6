import Mathlib.Logic.Function.Basic
import KubeLedger.Proofs.IdSets
import KubeLedger.Proofs.Reached

/- Two reconcilers in tandem. The reconcilers of both kinds share a store in memory and take turns
   call by call: each is at rest, or what is left of its sync waits for the answer to its next call
   (`Task`). A call may fail at any point, telemetry is recorded in between, and nothing is said of
   the order (`Tandem.Turn`).

   What is left of a script after some exchanges is a script (`Script.Leaves`), and it can always be
   run to an end, so what was written up to any point begins what a whole sync writes: the plan of an
   upsert with its snapshots, or a removal (`Kind.Begins`, `Reconciler.begins`). An invariant of all
   that a tandem reaches therefore has to be kept by one write at a time, where the writes of the
   sync so far may be used (`Tandem.Reached.invariant`). -/
namespace KubeLedger

/-! ## What is left of a script -/

namespace Script

variable {Q : Type} {A : Q → Type} {α : Type} {x y : Script Q A α}
  {trace rest : List ((q : Q) × A q)} {a : α}

/-- What a script leaves to be done after a trace. -/
inductive Leaves : Script Q A α → List ((q : Q) × A q) → Script Q A α → Prop
  | stay (x : Script Q A α) : Leaves x [] x
  | ask {q : Q} {next : A q → Script Q A α} {answer : A q} {trace : List ((q : Q) × A q)}
    {y : Script Q A α} : Leaves (next answer) trace y →
    Leaves (.ask q next) (⟨q, answer⟩ :: trace) y

theorem Leaves.snoc {q : Q} {next : A q → Script Q A α} (h : Leaves x trace (.ask q next))
    (answer : A q) : Leaves x (trace ++ [⟨q, answer⟩]) (next answer) := by
  generalize hy : Script.ask q next = y at h
  induction h with
  | stay x =>
    subst hy
    exact .ask (.stay _)
  | ask _ ih => exact .ask (ih hy)

/-- Running what is left completes a run. -/
theorem Leaves.runs (h : Leaves x trace y) (hy : y.Runs rest a) : x.Runs (trace ++ rest) a := by
  induction h with
  | stay x => exact hy
  | ask _ ih => exact .ask (ih hy)

theorem Leaves.runs_done (h : Leaves x trace (.done a)) : x.Runs trace a := by
  have hrun := h.runs (.done a)
  rwa [List.append_nil] at hrun

/-- Where every question can be answered, every script can be run to its end. -/
theorem exists_runs (hA : ∀ q, Nonempty (A q)) (x : Script Q A α) : ∃ trace a, x.Runs trace a := by
  induction x with
  | done a => exact ⟨[], a, .done a⟩
  | ask q next ih =>
    obtain ⟨answer⟩ := hA q
    obtain ⟨trace, a, hrun⟩ := ih answer
    exact ⟨_, a, .ask hrun⟩

end Script

theorem Call.answer_nonempty (q : Call) : Nonempty q.Answer := by
  cases q with
  | write w => exact ⟨(.ok 0 : Except StoreError Nat)⟩
  | select t columns => exact ⟨(.ok [] : Except StoreError (List Row))⟩
  | logs pod container => exact ⟨(.ok none : Except ClientError (Option String))⟩
  | usage pod => exact ⟨(.ok none : Except ClientError (Option ClusterObject))⟩

abbrev SyncRest := Script Call Call.Answer (Except SyncError Reconciler)

/-! ## How the writes of a sync begin -/

/-- Writes that the sync of a notification can begin with. -/
inductive Kind.Begins (k : Kind) (n : Notification) : List Write → Prop
  | seen {o : ClusterObject} {m : Mapped} {taken ws : List Write} : n.object = some o →
    k.map o = .ok m → (∀ w ∈ taken, ∃ trace, Sync.IsSnapshot m trace w) →
    ws <+: m.plan k ++ taken → Begins k n ws
  | deleted {ws : List Write} : n.object = none → ws <+: k.removal n.id.entityId → Begins k n ws

section Begins
variable {r : Reconciler} {n : Notification} {trace : List Exchange} {w : Write}
  {next : Except StoreError Nat → SyncRest} {rest : SyncRest}
  {result : Except SyncError Reconciler}

theorem Reconciler.begins
    (h : Script.Leaves (ExceptT.run (r.sync n)) trace (.ask (.write w) next)) :
    r.kind.Begins n (written trace ++ [w]) := by
  -- the sync goes on as if the write were done, and after that in any way at all
  obtain ⟨rest, result, hrest⟩ := Script.exists_runs Call.answer_nonempty (next (.ok 0))
  let done : Exchange := ⟨.write w, (.ok 0 : Except StoreError Nat)⟩
  have hruns : (r.sync n).Runs (trace ++ done :: rest) result :=
    h.runs (Script.runs_ask.mpr ⟨(.ok 0 : Except StoreError Nat), rest, rfl, hrest⟩)
  have hwritten : written (trace ++ done :: rest) = written trace ++ [w] ++ written rest := by
    simp [written, done, Exchange.written?, Except.toOption]
  cases hn : n.object with
  | some o =>
    obtain ⟨r', hr', -⟩ := (Sync.sync_seen hn).mp hruns
    rcases Sync.upsert_inv hr' with ⟨e, -, hnil, -⟩ | ⟨m, hmap, hcut | hall⟩
    · simp at hnil
    · obtain ⟨e, -, -, -, w', left, hplan⟩ := hcut
      refine .seen hn hmap (fun w' (hw' : w' ∈ ([] : List Write)) => nomatch hw') ?_
      rw [List.append_nil, hplan, hwritten, List.append_assoc]
      exact List.prefix_append _ _
    · obtain ⟨before, after, taken, heq, -, hbefore, htaken, -⟩ := hall
      refine .seen hn hmap (fun w' (hw' : w' ∈ written after) => ?_) ?_
      · exact ⟨after, (Sync.snapshots_inv htaken).1 w' (written_subset_asked after hw')⟩
      · rw [← hbefore, ← written_append, ← heq, hwritten]
        exact List.prefix_append _ _
  | none =>
    obtain ⟨r', hr', -⟩ := (Sync.sync_deleted hn).mp hruns
    refine .deleted hn ?_
    obtain ⟨-, ⟨-, hall⟩ | ⟨e, -, -, w', left, hplan⟩⟩ := Sync.delete_follows r.kind n.id hr'
    · rw [← hall, hwritten]
      exact List.prefix_append _ _
    · rw [hplan, hwritten, List.append_assoc]
      exact List.prefix_append _ _

/-- A sync leaves the kind of the reconciler, and what it knows in order. -/
theorem Reconciler.sync_kept (h : (r.sync n).Runs trace result) (hr : r.known.Grouped) :
    (result.toOption.getD r).kind = r.kind ∧ (result.toOption.getD r).known.Grouped := by
  cases hn : n.object with
  | some o =>
    obtain ⟨r', -, rfl⟩ := (Sync.sync_seen hn).mp h
    cases r' with
    | error e => exact ⟨rfl, hr⟩
    | ok id => exact ⟨rfl, hr.insert id⟩
  | none =>
    obtain ⟨r', -, rfl⟩ := (Sync.sync_deleted hn).mp h
    cases r' with
    | error e => exact ⟨rfl, hr⟩
    | ok u => exact ⟨rfl, hr.erase n.id⟩

theorem Reconciler.warmUp_runs (h : r.warmUp.Runs trace result) :
    asked trace = [] ∧ ∀ r', result = .ok r' → ∃ rows, r' = r.knowing rows := by
  obtain ⟨a, hselect, rfl⟩ := Sync.runs_map.mp h
  obtain ⟨rows, rfl, rfl⟩ := Sync.runs_select.mp hselect
  refine ⟨rfl, fun r' hr' => ?_⟩
  cases rows with
  | error e => cases hr'
  | ok rows =>
    cases hr'
    exact ⟨rows, rfl⟩

theorem Reconciler.warmUp_quiet
    (h : Script.Leaves (ExceptT.run r.warmUp) trace (.ask (.write w) next)) : False := by
  obtain ⟨rest, result, hrest⟩ := Script.exists_runs Call.answer_nonempty (next (.ok 0))
  have hruns : r.warmUp.Runs (trace ++ ⟨.write w, (.ok 0 : Except StoreError Nat)⟩ :: rest) result :=
    h.runs (Script.runs_ask.mpr ⟨(.ok 0 : Except StoreError Nat), rest, rfl, hrest⟩)
  have hasked := (warmUp_runs hruns).1
  simp [asked, Exchange.asked?] at hasked

theorem Reconciler.warmUp_kept (h : r.warmUp.Runs trace result) (hr : r.known.Grouped) :
    (result.toOption.getD r).kind = r.kind ∧ (result.toOption.getD r).known.Grouped := by
  cases result with
  | error e => exact ⟨rfl, hr⟩
  | ok r' =>
    obtain ⟨rows, rfl⟩ := (warmUp_runs h).2 r' rfl
    exact ⟨rfl, IdSet.grouped_ofList _⟩

end Begins

/-! ## The tandem -/

/-- Where a reconciler is. -/
inductive Task where
  | resting (r : Reconciler)
  /-- The rest of its sync, or of its warm-up, is to be done. -/
  | busy (r : Reconciler) (rest : SyncRest)

/-- A reconciler of each kind, with the store that they share. -/
structure Tandem where
  store : Memory
  task : Kind → Task

namespace Tandem

/-- Both reconcilers before an empty store. -/
def start (config : Kind → ReconcilerConfig) : Tandem where
  store := {}
  task := fun k => .resting { kind := k, config := config k }

def set (x : Tandem) (k : Kind) (task : Task) : Tandem :=
  { x with task := Function.update x.task k task }

/-- One step of one reconciler, or telemetry that comes in. Which notifications are synced is up to
those who admit them. A write is done by the store unless it is refused, and what is asked otherwise
may be answered in any way. -/
inductive Turn (admits : Kind → Notification → Prop) (x : Tandem) : Tandem → Prop
  | syncs {k : Kind} {r : Reconciler} {n : Notification} : x.task k = .resting r → admits k n →
    Turn admits x (x.set k (.busy r (ExceptT.run (r.sync n))))
  | warms {k : Kind} {r : Reconciler} : x.task k = .resting r →
    Turn admits x (x.set k (.busy r (ExceptT.run r.warmUp)))
  | writes {k : Kind} {r : Reconciler} {w : Write} {next : Except StoreError Nat → SyncRest} :
    x.task k = .busy r (.ask (.write w) next) →
    Turn admits x
      { x.set k (.busy r (next (x.store.write w).1)) with store := (x.store.write w).2 }
  | refused {k : Kind} {r : Reconciler} {w : Write} {next : Except StoreError Nat → SyncRest}
    (e : StoreError) : x.task k = .busy r (.ask (.write w) next) →
    Turn admits x (x.set k (.busy r (next (.error e))))
  | asks {k : Kind} {r : Reconciler} {q : Call} {next : q.Answer → SyncRest} (answer : q.Answer) :
    (∀ w, q ≠ .write w) → x.task k = .busy r (.ask q next) →
    Turn admits x (x.set k (.busy r (next answer)))
  | ends {k : Kind} {r : Reconciler} {result : Except SyncError Reconciler} :
    x.task k = .busy r (.done result) →
    Turn admits x (x.set k (.resting (result.toOption.getD r)))
  | records (g : Granularity) (records : List TelemetryRecord) :
    Turn admits x
      { x with
        store := (x.store.write
          (.upsert ⟨g.table, .update ["value"]⟩ (records.map TelemetryRecord.row))).2 }

/-- What the two reconcilers come to. -/
inductive Reached (config : Kind → ReconcilerConfig) (admits : Kind → Notification → Prop) :
    Tandem → Prop
  | start : Reached config admits (start config)
  | turn {x x' : Tandem} : Reached config admits x → Turn admits x x' → Reached config admits x'

/-- A task of a kind whose sync has done some writes. -/
inductive Within (admits : Kind → Notification → Prop) (k : Kind) : Task → List Write → Prop
  | resting {r : Reconciler} : r.kind = k → r.known.Grouped → Within admits k (.resting r) []
  | syncing {r : Reconciler} {n : Notification} {trace : List Exchange} {rest : SyncRest} :
    r.kind = k → r.known.Grouped → admits k n →
    Script.Leaves (ExceptT.run (r.sync n)) trace rest →
    Within admits k (.busy r rest) (written trace)
  | warming {r : Reconciler} {trace : List Exchange} {rest : SyncRest} :
    r.kind = k → r.known.Grouped → Script.Leaves (ExceptT.run r.warmUp) trace rest →
    Within admits k (.busy r rest) (written trace)

section Invariant
variable {config : Kind → ReconcilerConfig} {admits : Kind → Notification → Prop}
  {x x' : Tandem} {k : Kind} {r : Reconciler} {ws : List Write}

theorem written_other {q : Call} (hq : ∀ w, q ≠ .write w) (answer : q.Answer)
    (trace : List Exchange) : written (trace ++ [⟨q, answer⟩]) = written trace := by
  cases q with
  | write w => exact absurd rfl (hq w)
  | select | logs | usage => simp [written, Exchange.written?]

theorem Within.writes {w : Write} {next : Except StoreError Nat → SyncRest}
    (h : Within admits k (.busy r (.ask (.write w) next)) ws) :
    (∃ n, admits k n ∧ k.Begins n (ws ++ [w])) ∧
      (∀ n, Within admits k (.busy r (next (.ok n))) (ws ++ [w])) ∧
        ∀ e, Within admits k (.busy r (next (.error e))) ws := by
  have hdone : ∀ (trace : List Exchange) (n : Nat),
      written (trace ++ [⟨.write w, (.ok n : Except StoreError Nat)⟩]) = written trace ++ [w] := by
    intro trace n
    simp [written, Exchange.written?, Except.toOption]
  have hrefused : ∀ (trace : List Exchange) (e : StoreError),
      written (trace ++ [⟨.write w, (.error e : Except StoreError Nat)⟩]) = written trace := by
    intro trace e
    simp [written, Exchange.written?, Except.toOption]
  cases h with
  | @syncing r n trace _ hkind hgrouped hadmits hleaves =>
    refine ⟨⟨n, hadmits, hkind ▸ Reconciler.begins hleaves⟩, fun m => ?_, fun e => ?_⟩
    · have hnext := hleaves.snoc (.ok m : Except StoreError Nat)
      exact hdone trace m ▸ .syncing hkind hgrouped hadmits hnext
    · have hnext := hleaves.snoc (.error e : Except StoreError Nat)
      exact hrefused trace e ▸ .syncing hkind hgrouped hadmits hnext
  | warming _ _ hleaves => exact (Reconciler.warmUp_quiet hleaves).elim

theorem Within.asks {q : Call} {next : q.Answer → SyncRest} (hq : ∀ w, q ≠ .write w)
    (h : Within admits k (.busy r (.ask q next)) ws) (answer : q.Answer) :
    Within admits k (.busy r (next answer)) ws := by
  cases h with
  | @syncing r n trace _ hkind hgrouped hadmits hleaves =>
    exact written_other hq answer trace ▸ .syncing hkind hgrouped hadmits (hleaves.snoc answer)
  | @warming r trace _ hkind hgrouped hleaves =>
    exact written_other hq answer trace ▸ .warming hkind hgrouped (hleaves.snoc answer)

theorem Within.ends {result : Except SyncError Reconciler}
    (h : Within admits k (.busy r (.done result)) ws) :
    Within admits k (.resting (result.toOption.getD r)) [] := by
  cases h with
  | syncing hkind hgrouped _ hleaves =>
    obtain ⟨hsame, hknown⟩ := Reconciler.sync_kept hleaves.runs_done hgrouped
    exact .resting (hsame.trans hkind) hknown
  | warming hkind hgrouped hleaves =>
    obtain ⟨hsame, hknown⟩ := Reconciler.warmUp_kept hleaves.runs_done hgrouped
    exact .resting (hsame.trans hkind) hknown

theorem Within.resting_inv (h : Within admits k (.resting r) ws) :
    r.kind = k ∧ r.known.Grouped ∧ ws = [] := by
  cases h with
  | resting hkind hgrouped => exact ⟨hkind, hgrouped, rfl⟩

theorem within_set {ws : Kind → List Write} (h : ∀ k, Within admits k (x.task k) (ws k))
    {task : Task} {done : List Write} (hk : Within admits k task done) :
    ∀ k', Within admits k' ((x.set k task).task k') (Function.update ws k done k') := by
  intro k'
  by_cases hne : k' = k
  · subst hne
    simpa [set] using hk
  · simpa [set, Function.update_of_ne hne] using h k'

/-- What holds before anything is written and is kept by each write, where the writes of the sync
before it may be used, holds of all that a tandem reaches. -/
theorem Reached.invariant {I : Database → (Kind → List Write) → Prop}
    (hstart : I {} fun _ => [])
    (hfresh : ∀ {d ws} (k : Kind), I d ws → I d (Function.update ws k []))
    (hwrite : ∀ {d ws k n w}, admits k n → k.Begins n (ws k ++ [w]) → I d ws →
      I (d.apply w) (Function.update ws k (ws k ++ [w])))
    (htelemetry : ∀ {d ws} (g : Granularity) (records : List TelemetryRecord), I d ws →
      I (d.apply (.upsert ⟨g.table, .updateAll⟩ (records.map TelemetryRecord.row))) ws)
    (h : Reached config admits x) :
    ∃ ws, (∀ k, Within admits k (x.task k) (ws k)) ∧ I x.store.database ws := by
  induction h with
  | start => exact ⟨fun _ => [], fun k => .resting rfl IdSet.grouped_empty, hstart⟩
  | @turn x x' _ hturn ih =>
    obtain ⟨ws, hwithin, hI⟩ := ih
    cases hturn with
    | @syncs k r n htask hadmits =>
      obtain ⟨hkind, hgrouped, -⟩ := (htask ▸ hwithin k).resting_inv
      exact ⟨_, within_set hwithin (.syncing hkind hgrouped hadmits (.stay _)), hfresh k hI⟩
    | @warms k r htask =>
      obtain ⟨hkind, hgrouped, -⟩ := (htask ▸ hwithin k).resting_inv
      exact ⟨_, within_set hwithin (.warming hkind hgrouped (.stay _)), hfresh k hI⟩
    | @writes k r w next htask =>
      obtain ⟨⟨n, hadmits, hbegins⟩, hdone, hrefused⟩ := (htask ▸ hwithin k).writes
      rcases x.store.write_cases w with ⟨e, hw⟩ | ⟨m, hw⟩
      · rw [hw]
        exact ⟨_, within_set hwithin (hrefused e), by rwa [Function.update_eq_self]⟩
      · rw [hw]
        exact ⟨_, within_set hwithin (hdone m), hwrite hadmits hbegins hI⟩
    | @refused k r w next e htask =>
      obtain ⟨-, -, hrefused⟩ := (htask ▸ hwithin k).writes
      exact ⟨_, within_set hwithin (hrefused e), by rwa [Function.update_eq_self]⟩
    | @asks k r q next answer hq htask =>
      have hnext := (htask ▸ hwithin k).asks hq answer
      exact ⟨_, within_set hwithin hnext, by rwa [Function.update_eq_self]⟩
    | @ends k r result htask =>
      exact ⟨_, within_set hwithin (htask ▸ hwithin k).ends, hfresh k hI⟩
    | records g records =>
      refine ⟨ws, hwithin, ?_⟩
      rcases x.store.write_cases
        (.upsert ⟨g.table, .update ["value"]⟩ (records.map TelemetryRecord.row)) with
        ⟨e, hw⟩ | ⟨m, hw⟩
      · rwa [hw]
      · rw [hw]
        have hsame : x.store.database.apply
            (.upsert ⟨g.table, .update ["value"]⟩ (records.map TelemetryRecord.row)) =
            x.store.database.apply
              (.upsert ⟨g.table, .updateAll⟩ (records.map TelemetryRecord.row)) :=
          congrArg (x.store.database.setRows g.table.name) (upsertRows_value g _ _)
        have hnext := htelemetry g records hI
        rwa [← hsame] at hnext

end Invariant

/-! ## Syncs that nobody interrupts -/

section Runs
variable {config : Kind → ReconcilerConfig} {admits : Kind → Notification → Prop}
  {x : Tandem} {k : Kind} {r : Reconciler} {w : World}

/-- What is left of a sync may be done to its end before anybody else takes a turn. -/
theorem Reached.run {rest : SyncRest} (h : Reached config admits x) (htask : x.task k = .busy r rest)
    (hstore : x.store = w.store) :
    Reached config admits ⟨(rest.run World.answer w).2.store,
      Function.update x.task k (.busy r (.done (rest.run World.answer w).1))⟩ := by
  induction rest generalizing x w with
  | done a =>
    have hsame : x = ⟨w.store, Function.update x.task k (.busy r (.done a))⟩ := by
      rw [← hstore, ← htask, Function.update_eq_self]
    exact hsame ▸ h
  | ask q next ih =>
    have hnext : Reached config admits ⟨(World.answer q w).2.store,
        Function.update x.task k (.busy r (next (World.answer q w).1))⟩ := by
      obtain ⟨store, task⟩ := x
      obtain rfl : store = w.store := hstore
      cases q with
      | write c => exact h.turn (.writes htask)
      | select t columns => exact h.turn (.asks (World.answer (.select t columns) w).1 nofun htask)
      | logs pod container =>
        exact h.turn (.asks (World.answer (.logs pod container) w).1 nofun htask)
      | usage pod => exact h.turn (.asks (World.answer (.usage pod) w).1 nofun htask)
    have hrest := ih _ hnext (Function.update_self ..) rfl
    rwa [Function.update_idem] at hrest

/-- A sync that nobody interrupts is a way to take turns. -/
theorem Reached.sync {n : Notification} {w' : World} {result : Except SyncError Reconciler}
    (h : Reached config admits x) (htask : x.task k = .resting r) (hadmits : admits k n)
    (hstore : x.store = w.store) (hrun : (r.sync n).runIn World.answer w = (result, w')) :
    Reached config admits
      ⟨w'.store, Function.update x.task k (.resting (result.toOption.getD r))⟩ := by
  have hbusy : (x.set k (.busy r (ExceptT.run (r.sync n)))).task k =
      .busy r (ExceptT.run (r.sync n)) := Function.update_self ..
  have hdone := (h.turn (.syncs htask hadmits)).run hbusy hstore
  have hends := hdone.turn (.ends (k := k) (r := r) (Function.update_self ..))
  have hrun' : (ExceptT.run (r.sync n)).run World.answer w = (result, w') := hrun
  simpa [set, Function.update_idem, hrun'] using hends

end Runs

end Tandem

end KubeLedger
