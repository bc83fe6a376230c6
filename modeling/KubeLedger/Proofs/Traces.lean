import KubeLedger.Reconcile.Sync

/- Traces of syncs. What a sync does is said once, by the traces of its script (`Sync.Runs`), and holds
   in every surroundings: a store in memory, a server, or one that fails at any call. The rules follow
   the ways syncs are written: a bind splits the trace, and the first refusal ends it (`runs_bind`). A
   sync whose result is an error has the failure in its trace, or met an object that is invalid
   (`Sync.Honest`). -/
namespace KubeLedger

abbrev Exchange := (q : Call) × q.Answer

namespace Exchange

def written? : Exchange → Option Write
  | ⟨.write w, (a : Except StoreError Nat)⟩ => a.toOption.map fun _ => w
  | _ => none

/-- The write that was asked for, done or not. -/
def asked? : Exchange → Option Write
  | ⟨.write w, _⟩ => some w
  | _ => none

/-- How the call failed, if it did. -/
def failure? : Exchange → Option SyncError
  | ⟨.write _, (.error e : Except StoreError Nat)⟩ => some (.store e)
  | ⟨.select _ _, (.error e : Except StoreError (List Row))⟩ => some (.store e)
  | ⟨.logs _ _, (.error e : Except ClientError (Option String))⟩ => some (.client e)
  | ⟨.usage _, (.error e : Except ClientError (Option ClusterObject))⟩ => some (.client e)
  | _ => none

end Exchange

/-- The writes that were done in a trace, in order. -/
def written (trace : List Exchange) : List Write := trace.filterMap Exchange.written?

@[simp] theorem written_append (xs ys : List Exchange) :
    written (xs ++ ys) = written xs ++ written ys := List.filterMap_append

/-- The writes that were asked for in a trace, in order. -/
def asked (trace : List Exchange) : List Write := trace.filterMap Exchange.asked?

@[simp] theorem asked_append (xs ys : List Exchange) :
    asked (xs ++ ys) = asked xs ++ asked ys := List.filterMap_append

theorem written_subset_asked (trace : List Exchange) : written trace ⊆ asked trace := by
  intro w hw
  obtain ⟨x, hx, hdone⟩ := List.mem_filterMap.mp hw
  refine List.mem_filterMap.mpr ⟨x, hx, ?_⟩
  unfold Exchange.written? at hdone
  split at hdone
  · rename_i w' a
    cases a with
    | error e => cases hdone
    | ok n => exact hdone
  · cases hdone

namespace Sync

variable {α β σ : Type}

/-- The sync can ask and be answered as in the trace, and ends with the result. -/
def Runs (x : Sync α) (trace : List Exchange) (r : Except SyncError α) : Prop :=
  Script.Runs (ExceptT.run x) trace r

theorem runIn_iff {env : Surroundings σ} {x : Sync α} {w w' : σ} {r : Except SyncError α} :
    x.runIn env w = (r, w') ↔ ∃ trace, x.Runs trace r ∧ Script.Along env trace w w' :=
  Script.run_iff

theorem runIn_ok {env : Surroundings σ} {x : Sync α} {w : σ} (a : α)
    (h : (x.runIn env w).1.isOk = true) :
    x.runIn env w = (.ok ((x.runIn env w).1.toOption.getD a), (x.runIn env w).2) := by
  cases hrun : x.runIn env w with
  | mk result w' =>
    rw [hrun] at h
    cases result with
    | ok b => rfl
    | error e => cases h

section Rules
variable {trace : List Exchange}

theorem runs_pure {a : α} {r : Except SyncError α} :
    (pure a : Sync α).Runs trace r ↔ trace = [] ∧ r = .ok a := Script.runs_done

/-- A bind either stops at its first half or goes on with the result. -/
theorem runs_bind {x : Sync α} {f : α → Sync β} {r : Except SyncError β} :
    (x >>= f).Runs trace r ↔
      (∃ e, x.Runs trace (.error e) ∧ r = .error e) ∨
        ∃ a before after, trace = before ++ after ∧ x.Runs before (.ok a) ∧ (f a).Runs after r := by
  have hbind : (x >>= f).Runs trace r ↔ ∃ a before after, trace = before ++ after ∧
      x.Runs before a ∧ (ExceptT.bindCont f a).Runs after r := Script.runs_bind
  rw [hbind]
  constructor
  · rintro ⟨a | a, before, after, rfl, hx, hf⟩
    · obtain ⟨rfl, rfl⟩ := Script.runs_done.mp hf
      exact Or.inl ⟨a, by rwa [List.append_nil], rfl⟩
    · exact Or.inr ⟨a, before, after, rfl, hx, hf⟩
  · rintro (⟨e, hx, rfl⟩ | ⟨a, before, after, rfl, hx, hf⟩)
    · exact ⟨.error e, trace, [], by rw [List.append_nil], hx, .done _⟩
    · exact ⟨.ok a, before, after, rfl, hx, hf⟩

theorem runs_map {x : Sync α} {f : α → β} {r : Except SyncError β} :
    (do let a ← x; return f a).Runs trace r ↔ ∃ r', x.Runs trace r' ∧ r = r'.map f := by
  rw [runs_bind]
  constructor
  · rintro (⟨e, hx, rfl⟩ | ⟨a, before, after, rfl, hx, hf⟩)
    · exact ⟨.error e, hx, rfl⟩
    · obtain ⟨rfl, rfl⟩ := runs_pure.mp hf
      exact ⟨.ok a, by rwa [List.append_nil], rfl⟩
  · rintro ⟨e | a, hx, rfl⟩
    · exact Or.inl ⟨e, hx, rfl⟩
    · exact Or.inr ⟨a, trace, [], by rw [List.append_nil], hx, runs_pure.mpr ⟨rfl, rfl⟩⟩

theorem runs_call {q : Call} {f : q.Answer → Except SyncError α} {r : Except SyncError α} :
    Script.Runs (Script.ask q fun a => .done (f a)) trace r ↔
      ∃ a, trace = [⟨q, a⟩] ∧ r = f a := by
  refine Script.runs_ask.trans (exists_congr fun a => ?_)
  constructor
  · rintro ⟨rest, rfl, h⟩
    obtain ⟨rfl, rfl⟩ := Script.runs_done.mp h
    exact ⟨rfl, rfl⟩
  · rintro ⟨rfl, rfl⟩
    exact ⟨[], rfl, .done _⟩

theorem runs_write {w : Write} {r : Except SyncError Nat} :
    (write w).Runs trace r ↔ ∃ a : Except StoreError Nat,
      trace = [⟨.write w, a⟩] ∧ r = a.mapError .store := runs_call

theorem runs_select {t : Table} {columns : List String} {r : Except SyncError (List Row)} :
    (select t columns).Runs trace r ↔ ∃ a : Except StoreError (List Row),
      trace = [⟨.select t columns, a⟩] ∧ r = a.mapError .store := runs_call

theorem runs_logs {pod : ObjectId} {name : String} {r : Except SyncError (Option String)} :
    (logs pod name).Runs trace r ↔ ∃ a : Except ClientError (Option String),
      trace = [⟨.logs pod name, a⟩] ∧ r = a.mapError .client := runs_call

theorem runs_usage {pod : ObjectId} {r : Except SyncError (Option ClusterObject)} :
    (usage pod).Runs trace r ↔ ∃ a : Except ClientError (Option ClusterObject),
      trace = [⟨.usage pod, a⟩] ∧ r = a.mapError .client := runs_call

theorem runs_valid {a : Except InvalidObject α} {r : Except SyncError α} :
    (valid a).Runs trace r ↔ trace = [] ∧ r = a.mapError .invalid := Script.runs_done

theorem valid_ok {a : Except InvalidObject α} {x : α} (h : (valid a).Runs trace (.ok x)) :
    trace = [] ∧ a = .ok x := by
  obtain ⟨rfl, hx⟩ := runs_valid.mp h
  cases a <;> cases hx
  exact ⟨rfl, rfl⟩

theorem valid_error {a : Except InvalidObject α} {e : SyncError}
    (h : (valid a).Runs trace (.error e)) :
    trace = [] ∧ ∃ e', a = .error e' ∧ e = .invalid e' := by
  obtain ⟨rfl, hx⟩ := runs_valid.mp h
  cases a <;> cases hx
  exact ⟨rfl, _, rfl, rfl⟩

end Rules

/-! ## Failures -/

theorem mapError_ok {ε ε' : Type} (f : ε → ε') (a : α) :
    (Except.ok a : Except ε α).mapError f = .ok a := rfl

theorem mapError_error {ε ε' : Type} (f : ε → ε') (e : ε) :
    (Except.error e : Except ε α).mapError f = .error (f e) := rfl

/-- A sync that ends in an error that is worth another try exactly if one of its calls fails, and
then with that failure. -/
def Honest (x : Sync α) : Prop :=
  ∀ ⦃trace r⦄, x.Runs trace r → ∀ ⦃e⦄, e.isRetryable = true →
    (r = .error e ↔ ∃ y ∈ trace, Exchange.failure? y = some e)

namespace Honest

theorem pure (a : α) : (Pure.pure a : Sync α).Honest := by
  intro trace r h e _
  obtain ⟨rfl, rfl⟩ := runs_pure.mp h
  simp

theorem bind {x : Sync α} {f : α → Sync β} (hx : x.Honest) (hf : ∀ a, (f a).Honest) :
    (x >>= f).Honest := by
  intro trace r h e he
  rcases runs_bind.mp h with ⟨e', hr, rfl⟩ | ⟨a, before, after, rfl, hr, hrest⟩
  · rw [← hx hr he]
    simp only [Except.error.injEq]
  · -- the first half ended well, so no call failed there
    have hbefore : ¬∃ y ∈ before, Exchange.failure? y = some e := by
      rw [← hx hr he]
      exact fun h => nomatch h
    rw [hf a hrest he]
    constructor
    · rintro ⟨y, hy, hfail⟩
      exact ⟨y, List.mem_append_right before hy, hfail⟩
    · rintro ⟨y, hy, hfail⟩
      rcases List.mem_append.mp hy with hy | hy
      · exact absurd ⟨y, hy, hfail⟩ hbefore
      · exact ⟨y, hy, hfail⟩

/-- A single call is honest if what is made of its answer is an error exactly where it fails. -/
theorem call {q : Call} {f : q.Answer → Except SyncError α}
    (hf : ∀ a e, f a = .error e ↔ Exchange.failure? ⟨q, a⟩ = some e) :
    Honest (α := α) (Script.ask q fun a => .done (f a)) := by
  intro trace r h e he
  obtain ⟨a, rfl, rfl⟩ := runs_call.mp h
  simp [hf]

theorem write (w : Write) : (Sync.write w).Honest :=
  call fun (a : Except StoreError Nat) e => by
    cases a <;> simp [mapError_ok, mapError_error, Exchange.failure?]

theorem logs (pod : ObjectId) (name : String) : (Sync.logs pod name).Honest :=
  call fun (a : Except ClientError (Option String)) e => by
    cases a <;> simp [mapError_ok, mapError_error, Exchange.failure?]

theorem usage (pod : ObjectId) : (Sync.usage pod).Honest :=
  call fun (a : Except ClientError (Option ClusterObject)) e => by
    cases a <;> simp [mapError_ok, mapError_error, Exchange.failure?]

theorem valid (a : Except InvalidObject α) : (Sync.valid a).Honest := by
  intro trace r h e he
  obtain ⟨rfl, rfl⟩ := runs_valid.mp h
  cases a with
  | error e' =>
    simp only [mapError_error, Except.error.injEq, List.not_mem_nil, false_and, exists_false,
      iff_false]
    rintro rfl
    cases he
  | ok a => simp [mapError_ok]

end Honest

/-- A sync that never finds an object invalid. -/
def Lenient (x : Sync α) : Prop := ∀ ⦃trace e⦄, ¬x.Runs trace (.error (.invalid e))

namespace Lenient

theorem pure (a : α) : (Pure.pure a : Sync α).Lenient :=
  fun _ _ h => nomatch (runs_pure.mp h).2

theorem bind {x : Sync α} {f : α → Sync β} (hx : x.Lenient) (hf : ∀ a, (f a).Lenient) :
    (x >>= f).Lenient := by
  intro trace e h
  rcases runs_bind.mp h with ⟨e', hr, he⟩ | ⟨a, before, after, rfl, _, hrest⟩
  · cases he
    exact hx hr
  · exact hf a hrest

theorem logs (pod : ObjectId) (name : String) : (Sync.logs pod name).Lenient := by
  intro trace e h
  obtain ⟨a | a, _, ha⟩ := runs_logs.mp h <;> cases ha

end Lenient

end Sync

end KubeLedger
