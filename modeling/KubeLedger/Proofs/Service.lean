import KubeLedger.Proofs.Reached

/- Surroundings in which nothing fails. Even then a store refuses rows that do not fit their table,
   and what the cluster reports may make no sense. But every write that a sync asks for fits, and an
   object that can be mapped is invalid only by its reported usage. So a deletion succeeds
   (`Serves.deleted`), and an upsert does unless the usage of the object cannot be read
   (`Serves.seen`). -/
namespace KubeLedger

/-- A call that nothing speaks against: a write of rows that fit, or any other call. -/
def Call.IsFit : Call → Prop
  | .write w => ∀ row ∈ w.rows, w.table.Fits row
  | _ => True

/-- Surroundings that stay calm once they are, and fail at no call that nothing speaks against. -/
structure Surroundings.Serves {σ : Type} (env : Surroundings σ) (calm : σ → Prop) : Prop where
  stays : ∀ {x : Exchange} {s s' : σ}, calm s → env x.1 s = (x.2, s') → calm s'
  answers : ∀ {x : Exchange} {s s' : σ}, calm s → x.1.IsFit → env x.1 s = (x.2, s') →
    x.failure? = none

/-- The usage of an object that calm surroundings may report. -/
def Surroundings.Reports {σ : Type} (env : Surroundings σ) (calm : σ → Prop) (id : ObjectId)
    (metrics : ClusterObject) : Prop :=
  ∃ s s', calm s ∧ env (.usage id) s =
    ((.ok (some metrics) : Except ClientError (Option ClusterObject)), s')

/-- Whatever usage calm surroundings may report for an object, it can be read. -/
def Surroundings.Readable {σ : Type} (env : Surroundings σ) (calm : σ → Prop) (id : ObjectId) :
    Prop :=
  ∀ metrics, env.Reports calm id metrics → ∃ us, ContainerUsage.ofMetrics id metrics = .ok us

theorem Write.Proper.fits {keys : List (List String)} {w : Write} (h : w.Proper keys) :
    ∀ row ∈ w.rows, w.table.Fits row := by
  cases w with
  | upsert u rows => exact fun row hrow => (h.2.2.2 row hrow).fits
  | replace t foreignKey owner rows => exact fun row hrow => (h.2.1 row hrow).fits
  | delete step e => exact fun row hrow => nomatch hrow

namespace Surroundings.Serves

variable {σ : Type} {env : Surroundings σ} {calm : σ → Prop} {w w' : σ}

/-- On a way through calm surroundings no call fails, and every answer was given calmly. -/
theorem along (henv : env.Serves calm) {trace : List Exchange} (hw : calm w)
    (hfit : ∀ x ∈ asked trace, (Call.write x).IsFit) (h : Script.Along env trace w w') :
    calm w' ∧ ∀ x ∈ trace, x.failure? = none ∧ ∃ s s', calm s ∧ env x.1 s = (x.2, s') := by
  induction trace generalizing w with
  | nil =>
    obtain rfl : w = w' := h
    exact ⟨hw, fun x hx => nomatch hx⟩
  | cons x rest ih =>
    obtain ⟨mid, hx, hrest⟩ := h
    have hfirst : x.1.IsFit := by
      obtain ⟨q, a⟩ := x
      cases q with
      | write q => exact hfit q List.mem_cons_self
      | select t columns => exact trivial
      | logs pod container => exact trivial
      | usage pod => exact trivial
    have hlater : ∀ y ∈ asked rest, (Call.write y).IsFit := by
      intro y hy
      have hcons : asked (x :: rest) = asked [x] ++ asked rest := asked_append [x] rest
      exact hfit y (hcons ▸ List.mem_append_right _ hy)
    obtain ⟨hcalm, hall⟩ := ih (henv.stays hw hx) hlater hrest
    refine ⟨hcalm, fun y hy => ?_⟩
    rcases List.mem_cons.mp hy with rfl | hy
    · exact ⟨henv.answers hw hfirst hx, w, mid, hw, hx⟩
    · exact hall y hy

variable {r : Reconciler} {n : Notification} {result : Except SyncError Reconciler}

theorem sync (henv : env.Serves calm) (hw : calm w)
    (hrun : (r.sync n).runIn env w = (result, w')) :
    calm w' ∧ ∀ e, result = .error e → e.isRetryable = false := by
  obtain ⟨trace, hruns, halong⟩ := Sync.runIn_iff.mp hrun
  have hproper := Reconciler.sync_proper hruns (List.Subset.refl _)
  obtain ⟨hcalm, hall⟩ := henv.along hw (fun x hx => (hproper x hx).fits) halong
  refine ⟨hcalm, fun e he => ?_⟩
  -- an error that is worth another try is the failure of a call, and there was none
  by_contra hretry
  rw [Bool.not_eq_false] at hretry
  obtain ⟨x, hx, hfailure⟩ := (Sync.Honest.sync r n hruns hretry).mp he
  rw [(hall x hx).1] at hfailure
  cases hfailure

theorem deleted (henv : env.Serves calm) (hw : calm w) (hn : n.object = none)
    (hrun : (r.sync n).runIn env w = (result, w')) : calm w' ∧ ∃ r', result = .ok r' := by
  obtain ⟨hcalm, hinvalid⟩ := henv.sync hw hrun
  refine ⟨hcalm, ?_⟩
  cases result with
  | ok r' => exact ⟨r', rfl⟩
  | error e =>
    obtain ⟨trace, hruns, -⟩ := Sync.runIn_iff.mp hrun
    obtain ⟨deleted, hdelete, hresult⟩ := (Sync.sync_deleted hn).mp hruns
    obtain ⟨-, ⟨rfl, -⟩ | ⟨e', rfl, hretry, -⟩⟩ := Sync.delete_follows r.kind n.id hdelete
    · cases hresult
    · cases hresult
      rw [hinvalid _ rfl] at hretry
      cases hretry

theorem warmUp (henv : env.Serves calm) (hw : calm w) :
    ∃ r' w', r.warmUp.runIn env w = (.ok r', w') ∧ calm w' := by
  obtain ⟨result, w', hrun⟩ : ∃ result w', r.warmUp.runIn env w = (result, w') := ⟨_, _, rfl⟩
  obtain ⟨trace, hruns, halong⟩ := Sync.runIn_iff.mp hrun
  obtain ⟨selected, hselect, rfl⟩ := Sync.runs_map.mp hruns
  obtain ⟨a, rfl, rfl⟩ := Sync.runs_select.mp hselect
  obtain ⟨hcalm, hall⟩ := henv.along hw (fun x hx => absurd hx List.not_mem_nil) halong
  cases a with
  | error e => cases (hall _ List.mem_cons_self).1
  | ok rows => exact ⟨_, w', hrun, hcalm⟩

/-- An upsert of an object that can be mapped writes all of its plan, and then snapshots. It
succeeds unless the usage of the object cannot be read. -/
theorem seen (henv : env.Serves calm) {db : σ → Database} {own : String → Prop}
    (hkeeps : env.Keeps db own) (hw : calm w) {o : ClusterObject} (hn : n.object = some o)
    {m : Mapped} (hmap : r.kind.map o = .ok m) (hrun : (r.sync n).runIn env w = (result, w')) :
    calm w' ∧
    (result = .ok { r with known := r.known.insert o.id } ∨
      (∃ e, result = .error (.invalid e)) ∧ ¬env.Readable calm o.id) ∧
    ∃ trace taken, Changes own (m.plan r.kind ++ taken) (db w) (db w') ∧
      (∀ x ∈ taken, Sync.IsSnapshot m trace x) ∧
      ∀ metrics, (⟨.usage m.objectId, (.ok (some metrics) :
        Except ClientError (Option ClusterObject))⟩ : Exchange) ∈ trace →
          env.Reports calm o.id metrics := by
  obtain ⟨hcalm, hinvalid⟩ := henv.sync hw hrun
  obtain ⟨trace, hruns, halong⟩ := Sync.runIn_iff.mp hrun
  obtain ⟨upserted, hupsert, rfl⟩ := (Sync.sync_seen hn).mp hruns
  have hid : m.objectId = o.id := (Kind.map_describes hmap).objectId
  have hreports : ∀ metrics, (⟨.usage m.objectId, (.ok (some metrics) :
      Except ClientError (Option ClusterObject))⟩ : Exchange) ∈ trace →
        env.Reports calm o.id metrics := by
    intro metrics hin
    -- what stands in the trace was answered in a calm state
    have hproper := Reconciler.sync_proper hruns (List.Subset.refl _)
    obtain ⟨-, s, s', hs, hcall⟩ :=
      (henv.along hw (fun x hx => (hproper x hx).fits) halong).2 _ hin
    exact ⟨s, s', hs, hid ▸ hcall⟩
  refine ⟨hcalm, ?_⟩
  rcases Sync.upsert_inv hupsert with ⟨e, hfailed, -, -⟩ | ⟨m', hmap', hend⟩
  · rw [hmap] at hfailed
    cases hfailed
  · obtain rfl : m = m' := Except.ok.inj (hmap.symm.trans hmap')
    rcases hend with ⟨e, rfl, hretry, -⟩ | ⟨before, after, taken, rfl, -, hall, htaken, rfl⟩
    · rw [hinvalid e rfl] at hretry
      cases hretry
    · obtain ⟨hsnapshots, hmisreported⟩ := Sync.snapshots_inv htaken
      refine ⟨?_, before ++ after, written after, ?_, fun x hx => ?_, hreports⟩
      · cases taken with
        | ok u => exact Or.inl (by rw [← hid]; rfl)
        | error e =>
          cases e with
          | invalid e =>
            obtain ⟨metrics, hin, hread⟩ := hmisreported e rfl
            refine Or.inr ⟨⟨e, rfl⟩, fun hreadable => ?_⟩
            obtain ⟨us, hus⟩ := hreadable metrics (hreports metrics (List.mem_append_right _ hin))
            rw [hid, hus] at hread
            cases hread
          | store e => cases hinvalid _ rfl
          | client e => cases hinvalid _ rfl
      · have hchanges := hkeeps.changes halong
        rwa [written_append, hall] at hchanges
      · exact (hsnapshots x (written_subset_asked after hx)).mono (List.subset_append_right _ _)

end Surroundings.Serves

theorem World.serves {c : ScriptedCluster} (hlogs : c.logFailure = none)
    (husage : c.usageFailure = none) :
    World.answer.Serves fun w => w.store.failing = [] ∧ w.cluster = c where
  stays := by
    intro x s s' hs hx
    obtain ⟨q, a⟩ := x
    cases q with
    | write q =>
      simp only [World.answer, Memory.write] at hx
      split at hx <;> cases hx <;> exact hs
    | select t columns => cases hx; exact hs
    | logs pod container => cases hx; exact hs
    | usage pod => cases hx; exact hs
  answers := by
    intro x s s' hs hfit hx
    obtain ⟨q, a⟩ := x
    cases q with
    | write q =>
      have hshape : checkShape q.table q.rows = .ok () := checkShape_ok_iff.mpr hfit
      have haccepted : s.store.refusal? q = none := by simp [Memory.refusal?, hshape, hs.1]
      simp only [World.answer, Memory.write, haccepted] at hx
      cases hx
      rfl
    | select t columns => cases hx; rfl
    | logs pod container =>
      simp only [World.answer, ScriptedCluster.logs, hs.2, hlogs] at hx
      cases hx
      rfl
    | usage pod =>
      simp only [World.answer, ScriptedCluster.usage, hs.2, husage] at hx
      cases hx
      rfl

theorem World.reports_nothing {c : ScriptedCluster} (husages : c.usages = []) {id : ObjectId}
    {metrics : ClusterObject} : ¬Surroundings.Reports World.answer
      (fun w => w.store.failing = [] ∧ w.cluster = c) id metrics := by
  rintro ⟨s, s', ⟨-, rfl⟩, hcall⟩
  simp only [World.answer, ScriptedCluster.usage, husages] at hcall
  split at hcall <;> cases hcall

end KubeLedger
