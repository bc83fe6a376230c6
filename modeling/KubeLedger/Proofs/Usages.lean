import KubeLedger.Proofs.NamedParts
import KubeLedger.Proofs.Quantities
import KubeLedger.Proofs.Windows

/- Which metrics of a pod are accepted. The window is read first, then one container after another,
   each with its name and its four resources. What cannot be read at any of these places refuses the
   whole, and nothing else does (`ContainerUsage.WellFormed`). What is accepted has one usage for each
   container, in order, that says what the container does (`ContainerUsage.Describes`). -/
namespace KubeLedger

theorem Json.text_cases (v : Option Json) :
    (∃ s, v = some (.text s) ∧ v.bind Json.text? = some s) ∨
      (∀ s, v ≠ some (.text s)) ∧ v.bind Json.text? = none := by
  rcases v with - | (_ | _ | _ | _ | _ | _) <;> simp [Json.text?]

namespace ContainerUsage

variable {metrics : ClusterObject} {pod : ObjectId} {v : Json} {resource : String} {x : Float}
  {n timestamp duration : Int64} {e : InvalidObject} {u : ContainerUsage}

/-! ## Resources -/

/-- The resources of which a container may report its usage. -/
def resources : List String := ["cpu", "memory", "storage", "ephemeral-storage"]

/-- How much of a resource a container uses: the quantity that it reports as a text, or zero if there
is no text. -/
def Uses (v : Json) (resource : String) (x : Float) : Prop :=
  (∃ s, v.at? ["usage", resource] = some (.text s) ∧ Quantity.read s = .ok x) ∨
    (∀ s, v.at? ["usage", resource] ≠ some (.text s)) ∧ x = 0

/-- What a container reports of a resource as a text is no quantity. -/
def Misstates (v : Json) (resource : String) : Prop :=
  ∃ s, v.at? ["usage", resource] = some (.text s) ∧ ∀ x, Quantity.read s ≠ .ok x

theorem quantity_of_text {s : String}
    (h : (v.at? ["usage", resource]).bind Json.text? = some s) :
    quantity v resource = (Quantity.read s).mapError fun _ => ⟨.malformedUsage, v⟩ := by
  unfold quantity Json.textAt? Quantity.read
  rw [h]
  dsimp only
  cases Quantity.read? s <;> rfl

theorem quantity_of_none (h : (v.at? ["usage", resource]).bind Json.text? = none) :
    quantity v resource = .ok 0 := by
  unfold quantity Json.textAt?
  rw [h]

theorem quantity_ok_iff : quantity v resource = .ok x ↔ Uses v resource x := by
  rcases Json.text_cases (v.at? ["usage", resource]) with ⟨s, hs, htext⟩ | ⟨hnot, hnone⟩
  · rw [quantity_of_text htext]
    cases hread : Quantity.read s <;> simp [Uses, hs, hread, Except.mapError]
  · rw [quantity_of_none hnone]
    simp [Uses, hnot, eq_comm]

theorem quantity_error_iff :
    quantity v resource = .error e ↔ Misstates v resource ∧ e = ⟨.malformedUsage, v⟩ := by
  rcases Json.text_cases (v.at? ["usage", resource]) with ⟨s, hs, htext⟩ | ⟨hnot, hnone⟩
  · rw [quantity_of_text htext]
    cases hread : Quantity.read s <;> simp [Misstates, hs, hread, Except.mapError, eq_comm]
  · rw [quantity_of_none hnone]
    simp [Misstates, hnot]

/-! ## Windows -/

/-- How long the window of metrics is, in milliseconds: what the parts of its text make, or zero if
there is no text. -/
def Spans (metrics : ClusterObject) (n : Int64) : Prop :=
  (∃ s, metrics.value.at? ["window"] = some (.text s) ∧ ∃ parts ≠ [],
      s.toList = Window.written parts ∧ n = Decimal.roundToInt64 (Window.sum 0 parts)) ∨
    (∀ s, metrics.value.at? ["window"] ≠ some (.text s)) ∧ n = 0

def IsGarbled (metrics : ClusterObject) : Prop :=
  ∃ s, metrics.value.at? ["window"] = some (.text s) ∧
    ∀ parts ≠ [], s.toList ≠ Window.written parts

theorem window_ok_iff : window metrics = .ok n ↔ Spans metrics n := by
  unfold window ClusterObject.text? Json.textAt?
  rcases Json.text_cases (metrics.value.at? ["window"]) with ⟨s, hs, htext⟩ | ⟨hnot, hnone⟩
  · have hspans : Spans metrics n ↔ Window.read? s = some n := by
      simp [Spans, hs, Window.read?_iff]
    rw [htext, hspans]
    dsimp only
    cases Window.read? s <;> simp
  · rw [hnone]
    simp [Spans, hnot, eq_comm]

theorem window_error_iff :
    window metrics = .error e ↔ IsGarbled metrics ∧ e = ⟨.malformedWindow, metrics.value⟩ := by
  unfold window ClusterObject.text? Json.textAt?
  rcases Json.text_cases (metrics.value.at? ["window"]) with ⟨s, hs, htext⟩ | ⟨hnot, hnone⟩
  · have hgarbled : IsGarbled metrics ↔ Window.read? s = none := by
      simp [IsGarbled, hs, Window.read?_eq_none_iff]
    rw [htext, hgarbled]
    dsimp only
    cases Window.read? s <;> simp [eq_comm]
  · rw [hnone]
    simp [IsGarbled, hnot]

/-! ## Containers -/

def IsNamed (v : Json) : Prop := ∃ name, v.get? "name" = some (.text name)

def IsMeasured (v : Json) : Prop :=
  ∀ resource ∈ resources, ∀ s, v.at? ["usage", resource] = some (.text s) →
    ∃ x, Quantity.read s = .ok x

/-- A usage says what an element of the containers of some metrics does. -/
structure Describes (u : ContainerUsage) (pod : ObjectId) (metrics : ClusterObject) (v : Json) :
    Prop where
  name : v.get? "name" = some (.text u.containerName)
  id : u.containerId = .container pod.ns pod.name u.containerName ∧ u.pod = pod
  timestamp : u.timestamp = (metrics.millis? ["timestamp"]).getD 0
  duration : Spans metrics u.duration
  cpu : Uses v "cpu" u.cpu
  memory : ∃ bytes, Uses v "memory" bytes ∧ u.memory = bytes / mebibyte
  storage : ∃ bytes, Uses v "storage" bytes ∧ u.storage = bytes / mebibyte
  ephemeralStorage : ∃ bytes, Uses v "ephemeral-storage" bytes ∧
    u.ephemeralStorage = bytes / mebibyte

/-- What is said of a container that cannot be read: that it has no name, or else that a quantity is
malformed. -/
def Refuses (v : Json) (e : InvalidObject) : Prop :=
  ¬IsNamed v ∧ e = ⟨.usageWithoutName, v⟩ ∨ IsNamed v ∧ ¬IsMeasured v ∧ e = ⟨.malformedUsage, v⟩

theorem isMeasured_iff : IsMeasured v ↔ ∀ resource ∈ resources, ¬Misstates v resource := by
  simp [IsMeasured, Misstates]

/-- What is not misstated is used, if only to the amount of zero. -/
theorem exists_uses_iff : (∃ x, Uses v resource x) ↔ ¬Misstates v resource := by
  simp [← quantity_ok_iff, exists_ok_iff, quantity_error_iff]

/-- Reading goes on with what a container uses of a resource, or stops there. -/
theorem bind_quantity_error {α : Type} {f : Float → Except InvalidObject α} :
    (quantity v resource >>= f) = .error e ↔
      Misstates v resource ∧ e = ⟨.malformedUsage, v⟩ ∨
        ∃ x, Uses v resource x ∧ f x = .error e := by
  simp only [← quantity_error_iff, ← quantity_ok_iff]
  cases quantity v resource <;> simp [bind, Except.bind]

theorem ofJson_error_iff : ofJson pod timestamp duration v = .error e ↔ Refuses v e := by
  have hnamed : IsNamed v ↔ ∃ name, (v.get? "name").bind Json.text? = some name := by
    simp only [IsNamed, Json.bind_text_eq_some]
  unfold ofJson Refuses
  split
  · next hnone => simp [hnamed, hnone, eq_comm, throw, throwThe, MonadExceptOf.throw]
  · next name hname =>
    have hnamed : IsNamed v := hnamed.mpr ⟨name, hname⟩
    -- reading stops at the first misstated resource, but says the same of each
    simp only [bind_quantity_error, isMeasured_iff, resources, List.forall_mem_cons, hnamed,
      pure, Except.pure, reduceCtorEq, and_false, exists_false, or_false, exists_and_right,
      exists_uses_iff, List.not_mem_nil, false_implies, implies_true]
    tauto

/-- A container can be read if nothing is to be said against it. -/
theorem exists_ofJson_ok :
    (∃ u, ofJson pod timestamp duration v = .ok u) ↔ IsNamed v ∧ IsMeasured v := by
  simp only [exists_ok_iff, ne_eq, ofJson_error_iff, Refuses]
  by_cases hnamed : IsNamed v <;> by_cases hmeasured : IsMeasured v <;> simp [hnamed, hmeasured]

theorem describes_of_ok
    (hduration : Spans metrics duration)
    (h : ofJson pod ((metrics.millis? ["timestamp"]).getD 0) duration v = .ok u) :
    u.Describes pod metrics v := by
  unfold ofJson at h
  split at h
  · cases h
  · next name hname =>
    obtain ⟨cpu, hcpu, h⟩ := of_bind_ok h
    obtain ⟨memory, hmemory, h⟩ := of_bind_ok h
    obtain ⟨storage, hstorage, h⟩ := of_bind_ok h
    obtain ⟨ephemeral, hephemeral, h⟩ := of_bind_ok h
    cases h
    exact ⟨Json.bind_text_eq_some.mp hname, ⟨rfl, rfl⟩, rfl, hduration, quantity_ok_iff.mp hcpu,
      ⟨memory, quantity_ok_iff.mp hmemory, rfl⟩, ⟨storage, quantity_ok_iff.mp hstorage, rfl⟩,
      ⟨ephemeral, quantity_ok_iff.mp hephemeral, rfl⟩⟩

/-! ## Metrics -/

/-- Metrics whose window, if it is a text, consists of parts, and whose containers have their names and
report quantities where they report texts. -/
structure WellFormed (metrics : ClusterObject) : Prop where
  window : ∀ s, metrics.value.at? ["window"] = some (.text s) →
    ∃ parts ≠ [], s.toList = Window.written parts
  named : ∀ v ∈ metrics.items ["containers"], IsNamed v
  measured : ∀ v ∈ metrics.items ["containers"], IsMeasured v

/-- What is said of metrics that are not accepted: the window is malformed, or else the first container
that cannot be read is refused. -/
def Refused (metrics : ClusterObject) (e : InvalidObject) : Prop :=
  IsGarbled metrics ∧ e = ⟨.malformedWindow, metrics.value⟩ ∨
    ¬IsGarbled metrics ∧ ∃ before v after, metrics.items ["containers"] = before ++ v :: after ∧
      (∀ w ∈ before, IsNamed w ∧ IsMeasured w) ∧ Refuses v e

theorem not_isGarbled_iff : ¬IsGarbled metrics ↔
    ∀ s, metrics.value.at? ["window"] = some (.text s) →
      ∃ parts ≠ [], s.toList = Window.written parts := by
  simp [IsGarbled]

theorem exists_window_ok : (∃ n, window metrics = .ok n) ↔ ¬IsGarbled metrics := by
  simp [exists_ok_iff, window_error_iff]

theorem ofMetrics_of_garbled (h : IsGarbled metrics) :
    ofMetrics pod metrics = .error ⟨.malformedWindow, metrics.value⟩ := by
  unfold ofMetrics
  rw [window_error_iff.mpr ⟨h, rfl⟩]
  rfl

theorem ofMetrics_of_window (h : window metrics = .ok duration) :
    ofMetrics pod metrics = (metrics.items ["containers"]).mapM
      (ofJson pod ((metrics.millis? ["timestamp"]).getD 0) duration) := by
  unfold ofMetrics
  rw [h]
  rfl

theorem ofMetrics_error_iff : ofMetrics pod metrics = .error e ↔ Refused metrics e := by
  unfold Refused
  by_cases hgarbled : IsGarbled metrics
  · simp [ofMetrics_of_garbled hgarbled, hgarbled, eq_comm]
  · obtain ⟨duration, hwindow⟩ := exists_window_ok.mpr hgarbled
    rw [ofMetrics_of_window hwindow, mapM_error_iff]
    simp [exists_ofJson_ok, ofJson_error_iff, hgarbled]

theorem exists_ofMetrics_ok : (∃ us, ofMetrics pod metrics = .ok us) ↔ WellFormed metrics := by
  by_cases hgarbled : IsGarbled metrics
  · rw [ofMetrics_of_garbled hgarbled]
    exact ⟨nofun, fun h => absurd hgarbled (not_isGarbled_iff.mpr h.window)⟩
  · obtain ⟨duration, hwindow⟩ := exists_window_ok.mpr hgarbled
    rw [ofMetrics_of_window hwindow, exists_mapM_ok]
    simp only [exists_ofJson_ok]
    exact ⟨fun h => ⟨not_isGarbled_iff.mp hgarbled, fun v hv => (h v hv).1, fun v hv => (h v hv).2⟩,
      fun h v hv => ⟨h.named v hv, h.measured v hv⟩⟩

theorem ofMetrics_describes {us : List ContainerUsage} (h : ofMetrics pod metrics = .ok us) :
    List.Forall₂ (fun v u => u.Describes pod metrics v) (metrics.items ["containers"]) us := by
  obtain ⟨duration, hwindow, h⟩ := of_bind_ok h
  exact (mapM_ok_iff.mp h).imp fun v u => describes_of_ok (window_ok_iff.mp hwindow)

/-- The usage of a pod is accepted exactly if its metrics are well formed. Then there is one usage for
each container, in order, that says what the container does; otherwise the malformed window is
refused, or else the first container that has no name or misstates a resource. -/
theorem usage_accepted_iff (pod : ObjectId) (metrics : ClusterObject) :
    ((∃ us, ofMetrics pod metrics = .ok us) ↔ WellFormed metrics) ∧
    (∀ us, ofMetrics pod metrics = .ok us →
      List.Forall₂ (fun v u => u.Describes pod metrics v) (metrics.items ["containers"]) us) ∧
    ∀ e, ofMetrics pod metrics = .error e ↔ Refused metrics e :=
  ⟨exists_ofMetrics_ok, fun _ => ofMetrics_describes, fun _ => ofMetrics_error_iff⟩

/-- Metrics of two containers, of which one reports no resources. -/
def twoContainers : ClusterObject :=
  ⟨.object [("containers", .array [.object [("name", .text "nginx"),
      ("usage", .object [("cpu", .text "250m"), ("memory", .text "64Mi")])],
      .object [("name", .text "proxy")]]),
    ("window", .text "1m0.5s")]⟩

/-- Metrics whose window goes on behind its last unit. -/
def lateMetrics : ClusterObject :=
  ⟨.object [("containers", .array [.null]), ("window", .text "30s later")]⟩

/-- It applies to metrics with a window of two parts, and to a window that is read only in part. -/
theorem usage_accepted_iff_two :
    (∃ us, ofMetrics ⟨"default", "web-1"⟩ twoContainers = .ok us ∧
      us.map ContainerUsage.containerName = ["nginx", "proxy"]) ∧
    ofMetrics ⟨"default", "web-1"⟩ lateMetrics = .error ⟨.malformedWindow, lateMetrics.value⟩ := by
  constructor
  · obtain ⟨haccepted, hrows, -⟩ := usage_accepted_iff ⟨"default", "web-1"⟩ twoContainers
    have hnames : ∀ v ∈ twoContainers.items ["containers"],
        ((v.get? "name").bind Json.text?).isSome = true := by decide +kernel
    have hquantities : ∀ v ∈ twoContainers.items ["containers"], ∀ resource ∈ resources,
        (quantity v resource).isOk = true := by decide +kernel
    have hwell : WellFormed twoContainers := by
      refine ⟨?_, ?_, ?_⟩
      · rintro s ⟨⟩
        have hread : (Window.read? "1m0.5s").isSome = true := by decide +kernel
        obtain ⟨n, hn⟩ := Option.isSome_iff_exists.mp hread
        obtain ⟨parts, hne, hchars, -⟩ := Window.read?_iff.mp hn
        exact ⟨parts, hne, hchars⟩
      · intro v hv
        obtain ⟨name, hname⟩ := Option.isSome_iff_exists.mp (hnames v hv)
        exact ⟨name, Json.bind_text_eq_some.mp hname⟩
      · intro v hv
        refine isMeasured_iff.mpr fun resource hresource => exists_uses_iff.mp ?_
        have hok := hquantities v hv resource hresource
        cases hread : quantity v resource with
        | error e => simp [hread, Except.isOk, Except.toBool] at hok
        | ok x => exact ⟨x, quantity_ok_iff.mp hread⟩
    obtain ⟨us, hus⟩ := haccepted.mpr hwell
    refine ⟨us, hus, ?_⟩
    obtain _ | ⟨hfirst, _ | ⟨hsecond, ⟨⟩⟩⟩ := hrows us hus
    have hnginx : "nginx" = _ := Json.text.inj (Option.some.inj hfirst.name)
    have hproxy : "proxy" = _ := Json.text.inj (Option.some.inj hsecond.name)
    rw [List.map_cons, List.map_cons, ← hnginx, ← hproxy]
    rfl
  · refine ((usage_accepted_iff ⟨"default", "web-1"⟩ lateMetrics).2.2 _).mpr (.inl ⟨?_, rfl⟩)
    have hread : Window.read? "30s later" = none := by decide +kernel
    exact ⟨"30s later", rfl, Window.read?_eq_none_iff.mp hread⟩

end ContainerUsage

end KubeLedger
