import KubeLedger.Proofs.Integrity

/- How much of an object is mapped: all of it, or nothing. A condition has to name its type and a
   container its name. The first part that does not, conditions before containers, refuses the
   object (`NamedPart.Refuses`); otherwise each part has its row, in order, and each container is
   joined with the first status of its name (`Container.Joined`), wherever that stands and whatever
   else the statuses hold. `Mapped.MadeOf` says so of the rows, `parts_mapped` of every object. -/
namespace KubeLedger

/-! ## Reading lists -/

section Lists
variable {α β ε : Type} {f : α → Except ε β} {xs : List α} {ys : List β} {e : ε}

/-- Something is made unless something is said against it. -/
theorem exists_ok_iff {r : Except ε β} : (∃ b, r = .ok b) ↔ ∀ e, r ≠ .error e := by
  cases r <;> simp

/-- What is made of a list is made of its elements one by one. -/
theorem mapM_ok_iff : xs.mapM f = .ok ys ↔ List.Forall₂ (fun x y => f x = .ok y) xs ys := by
  induction xs generalizing ys with
  | nil => cases ys <;> simp [pure, Except.pure]
  | cons x xs ih =>
    rw [List.mapM_cons]
    constructor
    · intro h
      obtain ⟨y, hy, h⟩ := of_bind_ok h
      obtain ⟨rest, hrest, h⟩ := of_bind_ok h
      cases h
      exact .cons hy (ih.mp hrest)
    · rintro (_ | ⟨hy, hrest⟩)
      rw [hy, ih.mpr hrest]
      rfl

/-- The first element of its sort is the one in front, or else that of the others. -/
theorem exists_first_cons {x : α} {P Q : α → Prop} :
    (∃ before y after, x :: xs = before ++ y :: after ∧ (∀ z ∈ before, P z) ∧ Q y) ↔
      Q x ∨ P x ∧ ∃ before y after, xs = before ++ y :: after ∧ (∀ z ∈ before, P z) ∧ Q y := by
  constructor
  · rintro ⟨before, y, after, h, hbefore, hy⟩
    cases before with
    | nil =>
      obtain ⟨rfl, rfl⟩ := List.cons.inj h
      exact .inl hy
    | cons first before =>
      obtain ⟨rfl, rfl⟩ := List.cons.inj h
      obtain ⟨hx, hbefore⟩ := List.forall_mem_cons.mp hbefore
      exact .inr ⟨hx, before, y, after, rfl, hbefore, hy⟩
  · rintro (hx | ⟨hx, before, y, after, rfl, hbefore, hy⟩)
    · exact ⟨[], x, xs, rfl, by simp, hx⟩
    · exact ⟨x :: before, y, after, rfl, List.forall_mem_cons.mpr ⟨hx, hbefore⟩, hy⟩

/-- What is said of a list is said of the first element of which nothing can be made. -/
theorem mapM_error_iff : xs.mapM f = .error e ↔
    ∃ before x after, xs = before ++ x :: after ∧ (∀ y ∈ before, ∃ b, f y = .ok b) ∧
      f x = .error e := by
  induction xs with
  | nil => simp [pure, Except.pure]
  | cons x xs ih =>
    rw [List.mapM_cons, exists_first_cons, ← ih]
    cases f x with
    | error e' => simp [bind, Except.bind]
    | ok b => cases xs.mapM f <;> simp [bind, Except.bind, pure, Except.pure]

/-- Something is made of a list if something is made of each of its elements. -/
theorem exists_mapM_ok : (∃ ys, xs.mapM f = .ok ys) ↔ ∀ x ∈ xs, ∃ y, f x = .ok y := by
  constructor
  · rintro ⟨ys, h⟩
    have hall := mapM_ok_iff.mp h
    clear h
    induction hall with
    | nil => simp
    | cons hx _ ih => exact List.forall_mem_cons.mpr ⟨⟨_, hx⟩, ih⟩
  · intro h
    cases hxs : xs.mapM f with
    | ok ys => exact ⟨ys, rfl⟩
    | error e =>
      obtain ⟨before, x, after, rfl, -, hx⟩ := mapM_error_iff.mp hxs
      obtain ⟨y, hy⟩ := h x (by simp)
      cases hx.symm.trans hy

end Lists

/-! ## Parts that have to be named -/

/-- A part of an object that has to carry a text under a member, and what is wrong with it
otherwise. -/
structure NamedPart where
  member : String
  fault : ObjectFault
  value : Json

namespace NamedPart

def IsNamed (p : NamedPart) : Prop := ∃ s, p.value.get? p.member = some (.text s)

/-- What is said of a part without its text. -/
def refusal (p : NamedPart) : InvalidObject := ⟨p.fault, p.value⟩

def condition (v : Json) : NamedPart := ⟨"type", .conditionWithoutType, v⟩

def container (v : Json) : NamedPart := ⟨"name", .containerWithoutName, v⟩

/-- The first of the parts that is not named is refused. -/
def Refuses (parts : List NamedPart) (e : InvalidObject) : Prop :=
  ∃ before p after, parts = before ++ p :: after ∧ (∀ q ∈ before, q.IsNamed) ∧ ¬p.IsNamed ∧
    e = p.refusal

section
variable {p : NamedPart} {ps qs : List NamedPart} {e : InvalidObject}

theorem refuses_nil : ¬Refuses [] e := by
  rintro ⟨before, p, after, h, -⟩
  simp at h

theorem refuses_cons :
    Refuses (p :: ps) e ↔ ¬p.IsNamed ∧ e = p.refusal ∨ p.IsNamed ∧ Refuses ps e :=
  exists_first_cons

/-- Later parts are looked at once all earlier ones are named. -/
theorem refuses_append :
    Refuses (ps ++ qs) e ↔ Refuses ps e ∨ (∀ p ∈ ps, p.IsNamed) ∧ Refuses qs e := by
  induction ps with
  | nil => simp [refuses_nil]
  | cons p ps ih =>
    rw [List.cons_append, refuses_cons, refuses_cons, ih, List.forall_mem_cons]
    tauto

/-- There is a refusal exactly where a part is not named. -/
theorem exists_refuses : (∃ e, Refuses ps e) ↔ ∃ p ∈ ps, ¬p.IsNamed := by
  induction ps with
  | nil => simp [refuses_nil]
  | cons p ps ih =>
    simp only [refuses_cons, List.exists_mem_cons_iff, ← ih]
    by_cases hp : p.IsNamed <;> simp [hp]

end

/-! ## Reading parts one after another -/

section
variable {α : Type} {part : Json → NamedPart} {f : Json → Except InvalidObject α} {vs : List Json}

theorem isNamed_iff (hf : ∀ v e, f v = .error e ↔ ¬(part v).IsNamed ∧ e = (part v).refusal)
    (v : Json) : (∃ a, f v = .ok a) ↔ (part v).IsNamed := by
  simp [exists_ok_iff, hf]

/-- Reading stops at the first part that is not named. -/
theorem mapM_refused_iff {e : InvalidObject}
    (hf : ∀ v e, f v = .error e ↔ ¬(part v).IsNamed ∧ e = (part v).refusal) :
    vs.mapM f = .error e ↔ Refuses (vs.map part) e := by
  rw [mapM_error_iff]
  constructor
  · rintro ⟨before, v, after, rfl, hbefore, hv⟩
    refine ⟨before.map part, part v, after.map part, by simp, ?_, (hf v e).mp hv⟩
    intro p hp
    obtain ⟨u, hu, rfl⟩ := List.mem_map.mp hp
    exact (isNamed_iff hf u).mp (hbefore u hu)
  · rintro ⟨before, p, after, hsplit, hbefore, hp⟩
    obtain ⟨us, rest, rfl, rfl, hrest⟩ := List.map_eq_append_iff.mp hsplit
    obtain ⟨v, vs, rfl, rfl, rfl⟩ := List.map_eq_cons_iff.mp hrest
    exact ⟨us, v, vs, rfl, fun u hu => (isNamed_iff hf u).mpr (hbefore _ (List.mem_map_of_mem hu)),
      (hf v e).mpr hp⟩

/-- If all of them are named, reading succeeds. -/
theorem mapM_accepted_iff
    (hf : ∀ v e, f v = .error e ↔ ¬(part v).IsNamed ∧ e = (part v).refusal) :
    (∃ as, vs.mapM f = .ok as) ↔ ∀ p ∈ vs.map part, p.IsNamed := by
  simp only [exists_mapM_ok, isNamed_iff hf, List.forall_mem_map]

end

end NamedPart

/-! ## Conditions and containers -/

theorem Json.bind_text_eq_some {v : Option Json} {s : String} :
    v.bind Json.text? = some s ↔ v = some (.text s) := by
  rcases v with - | (_ | _ | _ | _ | _ | _) <;> simp [Json.text?]

theorem Json.bind_bool_getD {v : Option Json} :
    (v.bind Json.bool?).getD false = true ↔ v = some (.bool true) := by
  rcases v with - | (_ | _ | _ | _ | _ | _) <;> simp [Json.bool?]

theorem NamedPart.not_isNamed {p : NamedPart}
    (h : (p.value.get? p.member).bind Json.text? = none) : ¬p.IsNamed := by
  rintro ⟨s, hs⟩
  cases h.symm.trans (Json.bind_text_eq_some.mpr hs)

/-- A condition says what its element of the object does. -/
structure Condition.Describes (c : Condition) (owner : EntityId) (v : Json) : Prop where
  owner : c.owner = owner
  type : ∃ s, v.get? "type" = some (.text s) ∧ c.type = Text.snake s
  texts : c.status = textOr v "status" ∧ c.reason = textOr v "reason" ∧
    c.message = textOr v "message"
  times : c.lastProbe = ClusterObject.millisAt? v ["lastProbeTime"] ∧
    c.lastTransition = ClusterObject.millisAt? v ["lastTransitionTime"]

namespace Container

/-- The position at which the first status of a name stands. -/
structure IsFirst (name : String) (statuses : List Json) (i : Nat) (s : Json) : Prop where
  found : statuses[i]? = some s
  named : s.get? "name" = some (.text name)
  first : ∀ j < i, ∀ t, statuses[j]? = some t → t.get? "name" ≠ some (.text name)

/-- The status that a name is joined with: the first one of that name, or none if there is none. -/
def Joined (name : String) (statuses : List Json) : Option Json → Prop
  | some s => ∃ i, IsFirst name statuses i s
  | none => ∀ s ∈ statuses, s.get? "name" ≠ some (.text name)

/-- A container says what its element of the object does and, of its state, what the status it is
joined with does. Without a status it is not ready and nothing is known of it. -/
structure Describes (c : Container) (pod : ObjectId) (spec : Json) (status : Option Json) :
    Prop where
  name : spec.get? "name" = some (.text c.name)
  id : c.id = .container pod.ns pod.name c.name ∧ c.podId = pod.entityId
  image : c.image = textOr spec "image"
  ready : c.ready = true ↔ ∃ s, status = some s ∧ s.get? "ready" = some (.bool true)
  restarts : c.restartCount = ((status.bind fun s => s.get? "restartCount").bind Json.int64?).getD 0
  state : c.state = stateOf status
  started : c.started = true ↔ c.state = "running" ∨ c.state = "terminated" ∨
    ∃ s, status = some s ∧ (s.at? ["lastState", "terminated"]).isSome = true

theorem stateOf_mem (status : Option Json) : stateOf status ∈ "unknown" :: states := by
  simp only [stateOf]
  generalize hfound : states.find? _ = found
  cases found with
  | none => exact List.mem_cons_self
  | some key => exact List.mem_cons_of_mem _ (List.mem_of_find?_eq_some hfound)

theorem statusOf_joined (name : String) (statuses : List Json) :
    Joined name statuses (statusOf name statuses) := by
  unfold statusOf
  generalize hfound : statuses.find? _ = found
  cases found with
  | none =>
    intro s hs
    simpa [Json.bind_text_eq_some] using List.find?_eq_none.mp hfound s hs
  | some s =>
    obtain ⟨hnamed, i, hi, hget, hfirst⟩ := List.find?_eq_some_iff_getElem.mp hfound
    refine ⟨i, List.getElem?_eq_some_iff.mpr ⟨hi, hget⟩,
      Json.bind_text_eq_some.mp (beq_iff_eq.mp hnamed), fun j hj t ht => ?_⟩
    obtain ⟨hlt, rfl⟩ := List.getElem?_eq_some_iff.mp ht
    simpa [Json.bind_text_eq_some] using hfirst j hj

end Container

section Elements
variable {owner : EntityId} {pod : ObjectId} {statuses : List Json} {v : Json} {e : InvalidObject}

theorem Condition.ofJson_error_iff : Condition.ofJson owner v = .error e ↔
    ¬(NamedPart.condition v).IsNamed ∧ e = (NamedPart.condition v).refusal := by
  unfold Condition.ofJson
  split
  · next hnone =>
    rw [Except.error.injEq, eq_comm]
    exact ⟨fun h => ⟨NamedPart.not_isNamed hnone, h⟩, fun h => h.2⟩
  · next s hs =>
    have hnamed : (NamedPart.condition v).IsNamed := ⟨s, Json.bind_text_eq_some.mp hs⟩
    simp [hnamed]

theorem Condition.describes_of_ok {c : Condition} (h : Condition.ofJson owner v = .ok c) :
    c.Describes owner v := by
  unfold Condition.ofJson at h
  split at h
  · cases h
  · next s hs =>
    cases h
    exact ⟨rfl, ⟨s, Json.bind_text_eq_some.mp hs, rfl⟩, ⟨rfl, rfl, rfl⟩, ⟨rfl, rfl⟩⟩

theorem Container.ofJson_error_iff : Container.ofJson pod statuses v = .error e ↔
    ¬(NamedPart.container v).IsNamed ∧ e = (NamedPart.container v).refusal := by
  unfold Container.ofJson
  split
  · next hnone =>
    rw [Except.error.injEq, eq_comm]
    exact ⟨fun h => ⟨NamedPart.not_isNamed hnone, h⟩, fun h => h.2⟩
  · next s hs =>
    have hnamed : (NamedPart.container v).IsNamed := ⟨s, Json.bind_text_eq_some.mp hs⟩
    simp [hnamed]

theorem Container.describes_of_ok {c : Container} (h : Container.ofJson pod statuses v = .ok c) :
    ∃ status, Joined c.name statuses status ∧ c.Describes pod v status := by
  unfold Container.ofJson at h
  split at h
  · cases h
  · next name hname =>
    cases h
    refine ⟨_, statusOf_joined name statuses, Json.bind_text_eq_some.mp hname, ⟨rfl, rfl⟩, rfl, ?_,
      rfl, rfl, ?_⟩
    · cases statusOf name statuses <;> simp [Json.bind_bool_getD]
    · have hstate := stateOf_mem (statusOf name statuses)
      generalize stateOf (statusOf name statuses) = state at hstate ⊢
      simp only [states, List.mem_cons, List.not_mem_nil, or_false] at hstate
      rcases hstate with rfl | rfl | rfl | rfl <;> cases statusOf name statuses <;> simp

end Elements

/-! ## Objects -/

/-- The labels of the object as they stand there, whether they have a text or not. -/
def ClusterObject.labelMembers (o : ClusterObject) : List (String × Json) :=
  ((o.value.at? ["metadata", "labels"]).bind Json.members?).getD []

namespace Kind

def conditions : Kind → Table
  | .pod => Schema.podCondition
  | .claim => Schema.claimCondition

/-- The containers that an object of a kind lists. Claims have none. -/
def specs (k : Kind) (o : ClusterObject) : List Json :=
  match k with
  | .pod => o.items ["spec", "containers"]
  | .claim => []

/-- The parts that an object of a kind has to name, all conditions before all containers. -/
def parts (k : Kind) (o : ClusterObject) : List NamedPart :=
  (o.items ["status", "conditions"]).map .condition ++ (k.specs o).map .container

end Kind

def Mapped.rowsIn (m : Mapped) (t : Table) : List Row :=
  (m.relations.filter fun r => r.table = t).flatMap fun r => r.rows

/-- An object is made of conditions, labels and containers, and these are the parts of the object,
one by one and in order. -/
structure Mapped.MadeOf (m : Mapped) (k : Kind) (o : ClusterObject) (conditions : List Condition)
    (labels : List Label) (containers : List Container) : Prop where
  conditionRows : m.rowsIn k.conditions = conditions.map Condition.row
  entryRows : m.rowsIn Schema.label = labels.map Label.row
  labelRows : m.rowsIn k.labels = labels.map (Label.ownedRow o.id.entityId)
  containerRows : m.rowsIn Schema.container = containers.map Container.row
  targets : m.targets = containers.map Container.target
  conditions : List.Forall₂ (fun v (c : Condition) => c.Describes o.id.entityId v)
    (o.items ["status", "conditions"]) conditions
  labels : List.Forall₂ (fun (member : String × Json) l =>
      ∃ value, member.2 = .text value ∧ l = Label.of (member.1, value))
    (o.labelMembers.filter fun member => member.2.text?.isSome) labels
  containers : List.Forall₂ (fun v (c : Container) => ∃ status,
      Container.Joined c.name (o.items ["status", "containerStatuses"]) status ∧
        c.Describes o.id v status)
    (k.specs o) containers

section Objects
variable {k : Kind} {o : ClusterObject} {m : Mapped} {e : InvalidObject}

theorem labelsOf_forall₂ (o : ClusterObject) :
    List.Forall₂ (fun (member : String × Json) l =>
        ∃ value, member.2 = .text value ∧ l = Label.of (member.1, value))
      (o.labelMembers.filter fun member => member.2.text?.isSome) (labelsOf o) := by
  have hlabels : labelsOf o =
      (o.labelMembers.filterMap fun m => m.2.text?.map fun v => (m.1, v)).map Label.of := rfl
  rw [hlabels]
  induction o.labelMembers with
  | nil => exact .nil
  | cons member members ih =>
    obtain ⟨name, value⟩ := member
    cases value with
    | text s => exact .cons ⟨s, rfl, rfl⟩ ih
    | _ => exact ih

/-- An object is refused while its conditions are read, or else while its containers are. -/
theorem Kind.map_error (k : Kind) (o : ClusterObject) (e : InvalidObject) :
    k.map o = .error e ↔
      (o.items ["status", "conditions"]).mapM (Condition.ofJson o.id.entityId) = .error e ∨
        (∃ cs, (o.items ["status", "conditions"]).mapM (Condition.ofJson o.id.entityId) = .ok cs) ∧
          (k.specs o).mapM (Container.ofJson o.id (o.items ["status", "containerStatuses"])) =
            .error e := by
  cases k with
  | pod =>
    simp only [Kind.map, Pod.ofObject, Kind.specs]
    cases (o.items ["status", "conditions"]).mapM (Condition.ofJson o.id.entityId) with
    | error e' => simp [bind, Except.bind, Except.map]
    | ok cs =>
      cases (o.items ["spec", "containers"]).mapM
          (Container.ofJson o.id (o.items ["status", "containerStatuses"])) <;>
        simp [bind, Except.bind, Except.map, pure, Except.pure]
  | claim =>
    simp only [Kind.map, VolumeClaim.ofObject, Kind.specs, List.mapM_nil]
    cases (o.items ["status", "conditions"]).mapM (Condition.ofJson o.id.entityId) <;>
      simp [bind, Except.bind, Except.map, pure, Except.pure]

/-- The first part that is not named refuses the object. -/
theorem Kind.map_error_iff : k.map o = .error e ↔ NamedPart.Refuses (k.parts o) e := by
  have hconditions (v : Json) (e : InvalidObject) :
      Condition.ofJson o.id.entityId v = .error e ↔
        ¬(NamedPart.condition v).IsNamed ∧ e = (NamedPart.condition v).refusal :=
    Condition.ofJson_error_iff
  have hcontainers (v : Json) (e : InvalidObject) :
      Container.ofJson o.id (o.items ["status", "containerStatuses"]) v = .error e ↔
        ¬(NamedPart.container v).IsNamed ∧ e = (NamedPart.container v).refusal :=
    Container.ofJson_error_iff
  rw [Kind.map_error, NamedPart.mapM_refused_iff hconditions,
    NamedPart.mapM_accepted_iff hconditions, NamedPart.mapM_refused_iff hcontainers, Kind.parts,
    NamedPart.refuses_append]

/-- Nothing of an object that can be mapped is dropped. -/
theorem Kind.map_madeOf (h : k.map o = .ok m) :
    ∃ conditions labels containers, m.MadeOf k o conditions labels containers := by
  cases k with
  | pod =>
    cases hp : Pod.ofObject o with
    | error e => simp [Kind.map, hp, Except.map] at h
    | ok p =>
      simp only [Kind.map, hp, Except.map, Except.ok.injEq] at h
      unfold Pod.ofObject at hp
      obtain ⟨conditions, hconditions, hp⟩ := of_bind_ok hp
      obtain ⟨containers, hcontainers, hp⟩ := of_bind_ok hp
      cases hp
      subst h
      exact ⟨conditions, labelsOf o, containers,
        { conditionRows := List.append_nil _
          entryRows := List.append_nil _
          labelRows := List.append_nil _
          containerRows := List.append_nil _
          targets := rfl
          conditions := (mapM_ok_iff.mp hconditions).imp fun v c => Condition.describes_of_ok
          labels := labelsOf_forall₂ o
          containers := (mapM_ok_iff.mp hcontainers).imp fun v c => Container.describes_of_ok }⟩
  | claim =>
    cases hc : VolumeClaim.ofObject o with
    | error e => simp [Kind.map, hc, Except.map] at h
    | ok c =>
      simp only [Kind.map, hc, Except.map, Except.ok.injEq] at h
      unfold VolumeClaim.ofObject at hc
      obtain ⟨conditions, hconditions, hc⟩ := of_bind_ok hc
      cases hc
      subst h
      exact ⟨conditions, labelsOf o, [],
        { conditionRows := List.append_nil _
          entryRows := List.append_nil _
          labelRows := List.append_nil _
          containerRows := rfl
          targets := rfl
          conditions := (mapM_ok_iff.mp hconditions).imp fun v c => Condition.describes_of_ok
          labels := labelsOf_forall₂ o
          containers := .nil }⟩

end Objects

/-- Mapping fails exactly on parts without a name, and drops nothing. An object is refused exactly if
one of its parts is not named, and for the first of them, conditions before containers. Otherwise it
has one condition for each that it lists, one container and one place to look at for each container,
one entry and one assignment for each label with a text, all in order, and each container is joined
with the first status of its name and no other. -/
theorem parts_mapped (k : Kind) (o : ClusterObject) :
    ((∃ e, k.map o = .error e) ↔ ∃ p ∈ k.parts o, ¬p.IsNamed) ∧
    (∀ e, k.map o = .error e ↔ NamedPart.Refuses (k.parts o) e) ∧
    ∀ m, k.map o = .ok m →
      ∃ conditions labels containers, m.MadeOf k o conditions labels containers := by
  refine ⟨?_, fun e => Kind.map_error_iff, fun m => Kind.map_madeOf⟩
  simp only [Kind.map_error_iff]
  exact NamedPart.exists_refuses

/-- A pod with two containers and three statuses, of which two have the name of the first container
and one that of none. -/
def twinPod : ClusterObject :=
  ⟨.object [("metadata", .object [("labels", .object [("app", .text "web"), ("rank", .null)]),
      ("name", .text "web-1"), ("namespace", .text "default")]),
    ("spec", .object [("containers", .array [.object [("name", .text "nginx")],
      .object [("name", .text "proxy")]])]),
    ("status", .object [("containerStatuses", .array [.object [("name", .text "old")],
      .object [("name", .text "nginx"), ("ready", .bool true)],
      .object [("name", .text "nginx"), ("ready", .bool false)]])])]⟩

/-- The same pod with conditions and containers that lack their names. -/
def namelessPod : ClusterObject :=
  ⟨.object [("metadata", .object [("name", .text "web-1")]),
    ("spec", .object [("containers", .array [.null, .object [("name", .text "nginx")]])]),
    ("status", .object [("conditions", .array [.object [("type", .text "Ready")],
      .object [("type", .null)], .object []])])]⟩

/-- It applies to a pod whose containers are joined with one of several statuses or with none, and to
one with several unnamed parts. -/
theorem parts_mapped_twins :
    (∃ m conditions labels containers, Kind.pod.map twinPod = .ok m ∧
      m.MadeOf .pod twinPod conditions labels containers ∧
      m.targets.map SnapshotTarget.name = ["nginx", "proxy"] ∧
      m.rowsIn Schema.podLabel = labels.map (Label.ownedRow m.id) ∧ labels.length = 1) ∧
    ∃ e, Kind.pod.map namelessPod = .error e ∧ NamedPart.Refuses (Kind.pod.parts namelessPod) e ∧
      e = ⟨.conditionWithoutType, .object [("type", .null)]⟩ := by
  constructor
  · obtain ⟨m, hmap, hnames⟩ : ∃ m, Kind.pod.map twinPod = .ok m ∧
        m.targets.map SnapshotTarget.name = ["nginx", "proxy"] := ⟨_, rfl, rfl⟩
    obtain ⟨conditions, labels, containers, hmade⟩ := (parts_mapped .pod twinPod).2.2 m hmap
    have hlabels : (twinPod.labelMembers.filter fun member => member.2.text?.isSome).length = 1 := by
      decide
    refine ⟨m, conditions, labels, containers, hmap, hmade, hnames, ?_, ?_⟩
    · rw [(Kind.map_describes hmap).id]
      exact hmade.labelRows
    · exact hmade.labels.length_eq.symm.trans hlabels
  · obtain ⟨e, hmap, hrefusal⟩ : ∃ e, Kind.pod.map namelessPod = .error e ∧
        e = ⟨.conditionWithoutType, .object [("type", .null)]⟩ := ⟨_, rfl, rfl⟩
    exact ⟨e, hmap, ((parts_mapped .pod namelessPod).2.1 e).mp hmap, hrefusal⟩

end KubeLedger
