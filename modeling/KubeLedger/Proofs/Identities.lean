import KubeLedger.Proofs.MappedRows
import KubeLedger.Telemetry.Query

/- Identities as names of rows. Two engines write rows about the same things without asking each
   other: one maps objects, the other attributes series by their labels. They meet because an
   identity is a digest of names. Between names without a slash the message is one-to-one
   (`EntityId.message_inj`), and as soon as one side holds no slash it is enough that both keys are
   equally long (`message_inj_of_length`): the other side has no slashes to spare. What is left is
   that the digest keeps different messages apart, which is asked of the keys in play only
   (`Collisionless`). -/
namespace KubeLedger

open KubeLedger.Text

/-- Different messages among those of some keys have different digests. -/
def Collisionless (keys : List (List String)) : Prop :=
  ∀ a ∈ keys, ∀ b ∈ keys,
    Digest.Sha1.digest (EntityId.message a) = Digest.Sha1.digest (EntityId.message b) →
      EntityId.message a = EntityId.message b

theorem Collisionless.message_eq {keys : List (List String)} (h : Collisionless keys)
    {a b : List String} (ha : a ∈ keys) (hb : b ∈ keys) (he : EntityId.of a = .of b) :
    EntityId.message a = EntityId.message b :=
  h a ha b hb (congrArg EntityId.bytes he)

/-! ## Counting slashes -/

/-- The slashes of joined names are those between them and those in them. -/
theorem count_slash_intercalate {names : List String} (h : names ≠ []) :
    ("/".intercalate names).toList.count '/' + 1 =
      names.length + (names.flatMap String.toList).count '/' := by
  rw [String.toList_intercalate]
  induction names with
  | nil => exact absurd rfl h
  | cons x rest ih =>
    cases rest with
    | nil => simp [List.intercalate]; omega
    | cons y rest =>
      have hrest := ih (List.cons_ne_nil y rest)
      have hsplit : "/".toList.intercalate ((x :: y :: rest).map String.toList) =
          x.toList ++ '/' :: "/".toList.intercalate ((y :: rest).map String.toList) := by
        simp [List.intercalate]
      rw [hsplit, List.count_append, List.count_cons_self, List.flatMap_cons, List.count_append]
      simp only [List.length_cons] at hrest ⊢
      omega

/-- Names without a slash are names whose letters, all together, hold none. -/
theorem count_slash_eq_zero {names : List String} :
    (names.flatMap String.toList).count '/' = 0 ↔ ∀ s ∈ names, NoSlash s := by
  rw [List.count_eq_zero, List.mem_flatMap, not_exists]
  exact forall_congr' fun s => not_and

namespace EntityId

/-- Among keys of one length it is enough that one of them holds no slash. -/
theorem message_inj_of_length {a b : List String} (ha : ∀ s ∈ a, NoSlash s)
    (hlength : a.length = b.length) (h : message a = message b) : a = b := by
  by_cases ha₀ : a = []
  · subst ha₀
    exact (List.length_eq_zero_iff.mp hlength.symm).symm
  · have hb₀ : b ≠ [] := by
      rintro rfl
      exact ha₀ (List.length_eq_zero_iff.mp hlength)
    have hjoin : "/".intercalate a = "/".intercalate b := encode_inj h
    have hnone := count_slash_eq_zero.mpr ha
    -- both texts have as many slashes, and those between the names are as many already
    have hspare : (b.flatMap String.toList).count '/' = 0 := by
      have hcount := count_slash_intercalate ha₀
      rw [hjoin, count_slash_intercalate hb₀] at hcount
      omega
    exact message_inj ha (count_slash_eq_zero.mp hspare) ha₀ hb₀ h

/-- A name that is not empty has a message of its own. -/
theorem message_one_ne {name : String} (h : name ≠ "") : message [name] ≠ message [] := by
  intro he
  have hjoin : "/".intercalate [name] = "/".intercalate [] := encode_inj he
  have hname : "/".intercalate [name] = name := by simp
  exact h (hname ▸ hjoin)

end EntityId

/-! ## Natural keys -/

/-- What an identity can be of, beside the cluster and labels: a node, an object in a namespace, or
a container of a pod. -/
inductive NaturalKey where
  | node (name : String)
  | object (ns name : String)
  | container (ns pod name : String)
deriving DecidableEq

namespace NaturalKey

/-- The names of a key. Keys of different sorts have differently many. -/
def names : NaturalKey → List String
  | .node name => [name]
  | .object ns name => [ns, name]
  | .container ns pod name => [ns, pod, name]

def id : NaturalKey → EntityId
  | .node name => .node name
  | .object ns name => .object ns name
  | .container ns pod name => .container ns pod name

theorem id_eq (k : NaturalKey) : k.id = .of k.names := by cases k <;> rfl

theorem names_inj {a b : NaturalKey} (h : a.names = b.names) : a = b := by
  cases a <;> cases b <;> simp_all [names]

theorem names_ne_nil (k : NaturalKey) : k.names ≠ [] := by cases k <;> exact List.cons_ne_nil _ _

theorem id_inj {keys : List (List String)} (hkeys : Collisionless keys) {a b : NaturalKey}
    (ha : ∀ s ∈ a.names, NoSlash s) (hb : ∀ s ∈ b.names, NoSlash s) (hina : a.names ∈ keys)
    (hinb : b.names ∈ keys) (h : a.id = b.id) : a = b := by
  rw [id_eq, id_eq] at h
  exact names_inj (EntityId.message_inj ha hb a.names_ne_nil b.names_ne_nil
    (hkeys.message_eq hina hinb h))

end NaturalKey

/-! ## Series and rows -/

/-- A label of a series names something: its value is not empty and holds no slash. -/
structure Labels.Name (labels : Labels) (label value : String) : Prop where
  lookup : labels.lookup label = some value
  nonempty : value ≠ ""
  plain : NoSlash value

theorem Labels.Name.present {labels : Labels} {label value : String} (h : labels.Name label value) :
    Granularity.present? labels label = some value := by
  simp [Granularity.present?, h.lookup, h.nonempty]

theorem Kind.container_rows {o : ClusterObject} {m : Mapped} (h : Kind.pod.map o = .ok m)
    {r : Relation} (hr : r ∈ m.relations) (htable : r.table = Schema.container) {row : Row}
    (hrow : row ∈ r.rows) : ∃ c : String, [o.id.ns, o.id.name, c] ∈ m.keys ∧
      Schema.container.cell row "id" = .id (.container o.id.ns o.id.name c) ∧
      Schema.container.cell row "name" = .text c := by
  obtain ⟨p, hp, rfl⟩ : ∃ p, Pod.ofObject o = .ok p ∧ p.mapped = m := by
    cases hp : Pod.ofObject o with
    | error e => simp [Kind.map, hp, Except.map] at h
    | ok p => exact ⟨p, rfl, by simpa [Kind.map, hp, Except.map] using h⟩
  obtain ⟨hid, -, hconts⟩ := Pod.parts_of_ok hp
  have hat : Schema.container.indexOf? "id" = some 0 ∧ Schema.container.indexOf? "name" = some 2 :=
    by decide
  fin_cases hr
  · exact absurd htable (show ¬Schema.podCondition = Schema.container by decide)
  · exact absurd htable (show ¬Schema.label = Schema.container by decide)
  · exact absurd htable (show ¬Schema.podLabel = Schema.container by decide)
  · obtain ⟨c, hc, rfl⟩ := List.mem_map.mp hrow
    refine ⟨c.name, ?_, ?_, ?_⟩
    · refine List.mem_cons_of_mem _ (List.mem_map.mpr ⟨c.target, List.mem_map_of_mem hc, ?_⟩)
      exact congrArg (fun x : ObjectId => [x.ns, x.name, c.name]) hid
    · rw [Table.cell_of_indexOf hat.1]
      exact congrArg Cell.id (hconts c hc).1
    · exact Table.cell_of_indexOf hat.2 c.row

section Attribution
variable {keys : List (List String)} {labels : Labels} {o : ClusterObject} {m : Mapped}
  {ns pod name : String}

/-- A series of a pod is attributed to the row of an object exactly if it names the object. -/
theorem owner_pod_iff (hkeys : Collisionless keys) (hns : labels.Name "namespace" ns)
    (hpod : labels.Name "pod" pod) (hseries : [ns, pod] ∈ keys)
    (hobject : [o.id.ns, o.id.name] ∈ keys) (hmap : Kind.pod.map o = .ok m) :
    ∃ e, Granularity.pod.owner? labels = some e ∧
      (Schema.pod.cell m.row "id" = .id e ↔ ns = o.id.ns ∧ pod = o.id.name) := by
  refine ⟨.object ns pod, by simp [Granularity.owner?, hpod.present, hns.present], ?_⟩
  have hrow : Schema.pod.cell m.row "id" = .id o.id.entityId :=
    (Kind.map_describes hmap).row_names.id
  rw [hrow, Cell.id_inj]
  constructor
  · intro he
    have hplain : ∀ s ∈ [ns, pod], NoSlash s := by simp [hns.plain, hpod.plain]
    have := EntityId.message_inj_of_length (b := [o.id.ns, o.id.name]) hplain rfl
      (hkeys.message_eq hseries hobject he.symm)
    simpa using this
  · rintro ⟨rfl, rfl⟩
    rfl

/-- A series of a container is attributed to a container row of an object exactly if it names the
object and the container. -/
theorem owner_container_iff (hkeys : Collisionless keys) (hns : labels.Name "namespace" ns)
    (hpod : labels.Name "pod" pod) (hname : labels.Name "container" name)
    (hseries : [ns, pod, name] ∈ keys) (hobject : m.keys ⊆ keys) (hmap : Kind.pod.map o = .ok m) :
    ∃ e, Granularity.container.owner? labels = some e ∧
      ∀ r ∈ m.relations, r.table = Schema.container → ∀ row ∈ r.rows,
        (Schema.container.cell row "id" = .id e ↔ ns = o.id.ns ∧ pod = o.id.name ∧
          Schema.container.cell row "name" = .text name) := by
  refine ⟨.container ns pod name,
    by simp [Granularity.owner?, hpod.present, hns.present, hname.present],
    fun r hr htable row hrow => ?_⟩
  obtain ⟨c, hin, hid, hc⟩ := Kind.container_rows hmap hr htable hrow
  rw [hid, hc, Cell.id_inj, Cell.text.injEq]
  constructor
  · intro he
    have hplain : ∀ s ∈ [ns, pod, name], NoSlash s := by
      simp [hns.plain, hpod.plain, hname.plain]
    have := EntityId.message_inj_of_length (b := [o.id.ns, o.id.name, c]) hplain rfl
      (hkeys.message_eq hseries (hobject hin) he.symm)
    simp_all
  · rintro ⟨rfl, rfl, rfl⟩
    rfl

theorem owner_node_ne_cluster (hkeys : Collisionless keys) (hcluster : [] ∈ keys)
    (hnode : ∀ label ∈ ["node", "instance"], ∀ name, labels.lookup label = some name →
      [name] ∈ keys) : Granularity.node.owner? labels ≠ some .cluster := by
  intro howner
  obtain ⟨name, hname, he⟩ : ∃ name, (Granularity.present? labels "node").or
      (Granularity.present? labels "instance") = some name ∧ EntityId.node name = .cluster :=
    Option.map_eq_some_iff.mp howner
  have hlabel : ∃ label ∈ ["node", "instance"], Granularity.present? labels label = some name := by
    rcases Option.or_eq_some_iff.mp hname with h | ⟨-, h⟩
    · exact ⟨_, List.mem_cons_self, h⟩
    · exact ⟨_, List.mem_cons_of_mem _ List.mem_cons_self, h⟩
  obtain ⟨label, hlabel, hpresent⟩ := hlabel
  obtain ⟨hlookup, hnonempty⟩ := Option.filter_eq_some_iff.mp hpresent
  exact EntityId.message_one_ne (by simpa using hnonempty)
    (hkeys.message_eq (hnode label hlabel name hlookup) hcluster he)

end Attribution

/-- Derived identities are unambiguous. The message of a key of slash-free names determines the key.
So where digests do not collide, nodes, objects and containers share an identity only if they are of
the same sort and have the same names; a series that names a pod or a container is attributed to a
mapped row exactly if the names agree; and no series of a node is attributed to the cluster. -/
theorem identities_unambiguous {keys : List (List String)} (hkeys : Collisionless keys) :
    (∀ xs ys : List String, xs ≠ [] → ys ≠ [] → (∀ s ∈ xs, NoSlash s) → (∀ s ∈ ys, NoSlash s) →
      (EntityId.message xs = EntityId.message ys ↔ xs = ys)) ∧
    (∀ a b : NaturalKey, a.names ∈ keys → b.names ∈ keys → (∀ s ∈ a.names, NoSlash s) →
      (∀ s ∈ b.names, NoSlash s) → (a.id = b.id ↔ a = b)) ∧
    (∀ (labels : Labels) (ns pod : String), labels.Name "namespace" ns → labels.Name "pod" pod →
      ∀ o m, Kind.pod.map o = .ok m → m.keys ⊆ keys →
        ([ns, pod] ∈ keys → ∃ e, Granularity.pod.owner? labels = some e ∧
          (Schema.pod.cell m.row "id" = .id e ↔ ns = o.id.ns ∧ pod = o.id.name)) ∧
        ∀ name, labels.Name "container" name → [ns, pod, name] ∈ keys →
          ∃ e, Granularity.container.owner? labels = some e ∧
            ∀ r ∈ m.relations, r.table = Schema.container → ∀ row ∈ r.rows,
              (Schema.container.cell row "id" = .id e ↔ ns = o.id.ns ∧ pod = o.id.name ∧
                Schema.container.cell row "name" = .text name)) ∧
    ∀ labels : Labels, [] ∈ keys →
      (∀ label ∈ ["node", "instance"], ∀ name, labels.lookup label = some name → [name] ∈ keys) →
        Granularity.node.owner? labels ≠ some .cluster := by
  refine ⟨fun xs ys hxs hys hx hy => ⟨EntityId.message_inj hx hy hxs hys, congrArg _⟩,
    fun a b hina hinb ha hb => ⟨NaturalKey.id_inj hkeys ha hb hina hinb, congrArg _⟩,
    fun labels ns pod hns hpod o m hmap hin => ⟨fun hseries => ?_, fun name hname hseries => ?_⟩,
    fun labels hcluster hnode => owner_node_ne_cluster hkeys hcluster hnode⟩
  · have hobject : [o.id.ns, o.id.name] ∈ m.keys := by
      rw [← (Kind.map_describes hmap).objectId]
      exact List.mem_cons_self
    exact owner_pod_iff hkeys hns hpod hseries (hin hobject) hmap
  · exact owner_container_iff hkeys hns hpod hname hseries hin hmap

/-- It applies to a series of a container, the pod of that name, and the node below them. -/
theorem identities_unambiguous_nginx :
    let keys := [[], ["worker-1"], ["default", "web-1"], ["default", "web-1", "nginx"]]
    let labels : Labels := [("namespace", "default"), ("pod", "web-1"), ("container", "nginx")]
    Collisionless keys ∧ EntityId.node "worker-1" ≠ .object "default" "web-1" ∧
      Granularity.node.owner? [("instance", "worker-1")] ≠ some .cluster ∧
      ∃ m, Kind.pod.map (barePod "default" "web-1" ["nginx"]) = .ok m ∧
        (∃ e, Granularity.pod.owner? labels = some e ∧ Schema.pod.cell m.row "id" = .id e) ∧
        ∃ e, Granularity.container.owner? labels = some e ∧
          ∀ r ∈ m.relations, r.table = Schema.container → ∀ row ∈ r.rows,
            Schema.container.cell row "name" = .text "nginx" →
              Schema.container.cell row "id" = .id e := by
  intro keys labels
  have hkeys : Collisionless keys := by unfold Collisionless; decide +kernel
  obtain ⟨-, hsorts, hseries, hnode⟩ := identities_unambiguous hkeys
  obtain ⟨m, hmap, hm, -⟩ := barePod_map "default" "web-1" ["nginx"]
  have hin : m.keys ⊆ keys := by rw [hm]; decide
  obtain ⟨hpod, hcontainer⟩ := hseries labels "default" "web-1" ⟨rfl, by decide, by decide⟩
    ⟨rfl, by decide, by decide⟩ _ m hmap hin
  refine ⟨hkeys, fun he => ?_, hnode [("instance", "worker-1")] (by decide) ?_, m, hmap, ?_, ?_⟩
  · have hsame := (hsorts (.node "worker-1") (.object "default" "web-1") (by decide) (by decide)
      (by decide) (by decide)).mp he
    cases hsame
  · intro label hlabel name hname
    fin_cases hlabel
    · cases hname
    · cases hname
      decide
  · obtain ⟨e, howner, hrow⟩ := hpod (by decide)
    exact ⟨e, howner, hrow.mpr ⟨rfl, rfl⟩⟩
  · obtain ⟨e, howner, hrows⟩ := hcontainer "nginx" ⟨rfl, by decide, by decide⟩ (by decide)
    exact ⟨e, howner, fun r hr htable row hrow hname =>
      (hrows r hr htable row hrow).mpr ⟨rfl, rfl, hname⟩⟩

end KubeLedger
