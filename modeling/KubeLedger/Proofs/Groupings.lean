import KubeLedger.Telemetry.Query

/- What a query groups by. An expression that begins with an aggregation by labels has one series for
   each combination of their values; any other aggregation has a single series without labels. The
   queries of the catalog group in a few forms only (`Query.forms`): queries about reservations by what
   they are given, whatever that is (`Query.reservation_grouping`), and the others as listed. -/
namespace KubeLedger

/-! ## Expressions -/

def aggregations : List String :=
  ["sum", "min", "max", "avg", "group", "stddev", "stdvar", "count", "count_values", "bottomk",
    "topk", "quantile"]

/-- An expression without the minus sign that may stand in front of it. -/
def unsigned : List Char → List Char
  | '-' :: cs => cs.dropWhile (· = ' ')
  | cs => cs

def listedNames (cs : List Char) : List String :=
  ((cs.filter (· ≠ ' ')).splitOn ',').map String.ofList

/-- The labels that an expression groups by, if it is an aggregation by labels. -/
def groupingOf (cs : List Char) : List String :=
  match (unsigned cs).span (· ≠ ' ') with
  | (function, ' ' :: 'b' :: 'y' :: ' ' :: '(' :: rest) =>
    if String.ofList function ∈ aggregations then listedNames (rest.takeWhile (· ≠ ')')) else []
  | _ => []

def Query.grouping (q : Query) : List String := groupingOf q.expression.toList

theorem groupingOf_sum {names rest : List Char} (h : ')' ∉ names) :
    groupingOf ("sum by (".toList ++ names ++ ')' :: rest) = listedNames names := by
  have hpass : ∀ c ∈ names, decide (c ≠ ')') = true := by
    intro c hc
    rw [decide_eq_true_iff]
    rintro rfl
    exact h hc
  have htake : (names ++ ')' :: rest).takeWhile (· ≠ ')') = names := by
    rw [List.takeWhile_append_of_pos hpass]
    simp
  have hsum : String.ofList ['s', 'u', 'm'] ∈ aggregations := by decide
  have hspan : (unsigned ("sum by (".toList ++ (names ++ ')' :: rest))).span (· ≠ ' ') =
      (['s', 'u', 'm'], [' ', 'b', 'y', ' ', '('] ++ (names ++ ')' :: rest)) := by
    rw [String.toList_ofList]
    rfl
  rw [List.append_assoc]
  simp only [groupingOf, hspan, List.cons_append, List.nil_append, if_pos hsum, htake]

example : groupingOf "sum by (instance, mountpoint) (up)".toList = ["instance", "mountpoint"] := by
  decide +kernel

theorem Query.reservation_grouping {groupBy : String} (h : ')' ∉ groupBy.toList) {q : Query}
    (hq : q ∈ allReservations groupBy) :
    q.grouping = listedNames groupBy.toList ∧ q.nameLabel = none := by
  have hsum : ∀ bound resource more : String,
      groupingOf (reserved groupBy bound resource ++ more).toList =
        listedNames groupBy.toList := by
    intro bound resource more
    have hclose : ") (kube_pod_container_resource_".toList =
        ')' :: " (kube_pod_container_resource_".toList := by
      rw [String.toList_ofList, String.toList_ofList]
    simp only [reserved, String.toList_append, hclose, List.append_assoc, List.cons_append]
    rw [← List.append_assoc]
    exact groupingOf_sum h
  obtain ⟨c, -, hq⟩ := List.mem_flatMap.mp hq
  obtain ⟨bound, -, hq⟩ := List.mem_flatMap.mp hq
  rcases List.mem_cons.mp hq with rfl | hq
  · have hplain := hsum bound c.1 ""
    rw [String.append_empty] at hplain
    exact ⟨hplain, rfl⟩
  · obtain rfl := List.mem_singleton.mp hq
    have hshare := hsum bound c.1 (" / " ++ c.2)
    rw [← String.append_assoc] at hshare
    exact ⟨hshare, rfl⟩

/-! ## Forms -/

/-- Queries about the cluster that have a series for each class or device, and no label that says
which one it is. -/
def Query.unnamed : List String :=
  ["qos_by_class", "network.received.bytes", "network.transmitted.bytes"]

/-- What the other queries of a level group by, each with the label that names its series. -/
def Query.forms : Granularity → List (List String × Option String)
  | .cluster => [([], none), (["device"], some "device")]
  | .node =>
    [(["node"], none), (["instance"], none), (["instance", "mountpoint"], some "mountpoint")]
  | .pod => [(["node", "namespace", "pod"], none), (["namespace", "pod"], none)]
  | .container => [(["node", "namespace", "pod", "container"], none)]

namespace Query

section Forms
variable {g : Granularity} {q : Query}

theorem reservation_form {groupBy : String} {names : List Char} (hgroup : groupBy.toList = names)
    (hclosed : ')' ∉ names) (hform : (listedNames names, none) ∈ forms g)
    (hq : q ∈ allReservations groupBy) : (q.grouping, q.nameLabel) ∈ forms g := by
  obtain ⟨hgrouping, hlabel⟩ := reservation_grouping (hgroup ▸ hclosed) hq
  rwa [hgrouping, hlabel, hgroup]

theorem listed_form {qs : List Query} (hq : q ∈ qs)
    (hforms : qs.map (fun q => (q.grouping, q.nameLabel)) ⊆ forms g) :
    (q.grouping, q.nameLabel) ∈ forms g := hforms (List.mem_map_of_mem hq)

theorem clusterCatalog_form (hq : q ∈ clusterCatalog) (hnamed : q.category ∉ unnamed) :
    (q.grouping, q.nameLabel) ∈ forms .cluster := by
  have hall : ∀ x ∈ clusterCatalog.map (fun q => (q.category, q.grouping, q.nameLabel)),
      x.1 ∉ unnamed → x.2 ∈ forms .cluster := by
    simp only [clusterCatalog, List.map_cons, List.map_nil, grouping, String.toList_append]
    repeat rw [String.toList_ofList]
    decide +kernel
  exact hall _ (List.mem_map_of_mem hq) hnamed

theorem nodeCatalog_form (hq : q ∈ nodeCatalog) : (q.grouping, q.nameLabel) ∈ forms .node := by
  have hreserved : ∀ cs ⊆ capacities, q ∈ cs.flatMap (fun c => reservations "node" c.1 c.2) →
      (q.grouping, q.nameLabel) ∈ forms .node := by
    intro cs hcs hq
    obtain ⟨c, hc, hq⟩ := List.mem_flatMap.mp hq
    have hall : q ∈ allReservations "node" := List.mem_flatMap.mpr ⟨c, hcs hc, hq⟩
    exact reservation_form String.toList_ofList (by decide) (by decide) hall
  simp only [nodeCatalog, List.mem_append] at hq
  rcases hq with (((hcpu | hq) | hmemory) | hq) | hrest
  · refine listed_form hcpu ?_
    simp only [List.map_cons, List.map_nil, grouping, String.toList_append]
    repeat rw [String.toList_ofList]
    decide +kernel
  · exact hreserved _ (List.take_subset 1 _) hq
  · refine listed_form hmemory ?_
    simp only [List.map_cons, List.map_nil, grouping, String.toList_append]
    repeat rw [String.toList_ofList]
    decide +kernel
  · exact hreserved _ (List.drop_subset 1 _) hq
  · refine listed_form hrest ?_
    simp only [List.map_cons, List.map_nil, grouping, String.toList_append]
    repeat rw [String.toList_ofList]
    decide +kernel

theorem podCatalog_form (hq : q ∈ podCatalog) : (q.grouping, q.nameLabel) ∈ forms .pod := by
  rcases List.mem_append.mp hq with husage | hq
  · refine listed_form husage ?_
    simp only [List.map_cons, List.map_nil, grouping, String.toList_append]
    repeat rw [String.toList_ofList]
    decide +kernel
  · exact reservation_form String.toList_ofList (by decide) (by decide) hq

theorem containerCatalog_form (hq : q ∈ containerCatalog) :
    (q.grouping, q.nameLabel) ∈ forms .container :=
  reservation_form String.toList_ofList (by decide) (by decide) hq

theorem catalog_form (hq : q ∈ catalog g) (hnamed : g = .cluster → q.category ∉ unnamed) :
    (q.grouping, q.nameLabel) ∈ forms g := by
  cases g with
  | cluster => exact clusterCatalog_form hq (hnamed rfl)
  | node => exact nodeCatalog_form hq
  | pod => exact podCatalog_form hq
  | container => exact containerCatalog_form hq

end Forms

end Query

end KubeLedger
