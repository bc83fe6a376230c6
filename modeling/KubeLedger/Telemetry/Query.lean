import KubeLedger.Table

/- Queries for telemetry, and the levels that it is attributed to. A series belongs to the thing that
   its labels name; where the label that has to name it is missing or empty, it belongs to nothing. A
   query is an expression of the metrics server; its samples are stored under a category and, where one
   thing has several series, under the value of a label that tells them apart. The built-in catalog has
   a list of queries for each level. -/
namespace KubeLedger

/-! ## Levels -/

/-- The labels of a series, each name once. -/
abbrev Labels := List (String × String)

/-- A level of attribution. -/
inductive Granularity where
  | cluster
  | node
  | pod
  | container
deriving DecidableEq, Repr

namespace Granularity

def all : List Granularity := [.cluster, .node, .pod, .container]

def table : Granularity → Table
  | .cluster => Schema.clusterMetric
  | .node => Schema.nodeMetric
  | .pod => Schema.podMetric
  | .container => Schema.containerMetric

/-- The value of a label; an empty one counts as missing. -/
def present? (labels : Labels) (name : String) : Option String :=
  (labels.lookup name).filter fun v => v ≠ ""

/-- The identity of the thing that a series belongs to. A node is named by `node` or else by
`instance`; a missing namespace, or pod of a container, is left empty. -/
def owner? (g : Granularity) (labels : Labels) : Option EntityId :=
  match g with
  | .cluster => some .cluster
  | .node => ((present? labels "node").or (present? labels "instance")).map EntityId.node
  | .pod =>
    (present? labels "pod").map fun pod =>
      EntityId.object ((present? labels "namespace").getD "") pod
  | .container =>
    (present? labels "container").map fun container =>
      EntityId.container ((present? labels "namespace").getD "")
        ((present? labels "pod").getD "") container

end Granularity

/-! ## Queries -/

/-- A query and how its samples are stored. -/
structure Query where
  category : String
  expression : String
  nameLabel : Option String := none
deriving DecidableEq, Repr

namespace Query

/-- The name that a sample with these labels is stored under, empty if no label gives one. -/
def seriesName (q : Query) (labels : Labels) : String :=
  (q.nameLabel.bind fun l => labels.lookup l).getD ""

/-- The resources that containers request and are limited in, with the capacity of a node. -/
def capacities : List (String × String) :=
  [("cpu", "on(node) group_left() (sum by (node) (machine_cpu_cores))"),
    ("memory", "on(node) group_left() (sum by (node) (machine_memory_bytes))")]

/-- The sum of what containers request of a resource, or are limited to, per group. -/
def reserved (groupBy bound resource : String) : String :=
  "sum by (" ++ groupBy ++ ") (kube_pod_container_resource_" ++ bound ++ "s\x7bresource=\"" ++
    resource ++ "\"\x7d)"

/-- Requests and limits of one resource per group, in units and relative to the node. -/
def reservations (groupBy : String) (resource capacity : String) : List Query :=
  ["request", "limit"].flatMap fun bound =>
    let sum := reserved groupBy bound resource
    [⟨resource ++ "." ++ bound, sum, none⟩,
      ⟨resource ++ "." ++ bound ++ ".percentage", sum ++ " / " ++ capacity, none⟩]

/-- Requests and limits of all resources per group. -/
def allReservations (groupBy : String) : List Query :=
  capacities.flatMap fun c => reservations groupBy c.1 c.2

def clusterCatalog : List Query :=
  [⟨"node.count", "count(group by (node) (kube_node_info))", none⟩,
    ⟨"namespace.count", "count(kube_namespace_created)", none⟩,
    ⟨"pod.running", "sum(kube_pod_status_phase\x7bphase=\"Running\"\x7d)", none⟩,
    ⟨"pod.pending", "sum(kube_pod_status_phase\x7bphase=\"Pending\"\x7d)", none⟩,
    ⟨"pod.failed", "sum(kube_pod_status_phase\x7bphase=\"Failed\"\x7d)", none⟩,
    ⟨"pod.succeeded", "sum(kube_pod_status_phase\x7bphase=\"Succeeded\"\x7d)", none⟩,
    ⟨"cpu.usage", "avg(sum by (instance, cpu) (rate(node_cpu_seconds_total\x7b" ++
      "mode!~\"idle|iowait|steal\"\x7d[1m])))", none⟩,
    ⟨"memory.usage", "sum(node_memory_MemTotal_bytes - node_memory_MemAvailable_bytes) / " ++
      "sum(node_memory_MemTotal_bytes)", none⟩,
    ⟨"qos_by_class", "sum by (qos_class) (kube_pod_status_qos_class)", none⟩,
    ⟨"network.received.bytes", "sum by (device) (rate(node_network_receive_bytes_total\x7b" ++
      "device!~\"(veth|azv|lxc).*\"\x7d[2m]))", none⟩,
    ⟨"network.transmitted.bytes", "- sum by (device) (rate(node_network_transmit_bytes_total\x7b" ++
      "device!~\"(veth|azv|lxc).*\"\x7d[2m]))", none⟩,
    ⟨"network.received.bytes.bydevice", "sum by (device) (rate(node_network_receive_bytes_total" ++
      "\x7bdevice!~\"(veth|azv|lxc).*\"\x7d[2m]))", some "device"⟩]

def nodeCatalog : List Query :=
  [⟨"cpu.usage", "avg by (instance) (sum by (instance, cpu) (rate(node_cpu_seconds_total\x7b" ++
      "mode!~\"idle|iowait|steal\"\x7d[1m])))", none⟩] ++
    (capacities.take 1).flatMap (fun c => reservations "node" c.1 c.2) ++
    [⟨"memory.usage", "sum by (instance) (node_memory_MemTotal_bytes - " ++
      "node_memory_MemAvailable_bytes) / sum by (instance) (node_memory_MemTotal_bytes)", none⟩] ++
    (capacities.drop 1).flatMap (fun c => reservations "node" c.1 c.2) ++
    [⟨"network.received.bytes",
        "sum by (instance) (rate(node_network_receive_bytes_total[2m]))", none⟩,
      ⟨"network.transmitted.bytes",
        "- sum by (instance) (rate(node_network_transmit_bytes_total[2m]))", none⟩,
      ⟨"filesystem.usage", "sum by (instance, mountpoint) (1 - (node_filesystem_avail_bytes / " ++
        "node_filesystem_size_bytes))", some "mountpoint"⟩]

def podCatalog : List Query :=
  [⟨"cpu.usage",
      "sum by (node, namespace, pod) (rate(container_cpu_usage_seconds_total[1m]))", none⟩,
    ⟨"memory.usage", "sum by (node, namespace, pod) (container_memory_usage_bytes) / on (node) " ++
      "group_left(instance) label_replace(node_memory_MemTotal_bytes, \"node\", \"$1\", " ++
      "\"instance\", \"(.*)\")", none⟩,
    ⟨"cpu.usage.cores",
      "sum by (namespace, pod) (rate(container_cpu_usage_seconds_total[1m]))", none⟩,
    ⟨"memory.usage.bytes", "sum by (namespace, pod) (container_memory_usage_bytes)", none⟩] ++
    allReservations "node, namespace, pod"

def containerCatalog : List Query := allReservations "node, namespace, pod, container"

def catalog : Granularity → List Query
  | .cluster => clusterCatalog
  | .node => nodeCatalog
  | .pod => podCatalog
  | .container => containerCatalog

end Query

end KubeLedger
