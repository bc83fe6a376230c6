import KubeLedger.Digest.Sha1
import KubeLedger.Text.Case

/- Identities and names. Everything in the cluster has a natural key, a list of names, and its row is
   identified by the digest of that key. The same object has the same row after a restart, and
   dependent rows carry the identity without looking anything up. The names of a key are joined by
   slashes; where no name holds a slash, different keys have different messages.

   An object is named by its namespace, empty for objects without one, and its name there; its key in
   a feed is `namespace/name`, or just the name without a namespace. Sets of object names are grouped
   by namespace. Each namespace has one group, and no group is empty, so two sets are equal exactly if
   they have equal groups in some order. -/
namespace KubeLedger

open KubeLedger.Text

/-- A row identity: the twenty bytes of a digest. -/
structure EntityId where
  bytes : Bytes
  length_bytes : bytes.length = 20
deriving DecidableEq

namespace EntityId

/-- The key under the digest: the names joined by slashes. -/
def message (names : List String) : Bytes := encode (String.intercalate "/" names)

/-- The identity of the thing with the given names as its key. -/
def of (names : List String) : EntityId :=
  ⟨Digest.Sha1.digest (message names), Digest.Sha1.length_digest _⟩

/-- The identity of the cluster, of which there is one: the empty key. -/
def cluster : EntityId := of []

def node (name : String) : EntityId := of [name]

def object (ns name : String) : EntityId := of [ns, name]

def container (ns pod name : String) : EntityId := of [ns, pod, name]

/-- The identity of a label. Letter case makes no difference in its name or its value. -/
def label (name value : String) : EntityId := of [lowercase (name ++ ":" ++ value)]

/-- The identity that twenty bytes are. -/
def ofBytes? (bytes : Bytes) : Option EntityId :=
  if h : bytes.length = 20 then some ⟨bytes, h⟩ else none

def toHex (id : EntityId) : String := hex id.bytes

end EntityId

/-! ## Names of objects -/

structure ObjectId where
  ns : String
  name : String
deriving DecidableEq, Repr

namespace ObjectId

def ns? (id : ObjectId) : Option String := if id.ns = "" then none else some id.ns

/-- Reads a key. The first slash ends the namespace. -/
def ofKey (key : String) : ObjectId :=
  match key.toList.span (· ≠ '/') with
  | (ns, _ :: name) => ⟨String.ofList ns, String.ofList name⟩
  | (_, []) => ⟨"", key⟩

def key (id : ObjectId) : String :=
  if id.ns = "" then id.name else id.ns ++ "/" ++ id.name

/-- The name as it is shown, always with a slash. -/
def display (id : ObjectId) : String := id.ns ++ "/" ++ id.name

def entityId (id : ObjectId) : EntityId := .object id.ns id.name

end ObjectId

/-! ## Sets of names -/

/-- A set of object names: for each namespace the names in it. -/
structure IdSet where
  groups : List (String × List String) := []

namespace IdSet

def empty : IdSet := {}

def names (s : IdSet) (ns : String) : List String := (s.groups.lookup ns).getD []

def contains (s : IdSet) (id : ObjectId) : Bool := (s.names id.ns).contains id.name

def addTo (ns name : String) : List (String × List String) → List (String × List String)
  | [] => [(ns, [name])]
  | (n, names) :: rest =>
    if ns = n then (n, if names.contains name then names else names ++ [name]) :: rest
    else (n, names) :: addTo ns name rest

def insert (s : IdSet) (id : ObjectId) : IdSet := ⟨addTo id.ns id.name s.groups⟩

/-- Whether inserting an object adds it: its namespace has no group yet, or one without its name. -/
def adds (s : IdSet) (id : ObjectId) : Bool :=
  match s.groups.lookup id.ns with
  | some names => !names.contains id.name
  | none => true

/-- Drops a name from the group of its namespace, and the group with its last name. -/
def dropFrom (ns name : String) : List (String × List String) → List (String × List String)
  | [] => []
  | (n, names) :: rest =>
    if ns = n then
      let left := names.filter fun m => m ≠ name
      if left.isEmpty then rest else (n, left) :: rest
    else (n, names) :: dropFrom ns name rest

def erase (s : IdSet) (id : ObjectId) : IdSet := ⟨dropFrom id.ns id.name s.groups⟩

/-- Whether erasing an object removes it: its namespace has a group with its name. -/
def removes (s : IdSet) (id : ObjectId) : Bool :=
  match s.groups.lookup id.ns with
  | some names => names.contains id.name
  | none => false

def toList (s : IdSet) : List ObjectId :=
  s.groups.flatMap fun g => g.2.map fun name => ⟨g.1, name⟩

def size (s : IdSet) : Nat := s.toList.length

def isEmpty (s : IdSet) : Bool := s.size == 0

def difference (s other : IdSet) : List ObjectId := s.toList.filter fun id => !other.contains id

def ofList (ids : List ObjectId) : IdSet := ids.foldl insert empty

/-- Whether two lists without repetitions have the same members. -/
def sameNames (a b : List String) : Bool := a.length == b.length && a.all b.contains

def equals (a b : IdSet) : Bool :=
  a.groups.length == b.groups.length &&
    a.groups.all fun g =>
      match b.groups.lookup g.1 with
      | some names => sameNames g.2 names
      | none => false

end IdSet

end KubeLedger
