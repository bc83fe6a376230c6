import Mathlib.Data.List.Basic
import KubeLedger.Proofs.Contents
import KubeLedger.Proofs.Names

/- Servers as logs of changes. A log determines what objects there are at each of its versions
   (`Server.objects`), and the first change after a version is all that the objects at its own
   version differ in (`IsNext.objects_self`, `IsNext.objects_other`). -/
namespace KubeLedger

/-! ## Keys -/

theorem ObjectId.span_reverse_key {id : ObjectId} (h : NoSlash id.name) :
    id.key.toList.reverse.span (· ≠ '/') =
      (id.name.toList.reverse, if id.ns = "" then [] else '/' :: id.ns.toList.reverse) := by
  have hname : '/' ∉ id.name.toList.reverse := fun hmem => h (List.mem_reverse.mp hmem)
  unfold key
  split
  · have hspan := span_slash hname (Or.inl rfl)
    rwa [List.append_nil] at hspan
  · have hkey : (id.ns ++ "/" ++ id.name).toList.reverse =
        id.name.toList.reverse ++ '/' :: id.ns.toList.reverse := by
      rw [String.toList_append, String.toList_append]
      simp
    rw [hkey]
    exact span_slash hname (Or.inr rfl)

/-- A key ends with the name, so it is enough that names hold no slash. -/
theorem ObjectId.key_inj_of_names {a b : ObjectId} (ha : NoSlash a.name) (hb : NoSlash b.name)
    (h : a.key = b.key) : a = b := by
  have hpair := span_reverse_key ha
  rw [h, span_reverse_key hb] at hpair
  obtain ⟨hname, hns⟩ := Prod.mk.inj hpair
  have hname : a.name = b.name := by
    rw [← String.toList_inj, ← List.reverse_inj]
    exact hname.symm
  have hns : a.ns = b.ns := by
    by_cases ha₀ : a.ns = "" <;> by_cases hb₀ : b.ns = "" <;>
      simp only [if_pos, if_neg, ha₀, hb₀, not_false_eq_true, reduceCtorEq] at hns ⊢
    rw [← String.toList_inj, ← List.reverse_inj]
    exact (List.cons.inj hns).2.symm
  cases a
  cases b
  simp_all

/-! ## Logs -/

/-- A change of an object: what the object became, or what it was when it was removed. -/
structure Change where
  version : Nat
  object : ClusterObject
  isRemoval : Bool

namespace Change

def left? (c : Change) : Option ClusterObject := if c.isRemoval then none else some c.object

/-- What a feed says of a change. -/
def notification (c : Change) : Notification :=
  if c.isRemoval then .deleted c.object.id else .seen c.object

def IsTold (c : Change) : WatchEvent → Prop
  | .added value => c.isRemoval = false ∧ value = c.object.value
  | .modified value => c.isRemoval = false ∧ value = c.object.value
  | .deleted value => c.isRemoval = true ∧ value = c.object.value
  | .error _ => False

end Change

/-- A server: the changes of its objects with their versions, the oldest first, and how it writes
versions. An object carries the version of its change. -/
structure Server where
  text : Nat → String
  changes : List Change
  text_inj : Function.Injective text
  sorted : changes.Pairwise fun a b => a.version < b.version
  usable : ∀ c ∈ changes, ClusterObject.ofJson c.object.value = .ok c.object
  stamped : ∀ c ∈ changes, c.object.resourceVersion = text c.version
  names : ∀ c ∈ changes, NoSlash c.object.name

namespace Server

/-- Whether an object is in a namespace, or any object if none is given. -/
def covers (ns : Option String) (id : ObjectId) : Bool := ns.all (· == id.ns)

/-- The last change of an object up to a version. -/
def last? (s : Server) (v : Nat) (id : ObjectId) : Option Change :=
  (s.changes.filter fun c => c.version ≤ v ∧ c.object.id = id).getLast?

/-- The objects of a namespace at a version. -/
def objects (s : Server) (ns : Option String) (v : Nat) (id : ObjectId) : Option ClusterObject :=
  if covers ns id then (s.last? v id).bind Change.left? else none

/-- The first change in a namespace after a version. -/
structure IsNext (s : Server) (ns : Option String) (u : Nat) (c : Change) : Prop where
  mem : c ∈ s.changes
  covered : covers ns c.object.id = true
  after : u < c.version
  first : ∀ c' ∈ s.changes, covers ns c'.object.id = true → u < c'.version → c.version ≤ c'.version

variable {s : Server} {ns : Option String} {u v : Nat} {c c' : Change} {id : ObjectId}
  {o : ClusterObject}

theorem objects_mem (h : s.objects ns v id = some o) :
    ∃ c ∈ s.changes, c.object = o ∧ o.id = id := by
  unfold objects at h
  split at h
  · obtain ⟨c, hlast, hleft⟩ := Option.bind_eq_some_iff.mp h
    obtain ⟨hmem, hc⟩ := List.mem_filter.mp (List.mem_of_getLast? hlast)
    have hid : c.object.id = id := (of_decide_eq_true hc).2
    unfold Change.left? at hleft
    split at hleft
    · cases hleft
    · obtain rfl := Option.some.inj hleft
      exact ⟨c, hmem, rfl, hid⟩
  · cases h

theorem eq_of_version (hc : c ∈ s.changes) (hc' : c' ∈ s.changes) (h : c.version = c'.version) :
    c = c' := by
  have hnodup : (s.changes.map Change.version).Nodup :=
    (List.pairwise_map.mpr s.sorted).imp Nat.ne_of_lt
  exact List.inj_on_of_nodup_map hnodup hc hc' h

theorem last?_eq (hc : c ∈ s.changes) : s.last? c.version c.object.id = some c := by
  obtain ⟨older, newer, hsplit⟩ := List.append_of_mem hc
  have hsorted := s.sorted
  rw [hsplit, List.pairwise_append, List.pairwise_cons] at hsorted
  -- what comes after the change in the log is newer, so nothing of it is left
  have hnewer :
      newer.filter (fun c' => c'.version ≤ c.version ∧ c'.object.id = c.object.id) = [] := by
    refine List.filter_eq_nil_iff.mpr fun c' hc' => ?_
    have hlt : c.version < c'.version := hsorted.2.1.1 c' hc'
    simp only [decide_eq_true_eq]
    omega
  unfold last?
  rw [hsplit, List.filter_append, List.filter_cons_of_pos (by simp), hnewer]
  exact List.getLast?_concat

namespace IsNext

theorem objects_self (h : s.IsNext ns u c) : s.objects ns c.version c.object.id = c.left? := by
  unfold objects
  rw [if_pos h.covered, last?_eq h.mem]
  rfl

theorem objects_other (h : s.IsNext ns u c) (hid : id ≠ c.object.id) :
    s.objects ns c.version id = s.objects ns u id := by
  unfold objects
  split
  · rename_i hcovered
    -- a change of the object that is not older than the version would be the first itself
    have hsame : s.changes.filter (fun c' => c'.version ≤ c.version ∧ c'.object.id = id) =
        s.changes.filter (fun c' => c'.version ≤ u ∧ c'.object.id = id) := by
      refine List.filter_congr fun c' hc' => ?_
      refine decide_eq_decide.mpr ⟨fun ⟨hle, heq⟩ => ⟨?_, heq⟩, fun ⟨hle, heq⟩ => ⟨?_, heq⟩⟩
      · by_contra hafter
        have hge := h.first c' hc' (heq ▸ hcovered) (by omega)
        obtain rfl := eq_of_version hc' h.mem (by omega)
        exact hid heq.symm
      · have := h.after
        omega
    unfold last?
    rw [hsame]
  · rfl

end IsNext

end Server
end KubeLedger
