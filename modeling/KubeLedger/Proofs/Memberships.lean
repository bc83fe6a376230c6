import Mathlib.Data.Finset.Card
import Mathlib.Data.List.Perm.Subperm
import KubeLedger.Proofs.IdSets

/- Sets of object names as finite sets. What is done to a set of names is an insertion, an erasure,
   a clearing, or making it anew of some objects; each does to the groups what is meant for their
   members (`Represents.on`), and so does every history (`Represents.afterAll`).

   That equal members make equal groups takes more than the right members: a group that has lost its
   last name must be gone, and no name may be there twice. `Represents` says both, and with it the
   groups are as good as the set itself: they are counted, listed and compared as the set is. -/
namespace KubeLedger.IdSet

/-! ## Representation -/

/-- The groups make up a finite set: each namespace has one group, with each name once and at least
one name, and the members are those of the set. -/
structure Represents (s : IdSet) (members : Finset ObjectId) : Prop where
  isSet : s.IsSet
  inhabited : [] ∉ s.groups.map Prod.snd
  contains_iff : ∀ id, s.contains id = true ↔ id ∈ members

theorem adds_eq (s : IdSet) (id : ObjectId) : s.adds id = !s.contains id := by
  unfold adds contains names
  cases s.groups.lookup id.ns <;> rfl

theorem removes_eq (s : IdSet) (id : ObjectId) : s.removes id = s.contains id := by
  unfold removes contains names
  cases s.groups.lookup id.ns <;> rfl

theorem inhabited_addTo {gs : List (String × List String)} (h : [] ∉ gs.map Prod.snd)
    (ns name : String) : [] ∉ (addTo ns name gs).map Prod.snd := by
  induction gs with
  | nil => simp [addTo]
  | cons g rest ih =>
    obtain ⟨hg, hrest⟩ := not_or.mp (mt List.mem_cons.mpr h)
    unfold addTo
    split
    · rw [List.map_cons, List.mem_cons, not_or]
      refine ⟨?_, hrest⟩
      dsimp only
      split
      · exact hg
      · simp
    · rw [List.map_cons, List.mem_cons, not_or]
      exact ⟨hg, ih hrest⟩

theorem inhabited_dropFrom {gs : List (String × List String)} (h : [] ∉ gs.map Prod.snd)
    (ns name : String) : [] ∉ (dropFrom ns name gs).map Prod.snd := by
  induction gs with
  | nil => exact h
  | cons g rest ih =>
    obtain ⟨hg, hrest⟩ := not_or.mp (mt List.mem_cons.mpr h)
    unfold dropFrom
    split
    · -- the group goes with its last name
      dsimp only
      split
      · exact hrest
      · next hleft =>
        rw [List.map_cons, List.mem_cons, not_or]
        exact ⟨fun he => hleft (List.isEmpty_iff.mpr he.symm), hrest⟩
    · rw [List.map_cons, List.mem_cons, not_or]
      exact ⟨hg, ih hrest⟩

namespace Represents

variable {s t : IdSet} {members others : Finset ObjectId}

theorem empty : IdSet.empty.Represents ∅ :=
  ⟨isSet_empty, List.not_mem_nil, fun id => by simp [contains_empty]⟩

theorem insert (h : s.Represents members) (id : ObjectId) :
    (s.insert id).Represents (Insert.insert id members) := by
  refine ⟨h.isSet.insert id, inhabited_addTo h.inhabited id.ns id.name, fun other => ?_⟩
  rw [contains_insert, h.contains_iff, Finset.mem_insert]

theorem erase (h : s.Represents members) (id : ObjectId) :
    (s.erase id).Represents (members.erase id) := by
  refine ⟨h.isSet.erase id, inhabited_dropFrom h.inhabited id.ns id.name, fun other => ?_⟩
  rw [contains_erase h.isSet.grouped, h.contains_iff, Finset.mem_erase]

theorem foldl_insert (h : s.Represents members) (ids : List ObjectId) :
    (ids.foldl IdSet.insert s).Represents (members ∪ ids.toFinset) := by
  induction ids generalizing s members with
  | nil => simpa using h
  | cons id ids ih =>
    have hrest := ih (h.insert id)
    have hunion : Insert.insert id members ∪ ids.toFinset = members ∪ (id :: ids).toFinset := by
      ext other
      simp
    rwa [hunion] at hrest

theorem ofList (ids : List ObjectId) : (IdSet.ofList ids).Represents ids.toFinset := by
  have h := Represents.empty.foldl_insert ids
  rwa [Finset.empty_union] at h

/-! ## What can be seen of a set -/

theorem contains_eq (h : s.Represents members) (id : ObjectId) :
    s.contains id = decide (id ∈ members) := by
  rw [Bool.eq_iff_iff, h.contains_iff, decide_eq_true_iff]

theorem mem_toList (h : s.Represents members) (id : ObjectId) : id ∈ s.toList ↔ id ∈ members :=
  (IdSet.mem_toList h.isSet.grouped).trans (h.contains_iff id)

theorem size_eq (h : s.Represents members) : s.size = members.card := by
  have hlist : s.toList.toFinset = members := by
    ext id
    rw [List.mem_toFinset, h.mem_toList]
  rw [← hlist, List.toFinset_card_of_nodup h.isSet.nodup_toList]
  rfl

theorem isEmpty_eq (h : s.Represents members) : s.isEmpty = decide (members = ∅) := by
  unfold isEmpty
  rw [h.size_eq, Bool.eq_iff_iff, beq_iff_eq, decide_eq_true_iff, Finset.card_eq_zero]

theorem mem_difference (h : s.Represents members) (ht : t.Represents others) (id : ObjectId) :
    id ∈ s.difference t ↔ id ∈ members ∧ id ∉ others := by
  rw [IdSet.mem_difference h.isSet.grouped, h.contains_iff, ← ht.contains_iff, Bool.not_eq_true]

theorem nodup_difference (h : s.Represents members) : (s.difference t).Nodup :=
  h.isSet.nodup_toList.filter _

/-! ## Comparison -/

theorem mem_namespaces (h : s.Represents members) (ns : String) :
    ns ∈ s.groups.map Prod.fst ↔ ∃ name, (⟨ns, name⟩ : ObjectId) ∈ members := by
  constructor
  · intro hns
    obtain ⟨⟨ns, ms⟩, hg, rfl⟩ := List.mem_map.mp hns
    have hsome : ms ≠ [] := fun he => h.inhabited (List.mem_map.mpr ⟨_, hg, he⟩)
    obtain ⟨name, hname⟩ := List.exists_mem_of_ne_nil ms hsome
    exact ⟨name, (h.contains_iff _).mp ((h.isSet.grouped.contains_iff hg name).mpr hname)⟩
  · rintro ⟨name, hname⟩
    obtain ⟨g, hg, hin⟩ := List.mem_flatMap.mp ((h.mem_toList _).mpr hname)
    obtain ⟨_, -, heq⟩ := List.mem_map.mp hin
    exact List.mem_map.mpr ⟨g, hg, (ObjectId.mk.inj heq).1⟩

theorem mem_group (h : s.Represents members) {ns : String} {ms : List String}
    (hg : (ns, ms) ∈ s.groups) (name : String) :
    name ∈ ms ↔ (⟨ns, name⟩ : ObjectId) ∈ members :=
  (h.isSet.grouped.contains_iff hg name).symm.trans (h.contains_iff _)

end Represents

theorem sameNames_iff {a b : List String} :
    sameNames a b = true ↔ a.length = b.length ∧ a ⊆ b := by
  simp [sameNames, List.subset_def]

theorem equals_iff_groups {a b : IdSet} : a.equals b = true ↔
    a.groups.length = b.groups.length ∧ ∀ ns ms, (ns, ms) ∈ a.groups →
      ∃ ms', b.groups.lookup ns = some ms' ∧ ms.length = ms'.length ∧ ms ⊆ ms' := by
  unfold equals
  rw [Bool.and_eq_true, beq_iff_eq, List.all_eq_true, Prod.forall]
  refine and_congr_right fun _ => forall_congr' fun ns => forall_congr' fun ms =>
    imp_congr_right fun _ => ?_
  cases b.groups.lookup ns with
  | none => simp
  | some ms' => simp [sameNames_iff]

/-- Sets have equal groups exactly if they have the same members. -/
theorem Represents.equals_iff {a b : IdSet} {members others : Finset ObjectId}
    (ha : a.Represents members) (hb : b.Represents others) :
    a.equals b = true ↔ members = others := by
  rw [equals_iff_groups]
  constructor
  · rintro ⟨hlength, hgroups⟩
    -- each group of the one is that of the other, which has no more groups
    have hsame : ∀ ns ms, (ns, ms) ∈ a.groups → ∃ ms', (ns, ms') ∈ b.groups ∧ ms.Perm ms' := by
      intro ns ms hg
      obtain ⟨ms', hlookup, hcount, hsub⟩ := hgroups ns ms hg
      obtain ⟨before, after, hsplit, -⟩ := List.lookup_eq_some_iff.mp hlookup
      refine ⟨ms', by rw [hsplit]; simp, ?_⟩
      exact ((ha.isSet.nodup _ hg).subperm hsub).perm_of_length_le hcount.ge
    have hkeys : (a.groups.map Prod.fst).Perm (b.groups.map Prod.fst) := by
      refine (List.Nodup.subperm ha.isSet.grouped ?_).perm_of_length_le (by simpa using hlength.ge)
      intro ns hns
      obtain ⟨⟨ns, ms⟩, hg, rfl⟩ := List.mem_map.mp hns
      obtain ⟨ms', hg', -⟩ := hsame ns ms hg
      exact List.mem_map.mpr ⟨_, hg', rfl⟩
    ext ⟨ns, name⟩
    have hgroup : ∀ ms, (ns, ms) ∈ a.groups →
        ((⟨ns, name⟩ : ObjectId) ∈ members ↔ (⟨ns, name⟩ : ObjectId) ∈ others) := by
      intro ms hg
      obtain ⟨ms', hg', hperm⟩ := hsame ns ms hg
      rw [← ha.mem_group hg, ← hb.mem_group hg', hperm.mem_iff]
    constructor
    · intro hin
      obtain ⟨⟨ns', ms⟩, hg, rfl⟩ := List.mem_map.mp ((ha.mem_namespaces ns).mpr ⟨name, hin⟩)
      exact (hgroup ms hg).mp hin
    · intro hin
      have hns := hkeys.mem_iff.mpr ((hb.mem_namespaces ns).mpr ⟨name, hin⟩)
      obtain ⟨⟨ns', ms⟩, hg, rfl⟩ := List.mem_map.mp hns
      exact (hgroup ms hg).mpr hin
  · rintro rfl
    have hkeys : (a.groups.map Prod.fst).Perm (b.groups.map Prod.fst) := by
      rw [List.perm_ext_iff_of_nodup ha.isSet.grouped hb.isSet.grouped]
      exact fun ns => (ha.mem_namespaces ns).trans (hb.mem_namespaces ns).symm
    refine ⟨by simpa using hkeys.length_eq, fun ns ms hg => ?_⟩
    obtain ⟨⟨ns, ms'⟩, hg', rfl⟩ :=
      List.mem_map.mp (hkeys.mem_iff.mp (List.mem_map.mpr ⟨_, hg, rfl⟩))
    have hperm : ms.Perm ms' := by
      rw [List.perm_ext_iff_of_nodup (ha.isSet.nodup _ hg) (hb.isSet.nodup _ hg')]
      exact fun name => (ha.mem_group hg name).trans (hb.mem_group hg' name).symm
    exact ⟨ms', hb.isSet.grouped.lookup_eq hg', hperm.length_eq, hperm.subset⟩

/-! ## Histories -/

/-- What is done to a set. -/
inductive Change where
  | insert (id : ObjectId)
  | erase (id : ObjectId)
  | clear
  /-- The set is made anew of the given objects. -/
  | collect (ids : List ObjectId)

def Change.on (s : IdSet) : Change → IdSet × Option Bool
  | .insert id => (s.insert id, some (s.adds id))
  | .erase id => (s.erase id, some (s.removes id))
  | .clear => (.empty, none)
  | .collect ids => (.ofList ids, none)

/-- What the change means for the members: an insertion answers whether the object was missing, an
erasure whether it was there. -/
def Change.meant (members : Finset ObjectId) : Change → Finset ObjectId × Option Bool
  | .insert id => (Insert.insert id members, some (decide (id ∉ members)))
  | .erase id => (members.erase id, some (decide (id ∈ members)))
  | .clear => (∅, none)
  | .collect ids => (ids.toFinset, none)

/-- What is there after a history, and what its changes answered. -/
def afterAll {σ : Type} (step : σ → Change → σ × Option Bool) (s : σ) :
    List Change → σ × List (Option Bool)
  | [] => (s, [])
  | c :: rest => ((afterAll step (step s c).1 rest).1,
      (step s c).2 :: (afterAll step (step s c).1 rest).2)

namespace Represents

variable {s : IdSet} {members : Finset ObjectId}

theorem on (h : s.Represents members) (c : Change) :
    (c.on s).1.Represents (c.meant members).1 ∧ (c.on s).2 = (c.meant members).2 := by
  cases c with
  | insert id =>
    refine ⟨h.insert id, ?_⟩
    show some (s.adds id) = some (decide (id ∉ members))
    rw [adds_eq, h.contains_eq, decide_not]
  | erase id =>
    refine ⟨h.erase id, ?_⟩
    show some (s.removes id) = some (decide (id ∈ members))
    rw [removes_eq, h.contains_eq]
  | clear => exact ⟨Represents.empty, rfl⟩
  | collect ids => exact ⟨Represents.ofList ids, rfl⟩

theorem afterAll (h : s.Represents members) (changes : List Change) :
    (IdSet.afterAll Change.on s changes).1.Represents
        (IdSet.afterAll Change.meant members changes).1 ∧
      (IdSet.afterAll Change.on s changes).2 = (IdSet.afterAll Change.meant members changes).2 := by
  induction changes generalizing s members with
  | nil => exact ⟨h, rfl⟩
  | cons c rest ih =>
    obtain ⟨hnext, hanswer⟩ := h.on c
    obtain ⟨hlast, hanswers⟩ := ih hnext
    exact ⟨hlast, congrArg₂ List.cons hanswer hanswers⟩

end Represents

/-- A set of object names behaves as the finite set of its members. After every history its changes
have answered as is meant, no namespace has an empty group, and membership, size, listing, difference
and equality with the set after any other history are those of the members. -/
theorem histories_represent (changes changes' : List Change) :
    let s := (afterAll Change.on empty changes).1
    let t := (afterAll Change.on empty changes').1
    let members := (afterAll Change.meant ∅ changes).1
    let others := (afterAll Change.meant ∅ changes').1
    (afterAll Change.on empty changes).2 = (afterAll Change.meant ∅ changes).2 ∧
      [] ∉ s.groups.map Prod.snd ∧ (s.groups.map Prod.fst).Nodup ∧
      (∀ id, s.contains id = decide (id ∈ members)) ∧
      s.size = members.card ∧ s.isEmpty = decide (members = ∅) ∧
      (s.toList.Nodup ∧ ∀ id, id ∈ s.toList ↔ id ∈ members) ∧
      ((s.difference t).Nodup ∧ ∀ id, id ∈ s.difference t ↔ id ∈ members ∧ id ∉ others) ∧
      (s.equals t = true ↔ members = others) := by
  intro s t members others
  obtain ⟨hs, hanswers⟩ := Represents.empty.afterAll changes
  obtain ⟨ht, -⟩ := Represents.empty.afterAll changes'
  exact ⟨hanswers, hs.inhabited, hs.isSet.grouped, hs.contains_eq, hs.size_eq, hs.isEmpty_eq,
    ⟨hs.isSet.nodup_toList, hs.mem_toList⟩, ⟨hs.nodup_difference, hs.mem_difference ht⟩,
    hs.equals_iff ht⟩

end KubeLedger.IdSet
