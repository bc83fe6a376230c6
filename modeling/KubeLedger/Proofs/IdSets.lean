import Mathlib.Data.List.Nodup
import KubeLedger.Identity

/- Sets of object names as sets. The groups of a set are searched by namespace, so membership is
   about the first group of a namespace, and only where each namespace has one group
   (`IdSet.Grouped`) do the members make up the list of all members (`mem_toList`), and is an erased
   member gone (`contains_erase`). Every operation keeps the namespaces apart. -/
namespace KubeLedger.IdSet

def Grouped (s : IdSet) : Prop := (s.groups.map Prod.fst).Nodup

/-! ## Insertion -/

theorem names_addTo (ns name n : String) (gs : List (String × List String)) :
    ((addTo ns name gs).lookup n).getD [] =
      if n = ns then
        if ((gs.lookup n).getD []).contains name then (gs.lookup n).getD []
        else (gs.lookup n).getD [] ++ [name]
      else (gs.lookup n).getD [] := by
  induction gs with
  | nil =>
    by_cases h : n = ns
    · simp [addTo, h]
    · have hbeq : (n == ns) = false := by simpa using h
      simp [addTo, List.lookup_cons, hbeq, h]
  | cons g rest ih =>
    obtain ⟨m, names⟩ := g
    unfold addTo
    by_cases hm : ns = m
    · -- the first group is that of the namespace
      subst hm
      by_cases h : n = ns
      · subst h
        simp
      · have hbeq : (n == ns) = false := by simpa using h
        simp [List.lookup_cons, h, hbeq]
    · rw [if_neg hm]
      by_cases hn : n = m
      · subst hn
        simp [Ne.symm hm]
      · have hbeq : (n == m) = false := by simpa using hn
        simp only [List.lookup_cons, hbeq, ih]

theorem contains_insert (s : IdSet) (a b : ObjectId) :
    (s.insert a).contains b = true ↔ b = a ∨ s.contains b = true := by
  obtain ⟨ns, name⟩ := a
  obtain ⟨ns', name'⟩ := b
  have hnames := names_addTo ns name ns' s.groups
  unfold contains names insert
  simp only at hnames ⊢
  rw [hnames]
  by_cases hns : ns' = ns
  · subst hns
    rw [if_pos rfl]
    split
    · rename_i hin
      constructor
      · exact Or.inr
      · rintro (heq | h)
        · cases heq
          exact hin
        · exact h
    · simp [or_comm]
  · rw [if_neg hns]
    simp [hns]

theorem keys_addTo (ns name : String) (gs : List (String × List String)) :
    (addTo ns name gs).map Prod.fst =
      if ns ∈ gs.map Prod.fst then gs.map Prod.fst
      else gs.map Prod.fst ++ [ns] := by
  induction gs with
  | nil => rfl
  | cons g rest ih =>
    obtain ⟨m, names⟩ := g
    unfold addTo
    by_cases hm : ns = m
    · simp [hm]
    · rw [if_neg hm, List.map_cons, ih]
      by_cases hin : ns ∈ rest.map Prod.fst
      · simp [hin]
      · simp [hin, hm]

theorem Grouped.insert {s : IdSet} (h : s.Grouped) (a : ObjectId) : (s.insert a).Grouped := by
  unfold Grouped IdSet.insert
  rw [keys_addTo]
  split
  · exact h
  · rename_i hnew
    refine List.nodup_append.mpr ⟨h, List.nodup_singleton _, ?_⟩
    rintro n hn m hm rfl
    exact hnew (List.mem_singleton.mp hm ▸ hn)

theorem grouped_empty : empty.Grouped := List.nodup_nil

theorem contains_empty (id : ObjectId) : empty.contains id = false := rfl

theorem contains_ofList (ids : List ObjectId) (id : ObjectId) :
    (ofList ids).contains id = true ↔ id ∈ ids := by
  have hfold : ∀ s : IdSet, (ids.foldl IdSet.insert s).contains id = true ↔
      id ∈ ids ∨ s.contains id = true := by
    induction ids with
    | nil => simp
    | cons a ids ih =>
      intro s
      rw [List.foldl_cons, ih, contains_insert, List.mem_cons]
      tauto
  rw [ofList, hfold, contains_empty]
  simp

theorem grouped_ofList (ids : List ObjectId) : (ofList ids).Grouped := by
  have hfold : ∀ s : IdSet, s.Grouped → (ids.foldl IdSet.insert s).Grouped := by
    induction ids with
    | nil => exact fun s h => h
    | cons a ids ih => exact fun s h => ih _ (h.insert a)
  exact hfold empty grouped_empty

/-! ## Erasure -/

theorem keys_dropFrom (ns name : String) (gs : List (String × List String)) :
    ((dropFrom ns name gs).map Prod.fst).Sublist (gs.map Prod.fst) := by
  induction gs with
  | nil => exact List.Sublist.refl _
  | cons g rest ih =>
    obtain ⟨m, names⟩ := g
    unfold dropFrom
    split
    · dsimp only
      split
      · exact List.sublist_cons_self _ _
      · exact List.Sublist.refl _
    · exact ih.cons_cons m

theorem Grouped.erase {s : IdSet} (h : s.Grouped) (a : ObjectId) : (s.erase a).Grouped :=
  (keys_dropFrom a.ns a.name s.groups).nodup h

theorem names_dropFrom {gs : List (String × List String)} (h : (gs.map Prod.fst).Nodup)
    (ns name n : String) :
    ((dropFrom ns name gs).lookup n).getD [] =
      if n = ns then ((gs.lookup n).getD []).filter fun m => m ≠ name
      else (gs.lookup n).getD [] := by
  induction gs with
  | nil => simp [dropFrom]
  | cons g rest ih =>
    obtain ⟨m, names⟩ := g
    obtain ⟨hm, hrest⟩ := List.nodup_cons.mp h
    unfold dropFrom
    by_cases hns : ns = m
    · -- no later group is of this namespace, so an empty one may go
      subst hns
      have hnone : rest.lookup ns = none := by
        rw [List.lookup_eq_none_iff]
        intro p hp
        have hmem : p.1 ∈ rest.map Prod.fst := List.mem_map_of_mem hp
        have hne : p.1 ≠ ns := fun he => hm (he ▸ hmem)
        simpa using hne.symm
      rw [if_pos rfl]
      by_cases hn : n = ns
      · subst hn
        dsimp only
        split
        · rename_i hleft
          rw [hnone, if_pos rfl, List.lookup_cons_self]
          exact (List.isEmpty_iff.mp hleft).symm
        · simp
      · have hbeq : (n == ns) = false := by simpa using hn
        dsimp only
        rw [if_neg hn]
        split <;> simp [List.lookup_cons, hbeq]
    · rw [if_neg hns]
      by_cases hn : n = m
      · subst hn
        simp [Ne.symm hns]
      · have hbeq : (n == m) = false := by simpa using hn
        simp only [List.lookup_cons, hbeq]
        exact ih hrest

theorem contains_erase {s : IdSet} (h : s.Grouped) (a b : ObjectId) :
    (s.erase a).contains b = true ↔ b ≠ a ∧ s.contains b = true := by
  obtain ⟨ns, name⟩ := a
  obtain ⟨ns', name'⟩ := b
  have hnames := names_dropFrom h ns name ns'
  unfold contains names erase
  simp only at hnames ⊢
  rw [hnames]
  by_cases hns : ns' = ns
  · subst hns
    simp [and_comm]
  · simp [hns]

/-! ## All members -/

theorem mem_toList_of_contains {s : IdSet} {id : ObjectId} (h : s.contains id = true) :
    id ∈ s.toList := by
  obtain ⟨ns, name⟩ := id
  unfold contains names at h
  cases hlookup : s.groups.lookup ns with
  | none => simp [hlookup] at h
  | some ms =>
    have hname : name ∈ ms := by simpa [hlookup] using h
    obtain ⟨before, after, hgroups, -⟩ := List.lookup_eq_some_iff.mp hlookup
    refine List.mem_flatMap.mpr ⟨(ns, ms), ?_, List.mem_map.mpr ⟨name, hname, rfl⟩⟩
    rw [hgroups]
    exact List.mem_append_right _ List.mem_cons_self

/-- Each group is the one that is found for its namespace. -/
theorem Grouped.lookup_eq {s : IdSet} (h : s.Grouped) {ns : String} {ms : List String}
    (hg : (ns, ms) ∈ s.groups) : s.groups.lookup ns = some ms := by
  obtain ⟨before, after, hgroups⟩ := List.append_of_mem hg
  refine List.lookup_eq_some_iff.mpr ⟨before, after, hgroups, fun p hp => ?_⟩
  have hnodup := h
  unfold Grouped at hnodup
  rw [hgroups, List.map_append, List.map_cons, List.nodup_middle] at hnodup
  have hmem : p.1 ∈ before.map Prod.fst ++ after.map Prod.fst :=
    List.mem_append_left _ (List.mem_map_of_mem hp)
  have hne : p.1 ≠ ns := fun he => (List.nodup_cons.mp hnodup).1 (he ▸ hmem)
  simpa using hne.symm

theorem Grouped.contains_iff {s : IdSet} (h : s.Grouped) {ns : String} {ms : List String}
    (hg : (ns, ms) ∈ s.groups) (name : String) : s.contains ⟨ns, name⟩ = true ↔ name ∈ ms := by
  unfold contains names
  simp [h.lookup_eq hg]

theorem mem_toList {s : IdSet} (h : s.Grouped) {id : ObjectId} :
    id ∈ s.toList ↔ s.contains id = true := by
  refine ⟨fun hid => ?_, mem_toList_of_contains⟩
  obtain ⟨⟨ns, ms⟩, hg, hin⟩ := List.mem_flatMap.mp hid
  obtain ⟨name, hname, rfl⟩ := List.mem_map.mp hin
  exact (h.contains_iff hg name).mpr hname

theorem mem_difference {s : IdSet} (h : s.Grouped) {other : IdSet} {id : ObjectId} :
    id ∈ s.difference other ↔ s.contains id = true ∧ other.contains id = false := by
  unfold difference
  rw [List.mem_filter, mem_toList h]
  simp

/-! ## Members that are there once -/

/-- Each namespace has one group, and each name is in it once. -/
structure IsSet (s : IdSet) : Prop where
  grouped : s.Grouped
  nodup : ∀ g ∈ s.groups, g.2.Nodup

theorem isSet_empty : empty.IsSet := ⟨grouped_empty, nofun⟩

theorem nodup_addTo {gs : List (String × List String)} (h : ∀ g ∈ gs, g.2.Nodup)
    (ns name : String) : ∀ g ∈ addTo ns name gs, g.2.Nodup := by
  induction gs with
  | nil =>
    intro g hg
    rw [List.mem_singleton.mp hg]
    exact List.nodup_singleton name
  | cons g rest ih =>
    obtain ⟨hfirst, hrest⟩ := List.forall_mem_cons.mp h
    unfold addTo
    split
    · refine List.forall_mem_cons.mpr ⟨?_, hrest⟩
      dsimp only
      split
      · exact hfirst
      · rename_i hnew
        have hdisjoint : ∀ a ∈ g.2, ∀ b ∈ [name], a ≠ b := by
          rintro a ha b hb rfl
          rw [List.mem_singleton.mp hb] at ha
          exact hnew (List.contains_iff_mem.mpr ha)
        exact List.nodup_append.mpr ⟨hfirst, List.nodup_singleton name, hdisjoint⟩
    · exact List.forall_mem_cons.mpr ⟨hfirst, ih hrest⟩

theorem IsSet.insert {s : IdSet} (h : s.IsSet) (a : ObjectId) : (s.insert a).IsSet :=
  ⟨h.grouped.insert a, nodup_addTo h.nodup a.ns a.name⟩

theorem nodup_dropFrom {gs : List (String × List String)} (h : ∀ g ∈ gs, g.2.Nodup)
    (ns name : String) : ∀ g ∈ dropFrom ns name gs, g.2.Nodup := by
  induction gs with
  | nil => exact nofun
  | cons g rest ih =>
    obtain ⟨hfirst, hrest⟩ := List.forall_mem_cons.mp h
    unfold dropFrom
    split
    · dsimp only
      split
      · exact hrest
      · exact List.forall_mem_cons.mpr ⟨hfirst.filter _, hrest⟩
    · exact List.forall_mem_cons.mpr ⟨hfirst, ih hrest⟩

theorem IsSet.erase {s : IdSet} (h : s.IsSet) (a : ObjectId) : (s.erase a).IsSet :=
  ⟨h.grouped.erase a, nodup_dropFrom h.nodup a.ns a.name⟩

theorem IsSet.nodup_toList {s : IdSet} (h : s.IsSet) : s.toList.Nodup := by
  refine List.nodup_flatMap.mpr ⟨fun g hg => ?_, ?_⟩
  · exact (h.nodup g hg).map fun a b hab => (ObjectId.mk.inj hab).2
  · -- members of different groups are in different namespaces
    refine (List.pairwise_map.mp h.grouped).imp fun {g g'} hne => ?_
    intro id hid hid'
    obtain ⟨name, -, rfl⟩ := List.mem_map.mp hid
    obtain ⟨name', -, heq⟩ := List.mem_map.mp hid'
    exact hne (ObjectId.mk.inj heq).1.symm

end KubeLedger.IdSet
