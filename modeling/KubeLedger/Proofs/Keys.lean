import KubeLedger.Proofs.MappedRows

/- Keys of objects in a feed. An object is upserted under the identity of its names, and deleted under
   the identity of the names that are read back from its key. The two are one row, since an identity
   is the digest of a message in which names are joined by slashes too: where a namespace holds a
   slash its key is split at another place than it was joined, but what is joined again is the same
   message (`ObjectId.message_ofKey`). The names themselves are read back if the namespace holds no
   slash, and a key is written again as it was unless it begins with one (`ObjectId.key_ofKey_iff`). -/
namespace KubeLedger

namespace ObjectId

/-- The first slash ends the namespace. -/
theorem noSlash_ofKey (k : String) : NoSlash (ofKey k).ns := by
  by_cases hslash : '/' ∈ k.toList
  · obtain ⟨before, after, hsplit, hbefore⟩ := List.eq_append_cons_of_mem hslash
    rw [ofKey_of_split hbefore hsplit]
    simpa [NoSlash] using hbefore
  · rw [ofKey_of_noSlash hslash]
    show NoSlash ""
    decide

/-- The key of an object is read back exactly if its namespace holds no slash. -/
theorem ofKey_key_iff {id : ObjectId} (h : id.ns = "" → NoSlash id.name) :
    ofKey id.key = id ↔ NoSlash id.ns :=
  ⟨fun hback => hback ▸ noSlash_ofKey id.key, fun hns => ofKey_key_of_ns hns h⟩

/-- What is read from a key is written as that key, unless the key begins with a slash: that would
be a namespace without a name, for which no slash is written. -/
theorem key_ofKey_iff (k : String) : (ofKey k).key = k ↔ k.toList.head? ≠ some '/' := by
  by_cases hslash : '/' ∈ k.toList
  · obtain ⟨before, after, hsplit, hbefore⟩ := List.eq_append_cons_of_mem hslash
    rw [ofKey_of_split hbefore hsplit, hsplit]
    cases before with
    | nil =>
      have hkey : key ⟨String.ofList [], String.ofList after⟩ = String.ofList after :=
        key_of_no_ns rfl
      -- a slash is lost
      have hshorter : String.ofList after ≠ k := by
        intro hsame
        have hlength := congrArg List.length hsplit
        rw [← hsame] at hlength
        simp at hlength
      simp [hkey, hshorter]
    | cons c before =>
      have hns : String.ofList (c :: before) ≠ "" := by simp [← String.toList_inj]
      have hkey : key ⟨String.ofList (c :: before), String.ofList after⟩ = k := by
        rw [← String.toList_inj, key_of_ns hns, hsplit]
        simp
      have hc : c ≠ '/' := fun he => hbefore (he ▸ List.mem_cons_self)
      exact iff_of_true hkey (by simpa using hc)
  · have hkey : (ofKey k).key = k := by
      rw [ofKey_of_noSlash hslash]
      exact key_of_no_ns rfl
    refine iff_of_true hkey fun hhead => hslash (List.mem_of_head? hhead)

/-- An object in a namespace may have any name. -/
theorem noSlash_of_or {id : ObjectId} (h : id.ns ≠ "" ∨ NoSlash id.name) :
    id.ns = "" → NoSlash id.name := fun h₀ => h.resolve_left (not_not.mpr h₀)

end ObjectId

/-- Upserts and deletions of an object address the same row. The key of an object is read as names
with the message of the object's own, and as its own names exactly if the namespace holds no slash.
Between objects without slashes equal keys are of equal objects; a key is written again exactly if it
does not begin with a slash. So a notification of an object, be it of a deletion, carries the identity
that the object's row is mapped to. -/
theorem keys_address_rows :
    (∀ id : ObjectId, id.ns ≠ "" ∨ NoSlash id.name →
      EntityId.message [(ObjectId.ofKey id.key).ns, (ObjectId.ofKey id.key).name] =
          EntityId.message [id.ns, id.name] ∧
        (ObjectId.ofKey id.key = id ↔ NoSlash id.ns)) ∧
    (∀ a b : ObjectId, a.IsPlain → b.IsPlain → (a.key = b.key ↔ a = b)) ∧
    (∀ k : String, (ObjectId.ofKey k).key = k ↔ k.toList.head? ≠ some '/') ∧
    ∀ (k : Kind) (o : ClusterObject) (m : Mapped), o.id.ns ≠ "" ∨ NoSlash o.id.name →
      k.map o = .ok m → ∀ n ∈ [Notification.seen o, Notification.deleted o.id],
        n.id.entityId = m.id ∧ k.table.cell m.row "id" = .id n.id.entityId := by
  refine ⟨fun id h => ?_, fun a b ha hb => ⟨ObjectId.key_inj ha hb, congrArg ObjectId.key⟩,
    ObjectId.key_ofKey_iff, fun k o m h hmap n hn => ?_⟩
  · have hname := ObjectId.noSlash_of_or h
    exact ⟨ObjectId.message_ofKey hname, ObjectId.ofKey_key_iff hname⟩
  · have hkey : n.key = o.id.key := by fin_cases hn <;> rfl
    have hid : n.id.entityId = o.id.entityId := by
      rw [Notification.id, hkey]
      exact ObjectId.entityId_ofKey (ObjectId.noSlash_of_or h)
    have hdescribes := Kind.map_describes hmap
    refine ⟨hid.trans hdescribes.id.symm, ?_⟩
    rw [hid]
    exact hdescribes.row_names.id

/-- A pod whose names hold slashes: its key is read as other names, and its deletion addresses its row
all the same. -/
theorem keys_address_rows_slashes :
    EntityId.message ["team", "a/web/1"] = EntityId.message ["team/a", "web/1"] ∧
      ObjectId.ofKey (ObjectId.key ⟨"team/a", "web/1"⟩) ≠ ⟨"team/a", "web/1"⟩ ∧
      ObjectId.ofKey (ObjectId.key ⟨"team", "web/1"⟩) = ⟨"team", "web/1"⟩ ∧
      ObjectId.key ⟨"team", "web"⟩ ≠ ObjectId.key ⟨"", "web"⟩ ∧
      ∃ m, Kind.pod.map (barePod "team/a" "web/1" []) = .ok m ∧
        Schema.pod.cell m.row "id" =
          .id (Notification.deleted (barePod "team/a" "web/1" []).id).id.entityId := by
  obtain ⟨hread, hplain, -, hrows⟩ := keys_address_rows
  obtain ⟨m, hmap, -, -⟩ := barePod_map "team/a" "web/1" []
  have hns : (barePod "team/a" "web/1" []).id.ns ≠ "" := by decide
  have hrow := hrows .pod _ m (.inl hns) hmap _ (List.mem_cons_of_mem _ List.mem_cons_self)
  obtain ⟨hmessage, hback⟩ := hread ⟨"team/a", "web/1"⟩ (.inl (by decide))
  refine ⟨hmessage, fun hsame => absurd (hback.mp hsame) (by decide), ?_, ?_, m, hmap, hrow.2⟩
  · exact (hread ⟨"team", "web/1"⟩ (.inl (by decide))).2.mpr (by decide)
  · exact fun hsame => absurd ((hplain ⟨"team", "web"⟩ ⟨"", "web"⟩ (by decide) (by decide)).mp hsame)
      (by decide)

end KubeLedger
