import Mathlib.Data.List.TakeDrop
import KubeLedger.Feed.Informer

/- Names, keys and identities. An identity is the digest of a message in which the names of a key
   are joined by slashes. Where no name holds a slash the message determines the key
   (`message_inj`), and where the digests of the messages in play differ, the identity does too
   (`Distinct.of_inj`). A pod is told by any of its containers (`Distinct.container_inj`). In the
   same way the key text of an object determines it (`ObjectId.ofKey_key`).

   That SHA-1 does not collide is assumed only of the finitely many keys that a run involves, never
   of all messages, for which it is false. -/
namespace KubeLedger

open KubeLedger.Text

def NoSlash (name : String) : Prop := '/' ∉ name.toList

instance (name : String) : Decidable (NoSlash name) := inferInstanceAs (Decidable (¬ _))

def ObjectId.IsPlain (id : ObjectId) : Prop := NoSlash id.ns ∧ NoSlash id.name

instance (id : ObjectId) : Decidable id.IsPlain := inferInstanceAs (Decidable (_ ∧ _))

/-! ## Identities -/

theorem encode_inj {a b : String} (h : encode a = encode b) : a = b := by
  unfold encode at h
  rw [String.toUTF8_eq_toByteArray, String.toUTF8_eq_toByteArray] at h
  have harray : a.toByteArray = b.toByteArray := ByteArray.ext (Array.toList_inj.mp h)
  exact String.toByteArray_inj.mp harray

/-- Without slashes in names, the message of a key determines the key. -/
theorem EntityId.message_inj {a b : List String} (ha : ∀ s ∈ a, NoSlash s) (hb : ∀ s ∈ b, NoSlash s)
    (ha₀ : a ≠ []) (hb₀ : b ≠ []) (h : message a = message b) : a = b := by
  have hjoin : "/".intercalate a = "/".intercalate b := encode_inj h
  have hchars :
      ['/'].intercalate (a.map String.toList) = ['/'].intercalate (b.map String.toList) := by
    have := congrArg String.toList hjoin
    rwa [String.toList_intercalate, String.toList_intercalate] at this
  have split : ∀ {l : List String}, (∀ s ∈ l, NoSlash s) → l ≠ [] →
      (['/'].intercalate (l.map String.toList)).splitOn '/' = l.map String.toList := by
    intro l hl hl₀
    refine List.splitOn_intercalate '/' ?_ (by simpa using hl₀)
    intro cs hcs
    obtain ⟨s, hs, rfl⟩ := List.mem_map.mp hcs
    exact hl s hs
  have hmap : a.map String.toList = b.map String.toList := by
    rw [← split ha ha₀, hchars, split hb hb₀]
  exact (List.map_inj_right fun _ _ => String.toList_inj.mp).mp hmap

/-- The keys in play: none is empty, no name in them holds a slash, and different messages among
theirs have different digests. -/
structure Distinct (keys : List (List String)) : Prop where
  nonempty : [] ∉ keys
  plain : ∀ key ∈ keys, ∀ name ∈ key, NoSlash name
  digests : ∀ a ∈ keys, ∀ b ∈ keys,
    Digest.Sha1.digest (EntityId.message a) = Digest.Sha1.digest (EntityId.message b) →
      EntityId.message a = EntityId.message b

namespace Distinct

variable {keys : List (List String)}

theorem of_inj (d : Distinct keys) {a b : List String} (ha : a ∈ keys) (hb : b ∈ keys)
    (h : EntityId.of a = EntityId.of b) : a = b := by
  have hdigest := congrArg EntityId.bytes h
  exact EntityId.message_inj (d.plain a ha) (d.plain b hb) (fun h₀ => d.nonempty (h₀ ▸ ha))
    (fun h₀ => d.nonempty (h₀ ▸ hb)) (d.digests a ha b hb hdigest)

theorem object_inj (d : Distinct keys) {a b : ObjectId} (ha : [a.ns, a.name] ∈ keys)
    (hb : [b.ns, b.name] ∈ keys) (h : a.entityId = b.entityId) : a = b := by
  have hkey := d.of_inj ha hb h
  cases a
  cases b
  simp_all

/-- Containers of different pods have different identities. -/
theorem container_inj (d : Distinct keys) {a b : ObjectId} {c c' : String}
    (ha : [a.ns, a.name, c] ∈ keys) (hb : [b.ns, b.name, c'] ∈ keys)
    (h : EntityId.container a.ns a.name c = .container b.ns b.name c') : a = b := by
  have hkey := d.of_inj ha hb h
  cases a
  cases b
  simp_all

end Distinct

/-! ## Key texts -/

namespace ObjectId

/-- Without slashes before it, the first slash ends what is read. -/
theorem span_slash {cs rest : List Char} (hcs : '/' ∉ cs)
    (hrest : rest = [] ∨ rest.head? = some '/') : (cs ++ rest).span (· ≠ '/') = (cs, rest) := by
  rw [List.span_eq_takeWhile_dropWhile]
  have hall : ∀ c ∈ cs, decide (c ≠ '/') = true := by
    intro c hc
    simp only [decide_eq_true_eq]
    rintro rfl
    exact hcs hc
  rw [List.takeWhile_append_of_pos hall, List.dropWhile_append_of_pos hall]
  cases rest with
  | nil => simp
  | cons c rest =>
    obtain rfl : c = '/' := by simpa using hrest
    simp

/-- A key with a slash: the namespace is what is before the first one. -/
theorem ofKey_of_split {k : String} {before after : List Char} (hbefore : '/' ∉ before)
    (hsplit : k.toList = before ++ '/' :: after) :
    ofKey k = ⟨String.ofList before, String.ofList after⟩ := by
  have hspan : k.toList.span (· ≠ '/') = (before, '/' :: after) :=
    hsplit ▸ span_slash hbefore (Or.inr rfl)
  simp only [ofKey, hspan]

/-- A key without a slash: there is no namespace. -/
theorem ofKey_of_noSlash {k : String} (h : NoSlash k) : ofKey k = ⟨"", k⟩ := by
  have hspan := span_slash h (Or.inl rfl)
  rw [List.append_nil] at hspan
  simp only [ofKey, hspan]

theorem key_of_ns {id : ObjectId} (h : id.ns ≠ "") :
    id.key.toList = id.ns.toList ++ '/' :: id.name.toList := by
  have hkey : id.key = id.ns ++ "/" ++ id.name := if_neg h
  simp [hkey]

theorem key_of_no_ns {id : ObjectId} (h : id.ns = "") : id.key = id.name := if_pos h

/-- The key of an object is read back if its namespace holds no slash. -/
theorem ofKey_key_of_ns {id : ObjectId} (hns : NoSlash id.ns) (h : id.ns = "" → NoSlash id.name) :
    ofKey id.key = id := by
  by_cases h₀ : id.ns = ""
  · rw [key_of_no_ns h₀, ofKey_of_noSlash (h h₀), ← h₀]
  · rw [ofKey_of_split hns (key_of_ns h₀), String.ofList_toList, String.ofList_toList]

theorem ofKey_key {id : ObjectId} (h : id.IsPlain) : ofKey id.key = id :=
  ofKey_key_of_ns h.1 fun _ => h.2

/-- The key of an object in a namespace is read as a name with the same message, whatever slashes the
names hold: they are joined at the slash at which they were split. -/
theorem message_ofKey {id : ObjectId} (h : id.ns = "" → NoSlash id.name) :
    EntityId.message [(ofKey id.key).ns, (ofKey id.key).name] =
      EntityId.message [id.ns, id.name] := by
  by_cases h₀ : id.ns = ""
  · rw [ofKey_key_of_ns (by rw [h₀]; decide) h]
  · have hkey := key_of_ns h₀
    have hslash : '/' ∈ id.key.toList := by simp [hkey]
    obtain ⟨before, after, hsplit, hbefore⟩ := List.eq_append_cons_of_mem hslash
    have hjoin : "/".intercalate [String.ofList before, String.ofList after] =
        "/".intercalate [id.ns, id.name] := by
      rw [← String.toList_inj, String.toList_intercalate, String.toList_intercalate]
      simpa [hkey] using hsplit.symm
    rw [ofKey_of_split hbefore hsplit]
    exact congrArg encode hjoin

theorem entityId_ofKey {id : ObjectId} (h : id.ns = "" → NoSlash id.name) :
    (ofKey id.key).entityId = id.entityId := by
  unfold entityId EntityId.object EntityId.of
  simp only [message_ofKey h]

theorem key_inj {a b : ObjectId} (ha : a.IsPlain) (hb : b.IsPlain) (h : a.key = b.key) : a = b := by
  rw [← ofKey_key ha, h, ofKey_key hb]

end ObjectId

theorem Notification.deleted_id {id : ObjectId} (h : id.IsPlain) : (deleted id).id = id :=
  ObjectId.ofKey_key h

end KubeLedger
