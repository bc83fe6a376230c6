import KubeLedger.Proofs.Courses

/- Contents of objects. A listing leaves out of its items what type they have, and an informer puts
   it in, so objects are compared without the members that tell the type (`ClusterObject.content`).
   All that an informer reads of an object is in its content, so an item can be used exactly if it
   could be as it stands (`Informer.accepts_iff`). -/
namespace KubeLedger

namespace Json

/-- Whether a member says what type an object has. -/
def isTyping (name : String) : Bool := name == "apiVersion" || name == "kind"

def untyped : Json → Json
  | .object members => .object (members.filter fun m => !isTyping m.1)
  | value => value

theorem untyped_insert {name : String} (h : isTyping name = true) (value : Json)
    (members : List (String × Json)) :
    untyped (.object (insert name value members)) = untyped (.object members) := by
  refine congrArg object ?_
  induction members with
  | nil => simp [insert, h]
  | cons m rest ih =>
    obtain ⟨n, v⟩ := m
    unfold insert
    split
    · rename_i heq
      simp [← heq, h]
    · split
      · rw [List.filter_cons_of_neg (by simp [h])]
      · rw [List.filter_cons, List.filter_cons, ih]

theorem lookup_untyped {name : String} (h : isTyping name = false)
    (members : List (String × Json)) :
    (members.filter fun m => !isTyping m.1).lookup name = members.lookup name := by
  induction members with
  | nil => rfl
  | cons m rest ih =>
    obtain ⟨n, v⟩ := m
    by_cases hn : name = n
    · subst hn
      rw [List.filter_cons_of_pos (by simp [h]), List.lookup_cons_self, List.lookup_cons_self]
    · have hbeq : (name == n) = false := by simpa using hn
      rw [List.filter_cons]
      split <;> simp only [List.lookup_cons, hbeq, ih]

theorem textAt?_untyped {name : String} (h : isTyping name = false) (value : Json)
    (path : List String) : value.untyped.textAt? (name :: path) = value.textAt? (name :: path) := by
  have hchild : value.untyped.child? name = value.child? name := by
    cases value with
    | object members => exact lookup_untyped h members
    | _ => rfl
  unfold textAt? at?
  rw [hchild]

end Json

namespace ClusterObject

variable {a b : ClusterObject}

/-- What an object is apart from its type. -/
def content (o : ClusterObject) : Json := o.value.untyped

theorem text?_of_content (h : a.content = b.content) (field : String) :
    a.text? ["metadata", field] = b.text? ["metadata", field] := by
  unfold content at h
  unfold text?
  rw [← Json.textAt?_untyped rfl a.value, h, Json.textAt?_untyped rfl]

theorem id_of_content (h : a.content = b.content) : a.id = b.id := by
  unfold id ns? name
  rw [text?_of_content h, text?_of_content h]

theorem ofJson_iff : ofJson a.value = .ok a ↔ (a.text? ["metadata", "name"]).isSome = true := by
  obtain ⟨value⟩ := a
  unfold ofJson text?
  cases value with
  | object members =>
    dsimp only
    cases Json.textAt? (.object members) ["metadata", "name"] <;> simp
  | array items =>
    -- an array has children too, but none under a name
    have hnone : Json.textAt? (.array items) ["metadata", "name"] = none := rfl
    simp [hnone]
  | _ => simp [Json.textAt?, Json.at?, Json.child?]

theorem ofJson_of_content (h : a.content = b.content) (hb : ofJson b.value = .ok b) :
    ofJson a.value = .ok a := by
  rw [ofJson_iff, text?_of_content h]
  exact ofJson_iff.mp hb

end ClusterObject

namespace Informer

theorem content_object (i : Informer) (item : Json) : (i.object item).content = item.untyped := by
  unfold ClusterObject.content object typed
  cases item with
  | object members =>
    dsimp only
    rw [Json.untyped_insert rfl, Json.untyped_insert rfl]
  | _ => rfl

theorem accepts_iff {i : Informer} {item : Json} :
    i.Accepts item ↔ ClusterObject.ofJson item = .ok ⟨item⟩ :=
  have hsame : (i.object item).content = ClusterObject.content ⟨item⟩ := i.content_object item
  ⟨ClusterObject.ofJson_of_content hsame.symm, ClusterObject.ofJson_of_content hsame⟩

end Informer
end KubeLedger
