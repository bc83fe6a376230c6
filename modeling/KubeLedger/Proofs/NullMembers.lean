import KubeLedger.Proofs.NamedParts

/- Members that are null. To the readers of texts, numbers and lists a member that is null is as good
   as none, and so it is to the mapping of objects, wherever the member stands (`Json.Omits`), with one
   exception: of the states of a container, and of its last termination, only the presence is looked
   at. `null_absent_iff` says exactly when a null makes a difference: when it stands at the state that
   a container of a pod is in or, for one that waits or of which nothing is known, at its last
   termination (`Container.DependsOn`). -/
namespace KubeLedger

/-! ## Values without a null -/

namespace Json

/-- A step down into a value. -/
inductive Step where
  | member (name : String)
  | item (index : Nat)
deriving DecidableEq, Repr

/-- The second value is the first one without the member at the path, which is null. A name stands
once in an object. -/
inductive Omits : List Step → Json → Json → Prop
  | here {name : String} {before after : List (String × Json)} :
    name ∉ before.map Prod.fst → name ∉ after.map Prod.fst →
    Omits [.member name] (.object (before ++ (name, .null) :: after)) (.object (before ++ after))
  | member {name : String} {before after : List (String × Json)} {path : List Step} {v w : Json} :
    name ∉ before.map Prod.fst → name ∉ after.map Prod.fst → Omits path v w →
    Omits (.member name :: path) (.object (before ++ (name, v) :: after))
      (.object (before ++ (name, w) :: after))
  | item {before after : List Json} {path : List Step} {v w : Json} : Omits path v w →
    Omits (.item before.length :: path) (.array (before ++ v :: after)) (.array (before ++ w :: after))

/-- What is found below a path of names before and after a member is left out: the same, the member
itself and then nothing, or a value that has the member further below. -/
inductive Below (path : List Step) (names : List String) : Option Json → Option Json → Prop
  | same {a : Option Json} : ¬names.map Step.member <+: path → Below path names a a
  | gone : path = names.map Step.member → Below path names (some .null) none
  | inside {v w : Json} {rest : List Step} : path = names.map Step.member ++ rest →
    Omits rest v w → Below path names (some v) (some w)

section Lookup
variable {name other : String} {value : Json} {before after : List (String × Json)}

theorem lookup_eq_none (h : name ∉ before.map Prod.fst) : before.lookup name = none := by
  rw [List.lookup_eq_none_iff]
  intro m hm
  exact bne_iff_ne.mpr fun heq => h (List.mem_map.mpr ⟨m, hm, heq.symm⟩)

theorem lookup_middle (h : name ∉ before.map Prod.fst) :
    (before ++ (name, value) :: after).lookup name = some value := by
  rw [List.lookup_append, lookup_eq_none h, Option.none_or, List.lookup_cons_self]

theorem lookup_around (h : other ≠ name) :
    (before ++ (name, value) :: after).lookup other = (before ++ after).lookup other := by
  rw [List.lookup_append, List.lookup_append, List.lookup_cons, beq_eq_false_iff_ne.mpr h]

end Lookup

section Omits
variable {path : List Step} {v w : Json} {a b : Option Json} {names : List String}

theorem Omits.path_ne_nil (h : Omits path v w) : path ≠ [] := by
  cases h <;> simp

theorem Omits.get? (h : Omits path v w) (name : String) :
    Below path [name] (v.get? name) (w.get? name) := by
  cases h with
  | @here n before after hbefore hafter =>
    by_cases hn : name = n
    · subst hn
      have hv : (before ++ (name, null) :: after).lookup name = some .null := lookup_middle hbefore
      have hw : (before ++ after).lookup name = none := lookup_eq_none (by simp [hbefore, hafter])
      simp only [Json.get?, hv, hw]
      exact .gone rfl
    · simp only [Json.get?, lookup_around hn]
      exact .same (by simp [hn])
  | @member n before after rest v w hbefore hafter h =>
    by_cases hn : name = n
    · subst hn
      simp only [Json.get?, lookup_middle hbefore]
      exact .inside rfl h
    · simp only [Json.get?, lookup_around hn]
      exact .same (by simp [hn])
  | item h => exact .same (by simp)

theorem child?_word {name : String} (h : position? name = none) (v : Json) :
    v.child? name = v.get? name := by
  cases v with
  | array items => simp [child?, Json.get?, h]
  | _ => rfl

theorem Below.step {name : String} {rest : List Step} (h : Below rest names a b) :
    Below (.member name :: rest) (name :: names) a b := by
  cases h with
  | same hnot => exact .same (by simpa using hnot)
  | gone hpath => exact .gone (by simp [hpath])
  | inside hpath h => exact .inside (by simp [hpath]) h

theorem Omits.at? (h : Omits path v w) (hnames : ∀ name ∈ names, position? name = none) :
    Below path names (v.at? names) (w.at? names) := by
  induction names generalizing path v w with
  | nil => exact .inside rfl h
  | cons name names ih =>
    obtain ⟨hname, hnames⟩ := List.forall_mem_cons.mp hnames
    have hbelow := h.get? name
    simp only [Json.at?, child?_word hname]
    generalize v.get? name = a at hbelow ⊢
    generalize w.get? name = b at hbelow ⊢
    cases hbelow with
    | same hnot =>
      exact .same fun hall => hnot (List.IsPrefix.trans ⟨names.map Step.member, rfl⟩ hall)
    | gone hpath =>
      cases names with
      | nil => exact .gone hpath
      | cons next names =>
        have hnull : (some Json.null).bind (fun v => v.at? (next :: names)) = none := rfl
        rw [hnull]
        exact .same fun hall => by simpa [hpath] using hall.length_le
    | inside hpath h => exact hpath ▸ (ih h hnames).step

/-! ## Reading without a null -/

/-- A reader of texts, numbers or the like: it makes nothing of null and does not look into arrays and
objects. -/
structure ReadsLeaves {α : Type} (f : Json → Option α) : Prop where
  null : f .null = none
  array (items : List Json) : f (.array items) = none
  object (members : List (String × Json)) : f (.object members) = none

theorem readsLeaves_text : ReadsLeaves text? := ⟨rfl, fun _ => rfl, fun _ => rfl⟩
theorem readsLeaves_bool : ReadsLeaves bool? := ⟨rfl, fun _ => rfl, fun _ => rfl⟩
theorem readsLeaves_int64 : ReadsLeaves int64? := ⟨rfl, fun _ => rfl, fun _ => rfl⟩

section Reading
variable {α : Type} {f : Json → Option α}

theorem Omits.read (h : Omits path v w) (hf : ReadsLeaves f) : f v = f w := by
  cases h with
  | here => rw [hf.object, hf.object]
  | member => rw [hf.object, hf.object]
  | item => rw [hf.array, hf.array]

/-- A reader of leaves does not see that a member above them is gone. -/
theorem Below.read (h : Below path names a b) (hf : ReadsLeaves f) : a.bind f = b.bind f := by
  cases h with
  | same => rfl
  | gone => exact hf.null
  | inside _ h => exact h.read hf

end Reading

/-- Whether anything is there changes only at the member itself. -/
theorem Below.isSome (h : Below path names a b) :
    path ≠ names.map Step.member ∧ a.isSome = b.isSome ∨
      path = names.map Step.member ∧ a.isSome = true ∧ b.isSome = false := by
  cases h with
  | same hnot => exact .inl ⟨fun hpath => hnot (hpath ▸ List.prefix_rfl), rfl⟩
  | gone hpath => exact .inr ⟨hpath, rfl, rfl⟩
  | inside hpath h => exact .inl ⟨by simp [hpath, h.path_ne_nil], rfl⟩

/-- Two lists of values of which the second lacks the member, in one of the items if the path leads
there. -/
inductive Itemwise (path : List Step) (names : List String) : List Json → List Json → Prop
  | same {vs : List Json} : (∀ i rest, path ≠ names.map Step.member ++ .item i :: rest) →
    Itemwise path names vs vs
  | item {before after : List Json} {v w : Json} {rest : List Step} :
    path = names.map Step.member ++ .item before.length :: rest → Omits rest v w →
    Itemwise path names (before ++ v :: after) (before ++ w :: after)

theorem Below.items (h : Below path names a b) :
    Itemwise path names ((a.bind array?).getD []) ((b.bind array?).getD []) := by
  cases h with
  | same hnot => exact .same fun i rest hpath => hnot ⟨_, hpath.symm⟩
  | gone hpath => exact .same fun i rest hitem => by simp [hpath] at hitem
  | inside hpath h =>
    cases h with
    | here => exact .same fun i rest hitem => by simp [hpath] at hitem
    | member => exact .same fun i rest hitem => by simp [hpath] at hitem
    | item h => exact .item hpath h

/-- Nothing is missing, or a member that is null somewhere below. -/
def Alike (v w : Json) : Prop := v = w ∨ ∃ path, Omits path v w

theorem Itemwise.alike {vs ws : List Json} (h : Itemwise path names vs ws) :
    List.Forall₂ Alike vs ws := by
  have hsame : ∀ vs : List Json, List.Forall₂ Alike vs vs := fun vs =>
    List.forall₂_same.mpr fun _ _ => .inl rfl
  cases h with
  | same => exact hsame vs
  | item _ h => exact List.rel_append (hsame _) (.cons (.inr ⟨_, h⟩) (hsame _))

theorem Below.members {α : Type} (h : Below path names a b) (f : String → String → α) :
    ((a.bind members?).getD []).filterMap (fun m => m.2.text?.map (f m.1)) =
      ((b.bind members?).getD []).filterMap fun m => m.2.text?.map (f m.1) := by
  cases h with
  | same => rfl
  | gone => rfl
  | inside _ h =>
    cases h with
    | here => simp [members?, text?]
    | member _ _ h => simp [members?, List.filterMap_cons, h.read readsLeaves_text]
    | item => rfl

section Alike
variable {α : Type} {f : Json → Option α}

theorem Alike.get? (h : Alike v w) (hf : ReadsLeaves f) (name : String) :
    (v.get? name).bind f = (w.get? name).bind f := by
  obtain rfl | ⟨path, h⟩ := h
  · rfl
  · exact (h.get? name).read hf

theorem Alike.textAt? (h : Alike v w) (hnames : ∀ name ∈ names, position? name = none) :
    v.textAt? names = w.textAt? names := by
  obtain rfl | ⟨path, h⟩ := h
  · rfl
  · exact (h.at? hnames).read readsLeaves_text

end Alike

end Omits

end Json

/-! ## Outcomes -/

/-- Two readings end alike: both in results that are related, or both in a refusal for the same
fault. -/
def Agree {α : Type} (r : α → α → Prop) : Except InvalidObject α → Except InvalidObject α → Prop
  | .ok a, .ok b => r a b
  | .error e, .error e' => e.fault = e'.fault
  | _, _ => False

section Agree
variable {α β : Type} {r : α → α → Prop} {s : β → β → Prop}

theorem Agree.bind {x y : Except InvalidObject α} {f g : α → Except InvalidObject β}
    (h : Agree r x y) (hf : ∀ a b, r a b → Agree s (f a) (g b)) : Agree s (x >>= f) (y >>= g) := by
  cases x <;> cases y
  · exact h
  · exact h.elim
  · exact h.elim
  · exact hf _ _ h

theorem Agree.mapM {vs ws : List Json} {f g : Json → Except InvalidObject α}
    (h : List.Forall₂ Json.Alike vs ws) (hf : ∀ v w, Json.Alike v w → Agree r (f v) (g w)) :
    Agree (List.Forall₂ r) (vs.mapM f) (ws.mapM g) := by
  induction h with
  | nil => exact .nil
  | cons hv _ ih =>
    rw [List.mapM_cons, List.mapM_cons]
    refine (hf _ _ hv).bind fun a b hab => ih.bind fun as bs hall => ?_
    exact .cons hab hall

theorem Agree.imp {s : α → α → Prop} {x y : Except InvalidObject α} (h : Agree r x y)
    (hrs : ∀ a b, r a b → s a b) : Agree s x y := by
  cases x <;> cases y
  · exact h
  · exact h
  · exact h
  · exact hrs _ _ h

theorem Agree.map {x y : Except InvalidObject α} {f g : α → β} (h : Agree r x y)
    (hf : ∀ a b, r a b → s (f a) (g b)) : Agree s (x.map f) (y.map g) := by
  cases x <;> cases y
  · exact h
  · exact h
  · exact h
  · exact hf _ _ h

theorem Agree.error_iff {x y : Except InvalidObject α} (h : Agree r x y) :
    (∃ e, x = .error e) ↔ ∃ e, y = .error e := by
  cases x <;> cases y <;> simp_all [Agree]

end Agree

/-! ## Conditions -/

section Elements
variable {v w : Json}

theorem Json.Alike.textOr (h : v.Alike w) (name : String) : textOr v name = textOr w name :=
  congrArg (fun s : Option String => s.getD "") (h.get? Json.readsLeaves_text name)

theorem Condition.ofJson_agree (owner : EntityId) (h : v.Alike w) :
    Agree Eq (Condition.ofJson owner v) (Condition.ofJson owner w) := by
  have htype := h.get? Json.readsLeaves_text "type"
  have htimes : ∀ name, Json.position? name = none →
      ClusterObject.millisAt? v [name] = ClusterObject.millisAt? w [name] := fun name hname =>
    congrArg (fun s : Option String => s.bind Timestamp.read?) (h.textAt? (by simpa using hname))
  unfold Condition.ofJson
  rw [htype, h.textOr "status", h.textOr "reason", h.textOr "message",
    htimes "lastProbeTime" (by decide), htimes "lastTransitionTime" (by decide)]
  cases (w.get? "type").bind Json.text? <;> rfl

end Elements

/-! ## Containers -/

namespace Container

def statusPath (i : Nat) (rest : List Json.Step) : List Json.Step :=
  [Json.Step.member "status", .member "containerStatuses"] ++ .item i :: rest

/-- A member of whose value only the presence counts for the container: in the status that the
container is joined with, the state that it is in or, if it waits or nothing is known of it, its last
termination. -/
def DependsOn (c : Container) (statuses : List Json) (path : List Json.Step) : Prop :=
  ∃ i s, IsFirst c.name statuses i s ∧
    (c.state ∈ states ∧ path = statusPath i [.member "state", .member c.state] ∨
      c.state ∉ ["running", "terminated"] ∧
        path = statusPath i [.member "lastState", .member "terminated"])

theorem IsFirst.unique {name : String} {statuses : List Json} {i j : Nat} {s t : Json}
    (hi : IsFirst name statuses i s) (hj : IsFirst name statuses j t) : i = j := by
  rcases Nat.lt_trichotomy i j with hlt | heq | hlt
  · exact absurd hi.named (hj.first i hlt s hi.found)
  · exact heq
  · exact absurd hj.named (hi.first j hlt t hj.found)

/-! ### States -/

theorem states_words : ∀ key ∈ states, Json.position? key = none := by decide

theorem stateOf_eq (s : Json) : stateOf (some s) =
    (states.find? fun key => (s.at? ["state", key]).isSome).getD "unknown" := by
  have hword : Json.position? "state" = none := by decide
  have hpresent : ∀ key ∈ states,
      ((((s.get? "state").bind Json.members?).getD []).lookup key).isSome =
        (s.at? ["state", key]).isSome := by
    intro key hkey
    simp only [Json.at?, Json.child?_word hword, Json.child?_word (states_words key hkey)]
    rcases s.get? "state" with - | (_ | _ | _ | _ | _ | members) <;> simp [Json.members?, Json.get?]
  simp only [states, List.forall_mem_cons] at hpresent
  obtain ⟨hrunning, hterminated, hwaiting, -⟩ := hpresent
  simp only [stateOf, states, List.find?_cons, List.find?_nil, Option.bind_some, hrunning,
    hterminated, hwaiting]

theorem getD_unknown {found : Option String} {key : String} (hkey : key ∈ states) :
    found.getD "unknown" = key ↔ found = some key := by
  have hne : "unknown" ≠ key := fun h => absurd (h ▸ hkey) (by decide)
  cases found <;> simp [hne]

/-- What is found first is still found when others are gone. -/
theorem find?_without {f g : String → Bool} {keys : List String}
    (hless : ∀ x ∈ keys, f x = g x ∨ g x = false)
    (hkept : ∀ x, keys.find? f = some x → g x = true) : keys.find? f = keys.find? g := by
  induction keys with
  | nil => rfl
  | cons x keys ih =>
    obtain ⟨hx, hless⟩ := List.forall_mem_cons.mp hless
    rw [List.find?_cons] at hkept
    rw [List.find?_cons, List.find?_cons]
    cases hf : f x with
    | true =>
      have hg : g x = true := hkept x (by rw [hf])
      rw [hg]
    | false =>
      have hg : g x = false := hx.elim (fun h => h ▸ hf) fun h => h
      rw [hf] at hkept
      rw [hg]
      exact ih hless hkept

section Omits
variable {path : List Json.Step} {s t : Json}

theorem present_state (h : Json.Omits path s t) {key : String} (hkey : key ∈ states) :
    path ≠ [Json.Step.member "state", .member key] ∧
        (s.at? ["state", key]).isSome = (t.at? ["state", key]).isSome ∨
      path = [Json.Step.member "state", .member key] ∧
        (s.at? ["state", key]).isSome = true ∧ (t.at? ["state", key]).isSome = false := by
  have hword : Json.position? "state" = none := by decide
  have hwords : ∀ name ∈ ["state", key], Json.position? name = none := by
    simp [hword, states_words key hkey]
  exact (h.at? hwords).isSome

/-- The state changes only with the member that reports it. -/
theorem stateOf_omits (h : Json.Omits path s t) :
    stateOf (some s) = stateOf (some t) ↔ ¬(stateOf (some s) ∈ states ∧
      path = [Json.Step.member "state", .member (stateOf (some s))]) := by
  constructor
  · rintro heq ⟨hmem, hpath⟩
    rcases present_state h hmem with ⟨hne, -⟩ | ⟨-, -, hgone⟩
    · exact hne hpath
    · -- the other status would report the state by what is gone
      have hfound := heq.symm
      rw [stateOf_eq t, getD_unknown hmem] at hfound
      have hthere := List.find?_some hfound
      rw [hgone] at hthere
      cases hthere
  · intro hother
    rw [stateOf_eq, stateOf_eq]
    refine congrArg (fun found : Option String => found.getD "unknown") (find?_without ?_ ?_)
    · intro key hkey
      rcases present_state h hkey with ⟨-, hsame⟩ | ⟨-, -, hgone⟩
      · exact .inl hsame
      · exact .inr hgone
    · intro key hfound
      have hkey : key ∈ states := List.mem_of_find?_eq_some hfound
      rcases present_state h hkey with ⟨-, hsame⟩ | ⟨hpath, -⟩
      · have hthere := List.find?_some hfound
        exact hsame ▸ hthere
      · have hstate : stateOf (some s) = key := by rw [stateOf_eq, hfound, Option.getD_some]
        exact absurd ⟨hstate ▸ hkey, hstate ▸ hpath⟩ hother

/-- Whether there was a termination before changes only with the member that reports it. -/
theorem lastState_omits (h : Json.Omits path s t) :
    (s.at? ["lastState", "terminated"]).isSome = (t.at? ["lastState", "terminated"]).isSome ↔
      path ≠ [Json.Step.member "lastState", .member "terminated"] := by
  have hwords : ∀ name ∈ ["lastState", "terminated"], Json.position? name = none := by decide
  rcases (h.at? hwords).isSome with ⟨hne, hsame⟩ | ⟨hpath, hthere, hgone⟩
  · exact iff_of_true hsame hne
  · exact iff_of_false (by simp [hthere, hgone]) fun hne => hne hpath

end Omits

/-! ### Statuses -/

/-- What a name is joined with before and after a member is left out of the statuses: the same
status, or the one that the member is left out of. -/
inductive Rejoined (name : String) (path : List Json.Step) (statuses : List Json) :
    Option Json → Option Json → Prop
  | same {status : Option Json} :
    (∀ i s rest, IsFirst name statuses i s → path ≠ statusPath i rest) →
    Rejoined name path statuses status status
  | changed {i : Nat} {s t : Json} {rest : List Json.Step} : IsFirst name statuses i s →
    path = statusPath i rest → Json.Omits rest s t → Rejoined name path statuses (some s) (some t)

theorem statusOf_rejoined {path : List Json.Step} {statuses statuses' : List Json} (name : String)
    (h : Json.Itemwise path ["status", "containerStatuses"] statuses statuses') :
    Rejoined name path statuses (statusOf name statuses) (statusOf name statuses') := by
  cases h with
  | same hpath => exact .same fun i s rest _ => hpath i rest
  | @item before after s t rest hpath h =>
    have hname : (s.get? "name").bind Json.text? = (t.get? "name").bind Json.text? :=
      (h.get? "name").read Json.readsLeaves_text
    have hplace : ∀ i more, path = statusPath i more → i = before.length := by
      intro i more heq
      rw [hpath] at heq
      simp [statusPath] at heq
      exact heq.1.symm
    have hat : (before ++ s :: after)[before.length]? = some s := by simp
    unfold statusOf
    rw [List.find?_append, List.find?_append, List.find?_cons, List.find?_cons, ← hname]
    cases hfound : before.find? fun s => (s.get? "name").bind Json.text? == some name with
    | some u =>
      -- the first status of the name comes earlier
      obtain ⟨j, hj⟩ : Joined name before (some u) := hfound ▸ statusOf_joined name before
      obtain ⟨hlt, -⟩ := List.getElem?_eq_some_iff.mp hj.found
      refine .same fun i v more hi heq => ?_
      obtain rfl := hplace i more heq
      refine hi.first j hlt u ?_ hj.named
      rw [List.getElem?_append_left hlt]
      exact hj.found
    | none =>
      have hbefore : Joined name before none := hfound ▸ statusOf_joined name before
      cases hs : (s.get? "name").bind Json.text? == some name with
      | true =>
        refine .changed ⟨hat, Json.bind_text_eq_some.mp (beq_iff_eq.mp hs), ?_⟩ hpath h
        intro j hj u hu
        rw [List.getElem?_append_left hj] at hu
        exact hbefore u (List.mem_of_getElem? hu)
      | false =>
        refine .same fun i v more hi heq => ?_
        obtain rfl := hplace i more heq
        obtain rfl : s = v := Option.some.inj (hat.symm.trans hi.found)
        rw [hi.named] at hs
        simp [Json.text?] at hs

/-! ### Whole containers -/

def ofStatus (pod : ObjectId) (name image : String) (status : Option Json) : Container :=
  { id := .container pod.ns pod.name name
    podId := pod.entityId
    name
    image
    ready := ((status.bind fun s => s.get? "ready").bind Json.bool?).getD false
    restartCount := ((status.bind fun s => s.get? "restartCount").bind Json.int64?).getD 0
    state := stateOf status
    started := (stateOf status != "waiting" && stateOf status != "unknown") ||
      (status.bind fun s => s.at? ["lastState", "terminated"]).isSome }

theorem ofJson_eq (pod : ObjectId) (statuses : List Json) (v : Json) :
    ofJson pod statuses v =
      match (v.get? "name").bind Json.text? with
      | none => .error ⟨.containerWithoutName, v⟩
      | some name => .ok (ofStatus pod name (textOr v "image") (statusOf name statuses)) := rfl

theorem ofStatus_omits {path : List Json.Step} {s t : Json} (pod : ObjectId) (name image : String)
    (h : Json.Omits path s t) :
    ofStatus pod name image (some s) = ofStatus pod name image (some t) ↔
      ¬(stateOf (some s) ∈ states ∧
          path = [Json.Step.member "state", .member (stateOf (some s))] ∨
        stateOf (some s) ∉ ["running", "terminated"] ∧
          path = [Json.Step.member "lastState", .member "terminated"]) := by
  have hready := (h.get? "ready").read Json.readsLeaves_bool
  have hrestarts := (h.get? "restartCount").read Json.readsLeaves_int64
  have hlast := lastState_omits h
  have hstate := stateOf_omits h
  have hmem := stateOf_mem (some s)
  have hfields : ofStatus pod name image (some s) = ofStatus pod name image (some t) ↔
      stateOf (some s) = stateOf (some t) ∧
        ((stateOf (some s) != "waiting" && stateOf (some s) != "unknown") ||
          (s.at? ["lastState", "terminated"]).isSome) =
        ((stateOf (some t) != "waiting" && stateOf (some t) != "unknown") ||
          (t.at? ["lastState", "terminated"]).isSome) := by
    simp [ofStatus, hready, hrestarts]
  rw [hfields]
  by_cases heq : stateOf (some s) = stateOf (some t)
  · rw [← heq]
    have hother := hstate.mp heq
    generalize stateOf (some s) = state at hmem hother ⊢
    simp only [states, List.mem_cons, List.not_mem_nil, or_false] at hmem
    rcases hmem with rfl | rfl | rfl | rfl <;> simp_all
  · have hdepends := not_not.mp (mt hstate.mpr heq)
    exact iff_of_false (fun h => heq h.1) fun h => h (.inl hdepends)

/-- A container stays what it is unless it depends on the member that is left out. -/
theorem ofJson_agree {path : List Json.Step} {statuses statuses' : List Json} {v w : Json}
    (pod : ObjectId) (hspec : v.Alike w)
    (hstatuses : Json.Itemwise path ["status", "containerStatuses"] statuses statuses') :
    Agree (fun c c' => c = c' ↔ ¬c.DependsOn statuses path) (ofJson pod statuses v)
      (ofJson pod statuses' w) := by
  rw [ofJson_eq, ofJson_eq, ← hspec.get? Json.readsLeaves_text "name", ← hspec.textOr "image"]
  cases (v.get? "name").bind Json.text? with
  | none => rfl
  | some name =>
    have hjoined := statusOf_rejoined name hstatuses
    dsimp only
    generalize statusOf name statuses = status at hjoined ⊢
    generalize statusOf name statuses' = status' at hjoined ⊢
    cases hjoined with
    | same hnone =>
      refine iff_of_true rfl ?_
      rintro ⟨i, s, hfirst, ⟨-, hpath⟩ | ⟨-, hpath⟩⟩
      · exact hnone i s _ hfirst hpath
      · exact hnone i s _ hfirst hpath
    | @changed i s t rest hfirst hpath h =>
      refine (ofStatus_omits pod name _ h).trans (not_congr ?_)
      constructor
      · rintro (⟨hmem, rfl⟩ | ⟨hmem, rfl⟩)
        · exact ⟨i, s, hfirst, .inl ⟨hmem, hpath⟩⟩
        · exact ⟨i, s, hfirst, .inr ⟨hmem, hpath⟩⟩
      · rintro ⟨j, u, hj, hdepends⟩
        obtain rfl := hfirst.unique hj
        have hrest : ∀ more, path = statusPath i more → rest = more := by
          intro more heq
          rw [hpath] at heq
          simpa [statusPath] using heq
        exact hdepends.imp (fun h => ⟨h.1, hrest _ h.2⟩) fun h => ⟨h.1, hrest _ h.2⟩

end Container

/-! ## Objects -/

namespace ClusterObject

variable {path : List Json.Step} {v w : Json}

theorem text?_omits (h : Json.Omits path v w) {names : List String}
    (hnames : ∀ name ∈ names, Json.position? name = none) :
    text? ⟨v⟩ names = text? ⟨w⟩ names :=
  (h.at? hnames).read Json.readsLeaves_text

theorem id_omits (h : Json.Omits path v w) : id ⟨v⟩ = id ⟨w⟩ := by
  unfold id ns? name
  rw [text?_omits h (by decide), text?_omits h (by decide)]

theorem created_omits (h : Json.Omits path v w) : created ⟨v⟩ = created ⟨w⟩ := by
  have htext : Json.textAt? v ["metadata", "creationTimestamp"] =
      Json.textAt? w ["metadata", "creationTimestamp"] := text?_omits h (by decide)
  unfold created millis? millisAt?
  rw [htext]

theorem labelsOf_omits (h : Json.Omits path v w) : labelsOf ⟨v⟩ = labelsOf ⟨w⟩ := by
  have hwords : ∀ name ∈ ["metadata", "labels"], Json.position? name = none := by decide
  exact congrArg (List.map Label.of) ((h.at? hwords).members Prod.mk)

theorem items_omits (h : Json.Omits path v w) (names : List String)
    (hnames : ∀ name ∈ names, Json.position? name = none) :
    Json.Itemwise path names (items ⟨v⟩ names) (items ⟨w⟩ names) :=
  (h.at? hnames).items

end ClusterObject

def ClusterObject.statuses (o : ClusterObject) : List Json :=
  o.items ["status", "containerStatuses"]

/-- A member of whose value only the presence counts for one of the containers of an object. -/
def Kind.DependsOn (k : Kind) (o : ClusterObject) (path : List Json.Step) : Prop :=
  k = .pod ∧ ∃ p, Pod.ofObject o = .ok p ∧ ∃ c ∈ p.containers, c.DependsOn o.statuses path

section Objects
variable {path : List Json.Step} {v w : Json}

theorem Condition.mapM_omits (h : Json.Omits path v w) (owner : EntityId) :
    Agree Eq ((ClusterObject.items ⟨v⟩ ["status", "conditions"]).mapM (ofJson owner))
      ((ClusterObject.items ⟨w⟩ ["status", "conditions"]).mapM (ofJson owner)) := by
  have hitems := (ClusterObject.items_omits h ["status", "conditions"] (by decide)).alike
  refine (Agree.mapM hitems fun _ _ => ofJson_agree owner).imp fun cs cs' hall => ?_
  rwa [List.forall₂_eq_eq_eq] at hall

theorem Container.mapM_omits (h : Json.Omits path v w) (pod : ObjectId) :
    Agree (List.Forall₂ fun c c' => c = c' ↔ ¬c.DependsOn (ClusterObject.statuses ⟨v⟩) path)
      ((ClusterObject.items ⟨v⟩ ["spec", "containers"]).mapM
        (ofJson pod (ClusterObject.statuses ⟨v⟩)))
      ((ClusterObject.items ⟨w⟩ ["spec", "containers"]).mapM
        (ofJson pod (ClusterObject.statuses ⟨w⟩))) := by
  have hitems := (ClusterObject.items_omits h ["spec", "containers"] (by decide)).alike
  have hstatuses := ClusterObject.items_omits h ["status", "containerStatuses"] (by decide)
  exact Agree.mapM hitems fun _ _ hspec => ofJson_agree pod hspec hstatuses

theorem Pod.ofObject_omits (h : Json.Omits path v w) :
    Agree (fun p p' => p' = { p with containers := p'.containers } ∧
        List.Forall₂ (fun c c' => c = c' ↔ ¬c.DependsOn (ClusterObject.statuses ⟨v⟩) path)
          p.containers p'.containers)
      (ofObject ⟨v⟩) (ofObject ⟨w⟩) := by
  have htext : ∀ names : List String, (∀ name ∈ names, Json.position? name = none) →
      ClusterObject.text? ⟨v⟩ names = ClusterObject.text? ⟨w⟩ names := fun _ =>
    ClusterObject.text?_omits h
  unfold ofObject ClusterObject.uid ClusterObject.resourceVersion
  rw [← ClusterObject.id_omits h, ← ClusterObject.created_omits h, ← ClusterObject.labelsOf_omits h,
    ← htext ["metadata", "uid"] (by decide), ← htext ["metadata", "resourceVersion"] (by decide),
    ← htext ["status", "phase"] (by decide), ← htext ["spec", "nodeName"] (by decide),
    ← htext ["status", "podIP"] (by decide), ← htext ["status", "qosClass"] (by decide)]
  refine (Condition.mapM_omits h _).bind fun conditions _ heq => ?_
  subst heq
  refine (Container.mapM_omits h _).bind fun containers containers' hall => ?_
  exact ⟨rfl, hall⟩

theorem VolumeClaim.ofObject_omits (h : Json.Omits path v w) :
    Agree Eq (ofObject ⟨v⟩) (ofObject ⟨w⟩) := by
  have htext : ∀ names : List String, (∀ name ∈ names, Json.position? name = none) →
      ClusterObject.text? ⟨v⟩ names = ClusterObject.text? ⟨w⟩ names := fun _ =>
    ClusterObject.text?_omits h
  unfold ofObject ClusterObject.uid ClusterObject.resourceVersion
  rw [← ClusterObject.id_omits h, ← ClusterObject.created_omits h, ← ClusterObject.labelsOf_omits h,
    ← htext ["metadata", "uid"] (by decide), ← htext ["metadata", "resourceVersion"] (by decide),
    ← htext ["status", "phase"] (by decide), ← htext ["spec", "volumeName"] (by decide),
    ← htext ["spec", "volumeMode"] (by decide), ← htext ["spec", "storageClassName"] (by decide)]
  refine (Condition.mapM_omits h _).bind fun conditions _ heq => ?_
  subst heq
  rfl

end Objects

/-- Rows and places to look at tell containers apart. -/
theorem Container.eq_of_rows {cs cs' : List Container} (hrows : cs.map row = cs'.map row)
    (htargets : cs.map target = cs'.map target) : cs = cs' := by
  induction cs generalizing cs' with
  | nil => exact (List.map_eq_nil_iff.mp hrows.symm).symm
  | cons c cs ih =>
    cases cs' with
    | nil => cases hrows
    | cons c' cs' =>
      simp only [List.map_cons, List.cons.injEq] at hrows htargets
      have hc : c = c' := by
        obtain ⟨id, podId, name, image, ready, restartCount, state, started⟩ := c
        obtain ⟨id', podId', name', image', ready', restartCount', state', started'⟩ := c'
        simp_all [row, target, Cell.id_inj]
      rw [hc, ih hrows.2 htargets.2]

/-- Lists are equal exactly where all their elements are. -/
theorem eq_iff_of_forall₂ {α : Type} {P : α → Prop} {as bs : List α}
    (h : List.Forall₂ (fun a b => a = b ↔ ¬P a) as bs) : as = bs ↔ ¬∃ a ∈ as, P a := by
  induction h with
  | nil => simp
  | cons hab _ ih => rw [List.cons.injEq, hab, ih, List.exists_mem_cons_iff, not_or]

theorem Pod.mapped_eq_iff {p p' : Pod} (h : p' = { p with containers := p'.containers }) :
    p.mapped = p'.mapped ↔ p.containers = p'.containers := by
  have hrows : ∀ p : Pod, p.mapped.rowsIn Schema.container = p.containers.map Container.row :=
    fun p => List.append_nil _
  constructor
  · intro heq
    refine Container.eq_of_rows ?_ (congrArg Mapped.targets heq)
    rw [← hrows, ← hrows, heq]
  · intro heq
    rw [h, ← heq]

section Objects
variable {path : List Json.Step} {v w : Json}

/-- A pod is mapped to the same exactly if none of its containers depends on the member. -/
theorem Pod.agree_iff (h : Json.Omits path v w) :
    Agree Eq (Kind.pod.map ⟨v⟩) (Kind.pod.map ⟨w⟩) ↔ ¬Kind.DependsOn .pod ⟨v⟩ path := by
  have hpods := ofObject_omits h
  unfold Kind.map Kind.DependsOn
  cases hv : ofObject ⟨v⟩ with
  | error e =>
    cases hw : ofObject ⟨w⟩ with
    | error e' =>
      rw [hv, hw] at hpods
      exact iff_of_true hpods (by simp)
    | ok p' =>
      rw [hv, hw] at hpods
      exact hpods.elim
  | ok p =>
    cases hw : ofObject ⟨w⟩ with
    | error e =>
      rw [hv, hw] at hpods
      exact hpods.elim
    | ok p' =>
      rw [hv, hw] at hpods
      obtain ⟨hrest, hcontainers⟩ := hpods
      show p.mapped = p'.mapped ↔ _
      rw [mapped_eq_iff hrest, eq_iff_of_forall₂ hcontainers]
      simp

/-- Null means absent, but where only the presence of a member counts. Without a member that is null,
wherever it stands, an object is refused or mapped as before, and what it is mapped to is the same,
row by row and container by container, exactly if the member is neither the reported state of a
container nor, for a container that waits or of which nothing is known, its last termination. -/
theorem null_absent_iff (h : Json.Omits path v w) (k : Kind) :
    ((∃ e, k.map ⟨v⟩ = .error e) ↔ ∃ e, k.map ⟨w⟩ = .error e) ∧
    (Agree Eq (k.map ⟨v⟩) (k.map ⟨w⟩) ↔ ¬k.DependsOn ⟨v⟩ path) := by
  cases k with
  | pod =>
    have hended : Agree (fun _ _ => True) (Kind.pod.map ⟨v⟩) (Kind.pod.map ⟨w⟩) :=
      (Pod.ofObject_omits h).map fun _ _ _ => trivial
    exact ⟨hended.error_iff, Pod.agree_iff h⟩
  | claim =>
    have hclaims : Agree Eq (Kind.claim.map ⟨v⟩) (Kind.claim.map ⟨w⟩) :=
      (VolumeClaim.ofObject_omits h).map fun _ _ => congrArg VolumeClaim.mapped
    refine ⟨hclaims.error_iff, iff_of_true hclaims ?_⟩
    rintro ⟨hkind, -⟩
    cases hkind

end Objects

/-- A pod with one container and one status. -/
def podWith (status : Json) : Json :=
  .object [("metadata", .object [("name", .text "web-1"), ("namespace", .text "default")]),
    ("spec", .object [("containers", .array [.object [("name", .text "nginx")]])]),
    ("status", .object [("containerStatuses", .array [status])])]

theorem podWith_omits {path : List Json.Step} {s t : Json} (h : Json.Omits path s t) :
    Json.Omits (Container.statusPath 0 path) (podWith s) (podWith t) := by
  have hstatuses : Json.Omits (.item 0 :: path) (.array [s]) (.array [t]) :=
    @Json.Omits.item [] [] _ _ _ h
  have hstatus := @Json.Omits.member "containerStatuses" [] [] _ _ _ (by simp) (by simp) hstatuses
  exact @Json.Omits.member "status" [("metadata", _), ("spec", _)] [] _ _ _ (by simp) (by simp)
    hstatus

/-- It applies to a status that says null of whether its container is ready. -/
theorem null_absent_iff_ready :
    let path := Container.statusPath 0 [.member "ready"]
    let v := podWith (.object [("name", .text "nginx"), ("ready", .null)])
    let w := podWith (.object [("name", .text "nginx")])
    Json.Omits path v w ∧ Agree Eq (Kind.pod.map ⟨v⟩) (Kind.pod.map ⟨w⟩) := by
  intro path v w
  have homits : Json.Omits path v w :=
    podWith_omits (@Json.Omits.here "ready" [("name", _)] [] (by simp) (by simp))
  refine ⟨homits, (null_absent_iff homits .pod).2.mpr ?_⟩
  rintro ⟨-, p, -, c, -, i, s, -, ⟨-, hpath⟩ | ⟨-, hpath⟩⟩ <;> simp [path, Container.statusPath] at hpath

/-- A state that is null is taken for the state of the container, which then passes for one that
runs. A last termination that is null lets a container that waits pass for one that was started. -/
theorem null_present :
    (let v := podWith (.object [("name", .text "nginx"), ("state", .object [("running", .null)])])
     let w := podWith (.object [("name", .text "nginx"), ("state", .object [])])
     Json.Omits (Container.statusPath 0 [.member "state", .member "running"]) v w ∧
      ¬Agree Eq (Kind.pod.map ⟨v⟩) (Kind.pod.map ⟨w⟩)) ∧
    (let v := podWith (.object [("lastState", .object [("terminated", .null)]),
        ("name", .text "nginx"), ("state", .object [("waiting", .object [])])])
     let w := podWith (.object [("lastState", .object []), ("name", .text "nginx"),
        ("state", .object [("waiting", .object [])])])
     Json.Omits (Container.statusPath 0 [.member "lastState", .member "terminated"]) v w ∧
      ¬Agree Eq (Kind.pod.map ⟨v⟩) (Kind.pod.map ⟨w⟩)) := by
  have hnull : ∀ name, Json.Omits [.member name] (.object [(name, .null)]) (.object []) := fun name =>
    @Json.Omits.here name [] [] (by simp) (by simp)
  refine ⟨⟨podWith_omits ?_, fun h => ?_⟩, ⟨podWith_omits ?_, fun h => ?_⟩⟩
  · exact @Json.Omits.member "state" [("name", _)] [] _ _ _ (by simp) (by simp) (hnull "running")
  · have hstarted : [true] = [false] :=
      congrArg (fun m : Mapped => m.targets.map SnapshotTarget.started) h
    cases hstarted
  · exact @Json.Omits.member "lastState" [] [("name", _), ("state", _)] _ _ _ (by simp) (by simp)
      (hnull "terminated")
  · have hstarted : [true] = [false] :=
      congrArg (fun m : Mapped => m.targets.map SnapshotTarget.started) h
    cases hstarted

end KubeLedger
