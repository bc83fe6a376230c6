import KubeLedger.Proofs.Contents

/- Sessions of an informer. A session begins with the answer to a listing and lasts until a failure.
   What an informer is at in a session tells what it has handed on and received since (`Session`),
   and every move keeps this. So a complete listing is announced only after all of its items and
   nothing else, and a watch goes on from the version that was received last, also where the object
   that was received last has none. -/
namespace KubeLedger.Informer

/-- The session of a course: it was opened by a listing that has a version, and `since` happened
after that. -/
structure Opened (c : Course) (l : Listing) (version : String) (since : Course) : Prop where
  split : ∃ earlier, c = earlier ++ ⟨.listing, .listed (.ok l)⟩ :: since
  version_eq : l.version = some version
  /-- No other listing was asked for. -/
  one : ∀ x ∈ since, x.state ≠ .listing

/-- In a session, items of its listing have been handed on, and nothing else has happened. -/
structure Shown (i : Informer) (items : List Json) (since : Course) : Prop where
  usable : ∀ item ∈ items, i.Accepts item
  taken : ∀ x ∈ since, x.signal = .accepted
  feed_eq : feed since = items.map i.shows

def idsOf (i : Informer) (items : List Json) : IdSet := .ofList (items.map fun j => (i.object j).id)

def State.resume? : State → Option String
  | .opening version => some version
  | .watching version latest => some (latest.getD version)
  | .forwarding _ _ latest => some latest
  | _ => none

/-- What a state says of the course to it. -/
inductive Session (i : Informer) (c : Course) : State → Prop
  | failed {s : State} : s.IsFailed → Session i c s
  | ended {before : Course} {x : Happening} : c = before ++ [x] →
    x.signal = .cancelled ∨ x.signal = .refused → Session i c .ended
  | replaying {l : Listing} {version : String} {since : Course} {done rest : List Json}
    {item : Json} : Opened c l version since → l.items = done ++ item :: rest → i.Accepts item →
    Shown i done since →
    Session i c (.replaying (i.shows item) version (i.idsOf (done ++ [item])) rest)
  | marking {l : Listing} {version : String} {since : Course} : Opened c l version since →
    Shown i l.items since → Session i c (.marking (i.idsOf l.items) version)
  | marked {l : Listing} {version : String} {since : Course} {listed : IdSet} {s : State} :
    Opened c l version since → ⟨.marking listed version, .accepted⟩ ∈ since →
    s.resume? = some ((received since).getLastD version) →
    (∀ ids, s.handed? ≠ some (.listed ids)) → Session i c s

section Session
variable {i : Informer} {c since before after : Course} {s s' : State} {g : Signal} {l : Listing}
  {v version : String} {item : Json} {items done rest : List Json} {x : Happening}

theorem Opened.snoc (h : Opened c l version since) (hx : x.state ≠ .listing) :
    Opened (c ++ [x]) l version (since ++ [x]) := by
  obtain ⟨earlier, hsplit⟩ := h.split
  refine ⟨⟨earlier, ?_⟩, h.version_eq, ?_⟩
  · rw [hsplit, List.append_assoc, List.cons_append]
  · exact List.forall_mem_append.mpr ⟨h.one, List.forall_mem_singleton.mpr hx⟩

theorem Shown.snoc (h : Shown i done since) (hitem : i.Accepts item) (hx : x.signal = .accepted)
    (hfeed : x.taken? = some (i.shows item)) : Shown i (done ++ [item]) (since ++ [x]) where
  usable := List.forall_mem_append.mpr ⟨h.usable, List.forall_mem_singleton.mpr hitem⟩
  taken := List.forall_mem_append.mpr ⟨h.taken, List.forall_mem_singleton.mpr hx⟩
  feed_eq := by
    rw [feed_append, h.feed_eq, List.map_append]
    simp only [feed, List.filterMap_cons, hfeed, List.filterMap_nil, List.map_cons, List.map_nil]

theorem received_snoc : received (since ++ [x]) = received since ++ x.version?.toList := by
  rw [received_append]
  unfold received
  cases hx : x.version? <;> simp [hx]

theorem Shown.received_eq (h : Shown i items since) : received since = [] := by
  refine List.filterMap_eq_nil_iff.mpr fun x hx => ?_
  rw [Happening.version?, h.taken x hx]

theorem idsOf_snoc (done : List Json) (item : Json) :
    i.idsOf (done ++ [item]) = (i.idsOf done).insert (i.object item).id := by
  unfold idsOf IdSet.ofList
  rw [List.map_append, List.foldl_append]
  rfl

theorem Opened.replay (h : Opened c l version since) (hitems : l.items = done ++ items)
    (hshown : Shown i done since) : Session i c (i.replay version (i.idsOf done) items) := by
  cases items with
  | nil =>
    rw [List.append_nil] at hitems
    subst hitems
    exact .marking h hshown
  | cons item rest =>
    by_cases hitem : i.Accepts item
    · rw [replay_of_accepts hitem, ← idsOf_snoc]
      exact .replaying h hitems hitem hshown
    · rw [replay_of_not_accepts hitem]
      exact .failed .resting

/-- In a state from which a watch goes on, the session has come past its marker, and the watch goes
on from the version that was received last. -/
theorem Session.past (h : Session i c s) (hs : s.resume? = some v) :
    ∃ l version since listed, Opened c l version since ∧
      (⟨.marking listed version, .accepted⟩ : Happening) ∈ since ∧
      v = (received since).getLastD version := by
  cases h with
  | marked hopened hmarker hresume _ =>
    exact ⟨_, _, _, _, hopened, hmarker, Option.some.inj (hs.symm.trans hresume)⟩
  | failed hfailed => cases hfailed <;> cases hs
  | ended | replaying | marking => cases hs

/-- Past the marker, a version that is received is the one to go on from. -/
theorem Session.going (h : Session i c s) (hs : s.resume? = some v)
    (hs' : s'.resume? = some ((Happening.version? ⟨s, g⟩).getD v))
    (hnew : ∀ ids, s'.handed? ≠ some (.listed ids)) : Session i (c ++ [⟨s, g⟩]) s' := by
  obtain ⟨l, version, since, listed, hopened, hmarker, rfl⟩ := h.past hs
  have hne : s ≠ .listing := by
    rintro rfl
    cases hs
  refine .marked (hopened.snoc hne) (List.mem_append_left _ hmarker) ?_ hnew
  rw [hs', received_snoc]
  cases Happening.version? ⟨s, g⟩ <;> simp

theorem Session.step (h : Session i c s) (hg : s.Awaits g) :
    Session i (c ++ [⟨s, g⟩]) (i.step s g) := by
  -- which constructor describes the next state follows from the move, not from the state
  have hmove := step_move (i := i) hg
  generalize i.step s g = s' at hmove
  cases hmove with
  | failed hfailed => exact .failed hfailed
  | stopped hwhy => exact .ended rfl hwhy
  | @begun l version hversion =>
    have hopened : Opened (c ++ [⟨.listing, .listed (.ok l)⟩]) l version [] :=
      ⟨⟨c, rfl⟩, hversion, fun x hx => absurd hx List.not_mem_nil⟩
    have hshown : Shown i [] [] :=
      ⟨fun j hj => absurd hj List.not_mem_nil, fun x hx => absurd hx List.not_mem_nil, rfl⟩
    exact hopened.replay rfl hshown
  | replayed =>
    cases h with
    | failed hfailed => cases hfailed
    | marked _ _ hresume _ => cases hresume
    | replaying hopened hitems hitem hshown =>
      rw [List.append_cons] at hitems
      exact Opened.replay (hopened.snoc nofun) hitems (hshown.snoc hitem rfl rfl)
  | marked =>
    cases h with
    | failed hfailed => cases hfailed
    | marked _ _ hresume _ => cases hresume
    | marking hopened hshown =>
      -- nothing was received while the listing was handed on, so its version is the last
      refine .marked (hopened.snoc nofun) (List.mem_append_right _ List.mem_cons_self) ?_ nofun
      rw [received_snoc, hshown.received_eq]
      rfl
  | opened => exact h.going rfl rfl nofun
  | told hnotice =>
    refine h.going rfl ?_ nofun
    simp only [State.resume?, Happening.version?, hnotice, Option.map_some, Option.getD_some]
  | forwarded => exact h.going rfl rfl nofun
  | finished => exact h.going rfl rfl nofun

theorem Goes.session (h : i.Goes .listing c s) : Session i c s :=
  h.invariant Session.step (.failed .listing)

theorem mem_idsOf {id : ObjectId} :
    (i.idsOf items).contains id = true ↔ ∃ item ∈ items, (i.object item).id = id := by
  unfold idsOf
  rw [IdSet.contains_ofList, List.mem_map]

/-- A listing is announced only directly after the objects of all its items, each of them usable,
and under exactly their names. A watch is started only in a session whose announcement was taken.
The first call after a failure is a listing. An informer ends only where it is cancelled or nobody
reads its feed. -/
theorem listing_complete (h : i.Goes .listing c s) :
    (∀ ids, s.handed? = some (.listed ids) → ∃ l version since, Opened c l version since ∧
      Shown i l.items since ∧
      ∀ id, ids.contains id = true ↔ ∃ item ∈ l.items, (i.object item).id = id) ∧
    (∀ version, s = .opening version → ∃ l first since ids, Opened c l first since ∧
      (⟨.marking ids first, .accepted⟩ : Happening) ∈ since) ∧
    (∀ before x after, c = before ++ x :: after → x.Fails i →
      ∀ call, (calls after s).head? = some call → call = .list) ∧
    (s = .ended → ∃ before x, c = before ++ [x] ∧
      (x.signal = .cancelled ∨ x.signal = .refused)) := by
  refine ⟨fun ids hids => ?_, ?_, ?_, ?_⟩
  · cases h.session with
    | marking hopened hshown =>
      obtain rfl : i.idsOf _ = ids := FeedEvent.listed.inj (Option.some.inj hids)
      exact ⟨_, _, _, hopened, hshown, fun id => mem_idsOf⟩
    | failed hfailed => cases hfailed <;> cases hids
    | marked _ _ _ hnew => exact absurd hids (hnew ids)
    | ended | replaying => cases hids
  · rintro version rfl
    obtain ⟨l, first, since, ids, hopened, hmarker, -⟩ := h.session.past rfl
    exact ⟨l, first, since, ids, hopened, hmarker⟩
  · rintro before x after rfl hfails call hcall
    obtain ⟨_, -, hrest⟩ := goes_append.mp h
    obtain ⟨rfl, -, hafter⟩ := goes_cons.mp hrest
    exact hfails.bound.first_call hafter hcall
  · rintro rfl
    cases h.session with
    | ended hsplit hwhy => exact ⟨_, _, hsplit, hwhy⟩
    | failed hfailed => cases hfailed
    | marked _ _ hresume _ => cases hresume

end Session

def pods : Informer := ⟨.pod, none, 10000⟩

/-- An object that has only a name. -/
def named (name : String) : Json := .object [("metadata", .object [("name", .text name)])]

theorem listing_complete_one : ∃ c ids, pods.Goes .listing c (.marking ids "5") ∧
    ∃ l version since, Opened c l version since ∧ Shown pods l.items since ∧
      ∀ id, ids.contains id = true ↔ ∃ item ∈ l.items, (pods.object item).id = id := by
  have hitem : pods.Accepts (named "web-1") := accepts_iff.mpr rfl
  have hlisted : pods.step .listing (.listed (.ok ⟨some "5", [named "web-1"]⟩)) =
      .replaying (pods.shows (named "web-1")) "5"
        (IdSet.empty.insert (pods.object (named "web-1")).id) [] :=
    replay_of_accepts hitem
  have hgoes : pods.Goes .listing
      [⟨.listing, .listed (.ok ⟨some "5", [named "web-1"]⟩)⟩,
        ⟨.replaying (pods.shows (named "web-1")) "5"
          (IdSet.empty.insert (pods.object (named "web-1")).id) [], .accepted⟩]
      (.marking (IdSet.empty.insert (pods.object (named "web-1")).id) "5") := by
    refine .step (.listed _) ?_
    rw [hlisted]
    exact .step (.accepted rfl) (.stay _)
  exact ⟨_, _, hgoes, (listing_complete hgoes).1 _ rfl⟩

/-! ## Versions -/

/-- The last of some versions is the last one that is not empty, exactly if it is not empty itself
or they all are. -/
theorem getLastD_eq_filter_iff (versions : List String) (first : String) :
    versions.getLastD first = (versions.filter (· ≠ "")).getLastD first ↔
      versions.getLast? ≠ some "" ∨ first = "" ∧ ∀ v ∈ versions, v = "" := by
  obtain rfl | ⟨before, last, rfl⟩ := List.eq_nil_or_concat' versions
  · simp
  by_cases hlast : last = ""
  · -- the last one is empty, so what the filter leaves decides
    subst hlast
    have hleft : (before ++ [""]).filter (· ≠ "") = before.filter (· ≠ "") := by simp
    rw [hleft, List.getLastD_concat]
    constructor
    · intro heq
      obtain hnil | ⟨L, b, hL⟩ := List.eq_nil_or_concat' (before.filter (· ≠ ""))
      · rw [hnil] at heq
        refine .inr ⟨heq.symm, fun v hv => ?_⟩
        obtain hv | hv := List.mem_append.mp hv
        · simpa using List.filter_eq_nil_iff.mp hnil v hv
        · exact List.mem_singleton.mp hv
      · have hb : b ∈ before.filter (· ≠ "") := hL ▸ List.mem_append_right L List.mem_cons_self
        rw [hL, List.getLastD_concat] at heq
        simp [← heq] at hb
    · rintro (hlast | ⟨rfl, hall⟩)
      · simp at hlast
      · have hnil : before.filter (· ≠ "") = [] := by
          refine List.filter_eq_nil_iff.mpr fun v hv => ?_
          simpa using hall v (List.mem_append_left _ hv)
        rw [hnil]
        rfl
  · simp [hlast]

/-- A watch goes on from the version that was received last in its session, or from that of the
listing. This is the last version that is not empty exactly if the last object received had a
version, or none has come with one since, nor did the listing. -/
theorem resume_iff {i : Informer} {c : Course} {version : String}
    (h : i.Goes .listing c (.opening version)) :
    ∃ l first since, Opened c l first since ∧
      version = (received since).getLastD first ∧
      (version = ((received since).filter (· ≠ "")).getLastD first ↔
        (received since).getLast? ≠ some "" ∨ first = "" ∧ ∀ v ∈ received since, v = "") := by
  obtain ⟨l, first, since, ids, hopened, -, hversion⟩ := h.session.past rfl
  refine ⟨l, first, since, hopened, hversion, ?_⟩
  rw [hversion]
  exact getLastD_eq_filter_iff _ _

/-- The watch of an object without a version has ended after a listing at version 5. -/
def unversioned : Course :=
  [⟨.listing, .listed (.ok ⟨some "5", []⟩)⟩, ⟨.marking .empty "5", .accepted⟩,
    ⟨.opening "5", .opened none⟩, ⟨.watching "5" none, .delivered (.ok (.added (named "web-1")))⟩,
    ⟨.forwarding (.notification (.seen ⟨named "web-1"⟩)) "5" "", .accepted⟩,
    ⟨.watching "5" (some ""), .finished⟩]

theorem goes_unversioned : pods.Goes .listing unversioned (.opening "") :=
  .step (.listed _) <| .step (.accepted rfl) <| .step (.opened _ _) <| .step (.delivered _ _ _) <|
    .step (.accepted rfl) <| .step (.finished _ _) <| .stay _

theorem resume_iff_unversioned : ∃ l first since, Opened unversioned l first since ∧
    "" = (received since).getLastD first ∧
    ("" = ((received since).filter (· ≠ "")).getLastD first ↔
      (received since).getLast? ≠ some "" ∨ first = "" ∧ ∀ v ∈ received since, v = "") :=
  resume_iff goes_unversioned

/-- An object without a version makes the next watch start from nowhere, although the version of
the listing is known. -/
theorem resume_loses_version : pods.Goes .listing unversioned (.opening "") ∧
    ∃ l since, Opened unversioned l "5" since ∧
      ((received since).filter (· ≠ "")).getLastD "5" = "5" := by
  refine ⟨goes_unversioned, ⟨some "5", []⟩, unversioned.tail, ⟨⟨[], rfl⟩, rfl, ?_⟩, ?_⟩
  · simp [unversioned]
  · rfl

end KubeLedger.Informer
