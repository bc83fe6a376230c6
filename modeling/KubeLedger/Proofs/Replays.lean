import KubeLedger.Proofs.Servers
import KubeLedger.Proofs.Sessions

/- Replaying a feed. A copy of the cluster's objects takes what a feed says: an object that was seen
   is set, one that was deleted is dropped, and a listing drops all others (`FeedEvent.replay`).

   `Server.Feeds` is an informer at an honest server: listings show the objects at some version that
   is not older than what was told before, a watch tells the changes after its version one by one,
   and any call may fail and any watch end. Then whatever the copy was at first, it has exactly the
   objects of the server whenever a listing was announced or a change handed on. The induction
   carries what each state of the informer means for the copy (`Tracked`). -/
namespace KubeLedger

open Informer

abbrev Copy := String → Option ClusterObject

def FeedEvent.replay (copy : Copy) : FeedEvent → Copy
  | .notification n => fun key => if key = n.key then n.object else copy key
  | .listed ids => fun key => if ids.toList.any fun id => id.key = key then copy key else none

/-- Whether a copy has exactly the given objects, up to their types. -/
def Copied (copy : Copy) (objects : ObjectId → Option ClusterObject) : Prop :=
  ∀ key value, (∃ o, copy key = some o ∧ o.content = value) ↔
    ∃ id o, id.key = key ∧ objects id = some o ∧ o.content = value

/-- An event that was handed on: the version of the listing or change that it is of, and whether it
is of an item of a listing that is not announced yet. -/
structure Emission where
  event : FeedEvent
  version : Nat
  isItem : Bool

def replayed (copy : Copy) (feed : List Emission) : Copy :=
  (feed.map Emission.event).foldl FeedEvent.replay copy

/-- Whether a state hands on an item of a listing. -/
def Informer.State.isReplaying : State → Bool
  | .replaying _ _ _ _ => true
  | _ => false

namespace Server

/-- The items of a listing are the objects of a namespace at a version, up to their types. -/
structure Lists (s : Server) (ns : Option String) (v : Nat) (items : List Json) : Prop where
  sound : ∀ item ∈ items, ∃ id o, s.objects ns v id = some o ∧ item.untyped = o.content
  complete : ∀ id o, s.objects ns v id = some o → ∃ item ∈ items, item.untyped = o.content

/-- What a server that has come to a version answers, and the version that it comes to. -/
inductive Answers (s : Server) (ns : Option String) : State → Nat → Signal → Nat → Prop
  | listed {u v : Nat} {l : Listing} : u ≤ v → l.version = some (s.text v) →
    s.Lists ns v l.items → Answers s ns .listing u (.listed (.ok l)) v
  | unlisted (u : Nat) (e : ClientError) : Answers s ns .listing u (.listed (.error e)) u
  /-- A watch starts at the version that was asked for, or anywhere if that is no version. -/
  | opened {version : String} {u v : Nat} : s.text v = version ∨ (∀ w, s.text w ≠ version) →
    Answers s ns (.opening version) u (.opened none) v
  | unopened (version : String) (u : Nat) (e : ClientError) :
    Answers s ns (.opening version) u (.opened (some e)) u
  | told {version : String} {latest : Option String} {u : Nat} {c : Change} {e : WatchEvent} :
    s.IsNext ns u c → c.IsTold e →
    Answers s ns (.watching version latest) u (.delivered (.ok e)) c.version
  | reported (version : String) (latest : Option String) (u : Nat) (e : ApiError) :
    Answers s ns (.watching version latest) u (.delivered (.ok (.error e))) u
  | broken (version : String) (latest : Option String) (u : Nat) (e : ClientError) :
    Answers s ns (.watching version latest) u (.delivered (.error e)) u
  | finished (version : String) (latest : Option String) (u : Nat) :
    Answers s ns (.watching version latest) u .finished u

/-- The feed of an informer at a server, the state of the informer and the version to which the
server has come. -/
inductive Feeds (s : Server) (i : Informer) : List Emission → State → Nat → Prop
  | start (u : Nat) : Feeds s i [] .listing u
  | said {fs : List Emission} {st : State} {u u' : Nat} {g : Signal} :
    Feeds s i fs st u → s.Answers i.ns st u g u' → Feeds s i fs (i.step st g) u'
  | took {fs : List Emission} {st : State} {u : Nat} {e : FeedEvent} :
    Feeds s i fs st u → st.handed? = some e →
    Feeds s i (fs ++ [⟨e, u, st.isReplaying⟩]) (i.step st .accepted) u
  | left {fs : List Emission} {st : State} {u : Nat} {g : Signal} :
    Feeds s i fs st u → st.Awaits g → g = .rested ∨ g = .refused ∨ g = .cancelled →
    Feeds s i fs (i.step st g) u

/-! ## Copies -/

section Copies
variable {s : Server} {ns : Option String} {u v : Nat} {c : Change} {id : ObjectId}
  {o : ClusterObject} {copy : Copy} {items done : List Json} {item a b : Json} {i : Informer}

theorem objects_name (h : s.objects ns v id = some o) : NoSlash id.name := by
  obtain ⟨c, hc, rfl, rfl⟩ := objects_mem h
  exact s.names c hc

theorem replay_change (copy : Copy) (c : Change) (key : String) :
    FeedEvent.replay copy (.notification c.notification) key =
      if key = c.object.id.key then c.left? else copy key := by
  unfold Change.notification Change.left?
  cases c.isRemoval <;> rfl

theorem copied_change (h : Copied copy (s.objects ns u)) (hc : s.IsNext ns u c) :
    Copied (FeedEvent.replay copy (.notification c.notification)) (s.objects ns c.version) := by
  intro key value
  rw [replay_change]
  by_cases hkey : key = c.object.id.key
  · -- names hold no slash, so the key stands for the object of the change only
    rw [if_pos hkey]
    constructor
    · rintro ⟨o, hleft, hvalue⟩
      exact ⟨c.object.id, o, hkey.symm, hc.objects_self.trans hleft, hvalue⟩
    · rintro ⟨id, o, hid, ho, hvalue⟩
      obtain rfl : id = c.object.id :=
        ObjectId.key_inj_of_names (objects_name ho) (s.names c hc.mem) (hid.trans hkey)
      exact ⟨o, hc.objects_self.symm.trans ho, hvalue⟩
  · rw [if_neg hkey, h key value]
    have hother : ∀ id : ObjectId, id.key = key →
        s.objects ns c.version id = s.objects ns u id := by
      rintro id rfl
      exact hc.objects_other fun hid => hkey (congrArg ObjectId.key hid)
    constructor
    · rintro ⟨id, o, hid, ho, hvalue⟩
      exact ⟨id, o, hid, (hother id hid).trans ho, hvalue⟩
    · rintro ⟨id, o, hid, ho, hvalue⟩
      exact ⟨id, o, hid, (hother id hid).symm.trans ho, hvalue⟩

theorem Lists.object (h : s.Lists ns v items) (i : Informer) (hitem : item ∈ items) :
    i.Accepts item ∧
      ∃ o, s.objects ns v (i.object item).id = some o ∧ item.untyped = o.content := by
  obtain ⟨id, o, ho, hcontent⟩ := h.sound item hitem
  obtain ⟨c, hc, rfl, rfl⟩ := objects_mem ho
  have hsame : (i.object item).content = c.object.content := (i.content_object item).trans hcontent
  refine ⟨ClusterObject.ofJson_of_content hsame (s.usable c hc), c.object, ?_, hcontent⟩
  rw [ClusterObject.id_of_content hsame]
  exact ho

theorem Lists.content_unique (h : s.Lists ns v items) (ha : a ∈ items) (hb : b ∈ items)
    (hkey : (i.object a).id.key = (i.object b).id.key) : a.untyped = b.untyped := by
  obtain ⟨-, o, ho, hcontent⟩ := h.object i ha
  obtain ⟨-, o', ho', hcontent'⟩ := h.object i hb
  -- two items of one key are of one object, and a version has one state of it
  have hid := ObjectId.key_inj_of_names (objects_name ho) (objects_name ho') hkey
  rw [hid, ho'] at ho
  obtain rfl := Option.some.inj ho
  exact hcontent.trans hcontent'.symm

def Has (i : Informer) (copy : Copy) (items : List Json) : Prop :=
  ∀ item ∈ items, ∃ o, copy (i.object item).id.key = some o ∧ o.content = item.untyped

theorem Has.snoc (h : Has i copy done) (hlists : s.Lists ns v items)
    (hdone : ∀ a ∈ done, a ∈ items) (hitem : item ∈ items) :
    Has i (FeedEvent.replay copy (i.shows item)) (done ++ [item]) := by
  have hall : ∀ a ∈ done ++ [item], a ∈ items :=
    List.forall_mem_append.mpr ⟨hdone, List.forall_mem_singleton.mpr hitem⟩
  intro a ha
  change ∃ o, (if (i.object a).id.key = (i.object item).id.key then some (i.object item)
    else copy (i.object a).id.key) = some o ∧ o.content = a.untyped
  split
  · -- an item of the same key may have been taken before, but it had the same content
    rename_i hkey
    refine ⟨i.object item, rfl, ?_⟩
    rw [content_object, hlists.content_unique (hall a ha) hitem hkey]
  · rename_i hkey
    obtain ha | ha := List.mem_append.mp ha
    · exact h a ha
    · exact absurd (congrArg (fun b => (i.object b).id.key) (List.mem_singleton.mp ha)) hkey

/-- Once all items were taken, dropping the rest leaves the objects of the server. -/
theorem copied_listed (h : Has i copy items) (hlists : s.Lists ns v items) :
    Copied (FeedEvent.replay copy (.listed (i.idsOf items))) (s.objects ns v) := by
  have hmem : ∀ id, id ∈ (i.idsOf items).toList ↔ ∃ item ∈ items, (i.object item).id = id :=
    fun id => (IdSet.mem_toList (IdSet.grouped_ofList _)).trans mem_idsOf
  intro key value
  have hreplay : FeedEvent.replay copy (.listed (i.idsOf items)) key =
      if ∃ item ∈ items, (i.object item).id.key = key then copy key else none := by
    unfold FeedEvent.replay
    refine if_congr ?_ rfl rfl
    simp [hmem]
  rw [hreplay]
  constructor
  · -- what the marker leaves was taken from an item, and each item shows an object
    rintro ⟨o, ho, hvalue⟩
    split at ho
    · rename_i hlisted
      obtain ⟨item, hitem, rfl⟩ := hlisted
      obtain ⟨-, o', ho', hcontent⟩ := hlists.object i hitem
      obtain ⟨o'', ho'', hcontent'⟩ := h item hitem
      obtain rfl := Option.some.inj (ho.symm.trans ho'')
      exact ⟨_, o', rfl, ho', (hcontent.symm.trans hcontent'.symm).trans hvalue⟩
    · cases ho
  · -- each object has an item, which was taken and is under the names of the marker
    rintro ⟨id, o, rfl, ho, hvalue⟩
    obtain ⟨item, hitem, hcontent⟩ := hlists.complete id o ho
    obtain ⟨-, o', ho', hcontent'⟩ := hlists.object i hitem
    obtain ⟨o'', ho'', hcontent''⟩ := h item hitem
    have hid : (i.object item).id = id := by
      obtain ⟨c, -, rfl, rfl⟩ := objects_mem ho
      exact ClusterObject.id_of_content ((i.content_object item).trans hcontent)
    rw [← hid, if_pos ⟨item, hitem, rfl⟩]
    exact ⟨o'', ho'', hcontent''.trans (hcontent.trans hvalue)⟩

end Copies

/-! ## Runs -/

/-- What a state means for the copy when the server has come to a version. -/
inductive Tracked (s : Server) (i : Informer) (copy : Copy) (u : Nat) : State → Prop
  | failed {st : State} : st.IsFailed → Tracked s i copy u st
  | ended : Tracked s i copy u .ended
  | replaying {done rest : List Json} {item : Json} : s.Lists i.ns u (done ++ item :: rest) →
    Has i copy done →
    Tracked s i copy u (.replaying (i.shows item) (s.text u) (i.idsOf (done ++ [item])) rest)
  | marking {items : List Json} : s.Lists i.ns u items → Has i copy items →
    Tracked s i copy u (.marking (i.idsOf items) (s.text u))
  | forwarding {version : String} {w : Nat} {c : Change} : c.version = u → s.IsNext i.ns w c →
    Copied copy (s.objects i.ns w) →
    Tracked s i copy u (.forwarding (.notification c.notification) version (s.text u))
  /-- The next watch starts at the version, and the copy has come to it. -/
  | level {st : State} : st.resume? = some (s.text u) → st.handed? = none →
    Copied copy (s.objects i.ns u) → Tracked s i copy u st

section Runs
variable {s : Server} {i : Informer} {copy : Copy} {u u' : Nat} {st : State} {g : Signal}
  {fs : List Emission} {m : Emission} {done rest : List Json} {e : WatchEvent} {c : Change}
  {event : FeedEvent}

theorem Answers.awaits (h : s.Answers i.ns st u g u') : st.Awaits g := by
  cases h with
  | listed | unlisted => exact .listed _
  | opened | unopened => exact .opened _ _
  | told | reported | broken => exact .delivered _ _ _
  | finished => exact .finished _ _

theorem Feeds.goes (h : s.Feeds i fs st u) :
    ∃ c, i.Goes .listing c st ∧ feed c = fs.map Emission.event := by
  induction h with
  | start => exact ⟨[], .stay _, rfl⟩
  | said _ hanswer ih =>
    obtain ⟨c, hgoes, hfeed⟩ := ih
    refine ⟨_, hgoes.snoc hanswer.awaits, ?_⟩
    rw [feed_append, hfeed]
    cases hanswer <;> exact List.append_nil _
  | took _ hevent ih =>
    obtain ⟨c, hgoes, hfeed⟩ := ih
    refine ⟨_, hgoes.snoc (.accepted hevent), ?_⟩
    rw [feed_append, hfeed, List.map_append]
    simp [feed, Happening.taken?, hevent]
  | left _ hg hwhy ih =>
    obtain ⟨c, hgoes, hfeed⟩ := ih
    refine ⟨_, hgoes.snoc hg, ?_⟩
    rw [feed_append, hfeed]
    obtain rfl | rfl | rfl := hwhy <;> exact List.append_nil _

theorem notice_told (hc : c ∈ s.changes) (h : c.IsTold e) :
    e.notice? = some (c.object, c.notification) := by
  have husable := s.usable c hc
  unfold Change.notification
  cases e with
  | added value | modified value | deleted value =>
    obtain ⟨hremoval, rfl⟩ := h
    rw [WatchEvent.notice?, husable, hremoval]
    rfl
  | error => cases h

theorem tracked_replay (done : List Json) (h : s.Lists i.ns u (done ++ rest))
    (hdone : Has i copy done) :
    Tracked s i copy u (i.replay (s.text u) (i.idsOf done) rest) := by
  cases rest with
  | nil =>
    rw [List.append_nil] at h
    exact .marking h hdone
  | cons item rest =>
    -- an honest listing has no item that cannot be used, so the session goes on
    have hitem := (h.object i (List.mem_append_right done List.mem_cons_self)).1
    rw [replay_of_accepts hitem, ← idsOf_snoc]
    exact .replaying h hdone

/-- In a state from which a watch goes on, without an event to hand on, the copy is level. -/
theorem Tracked.copied {version : String} (h : Tracked s i copy u st)
    (hresume : st.resume? = some version) (hhanded : st.handed? = none) :
    version = s.text u ∧ Copied copy (s.objects i.ns u) := by
  cases h with
  | level hversion _ hcopied => exact ⟨Option.some.inj (hresume.symm.trans hversion), hcopied⟩
  | failed hfailed => cases hfailed <;> cases hresume
  | ended => cases hresume
  | replaying | marking | forwarding => cases hhanded

theorem Tracked.le (h : Tracked s i copy u st) (hanswer : s.Answers i.ns st u g u') : u ≤ u' := by
  cases hanswer with
  | listed hle => exact hle
  | opened htext =>
    -- the version that is asked for is that of the copy, so the watch starts there
    obtain ⟨rfl, -⟩ := h.copied rfl rfl
    exact Nat.le_of_eq (s.text_inj (htext.resolve_right fun hnone => hnone u rfl)).symm
  | told hnext => exact Nat.le_of_lt hnext.after
  | _ => exact Nat.le_refl u

theorem Tracked.answered (h : Tracked s i copy u st) (hanswer : s.Answers i.ns st u g u') :
    Tracked s i copy u' (i.step st g) := by
  have hmove := step_move (i := i) hanswer.awaits
  generalize i.step st g = st' at hmove
  cases hmove with
  | failed hfailed => exact .failed hfailed
  | stopped => exact .ended
  | begun hbegun =>
    cases hanswer with
    | listed _ hversion hlists =>
      obtain rfl := Option.some.inj (hversion.symm.trans hbegun)
      exact tracked_replay [] hlists fun _ ha => absurd ha List.not_mem_nil
  | opened =>
    cases hanswer with
    | opened htext =>
      obtain ⟨rfl, hcopied⟩ := h.copied rfl rfl
      obtain rfl := s.text_inj (htext.resolve_right fun hnone => hnone u rfl)
      exact .level rfl rfl hcopied
  | told hnotice =>
    cases hanswer with
    | reported => cases hnotice
    | @told _ _ _ c _ hnext htold =>
      obtain ⟨-, hcopied⟩ := h.copied rfl rfl
      obtain ⟨rfl, rfl⟩ := Prod.mk.inj
        (Option.some.inj (hnotice.symm.trans (notice_told hnext.mem htold)))
      rw [s.stamped c hnext.mem]
      exact .forwarding rfl hnext hcopied
  | finished =>
    cases hanswer
    obtain ⟨hversion, hcopied⟩ := h.copied rfl rfl
    exact .level (congrArg some hversion) rfl hcopied
  | replayed | marked | forwarded => cases hanswer

/-- Taking what is handed on keeps track, and other than for an item it makes the copy exact. -/
theorem Tracked.took (h : Tracked s i copy u st) (hevent : st.handed? = some event) :
    Tracked s i (FeedEvent.replay copy event) u (i.step st .accepted) ∧
      (st.isReplaying = false → Copied (FeedEvent.replay copy event) (s.objects i.ns u)) := by
  cases h with
  | failed hfailed => cases hfailed <;> cases hevent
  | ended => cases hevent
  | level _ hnone _ => cases hnone.symm.trans hevent
  | @replaying done rest item hlists hdone =>
    obtain rfl : i.shows item = event := Option.some.inj hevent
    refine ⟨?_, nofun⟩
    have hitem : item ∈ done ++ item :: rest := List.mem_append_right done List.mem_cons_self
    have hnext := hdone.snoc hlists (fun _ ha => List.mem_append_left _ ha) hitem
    rw [List.append_cons] at hlists
    exact tracked_replay _ hlists hnext
  | marking hlists hdone =>
    obtain rfl := Option.some.inj hevent
    have hcopied := copied_listed hdone hlists
    exact ⟨.level rfl rfl hcopied, fun _ => hcopied⟩
  | forwarding hversion hnext hbefore =>
    subst hversion
    obtain rfl := Option.some.inj hevent
    have hcopied := copied_change hbefore hnext
    exact ⟨.level rfl rfl hcopied, fun _ => hcopied⟩

theorem Tracked.left (hg : st.Awaits g) (hwhy : g = .rested ∨ g = .refused ∨ g = .cancelled) :
    Tracked s i copy u (i.step st g) := by
  have hmove := step_move (i := i) hg
  generalize i.step st g = st' at hmove
  obtain rfl | rfl | rfl := hwhy <;> cases hmove with
  | failed hfailed => exact .failed hfailed
  | stopped => exact .ended

/-- Whether a copy has the objects of the server after every event of a feed, except after items of
a listing that is not announced yet. -/
def Exact (s : Server) (ns : Option String) (copy : Copy) (fs : List Emission) : Prop :=
  ∀ before m after, fs = before ++ m :: after → m.isItem = false →
    Copied (replayed copy (before ++ [m])) (s.objects ns m.version)

theorem Exact.snoc {ns : Option String} (h : s.Exact ns copy fs)
    (hm : m.isItem = false → Copied (replayed copy (fs ++ [m])) (s.objects ns m.version)) :
    s.Exact ns copy (fs ++ [m]) := by
  intro before m' after hsplit hitem
  obtain rfl | ⟨after, last, rfl⟩ := List.eq_nil_or_concat' after
  · obtain ⟨rfl, rfl⟩ := List.append_singleton_inj.mp hsplit
    exact hm hitem
  · rw [← List.cons_append, ← List.append_assoc] at hsplit
    obtain ⟨rfl, -⟩ := List.append_singleton_inj.mp hsplit
    exact h before m' after rfl hitem

theorem replayed_snoc (copy : Copy) (fs : List Emission) (m : Emission) :
    replayed copy (fs ++ [m]) = FeedEvent.replay (replayed copy fs) m.event := by
  unfold replayed
  rw [List.map_append, List.foldl_append]
  rfl

/-- A feed reproduces the server: whatever a copy has at first, after each announcement of a listing
and each change that is handed on it has exactly the objects at the version of that listing or
change, and these versions never decrease. It is the feed of a course of the informer. -/
theorem feed_faithful (h : s.Feeds i fs st u) (copy : Copy) :
    s.Exact i.ns copy fs ∧ (fs.Pairwise fun a b => a.version ≤ b.version) ∧
      ∃ c, i.Goes .listing c st ∧ feed c = fs.map Emission.event := by
  -- versions in the feed are not newer than what the server has told
  suffices hrun : s.Exact i.ns copy fs ∧ (fs.Pairwise fun a b => a.version ≤ b.version) ∧
      (∀ m ∈ fs, m.version ≤ u) ∧ Tracked s i (replayed copy fs) u st from
    ⟨hrun.1, hrun.2.1, h.goes⟩
  induction h with
  | start u =>
    refine ⟨fun before m after hsplit => ?_, .nil, nofun, .failed .listing⟩
    exact absurd hsplit (by simp)
  | said _ hanswer ih =>
    obtain ⟨hexact, hsorted, hbound, htracked⟩ := ih
    refine ⟨hexact, hsorted, fun m hm => ?_, htracked.answered hanswer⟩
    exact Nat.le_trans (hbound m hm) (htracked.le hanswer)
  | left _ hg hwhy ih =>
    obtain ⟨hexact, hsorted, hbound, -⟩ := ih
    exact ⟨hexact, hsorted, hbound, Tracked.left hg hwhy⟩
  | @took fs st u event _ hevent ih =>
    obtain ⟨hexact, hsorted, hbound, htracked⟩ := ih
    obtain ⟨hnext, hcopied⟩ := htracked.took hevent
    rw [← replayed_snoc copy fs ⟨event, u, st.isReplaying⟩] at hnext hcopied
    refine ⟨hexact.snoc hcopied, ?_, ?_, hnext⟩
    · refine List.pairwise_append.mpr ⟨hsorted, List.pairwise_singleton _ _, ?_⟩
      intro m hm m' hm'
      rw [List.mem_singleton.mp hm']
      exact hbound m hm
    · exact List.forall_mem_append.mpr ⟨hbound, List.forall_mem_singleton.mpr (Nat.le_refl u)⟩

end Runs

def podAt (version : String) : Json :=
  .object [("metadata", .object [("name", .text "web-1"), ("resourceVersion", .text version)])]

/-- A server at which a pod was made and removed. It writes versions as tallies. -/
def brief : Server where
  text n := String.ofList (List.replicate n 'i')
  changes := [⟨1, ⟨podAt "i"⟩, false⟩, ⟨2, ⟨podAt "ii"⟩, true⟩]
  text_inj a b h := by simpa using congrArg (fun t => t.toList.length) h
  sorted := by simp
  usable := by
    rintro c (_ | ⟨_, _ | ⟨_, _ | _⟩⟩) <;> rfl
  stamped := by
    rintro c (_ | ⟨_, _ | ⟨_, _ | _⟩⟩) <;> rfl
  names := by
    rintro c (_ | ⟨_, _ | ⟨_, _ | _⟩⟩) <;> decide

theorem brief_lists : brief.Lists none 1 [podAt "i"] where
  sound := by
    rintro item (_ | ⟨_, _ | _⟩)
    exact ⟨⟨"", "web-1"⟩, ⟨podAt "i"⟩, rfl, rfl⟩
  complete := by
    intro id o h
    obtain ⟨c, hc, hobject, hid⟩ := objects_mem h
    obtain rfl : id = ⟨"", "web-1"⟩ := by
      rw [← hid, ← hobject]
      obtain _ | ⟨_, _ | ⟨_, _ | _⟩⟩ := hc <;> rfl
    have hfirst : brief.objects none 1 ⟨"", "web-1"⟩ = some ⟨podAt "i"⟩ := rfl
    obtain rfl := Option.some.inj (hfirst.symm.trans h)
    exact ⟨_, List.mem_singleton_self _, rfl⟩

theorem brief_next : brief.IsNext none 1 ⟨2, ⟨podAt "ii"⟩, true⟩ where
  mem := by simp [brief]
  covered := rfl
  after := by decide
  first := by simp [brief]

/-- A copy that is empty at first has the pod once it was listed, and no longer once its removal was
told. -/
theorem feed_faithful_brief : ∃ fs st, brief.Feeds pods fs st 2 ∧
    fs.map Emission.version = [1, 1, 2] ∧
    brief.Exact none (fun _ => none) fs ∧ (fs.Pairwise fun a b => a.version ≤ b.version) ∧
    ∃ c, pods.Goes .listing c st ∧ feed c = fs.map Emission.event := by
  have hitem : pods.Accepts (podAt "i") := (brief_lists.object pods List.mem_cons_self).1
  have hlisted := (Feeds.start (s := brief) (i := pods) 0).said
    (.listed (l := ⟨some (brief.text 1), [podAt "i"]⟩) (Nat.zero_le 1) rfl brief_lists)
  rw [show pods.step .listing _ = pods.replay (brief.text 1) .empty [podAt "i"] from rfl,
    replay_of_accepts hitem] at hlisted
  have hopened := ((hlisted.took rfl).took rfl).said (.opened (.inl rfl))
  have hremoved := (hopened.said (.told brief_next (e := .deleted _) ⟨rfl, rfl⟩)).took rfl
  exact ⟨_, _, hremoved, rfl, feed_faithful hremoved _⟩

end Server
end KubeLedger
