import KubeLedger.Feed.Rehearsal
import KubeLedger.Proofs.IdSets

/- Courses of an informer. A course is what happened on the way from one state to another: in which
   state the informer was, and which of the signals that it waits for came (`Informer.Goes`). A
   signal may be any answer of the cluster, a cancellation, or the loss of the reader. Coming to a
   state means to make a call or to hand on an event, so the calls and the feed of an informer are
   read off its course (`calls`, `feed`).

   `Move` says once what a signal can do to a state: it takes the informer on in its session, or the
   session has failed, or the informer has stopped. After a failure the informer is bound to list
   again before it watches (`Bound`), also where the failure is an item of a listing that it has not
   come to yet. -/
namespace KubeLedger

/-- The object that an event of a watch is about and what it says of it, if the object can be used.
-/
def WatchEvent.notice? : WatchEvent → Option (ClusterObject × Notification)
  | .added value => (ClusterObject.ofJson value).toOption.map fun o => (o, .seen o)
  | .modified value => (ClusterObject.ofJson value).toOption.map fun o => (o, .seen o)
  | .deleted value => (ClusterObject.ofJson value).toOption.map fun o => (o, .deleted o.id)
  | .error _ => none

theorem ClusterObject.eq_of_ofJson {value : Json} {o : ClusterObject} (h : ofJson value = .ok o) :
    o = ⟨value⟩ := by
  unfold ofJson at h
  split at h
  · split at h
    · cases h
      rfl
    · cases h
  · cases h

namespace Informer

/-- The signals that a state waits for. -/
inductive State.Awaits : State → Signal → Prop
  | listed (answer : Except ClientError Listing) : Awaits .listing (.listed answer)
  | opened (version : String) (failure : Option ClientError) :
    Awaits (.opening version) (.opened failure)
  | delivered (version : String) (latest : Option String) (item : Except ClientError WatchEvent) :
    Awaits (.watching version latest) (.delivered item)
  | finished (version : String) (latest : Option String) :
    Awaits (.watching version latest) .finished
  | accepted {s : State} {e : FeedEvent} : s.handed? = some e → Awaits s .accepted
  | refused {s : State} {e : FeedEvent} : s.handed? = some e → Awaits s .refused
  | rested : Awaits .resting .rested
  | cancelled {s : State} : s ≠ .ended → Awaits s .cancelled

structure Happening where
  state : State
  signal : Signal

/-- What happened, in order. -/
abbrev Course := List Happening

/-- An informer goes a course from one state to another. -/
inductive Goes (i : Informer) : State → Course → State → Prop
  | stay (s : State) : Goes i s [] s
  | step {s s' : State} {g : Signal} {c : Course} :
    s.Awaits g → Goes i (i.step s g) c s' → Goes i s (⟨s, g⟩ :: c) s'

/-- The call that an informer makes when it comes to a state. -/
def State.call? : State → Option ApiCall
  | .listing => some .list
  | .opening version => some (.watch version)
  | _ => none

def calls (c : Course) (s : State) : List ApiCall :=
  (c.map Happening.state ++ [s]).filterMap State.call?

def Happening.taken? (x : Happening) : Option FeedEvent :=
  match x.signal with
  | .accepted => x.state.handed?
  | _ => none

def feed (c : Course) : List FeedEvent := c.filterMap Happening.taken?

/-- The version of the object that was received when something happened. -/
def Happening.version? (x : Happening) : Option String :=
  match x.signal with
  | .delivered (.ok e) => e.notice?.map fun n => n.1.resourceVersion
  | _ => none

/-- The versions of the objects that were received on a course, empty where an object has none. -/
def received (c : Course) : List String := c.filterMap Happening.version?

def object (i : Informer) (item : Json) : ClusterObject := ⟨typed i.resource item⟩

/-- What is handed on for an item of a listing. -/
def shows (i : Informer) (item : Json) : FeedEvent := .notification (.seen (i.object item))

/-- Whether an item of a listing can be used. -/
def Accepts (i : Informer) (item : Json) : Prop :=
  ClusterObject.ofJson (typed i.resource item) = .ok (i.object item)

/-! ## Going on -/

section Goes
variable {i : Informer} {s s₀ s' : State} {g : Signal} {c before after : Course} {x : Happening}

theorem goes_append : i.Goes s (before ++ after) s' ↔
    ∃ m, i.Goes s before m ∧ i.Goes m after s' := by
  constructor
  · intro h
    induction before generalizing s with
    | nil => exact ⟨s, .stay s, h⟩
    | cons x before ih =>
      cases h with
      | step hg hrest =>
        obtain ⟨m, hbefore, hafter⟩ := ih hrest
        exact ⟨m, .step hg hbefore, hafter⟩
  · rintro ⟨m, hbefore, hafter⟩
    induction hbefore with
    | stay => exact hafter
    | step hg _ ih => exact .step hg (ih hafter)

theorem goes_cons : i.Goes s (x :: after) s' ↔
    s = x.state ∧ s.Awaits x.signal ∧ i.Goes (i.step s x.signal) after s' := by
  constructor
  · rintro (_ | ⟨hg, hrest⟩)
    exact ⟨rfl, hg, hrest⟩
  · obtain ⟨state, signal⟩ := x
    rintro ⟨rfl, hg, hrest⟩
    exact .step hg hrest

theorem Goes.snoc (h : i.Goes s₀ c s) (hg : s.Awaits g) :
    i.Goes s₀ (c ++ [⟨s, g⟩]) (i.step s g) :=
  goes_append.mpr ⟨s, h, .step hg (.stay _)⟩

/-- What holds at the start and is kept by every step holds all along. -/
theorem Goes.invariant {P : Course → State → Prop}
    (hstep : ∀ {c s g}, P c s → s.Awaits g → P (c ++ [⟨s, g⟩]) (i.step s g))
    (h : i.Goes s₀ c s) (hstart : P [] s₀) : P c s := by
  -- a course is taken apart from its front, so what came before it is a parameter of the induction
  suffices hfrom : ∀ before, P before s₀ → P (before ++ c) s from hfrom [] hstart
  clear hstart
  induction h with
  | stay => exact fun before hP => by rwa [List.append_nil]
  | step hg _ ih =>
    intro before hP
    have hnext := ih (before ++ [_]) (hstep hP hg)
    rwa [List.append_assoc] at hnext

theorem feed_append : feed (before ++ after) = feed before ++ feed after :=
  List.filterMap_append

theorem received_append : received (before ++ after) = received before ++ received after :=
  List.filterMap_append

theorem calls_cons : calls (x :: after) s = x.state.call?.toList ++ calls after s := by
  unfold calls
  rw [List.map_cons, List.cons_append, List.filterMap_cons]
  cases x.state.call? <;> rfl

end Goes

/-! ## What a signal does -/

section Move
variable {i : Informer} {s s' : State} {g : Signal} {item : Json} {rest items : List Json}
  {version : String} {listed : IdSet}

theorem replay_of_accepts (h : i.Accepts item) :
    i.replay version listed (item :: rest) =
      .replaying (i.shows item) version (listed.insert (i.object item).id) rest := by
  unfold Accepts at h
  simp only [replay, h, shows]

theorem replay_of_not_accepts (h : ¬ i.Accepts item) :
    i.replay version listed (item :: rest) = .resting := by
  cases hitem : ClusterObject.ofJson (typed i.resource item) with
  | error _ => simp only [replay, hitem]
  | ok o =>
    obtain rfl := ClusterObject.eq_of_ofJson hitem
    exact absurd hitem h

/-- The states in which a session has failed. -/
inductive State.IsFailed : State → Prop
  | listing : IsFailed .listing
  | resting : IsFailed .resting

/-- What a signal can do to a state that waits for it. -/
inductive Move (i : Informer) : State → Signal → State → Prop
  | begun {l : Listing} {version : String} : l.version = some version →
    Move i .listing (.listed (.ok l)) (i.replay version .empty l.items)
  | replayed {event : FeedEvent} {version : String} {listed : IdSet} {items : List Json} :
    Move i (.replaying event version listed items) .accepted (i.replay version listed items)
  | marked {listed : IdSet} {version : String} :
    Move i (.marking listed version) .accepted (.opening version)
  | opened {version : String} : Move i (.opening version) (.opened none) (.watching version none)
  | told {version : String} {latest : Option String} {e : WatchEvent} {o : ClusterObject}
    {n : Notification} : e.notice? = some (o, n) →
    Move i (.watching version latest) (.delivered (.ok e))
      (.forwarding (.notification n) version o.resourceVersion)
  | forwarded {event : FeedEvent} {version latest : String} :
    Move i (.forwarding event version latest) .accepted (.watching version (some latest))
  | finished {version : String} {latest : Option String} :
    Move i (.watching version latest) .finished (.opening (latest.getD version))
  | failed {s : State} {g : Signal} {s' : State} : s'.IsFailed → Move i s g s'
  | stopped {s : State} {g : Signal} : g = .cancelled ∨ g = .refused → Move i s g .ended

theorem afterFailure_failed (e : ClientError) : (afterFailure e).IsFailed := by
  unfold afterFailure
  split
  · exact .listing
  · exact .resting

theorem forward_eq (version : String) (value : Json) (n : ClusterObject → Notification) :
    forward version value n =
      match (ClusterObject.ofJson value).toOption with
      | some o => .forwarding (.notification (n o)) version o.resourceVersion
      | none => .resting := by
  unfold forward
  cases ClusterObject.ofJson value <;> rfl

theorem afterEvent_eq (version : String) (e : WatchEvent) :
    (∃ o n, e.notice? = some (o, n) ∧
      afterEvent version e = .forwarding (.notification n) version o.resourceVersion) ∨
    e.notice? = none ∧ (afterEvent version e).IsFailed := by
  cases e with
  | error e =>
    refine .inr ⟨rfl, ?_⟩
    unfold afterEvent
    dsimp only
    split
    · exact .listing
    · exact .resting
  | added value | modified value | deleted value =>
    simp only [afterEvent, forward_eq, WatchEvent.notice?]
    cases (ClusterObject.ofJson value).toOption with
    | none => exact .inr ⟨rfl, .resting⟩
    | some o => exact .inl ⟨o, _, rfl, rfl⟩

theorem step_move (h : s.Awaits g) : i.Move s g (i.step s g) := by
  cases h with
  | listed answer =>
    cases answer with
    | error e => exact .failed (afterFailure_failed e)
    | ok l =>
      change i.Move _ _ (i.afterListing l)
      unfold afterListing
      cases hversion : l.version with
      | none => exact .failed .resting
      | some version => exact .begun hversion
  | opened version failure =>
    cases failure with
    | none => exact .opened
    | some e => exact .failed (afterFailure_failed e)
  | delivered version latest item =>
    cases item with
    | error e => exact .failed (afterFailure_failed e)
    | ok e =>
      obtain ⟨o, n, hnotice, hstep⟩ | ⟨-, hfailed⟩ := afterEvent_eq version e
      · rw [show i.step (.watching version latest) (.delivered (.ok e)) = _ from hstep]
        exact .told hnotice
      · exact .failed hfailed
  | finished => exact .finished
  | accepted he =>
    cases s with
    | replaying => exact .replayed
    | marking => exact .marked
    | forwarding => exact .forwarded
    | _ => cases he
  | refused he =>
    cases s with
    | replaying => exact .stopped (.inr rfl)
    | marking => exact .stopped (.inr rfl)
    | forwarding => exact .stopped (.inr rfl)
    | _ => cases he
  | rested => exact .failed .listing
  | cancelled =>
    rw [show i.step s .cancelled = .ended by cases s <;> rfl]
    exact .stopped (.inl rfl)

end Move

/-! ## Failures -/

/-- What fails a session: a failed call, a listing without a version or with an item that cannot be
used, and an event of a watch that is broken, an error, or about no usable object. -/
inductive Happening.Fails (i : Informer) : Happening → Prop
  | unlisted (e : ClientError) : Fails i ⟨.listing, .listed (.error e)⟩
  | unversioned {l : Listing} : l.version = none → Fails i ⟨.listing, .listed (.ok l)⟩
  | misfit {l : Listing} {item : Json} : item ∈ l.items → ¬ i.Accepts item →
    Fails i ⟨.listing, .listed (.ok l)⟩
  | unopened (version : String) (e : ClientError) : Fails i ⟨.opening version, .opened (some e)⟩
  | broken (version : String) (latest : Option String) (e : ClientError) :
    Fails i ⟨.watching version latest, .delivered (.error e)⟩
  | unusable (version : String) (latest : Option String) {e : WatchEvent} : e.notice? = none →
    Fails i ⟨.watching version latest, .delivered (.ok e)⟩

/-- The states from which no watch is started before the next listing. -/
inductive Bound (i : Informer) : State → Prop
  | failed {s : State} : s.IsFailed → Bound i s
  | ended : Bound i .ended
  | replaying {event : FeedEvent} {version : String} {listed : IdSet} {items : List Json}
    {item : Json} : item ∈ items → ¬ i.Accepts item →
    Bound i (.replaying event version listed items)

section Bound
variable {i : Informer} {s s' : State} {c : Course} {x : Happening} {items : List Json}
  {item : Json} {version : String} {listed : IdSet}

theorem bound_replay (hitem : item ∈ items) (h : ¬ i.Accepts item) :
    Bound i (i.replay version listed items) := by
  cases items with
  | nil => cases hitem
  | cons next rest =>
    -- the informer comes to the item later, or stops before that
    by_cases hnext : i.Accepts next
    · rw [replay_of_accepts hnext]
      have hne : item ≠ next := fun heq => h (heq ▸ hnext)
      exact .replaying ((List.mem_cons.mp hitem).resolve_left hne) h
    · rw [replay_of_not_accepts hnext]
      exact .failed .resting

theorem Happening.Fails.bound (h : x.Fails i) : Bound i (i.step x.state x.signal) := by
  cases h with
  | unlisted e => exact .failed (afterFailure_failed e)
  | unversioned hversion =>
    refine .failed ?_
    rw [step, afterListing, hversion]
    exact .resting
  | @misfit l item hitem hmisfit =>
    change Bound i (i.afterListing l)
    unfold afterListing
    cases l.version with
    | none => exact .failed .resting
    | some version => exact bound_replay hitem hmisfit
  | unopened version e => exact .failed (afterFailure_failed e)
  | broken version latest e => exact .failed (afterFailure_failed e)
  | @unusable version latest e hnotice =>
    obtain ⟨o, n, hsome, -⟩ | ⟨-, hfailed⟩ := afterEvent_eq version e
    · rw [hnotice] at hsome
      cases hsome
    · exact .failed hfailed

/-- The first call from a bound state on is a listing. -/
theorem Bound.first_call (h : Bound i s) (hgoes : i.Goes s c s') {call : ApiCall}
    (hcall : (calls c s').head? = some call) : call = .list := by
  -- each step stays bound, until a state is come to that lists
  induction hgoes with
  | stay s =>
    obtain ⟨_ | _⟩ | _ | _ := h
    · exact (Option.some.inj hcall).symm
    all_goals cases hcall
  | @step s s' g c hg _ ih =>
    rw [calls_cons] at hcall
    cases h with
    | failed hfailed =>
      cases hfailed with
      | listing => exact (Option.some.inj hcall).symm
      | resting =>
        refine ih ?_ hcall
        cases hg with
        | rested => exact .failed .listing
        | cancelled => exact .ended
        | accepted he => cases he
        | refused he => cases he
    | ended =>
      cases hg with
      | cancelled hne => exact absurd rfl hne
      | accepted he => cases he
      | refused he => cases he
    | replaying hitem hmisfit =>
      refine ih ?_ hcall
      cases hg with
      | accepted => exact bound_replay hitem hmisfit
      | refused => exact .ended
      | cancelled => exact .ended

end Bound

end Informer

/-! ## Rehearsals -/

namespace Rehearsal

open Informer

theorem signal_awaited {i : Informer} {s : State} {r r' : Rehearsal} {g : Signal}
    (h : signal i s r = (some g, r')) :
    s.Awaits g ∧ r'.feed = (Happening.taken? ⟨s, g⟩).toList ++ r.feed := by
  have take : ∀ e, s.handed? = some e → r.take e = (some g, r') →
      s.Awaits g ∧ r'.feed = (Happening.taken? ⟨s, g⟩).toList ++ r.feed := by
    intro e he h
    unfold Rehearsal.take at h
    split at h
    · cases h
      exact ⟨.accepted he, by simp [Happening.taken?, he]⟩
    · cases h
      exact ⟨.refused he, rfl⟩
  cases s with
  | listing =>
    simp only [signal, answerList, noted] at h
    split at h
    · cases h
    · cases h
      exact ⟨.listed _, rfl⟩
  | opening version =>
    simp only [signal, answerWatch, noted] at h
    split at h
    · cases h
    · cases h
      exact ⟨.opened _ _, rfl⟩
    · cases h
      exact ⟨.opened _ _, rfl⟩
  | watching version latest =>
    simp only [signal, answerNext] at h
    split at h
    · cases h
      exact ⟨.delivered _ _ _, rfl⟩
    · split at h
      · cases h
      · cases h
        exact ⟨.finished _ _, rfl⟩
  | replaying e _ _ _ => exact take e rfl h
  | marking listed _ => exact take (.listed listed) rfl h
  | forwarding e _ _ => exact take e rfl h
  | resting =>
    simp only [signal] at h
    split at h
    · cases h
      exact ⟨.rested, rfl⟩
    · cases h
  | ended => cases h

theorem signal_none {i : Informer} {s : State} {r r' : Rehearsal}
    (h : signal i s r = (none, r')) : r'.feed = r.feed := by
  cases s with
  | watching =>
    simp only [signal, answerNext] at h
    split at h
    · cases h
    · obtain ⟨-, rfl⟩ := Prod.mk.inj h
      rfl
  | ended =>
    obtain ⟨-, rfl⟩ := Prod.mk.inj h
    rfl
  | listing | opening =>
    simp only [signal, answerList, answerWatch, noted] at h
    split at h <;> cases h
    rfl
  | replaying | marking | forwarding =>
    simp only [signal, Rehearsal.take] at h
    split at h <;> cases h
  | resting =>
    simp only [signal] at h
    split at h <;> cases h
    rfl

theorem run_goes (i : Informer) (r : Rehearsal) :
    ∃ c, i.Goes .listing c (r.run i).1 ∧
      (r.run i).2.feed = (Informer.feed c).reverse ++ r.feed := by
  have hfuel : ∀ fuel s (r : Rehearsal), ∃ c, i.Goes s c (i.run (signal i) fuel s r).1 ∧
      (i.run (signal i) fuel s r).2.feed = (Informer.feed c).reverse ++ r.feed := by
    intro fuel
    induction fuel with
    | zero => exact fun s r => ⟨[], .stay s, rfl⟩
    | succ fuel ih =>
      intro s r
      unfold Informer.run
      split
      · rename_i g r' h
        obtain ⟨hg, hfeed⟩ := signal_awaited h
        obtain ⟨c, hgoes, hrest⟩ := ih (i.step s g) r'
        refine ⟨⟨s, g⟩ :: c, .step hg hgoes, ?_⟩
        rw [hrest, hfeed]
        unfold Informer.feed
        rw [List.filterMap_cons]
        cases Happening.taken? ⟨s, g⟩ <;> simp
      · rename_i r' h
        exact ⟨[], .stay s, signal_none h⟩
  exact hfuel _ _ _

end Rehearsal
end KubeLedger
