import KubeLedger.Proofs.Waiting

/- The latest notification wins. A delivery is followed attempt by attempt: between any two of them
   the clock goes on and others may write what they like (`Delivery.Logs`). The log has what the
   delivery received and what it tried, and a listing that does not have an object counts as the
   deletion of that object where the delivery misses it (`Entry.news?`).

   What is left of a turn tells which keys the delivery still owes an attempt. For all others what
   was received last is what was tried last, and it waits exactly if that attempt may succeed
   another time (`Current`). An attempt pays for its own key and touches no other. -/
namespace KubeLedger

namespace Delivery

variable {σ : Type}

/-- An entry of the log of a delivery. -/
inductive Entry where
  /-- A notification was received. -/
  | told (n : Notification)
  /-- A complete listing was received by a delivery in the given state. -/
  | listed (d : Delivery) (ids : IdSet)
  /-- Some of what waits is due. -/
  | due
  | tried (a : Attempt)

/-- What happened to a delivery, the latest first. -/
abbrev Log := List Entry

def Entry.news? (key : String) : Entry → Option Notification
  | .told n => if n.key = key then some n else none
  | .listed d ids => if d.Misses ids key then some (.deleted (.ofKey key)) else none
  | .due => none
  | .tried _ => none

def Entry.attempt? : Entry → Option Attempt
  | .tried a => some a
  | _ => none

namespace Log

/-- What was received last for a key. -/
def received? (log : Log) (key : String) : Option Notification := log.findSome? (Entry.news? key)

def attempts (log : Log) : History := log.filterMap Entry.attempt?

/-- The attempts since something was received or fell due. -/
def thisTurn : Log → List Attempt
  | .tried a :: log => a :: thisTurn log
  | _ => []

end Log

/-- Where a delivery is: at the head of its loop, or in a turn with something left to do. -/
inductive Turn where
  | head
  | delivering (rest : List Notification)
  | retrying (rest : List String)

def Turn.news : Turn → List Notification
  | .delivering rest => rest
  | _ => []

/-- The keys that are left to go over. -/
def Turn.keys : Turn → List String
  | .head => []
  | .delivering rest => rest.map fun n => n.key
  | .retrying rest => rest

/-- What a delivery comes to, attempt by attempt. -/
inductive Logs (env : Surroundings σ) (d₀ : Delivery) (w₀ : σ) : Log → Turn → Delivery → σ → Prop
  | start : Logs env d₀ w₀ [] .head d₀ w₀
  /-- Time passes, and others write. -/
  | idle {log : Log} {t : Turn} {d : Delivery} {w : σ} (w' : σ) :
    Logs env d₀ w₀ log t d w → Logs env d₀ w₀ log t d w'
  | told {log : Log} {d : Delivery} {w : σ} {n : Notification} :
    Logs env d₀ w₀ log .head d w → n.IsPlain →
    Logs env d₀ w₀ (.told n :: log) (.delivering [n]) d w
  | listed {log : Log} {d : Delivery} {w : σ} {ids : IdSet} {ns : List Notification} :
    Logs env d₀ w₀ log .head d w → ns.Perm (d.deletions ids) →
    Logs env d₀ w₀ (.listed d ids :: log) (.delivering ns) (d.dropLost ids) w
  | due {log : Log} {d : Delivery} {w : σ} (now : Nat) {keys : List String} :
    Logs env d₀ w₀ log .head d w →
    keys.Perm ((d.pending.filter fun r => r.due ≤ now).map fun r => r.notification.key) →
    Logs env d₀ w₀ (.due :: log) (.retrying keys) d w
  | delivered {log : Log} {d : Delivery} {w : σ} (clock : Clock) {n : Notification}
    {rest : List Notification} : Logs env d₀ w₀ log (.delivering (n :: rest)) d w →
    Logs env d₀ w₀ (.tried (d.attempted env n w) :: log) (.delivering rest)
      (d.deliver env clock n w).1 (d.deliver env clock n w).2
  | retried {log : Log} {d : Delivery} {w : σ} (clock : Clock) {key : String}
    {rest : List String} {r : Retry} : Logs env d₀ w₀ log (.retrying (key :: rest)) d w →
    d.retry? key = some r →
    Logs env d₀ w₀ (.tried (d.attempted env r.notification w) :: log) (.retrying rest)
      ((d.forget key).attempt env clock r.notification (some r.backoff) w).1
      ((d.forget key).attempt env clock r.notification (some r.backoff) w).2
  | skipped {log : Log} {d : Delivery} {w : σ} {key : String} {rest : List String} :
    Logs env d₀ w₀ log (.retrying (key :: rest)) d w → d.retry? key = none →
    Logs env d₀ w₀ log (.retrying rest) d w
  | ended {log : Log} {t : Turn} {d : Delivery} {w : σ} :
    Logs env d₀ w₀ log t d w → t.keys = [] → Logs env d₀ w₀ log .head d w

/-! ## The executable turns -/

section Turns
variable {env : Surroundings σ} {d₀ d : Delivery} {w₀ w : σ} {log : Log}

theorem Logs.deliverAll (clock : Clock) {ns : List Notification}
    (h : Logs env d₀ w₀ log (.delivering ns) d w) :
    ∃ log', Logs env d₀ w₀ log' .head (d.deliverAll env clock ns w).1
      (d.deliverAll env clock ns w).2 := by
  induction ns generalizing log d w with
  | nil => exact ⟨log, h.ended rfl⟩
  | cons n ns ih => exact ih (h.delivered clock)

theorem Logs.receive (h : Logs env d₀ w₀ log .head d w) (clock : Clock) {e : FeedEvent}
    (he : ∀ n, e = .notification n → n.IsPlain) :
    ∃ log', Logs env d₀ w₀ log' .head (d.receive env clock e w).1 (d.receive env clock e w).2 := by
  cases e with
  | notification n => exact (h.told (he n rfl)).deliverAll clock
  | listed ids => exact (h.listed (List.Perm.refl _)).deliverAll clock

theorem Logs.retryAll (clock : Clock) {keys : List String}
    (h : Logs env d₀ w₀ log (.retrying keys) d w) :
    ∃ log', Logs env d₀ w₀ log' .head (d.retryAll env clock keys w).1
      (d.retryAll env clock keys w).2 := by
  induction keys generalizing log d w with
  | nil => exact ⟨log, h.ended rfl⟩
  | cons key keys ih =>
    unfold Delivery.retryAll
    cases hretry : d.retry? key with
    | none => exact ih (h.skipped hretry)
    | some r => exact ih (h.retried clock hretry)

theorem Logs.retryDue (h : Logs env d₀ w₀ log .head d w) (clock : Clock) :
    ∃ log', Logs env d₀ w₀ log' .head (d.retryDue env clock w).1 (d.retryDue env clock w).2 :=
  (h.due clock.now (List.Perm.refl _)).retryAll clock

end Turns

/-! ## The log -/

section Log
variable {log later earlier : Log} {a : Attempt} {key : String} {n : Notification}

theorem received?_tried : Log.received? (.tried a :: log) key = log.received? key := rfl

theorem received?_told_self : Log.received? (.told n :: log) n.key = some n := by
  simp [Log.received?, Entry.news?]

theorem received?_told_other (h : key ≠ n.key) :
    Log.received? (.told n :: log) key = log.received? key := by
  simp [Log.received?, Entry.news?, h.symm]

theorem received?_listed {d : Delivery} {ids : IdSet} :
    Log.received? (.listed d ids :: log) key =
      if d.Misses ids key then some (.deleted (.ofKey key)) else log.received? key := by
  unfold Log.received?
  rw [List.findSome?_cons, Entry.news?]
  by_cases h : d.Misses ids key
  · rw [if_pos h, if_pos h]
  · rw [if_neg h, if_neg h]

theorem latest?_tried_self (log : Log) (a : Attempt) :
    (Log.attempts (.tried a :: log)).latest? a.notification.key = some a := by
  simp [Log.attempts, Entry.attempt?, History.latest?]

theorem latest?_tried_other (h : key ≠ a.notification.key) :
    (Log.attempts (.tried a :: log)).latest? key = log.attempts.latest? key := by
  simp [Log.attempts, Entry.attempt?, History.latest?, h.symm]

theorem thisTurn_append (as : List Attempt) {e : Entry} (he : e.attempt? = none) :
    Log.thisTurn (as.map .tried ++ e :: log) = as := by
  induction as with
  | nil =>
    cases e with
    | tried a => cases he
    | _ => rfl
  | cons a as ih => exact congrArg (a :: ·) ih

/-- Each attempt was about what had been received last for its key, and the attempts that follow a
listing are about different keys. -/
structure Sound (log : Log) : Prop where
  fresh : ∀ later a earlier, log = later ++ .tried a :: earlier →
    Log.received? earlier a.notification.key = some a.notification
  once : ∀ later as d ids earlier,
    log = later ++ List.map .tried as ++ .listed d ids :: earlier →
      (as.map fun a => a.notification.key).Nodup

theorem Sound.start : Sound [] :=
  ⟨fun _ _ _ h => absurd h (by simp), fun _ _ _ _ _ h => absurd h (by simp)⟩

theorem Sound.quiet (h : Sound log) {e : Entry} (he : e.attempt? = none) : Sound (e :: log) where
  fresh later a earlier hsplit := by
    cases later with
    | nil =>
      obtain ⟨rfl, -⟩ := List.cons.inj hsplit
      cases he
    | cons _ later => exact h.fresh later a earlier (List.cons.inj hsplit).2
  once later as d ids earlier hsplit := by
    cases later with
    | nil =>
      cases as with
      | nil => exact List.nodup_nil
      | cons a as =>
        obtain ⟨rfl, -⟩ := List.cons.inj hsplit
        cases he
    | cons _ later => exact h.once later as d ids earlier (List.cons.inj hsplit).2

theorem Sound.tried (h : Sound log)
    (hfresh : log.received? a.notification.key = some a.notification)
    (honce : a.notification.key ∉ log.thisTurn.map fun a => a.notification.key) :
    Sound (.tried a :: log) where
  fresh later a' earlier hsplit := by
    cases later with
    | nil =>
      obtain ⟨heq, rfl⟩ := List.cons.inj hsplit
      obtain rfl := Entry.tried.inj heq
      exact hfresh
    | cons _ later => exact h.fresh later a' earlier (List.cons.inj hsplit).2
  once later as d ids earlier hsplit := by
    cases later with
    | nil =>
      cases as with
      | nil => exact List.nodup_nil
      | cons a' as =>
        have hlog : log = List.map .tried as ++ .listed d ids :: earlier :=
          (List.cons.inj hsplit).2
        obtain rfl := Entry.tried.inj (List.cons.inj hsplit).1
        subst hlog
        rw [thisTurn_append as rfl] at honce
        exact List.nodup_cons.mpr ⟨honce, h.once [] as d ids earlier rfl⟩
    | cons _ later => exact h.once later as d ids earlier (List.cons.inj hsplit).2

end Log

/-! ## Runs -/

/-- A delivery that is up to date, but for the keys of what is left to deliver in its turn. -/
structure Current (log : Log) (t : Turn) (d : Delivery) : Prop where
  tidy : d.Tidy
  waiting : ∀ key, key ∉ t.news.map (fun n => n.key) →
    d.waits? key = (log.attempts.latest? key).bind Attempt.waiting?
  received : ∀ id : ObjectId, id.IsPlain → id.key ∉ t.news.map (fun n => n.key) →
    log.received? id.key = (log.attempts.latest? id.key).map fun a => a.notification
  owed : ∀ n ∈ t.news, n.IsPlain ∧ log.received? n.key = some n
  once : ((log.thisTurn.map fun a => a.notification.key) ++ t.keys).Nodup

section Current
variable {env : Surroundings σ} {clock : Clock} {log : Log} {t t' : Turn} {d : Delivery}
  {n : Notification} {b : Option Backoff} {w : σ} {ids : IdSet} {ns : List Notification}
  {keys : List String} {key : String} {r : Retry}

theorem Current.start (htidy : d.Tidy) (hpending : d.pending = []) : Current [] .head d where
  tidy := htidy
  waiting key _ := by
    unfold waits? retry?
    rw [hpending]
    rfl
  received _ _ _ := rfl
  owed := nofun
  once := List.nodup_nil

/-- An attempt pays for its key, and leaves all others as they are. -/
theorem Current.attempt (h : Current log t d) (hn : n.IsPlain)
    (hnews : log.received? n.key = some n) (hleft : ∀ m ∈ t'.news, m ∈ t.news)
    (hpaid : ∀ m ∈ t.news, m ∈ t'.news ∨ m.key = n.key)
    (hkeys : t.keys = n.key :: t'.keys) :
    Current (.tried (d.attempted env n w) :: log) t'
      ((d.forget n.key).attempt env clock n b w).1 := by
  have hkey : (d.attempted env n w).notification = n := Attempt.of_notification n _
  have hother : ∀ key, key ≠ n.key → key ∉ t'.news.map (fun n => n.key) →
      key ∉ t.news.map (fun n => n.key) := by
    intro key hne hnot hmem
    obtain ⟨m, hm, rfl⟩ := List.mem_map.mp hmem
    obtain hm | hm := hpaid m hm
    · exact hnot (List.mem_map_of_mem hm)
    · exact hne hm
  rw [attempt_eq, forget_reconciler]
  refine ⟨h.tidy.attempt hn, fun key hnot => ?_, fun id hid hnot => ?_, fun m hm => ?_, ?_⟩
  · by_cases hself : key = n.key
    · subst hself
      have hlatest := latest?_tried_self log (d.attempted env n w)
      rw [hkey] at hlatest
      rw [waits?_settle_self, hlatest]
      rfl
    · rw [waits?, retry?_settle_other hself, latest?_tried_other (hkey.symm ▸ hself)]
      exact h.waiting key (hother key hself hnot)
  · rw [received?_tried]
    by_cases hself : id.key = n.key
    · have hlatest := latest?_tried_self log (d.attempted env n w)
      rw [hkey] at hlatest
      rw [hself, hlatest, hnews, Option.map_some, hkey]
    · rw [latest?_tried_other (hkey.symm ▸ hself)]
      exact h.received id hid (hother id.key hself hnot)
  · exact h.owed m (hleft m hm)
  · have honce := h.once
    rw [hkeys] at honce
    change ((d.attempted env n w).notification.key :: _ ++ t'.keys).Nodup
    rw [hkey]
    exact List.nodup_middle.mp honce

theorem Current.told (h : Current log .head d) (hn : n.IsPlain) :
    Current (.told n :: log) (.delivering [n]) d where
  tidy := h.tidy
  waiting key _ := h.waiting key List.not_mem_nil
  received id hid hnot := by
    have hne : id.key ≠ n.key := fun heq => hnot (by simp [Turn.news, heq])
    rw [received?_told_other hne]
    exact h.received id hid List.not_mem_nil
  owed m hm := by
    obtain rfl := List.mem_singleton.mp hm
    exact ⟨hn, received?_told_self⟩
  once := List.nodup_singleton n.key

theorem Current.listed (h : Current log .head d) (hns : ns.Perm (d.deletions ids)) :
    Current (.listed d ids :: log) (.delivering ns) (d.dropLost ids) where
  tidy := h.tidy.dropLost ids
  waiting key hnot := by
    -- what the listing drops is about to be deleted, so it does not count yet
    have hkept : ∀ r ∈ d.pending, r.notification.key = key → ¬ isLost ids r = true := by
      rintro r hr rfl hlost
      obtain ⟨n, hn, hkey⟩ := lost_deleted hr hlost
      refine hnot (List.mem_map.mpr ⟨n, hns.mem_iff.mpr hn, ?_⟩)
      obtain hkey | rfl := hkey
      · exact hkey
      · exact (h.tidy.pending r hr).key.symm
    rw [waits?, retry?_dropLost h.tidy.single hkept]
    exact h.waiting key List.not_mem_nil
  received id hid hnot := by
    have hnone : ¬ d.Misses ids id.key := by
      intro hmisses
      obtain ⟨n, hn, hkey⟩ := h.tidy.deletion_of_misses hid hmisses
      exact hnot (List.mem_map.mpr ⟨n, hns.mem_iff.mpr hn, hkey⟩)
    rw [received?_listed, if_neg hnone]
    exact h.received id hid List.not_mem_nil
  owed n hn := by
    obtain ⟨hplain, hmisses, heq⟩ := h.tidy.misses_of_deletion (hns.subset hn)
    refine ⟨hplain, ?_⟩
    rw [received?_listed, if_pos hmisses, ← heq]
  once := by
    change (ns.map fun n => n.key).Nodup
    exact (hns.map _).nodup_iff.mpr (h.tidy.nodup_deletions ids)

theorem Current.due (h : Current log .head d) {now : Nat}
    (hkeys : keys.Perm ((d.pending.filter fun r => r.due ≤ now).map fun r => r.notification.key)) :
    Current (.due :: log) (.retrying keys) d where
  tidy := h.tidy
  waiting := h.waiting
  received := h.received
  owed := nofun
  once := hkeys.nodup_iff.mpr (h.tidy.single.filter _)

theorem Current.retry_received (h : Current log (.retrying keys) d) (hr : d.retry? key = some r) :
    r.notification.IsPlain ∧ r.notification.key = key ∧
      log.received? r.notification.key = some r.notification := by
  -- it waits since the latest attempt for its key, and that was of what had been received last
  obtain ⟨hmem, hkey⟩ := retry?_some hr
  have hplain := h.tidy.pending r hmem
  refine ⟨hplain, hkey, ?_⟩
  have hwaiting := h.waiting key List.not_mem_nil
  rw [waits?, hr] at hwaiting
  obtain ⟨a, ha, hawaits⟩ := Option.bind_eq_some_iff.mp hwaiting.symm
  have hnotification : a.notification = r.notification := by
    obtain ⟨e, -, he⟩ := Option.bind_eq_some_iff.mp hawaits
    split at he
    · exact Option.some.inj he
    · cases he
  have hreceived := h.received r.notification.id hplain.plain List.not_mem_nil
  rw [← hplain.key, hkey, ha] at hreceived
  rw [hkey, hreceived, Option.map_some, hnotification]

theorem Current.skipped (h : Current log (.retrying (key :: keys)) d) :
    Current log (.retrying keys) d :=
  ⟨h.tidy, h.waiting, h.received, nofun, h.once.sublist
    ((List.Sublist.refl _).append (List.sublist_cons_self key keys))⟩

theorem Current.ended (h : Current log t d) (hkeys : t.keys = []) : Current log .head d := by
  have hnews : t.news = [] := by
    cases t with
    | delivering rest => exact List.map_eq_nil_iff.mp hkeys
    | _ => rfl
  refine ⟨h.tidy, fun key _ => ?_, fun id hid _ => ?_, nofun, ?_⟩
  · exact h.waiting key (hnews ▸ List.not_mem_nil)
  · exact h.received id hid (hnews ▸ List.not_mem_nil)
  · have honce := h.once
    rwa [hkeys] at honce

theorem Current.sound_tried (h : Current log t d) (hsound : Sound log)
    (hnews : log.received? n.key = some n) (hkeys : t.keys = n.key :: keys) :
    Sound (.tried (d.attempted env n w) :: log) := by
  have hkey : (d.attempted env n w).notification = n := Attempt.of_notification n _
  have honce := h.once
  rw [hkeys] at honce
  have hnot := (List.nodup_cons.mp (List.nodup_middle.mp honce)).1
  refine hsound.tried ?_ ?_
  · rw [hkey, hnews]
  · rw [hkey]
    exact fun hmem => hnot (List.mem_append_left _ hmem)

theorem Logs.current {d₀ : Delivery} {w₀ : σ} (htidy : d₀.Tidy) (hpending : d₀.pending = [])
    (hrun : Logs env d₀ w₀ log t d w) : Sound log ∧ Current log t d := by
  induction hrun with
  | start => exact ⟨.start, .start htidy hpending⟩
  | idle _ _ ih => exact ih
  | told _ hn ih => exact ⟨ih.1.quiet rfl, ih.2.told hn⟩
  | listed _ hns ih => exact ⟨ih.1.quiet rfl, ih.2.listed hns⟩
  | due _ _ hkeys ih => exact ⟨ih.1.quiet rfl, ih.2.due hkeys⟩
  | skipped _ _ ih => exact ⟨ih.1, ih.2.skipped⟩
  | ended _ hkeys ih => exact ⟨ih.1, ih.2.ended hkeys⟩
  | @delivered _ _ _ _ n rest _ ih =>
    obtain ⟨hn, hnews⟩ := ih.2.owed n List.mem_cons_self
    refine ⟨ih.2.sound_tried ih.1 hnews rfl, ?_⟩
    refine ih.2.attempt hn hnews (fun m hm => List.mem_cons_of_mem n hm) (fun m hm => ?_) rfl
    obtain rfl | hm := List.mem_cons.mp hm
    · exact .inr rfl
    · exact .inl hm
  | @retried _ _ _ _ key rest r _ hr ih =>
    obtain ⟨hn, hkey, hnews⟩ := ih.2.retry_received hr
    subst hkey
    exact ⟨ih.2.sound_tried ih.1 hnews rfl,
      ih.2.attempt hn hnews nofun nofun rfl⟩

end Current

/-- The latest notification wins, and none is lost. Whenever a delivery is at the head of its loop,
what waits under a key, at most once, is the notification of the latest attempt for it if that is
worth another try, and nothing otherwise; and this attempt was of what had been received last. Each
attempt is of what had been received last for its key, where a listing counts as the deletion of
the objects that it misses, so of two attempts for a key the later one repeats the earlier one
unless something was received in between. No key is tried twice for one listing. -/
theorem latest_wins {env : Surroundings σ} {d₀ d : Delivery} {w₀ w : σ} {log : Log} {t : Turn}
    (hset : d₀.reconciler.known.IsSet)
    (hplain : ∀ id, d₀.reconciler.known.contains id = true → id.IsPlain)
    (hpending : d₀.pending = []) (hrun : Logs env d₀ w₀ log t d w) :
    (t = .head → d.Single ∧
      (∀ key, d.waits? key = (log.attempts.latest? key).bind Attempt.waiting?) ∧
      ∀ id : ObjectId, id.IsPlain →
        log.received? id.key = (log.attempts.latest? id.key).map fun a => a.notification) ∧
    (∀ later a earlier, log = later ++ .tried a :: earlier →
      Log.received? earlier a.notification.key = some a.notification) ∧
    (∀ later a between a' earlier, log = later ++ .tried a :: (between ++ .tried a' :: earlier) →
      a.notification.key = a'.notification.key →
        a.notification = a'.notification ∨
          ∃ e ∈ between, e.news? a.notification.key = some a.notification) ∧
    (∀ later as d' ids earlier,
      log = later ++ List.map .tried as ++ .listed d' ids :: earlier →
        (as.map fun a => a.notification.key).Nodup) := by
  have htidy : d₀.Tidy := ⟨hset, hplain, fun r hr => absurd (hpending ▸ hr) List.not_mem_nil, by
    unfold Single
    rw [hpending]
    exact List.nodup_nil⟩
  obtain ⟨hsound, hcurrent⟩ := hrun.current htidy hpending
  refine ⟨?_, hsound.fresh, fun later a between a' earlier hsplit hkey => ?_, hsound.once⟩
  · rintro rfl
    exact ⟨hcurrent.tidy.single, fun key => hcurrent.waiting key List.not_mem_nil,
      fun id hid => hcurrent.received id hid List.not_mem_nil⟩
  · have hlater := hsound.fresh _ _ _ hsplit
    have hearlier := hsound.fresh (later ++ .tried a :: between) a' earlier (by simp [hsplit])
    unfold Log.received? at hlater
    rw [List.findSome?_append] at hlater
    cases hbetween : between.findSome? (Entry.news? a.notification.key) with
    | some n =>
      rw [hbetween] at hlater
      obtain rfl := Option.some.inj hlater
      exact .inr (List.exists_of_findSome?_eq_some hbetween)
    | none =>
      rw [hbetween, hkey] at hlater
      exact .inl (Option.some.inj (hlater.symm.trans hearlier))

/-- A claim whose labels cannot be written waits, and once a listing does not have it, it is a
deletion that waits. -/
theorem latest_wins_claim : ∃ log d w,
    Logs World.answer ⟨⟨.claim, {}, .empty⟩, []⟩ { store := { failing := ["pvc_label"] } } log
      .head d w ∧
    d.pending.map (fun r => (r.notification.key, r.notification.isSeen)) =
      [("default/data-1", false)] ∧
    ∀ key, d.waits? key = (log.attempts.latest? key).bind Attempt.waiting? := by
  have hseen : (Notification.seen (barePod "default" "data-1" [])).IsPlain :=
    Notification.seen_isPlain (by decide)
  have hstart : Logs World.answer ⟨⟨.claim, {}, .empty⟩, []⟩
      { store := { failing := ["pvc_label"] } } [] .head _ _ := .start
  have hwaits := ((hstart.told hseen).delivered ⟨0, id⟩).ended rfl
  obtain ⟨log, hrun⟩ := hwaits.receive ⟨0, id⟩ (e := .listed .empty) nofun
  have hnone : ∀ id, IdSet.empty.contains id = true → id.IsPlain :=
    fun id hid => absurd hid (by simp [IdSet.contains_empty])
  have hresult := (latest_wins IdSet.isSet_empty hnone rfl hrun).1 rfl
  exact ⟨log, _, _, hrun, by decide +kernel, hresult.2.1⟩

end Delivery
end KubeLedger
