import ScriptHost.Proofs.Dispatcher.Pacts

set_option autoImplicit false

/-!
Watchers: each one that is answered is told what can be told of its promise, and once all of them have been looked
after, nobody is left waiting for a promise that has settled.
-/

namespace ScriptHost

open LoopM

namespace World

variable {w w' w'' : World} {x : Watcher}

/-- Nothing is queued, and nothing happens to promises, though watchers may go. -/
structure Easing (w w' : World) : Prop extends w.Undisturbed w' where
  hush : w.Hush w'

theorem Easing.refl (w : World) : Easing w w :=
  ⟨.refl w, .refl w⟩

theorem Easing.trans (first : Easing w w') (second : Easing w' w'') : Easing w w'' :=
  ⟨first.toUndisturbed.trans second.toUndisturbed, first.hush.trans second.hush⟩

theorem easing_arrive (w : World) : w.Easing w.arrive :=
  ⟨w.undisturbed_arrive, w.lull_arrive.toHush⟩

/-- A watcher is done with, for the record. -/
theorem Easing.of_note {m : Mark} (microtasks : w'.worker.microtasks = w.worker.microtasks)
    (link : w'.worker.vault.link = w.worker.vault.link) (journal : w'.journal = m :: w.journal) : Easing w w' :=
  ⟨⟨microtasks, by rw [heap, heap, link], by rw [link]⟩, .of_same [m] link journal⟩

theorem vault_arrive (w : World) : w.arrive.worker.vault = w.worker.vault :=
  congrArg Desk.vault w.desk_arrive

/-- All watchers are these, and those that have been looked after were found to wait for promises that are pending. -/
structure Watches (I : World -> Prop) (w : World) (done left : List Watcher) : Prop where
  all : w.worker.watchers.Perm (done ++ left)
  done : w.Undeterred -> ∀ x ∈ done, ∃ seen : World, I seen ∧ seen.worker.vault.told x.promise = some .pending ∧ seen.Hush w

namespace Watches

variable {I : World -> Prop} {done left : List Watcher}

theorem started (w : World) : w.Watches I [] w.worker.watchers :=
  ⟨.refl _, fun _ => List.forall_mem_nil _⟩

theorem checked (watches : w.Watches I done []) : w.Checked I := fun clear x member =>
  watches.done clear x (List.append_nil done ▸ watches.all.mem_iff.1 member)

theorem member (watches : w.Watches I done (x :: left)) : x ∈ w.worker.watchers :=
  watches.all.mem_iff.2 (List.mem_append_right done List.mem_cons_self)

theorem still (watches : w.Watches I done left) (hush : w.Hush w') (clear : w'.Undeterred) (member : x ∈ done) :
    ∃ seen : World, I seen ∧ seen.worker.vault.told x.promise = some .pending ∧ seen.Hush w' := by
  obtain ⟨seen, ok, told, before⟩ := watches.done (hush.undeterred clear) x member
  exact ⟨seen, ok, told, before.trans hush⟩

theorem answered (watches : w.Watches I done (x :: left)) (hush : w.Hush w')
    (gone : w'.worker.watchers = w.worker.watchers.erase x) : w'.Watches I done left := by
  refine ⟨?_, fun clear _ => watches.still hush clear⟩
  have all := (watches.all.trans List.perm_middle).erase x
  rwa [List.erase_cons_head, ← gone] at all

theorem kept (watches : w.Watches I done (x :: left)) (hush : w.Hush w') (same : w'.worker.watchers = w.worker.watchers)
    (ok : I w') (early : w'.Undeterred -> w'.worker.vault.told x.promise = some .pending) :
    w'.Watches I (done ++ [x]) left := by
  constructor
  next => simpa only [same, List.append_assoc, List.singleton_append] using watches.all
  next =>
    intro clear y member
    rcases List.mem_append.1 member with before | new
    next => exact watches.still hush clear before
    next => exact List.mem_singleton.1 new ▸ ⟨w', ok, early clear, .refl w'⟩

end Watches

end World

namespace Runner

variable {α : Type} {r : Runner} {w : World}

theorem easing {t : Thread} {act : WorldM α} (quiet : act.Only Act.Quiet) (w : World) : w.Easing (final (r.on t act) w) :=
  ⟨undisturbed quiet w, (lull quiet w).toHush⟩

end Runner

namespace LoopM

variable {P : Pact} {b : Nat} {w : World} {r : Runner} {x : Watcher}

theorem keeps_calmly {α : Type} {t : Thread} {act : WorldM α} (does : r.Does P t act) (quiet : act.Only Act.Quiet) :
    Keeps P b (r.on t act) w fun _ w' => w.Lull w' ∧ w.Easing w' :=
  ⟨fun _ early => ⟨does early, ⟨fun _ _ => ⟨Runner.lull quiet w, Runner.easing quiet w⟩⟩⟩⟩

variable (routine : Routine P) (chores : r.Chores P)
include routine chores

/-- A watcher is done with, and its promise is let go. -/
theorem keeps_dismiss (d : Duty) (allowed : d.Allowed w.arrive) (late : ∀ n, d = .delayed n -> b ≤ n)
    (whole : d.isOfWait = false) (easing : w.arrive.Easing (d.apply w.arrive))
    (gone : (d.apply w.arrive).worker.watchers = w.arrive.worker.watchers.erase x) :
    Keeps P b (do step d; r.act (WorldM.discardHandle x.promise)) w fun _ w' =>
      w.Easing w' ∧ w'.worker.watchers = w.worker.watchers.erase x := by
  apply keeps_bind (keeps_step routine d allowed late whole)
  rintro _ _ rfl
  have quiet := WorldM.quiet_discardHandle x.promise
  refine (keeps_calmly (chores.discard x.promise) quiet).imp fun _ w' ⟨lull, eased⟩ => ?_
  refine ⟨w.easing_arrive.trans (easing.trans eased), ?_⟩
  rw [lull.watchers, gone, w.lull_arrive.watchers]

theorem keeps_conclude {result : Except Error Settled} (member : x ∈ w.worker.watchers)
    (conveys : w.worker.vault.link.faults = Table.empty -> Conveys result (w.worker.vault.told x.promise)) :
    Keeps P b (conclude r x result) w fun _ w' => w.Easing w' ∧ w'.worker.watchers = w.worker.watchers.erase x := by
  have allowed : (Duty.answer x result).Allowed w.arrive :=
    ⟨w.lull_arrive.watchers.symm ▸ member, w.vault_arrive.symm ▸ conveys⟩
  have eased : w.arrive.Easing ((Duty.answer x result).apply w.arrive) := .of_note rfl rfl rfl
  exact keeps_dismiss routine chores (.answer x result) allowed nofun rfl eased rfl

theorem keeps_checkWatcher (member : x ∈ w.worker.watchers) :
    Keeps P b (checkWatcher r x) w fun _ w' => w.Easing w' ∧ (w'.worker.watchers = w.worker.watchers.erase x ∨
      w'.worker.watchers = w.worker.watchers ∧ (w'.Undeterred -> w'.worker.vault.told x.promise = some .pending)) := by
  apply keeps_bind (keeps_look routine)
  rintro _ w₁ ⟨rfl, rfl⟩
  have lull : w.Lull w.arrive := w.lull_arrive
  have easing : w.Easing w.arrive := w.easing_arrive
  generalize w.arrive = w₁ at *
  have member : x ∈ w₁.worker.watchers := lull.watchers ▸ member
  split
  next gone =>
    have allowed : (Duty.forsake x).Allowed w₁.arrive :=
      ⟨w₁.lull_arrive.watchers.symm ▸ member, w₁.lull_arrive.gone x gone⟩
    have eased : w₁.arrive.Easing ((Duty.forsake x).apply w₁.arrive) := .of_note rfl rfl rfl
    refine (keeps_dismiss routine chores (.forsake x) allowed nofun rfl eased rfl).imp fun _ w' ⟨eased, erased⟩ => ?_
    exact ⟨easing.trans eased, .inl (lull.watchers ▸ erased)⟩
  next =>
    apply keeps_bind ((keeps_calmly (chores.settlement x.promise) (Attempt.quiet_settlement _)).and fun opened =>
      Runner.ends_look opened x.promise)
    rintro found w₂ ⟨⟨lull', easing'⟩, -, finds⟩
    have member : x ∈ w₂.worker.watchers := lull'.watchers ▸ member
    have same : w₂.worker.watchers = w.worker.watchers := lull'.watchers.trans lull.watchers
    have finds (clear : w₂.worker.vault.link.faults = Table.empty) := finds (easing'.faults.1 clear)
    have concluded {result : Except Error Settled}
        (conveys : w₂.worker.vault.link.faults = Table.empty -> Conveys result (w₂.worker.vault.told x.promise)) :
        Keeps P b (conclude r x result) w₂ fun _ w' => w.Easing w' ∧ (w'.worker.watchers = w.worker.watchers.erase x ∨
          w'.worker.watchers = w.worker.watchers ∧ (w'.Undeterred -> w'.worker.vault.told x.promise = some .pending)) :=
      (keeps_conclude routine chores member conveys).imp fun _ w' ⟨eased, erased⟩ =>
        ⟨easing.trans (easing'.trans eased), .inl (same ▸ erased)⟩
    split
    next => exact keeps_pure ⟨easing.trans easing', .inr ⟨same, fun clear => finds clear.direct⟩⟩
    next => exact concluded finds
    next => exact concluded finds

theorem keeps_checkAll {done : List Watcher} (left : List Watcher) (watches : w.Watches P.always done left) (ok : P.always w) :
    Keeps P b (checkAll r left) w fun _ w' => w.Easing w' ∧ w'.Checked P.always := by
  induction left generalizing done w with
  | nil => exact keeps_pure ⟨.refl w, watches.checked⟩
  | cons x rest ih =>
    apply keeps_bind ((keeps_checkWatcher routine chores watches.member).sure ok)
    rintro _ w' ⟨⟨easing, gone | ⟨same, early⟩⟩, ok⟩
    next => exact (ih (watches.answered easing.hush gone) ok).imp fun _ _ ⟨eased, checked⟩ => ⟨easing.trans eased, checked⟩
    next =>
      have watches := watches.kept easing.hush same ok early
      exact (ih watches ok).imp fun _ _ ⟨eased, checked⟩ => ⟨easing.trans eased, checked⟩

/-- Every watcher is looked after, whatever comes of the others. -/
theorem keeps_checkWatchers (ok : P.always w) :
    Keeps P b (checkWatchers r) w fun _ w' => w.Easing w' ∧ w'.Checked P.always := by
  apply keeps_bind ((keeps_getWorker routine).sure ok)
  rintro _ _ ⟨⟨rfl, rfl⟩, ok⟩
  refine (keeps_checkAll routine chores _ (.started w.arrive) ok).imp fun _ _ ⟨eased, checked⟩ => ?_
  exact ⟨w.easing_arrive.trans eased, checked⟩

theorem keeps_watch (p : Ptr) (token : Option TokenId) (reply : ReplyId) :
    Keeps P b (watch r p token reply) w fun _ _ => True := by
  apply keeps_bind (keeps_chore (chores.duplicate .worker _))
  intro duplicate w _
  split
  next => exact keeps_pure trivial
  next promise =>
    apply keeps_bind ((keeps_calmly (chores.settlement promise) (Attempt.quiet_settlement _)).and fun opened =>
      Runner.ends_look opened promise)
    rintro found w₁ ⟨⟨lull, easing⟩, -, finds⟩
    split
    next => exact keeps_bind (keeps_chore (chores.discard promise)) fun _ _ _ => keeps_pure trivial
    next found =>
      apply keeps_bind (keeps_step routine (.watch ⟨promise, token, reply⟩) trivial nofun rfl)
      rintro _ _ rfl
      dsimp only
      split
      next => exact keeps_pure trivial
      next o =>
        apply keeps_bind (keeps_conclude routine chores (x := ⟨promise, token, reply⟩) ?_ ?_)
        next => exact fun _ _ _ => keeps_pure trivial
        next => exact List.mem_append_right _ (List.mem_singleton.2 rfl)
        next =>
          intro clear
          have same : ((Duty.watch ⟨promise, token, reply⟩).apply w₁.arrive).worker.vault = w₁.worker.vault := w₁.vault_arrive
          rw [same] at clear ⊢
          exact finds (easing.faults.1 clear)

end LoopM

end ScriptHost
