import ScriptHost.Proofs.Dispatcher.Sessions
import ScriptHost.Proofs.Dispatcher.Submit

set_option autoImplicit false

/-!
What becomes of commands: those that are accepted are taken in the same order, up to the shutdown, and what
comes too late is refused.
-/

namespace ScriptHost

open LoopM

namespace Mark

def acceptedCommand? : Mark -> Option Command
  | accepted _ c => some c
  | _ => none

def takenCommand? : Mark -> Option Command
  | taken c => some c
  | _ => none

def phase? : Mark -> Option Phase
  | phase p => some p
  | _ => none

end Mark

def acceptedCommands (journal : List Mark) : List Command :=
  journal.filterMap Mark.acceptedCommand?

def takenCommands (journal : List Mark) : List Command :=
  journal.filterMap Mark.takenCommand?

def lastPhase (journal : List Mark) : Phase :=
  (journal.findSome? Mark.phase?).getD .idle

namespace Mark

/-- How commands go in and out. After the shutdown nothing more comes in at the front, and only then is
anything refused. The worker takes commands in the order in which they were accepted, and does not leave its
loop before it has taken all of them up to the shutdown; only then does it stop. A shutdown is never taken
back. -/
def Lawful : Mark -> List Mark -> Prop
  | accepted port c, earlier =>
      left ∉ earlier ∧ (port = .front ∨ c = .shutdown -> .shutdown ∉ acceptedCommands earlier)
  | refused _ _, earlier => .shutdown ∈ acceptedCommands earlier
  | taken c, earlier => (acceptedCommands earlier).reverse[(takenCommands earlier).length]? = some c
  | left, earlier =>
      ∃ before after, (acceptedCommands earlier).reverse = before ++ .shutdown :: after ∧
        before ++ [.shutdown] <+: (takenCommands earlier).reverse
  | phase p, earlier =>
      ((∃ q, phase q ∈ earlier ∧ q.isOver = true) -> p = .stopped) ∧ (p = .stopped -> left ∈ earlier)
  | _, _ => True

def Elsewhere : Mark -> Prop
  | microtaskQueued _ | microtaskStarted _ | cycle _ | delayed _ _ | flush _ | reported _ | standing _ | fault
  | scripted | watching _ | answered _ _ _ | dropped _ _ | blocking _ => True
  | _ => False

variable {m : Mark}

theorem Elsewhere.lawful (other : m.Elsewhere) (earlier : List Mark) : m.Lawful earlier := by
  cases m <;> first | exact other.elim | trivial

theorem Elsewhere.unaccepted (other : m.Elsewhere) : m.acceptedCommand? = none := by
  cases m <;> first | rfl | exact other.elim

theorem Elsewhere.untaken (other : m.Elsewhere) : m.takenCommand? = none := by
  cases m <;> first | rfl | exact other.elim

theorem Elsewhere.unphased (other : m.Elsewhere) : m.phase? = none := by
  cases m <;> first | rfl | exact other.elim

end Mark

namespace Worker

structure Desk where
  phase : Phase
  accepting : Bool
  held : Bool
  inbox : List Command
  backlog : List Command
  stopping : Bool

def desk (k : Worker) : Desk :=
  ⟨k.phase, k.accepting, k.held, k.inbox, k.backlog, k.stopping⟩

end Worker

namespace World

variable {w w' : World}

/-- Where the commands are, and what the marks say about the worker. -/
structure Intake (w : World) : Prop where
  lawful : Throughout Mark.Lawful w.journal
  phase : w.worker.phase = lastPhase w.journal
  ended : ∀ p, .phase p ∈ w.journal -> p.isOver = true -> w.worker.phase.isOver = true
  closing : w.worker.accepting = false <-> .shutdown ∈ acceptedCommands w.journal
  line : .left ∉ w.journal -> (acceptedCommands w.journal).reverse =
    (takenCommands w.journal).reverse ++ (w.worker.backlog ++ w.worker.inbox)
  stopping : w.worker.stopping = true -> .shutdown ∈ takenCommands w.journal
  gone : .left ∈ w.journal -> w.worker.accepting = false ∧ w.worker.held = false

structure Apart (w w' : World) : Prop where
  desk : w'.worker.desk = w.worker.desk
  journal : ∃ marks, w'.journal = marks ++ w.journal ∧ ∀ m ∈ marks, m.Elsewhere

theorem Apart.of_same (desk : w'.worker.desk = w.worker.desk) (journal : w'.journal = w.journal) : Apart w w' :=
  ⟨desk, [], journal, List.forall_mem_nil _⟩

theorem Apart.of_note {m : Mark} (desk : w'.worker.desk = w.worker.desk) (journal : w'.journal = m :: w.journal)
    (other : m.Elsewhere) : Apart w w' :=
  ⟨desk, [m], journal, fun _ member => List.mem_singleton.1 member ▸ other⟩

theorem Intake.apart (ok : w.Intake) (apart : Apart w w') : w'.Intake := by
  obtain ⟨same, marks, grown, other⟩ := apart
  simp only [Worker.desk, Worker.Desk.mk.injEq] at same
  obtain ⟨phase, accepting, held, inbox, backlog, stopping⟩ := same
  have accepted : acceptedCommands w'.journal = acceptedCommands w.journal := by
    rw [grown]
    exact filterMap_grown fun m member => (other m member).unaccepted
  have taken : takenCommands w'.journal = takenCommands w.journal := by
    rw [grown]
    exact filterMap_grown fun m member => (other m member).untaken
  have last : lastPhase w'.journal = lastPhase w.journal := by
    have none_new : marks.findSome? Mark.phase? = none :=
      List.findSome?_eq_none_iff.2 fun m member => (other m member).unphased
    rw [lastPhase, grown, List.findSome?_append, none_new]
    rfl
  have earlier {m : Mark} (here : ¬ m.Elsewhere) : m ∈ w'.journal <-> m ∈ w.journal := by
    rw [grown]
    exact mem_grown other here
  constructor
  next =>
    rw [grown]
    exact ok.lawful.append fun m member => (other m member).lawful
  next => rw [phase, last, ok.phase]
  next =>
    intro p member
    rw [phase]
    exact ok.ended p ((earlier id).1 member)
  next => rw [accepting, accepted, ok.closing]
  next =>
    intro staying
    rw [accepted, taken, backlog, inbox]
    exact ok.line fun member => staying ((earlier id).2 member)
  next =>
    rw [stopping, taken]
    exact ok.stopping
  next =>
    intro member
    rw [accepting, held]
    exact ok.gone ((earlier id).1 member)

theorem Intake.setPhase (ok : w.Intake) {p : Phase} (going : p ≠ .stopped) : (w.setPhase p).Intake := by
  unfold World.setPhase
  split
  next => exact ok
  next running =>
    have never (q : Phase) (member : .phase q ∈ w.journal) : q.isOver = false :=
      Bool.eq_false_iff.2 fun isOver => running (ok.ended q member isOver)
    exact {
      lawful := by
        refine ⟨⟨?_, fun stopped => absurd stopped going⟩, ok.lawful⟩
        rintro ⟨q, member, isOver⟩
        exact absurd isOver (Bool.eq_false_iff.1 (never q member))
      phase := rfl
      ended := by
        intro q member isOver
        rcases List.mem_cons.1 member with same | old
        · cases same
          exact isOver
        · exact absurd isOver (Bool.eq_false_iff.1 (never q old))
      closing := ok.closing
      line := fun staying => ok.line fun member => staying (List.mem_cons_of_mem _ member)
      stopping := ok.stopping
      gone := fun member => ok.gone ((List.mem_cons.1 member).resolve_left nofun) }

theorem Intake.accept (ok : w.Intake) {port : Port} {c : Command} (accepting : Bool)
    (reachable : w.worker.accepting = true ∨ w.worker.held = true)
    (inTime : port = .front ∨ c = .shutdown -> w.worker.accepting = true)
    (closing : accepting = false <-> c = .shutdown ∨ w.worker.accepting = false) :
    ((w.accept port c).onWorker fun k => { k with accepting }).Intake := by
  -- Once the worker has left its loop, no way in is open.
  have staying : .left ∉ w.journal := fun left => by
    obtain ⟨closed, unheld⟩ := ok.gone left
    rcases reachable with front | back
    · exact absurd (closed.symm.trans front) nofun
    · exact absurd (unheld.symm.trans back) nofun
  exact {
    lawful := by
      refine ⟨⟨staying, fun early shut => ?_⟩, ok.lawful⟩
      exact absurd ((ok.closing.2 shut).symm.trans (inTime early)) nofun
    phase := ok.phase
    ended := fun p member => ok.ended p ((List.mem_cons.1 member).resolve_left nofun)
    closing := by
      change accepting = false <-> .shutdown ∈ c :: acceptedCommands w.journal
      rw [closing, List.mem_cons, ok.closing, eq_comm]
    line := fun _ => by
      change (c :: acceptedCommands w.journal).reverse =
        (takenCommands w.journal).reverse ++ (w.worker.backlog ++ (w.worker.inbox ++ [c]))
      rw [List.reverse_cons, ok.line staying]
      simp only [List.append_assoc]
    stopping := ok.stopping
    gone := fun member => absurd ((List.mem_cons.1 member).resolve_left nofun) staying }

theorem Intake.refuse (ok : w.Intake) {port : Port} (item : Work) (closed : w.worker.accepting = false) :
    (w.note (.refused port item)).Intake where
  lawful := ⟨ok.closing.1 closed, ok.lawful⟩
  phase := ok.phase
  ended p member := ok.ended p ((List.mem_cons.1 member).resolve_left nofun)
  closing := ok.closing
  line staying := ok.line fun member => staying (List.mem_cons_of_mem _ member)
  stopping := ok.stopping
  gone member := ok.gone ((List.mem_cons.1 member).resolve_left nofun)

theorem open_reachable {port : Port} (opened : w.isOpen port = true) :
    w.worker.accepting = true ∨ w.worker.held = true := by
  cases port with
  | front => exact .inl opened
  | back => exact Bool.or_eq_true_iff.1 opened

theorem shut_closed {port : Port} (shut : ¬ w.isOpen port = true) : w.worker.accepting = false := by
  cases port with
  | front => exact Bool.eq_false_iff.2 shut
  | back => exact Bool.eq_false_iff.2 fun front => shut (Bool.or_eq_true_iff.2 (.inl front))

theorem Intake.meet (ok : w.Intake) (d : Demand) : (w.meet d).Intake := by
  cases d with
  | send port item =>
    simp only [World.meet]
    split
    next opened =>
      have front (inTime : port = .front ∨ Command.work item = .shutdown) : w.worker.accepting = true := by
        rcases inTime with rfl | impossible
        · exact opened
        · cases impossible
      exact ok.accept w.worker.accepting (open_reachable opened) front (by simp)
    next shut => exact ok.refuse item (shut_closed shut)
  | announce => exact ok.setPhase (by decide)
  | close =>
    simp only [World.meet]
    split
    next front => exact ok.accept false (.inl front) (fun _ => front) (by simp)
    next => exact ok
  | hold =>
    have gone (left : .left ∈ w.journal) :
        w.worker.accepting = false ∧ (w.worker.accepting || w.worker.held) = false := by
      obtain ⟨closed, unheld⟩ := ok.gone left
      exact ⟨closed, by rw [closed, unheld]; rfl⟩
    exact ⟨ok.lawful, ok.phase, ok.ended, ok.closing, ok.line, ok.stopping, gone⟩
  | letGo =>
    have gone (left : .left ∈ w.journal) : w.worker.accepting = false ∧ false = false :=
      ⟨(ok.gone left).1, rfl⟩
    exact ⟨ok.lawful, ok.phase, ok.ended, ok.closing, ok.line, ok.stopping, gone⟩
  | desert reply => exact ⟨ok.lawful, ok.phase, ok.ended, ok.closing, ok.line, ok.stopping, ok.gone⟩

theorem Intake.taken (ok : w.Intake) (staying : .left ∉ w.journal) {c : Command} {rest : List Command}
    (stopping : Bool) (waiting : w.worker.backlog = c :: rest)
    (stops : stopping = true -> c = .shutdown ∨ w.worker.stopping = true) :
    ((w.onWorker fun k => { k with backlog := rest, stopping }).note (.taken c)).Intake := by
  have before := ok.line staying
  rw [waiting] at before
  exact {
    lawful := by
      refine ⟨?_, ok.lawful⟩
      change (acceptedCommands w.journal).reverse[(takenCommands w.journal).length]? = some c
      rw [before, ← List.length_reverse, List.getElem?_append_right (Nat.le_refl _), Nat.sub_self]
      rfl
    phase := ok.phase
    ended := fun p member => ok.ended p ((List.mem_cons.1 member).resolve_left nofun)
    closing := ok.closing
    line := fun _ => by
      change (acceptedCommands w.journal).reverse =
        (c :: takenCommands w.journal).reverse ++ (rest ++ w.worker.inbox)
      rw [before, List.reverse_cons, List.append_assoc]
      rfl
    stopping := fun stopped => by
      rcases stops stopped with rfl | already
      · exact List.mem_cons_self ..
      · exact List.mem_cons_of_mem _ (ok.stopping already)
    gone := fun member => absurd ((List.mem_cons.1 member).resolve_left nofun) staying }

theorem Intake.take (ok : w.Intake) (staying : .left ∉ w.journal) : (Duty.take.apply w).Intake := by
  simp only [Duty.apply]
  split
  next => exact ok
  next rest waiting => exact ok.taken staying true waiting fun _ => .inl rfl
  next item rest waiting => exact ok.taken staying w.worker.stopping waiting .inr

theorem Intake.pull (ok : w.Intake) : (Duty.pull.apply w).Intake where
  lawful := ok.lawful
  phase := ok.phase
  ended := ok.ended
  closing := ok.closing
  line staying := by
    rw [show (Duty.pull.apply w).worker.inbox = [] from rfl, List.append_nil]
    exact ok.line staying
  stopping := ok.stopping
  gone := ok.gone

theorem Intake.receive (ok : w.Intake) : (Duty.receive.apply w).Intake := by
  simp only [Duty.apply]
  split
  next => exact ok
  next c rest waiting =>
    have line (staying : .left ∉ w.journal) : (acceptedCommands w.journal).reverse =
        (takenCommands w.journal).reverse ++ ((w.worker.backlog ++ [c]) ++ rest) := by
      rw [ok.line staying, waiting, List.append_assoc]
      rfl
    exact ⟨ok.lawful, ok.phase, ok.ended, ok.closing, line, ok.stopping, ok.gone⟩

/-- The worker leaves its loop only after it has taken the shutdown, and so all that came before. -/
theorem Intake.left (ok : w.Intake) (staying : .left ∉ w.journal) (last : .shutdown ∈ takenCommands w.journal) :
    ((w.onWorker fun k => { k with accepting := false, held := false }).note .left).Intake := by
  -- What was taken is a first part of what was accepted, and it ends in or after the shutdown.
  obtain ⟨before, after, split⟩ := List.append_of_mem (List.mem_reverse.2 last)
  have line := ok.line staying
  have upTo : before ++ [.shutdown] <+: (takenCommands w.journal).reverse :=
    ⟨after, by rw [split, List.append_assoc]; rfl⟩
  rw [split, List.append_assoc, List.cons_append] at line
  have requested : .shutdown ∈ acceptedCommands w.journal := by
    rw [← List.mem_reverse, line]
    exact List.mem_append_right _ (List.mem_cons_self ..)
  exact {
    lawful := ⟨⟨before, _, line, upTo⟩, ok.lawful⟩
    phase := ok.phase
    ended := fun p member => ok.ended p ((List.mem_cons.1 member).resolve_left nofun)
    closing := ⟨fun _ => requested, fun _ => rfl⟩
    line := fun staying => absurd (List.mem_cons_self ..) staying
    stopping := ok.stopping
    gone := fun _ => ⟨rfl, rfl⟩ }

theorem Intake.leave (ok : w.Intake) (staying : .left ∉ w.journal) (stopped : w.worker.stopping = true) :
    (Duty.leave.apply w).Intake := by
  have announced : (w.setPhase .shuttingDown).Intake := ok.setPhase (by decide)
  have unchanged : (w.setPhase .shuttingDown).worker.stopping = w.worker.stopping ∧
      (.left ∈ (w.setPhase .shuttingDown).journal -> .left ∈ w.journal) := by
    unfold World.setPhase
    split
    next => exact ⟨rfl, id⟩
    next => exact ⟨rfl, fun member => (List.mem_cons.1 member).resolve_left nofun⟩
  exact announced.left (fun member => staying (unchanged.2 member))
    (announced.stopping (unchanged.1.trans stopped))

theorem Intake.drop (ok : w.Intake) (left : .left ∈ w.journal) : (Duty.dropCommands.apply w).Intake :=
  ⟨ok.lawful, ok.phase, ok.ended, ok.closing, absurd left, ok.stopping, ok.gone⟩

theorem Intake.stop (ok : w.Intake) (left : .left ∈ w.journal) : (Duty.stop.apply w).Intake where
  lawful := ⟨⟨fun _ => rfl, fun _ => left⟩, ok.lawful⟩
  phase := rfl
  ended _ _ _ := rfl
  closing := ok.closing
  line staying := ok.line fun member => staying (List.mem_cons_of_mem _ member)
  stopping := ok.stopping
  gone member := ok.gone ((List.mem_cons.1 member).resolve_left nofun)

theorem Intake.changed (ok : w.Intake) (c : Change) : (c.apply w).Intake := by
  cases c with
  | demand d => exact ok.meet d
  | queueMicrotask c => exact ok.apart (.of_note rfl rfl trivial)
  | fault name f => exact ok.apart (.of_note rfl rfl trivial)
  | stand => exact ok.apart (.of_note rfl rfl trivial)
  | script => exact ok.apart (.of_note rfl rfl trivial)
  | _ => exact ok.apart (.of_same rfl rfl)

end World

theorem intake_still : Still World.Intake where
  schedule _ _ ok := ok.apart (.of_same rfl rfl)
  change c _ ok := ok.changed c
  ask _ _ ok := ok.apart (.of_same rfl rfl)
  book _ _ _ ok := ok.apart (.of_same rfl rfl)

theorem still_within {I : World -> Prop} (still : Still I) (inside : Prop) :
    Still fun w => I w ∧ (.left ∈ w.journal <-> inside) where
  schedule w a ok := ⟨still.schedule w a ok.1, ok.2⟩
  change c w ok := ⟨still.change c w ok.1, (c.frame (b := 0) w).left.trans ok.2⟩
  ask q w ok := ⟨still.ask q w ok.1, ok.2⟩
  book w alive next ok := ⟨still.book w alive next ok.1, ok.2⟩

theorem intake_stable : Stable fun w => w.Intake ∧ (.left ∈ w.journal <-> False) where
  toStill := still_within intake_still False
  duty d w _ allowed ok := by
    have frame : w.Frame 0 (d.apply w) := Duty.frame allowed fun _ _ => Nat.zero_le _
    refine ⟨?_, frame.left.trans ok.2⟩
    cases d with
    | phase p =>
      have going : p ≠ .stopped := fun stopped => by
        subst stopped
        cases allowed
      exact ok.1.setPhase going
    | pull => exact ok.1.pull
    | receive => exact ok.1.receive
    | take => exact ok.1.take ok.2.1
    | takeMicrotask =>
      simp only [Duty.apply]
      split
      next => exact ok.1
      next => exact ok.1.apart (.of_note rfl rfl trivial)
    | beginCycle => exact ok.1.apart (.of_note rfl rfl trivial)
    | delayed n => exact ok.1.apart (.of_note rfl rfl trivial)
    | watch x => exact ok.1.apart (.of_note rfl rfl trivial)
    | answer x result => exact ok.1.apart (.of_note rfl rfl trivial)
    | forsake x => exact ok.1.apart (.of_note rfl rfl trivial)
    | block => exact ok.1.apart (.of_note rfl rfl trivial)
    | flush => exact allowed.elim
    | report p reason => exact allowed.elim
    | leave => exact allowed.elim
    | dropCommands => exact allowed.elim
    | dropWork => exact allowed.elim
    | dropFunctions => exact allowed.elim
    | closeVault => exact allowed.elim
    | stop => exact allowed.elim
    | _ => exact ok.1.apart (.of_same rfl rfl)
  flush w _ _ _ ok := by
    have frame : w.Frame 0 (final LoopM.flushRejections w) := World.frame_flushRejections (Nat.zero_le _)
    have kept := intake_still.grows_flushRejections (b := 0) (w := w)
      (fun _ _ _ ok => ok.apart (.of_note rfl rfl trivial)) (fun _ ok => ok.apart (.of_same rfl rfl))
      (fun ok => ok.apart (.of_note rfl rfl trivial)) (Nat.zero_le _)
    exact ⟨kept.kept ok.1, frame.left.trans ok.2⟩

theorem intake_abiding : Abiding fun w => w.Intake ∧ (.left ∈ w.journal <-> True) where
  toStill := still_within intake_still True
  close _ ok := ⟨ok.1.apart (.of_same rfl rfl), ok.2⟩
  duty d w lets ok := by
    cases d with
    | dropCommands => exact ⟨ok.1.drop (ok.2.2 trivial), ok.2⟩
    | stop => exact ⟨ok.1.stop (ok.2.2 trivial), ⟨fun _ => trivial, fun _ => List.mem_cons_of_mem _ (ok.2.2 trivial)⟩⟩
    | dropWork => exact ⟨ok.1.apart (.of_same rfl rfl), ok.2⟩
    | dropFunctions => exact ⟨ok.1.apart (.of_same rfl rfl), ok.2⟩
    | closeVault => exact ⟨ok.1.apart (.of_same rfl rfl), ok.2⟩
    | _ => exact lets.elim

/-- What holds of the commands of a session, wherever it has come to. After the shutdown every request is
refused, and to ask for the shutdown again changes nothing. -/
structure World.Served (w : World) : Prop where
  lawful : Throughout Mark.Lawful w.journal
  phase : w.worker.phase = lastPhase w.journal
  refused : .shutdown ∈ acceptedCommands w.journal -> ∀ (r : Runner) (t : Thread) (work : ReplyId -> Work)
    (wait : ReplyId -> Wait),
      result (r.on t (WorldM.request work wait)) w = some (.over (.failure .shuttingDown))
  again : .shutdown ∈ acceptedCommands w.journal -> .phase .shuttingDown ∈ w.journal ->
    w.meet .announce = w ∧ w.meet .close = w

namespace World

variable {w : World}

theorem Intake.served (ok : w.Intake) : w.Served where
  lawful := ok.lawful
  phase := ok.phase
  refused shut _ _ _ _ := request_refused (ok.closing.2 shut)
  again shut announced := by
    have isOver : w.worker.phase.isOver = true := ok.ended .shuttingDown announced rfl
    have closed : w.worker.accepting = false := ok.closing.2 shut
    constructor
    next => simp only [World.meet, World.setPhase, isOver, if_true]
    next => simp only [World.meet, closed, Bool.false_eq_true, if_false]

theorem New.intake (new : w.New) : w.Intake := by
  have only (m : Mark) (other : m ≠ .fault) : m ∉ w.journal := fun member => other (new.journal m member)
  have accepted : acceptedCommands w.journal = [] := new.filterMap rfl
  have taken : takenCommands w.journal = [] := new.filterMap rfl
  have unphased : w.journal.findSome? Mark.phase? = none := by
    apply List.findSome?_eq_none_iff.2
    intro m member
    rw [new.journal m member]
    rfl
  constructor
  next => exact new.throughout fun _ => trivial
  next =>
    rw [new.phase, lastPhase, unphased]
    rfl
  next => exact fun p member => absurd member (only _ nofun)
  next =>
    rw [new.accepting, accepted]
    exact ⟨nofun, nofun⟩
  next =>
    intro _
    rw [accepted, taken, new.backlog, new.inbox]
    rfl
  next =>
    rw [new.stopping]
    exact nofun
  next => exact fun member => absurd member (only _ nofun)

end World

/-- A program sends two items. Another thread shuts the dispatcher down while they wait, and then sends an
item of its own. -/
def postingSteps : List CallerStep :=
  [.invoke [.post "first" [], .post "second" []]]

def lateArrivals : List (List Demand) :=
  List.replicate 60 [] ++ [[.announce], [.close], [.send .front .noop]]

end ScriptHost
