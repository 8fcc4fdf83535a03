import ScriptHost.Dispatcher.Caller
import ScriptHost.Proofs.Dispatcher.Runs

set_option autoImplicit false

/-!
How a request is answered: as accepted when it was, and with the refusal when the front is closed.
-/

namespace ScriptHost

open Dialogue LoopM

namespace Act

/-- What runs no programs and waits for nothing, and asks the engine on the thread of the worker only. -/
def Plain (t : Thread) : Act -> Prop
  | program _ _ | await _ _ => False
  | ask _ => t = .worker
  | _ => True

variable {r : Runner} {t : Thread}

theorem Plain.flat {a : Act} (plain : a.Plain t) : a.perform r t = a.perform Runner.flat t := by
  cases a with
  | program operands ops => exact plain.elim
  | await p token => exact plain.elim
  | _ => rfl

theorem Plain.ends {a : Act} (plain : a.Plain t) (w : World) : ∃ x, result (a.perform r t) w = some x := by
  cases a with
  | program operands ops => exact plain.elim
  | await p token => exact plain.elim
  | ask q =>
    obtain rfl := plain
    exact ⟨_, rfl⟩
  | _ => exact ⟨_, rfl⟩

end Act

namespace Runner

variable {α : Type} {r : Runner} {t : Thread} {act : WorldM α}

theorem on_plain (plain : act.Only (Act.Plain t)) : r.on t act = flat.on t act := by
  induction act with
  | done a => rfl
  | ask a next ih =>
    have same (x : a.Answer) : r.on t (next x) = flat.on t (next x) := ih x (plain.2 x)
    change (a.perform r t >>= fun x => r.on t (next x)) = a.perform flat t >>= fun x => flat.on t (next x)
    rw [plain.1.flat]
    simp only [same]

theorem plain_ends (plain : act.Only (Act.Plain t)) (w : World) : ∃ a, result (r.on t act) w = some a := by
  induction act generalizing w with
  | done a => exact ⟨a, rfl⟩
  | ask a next ih =>
    obtain ⟨x, came⟩ := plain.1.ends (r := r) (t := t) w
    obtain ⟨b, ended⟩ := ih x (plain.2 x) (final (a.perform r t) w)
    refine ⟨b, ?_⟩
    change result (a.perform r t >>= fun x => r.on t (next x)) w = some b
    rw [result_bind, came]
    exact ended

theorem plain_journal (plain : act.Only (Act.Plain t)) (w : World) :
    ∃ later, (final (r.on t act) w).journal = later ++ w.journal := by
  obtain ⟨later, grown, _⟩ := (still_anything.ran (t := t) flat_sound act (Nat.zero_le w.cycles)).frame.journal
  rw [on_plain plain]
  exact ⟨later, grown⟩

end Runner

namespace WorldM

variable {t : Thread}

theorem plain_discardHandle (h : Handle) : (discardHandle h).Only (Act.Plain t) :=
  only_question trivial

theorem plain_discardHandles (hs : List Handle) : (discardHandles hs).Only (Act.Plain t) := by
  induction hs with
  | nil => exact only_pure _
  | cons h rest ih => exact only_bind (plain_discardHandle h) fun _ => ih

theorem plain_discardOutcome (o : Settled) : (discardOutcome o).Only (Act.Plain t) := by
  cases o with
  | success slot =>
    cases slot with
    | live h => exact plain_discardHandle h
    | transferred => exact only_pure _
  | failure slot =>
    cases slot with
    | live h => exact plain_discardHandle h
    | transferred => exact only_pure _

theorem plain_getWorker : getWorker.Only (Act.Plain t) :=
  only_bind (only_question trivial) fun _ => only_pure _

theorem plain_send (port : Port) (w : Work) : (send port w).Only (Act.Plain t) :=
  only_bind (only_question trivial) fun _ => only_bind (only_question trivial) fun _ => only_pure _

theorem plain_releaseDeferred (d : Deferred) : (releaseDeferred d).Only (Act.Plain t) := by
  apply only_bind (only_question trivial)
  intro t
  apply only_bind plain_getWorker
  intro k
  split
  next =>
    apply only_bind (plain_send .back _)
    intro sent
    split
    next => exact only_pure _
    next => exact plain_discardHandles _
  next => exact plain_discardHandles _

theorem plain_letGoDeferred (id : DeferredId) : (letGoDeferred id).Only (Act.Plain t) := by
  apply only_bind (only_question trivial)
  intro w
  split
  next => exact only_pure _
  next d _ =>
    split
    next => exact only_bind (only_question trivial) fun _ => plain_releaseDeferred d
    next => exact only_question trivial

mutual

theorem plain_discardWork (w : Work) : (discardWork w).Only (Act.Plain t) := by
  cases w with
  | settle d result reply => exact plain_letGoDeferred d
  | settleHandle d fulfil h reply => exact only_bind (plain_discardHandle h) fun _ => plain_letGoDeferred d
  | settledValue o reply => exact plain_discardOutcome o
  | release handles => exact plain_discardHandles handles
  | gate items => exact plain_discardWorks items
  | _ => exact only_pure _

theorem plain_discardWorks (ws : List Work) : (discardWorks ws).Only (Act.Plain t) := by
  cases ws with
  | nil => exact only_pure _
  | cons w rest => exact only_bind (plain_discardWork w) fun _ => plain_discardWorks rest

end

theorem plain_submitBy (port : Port) (w : Work) : (submitBy port w).Only (Act.Plain t) := by
  apply only_bind (plain_send port w)
  intro sent
  split
  next => exact only_pure _
  next => exact only_bind (plain_discardWork w) fun _ => only_pure _

end WorldM

/-- An item is recorded as accepted or as refused, and whoever sent it is told so. -/
def World.Answered (w : World) (r : Runner) (t : Thread) (port : Port) (item : Work) : Prop :=
  let sent := r.on t (WorldM.submitBy port item)
  ∃ later,
    result sent w = some (.ok ()) ∧
        (final sent w).journal = later ++ .accepted port (.work item) :: w.arrive.journal ∨
      result sent w = some (.error .shuttingDown) ∧
        (final sent w).journal = later ++ .refused port item :: w.arrive.journal

section Submit

variable {w : World} {r : Runner} {t : Thread} {port : Port}

theorem result_send (item : Work) : result (r.on t (WorldM.send port item)) w = some (w.arrive.isOpen port) :=
  rfl

theorem final_send (item : Work) : final (r.on t (WorldM.send port item)) w = w.arrive.meet (.send port item) :=
  rfl

theorem submit_accepted (item : Work) (opened : w.arrive.isOpen port = true) :
    result (r.on t (WorldM.submitBy port item)) w = some (.ok ()) ∧
      final (r.on t (WorldM.submitBy port item)) w = w.arrive.accept port (.work item) := by
  unfold WorldM.submitBy
  rw [Runner.on_bind, result_bind, final_bind, result_send, final_send]
  simp only [opened, if_true, World.meet]
  exact ⟨rfl, rfl⟩

theorem submit_refused (item : Work) (shut : w.arrive.isOpen port = false) :
    result (r.on t (WorldM.submitBy port item)) w = some (.error .shuttingDown) ∧
      final (r.on t (WorldM.submitBy port item)) w =
        final (r.on t (WorldM.discardWork item)) (w.arrive.note (.refused port item)) := by
  obtain ⟨_, let_go⟩ := Runner.plain_ends (r := r) (t := t) (WorldM.plain_discardWork item)
    (w.arrive.note (.refused port item))
  unfold WorldM.submitBy
  rw [Runner.on_bind, result_bind, final_bind, result_send, final_send]
  simp only [shut, Bool.false_eq_true, if_false, World.meet]
  rw [Runner.on_bind, result_bind, final_bind, let_go]
  exact ⟨rfl, rfl⟩

theorem submit_answered (item : Work) : w.Answered r t port item := by
  cases opened : w.arrive.isOpen port with
  | true =>
    obtain ⟨answer, come⟩ := submit_accepted (r := r) (t := t) item opened
    exact ⟨[], .inl ⟨answer, by rw [come]; rfl⟩⟩
  | false =>
    obtain ⟨answer, come⟩ := submit_refused (r := r) (t := t) item opened
    obtain ⟨later, grown⟩ := Runner.plain_journal (r := r) (t := t) (WorldM.plain_discardWork item)
      (w.arrive.note (.refused port item))
    exact ⟨later, .inr ⟨answer, by rw [come, grown]; rfl⟩⟩

theorem request_refused {work : ReplyId -> Work} {wait : ReplyId -> Wait}
    (closed : w.worker.accepting = false) :
    result (r.on t (WorldM.request work wait)) w = some (.over (.failure .shuttingDown)) := by
  have numbered : result (r.on t WorldM.newReply) w = some w.arrive.caller.nextReply := rfl
  have still : (final (r.on t WorldM.newReply) w).arrive.isOpen .front = false :=
    (World.visited_arrive _).closed (w.visited_arrive.closed closed)
  have refused := (submit_refused (r := r) (t := t) (work w.arrive.caller.nextReply) still).1
  unfold WorldM.request WorldM.submit
  rw [Runner.on_bind, result_bind, numbered]
  simp only
  rw [Runner.on_bind, result_bind, refused]
  rfl

end Submit

end ScriptHost
