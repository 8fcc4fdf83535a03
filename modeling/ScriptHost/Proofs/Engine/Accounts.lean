import ScriptHost.Proofs.Engine.Ledger
import ScriptHost.Proofs.Engine.Queue

set_option autoImplicit false

/-!
An account of every reaction in a run, from its attachment to the end of its job.

The ledger fits the state of the run, and each move goes on with it: at any time a reaction is in one place, and it
leaves that for the next only when its promise settles or goes, its job is taken, or its job ends.
-/

namespace ScriptHost

namespace Hosting

open Heap

variable {d : Discipline} {s : Hosting} {m : Move} {j : Job} {w : Waiting} {rest : List Waiting}

theorem step_ordered (m : Move) (ok : s.engine.heap.Ordered) : (s.step m).engine.heap.Ordered := by
  have before : s.state.2.Ordered := ok
  have called : (s.called m).2.Ordered := by
    rcases called_cases s m with ⟨idle, -⟩ | ⟨p, v, reject, r, f, -, -, -, -, turns⟩
    next =>
      rw [idle]
      exact before
    next => exact Turns.ordered turns before
  rcases step_course (s := s) (m := m) fun none : False => none.elim with turns | ⟨-, mid, opening, turns⟩
  next => exact Turns.ordered turns called
  next => exact Turns.ordered turns (opening.ordered before)

theorem underWay_cons (waiting : s.waiting = w :: rest) (mine : w.job? = some j) :
    s.underWay = w :: rest.filter fun w => w.job?.isSome := by
  simp [underWay, waiting, mine]

/-- Other calls than those of jobs do not count. -/
theorem underWay_call {s' : Hosting} (waiting : s.waiting = w :: rest) (other : w.job? = none)
    (after : s'.waiting = rest ∨ ∃ w', s'.waiting = w' :: rest ∧ w'.job? = w.job?) : s'.underWay = s.underWay := by
  rcases after with ended | ⟨w', goes_on, same⟩
  next => simp [underWay, waiting, ended, other]
  next => simp [underWay, waiting, goes_on, same, other]

end Hosting

namespace Ledger

open Hosting

variable {d : Discipline} {s : Hosting} {m : Move} {L L' : Ledger} {j : Job} {w : Waiting} {rest : List Waiting}

/-- The ledger agrees with the state. -/
structure Fits (L : Ledger) (s : Hosting) : Prop where
  books : Books L.tickets s.engine.heap.affairs
  ordered : s.engine.heap.Ordered
  taken : L.courses.length = s.engine.heap.taken.length
  stacked : L.Stacked s.engine.heap.queued.reverse s.underWay

/-- What a move does to the jobs that were taken. -/
inductive Goes (s : Hosting) (m : Move) (L L' : Ledger) : Prop where
  | rests (courses : L'.courses = L.courses) (running : L'.running = L.running)
  | takes (move : m = .job) (courses : L'.courses = L.courses ++ [.begun]) (running : L'.running = L.courses.length :: L.running)
  | calls (n : Nat) (j : Job) (i : Invocation) (queued : s.engine.heap.queued.reverse[n]? = some j)
      (course : L.courses[n]? = some .begun) (invokes : s.Invokes m j i) (courses : L'.courses = L.courses.set n (.running i))
      (running : L'.running = L.running)
  | ends (n : Nat) (j : Job) (c : JobCourse) (e : Upshot) (queued : s.engine.heap.queued.reverse[n]? = some j)
      (course : L.courses[n]? = some c) (ended : s.Ended m j c.call? e) (concludes : s.Concludes m j e)
      -- Another promise that the handler has returned is adopted.
      (adopts : ∀ v, e.told s.engine.heap j = .reacted v ->
        News s.engine.heap.history (s.step m).engine.heap.history (.reacted v) ->
          ∃ t ∈ L'.tickets.drop L.tickets.length, t.source = v ∧ t.reaction = ⟨j.derived, none, none⟩)
      (courses : L'.courses = L.courses.set n (.finished c.call? e)) (running : L.running = n :: L'.running)

/-- How a move goes on with the ledger. -/
structure Follows (s : Hosting) (m : Move) (L L' : Ledger) : Prop where
  dealings : m ≠ .job -> Dealings (s.Attaches m) (L.tickets, s.engine.heap.affairs) (L'.tickets, (s.step m).engine.heap.affairs)
  kept : m = .job -> L'.tickets = L.tickets
  old : ∀ (i : Nat) (t : Ticket), L.tickets[i]? = some t -> ∃ t', L'.tickets[i]? = some t' ∧
    t.Becomes (s.Attaches m) (L.tickets, s.engine.heap.affairs) (L'.tickets, (s.step m).engine.heap.affairs) t'
  -- Whoever asks for a reaction of a promise gets one.
  asked : ∀ p onFulfilled onRejected, m = .request (.promiseThen p onFulfilled onRejected) -> s.engine.heap.isPromise p = true ->
    (L'.tickets.drop L.tickets.length).map Ticket.source = [p]
  goes : Goes s m L L'

theorem fits_empty : empty.Fits start where
  books := Books.empty
  ordered := rfl
  taken := rfl
  stacked := Stacked.empty

namespace Fits

theorem innermost (fits : L.Fits s) (waiting : s.waiting = w :: rest) (mine : w.job? = some j) :
    ∃ n ns c, L.running = n :: ns ∧ s.engine.heap.queued.reverse[n]? = some j ∧ L.courses[n]? = some c ∧ w.Shows j c := by
  have waits := fits.stacked.waits
  rw [underWay_cons waiting mine] at waits
  rcases running : L.running with _ | ⟨n, ns⟩
  next =>
    rw [running] at waits
    cases waits
  next =>
    rw [running] at waits
    cases waits with
    | cons here _ =>
      obtain ⟨j', c, queued, course, shows⟩ := here
      obtain rfl : j' = j := Option.some.inj (shows.job?.1.symm.trans mine)
      exact ⟨n, ns, c, rfl, queued, course, shows⟩

/-- While no job is taken, all that has to be seen to is what the stack says of the jobs under way. -/
theorem goes_on (fits : L.Fits s) (other : m ≠ .job)
    (dealings : Dealings (s.Attaches m) (L.tickets, s.engine.heap.affairs) (L'.tickets, (s.step m).engine.heap.affairs))
    (length : L'.courses.length = L.courses.length) (stacked : L'.Stacked s.engine.heap.queued.reverse (s.step m).underWay)
    (goes : Goes s m L L') : L'.Fits (s.step m) ∧ L.Follows s m L' := by
  have books := Dealings.books dealings fits.books
  have jobs := Dealings.jobs dealings
  refine ⟨⟨books, step_ordered m fits.ordered, ?_, stacked.grow (List.reverse_prefix.2 jobs.1)⟩,
    fun _ => dealings, fun same => absurd same other, fun i t found => Dealings.becomes dealings found, ?_, goes⟩
  next => rw [length, fits.taken, show (s.step m).engine.heap.taken = s.engine.heap.taken from jobs.2]
  next =>
    rintro p onFulfilled onRejected rfl promise
    have told : (s.step (.request (.promiseThen p onFulfilled onRejected))).engine.heap.history =
        [.reacted p] ++ s.engine.heap.history := Engine.history_promiseThen promise onFulfilled onRejected
    exact (Dealings.posted dealings).sources fits.books books told

/-- The move has nothing to do with the jobs under way. -/
theorem stays (fits : L.Fits s) (keeping : Keeping m) (other : m ≠ .job) (same : (s.step m).underWay = s.underWay) :
    ∃ L' : Ledger, L'.Fits (s.step m) ∧ L.Follows s m L' := by
  obtain ⟨T', dealings⟩ := step_does keeping other L.tickets
  refine ⟨⟨T', L.courses, L.running⟩, fits.goes_on other dealings rfl ?_ (.rests rfl rfl)⟩
  rw [same]
  exact ⟨fits.stacked.distinct, fits.stacked.under, fits.stacked.waits⟩

/-- The innermost job is to call its handler, and will. -/
theorem handle {f : Ptr} (fits : L.Fits s) (waiting : s.waiting = .checking (.job j) :: rest) (handler : j.handler = some f)
    (goes_on : (s.step (.poll false)).waiting = .checking (.handler j f) :: rest) :
    ∃ L' : Ledger, L'.Fits (s.step (.poll false)) ∧ L.Follows s (.poll false) L' := by
  obtain ⟨T', dealings⟩ := step_does (s := s) (m := .poll false) (by simp [Keeping]) (by simp) L.tickets
  obtain ⟨n, ns, c, running, queued, course, shows⟩ := fits.innermost waiting rfl
  have stacked := fits.stacked
  rw [underWay_cons waiting rfl] at stacked
  have turned := stacked.turn running queued (.called f handler) T'
  cases shows with
  | taken =>
    obtain ⟨inside, same⟩ := List.getElem?_eq_some_iff.1 course
    have kept : L.courses.set n .begun = L.courses := same ▸ List.set_getElem_self inside
    rw [kept] at turned
    refine ⟨⟨T', L.courses, L.running⟩, fits.goes_on (by simp) dealings rfl ?_ (.rests rfl rfl)⟩
    rw [underWay_cons goes_on rfl]
    exact turned

/-- The host runs its function for the innermost job. -/
theorem call {f : Ptr} {i : Invocation} {table : Addr} (fits : L.Fits s) (waiting : s.waiting = .checking (.handler j f) :: rest)
    (goes_on : (s.step (.poll false)).waiting = .calling i (.handler j table) :: rest) (invokes : s.Invokes (.poll false) j i) :
    ∃ L' : Ledger, L'.Fits (s.step (.poll false)) ∧ L.Follows s (.poll false) L' := by
  obtain ⟨T', dealings⟩ := step_does (s := s) (m := .poll false) (by simp [Keeping]) (by simp) L.tickets
  obtain ⟨n, ns, c, running, queued, course, shows⟩ := fits.innermost waiting rfl
  obtain ⟨g, name, handler, -⟩ := invokes.handler
  have stacked := fits.stacked
  rw [underWay_cons waiting rfl] at stacked
  cases shows with
  | called f handler' =>
    refine ⟨⟨T', L.courses.set n (.running i), L.running⟩, fits.goes_on (by simp) dealings (List.length_set ..) ?_
      (.calls n j i queued course invokes rfl rfl)⟩
    rw [underWay_cons goes_on rfl]
    exact stacked.turn running queued (.running i g table handler) T'

/-- The innermost job ends. -/
theorem finish {e : Upshot} (fits : L.Fits s) (keeping : Keeping m) (other : m ≠ .job) (waiting : s.waiting = w :: rest)
    (mine : w.job? = some j) (popped : (s.step m).waiting = rest)
    (ended : ∀ c : JobCourse, w.Shows j c -> s.Ended m j c.call? e) (concludes : s.Concludes m j e)
    (adopting : ∀ v q x, e.told s.engine.heap j = .reacted v -> s.Attaches m q x -> x = ⟨j.derived, none, none⟩) :
    ∃ L' : Ledger, L'.Fits (s.step m) ∧ L.Follows s m L' := by
  obtain ⟨T', dealings⟩ := step_does (s := s) keeping other L.tickets
  obtain ⟨n, ns, c, running, queued, course, shows⟩ := fits.innermost waiting mine
  have stacked := fits.stacked
  rw [underWay_cons waiting mine] at stacked
  refine ⟨⟨T', L.courses.set n (.finished c.call? e), ns⟩, fits.goes_on other dealings (List.length_set ..) ?_
    (.ends n j c e queued course (ended c shows) concludes (fun v told news => ?_) rfl running)⟩
  next =>
    rw [underWay, popped]
    exact stacked.finish running c.call? e T'
  next =>
    have posted := Dealings.posted dealings
    obtain ⟨t, new, source⟩ := posted.exists_of_news fits.books (Dealings.books dealings fits.books) news
    exact ⟨t, new, source, adopting v _ _ told (posted.added t new)⟩

/-- The next job is taken, if there is one. -/
theorem take (fits : L.Fits s) : ∃ L' : Ledger, L'.Fits (s.step .job) ∧ L.Follows s .job L' := by
  cases queue : s.engine.heap.jobs with
  | nil =>
    have unchanged : s.step .job = s := by
      simp [step, Engine.beginJob, Heap.takeJob, queue, Engine.finished, enter]
    rw [unchanged]
    exact ⟨L, fits, by simp, fun _ => rfl, fun i t found => ⟨t, found, .stays⟩, by simp, .rests rfl rfl⟩
  | cons j later =>
    have engine : (s.step .job).engine = { s.engine with heap := s.engine.heap.takeJob.2 } := by
      simp [step, enter_engine, Engine.beginJob, Heap.takeJob, queue]
    have waiting : (s.step .job).waiting = .checking (.job j) :: s.waiting := by
      simp [step, enter_waiting, Engine.beginJob, Heap.takeJob, queue, Stage.waiting?]
    have taken : s.engine.heap.takeJob.2 = { s.engine.heap with jobs := later, taken := j :: s.engine.heap.taken } := by
      simp [Heap.takeJob, queue]
    have next : s.engine.heap.queued.reverse[L.courses.length]? = some j := by
      have line : s.engine.heap.queued.reverse = s.engine.heap.taken.reverse ++ s.engine.heap.jobs := fits.ordered
      rw [line, queue, fits.taken, List.getElem?_append_right (by simp)]
      simp
    have ordered := step_ordered .job fits.ordered
    refine ⟨⟨L.tickets, L.courses ++ [.begun], L.courses.length :: L.running⟩, ⟨?_, ordered, ?_, ?_⟩, by simp, fun _ => rfl,
      fun i t found => ⟨t, found, .stays⟩, by simp, .takes rfl rfl rfl⟩
    next =>
      rw [engine, taken]
      exact fits.books.take
    next =>
      rw [engine, taken]
      simp [fits.taken]
    next =>
      rw [engine, taken, underWay_cons waiting rfl]
      exact fits.stacked.take next L.tickets

theorem polled (fits : L.Fits s) (fit : Fit d s (.poll false)) :
    ∃ L' : Ledger, L'.Fits (s.step (.poll false)) ∧ L.Follows s (.poll false) L' := by
  have keeping : Keeping (.poll false) := by simp [Keeping]
  cases waiting : s.waiting with
  | nil => exact fits.stays keeping (by simp) (by simp [Hosting.step, poll, waiting])
  | cons w rest =>
    cases w with
    | calling i frame => exact fits.stays keeping (by simp) (by simp [Hosting.step, poll, waiting])
    | checking c =>
      cases c with
      | job j =>
        cases handler : j.handler with
        | none =>
          obtain ⟨popped, ended, concludes⟩ := pass_ended fit waiting handler
          refine fits.finish keeping (by simp) waiting rfl popped (fun c shows => ?_) concludes
            fun v q x told => absurd told (ended.told_ne fit)
          cases shows
          exact ended
        | some f =>
          refine fits.handle waiting handler ?_
          rw [step_checking waiting, enter_waiting]
          simp [Engine.afterCheck, handler, Stage.waiting?]
      | call function this args table =>
        refine fits.stays keeping (by simp) (underWay_call waiting rfl ?_)
        rw [step_checking waiting, enter_waiting]
        cases waits : (s.engine.afterCheck false (.call function this args table)).1.waiting? with
        | none => exact .inl rfl
        | some w => exact .inr ⟨w, rfl, Engine.afterCheck_job waits⟩
      | handler j f =>
        obtain ⟨-, -, c, -, -, -, shows⟩ := fits.innermost waiting rfl
        have handler : j.handler = some f := by
          cases shows
          assumption
        rcases handler_called fit waiting handler with ⟨i, table, goes_on, invokes⟩ | ⟨popped, e, ended, concludes⟩
        next => exact fits.call waiting goes_on invokes
        next =>
          refine fits.finish keeping (by simp) waiting rfl popped (fun c shows => ?_) concludes
            fun v q x told => absurd told (ended.told_ne fit)
          cases shows
          exact ended

theorem answered {v : Ptr} (fits : L.Fits s) (fit : Fit d s (.answer v)) :
    ∃ L' : Ledger, L'.Fits (s.step (.answer v)) ∧ L.Follows s (.answer v) L' := by
  have keeping : Keeping (.answer v) := by simp [Keeping]
  cases waiting : s.waiting with
  | nil => exact fits.stays keeping (by simp) (by simp [Hosting.step, answer, waiting])
  | cons w rest =>
    cases w with
    | checking c => exact fits.stays keeping (by simp) (by simp [Hosting.step, answer, waiting])
    | calling i frame =>
      cases frame with
      | call => exact fits.stays keeping (by simp) (underWay_call waiting rfl (.inl (step_calling waiting).1))
      | handler j table =>
        obtain ⟨-, -, c, -, -, -, shows⟩ := fits.innermost waiting rfl
        obtain ⟨f, handler⟩ : ∃ f, j.handler = some f := by
          cases shows with
          | running _ f _ handler => exact ⟨f, handler⟩
        obtain ⟨popped, e, ended, concludes⟩ := handler_answered fit waiting handler
        refine fits.finish keeping (by simp) waiting rfl popped (fun c shows => ?_) concludes ?_
        next =>
          cases shows
          exact ended
        next =>
          rintro v' q x - ⟨i', frame, rest', same, adopts⟩
          obtain ⟨⟨rfl, rfl⟩, rfl⟩ : (i = i' ∧ .handler j table = frame) ∧ rest = rest' := by
            simpa using waiting.symm.trans same
          exact adopts.2.1

/-- Whatever the move, the account of the reactions goes on. -/
theorem step (fits : L.Fits s) (fit : Fit d s m) (keeping : Keeping m) (uncut : m ≠ .poll true) :
    ∃ L' : Ledger, L'.Fits (s.step m) ∧ L.Follows s m L' := by
  cases m with
  | request r => exact fits.stays keeping (by simp) rfl
  | call function this count arguments =>
    refine fits.stays keeping (by simp) ?_
    have waiting := enter_waiting s Scalar.pointers (s.engine.beginCall function this count arguments)
    simp only [underWay, Hosting.step, waiting, List.filter_append]
    unfold Engine.beginCall
    split <;> rfl
  | job => exact fits.take
  | poll interrupted =>
    cases interrupted with
    | true => exact absurd rfl uncut
    | false => exact fits.polled fit
  | answer v => exact fits.answered fit
  | install => exact fits.stays keeping (by simp) rfl
  | allocate size => exact fits.stays keeping (by simp) rfl
  | deallocate a => exact fits.stays keeping (by simp) rfl
  | write a bytes => exact fits.stays keeping (by simp) rfl

/-- Each reaction is in its place. -/
theorem holds {t : Ticket} (fits : L.Fits s) (member : t ∈ L.tickets) : Holds s L t (L.standing t) := by
  unfold standing
  split
  next stored =>
    obtain ⟨r, found, pending⟩ := fits.books.pending t member stored
    refine ⟨stored, r, (Heap.get?_promises _ _).symm.trans found, pending, ?_⟩
    rw [← fits.books.stored t.source r found pending]
    exact List.mem_map_of_mem (List.mem_filter.2 ⟨member, Ticket.isStored_iff.2 ⟨rfl, stored⟩⟩)
  next discarded => exact discarded
  next n v rejected placed =>
    obtain ⟨queued, -⟩ := fits.books.jobs t member n v rejected placed
    split
    next absent =>
      have past : s.engine.heap.taken.length ≤ n := by
        rw [← fits.taken]
        exact List.getElem?_eq_none_iff.1 absent
      have line : s.engine.heap.queued.reverse = s.engine.heap.taken.reverse ++ s.engine.heap.jobs := fits.ordered
      refine ⟨n, v, rejected, placed, past, ?_⟩
      have here : s.engine.heap.queued.reverse[n]? = _ := queued
      rwa [line, List.getElem?_append_right (by simpa using past), List.length_reverse] at here
    next call e course => exact ⟨n, v, rejected, call, e, placed, course⟩
    next c going course =>
      have unfinished : c.isOver = false := by
        cases c with
        | finished call e => exact absurd rfl (going call e)
        | _ => rfl
      obtain ⟨i, found⟩ := List.mem_iff_getElem?.1 ((fits.stacked.under n c course).2 unfinished)
      obtain ⟨w, under, j, c', queued', -, shows⟩ := getElem?_of_forall₂ fits.stacked.waits found
      obtain rfl := Option.some.inj (queued'.symm.trans queued)
      exact ⟨n, v, rejected, i, w, placed, found, under, shows.job?.1⟩

/-- And it is in no other place. -/
theorem holds_iff {t : Ticket} {x : Standing} (fits : L.Fits s) (member : t ∈ L.tickets) :
    Holds s L t x ↔ x = L.standing t := by
  refine ⟨fun there => ?_, fun same => same ▸ fits.holds member⟩
  cases x with
  | stored => simp [standing, there.1]
  | queued =>
    obtain ⟨n, v, rejected, placed, past, -⟩ := there
    simp [standing, placed, List.getElem?_eq_none (fits.taken ▸ past)]
  | executing =>
    obtain ⟨n, v, rejected, i, w, placed, running, -, -⟩ := there
    have inside := List.mem_of_getElem? running
    obtain ⟨c, course⟩ : ∃ c, L.courses[n]? = some c := ⟨_, List.getElem?_eq_getElem (fits.stacked.begun inside)⟩
    have unfinished := (fits.stacked.under n c course).1 inside
    simp only [standing, placed, course]
    cases c with
    | finished call e => cases unfinished
    | _ => rfl
  | finished =>
    obtain ⟨n, v, rejected, call, e, placed, course⟩ := there
    simp [standing, placed, course]
  | discarded =>
    have placed : t.place = .discarded := there
    simp [standing, placed]

/-- No reaction stays behind when its promise settles. -/
theorem settled {t : Ticket} {v : Ptr} {rejected : Bool} (fits' : L'.Fits (s.step m)) (fit : Fit d s m) (member : t ∈ L'.tickets)
    (news : News s.engine.heap.history (s.step m).engine.heap.history (.settled t.source v rejected)) : t.place ≠ .stored := by
  intro stored
  obtain ⟨r, found, pending⟩ := fits'.books.pending t member stored
  exact ofPayload_ne_pending rejected v ((step_told fit news found).symm.trans pending)

end Fits

section Past

variable {n : Nat} {c c' : JobCourse} {call : Option Invocation} {e : Upshot} {i : Invocation}

/-- Courses only go forward. -/
theorem Goes.course (goes : Goes s m L L') (found : L'.courses[n]? = some c') :
    L.courses[n]? = some c' ∨ c' = .begun ∨
      ∃ j, s.engine.heap.queued.reverse[n]? = some j ∧ ((∃ i, c' = .running i ∧ s.Invokes m j i) ∨
        ∃ c e, c' = .finished c.call? e ∧ L.courses[n]? = some c ∧ s.Ended m j c.call? e ∧ s.Concludes m j e) := by
  have set {k : Nat} {x : JobCourse} (found : (L.courses.set k x)[n]? = some c') : (n = k ∧ c' = x) ∨ L.courses[n]? = some c' := by
    by_cases same : n = k
    next =>
      subst same
      have inside : n < L.courses.length := by simpa using (List.getElem?_eq_some_iff.1 found).1
      rw [List.getElem?_set_self inside] at found
      exact .inl ⟨rfl, (Option.some.inj found).symm⟩
    next => exact .inr ((List.getElem?_set_ne (Ne.symm same)).symm.trans found)
  cases goes with
  | rests courses => exact .inl (courses ▸ found)
  | takes move courses =>
    rw [courses, List.getElem?_append] at found
    split at found
    next => exact .inl found
    next => exact .inr (.inl (List.mem_singleton.1 (List.mem_of_getElem? found)))
  | calls k j i queued course invokes courses =>
    rcases set (courses ▸ found) with ⟨rfl, rfl⟩ | old
    next => exact .inr (.inr ⟨j, queued, .inl ⟨i, rfl, invokes⟩⟩)
    next => exact .inl old
  | ends k j c e queued course ended concludes adopts courses =>
    rcases set (courses ▸ found) with ⟨rfl, rfl⟩ | old
    next => exact .inr (.inr ⟨j, queued, .inr ⟨c, e, rfl, course, ended, concludes⟩⟩)
    next => exact .inl old

theorem Goes.finished (goes : Goes s m L L') (found : L'.courses[n]? = some (.finished call e)) :
    L.courses[n]? = some (.finished call e) ∨
      ∃ j, s.engine.heap.queued.reverse[n]? = some j ∧ s.Ended m j call e ∧ s.Concludes m j e := by
  rcases goes.course found with old | same | ⟨j, queued, ⟨i, same, -⟩ | ⟨c, e', same, -, ended, concludes⟩⟩
  next => exact .inl old
  next => cases same
  next => cases same
  next =>
    obtain ⟨rfl, rfl⟩ := JobCourse.finished.inj same
    exact .inr ⟨j, queued, ended, concludes⟩

theorem Goes.called (goes : Goes s m L L') (found : L'.courses[n]? = some c') (called : c'.call? = some i) :
    (∃ c, L.courses[n]? = some c ∧ c.call? = some i) ∨
      ∃ j, s.engine.heap.queued.reverse[n]? = some j ∧ s.Invokes m j i := by
  rcases goes.course found with old | rfl | ⟨j, queued, ⟨i', rfl, invokes⟩ | ⟨c, e', rfl, course, -⟩⟩
  next => exact .inl ⟨c', old, called⟩
  next => cases called
  next =>
    obtain rfl : i' = i := Option.some.inj called
    exact .inr ⟨j, queued, invokes⟩
  next => exact .inl ⟨c, course, called⟩

theorem Follows.queued (follows : L.Follows s m L') : s.engine.heap.queued.reverse <+: (s.step m).engine.heap.queued.reverse := by
  by_cases job : m = .job
  next =>
    subst job
    have kept : (s.step .job).engine.heap.queued = s.engine.heap.queued := by
      simp only [Hosting.step, enter_engine, Engine.beginJob, Heap.takeJob]
      cases s.engine.heap.jobs <;> rfl
    rw [kept]
  next => exact List.reverse_prefix.2 (Dealings.jobs (follows.dealings job)).1

end Past

end Ledger

namespace Hosting

open Ledger

variable {d : Discipline} {moves : List Move} {L : Nat -> Ledger} {k n : Nat} {j : Job} {c : JobCourse}

/-- What has become of every reaction, after each move. -/
structure Accounts (moves : List Move) (L : Nat -> Ledger) : Prop where
  opening : L 0 = .empty
  fits : ∀ k, (L k).Fits (after moves k)
  follows : ∀ k m, moves[k]? = some m -> (L k).Follows (after moves k) m (L (k + 1))
  past : ∀ k, moves[k]? = none -> L (k + 1) = L k
  placed : ∀ k t x, t ∈ (L k).tickets -> (Holds (after moves k) (L k) t x ↔ x = (L k).standing t)
  settles : ∀ k t v rejected, t ∈ (L (k + 1)).tickets -> Tells moves k (.settled t.source v rejected) -> t.place ≠ .stored
  called : ∀ k t n v rejected c i, t ∈ (L k).tickets -> t.place = .job n v rejected -> (L k).courses[n]? = some c ->
    c.call? = some i -> ∃ l m, l < k ∧ moves[l]? = some m ∧ (after moves l).Invokes m (t.reaction.job v rejected) i
  finished : ∀ k t n v rejected call e, t ∈ (L k).tickets -> t.place = .job n v rejected ->
    (L k).courses[n]? = some (.finished call e) -> ∃ l m, l < k ∧ moves[l]? = some m ∧
      (after moves l).Ended m (t.reaction.job v rejected) call e ∧ (after moves l).Concludes m (t.reaction.job v rejected) e

theorem exists_ledgers (moves : List Move) {R : Nat -> Ledger -> Ledger -> Prop}
    (next : ∀ k L, L.Fits (after moves k) -> ∃ L' : Ledger, L'.Fits (after moves (k + 1)) ∧ R k L L') :
    ∃ L : Nat -> Ledger, L 0 = .empty ∧ (∀ k, (L k).Fits (after moves k)) ∧ ∀ k, R k (L k) (L (k + 1)) := by
  choose f fits related using next
  let chain (k : Nat) : { L : Ledger // L.Fits (after moves k) } :=
    Nat.rec ⟨.empty, fits_empty⟩ (fun k L => ⟨f k L.1 L.2, fits k L.1 L.2⟩) k
  exact ⟨fun k => (chain k).1, rfl, fun k => (chain k).2, fun k => related k _ (chain k).2⟩

section

variable (opening : L 0 = .empty)
variable (follows : ∀ k m, moves[k]? = some m -> (L k).Follows (after moves k) m (L (k + 1)))
variable (past : ∀ k, moves[k]? = none -> L (k + 1) = L k)

include follows in
/-- The number of a job is for good. -/
theorem queued_mono {l : Nat} (before : l ≤ k) (queued : (after moves l).engine.heap.queued.reverse[n]? = some j) :
    (after moves k).engine.heap.queued.reverse[n]? = some j := by
  induction k with
  | zero => rwa [← Nat.le_zero.1 before]
  | succ k ih =>
    by_cases same : l = k + 1
    next => rwa [← same]
    next =>
      have found := ih (by omega)
      cases here : moves[k]? with
      | none => rwa [after_past here]
      | some m =>
        rw [after_succ here]
        obtain ⟨late, more⟩ := (follows k m here).queued
        rw [← more, List.getElem?_append_left (List.getElem?_eq_some_iff.1 found).1, found]

include opening follows past

theorem finished_before {call : Option Invocation} {e : Upshot} (course : (L k).courses[n]? = some (.finished call e)) :
    ∃ l m j, l < k ∧ moves[l]? = some m ∧ (after moves l).engine.heap.queued.reverse[n]? = some j ∧
      (after moves l).Ended m j call e ∧ (after moves l).Concludes m j e := by
  induction k with
  | zero =>
    rw [opening] at course
    cases course
  | succ k ih =>
    have latest : (L k).courses[n]? = some (.finished call e) ∨ ∃ m j, moves[k]? = some m ∧
        (after moves k).engine.heap.queued.reverse[n]? = some j ∧ (after moves k).Ended m j call e ∧
          (after moves k).Concludes m j e := by
      cases here : moves[k]? with
      | none => exact .inl (past k here ▸ course)
      | some m => exact ((follows k m here).goes.finished course).imp_right fun ⟨j, ends⟩ => ⟨m, j, rfl, ends⟩
    rcases latest with before | ⟨m, j, here, ends⟩
    next =>
      obtain ⟨l, m, j, early, ends⟩ := ih before
      exact ⟨l, m, j, Nat.lt_succ_of_lt early, ends⟩
    next => exact ⟨k, m, j, Nat.lt_succ_self k, here, ends⟩

theorem called_before {i : Invocation} (course : (L k).courses[n]? = some c) (called : c.call? = some i) :
    ∃ l m j, l < k ∧ moves[l]? = some m ∧ (after moves l).engine.heap.queued.reverse[n]? = some j ∧
      (after moves l).Invokes m j i := by
  induction k generalizing c with
  | zero =>
    rw [opening] at course
    cases course
  | succ k ih =>
    have latest : (∃ c, (L k).courses[n]? = some c ∧ c.call? = some i) ∨ ∃ m j, moves[k]? = some m ∧
        (after moves k).engine.heap.queued.reverse[n]? = some j ∧ (after moves k).Invokes m j i := by
      cases here : moves[k]? with
      | none => exact .inl ⟨c, past k here ▸ course, called⟩
      | some m => exact ((follows k m here).goes.called course called).imp_right fun ⟨j, invokes⟩ => ⟨m, j, rfl, invokes⟩
    rcases latest with ⟨c', before, same⟩ | ⟨m, j, here, invokes⟩
    next =>
      obtain ⟨l, m, j, early, invokes⟩ := ih before same
      exact ⟨l, m, j, Nat.lt_succ_of_lt early, invokes⟩
    next => exact ⟨k, m, j, Nat.lt_succ_self k, here, invokes⟩

end

/-- However requests, calls, jobs and answers of the host are mixed, no reaction is lost and none counts twice. Its
handler has what its promise has settled with, and its derived promise has what the handler has come to. -/
theorem run_accounted (d : Discipline) (moves : List Move) (allowed : start.Disciplined d moves)
    (numbered : d = .any -> (start.run moves).engine.heap.next ≤ UInt32.size)
    (calm : ∀ m ∈ moves, m ≠ .poll true ∧ Keeping m) : ∃ L, Accounts moves L := by
  obtain ⟨L, opening, fits, goes_on⟩ := exists_ledgers moves
    (R := fun k L L' => (∀ m, moves[k]? = some m -> L.Follows (after moves k) m L') ∧ (moves[k]? = none -> L' = L))
    (by
      intro k L fits
      cases here : moves[k]? with
      | none => exact ⟨L, after_past here ▸ fits, by simp, fun _ => rfl⟩
      | some m =>
        obtain ⟨uncut, keeping⟩ := calm m (List.mem_of_getElem? here)
        obtain ⟨L', fits', follows⟩ := fits.step (fit_at allowed numbered here) keeping uncut
        rw [after_succ here]
        refine ⟨L', fits', fun m' same => ?_, by simp⟩
        obtain rfl := Option.some.inj same
        exact follows)
  have follows := fun k => (goes_on k).1
  have past := fun k => (goes_on k).2
  refine ⟨L, opening, fits, follows, past, fun k t x member => (fits k).holds_iff member, ?_, ?_, ?_⟩
  next =>
    intro k t v rejected member news
    cases here : moves[k]? with
    | none =>
      rw [Tells, after_past here] at news
      exact absurd news News.irrefl
    | some m =>
      have fits' := fits (k + 1)
      rw [Tells, after_succ here] at news
      rw [after_succ here] at fits'
      exact fits'.settled (fit_at allowed numbered here) member news
  next =>
    intro k t n v rejected c i member placed course called
    obtain ⟨l, m, j, before, here, queued, invokes⟩ := called_before opening follows past course called
    obtain rfl := Option.some.inj ((queued_mono follows (Nat.le_of_lt before) queued).symm.trans
      ((fits k).books.jobs t member n v rejected placed).1)
    exact ⟨l, m, before, here, invokes⟩
  next =>
    intro k t n v rejected call e member placed course
    obtain ⟨l, m, j, before, here, queued, ended, concludes⟩ := finished_before opening follows past course
    obtain rfl := Option.some.inj ((queued_mono follows (Nat.le_of_lt before) queued).symm.trans
      ((fits k).books.jobs t member n v rejected placed).1)
    exact ⟨l, m, before, here, ended, concludes⟩

/-- Derives a promise from another one, rejects that one, and runs the job that this leads to. -/
def passingOn : List Move :=
  [.allocate 8, .request (.newPromiseCapability 16), .request (.promiseThen 16 none none),
    .call 18 Ptr.undefined 0 0, .poll false, .job, .poll false]

theorem passingOn_disciplined : start.Disciplined .owning passingOn := by
  obtain ⟨allocated, made, derived, called, polled, taken, -⟩ := cutting_disciplined
  exact ⟨allocated, made, derived, called, polled, taken, fun p member => absurd member List.not_mem_nil, trivial⟩

theorem passingOn_calm : ∀ m ∈ passingOn, m ≠ .poll true ∧ Keeping m := by
  simp [passingOn, Keeping, Request.clears]

theorem passingOn_accounted : start.Disciplined .owning passingOn ∧ (∀ m ∈ passingOn, m ≠ .poll true ∧ Keeping m) ∧
    ∃ L, Accounts passingOn L :=
  ⟨passingOn_disciplined, passingOn_calm, run_accounted .owning passingOn passingOn_disciplined nofun passingOn_calm⟩

end Hosting

end ScriptHost
