import ScriptHost.Proofs.Dispatcher.Attempts
import ScriptHost.Proofs.Engine.Affairs
import ScriptHost.Proofs.Link.Reading

set_option autoImplicit false

/-!
Calls of the functions of a promise.

Such a call needs a table for its argument, and then can only be interrupted. If it is not, the promise has
been resolved or rejected.
-/

namespace ScriptHost

namespace Engine

variable {s : Engine} {f this v p : Ptr} {table : Addr} {reject : Bool}

theorem beginCall_one (words : s.memory.readWords table 1 = .ok [v]) :
    s.beginCall f this 1 table = (.checking (.call f this [v] table), s) := by
  have count : (1 : UInt32).toNat = 1 := rfl
  simp only [beginCall, count, words]

theorem afterCheck_interrupted (args : List Ptr) : s.afterCheck true (.call f this args table) =
    (.done (.ok nullResult), { s with heap := s.heap.raiseMessage interruptedText }) := by
  simp only [afterCheck, runCall, start, if_true, throwing, finished, endCall, Heap.raiseMessage]

theorem afterCheck_resolving (able : s.heap.resolver? f = some (p, reject)) :
    s.afterCheck false (.call f this [v] table) =
      (.done (.ok (.ofWord Ptr.undefined)), { s with heap := s.heap.callResolving p v reject }) := by
  obtain ⟨value, found, resolver⟩ := Option.bind_eq_some_iff.1 able
  simp only [afterCheck, runCall, start, found, Bool.false_eq_true, if_false]
  unfold Value.resolver? at resolver
  split at resolver <;> simp_all [finished, endCall]

end Engine

namespace Link

variable {l l' : Link} {p v : Ptr} {ps : List Ptr} {reject : Bool}

theorem perform_start {c : Calling} {stage : Stage} {e : Engine} (begun : c.first l.engine = (stage, e)) :
    (Ask.start c).perform.run l = (stage, l.withEngine e) := by
  have asked : (Ask.start c).perform.run l = ((c.first l.engine).1, l.withEngine (c.first l.engine).2) := rfl
  rw [asked, begun]

theorem perform_check {c : Check} {interrupted : Bool} {stage : Stage} {e : Engine}
    (checked : l.engine.afterCheck interrupted c = (stage, e)) :
    (Ask.check interrupted c).perform.run l = (stage, l.withEngine e) := by
  have asked : (Ask.check interrupted c).perform.run l =
      ((l.engine.afterCheck interrupted c).1, l.withEngine (l.engine.afterCheck interrupted c).2) := rfl
  rw [asked, checked]

def patient (l : Link) (polls : Option Nat) : Link :=
  { l with patience := polls }

def resolving (l : Link) (p v : Ptr) (reject : Bool) : Link :=
  l.withEngine { l.engine with heap := l.engine.heap.callResolving p v reject }

theorem Ready.patient (ready : l.Ready) (polls : Option Nat) : (l.patient polls).Ready :=
  ⟨ready.clear, ready.memory, ready.counted, ready.calm⟩

theorem answered_writeTable (ready : l.Ready) (fits : l.memory.Fits (max (Memory.encodeWords ps).size 4)) :
    answered (writeTable ps) l = (.ok (UInt32.ofNat l.memory.next),
      l.withMemory (l.memory.topped (max (Memory.encodeWords ps).size 4) (Memory.encodeWords ps))) :=
  answered_writeBlock_fits ready.clear ready.memory (Nat.le_max_left _ _) fits

theorem size_table (some : ps ≠ []) : max (Memory.encodeWords ps).size 4 = 4 * ps.length := by
  have positive := List.length_pos_iff.2 some
  rw [Memory.size_encodeWords]
  omega

/-- What has been written to a table is what is read from it. -/
theorem readWords_topped {m : Memory} (ok : m.WellFormed) (fits : m.Fits (4 * ps.length)) :
    (m.topped (4 * ps.length) (Memory.encodeWords ps)).readWords (UInt32.ofNat m.next) ps.length = .ok ps := by
  have place := Memory.toNat_next ok
  refine Memory.readWords_stores (Memory.topped_wellFormed ok fits.2 _) ?_ ?_
  next =>
    rw [place]
    exact Memory.topped_inside m _ _
  next =>
    rw [place]
    exact Memory.topped_stores ok fits.2 (Nat.le_refl _)

/-- With a table of one argument on top. -/
def tabling (l : Link) (v : Ptr) : Link :=
  l.withMemory (l.memory.topped 4 (Memory.encodeWords [v]))

/-- What a call of a function of `p` comes to. -/
inductive Called (l : Link) (p v : Ptr) (reject : Bool) : Except Error Completion -> Link -> Prop
  | refused {e : Error} {l' : Link} (same : Same l l') : Called l p v reject (.error e) l'
  | interrupted {error text : Ptr} {l' : Link} (raised : Raised l Engine.interruptedText error text l') :
      Called l p v reject (.ok (.threw error)) l'
  | resolved {l' : Link} (same : Same (l.resolving p v reject) l') :
      Called l p v reject (.ok (.returned Ptr.undefined)) l'

end Link

namespace Runner

open Link

variable {α : Type} {r : Runner} {s : Desk} {f this v p : Ptr} {table : Addr} {reject : Bool}

theorem yields_onLink (act : LinkM α) :
    r.Yields (WorldM.host.onLink act).run s (answered act s.link).1 (s.withLink (answered act s.link).2) :=
  yields_asking act.run

theorem yields_answered {act : LinkM α} {a : Except Error α} {l : Link} (answer : answered act s.link = (a, l)) :
    r.Yields (WorldM.host.onLink act).run s a (s.withLink l) := by
  have asked := yields_onLink (r := r) (s := s) act
  rwa [answer] at asked

theorem yields_asked {q : Ask} {a : q.Answer} {l : Link} (performed : q.perform.run s.link = (a, l)) :
    r.Yields (WorldM.host.ask q) s a (s.withLink l) := by
  refine (yields_ask q).imp ?_
  rintro _ _ ⟨rfl, rfl⟩
  rw [performed]
  exact ⟨rfl, rfl⟩

theorem brings_interrupted :
    r.Brings WorldM.interrupted s fun _ s' => ∃ polls, s' = s.withLink (s.link.patient polls) := by
  have polled : ∃ polls, s.withLink (Ask.poll.perform.run s.link).2 = s.withLink (s.link.patient polls) := by
    change ∃ polls, s.withLink s.link.poll.2 = _
    unfold poll
    split
    next => exact ⟨s.link.patience, rfl⟩
    next => exact ⟨s.link.patience, rfl⟩
    next n _ => exact ⟨some n, rfl⟩
  obtain ⟨polls, same⟩ := polled
  refine brings_bind (yields_asking (.question Ask.poll)) ?_
  rintro _ _ ⟨rfl, rfl⟩
  split
  next => exact brings_pure ⟨polls, same⟩
  next =>
    refine brings_bind brings_look ?_
    rintro w _ ⟨-, rfl⟩
    split <;> exact brings_pure ⟨polls, same⟩

theorem brings_exportCall (clear : s.link.faults = Table.empty) (words : s.link.memory.readWords table 1 = .ok [v])
    (able : s.heap.resolver? f = some (p, reject)) :
    r.Brings (WorldM.host.runExport (.call f this 1 table)) s fun a s' => ∃ polls,
      (a = .ok Engine.nullResult ∧ s' = s.withLink ((s.link.patient polls).withEngine
        { s.link.engine with heap := s.heap.raiseMessage Engine.interruptedText })) ∨
      (a = .ok (.ofWord Ptr.undefined) ∧ s' = s.withLink ((s.link.patient polls).resolving p v reject)) := by
  have intercepted : r.Yields (WorldM.host.ask (.intercept (Calling.call f this 1 table).name)) s none s :=
    yields_asked (intercept_of_faultless clear)
  have begun : r.Yields (WorldM.host.ask (.start (.call f this 1 table))) s (.checking (.call f this [v] table)) s :=
    yields_asked (perform_start (Engine.beginCall_one words))
  refine brings_then intercepted (brings_then begun (brings_bind brings_interrupted ?_))
  rintro interrupted _ ⟨polls, rfl⟩
  cases interrupted with
  | true =>
    refine brings_then (yields_asked (perform_check (Engine.afterCheck_interrupted [v]))) ?_
    exact brings_pure ⟨polls, .inl ⟨rfl, rfl⟩⟩
  | false =>
    refine brings_then (yields_asked (perform_check (Engine.afterCheck_resolving able))) ?_
    exact brings_pure ⟨polls, .inr ⟨rfl, rfl⟩⟩

section Tables

variable (ready : s.link.Ready) (fits : s.link.memory.Fits 4)
include ready fits

theorem yields_writeTable : r.Yields (WorldM.host.onLink (writeTable [v])).run s (.ok (UInt32.ofNat s.link.memory.next))
    (s.withLink (s.link.tabling v)) := by
  have size : max (Memory.encodeWords [v]).size 4 = 4 := size_table (by simp)
  have room : s.link.memory.Fits (max (Memory.encodeWords [v]).size 4) := by rwa [size]
  have written := answered_writeTable ready room
  rw [size] at written
  exact yields_answered written

theorem readWords_tabling : (s.link.tabling v).memory.readWords (UInt32.ofNat s.link.memory.next) 1 = .ok [v] := by
  have room : s.link.memory.Fits (4 * [v].length) := fits
  exact readWords_topped ready.memory room

end Tables

/-- A call of a function of a promise fails only for lack of memory, or is interrupted. -/
theorem brings_call (ready : s.link.Ready) (able : s.heap.resolver? f = some (p, reject)) :
    r.Brings (WorldM.host.call f this [v]).run s fun a s' =>
      ∃ polls l', s' = s.withLink l' ∧ Called (s.link.patient polls) p v reject a l' := by
  by_cases fits : s.link.memory.Fits 4
  next =>
    let mid := s.link.tabling v
    have place := Memory.toNat_next ready.memory
    have nonzero := Memory.next_nonzero ready.memory
    have words := readWords_tabling (v := v) ready fits
    refine brings_after (yields_writeTable ready fits) ?_
    refine brings_lifted (P := fun a s' => ∃ polls,
      (a = .ok 0 ∧ s' = s.withLink ((mid.patient polls).withEngine
        { mid.engine with heap := mid.engine.heap.raiseMessage Engine.interruptedText })) ∨
      (a = .ok Ptr.undefined ∧ s' = s.withLink ((mid.patient polls).resolving p v reject))) ?_ ?_
    · refine brings_bind (brings_exportCall (s := s.withLink mid) ready.clear words able) ?_
      rintro _ _ ⟨polls, ⟨rfl, rfl⟩ | ⟨rfl, rfl⟩⟩
      · exact brings_pure ⟨polls, .inl ⟨rfl, rfl⟩⟩
      · exact brings_pure ⟨polls, .inr ⟨rfl, rfl⟩⟩
    · rintro _ _ ⟨polls, outcome⟩
      -- Without the table only the counter of addresses has moved on.
      let base := (s.link.patient polls).withMemory (mid.memory.free (UInt32.ofNat s.link.memory.next))
      have changed : Changed [] (s.link.patient polls) base :=
        (Changed.scratched (ready.patient polls).memory fits (Memory.encodeWords [v])).free place
      have ready' : base.Ready := changed.ready (ready.patient polls) ready.counted
      rw [if_neg nonzero]
      rcases outcome with ⟨rfl, rfl⟩ | ⟨rfl, rfl⟩
      · refine brings_after (yields_answered (answered_free _ _)) ?_
        rcases takeLastError_raised ready' Engine.interruptedText with ⟨e, text, l', taken, raised, -⟩ | ⟨l', taken, same⟩
        · have raised' : Raised (s.link.patient polls) Engine.interruptedText e text l' :=
            { raised with changed := changed.trans raised.changed }
          exact brings_after (yields_answered taken) (brings_pure ⟨polls, l', rfl, .interrupted raised'⟩)
        · refine brings_after (yields_answered taken) (brings_pure ⟨polls, l', rfl, .refused ?_⟩)
          exact ⟨changed.trans same.1, same.2⟩
      · refine brings_after (yields_answered (answered_free _ _)) (brings_pure ⟨polls, _, rfl, .resolved ?_⟩)
        exact ⟨⟨_, _, _, Nat.le_refl _, changed.atop, rfl⟩, rfl⟩
  next =>
    have refused : answered (writeTable [v]) s.link = (.error (.allocation 4), s.link) := by
      rw [writeTable, size_table (by simp)]
      exact answered_writeBlock_refused ready.clear fits
    exact brings_failed (yields_answered refused) ⟨s.link.patience, s.link, rfl, .refused (.refl ready)⟩

end Runner

end ScriptHost
