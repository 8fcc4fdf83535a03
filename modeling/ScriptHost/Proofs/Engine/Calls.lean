import ScriptHost.Engine.Call
import ScriptHost.Proofs.Engine.Requests

set_option autoImplicit false

/-!
Who owns the references of calls and jobs while they wait for the host, and when they are over.
-/

namespace ScriptHost

namespace Completion

def pointers : Completion -> List Ptr
  | returned v => [v]
  | threw exception => [exception]

end Completion

namespace Check

def children : Check -> List Ptr
  | job j => j.children
  | call _ _ _ _ => []
  | handler j _ => j.children

def arguments : Check -> List Ptr
  | call _ _ args _ => args
  | _ => []

def handedOver : Check -> Scalar -> List Ptr
  | call _ _ _ _, answer => answer.pointers
  | _, _ => []

end Check

namespace Frame

def children : Frame -> List Ptr
  | call => []
  | handler j _ => j.children

def handedOver : Frame -> Scalar -> List Ptr
  | call, answer => answer.pointers
  | handler _ _, _ => []

end Frame

namespace Stage

def references (hands : Scalar -> List Ptr) : Stage -> List Ptr
  | done (.ok answer) => hands answer
  | done (.error _) => []
  | checking c => c.children
  | calling _ f => f.children

end Stage

namespace Engine

open Heap

structure Sound (stale : Nat) (outside : List Ptr) (s : Engine) : Prop where
  memory : s.memory.WellFormed
  heap : Accounted stale outside s.heap

variable {stale : Nat} {outside : List Ptr} {s : Engine} {job : Job} {c : Completion}

theorem sound_empty : Sound 0 [] empty :=
  ⟨Memory.wellFormed_empty, Nat.zero_le _, fun _ => Balanced.empty⟩

theorem throwing_sound (ok : Sound stale outside s) (message : String) :
    Sound stale ((s.throwing message).1.pointers ++ outside) (s.throwing message).2 :=
  ⟨ok.memory, ok.heap.newError message⟩

theorem endCall_sound (ok : Sound stale (c.pointers ++ outside) s) :
    Sound stale ((s.endCall c).1.pointers ++ outside) (s.endCall c).2 := by
  cases c with
  | returned v =>
    simp only [endCall, Scalar.pointers_ofWord]
    exact ok
  | threw exception => exact ⟨ok.memory, (ok.heap.setException).ignore zero_small⟩

theorem endJob_sound (ok : Sound stale (c.pointers ++ (job.children ++ outside)) s) :
    Sound stale outside (s.endJob job c).2 := by
  have derived : job.derived ∈ job.children ++ outside := by simp [Job.children]
  cases c with
  | returned v =>
    have names := ok.heap.names (List.mem_cons_of_mem v derived)
    have resolved := ok.heap.resolveWith names (.inr (.inl List.mem_cons_self))
    exact ⟨ok.memory, resolved.release.finishJob⟩
  | threw exception =>
    have settled : Accounted stale (exception :: (job.children ++ outside))
        (s.heap.settle job.derived exception true) := ok.heap.settle (.inr (.inl List.mem_cons_self))
    exact ⟨ok.memory, settled.release.finishJob⟩

theorem passThrough_sound (ok : Sound stale (job.children ++ outside) s) :
    Sound stale outside (s.passThrough job).2 := by
  have derived : job.derived ∈ job.children ++ outside := by simp [Job.children]
  have argument : Lasting stale (job.children ++ outside) job.argument :=
    .inr (.inl (by simp [Job.children]))
  refine ⟨ok.memory, Accounted.finishJob ?_⟩
  split
  next => exact ok.heap.settle argument
  next => exact ok.heap.resolveWith (ok.heap.names derived) argument

theorem interruptJob_sound (ok : Sound stale (job.children ++ outside) s) :
    Sound stale outside (s.interruptJob job).2 :=
  ⟨ok.memory, ok.heap.releaseAll.raiseMessage _⟩

def Start.references : Start -> List Ptr
  | ended c => c.pointers
  | host _ => []

theorem lasting_head {args : List Ptr} (lasting : ∀ v ∈ args, Lasting stale outside v) :
    Lasting stale outside (args.head?.getD Ptr.undefined) := by
  cases args with
  | nil => exact .inl (show Ptr.undefined < Ptr.firstCounted by decide)
  | cons v rest => exact lasting v List.mem_cons_self

theorem start_sound (interrupted : Bool) (function : Ptr) {args : List Ptr} (ok : Sound stale outside s)
    (lasting : ∀ v ∈ args, Lasting stale outside v) :
    Sound stale ((s.start interrupted function args).1.references ++ outside)
      (s.start interrupted function args).2 := by
  have undefined_ignored : ∀ h, Accounted stale outside h ->
      Accounted stale (Ptr.undefined :: outside) h :=
    fun h a => a.ignore (by decide)
  unfold start
  split
  next => exact throwing_sound ok _
  next =>
    split
    next =>
      split
      next => exact ok
      next => exact throwing_sound ok _
    next =>
      exact ⟨ok.memory, undefined_ignored _ (ok.heap.callResolving (lasting_head lasting) false)⟩
    next =>
      exact ⟨ok.memory, undefined_ignored _ (ok.heap.callResolving (lasting_head lasting) true)⟩
    next => exact throwing_sound ok _

theorem completion_sound {answer : Ptr} (ok : Sound stale ((Ptr.nonzero? answer).toList ++ outside) s) :
    Sound stale ((s.completion answer).1.pointers ++ outside) (s.completion answer).2 := by
  unfold completion
  unfold Ptr.nonzero? at ok
  split
  next none =>
    rw [if_pos none] at ok
    split
    next exception raised =>
      have taken := ok.heap.takeException
      simp only [Heap.takeException, raised] at taken
      exact ⟨ok.memory, taken⟩
    next => exact throwing_sound ok _
  next some =>
    rw [if_neg some] at ok
    exact ok

theorem runCall_sound (interrupted : Bool) (function this : Ptr) {args : List Ptr} (table : Addr)
    (ok : Sound stale outside s) (lasting : ∀ v ∈ args, Lasting stale outside v) :
    Sound stale ((s.runCall interrupted function this args table).1.references Scalar.pointers ++ outside)
      (s.runCall interrupted function this args table).2 := by
  have started := start_sound interrupted function ok lasting
  unfold runCall
  generalize s.start interrupted function args = r at *
  obtain ⟨c | id, t⟩ := r
  · exact endCall_sound started
  · exact started

theorem runHandler_sound (interrupted : Bool) (function : Ptr)
    (ok : Sound stale (job.children ++ outside) s) :
    Sound stale ((s.runHandler interrupted job function).1.references (fun _ => []) ++ outside)
      (s.runHandler interrupted job function).2 := by
  have argument : ∀ v ∈ [job.argument], Lasting stale (job.children ++ outside) v := by
    intro v member
    obtain rfl := List.mem_singleton.1 member
    exact .inr (.inl (by simp [Job.children]))
  have started := start_sound interrupted function ok argument
  unfold runHandler
  generalize s.start interrupted function [job.argument] = r at *
  obtain ⟨c | id, t⟩ := r
  · exact endJob_sound started
  · obtain ⟨table, m, done, tabled⟩ := Memory.writeTable_spec started.memory [job.argument]
    dsimp only
    rw [done]
    dsimp only
    have kept : Sound stale (job.children ++ outside) { t with memory := m } :=
      ⟨tabled.wellFormed, started.heap⟩
    split
    next => exact endJob_sound (throwing_sound kept _)
    next => exact kept

theorem afterCheck_sound (interrupted : Bool) (check : Check)
    (ok : Sound stale (check.children ++ outside) s)
    (lasting : ∀ v ∈ check.arguments, Lasting stale outside v) :
    Sound stale ((s.afterCheck interrupted check).1.references check.handedOver ++ outside)
      (s.afterCheck interrupted check).2 := by
  cases check with
  | job job =>
    simp only [afterCheck]
    split
    next => exact interruptJob_sound ok
    next =>
      split
      next => exact passThrough_sound ok
      next => exact ok
  | call function this args table => exact runCall_sound interrupted function this table ok lasting
  | handler job function => exact runHandler_sound interrupted function ok

theorem afterHost_sound {answer : Ptr} (frame : Frame)
    (ok : Sound stale ((Ptr.nonzero? answer).toList ++ (frame.children ++ outside)) s) :
    Sound stale (frame.handedOver (s.afterHost answer frame).1 ++ outside) (s.afterHost answer frame).2 := by
  cases frame with
  | call => exact endCall_sound (completion_sound ok)
  | handler job table =>
    have freed : Sound stale ((Ptr.nonzero? answer).toList ++ (job.children ++ outside))
        { s with memory := s.memory.free table } := ⟨ok.memory.free table, ok.heap⟩
    exact endJob_sound (completion_sound freed)

theorem beginCall_sound (function this : Ptr) (count : UInt32) (arguments : Addr)
    (ok : Sound stale outside s) :
    Sound stale ((s.beginCall function this count arguments).1.references Scalar.pointers ++ outside)
      (s.beginCall function this count arguments).2 := by
  unfold beginCall
  split <;> exact ok

theorem beginJob_sound (ok : Sound stale outside s) :
    Sound stale (s.beginJob.1.references (fun _ => []) ++ outside) s.beginJob.2 := by
  have taken : ∀ job, s.heap.takeJob.1 = some job ->
      Accounted stale (job.children ++ outside) s.heap.takeJob.2 := fun _ next => ok.heap.takeJob next
  unfold beginJob
  generalize s.heap.takeJob = r at *
  obtain ⟨_ | job, h⟩ := r
  · exact ok
  · exact ⟨ok.memory, taken job rfl⟩

end Engine

end ScriptHost
