import ScriptHost.Answer
import ScriptHost.Timers

set_option autoImplicit false

/-!
Steps on a registry of timers whose callbacks do nothing.
-/

namespace ScriptHost

inductive TimerStep where
  | schedule (now delay : Nat) (repeating : Bool)
  | cancel (id : TimerId)
  -- Takes a due timer; its callback is kept aside.
  | take (now : Nat)
  -- Returns the callback kept aside for a timer, or another one.
  | restore (id : TimerId)
  | get (id : TimerId)
  | size
  | next
  | drain
  -- Takes and at once restores timers until none is due.
  | takeAll (now : Nat)

inductive TimerAnswer where
  | absent
  | id (id : TimerId)
  | ids (ids : List TimerId)
  -- The callback of the cancelled timer was out.
  | running
  -- The callback of the cancelled timer was handed back.
  | callback
  | restored (kept : Bool)
  | timer (id : TimerId) (t : Timer Unit)
  | size (n : Nat)
  | instant (t : Nat)
  | returned (n : Nat)

namespace TimerStep

abbrev BenchTimers := Timers Unit

def run (t : BenchTimers) : TimerStep -> TimerAnswer × BenchTimers
  | schedule now delay repeating =>
      let (id, t) := t.schedule now () delay repeating
      (.id id, t)
  | cancel id =>
      match t.cancel id with
      | (none, t) => (.absent, t)
      | (some none, t) => (.running, t)
      | (some (some ()), t) => (.callback, t)
  | take now =>
      match t.takeDue now with
      | (none, t) => (.absent, t)
      | (some (id, ()), t) => (.id id, t)
  | restore id =>
      let (back, t) := t.restore id ()
      (.restored back.isNone, t)
  | get id =>
      (match t.get? id with
        | none => .absent
        | some timer => .timer id timer, t)
  | size => (.size t.size, t)
  | next =>
      match t.nextDeadline with
      | (none, t) => (.absent, t)
      | (some time, t) => (.instant time, t)
  | drain =>
      let (callbacks, t) := t.drain
      (.returned callbacks.length, t)
  | takeAll now =>
      let (ids, t) := t.runAll now
      (.ids ids, t)

def runAll : BenchTimers -> List TimerStep -> List TimerAnswer
  | _, [] => []
  | t, first :: rest =>
      let (answer, t) := run t first
      answer :: runAll t rest

end TimerStep

end ScriptHost
