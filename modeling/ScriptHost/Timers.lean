import ScriptHost.Table

set_option autoImplicit false

/-!
Delayed and periodic callbacks.

The registry only keeps track of when callbacks are due; the caller tells it the time. Entries live in
a table, and beside it stands a queue of due times. Cancelling and rescheduling leave stale elements in
the queue, which are skipped when they come to its front.
-/

namespace ScriptHost

abbrev TimerId := UInt32

structure Timer (α : Type) where
  due : Nat
  -- Present for repeating timers.
  period : Option Nat
  cancelled : Bool
  -- Absent while the callback is out.
  callback : Option α
  seq : Nat

/-- A place in the queue, current as long as the timer still has its sequence number. -/
structure Due where
  time : Nat
  seq : Nat
  id : TimerId
  deriving DecidableEq

def Due.before (a b : Due) : Bool :=
  decide (a.time < b.time) || (a.time == b.time && decide (a.seq < b.seq))

structure Timers (α : Type) where
  entries : Table TimerId (Timer α)
  -- Ascending by time, then by sequence number.
  queue : List Due
  lastId : TimerId
  nextSeq : Nat

namespace Timers

variable {α : Type}

def minPeriod : Nat :=
  1000

def empty : Timers α :=
  ⟨Table.empty, [], 0, 0⟩

instance : Inhabited (Timers α) :=
  ⟨empty⟩

def enqueue (d : Due) : List Due -> List Due
  | [] => [d]
  | e :: rest => if d.before e then d :: e :: rest else e :: enqueue d rest

-- Zero is never handed out as an id.
def nextId (id : TimerId) : TimerId :=
  if id + 1 = 0 then 1 else id + 1

/-- The first id after `id` that no entry has. One more try than there are entries always finds it. -/
def freshId (entries : Table TimerId (Timer α)) : Nat -> TimerId -> TimerId
  | 0, id => nextId id
  | tries + 1, id => if entries.contains (nextId id) then freshId entries tries (nextId id) else nextId id

/-- Runs `callback` once `delay` has passed. Callbacks due at the same instant run in the order in
which they were scheduled. -/
def schedule (t : Timers α) (now : Nat) (callback : α) (delay : Nat) (repeating : Bool) :
    TimerId × Timers α :=
  let id := freshId t.entries t.entries.size t.lastId
  let timer : Timer α :=
    { due := now + delay
      period := if repeating then some (max delay minPeriod) else none
      cancelled := false
      callback := some callback
      seq := t.nextSeq }
  (id,
    { entries := t.entries.set id timer
      queue := enqueue ⟨now + delay, t.nextSeq, id⟩ t.queue
      lastId := id
      nextSeq := t.nextSeq + 1 })

def cancel (t : Timers α) (id : TimerId) : Option (Option α) × Timers α :=
  match t.entries.get? id with
  | none => (none, t)
  | some timer =>
      if timer.cancelled then (none, t)
      else
        (some timer.callback,
          { t with entries := t.entries.set id { timer with cancelled := true, callback := none } })

def get? (t : Timers α) (id : TimerId) : Option (Timer α) :=
  t.entries.get? id

def size (t : Timers α) : Nat :=
  t.entries.values.countP fun timer => !timer.cancelled

def pruneQueue (entries : Table TimerId (Timer α)) : List Due -> Table TimerId (Timer α) × List Due
  | [] => (entries, [])
  | d :: rest =>
      match entries.get? d.id with
      | none => pruneQueue entries rest
      | some timer =>
          if timer.seq = d.seq then
            if timer.cancelled then pruneQueue (entries.erase d.id) rest else (entries, d :: rest)
          else pruneQueue entries rest

def prune (t : Timers α) : Timers α :=
  let (entries, queue) := pruneQueue t.entries t.queue
  { t with entries, queue }

def nextDeadline (t : Timers α) : Option Nat × Timers α :=
  let t := t.prune
  (t.queue.head?.map Due.time, t)

def nextWhere (t : Timers α) (counts : Timer α -> Bool) : Option Nat :=
  let current (d : Due) : Bool :=
    match t.entries.get? d.id with
    | none => false
    | some timer => timer.seq == d.seq && !timer.cancelled && counts timer
  (t.queue.find? current).map Due.time

/-- Takes the earliest timer due at or before `now`. A repeating timer is first put off to one period
from `now`, and its callback has to come back through `restore`; as long as that is out, taking the
timer again finds nothing to hand over and leaves it off the queue. -/
def takeDue (t : Timers α) (now : Nat) : Option (TimerId × α) × Timers α :=
  let t := t.prune
  match t.queue with
  | [] => (none, t)
  | d :: rest =>
      if now < d.time then (none, t)
      else
        match t.entries.get? d.id with
        | none => (none, { t with queue := rest })
        | some timer =>
            match timer.period with
            | none =>
                (timer.callback.map fun callback => (d.id, callback),
                  { t with entries := t.entries.erase d.id, queue := rest })
            | some period =>
                let later : Timer α := { timer with due := now + period, seq := t.nextSeq, callback := none }
                let next : Timers α :=
                  { t with entries := t.entries.set d.id later, queue := rest, nextSeq := t.nextSeq + 1 }
                match timer.callback with
                | none => (none, next)
                | some callback =>
                    (some (d.id, callback),
                      { next with queue := enqueue ⟨now + period, t.nextSeq, d.id⟩ rest })

/-- Returns the callback of a repeating timer after it ran. The callback comes back if the timer is
gone, was cancelled, or has one already. -/
def restore (t : Timers α) (id : TimerId) (callback : α) : Option α × Timers α :=
  match t.entries.get? id with
  | none => (some callback, t)
  | some timer =>
      if timer.cancelled then (some callback, { t with entries := t.entries.erase id })
      else
        match timer.callback with
        | some _ => (some callback, t)
        | none => (none, { t with entries := t.entries.set id { timer with callback := some callback } })

def drain (t : Timers α) : List α × Timers α :=
  (t.entries.values.filterMap Timer.callback, { t with entries := Table.empty, queue := [] })

def runDue : Nat -> Timers α -> Nat -> List TimerId × Timers α
  | 0, t, _ => ([], t)
  | fuel + 1, t, now =>
      match t.takeDue now with
      | (none, t) => ([], t)
      | (some (id, callback), t) =>
          let (ids, t) := runDue fuel (t.restore id callback).2 now
          (id :: ids, t)

/-- Runs everything due at `now`. Each timer fires at most once, since a repeating one is put off
beyond `now`, so the queue bounds the number of callbacks. -/
def runAll (t : Timers α) (now : Nat) : List TimerId × Timers α :=
  runDue (t.queue.length + 1) t now

end Timers

end ScriptHost
