import ScriptHost.Snapshot

set_option autoImplicit false

/-!
Causes of failure, and the one place where they are put into words.
-/

namespace ScriptHost

inductive ConversionError where
  | tooDeep (limit : Nat)
  | tooLarge (bytes limit : Nat)
  | circular
  | function
  | promise
  | other (message : String)

namespace ConversionError

def message : ConversionError -> String
  | tooDeep limit => "depth exceeded maximum limit of " ++ Nat.repr limit
  | tooLarge bytes limit =>
      "size (" ++ Nat.repr bytes ++ " bytes) exceeded maximum limit of " ++ Nat.repr limit ++ " bytes"
  | circular => "circular reference detected"
  | function => "functions cannot be converted to host values"
  | promise => "promises must be awaited before conversion"
  | other message => message

end ConversionError

inductive ConfigError where
  | blankThreadName
  | zeroMemoryLimit
  | zeroTimeout
  | zeroConversionLimit
  | unreadable
  | other (message : String)
  deriving DecidableEq

namespace ConfigError

def message : ConfigError -> String
  | blankThreadName => "thread name cannot be empty"
  | zeroMemoryLimit => "memory limit must be a positive number of bytes"
  | zeroTimeout => "execution timeout must be positive"
  | zeroConversionLimit => "conversion limits must be positive"
  | unreadable => "unreadable text"
  | other message => message

end ConfigError

inductive StateError where
  | peekAtFailure
  | noSuccess
  | noFailure
  | pumpInsideTask
  | hookAlreadySet
  | other (message : String)
  deriving DecidableEq

namespace StateError

def message : StateError -> String
  | peekAtFailure => "peek called on a failed outcome"
  | noSuccess => "unwrap called on a failed outcome"
  | noFailure => "unwrap_failure called on a successful outcome"
  | pumpInsideTask => "cannot pump the dispatcher from inside an async host task"
  | hookAlreadySet => "global rejection hook already set"
  | other message => message

end StateError

inductive Panic where
  | text (s : String)
  | other
  deriving DecidableEq

namespace Panic

def message : Panic -> String
  | text s => s
  | other => "non-string panic payload"

end Panic

inductive Error where
  -- A released resource was used, or one that its scope has released.
  | usedAfterRelease (what : String)
  -- The engine was touched off the thread that owns it.
  | wrongThread (operation : String)
  -- The engine reported a failure.
  | foreign (operation message : String)
  | allocation (size : Nat)
  | rejected (reason : Snapshot)
  | cancelled
  | state (cause : StateError)
  | borrowedRelease
  | shuttingDown
  | engineClosed
  | panicked (message : String)
  -- Releases failed while a scope was disposed; the first of them is kept.
  | disposal (failed : Nat) (first : Error)
  | conversion (cause : ConversionError)
  -- Host code failed.
  | host (message : String)
  | config (cause : ConfigError)

namespace Error

def ofPanic (p : Panic) : Error :=
  panicked p.message

def message : Error -> String
  | usedAfterRelease what => what ++ " used after release"
  | wrongThread operation => operation ++ " called off the thread that owns the engine"
  | foreign operation text => operation ++ " failed: " ++ text
  | allocation size => "engine allocation of " ++ Nat.repr size ++ " bytes failed"
  | rejected reason => "promise rejected: " ++ reason.display
  | cancelled => "operation cancelled"
  | state cause => "invalid state: " ++ cause.message
  | borrowedRelease => "borrowed handle cannot be released by its holder"
  | shuttingDown => "dispatcher is shutting down"
  | engineClosed => "engine has been closed"
  | panicked text => "work item panicked: " ++ text
  | disposal failed first =>
      Nat.repr failed ++ " release(s) failed during scope disposal; first error: " ++ first.message
  | conversion cause => "value conversion failed: " ++ cause.message
  | host text => text
  | config cause => "invalid configuration: " ++ cause.message

end Error

end ScriptHost
