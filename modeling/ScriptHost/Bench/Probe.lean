import ScriptHost.Resource

set_option autoImplicit false

/-!
Probes: resources that log their releases and end them as a script says.
-/

namespace ScriptHost

inductive ReleaseEvent where
  | released (name : String)
  | ran (name : String)
  deriving DecidableEq

abbrev ReleaseLog := StateM (List ReleaseEvent)

def ReleaseLog.write (e : ReleaseEvent) : ReleaseLog Unit :=
  modify (e :: ·)

structure Probe where
  name : String
  -- How the next releases end; those after the last one succeed.
  script : List Ending

instance : Resource ReleaseLog Probe where
  release p := do
    ReleaseLog.write (.released p.name)
    match p.script with
    | [] => pure (.done, p)
    | ending :: rest => pure (ending, { p with script := rest })
  discard _ := pure ()

end ScriptHost
