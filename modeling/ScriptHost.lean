import ScriptHost.Bench.Budget
import ScriptHost.Bench.Functions
import ScriptHost.Bench.Outcome
import ScriptHost.Bench.Raw
import ScriptHost.Bench.Scope
import ScriptHost.Bench.Timers
import ScriptHost.Bench.Typed
import ScriptHost.Dispatcher.Session
import ScriptHost.Proofs.Engine.Counts
import ScriptHost.Proofs.Engine.Ownership
import ScriptHost.Proofs.Engine.Promises
import ScriptHost.Proofs.Engine.Properties
import ScriptHost.Proofs.Engine.Memory
import ScriptHost.Proofs.Engine.Outcome
import ScriptHost.Proofs.Engine.Requests
import ScriptHost.Proofs.Engine.Queue
import ScriptHost.Proofs.Dialogue
import ScriptHost.Proofs.Link.Answers
import ScriptHost.Proofs.Link.Quiet
import ScriptHost.Proofs.Handles.Calls
import ScriptHost.Proofs.Engine.Calls
import ScriptHost.Proofs.Engine.Hosting
import ScriptHost.Proofs.Handles.Custody
import ScriptHost.Proofs.Dispatcher.Runs
import ScriptHost.Proofs.Dispatcher.Jobs
import ScriptHost.Proofs.Dispatcher.Cycles
import ScriptHost.Proofs.Dispatcher.Sessions
import ScriptHost.Proofs.Dispatcher.Submit
import ScriptHost.Proofs.Dispatcher.Intake
import ScriptHost.Proofs.Dispatcher.Order
import ScriptHost.Proofs.Dispatcher.Faithful
import ScriptHost.Proofs.Dispatcher.Completions
import ScriptHost.Proofs.Dispatcher.Sheltering
import ScriptHost.Proofs.Timers.Places
import ScriptHost.Proofs.Timers.Punctual
import ScriptHost.Proofs.Timers.Agenda
import ScriptHost.Proofs.Timers.Orderly
import ScriptHost.Proofs.Timers.Firing
import ScriptHost.Proofs.Engine.Affairs
import ScriptHost.Proofs.Engine.Turns
import ScriptHost.Proofs.Engine.Openings
import ScriptHost.Proofs.Engine.Steady
import ScriptHost.Proofs.Engine.Fates
import ScriptHost.Proofs.Engine.Courses
import ScriptHost.Proofs.Engine.Settlements
import ScriptHost.Proofs.Dispatcher.Reports
import ScriptHost.Proofs.Engine.Chronicle
import ScriptHost.Proofs.Engine.Recording
import ScriptHost.Proofs.Link.Recording
import ScriptHost.Proofs.Dispatcher.Unhandled
import ScriptHost.Proofs.Engine.Effects
import ScriptHost.Proofs.Engine.Forests
import ScriptHost.Proofs.Engine.Interrupts
import ScriptHost.Proofs.Conversion.Building
import ScriptHost.Proofs.Conversion.Plain
import ScriptHost.Proofs.Conversion.Reading
import ScriptHost.Proofs.Conversion.RoundTrip
import ScriptHost.Proofs.Conversion.Unfolding
import ScriptHost.Proofs.Engine.Blocks
import ScriptHost.Proofs.Config
import ScriptHost.Proofs.Json.Numbers
import ScriptHost.Proofs.Snapshot
import ScriptHost.Proofs.Dispatcher.Attempts
import ScriptHost.Proofs.Dispatcher.Belongings
import ScriptHost.Proofs.Dispatcher.Deferring
import ScriptHost.Proofs.Dispatcher.Payloads
import ScriptHost.Proofs.Dispatcher.Trials
import ScriptHost.Proofs.Scopes.Programs
import ScriptHost.Proofs.Link.Crossing
import ScriptHost.Proofs.Dispatcher.Calm
import ScriptHost.Proofs.Dispatcher.Waits
import ScriptHost.Proofs.Engine.Accounts
import ScriptHost.Proofs.Outcomes
import ScriptHost.Proofs.Link.Balance
import ScriptHost.Proofs.Number.Integers
import ScriptHost.Proofs.Link.Handover
import ScriptHost.Proofs.Dispatcher.Attending
import ScriptHost.Proofs.Dispatcher.Registering
import ScriptHost.Proofs.Dispatcher.Passing
import ScriptHost.Proofs.Engine.Freeing
import ScriptHost.Proofs.Engine.Assigning
import ScriptHost.Proofs.Conversion.Charges
import ScriptHost.Proofs.Functions
import ScriptHost.Proofs.Engine.Reporting
import ScriptHost.Proofs.Link.Verbatim
