/-!
# The I/O thread of the websocket client

`WSClient::run` and the destructor of the client with the thread they start
and join. One caller uses the client, one call after another. The statements
of both parties are the steps, a handler's begin and its end among them; of the
`io_context` the model has the number of outstanding operations and the stopped
state, which it enters when it runs out of work and in which `run()` returns.
-/

namespace MexcApi

namespace Futures

namespace WSThread

inductive ThreadPc where
  | setRunning
  | testStopped
  | restart
  | running
  /-- In a handler, which is to start `more` operations and perhaps throws. -/
  | handling (more : Nat) (throws : Bool)
  /-- `io_context.run()` has returned. -/
  | clear
  /-- After the loop. -/
  | clearEnd
  | ended
  deriving DecidableEq, Repr

/-- Where the caller is; `test` to `spawn` are the statements of `run`. -/
inductive CallerPc where
  | outside
  | test
  | set
  | join
  | spawn
  /-- In the destructor, after `stop()`. -/
  | joinLast
  | destroyed
  deriving DecidableEq, Repr

structure State where
  isRunning : Bool := false
  stopped : Bool := false
  /-- Operations of the `io_context` whose handlers have not ended. -/
  work : Nat := 0
  /-- `none` when `m_ioThread` is not joinable. -/
  thread : Option ThreadPc := none
  caller : CallerPc := .outside
  deriving DecidableEq, Repr

inductive Event where
  /-- `subscribe` without a session: the first operation of a new one is started. -/
  | subscribe
  /-- A call of `run`. -/
  | run
  /-- The next statement of the caller. -/
  | caller
  /-- `io_context.stop()` of the destructor. -/
  | destroy
  /-- An operation completes and its handler begins. -/
  | handler (more : Nat) (throws : Bool)
  /-- The next statement of the thread, or the end of its handler. -/
  | thread
  deriving DecidableEq, Repr

def stepCaller (s : State) : Option State :=
  match s.caller with
  | .test => some { s with caller := if s.isRunning then .outside else .set }
  | .set => some { s with isRunning := true, caller := .join }
  | .join =>
    match s.thread with
    | none => some { s with caller := .spawn }
    | some .ended => some { s with thread := none, caller := .spawn }
    | some _ => none
  | .spawn => some { s with thread := some .setRunning, caller := .outside }
  | .joinLast =>
    match s.thread with
    | none => some { s with caller := .destroyed }
    | some .ended => some { s with thread := none, caller := .destroyed }
    | some _ => none
  | .outside | .destroyed => none

def stepThread (s : State) : Option State :=
  match s.thread with
  | some .setRunning => some { s with isRunning := true, thread := some .testStopped }
  | some .testStopped => some { s with thread := some (if s.stopped then .restart else .running) }
  | some .restart => some { s with stopped := false, thread := some .running }
  | some .running =>
    if s.stopped = true ∨ s.work = 0 then some { s with stopped := true, thread := some .clear } else none
  | some (.handling more throws) =>
    -- an exception leaves `io_context.run()`, is caught, and the loop starts again
    some { s with
      work := s.work - 1 + more, stopped := s.stopped || s.work - 1 + more = 0
      thread := some (if throws then .setRunning else .running) }
  | some .clear => some { s with isRunning := false, thread := some .clearEnd }
  | some .clearEnd => some { s with isRunning := false, thread := some .ended }
  | some .ended | none => none

def step (s : State) : Event → Option State
  | .subscribe => if s.caller = .outside then some { s with work := s.work + 1, caller := .test } else none
  | .run => if s.caller = .outside then some { s with caller := .test } else none
  | .caller => stepCaller s
  | .destroy => if s.caller = .outside then some { s with stopped := true, caller := .joinLast } else none
  | .handler more throws =>
    if s.thread = some .running ∧ s.stopped = false ∧ 0 < s.work then
      some { s with thread := some (.handling more throws) }
    else none
  | .thread => stepThread s

def Idle (s : State) : Prop := s.thread = none ∨ s.thread = some .ended

/-- What `run` is for: work that was started is not left without a thread. -/
def Served (s : State) : Prop := s.caller = .outside → Idle s → s.work = 0

end WSThread

end Futures

end MexcApi
