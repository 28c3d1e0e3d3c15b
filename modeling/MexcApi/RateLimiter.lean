import MexcApi.Trace

/-!
# The rate limiter

`RateLimiter::wait` of both REST clients. A call is one atomic step, or two
when it sleeps: the section up to the unlock, and the one after the sleep.
Times are milliseconds of the clock.
-/

namespace MexcApi

structure RateLimiter where
  localLimit : Nat
  windowSizeMs : Int

def Spot.rateLimiter : RateLimiter := { localLimit := 10, windowSizeMs := 1000 }

def Futures.rateLimiter : RateLimiter := { localLimit := 10, windowSizeMs := 1000 }

namespace RateLimiter

/-- A caller inside `sleep_for`: the `now` it read and the earliest moment it
can go on. -/
structure Sleeper where
  caller : Nat
  now : Int
  wake : Int
  deriving DecidableEq, Repr

/-- A return from `wait`: the time put into `requestTimes` and the time of the
return. -/
structure Passed where
  recorded : Int
  released : Int
  deriving DecidableEq, Repr

structure State where
  clock : Int
  requestTimes : List Int
  sleeping : List Sleeper
  passed : List Passed
  deriving DecidableEq, Repr

def State.init (clock : Int) : State := { clock, requestTimes := [], sleeping := [], passed := [] }

inductive Event where
  | enter (caller : Nat) (now : Int)
  | resume (caller : Nat) (time : Int)
  deriving DecidableEq, Repr

def Event.caller : Event → Nat
  | .enter caller _ => caller
  | .resume caller _ => caller

inductive Admission where
  | pass
  | sleep (waitTime : Int)

variable (L : RateLimiter)

def prune (now : Int) : List Int → List Int
  | [] => []
  | t :: ts => if now - t > L.windowSizeMs then prune now ts else t :: ts

/-- The size test. `front()` is only read of a deque that holds `localLimit`
entries. -/
def admission (now : Int) (requestTimes : List Int) : Admission :=
  if requestTimes.length ≥ L.localLimit then
    match requestTimes with
    | oldest :: _ =>
      let waitTime := (oldest + L.windowSizeMs) - now + 10
      if waitTime > 0 then .sleep waitTime else .pass
    | [] => .pass
  else .pass

def step (s : State) : Event → Option State
  | .enter caller now =>
    if s.clock ≤ now ∧ ∀ sl ∈ s.sleeping, sl.caller ≠ caller then
      let times := L.prune now s.requestTimes
      match L.admission now times with
      | .pass => some { s with
          clock := now, requestTimes := times ++ [now], passed := s.passed ++ [⟨now, now⟩] }
      | .sleep waitTime => some { s with
          clock := now, requestTimes := times, sleeping := s.sleeping ++ [⟨caller, now, now + waitTime⟩] }
    else none
  | .resume caller time =>
    match s.sleeping.find? (·.caller = caller) with
    | some sl =>
      if s.clock ≤ time ∧ sl.wake ≤ time then
        some {
          clock := time
          requestTimes := s.requestTimes ++ [sl.now]
          sleeping := s.sleeping.erase sl
          passed := s.passed ++ [⟨sl.now, time⟩] }
      else none
    | none => none

/-- The returns from `wait` in the interval of `windowSizeMs` that starts at `a`. -/
def returnsFrom (a : Int) (s : State) : List Passed :=
  s.passed.filter fun p => a ≤ p.released ∧ p.released ≤ a + L.windowSizeMs

/-- What the limiter is for: no interval of `windowSizeMs` has more than
`localLimit` returns. -/
def WithinLimit (s : State) : Prop :=
  ∀ a, (L.returnsFrom a s).length ≤ L.localLimit

end RateLimiter

end MexcApi
