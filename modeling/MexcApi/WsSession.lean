import MexcApi.Json

/-!
# A websocket session of the futures client

`WebSocketSession::P` as a state machine. An asynchronous operation is a
counter of the handlers that have not run yet. The sections of `onRead` that
lock `subscriptionLocker` are steps of their own, since `subscribe` may come
from another thread in between; every other handler is one step.

What a data message is decoded to goes to a callback and to the log only, and
both catch what is thrown, so nothing of it is kept. The host name and the times
of the last ping and pong are left out as well; the buffers are in `WsWire`.
Where the code applies the const `operator[]` to a missing key, which is
undefined, a step goes on as if a null were there, one of the things that may
happen; `WsWire` says which steps these are.
-/

namespace MexcApi

open Nlohmann

namespace Futures

inductive ReadPhase where
  | idle
  /-- The message is handled, `readSubscription` comes next. -/
  | handled
  /-- `readSubscription` has found the queue empty. -/
  | drained
  deriving DecidableEq, Repr

structure Session where
  subscriptions : List Json := []
  subscriptionRequests : List Json := []
  subscribing : Json := .null
  -- operations whose handlers have not run yet
  resolve : Nat := 0
  connect : Nat := 0
  sslHandshake : Nat := 0
  handshake : Nat := 0
  read : Nat := 0
  write : Nat := 0
  close : Nat := 0
  ping : Nat := 0
  -- waits on the ping timer: running, expired, cancelled
  waiting : Nat := 0
  expired : Nat := 0
  cancelled : Nat := 0
  phase : ReadPhase := .idle
  /-- `async_close` has been called. -/
  closing : Bool := false
  /-- The requests put into the queue so far. -/
  accepted : List Json := []
  /-- What has been handed to `async_write` so far; `none` is the empty string. -/
  written : List (Option Json) := []
  deriving Repr

/-- What a read completes with; `json` is what `parse` makes of the text. -/
inductive ReadResult where
  | error
  | text (json : Option Json)

namespace Session

/-! ## The subscription lists -/

/-- The loop of `writeSubscription`. A missing key is read as null. -/
def alreadySubscribed (subscriptionRequest : Json) : List Json → Except Fault Bool
  | [] => .ok false
  | sub :: subscriptions => do
    let subMethod ← (sub.access "method").orNull
    let method ← (subscriptionRequest.access "method").orNull
    if subMethod.eq method then
      let subSymbol ← (sub.access "symbol").orNull
      let symbol ← (subscriptionRequest.access "symbol").orNull
      if subSymbol.eq symbol then return true
      else alreadySubscribed subscriptionRequest subscriptions
    else alreadySubscribed subscriptionRequest subscriptions

def writeSubscription (s : Session) (subscriptionRequest : Json) : Except Fault Session := do
  if ← alreadySubscribed subscriptionRequest s.subscriptions then return s
  else return { s with
    subscriptionRequests := s.subscriptionRequests ++ [subscriptionRequest]
    accepted := s.accepted ++ [subscriptionRequest] }

def readSubscription (s : Session) : Option Json × Session :=
  match s.subscriptionRequests with
  | [] => (none, s)
  | request :: requests => (some request, { s with subscriptionRequests := requests, subscribing := request })

/-- `find` of `std::string`. -/
def findText (text : List Char) : List Char → Bool
  | [] => text.isEmpty
  | c :: cs => text.isPrefixOf (c :: cs) || findText text cs

def isApiControlMsg (json : Json) : Except Fault Bool :=
  match json.find? "channel" with
  | some channel => do return findText "rs.".toList (← channel.getString).toList
  | none => .ok false

/-- What the exchange answers to a subscription. -/
def controlMsg (channel text : String) : Json := .obj [("channel", .str channel), ("data", .str text)]

def handleApiControlMsg (s : Session) (json : Json) : Except Fault Session :=
  match json.find? "data" with
  | some data => do
    if (← data.getString) ≠ "success" then
      return { s with subscriptions := s.subscriptions.eraseP (·.eq s.subscribing), subscribing := .null }
    else
      return { s with subscriptions := s.subscriptions ++ [s.subscribing], subscribing := .null }
  | none => .ok s

def isSubscribed (s : Session) (subscriptionRequest : Json) : Bool :=
  s.subscriptions.any (·.eq subscriptionRequest)

/-! ## The handlers -/

def closeWs (s : Session) : Session := { s with close := s.close + 1, closing := true }

/-- `pingTimer.cancel()` reaches the waits that have not expired. -/
def cancelTimer (s : Session) : Session := { s with waiting := 0, cancelled := s.cancelled + s.waiting }

def run (s : Session) (subscriptionRequest : Json) : Except Fault Session := do
  let s ← s.writeSubscription subscriptionRequest
  return { s with resolve := s.resolve + 1 }

def onResolve (s : Session) (ok : Bool) : Session :=
  if ok then { s with resolve := s.resolve - 1, connect := s.connect + 1 }
  else { s with resolve := s.resolve - 1 }

/-- `ok` includes that the host name could be set. -/
def onConnect (s : Session) (ok : Bool) : Session :=
  if ok then { s with connect := s.connect - 1, sslHandshake := s.sslHandshake + 1 }
  else { s with connect := s.connect - 1 }

def onSSLHandshake (s : Session) (ok : Bool) : Session :=
  if ok then { s with sslHandshake := s.sslHandshake - 1, handshake := s.handshake + 1 }
  else { s with sslHandshake := s.sslHandshake - 1 }

def asyncWrite : Option Json × Session → Session
  | (payload, s) => { s with write := s.write + 1, written := s.written ++ [payload] }

def onHandshake (s : Session) (ok : Bool) : Session :=
  if ok then asyncWrite { s with handshake := s.handshake - 1, waiting := s.waiting + 1 }.readSubscription
  else { s with handshake := s.handshake - 1 }

def onWrite (s : Session) (ok : Bool) : Session :=
  if ok then { s with write := s.write - 1, read := s.read + 1 }
  else { s with write := s.write - 1 }

/-- The first section of `onRead`, without its catch block. -/
def handleMessage (s : Session) : Option Json → Except Fault Session
  | none => .error (.jsonException 101)
  | some json =>
    if json.isObject then do
      if ← isApiControlMsg json then s.handleApiControlMsg json
      else return s
    else .ok s

def onRead (s : Session) : ReadResult → Session
  | .error => { s with read := s.read - 1 }.cancelTimer
  | .text json =>
    match { s with read := s.read - 1 }.handleMessage json with
    | .ok s' => { s' with phase := .handled }
    | .error _ => { s with read := s.read - 1 }.closeWs

def onReadNext (s : Session) : Session :=
  match s.readSubscription with
  | (none, s') => { s' with phase := .drained }
  | (some request, s') => asyncWrite (some request, { s' with phase := .idle })

def onReadAgain (s : Session) : Session :=
  let s' := if s.subscriptions.isEmpty then s.closeWs else s
  { s' with read := s'.read + 1, phase := .idle }

def onClose (s : Session) : Session := { s with close := s.close - 1 }.cancelTimer

/-- The handler of an expired wait; `isOpen` is `ws.is_open()`. Moving the
expiry cancels every other wait. -/
def onPingTimer (s : Session) (isOpen : Bool) : Session :=
  let s' := { s with expired := s.expired - 1, ping := if isOpen then s.ping + 1 else s.ping }.cancelTimer
  { s' with waiting := s'.waiting + 1 }

/-! ## Steps -/

inductive Event where
  | subscribe (subscriptionRequest : Json)
  | close
  | resolved (ok : Bool)
  | connected (ok : Bool)
  | sslHandshaken (ok : Bool)
  | handshaken (ok : Bool)
  | written (ok : Bool)
  | read (result : ReadResult)
  | readNext
  | readAgain
  | closed
  | pinged
  | timerExpires
  | timer (isOpen : Bool)
  | timerCancelled

def busy (s : Session) : Bool :=
  0 < s.resolve + s.connect + s.sslHandshake + s.handshake + s.read + s.write || s.phase ≠ .idle

/-- A handler holds a `shared_ptr` to the session. Those of a close and of a
ping only hold `this`. -/
def alive (s : Session) : Bool := s.busy || 0 < s.waiting + s.expired + s.cancelled

/-- The event is possible. The handlers run on one thread, one at a time. -/
def Enabled (s : Session) : Event → Prop
  | .subscribe _ => True
  | .close => True
  | .resolved _ => s.phase = .idle ∧ 0 < s.resolve
  | .connected _ => s.phase = .idle ∧ 0 < s.connect
  | .sslHandshaken _ => s.phase = .idle ∧ 0 < s.sslHandshake
  | .handshaken _ => s.phase = .idle ∧ 0 < s.handshake
  | .written _ => s.phase = .idle ∧ 0 < s.write
  | .read _ => s.phase = .idle ∧ 0 < s.read
  | .readNext => s.phase = .handled
  | .readAgain => s.phase = .drained
  | .closed => s.phase = .idle ∧ 0 < s.close
  | .pinged => s.phase = .idle ∧ 0 < s.ping
  | .timerExpires => 0 < s.waiting
  | .timer _ => s.phase = .idle ∧ 0 < s.expired
  | .timerCancelled => s.phase = .idle ∧ 0 < s.cancelled

instance (s : Session) : (e : Event) → Decidable (s.Enabled e)
  | .subscribe _ | .close => isTrue trivial
  | .resolved _ | .connected _ | .sslHandshaken _ | .handshaken _ | .written _ | .read _ | .closed | .pinged
  | .timer _ | .timerCancelled => inferInstanceAs (Decidable (_ ∧ _))
  | .readNext | .readAgain => inferInstanceAs (Decidable (_ = _))
  | .timerExpires => inferInstanceAs (Decidable (0 < _))

/-- What the event does. An exception of `writeSubscription` goes to the
caller of `subscribe`. -/
def next (s : Session) : Event → Session
  | .subscribe subscriptionRequest =>
    match s.writeSubscription subscriptionRequest with
    | .ok s' => s'
    | .error _ => s
  | .close => s.closeWs
  | .resolved ok => s.onResolve ok
  | .connected ok => s.onConnect ok
  | .sslHandshaken ok => s.onSSLHandshake ok
  | .handshaken ok => s.onHandshake ok
  | .written ok => s.onWrite ok
  | .read result => s.onRead result
  | .readNext => s.onReadNext
  | .readAgain => s.onReadAgain
  | .closed => s.onClose
  | .pinged => { s with ping := s.ping - 1 }
  | .timerExpires => { s with waiting := s.waiting - 1, expired := s.expired + 1 }
  | .timer isOpen => s.onPingTimer isOpen
  | .timerCancelled => { s with cancelled := s.cancelled - 1 }

def step (s : Session) (e : Event) : Option Session :=
  if s.alive = true ∧ s.Enabled e then some (s.next e) else none

def start (subscriptionRequest : Json) : Session where
  subscriptionRequests := [subscriptionRequest]
  accepted := [subscriptionRequest]
  resolve := 1

theorem run_new (subscriptionRequest : Json) :
    ({} : Session).run subscriptionRequest = .ok (start subscriptionRequest) := rfl

theorem step_some {s s' : Session} {e : Event} (h : s.step e = some s') :
    s.alive = true ∧ s.Enabled e ∧ s' = s.next e := by
  unfold step at h
  split at h
  · rename_i hc
    cases h
    exact ⟨hc.1, hc.2, rfl⟩
  · cases h

/-! ## What the functions change -/

theorem subscribe_fields (s : Session) (r : Json) :
    ∃ queue accepted, s.next (.subscribe r) = { s with subscriptionRequests := queue, accepted := accepted } := by
  simp only [next, writeSubscription]
  cases alreadySubscribed r s.subscriptions with
  | error e => exact ⟨_, _, rfl⟩
  | ok b => cases b <;> exact ⟨_, _, rfl⟩

theorem readSubscription_fields (s : Session) :
    ∃ queue r, s.readSubscription.2 = { s with subscriptionRequests := queue, subscribing := r } := by
  unfold readSubscription
  split <;> exact ⟨_, _, rfl⟩

theorem handleMessage_fields {s s' : Session} {json : Option Json} (h : s.handleMessage json = .ok s') :
    ∃ subs r, s' = { s with subscriptions := subs, subscribing := r } := by
  cases json with
  | none => cases h
  | some json =>
    simp only [handleMessage] at h
    split at h
    · cases hc : isApiControlMsg json with
      | error e => rw [hc] at h; cases h
      | ok b =>
        cases b with
        | false => rw [hc] at h; cases h; exact ⟨_, _, rfl⟩
        | true =>
          rw [hc] at h
          simp only [bind, Except.bind, ite_true, handleApiControlMsg] at h
          split at h
          · rename_i data _
            cases hd : data.getString with
            | error e => rw [hd] at h; cases h
            | ok text =>
              rw [hd] at h
              simp only [pure, Except.pure] at h
              split at h <;> (cases h; exact ⟨_, _, rfl⟩)
          · cases h; exact ⟨_, _, rfl⟩
    · cases h; exact ⟨_, _, rfl⟩

/-! ## The setup of the connection -/

def setup (s : Session) : Nat := s.resolve + s.connect + s.sslHandshake + s.handshake

def Staged (s : Session) : Prop := s.setup ≤ 1 ∧ (s.setup = 1 → s.phase = .idle ∧ s.read + s.write = 0)

theorem staged_start (r : Json) : (start r).Staged := ⟨Nat.le_refl 1, fun _ => ⟨rfl, rfl⟩⟩

theorem staged_of_zero {s : Session} (h : s.setup = 0) : s.Staged := ⟨by omega, fun heq => by omega⟩

theorem staged_link {s s' : Session} (h : s.Staged) (hpos : 0 < s.setup) (hle : s'.setup ≤ s.setup)
    (hphase : s'.phase = s.phase) (hread : s'.read = s.read) (hwrite : s'.write = s.write) : s'.Staged := by
  obtain ⟨hone, hidle⟩ := h
  refine ⟨by omega, fun _ => ?_⟩
  rw [hphase, hread, hwrite]
  exact hidle (by omega)

theorem setup_eq_zero {s : Session} (h : s.Staged) (hact : s.phase ≠ .idle ∨ 0 < s.read + s.write) : s.setup = 0 := by
  obtain ⟨hone, hidle⟩ := h
  by_cases heq : s.setup = 1
  · obtain ⟨hp, hrw⟩ := hidle heq
    rcases hact with hact | hact
    · exact absurd hp hact
    · omega
  · omega

theorem handleMessage_setup {s s' : Session} {json : Option Json} (h : s.handleMessage json = .ok s') :
    s'.setup = s.setup := by
  obtain ⟨subs, r, rfl⟩ := handleMessage_fields h
  rfl

theorem readSubscription_setup (s : Session) : s.readSubscription.2.setup = s.setup := by
  obtain ⟨queue, r, heq⟩ := s.readSubscription_fields
  rw [heq]
  rfl

theorem handshaken_setup {s : Session} (ok : Bool) (h : 0 < s.handshake) :
    (s.next (.handshaken ok)).setup + 1 = s.setup := by
  cases ok with
  | false => simp only [next, onHandshake, setup, Bool.false_eq_true, ite_false]; omega
  | true =>
    have heq := readSubscription_setup { s with handshake := s.handshake - 1, waiting := s.waiting + 1 }
    simp only [setup] at heq
    simp only [next, onHandshake, ite_true, asyncWrite, setup]
    omega

theorem setup_next {s : Session} {e : Event} (hen : s.Enabled e) : (s.next e).setup ≤ s.setup := by
  cases e with
  | subscribe r =>
    obtain ⟨queue, accepted, heq⟩ := s.subscribe_fields r
    rw [heq]
    exact Nat.le_refl _
  | resolved ok =>
    have := hen.2
    cases ok
    · simp only [next, onResolve, setup, Bool.false_eq_true, ite_false]; omega
    · simp only [next, onResolve, setup, ite_true]; omega
  | connected ok =>
    have := hen.2
    cases ok
    · simp only [next, onConnect, setup, Bool.false_eq_true, ite_false]; omega
    · simp only [next, onConnect, setup, ite_true]; omega
  | sslHandshaken ok =>
    have := hen.2
    cases ok
    · simp only [next, onSSLHandshake, setup, Bool.false_eq_true, ite_false]; omega
    · simp only [next, onSSLHandshake, setup, ite_true]; omega
  | handshaken ok =>
    have := handshaken_setup ok hen.2
    omega
  | written ok => cases ok <;> exact Nat.le_refl _
  | read result =>
    cases result with
    | error => exact Nat.le_refl _
    | text json =>
      simp only [next, onRead]
      cases hm : { s with read := s.read - 1 }.handleMessage json with
      | error e => exact Nat.le_refl _
      | ok s' =>
        have heq := handleMessage_setup hm
        exact Nat.le_of_eq heq
  | readNext =>
    have heq := s.readSubscription_setup
    simp only [next, onReadNext]
    split
    · rename_i hq
      rw [hq] at heq
      exact Nat.le_of_eq heq
    · rename_i hq
      rw [hq] at heq
      exact Nat.le_of_eq heq
  | readAgain =>
    simp only [next, onReadAgain]
    split <;> exact Nat.le_refl _
  | close | closed | pinged | timerExpires | timer isOpen | timerCancelled => exact Nat.le_refl _

theorem staged_step {s s' : Session} {e : Event} (h : s.Staged) (hs : s.step e = some s') : s'.Staged := by
  obtain ⟨-, hen, rfl⟩ := step_some hs
  cases e with
  | subscribe r =>
    obtain ⟨queue, accepted, heq⟩ := s.subscribe_fields r
    rw [heq]; exact h
  | close => exact h
  | resolved ok =>
    have hpos : 0 < s.setup := by have := hen.2; unfold setup; omega
    cases ok <;> exact staged_link h hpos (setup_next hen) rfl rfl rfl
  | connected ok =>
    have hpos : 0 < s.setup := by have := hen.2; unfold setup; omega
    cases ok <;> exact staged_link h hpos (setup_next hen) rfl rfl rfl
  | sslHandshaken ok =>
    have hpos : 0 < s.setup := by have := hen.2; unfold setup; omega
    cases ok <;> exact staged_link h hpos (setup_next hen) rfl rfl rfl
  | handshaken ok =>
    have hone := h.1
    have := handshaken_setup ok hen.2
    apply staged_of_zero
    omega
  | written ok =>
    have hzero := setup_eq_zero h (Or.inr (by have := hen.2; omega))
    exact staged_of_zero (Nat.le_zero.mp (hzero ▸ setup_next hen))
  | read result =>
    have hzero := setup_eq_zero h (Or.inr (by have := hen.2; omega))
    exact staged_of_zero (Nat.le_zero.mp (hzero ▸ setup_next hen))
  | readNext =>
    have hp : s.phase = .handled := hen
    have hzero := setup_eq_zero h (Or.inl (by rw [hp]; decide))
    exact staged_of_zero (Nat.le_zero.mp (hzero ▸ setup_next hen))
  | readAgain =>
    have hp : s.phase = .drained := hen
    have hzero := setup_eq_zero h (Or.inl (by rw [hp]; decide))
    exact staged_of_zero (Nat.le_zero.mp (hzero ▸ setup_next hen))
  | closed => exact h
  | pinged => exact h
  | timerExpires => exact h
  | timer isOpen => exact h
  | timerCancelled => exact h

end Session

end Futures

end MexcApi
