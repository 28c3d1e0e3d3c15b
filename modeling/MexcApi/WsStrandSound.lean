import MexcApi.Trace
import MexcApi.WsClient

/-!
# When a session strands requests

A session takes requests as long as a handler holds it, also when only the
ping timer does. Up to the handshake one operation of the chain is outstanding
and no timer runs; from then on the timer runs and a read or a write is under
way. The error paths of `onWrite` and `onRead` and the closes end this without
ending the session.
-/

namespace MexcApi

open Nlohmann

namespace Futures

namespace Session

/-! ## The two stages of a session -/

structure Connecting (s : Session) : Prop where
  chain : s.resolve + s.connect + s.sslHandshake + s.handshake = 1
  transfer : s.read + s.write = 0
  timer : s.waiting + s.expired + s.cancelled = 0
  phase : s.phase = .idle
  close : s.close = 0
  closing : s.closing = false

structure Connected (s : Session) : Prop where
  chain : s.resolve + s.connect + s.sslHandshake + s.handshake = 0
  transfer : s.read + s.write = if s.phase = .idle then 1 else 0
  timer : s.waiting + s.expired = 1
  cancelled : s.cancelled = 0
  close : s.close = 0
  closing : s.closing = false

/-- The session can only be found while it works on its requests. -/
def Working (s : Session) : Prop := s.alive = true → s.busy = true ∧ s.closing = false

def Inv (s : Session) : Prop := s.alive = false ∨ s.Connecting ∨ s.Connected

theorem working_of_inv {s : Session} (h : s.Inv) : s.Working := by
  intro ha
  rcases h with h | h | h
  · rw [h] at ha; cases ha
  · have := h.chain
    refine ⟨?_, h.closing⟩
    simp only [busy, Bool.or_eq_true, decide_eq_true_eq]
    left; omega
  · refine ⟨?_, h.closing⟩
    have ht := h.transfer
    simp only [busy, Bool.or_eq_true, decide_eq_true_eq, ne_eq]
    by_cases hp : s.phase = .idle
    · left
      rw [if_pos hp] at ht
      omega
    · right; exact hp

theorem inv_start (r : Json) : (start r).Inv := Or.inr (Or.inl ⟨rfl, rfl, rfl, rfl, rfl, rfl⟩)

/-! ## The steps that keep the session working -/

/-- `onRead` handles the message without an exception. -/
def Readable : Option Json → Prop
  | none => False
  | some json => json.isObject = true →
      isApiControlMsg json = .ok false ∨
        isApiControlMsg json = .ok true ∧ ∀ data ∈ json.find? "data", data.isString = true

def Keeps (s : Session) : Event → Prop
  | .close => False
  | .written ok => ok = true
  | .read .error => False
  | .read (.text json) => Readable json
  | .readAgain => s.subscriptions ≠ []
  | _ => True

theorem getString_ok_iff {json : Json} : (∃ text, json.getString = .ok text) ↔ json.isString = true := by
  cases json <;> simp [Json.getString, Json.isString]

theorem handleMessage_ok_iff (s : Session) (json : Option Json) :
    (∃ s', s.handleMessage json = .ok s') ↔ Readable json := by
  cases json with
  | none => simp [handleMessage, Readable]
  | some json =>
    simp only [handleMessage, Readable]
    by_cases ho : json.isObject = true
    · rw [if_pos ho]
      cases hc : isApiControlMsg json with
      | error e => simp [ho, bind, Except.bind]
      | ok b =>
        cases b with
        | false => simp [bind, Except.bind, pure, Except.pure]
        | true =>
          simp only [bind, Except.bind, ite_true, handleApiControlMsg, ho]
          cases hd : json.find? "data" with
          | none => simp
          | some data =>
            simp only [Option.mem_def, Option.some.injEq, forall_eq', ← getString_ok_iff]
            cases data.getString with
            | error e => simp
            | ok text => by_cases ht : text = "success" <;> simp [ht, pure, Except.pure]
    · rw [if_neg ho]
      simp [ho]

theorem not_alive {s : Session} (hp : s.phase = .idle)
    (h : s.resolve + s.connect + s.sslHandshake + s.handshake + s.read + s.write + s.waiting + s.expired +
      s.cancelled = 0) : s.alive = false := by
  have hbusy : s.busy = false := by
    simp only [busy, hp, Bool.or_eq_false_iff, decide_eq_false_iff_not]
    exact ⟨by omega, by simp⟩
  simp only [alive, hbusy, Bool.false_or, decide_eq_false_iff_not]
  omega

theorem connecting_next {s : Session} {e : Event} (h : s.Connecting) (hen : s.Enabled e) (hk : s.Keeps e) :
    (s.next e).Inv := by
  obtain ⟨hchain, htransfer, htimer, hphase, hclose, hclosing⟩ := h
  cases e with
  | subscribe r =>
    obtain ⟨queue, accepted, heq⟩ := s.subscribe_fields r
    rw [heq]
    exact Or.inr (Or.inl ⟨hchain, htransfer, htimer, hphase, hclose, hclosing⟩)
  | close => exact hk.elim
  | resolved ok =>
    have := hen.2
    cases ok with
    | true => exact Or.inr (Or.inl ⟨by simp only [next, onResolve, ite_true]; omega, htransfer, htimer, hphase,
      hclose, hclosing⟩)
    | false => exact Or.inl (not_alive hphase (by simp only [next, onResolve, Bool.false_eq_true, ite_false]; omega))
  | connected ok =>
    have := hen.2
    cases ok with
    | true => exact Or.inr (Or.inl ⟨by simp only [next, onConnect, ite_true]; omega, htransfer, htimer, hphase,
      hclose, hclosing⟩)
    | false => exact Or.inl (not_alive hphase (by simp only [next, onConnect, Bool.false_eq_true, ite_false]; omega))
  | sslHandshaken ok =>
    have := hen.2
    cases ok with
    | true =>
      exact Or.inr (Or.inl ⟨by simp only [next, onSSLHandshake, ite_true]; omega, htransfer, htimer, hphase,
        hclose, hclosing⟩)
    | false => exact Or.inl (not_alive hphase (by simp only [next, onSSLHandshake, Bool.false_eq_true, ite_false]; omega))
  | handshaken ok =>
    have := hen.2
    cases ok with
    | true =>
      obtain ⟨queue, r, heq⟩ := readSubscription_fields { s with handshake := s.handshake - 1, waiting := s.waiting + 1 }
      right; right
      simp only [next, onHandshake, ite_true, asyncWrite, heq]
      refine ⟨?_, ?_, ?_, ?_, hclose, hclosing⟩
      · show s.resolve + s.connect + s.sslHandshake + (s.handshake - 1) = 0; omega
      · rw [if_pos hphase]
        show s.read + (s.write + 1) = 1; omega
      · show s.waiting + 1 + s.expired = 1; omega
      · show s.cancelled = 0; omega
    | false => exact Or.inl (not_alive hphase (by simp only [next, onHandshake, Bool.false_eq_true, ite_false]; omega))
  | written ok => have := hen.2; omega
  | read result => have := hen.2; omega
  | readNext => have := hphase.symm.trans hen; cases this
  | readAgain => have := hphase.symm.trans hen; cases this
  | closed => have := hen.2; omega
  | pinged => exact Or.inr (Or.inl ⟨hchain, htransfer, htimer, hphase, hclose, hclosing⟩)
  | timerExpires => have : 0 < s.waiting := hen; omega
  | timer isOpen => have := hen.2; omega
  | timerCancelled => have := hen.2; omega

theorem connected_next {s : Session} {e : Event} (h : s.Connected) (hen : s.Enabled e) (hk : s.Keeps e) :
    (s.next e).Connected := by
  obtain ⟨hchain, htransfer, htimer, hcancelled, hclose, hclosing⟩ := h
  cases e with
  | subscribe r =>
    obtain ⟨queue, accepted, heq⟩ := s.subscribe_fields r
    rw [heq]
    exact ⟨hchain, htransfer, htimer, hcancelled, hclose, hclosing⟩
  | close => exact hk.elim
  | resolved ok => have := hen.2; omega
  | connected ok => have := hen.2; omega
  | sslHandshaken ok => have := hen.2; omega
  | handshaken ok => have := hen.2; omega
  | written ok =>
    obtain ⟨hp, hw⟩ := hen
    rw [if_pos hp] at htransfer
    simp only [Keeps] at hk
    subst hk
    refine ⟨hchain, ?_, htimer, hcancelled, hclose, hclosing⟩
    show s.read + 1 + (s.write - 1) = if s.phase = .idle then 1 else 0
    rw [if_pos hp]; omega
  | read result =>
    obtain ⟨hp, hr⟩ := hen
    rw [if_pos hp] at htransfer
    cases result with
    | error => exact hk.elim
    | text json =>
      obtain ⟨s', hs'⟩ := (handleMessage_ok_iff { s with read := s.read - 1 } json).mpr hk
      simp only [next, onRead, hs']
      obtain ⟨subs, r, rfl⟩ := handleMessage_fields hs'
      refine ⟨hchain, ?_, htimer, hcancelled, hclose, hclosing⟩
      show s.read - 1 + s.write = if ReadPhase.handled = .idle then 1 else 0
      rw [if_neg (by decide)]; omega
  | readNext =>
    have hp : s.phase = .handled := hen
    rw [if_neg (by rw [hp]; decide)] at htransfer
    simp only [next, onReadNext]
    cases hq : s.subscriptionRequests with
    | nil =>
      simp only [readSubscription, hq]
      refine ⟨hchain, ?_, htimer, hcancelled, hclose, hclosing⟩
      show s.read + s.write = if ReadPhase.drained = .idle then 1 else 0
      rw [if_neg (by decide)]; omega
    | cons r queue =>
      simp only [readSubscription, hq]
      refine ⟨hchain, ?_, htimer, hcancelled, hclose, hclosing⟩
      show s.read + (s.write + 1) = if ReadPhase.idle = .idle then 1 else 0
      rw [if_pos rfl]; omega
  | readAgain =>
    have hp : s.phase = .drained := hen
    have hsub : s.subscriptions ≠ [] := hk
    rw [if_neg (by rw [hp]; decide)] at htransfer
    have hf : s.subscriptions.isEmpty = false := by simpa using hsub
    simp only [next, onReadAgain, hf, Bool.false_eq_true, ite_false]
    refine ⟨hchain, ?_, htimer, hcancelled, hclose, hclosing⟩
    show s.read + 1 + s.write = if ReadPhase.idle = .idle then 1 else 0
    rw [if_pos rfl]; omega
  | closed => have := hen.2; omega
  | pinged => exact ⟨hchain, htransfer, htimer, hcancelled, hclose, hclosing⟩
  | timerExpires =>
    have : 0 < s.waiting := hen
    refine ⟨hchain, htransfer, ?_, hcancelled, hclose, hclosing⟩
    show s.waiting - 1 + (s.expired + 1) = 1; omega
  | timer isOpen =>
    have := hen.2
    refine ⟨hchain, htransfer, ?_, ?_, hclose, hclosing⟩
    · show 0 + 1 + (s.expired - 1) = 1; omega
    · show s.cancelled + s.waiting = 0; omega
  | timerCancelled => have := hen.2; omega

theorem inv_step {s s' : Session} {e : Event} (h : s.Inv) (hk : s.Keeps e) (hs : s.step e = some s') : s'.Inv := by
  obtain ⟨ha, hen, rfl⟩ := step_some hs
  rcases h with h | h | h
  · rw [h] at ha; cases ha
  · exact connecting_next h hen hk
  · exact Or.inr (Or.inr (connected_next h hen hk))

/-! ## The steps that strand it -/

theorem not_working_of_closing {s : Session} (ha : s.alive = true) (hc : s.closing = true) : ¬ s.Working := by
  intro h
  have := (h ha).2
  rw [hc] at this; cases this

theorem not_working_of_timer {s : Session} (hp : s.phase = .idle)
    (hops : s.resolve + s.connect + s.sslHandshake + s.handshake + s.read + s.write = 0)
    (htimer : 0 < s.waiting + s.expired + s.cancelled) : ¬ s.Working := by
  intro h
  have ha : s.alive = true := by
    simp only [alive, Bool.or_eq_true, decide_eq_true_eq]
    right; exact htimer
  have := (h ha).1
  simp only [busy, hp, hops] at this
  simp at this

theorem strands {s s' : Session} {e : Event} (h : s.Inv) (hk : ¬ s.Keeps e) (hs : s.step e = some s') :
    ¬ s'.Working := by
  obtain ⟨ha, hen, rfl⟩ := step_some hs
  have hinv : s.Connecting ∨ s.Connected := by
    rcases h with h | h
    · rw [h] at ha; cases ha
    · exact h
  -- a transfer that completes belongs to a connected session
  have hconn : 0 < s.read + s.write → s.Connected := by
    intro hpos
    rcases hinv with h | h
    · have := h.transfer; omega
    · exact h
  cases e with
  | close => exact not_working_of_closing ha rfl
  | written ok =>
    obtain ⟨hp, hw⟩ := hen
    have hc := hconn (by omega)
    have htransfer := hc.transfer
    rw [if_pos hp] at htransfer
    have hok : ok = false := by simpa [Keeps] using hk
    subst hok
    have hchain := hc.chain
    have htimer := hc.timer
    refine not_working_of_timer hp ?_ ?_
    · show s.resolve + s.connect + s.sslHandshake + s.handshake + s.read + (s.write - 1) = 0; omega
    · show 0 < s.waiting + s.expired + s.cancelled; omega
  | read result =>
    obtain ⟨hp, hr⟩ := hen
    have hc := hconn (by omega)
    have htransfer := hc.transfer
    rw [if_pos hp] at htransfer
    have hchain := hc.chain
    have htimer := hc.timer
    cases result with
    | error =>
      refine not_working_of_timer hp ?_ ?_
      · show s.resolve + s.connect + s.sslHandshake + s.handshake + (s.read - 1) + s.write = 0; omega
      · show 0 < 0 + s.expired + (s.cancelled + s.waiting); omega
    | text json =>
      cases hm : { s with read := s.read - 1 }.handleMessage json with
      | ok s' => exact absurd ((handleMessage_ok_iff _ json).mp ⟨s', hm⟩) hk
      | error err =>
        simp only [next, onRead, hm]
        refine not_working_of_closing ?_ rfl
        have htime : 0 < s.waiting + s.expired + s.cancelled := by omega
        simp [alive, closeWs, htime]
  | readAgain =>
    have hsub : s.subscriptions = [] := by simpa [Keeps] using hk
    refine not_working_of_closing ?_ ?_
    · simp only [next, onReadAgain, hsub, List.isEmpty_nil, ite_true, alive, busy, closeWs, Bool.or_eq_true,
        decide_eq_true_eq]
      left; left; omega
    · simp only [next, onReadAgain, hsub, List.isEmpty_nil, ite_true, closeWs]
  | _ => exact absurd trivial hk

end Session

/-! ## Runs of the client -/

namespace WSClient

/-- A session that `subscribe` would give its request to will still pick it up. -/
def Serving (c : WSClient) : Prop := ∀ s, c.lock = some s → s.busy = true ∧ s.closing = false

/-- A step that is no close, no failed read or write, no message that cannot
be handled and no return to reading without subscriptions. -/
def Keeps (c : WSClient) : Event → Prop
  | .subscribe _ => True
  | .session e => ∀ s ∈ c.session, s.Keeps e

def Inv (c : WSClient) : Prop := ∀ s ∈ c.session, s.Inv

theorem lock_eq_some {c : WSClient} {s : Session} : c.lock = some s ↔ c.session = some s ∧ s.alive = true := by
  unfold lock
  rw [Option.filter_eq_some_iff]

theorem serving_of_inv {c : WSClient} (h : c.Inv) : c.Serving := by
  intro s hl
  obtain ⟨hs, ha⟩ := lock_eq_some.mp hl
  exact Session.working_of_inv (h s hs) ha

theorem inv_subscribe {c c' : WSClient} {r : Json} (h : c.Inv) (hs : c.step (.subscribe r) = some c') : c'.Inv := by
  simp only [step, subscribe] at hs
  cases hl : c.lock with
  | none =>
    simp only [hl, Session.run_new, bind, Except.bind, pure, Except.pure] at hs
    cases hs
    intro s hs
    cases hs
    exact Session.inv_start r
  | some session =>
    rw [hl] at hs
    obtain ⟨hsession, ha⟩ := lock_eq_some.mp hl
    cases hw : session.writeSubscription r with
    | error e =>
      simp only [hw, bind, Except.bind] at hs
      cases hs
      exact h
    | ok session' =>
      simp only [hw, bind, Except.bind, pure, Except.pure] at hs
      cases hs
      intro s hs
      cases hs
      have hstep : session.step (.subscribe r) = some session' := by
        simp only [Session.step, Session.next, hw]
        rw [if_pos ⟨ha, trivial⟩]
      exact Session.inv_step (h session hsession) (show session.Keeps (.subscribe r) from trivial) hstep

theorem step_session {c c' : WSClient} {e : Session.Event} (h : c.step (.session e) = some c') :
    ∃ s s', c.session = some s ∧ s.step e = some s' ∧ c' = { session := some s' } := by
  simp only [step] at h
  cases hc : c.session with
  | none => rw [hc] at h; cases h
  | some s =>
    rw [hc] at h
    obtain ⟨s', hs', rfl⟩ := Option.map_eq_some_iff.mp h
    exact ⟨s, s', rfl, hs', rfl⟩

theorem inv_keeps (c : WSClient) (e : Event) (c' : WSClient) (h : c.Inv) (hk : c.Keeps e)
    (hs : c.step e = some c') : c'.Inv := by
  cases e with
  | subscribe r => exact inv_subscribe h hs
  | session e =>
    obtain ⟨s, s', hc, hs', rfl⟩ := step_session hs
    intro t ht
    cases ht
    exact Session.inv_step (h s hc) (hk s hc) hs'

theorem strands (c : WSClient) (e : Event) (c' : WSClient) (h : c.Inv) (hk : ¬ c.Keeps e)
    (hs : c.step e = some c') : ¬ c'.Serving := by
  cases e with
  | subscribe r => exact absurd trivial hk
  | session e =>
    obtain ⟨s, s', hc, hs', rfl⟩ := step_session hs
    have hk' : ¬ s.Keeps e := by
      intro hke
      apply hk
      intro t ht
      rw [hc] at ht
      cases ht
      exact hke
    have hno := Session.strands (h s hc) hk' hs'
    intro hserving
    apply hno
    intro ha
    exact hserving s' (lock_eq_some.mpr ⟨rfl, ha⟩)

theorem serving_iff_keeps (es : List Event) :
    Trace.Always step Serving {} es ↔ Trace.Guarded step Keeps {} es :=
  Trace.always_iff_guarded step (fun _ => serving_of_inv) inv_keeps strands (by intro s hs; cases hs)

def failedWrite (r : Json) : List Event :=
  .subscribe r :: ([.resolved true, .connected true, .sslHandshaken true, .handshaken true, .written false].map
    Event.session)

/-- The next request is put into the queue of a session that does nothing any more. -/
theorem request_stranded :
    let eth := (WSStreamManager.tickerSubscription "ETH_USDT").toJson
    let kline := (WSStreamManager.candlestickSubscription "ETH_USDT" ._1m).toJson
    ∃ c s, Trace.run step {} (failedWrite eth ++ [.subscribe kline]) = some c ∧ c.lock = some s ∧
      s.subscriptionRequests = [kline] ∧ s.busy = false ∧ ¬ c.Serving :=
  ⟨_, _, rfl, rfl, rfl, rfl, fun h => Bool.false_ne_true (h _ rfl).1⟩

end WSClient

end Futures

end MexcApi
