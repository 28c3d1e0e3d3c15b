import Mathlib.Data.List.Induction
import MexcApi.WsQueueSound
import MexcApi.WsStrandSound

/-!
# When the requests are written

After the handshake a request is handed to `async_write` only when a message of
the exchange has been handled, and each message takes one, the oldest. A session
that has ended takes its requests with it: the next one asks for what is
subscribed from then on, and for nothing else.
-/

namespace MexcApi

open Nlohmann

namespace Futures

namespace Session

/-! ## One request for each message -/

theorem written_readNext {s s' : Session} (h : s.Queued) (hs : s.step .readNext = some s') :
    s'.accepted = s.accepted ∧ (s.written.length = s.accepted.length ∧ s'.written = s.written ∨
      s.written.length < s.accepted.length ∧ s'.written.length = s.written.length + 1) := by
  have hlength := congrArg List.length h.sequence
  simp only [List.length_append, List.length_map] at hlength
  obtain ⟨-, -, rfl⟩ := step_some hs
  simp only [next, onReadNext]
  cases hq : s.subscriptionRequests with
  | nil =>
    rw [hq] at hlength
    rw [readSubscription_nil hq]
    exact ⟨rfl, Or.inl ⟨hlength, rfl⟩⟩
  | cons r queue =>
    rw [hq, List.length_cons] at hlength
    rw [readSubscription_cons hq]
    refine ⟨rfl, Or.inr ⟨by omega, ?_⟩⟩
    simp [asyncWrite]

/-- A session after its handshake. -/
structure Flowing (s : Session) : Prop where
  queued : s.Queued
  connected : s.setup = 0

theorem flowing_step {s s' : Session} {e : Event} (h : s.Flowing) (hs : s.step e = some s') : s'.Flowing := by
  have hqueued := queued_step s e s' h.queued hs
  obtain ⟨-, hen, rfl⟩ := step_some hs
  have := setup_next hen
  have := h.connected
  exact ⟨hqueued, by omega⟩

theorem Flowing.not_handshaken {s s' : Session} {e : Event} (h : s.Flowing) (hs : s.step e = some s') :
    e ≠ .handshaken true := by
  rintro rfl
  obtain ⟨-, hen, -⟩ := step_some hs
  have := handshaken_setup true hen.2
  have := h.connected
  omega

/-- How many messages the session has handled: `readNext` follows each of them. -/
def handled (es : List Event) : Nat := es.countP fun
  | .readNext => true
  | _ => false

theorem handled_other {e : Event} (es : List Event) (h : e ≠ .readNext) : handled (e :: es) = handled es := by
  cases e with
  | readNext => exact absurd rfl h
  | _ => rfl

theorem flowing_run : ∀ {es : List Event} {s s' : Session}, s.Flowing → Trace.run step s es = some s' →
    s'.Queued ∧ s.accepted <+: s'.accepted ∧ min s.accepted.length (s.written.length + handled es) ≤ s'.written.length ∧
      s'.written.length ≤ s.written.length + handled es
  | [], s, s', h, hr => by
    cases hr
    exact ⟨h.queued, List.prefix_rfl, Nat.min_le_right _ _, Nat.le_add_right _ _⟩
  | e :: es, s, s', h, hr => by
    unfold Trace.run at hr
    cases hs : s.step e with
    | none =>
      rw [hs] at hr
      cases hr
    | some s₁ =>
      rw [hs] at hr
      obtain ⟨hqueued, haccepted, hlower, hupper⟩ := flowing_run (flowing_step h hs) hr
      by_cases he : e = .readNext
      · subst he
        obtain ⟨hsame, hstep⟩ := written_readNext h.queued hs
        have hcount : handled (.readNext :: es) = handled es + 1 := List.countP_cons_of_pos rfl
        rw [hsame] at haccepted hlower
        refine ⟨hqueued, haccepted, ?_, ?_⟩
        · rcases hstep with ⟨hall, heq⟩ | ⟨-, hone⟩
          · rw [heq] at hlower
            omega
          · omega
        · rcases hstep with ⟨-, heq⟩ | ⟨-, hone⟩
          · rw [heq] at hupper
            omega
          · omega
      · obtain ⟨haccept, hsame⟩ := written_other hs he (h.not_handshaken hs)
        have hlength := haccept.length_le
        rw [handled_other es he]
        rw [hsame] at hlower hupper
        exact ⟨hqueued, haccept.trans haccepted, by omega, hupper⟩

/-- The first write is the one after the handshake. -/
def Begins (s : Session) : Prop := s.Queued ∧ (s.written = [] ∨ s.setup = 0)

theorem begins_step (s : Session) (e : Event) (s' : Session) (h : s.Begins) (hs : s.step e = some s') : s'.Begins := by
  obtain ⟨hqueued, hbegin⟩ := h
  refine ⟨queued_step s e s' hqueued hs, ?_⟩
  by_cases hzero : s'.setup = 0
  · exact Or.inr hzero
  · have hstep := step_some hs
    have hle : s'.setup ≤ s.setup := hstep.2.2 ▸ setup_next hstep.2.1
    have hnil : s.written = [] := hbegin.resolve_right (by omega)
    have hnext : e ≠ .readNext := by
      rintro rfl
      have hphase : s.phase = .handled := hstep.2.1
      have := setup_eq_zero hqueued.staged (Or.inl (by rw [hphase]; decide))
      omega
    have hhs : e ≠ .handshaken true := by
      rintro rfl
      have := handshaken_setup true hstep.2.1.2
      have := hqueued.staged.1
      rw [hstep.2.2] at hzero
      omega
    exact Or.inl ((written_other hs hnext hhs).2.trans hnil)

/-- The requests accepted by some moment are handed to `async_write` one with
each message that is handled from then on, and no faster. -/
theorem requests_follow {r : Json} {es es' : List Event} {s s' : Session} (h : Trace.run step (start r) es = some s)
    (hbegun : s.written ≠ []) (h' : Trace.run step s es' = some s') :
    (s.accepted.map some).take (s.written.length + handled es') <+: s'.written ∧
      s'.written.length ≤ s.written.length + handled es' := by
  have hbegins : s.Begins := (Trace.always_of_step step begins_step ⟨queued_start r, Or.inl rfl⟩).last step h
  have hflowing : s.Flowing := ⟨hbegins.1, hbegins.2.resolve_left hbegun⟩
  obtain ⟨hqueued, haccepted, hlower, hupper⟩ := flowing_run hflowing h'
  refine ⟨?_, hupper⟩
  have hwritten : s'.written <+: s'.accepted.map some := ⟨_, hqueued.sequence⟩
  have htaken : (s.accepted.map some).take (s.written.length + handled es') <+: s'.accepted.map some :=
    (List.take_prefix _ _).trans (haccepted.map some)
  apply List.prefix_of_prefix_length_le htaken hwritten
  rw [List.length_take, List.length_map]
  omega

def btcRequest : Json := (WSStreamManager.tickerSubscription "BTC_USDT").toJson

def ethRequest : Json := (WSStreamManager.candlestickSubscription "ETH_USDT" ._1m).toJson

/-- Two requests are accepted, and one is written by the handshake. -/
def twoAccepted : List Event :=
  [.subscribe ethRequest, .resolved true, .connected true, .sslHandshaken true, .handshaken true, .written true]

def pushed : List Event :=
  [.read (.text (some (.obj [("channel", .str "push.ticker"), ("data", .obj []), ("symbol", .str "BTC_USDT")]))), .readNext]

theorem requests_follow_twoAccepted :
    ∃ s s', Trace.run step (start btcRequest) twoAccepted = some s ∧ Trace.run step s pushed = some s' ∧
      (s.accepted.map some).take (s.written.length + handled pushed) <+: s'.written ∧
        s'.written.length ≤ s.written.length + handled pushed := by
  obtain ⟨s, hs⟩ : ∃ s, Trace.run step (start btcRequest) twoAccepted = some s := ⟨_, rfl⟩
  obtain ⟨s', hs'⟩ : ∃ s', Trace.run step s pushed = some s' := by
    cases hs
    exact ⟨_, rfl⟩
  have hbegun : s.written ≠ [] := by
    cases hs
    exact List.cons_ne_nil _ _
  exact ⟨s, s', hs, hs', requests_follow hs hbegun hs'⟩

end Session

/-! ## A new session -/

namespace WSClient

def Event.request? : Event → Option Json
  | .subscribe r => some r
  | .session (.subscribe r) => some r
  | _ => none

def requested (es : List Event) : List Json := es.filterMap Event.request?

/-- The request goes to the session, which may throw it back, or to a new one. -/
theorem step_subscribe {c c' : WSClient} {r : Json} (h : c.step (.subscribe r) = some c') :
    (∃ s s', c.session = some s ∧ s.step (.subscribe r) = some s' ∧ c'.session = some s') ∨
      c.lock = none ∧ c'.session = some (Session.start r) := by
  simp only [step, subscribe] at h
  cases hl : c.lock with
  | none =>
    simp only [hl, Session.run_new, bind, Except.bind, pure, Except.pure] at h
    cases h
    exact Or.inr ⟨rfl, rfl⟩
  | some session =>
    rw [hl] at h
    obtain ⟨hsession, halive⟩ := lock_eq_some.mp hl
    have hstep : session.step (.subscribe r) = some (session.next (.subscribe r)) := if_pos ⟨halive, trivial⟩
    refine Or.inl ⟨session, _, hsession, hstep, ?_⟩
    cases hw : session.writeSubscription r with
    | error e =>
      simp only [hw, bind, Except.bind] at h
      cases h
      simp only [Session.next, hw]
      exact hsession
    | ok session' =>
      simp only [hw, bind, Except.bind, pure, Except.pure] at h
      cases h
      simp only [Session.next, hw]

theorem accepted_step {s s' : Session} {e : Session.Event} (h : s.step e = some s') :
    s'.accepted = s.accepted ∨ ∃ r, e = .subscribe r ∧ s'.accepted = s.accepted ++ [r] := by
  have hmove : Session.Move e s.lists s'.lists := Session.step_move h
  have key : ∀ {l l' : Session.Lists}, Session.Move e l l' →
      l'.accepted = l.accepted ∨ ∃ r, e = .subscribe r ∧ l'.accepted = l.accepted ++ [r] := by
    intro l l' hm
    cases hm with
    | accept r => exact Or.inr ⟨r, rfl, rfl⟩
    | _ => exact Or.inl rfl
  exact key hmove

/-- What an event of the client is to its session. -/
def Event.ofSession : Event → Session.Event
  | .subscribe r => .subscribe r
  | .session e => e

/-- The run is in two parts: at the end of the first no session can be locked,
and the second begins with the subscription that makes the session `s`. -/
def Since (es : List Event) (s : Session) : Prop :=
  ∃ es₁ r es₂ c₁, es = es₁ ++ .subscribe r :: es₂ ∧ Trace.run step {} es₁ = some c₁ ∧ c₁.lock = none ∧
    Trace.run Session.step (.start r) (es₂.map Event.ofSession) = some s

theorem Since.snoc {es : List Event} {s s' : Session} (h : Since es s) (e : Event)
    (hs : s.step e.ofSession = some s') : Since (es ++ [e]) s' := by
  obtain ⟨es₁, r, es₂, c₁, rfl, hrun, hlock, hsession⟩ := h
  refine ⟨es₁, r, es₂ ++ [e], c₁, List.append_assoc .., hrun, hlock, ?_⟩
  rw [List.map_append, Trace.run_append, hsession]
  simp [Trace.run, hs]

theorem accepted_sublist {s s' : Session} :
    ∀ {es : List Event}, Trace.run Session.step s (es.map Event.ofSession) = some s' →
    s'.accepted.Sublist (s.accepted ++ requested es)
  | [], h => by
    cases h
    exact List.sublist_append_left _ _
  | e :: es, h => by
    rw [List.map_cons] at h
    unfold Trace.run at h
    cases hs : s.step e.ofSession with
    | none =>
      rw [hs] at h
      cases h
    | some s₁ =>
      rw [hs] at h
      have hrest := accepted_sublist h
      have hcons : requested (e :: es) = e.request?.toList ++ requested es := by
        unfold requested
        rw [List.filterMap_cons]
        cases e.request? <;> rfl
      rw [hcons, ← List.append_assoc]
      refine hrest.trans (List.Sublist.append ?_ (List.Sublist.refl _))
      rcases accepted_step hs with hsame | ⟨r, he, happend⟩
      · rw [hsame]
        exact List.sublist_append_left _ _
      · have hrequest : e.request? = some r := by
          cases e with
          | subscribe r' =>
            cases he
            rfl
          | session e =>
            cases he
            rfl
        rw [happend, hrequest]
        exact List.Sublist.refl _

theorem run_since {es : List Event} : ∀ {c : WSClient} {s : Session}, Trace.run step {} es = some c →
    c.session = some s → Since es s := by
  induction es using List.reverseRecOn with
  | nil =>
    intro c s h hs
    cases h
    cases hs
  | append_singleton es e ih =>
    intro c s h hs
    rw [Trace.run_append] at h
    obtain ⟨c₀, hrun, h⟩ := Option.bind_eq_some_iff.mp h
    have hstep := Trace.run_singleton step h
    cases e with
    | subscribe r =>
      rcases step_subscribe hstep with ⟨t, t', hsession, ht, hc⟩ | ⟨hlock, hnew⟩
      · rw [hc] at hs
        cases hs
        exact (ih hrun hsession).snoc _ ht
      · rw [hnew] at hs
        cases hs
        exact ⟨es, r, [], c₀, rfl, hrun, hlock, rfl⟩
    | session e =>
      obtain ⟨t, t', hsession, ht, rfl⟩ := step_session hstep
      cases hs
      exact (ih hrun hsession).snoc _ ht

/-- A session writes only what was subscribed since the one before it ended, the
subscription that made it first: nothing is asked for again on its own. -/
theorem written_since {es : List Event} {c : WSClient} {s : Session} (h : Trace.run step {} es = some c)
    (hs : c.session = some s) :
    ∃ es₁ r es₂ c₁, es = es₁ ++ .subscribe r :: es₂ ∧ Trace.run step {} es₁ = some c₁ ∧ c₁.lock = none ∧
      Trace.run Session.step (.start r) (es₂.map Event.ofSession) = some s ∧
      s.accepted.Sublist (r :: requested es₂) ∧ ∀ payload ∈ s.written, ∃ r' ∈ r :: requested es₂, payload = some r' := by
  obtain ⟨es₁, r, es₂, c₁, heq, hrun, hlock, hsession⟩ := run_since h hs
  have hsub : s.accepted.Sublist (r :: requested es₂) := accepted_sublist hsession
  refine ⟨es₁, r, es₂, c₁, heq, hrun, hlock, hsession, hsub, ?_⟩
  have hqueued : s.Queued := (Trace.always_of_step Session.step Session.queued_step (Session.queued_start r)).last _ hsession
  intro payload hpayload
  have hmem : payload ∈ s.accepted.map some := by
    rw [← hqueued.sequence]
    exact List.mem_append_left _ hpayload
  obtain ⟨r', hr', rfl⟩ := List.mem_map.mp hmem
  exact ⟨r', hsub.subset hr', rfl⟩

/-- The first session does not get a connection. -/
def reconnected : List Event :=
  [.subscribe Session.btcRequest, .session (.resolved false), .subscribe Session.ethRequest,
    .session (.resolved true), .session (.connected true), .session (.sslHandshaken true), .session (.handshaken true)]

theorem written_since_reconnected :
    ∃ c s, Trace.run step {} reconnected = some c ∧ c.session = some s ∧
      ∃ es₁ r es₂ c₁, reconnected = es₁ ++ .subscribe r :: es₂ ∧ Trace.run step {} es₁ = some c₁ ∧ c₁.lock = none ∧
        Trace.run Session.step (.start r) (es₂.map Event.ofSession) = some s ∧
        s.accepted.Sublist (r :: requested es₂) ∧ ∀ payload ∈ s.written, ∃ r' ∈ r :: requested es₂, payload = some r' := by
  obtain ⟨c, hrun⟩ : ∃ c, Trace.run step {} reconnected = some c := ⟨_, rfl⟩
  obtain ⟨s, hs⟩ : ∃ s, c.session = some s := by
    cases hrun
    exact ⟨_, rfl⟩
  exact ⟨c, s, hrun, hs, written_since hrun hs⟩

end WSClient

end Futures

end MexcApi
