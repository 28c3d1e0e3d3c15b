import MexcApi.WsShapeSound
import MexcApi.WsStrandSound
import MexcApi.WsStreamManagerSound
import MexcApi.WsStreams

/-!
# What a run of the stream manager leaves

Whatever the callers, the timers and the connections do in between, the caches
hold what the data messages carried, over all the sessions there have been.
What can be asked for is another matter: after the first stream of a kind that
the exchange confirms, the session cannot be asked for another one of that kind.
-/

namespace MexcApi

open Nlohmann KeyedFold

namespace Futures

namespace WSStreamManager

/-! ## From the socket to the caches -/

namespace P

section
variable (U : EventUtils)

/-- The event the callback gets in a step. -/
def Event.delivered : Event → Option Futures.Event
  | .session e => (e.dataEvent U.toJsonUtils).bind Except.toOption
  | _ => none

def messages (es : List Event) : List Futures.Event := es.filterMap (Event.delivered U)

variable {U}

theorem deliver_some {m m' : P} {decoded : Option (Except Fault Futures.Event)} (h : m.deliver U decoded = some m') :
    m' = { m with caches := (decoded.bind Except.toOption).toList.foldl (onDataEvent U) m.caches } := by
  cases decoded with
  | none =>
    cases h
    rfl
  | some r =>
    cases r with
    | ok event =>
      cases h
      rfl
    | error e =>
      cases e with
      | undefined => cases h
      | jsonException id =>
        cases h
        rfl
      | runtimeError what =>
        cases h
        rfl

/-- A step is a subscription, which may throw, or a handler of the session. -/
theorem step_cases {m m' : P} {e : Event} (h : m.step U e = some m') :
    (e.delivered U = none ∧ (m' = m ∨ ∃ (request : WSSubscription) (c : WSClient),
      (if !m.wsClient.isSubscribed request.toJson then m.wsClient.subscribe request.toJson else .ok m.wsClient) = .ok c ∧
        m' = { m with wsClient := c })) ∨
    ∃ handled c, e = .session handled ∧ handled.isHandler = true ∧ m.wsClient.step (.session handled) = some c ∧
      m' = { wsClient := c, caches := (e.delivered U).toList.foldl (onDataEvent U) m.caches } := by
  cases e with
  | subscribeTickerStream pair =>
    refine Or.inl ⟨rfl, ?_⟩
    simp only [step] at h
    split at h
    · rename_i c hc
      cases h
      exact Or.inr ⟨tickerSubscription pair, c, hc, rfl⟩
    · cases h
      exact Or.inl rfl
  | subscribeCandlestickStream pair interval =>
    refine Or.inl ⟨rfl, ?_⟩
    simp only [step] at h
    split at h
    · rename_i c hc
      cases h
      exact Or.inr ⟨candlestickSubscription pair interval, c, hc, rfl⟩
    · cases h
      exact Or.inl rfl
  | session e =>
    refine Or.inr ?_
    simp only [step] at h
    split at h
    · rename_i hhandler
      split at h
      · rename_i c hc
        exact ⟨e, c, rfl, hhandler, hc, deliver_some h⟩
      · cases h
    · cases h

theorem step_caches {m m' : P} {e : Event} (h : m.step U e = some m') :
    m'.caches = (e.delivered U).toList.foldl (onDataEvent U) m.caches := by
  rcases step_cases h with ⟨hnone, rfl | ⟨request, c, -, rfl⟩⟩ | ⟨handled, c, -, -, -, rfl⟩
  · rw [hnone]
    rfl
  · rw [hnone]
    rfl
  · rfl

theorem run_caches : ∀ {es : List Event} {m m' : P}, Trace.run (step U) m es = some m' →
    m'.caches = (messages U es).foldl (onDataEvent U) m.caches
  | [], m, m', h => by
    cases h
    rfl
  | e :: es, m, m', h => by
    unfold Trace.run at h
    cases hs : m.step U e with
    | none =>
      rw [hs] at h
      cases h
    | some m₁ =>
      rw [hs] at h
      have hmessages : messages U (e :: es) = (e.delivered U).toList ++ messages U es := by
        unfold messages
        rw [List.filterMap_cons]
        cases e.delivered U <;> rfl
      rw [run_caches h, step_caches hs, hmessages, List.foldl_append]

end

end P

/-! ## Reading -/

theorem poll_first {α : Type} {timeout : Nat → Int} {find : Nat → Option α} {left numTries : Nat} {entry : α}
    (hwait : timeout (numTries + 1) ≠ 0) (hleft : 0 < left) (h : find numTries = some entry) :
    poll timeout find left numTries = (some entry, numTries) := by
  cases left with
  | zero => omega
  | succ left =>
    unfold poll
    rw [if_neg hwait, h]

theorem tries_pos {timeout : Nat → Int} (hwait : ∀ n, 0 < timeout n) : 0 < (maxNumTries timeout + 1).toNat := by
  have := hwait 0
  unfold maxNumTries
  omega

theorem tickerOf_some {es : List Event} (h : es ≠ []) : tickerOf es = some (EventTicker.last (es.map Event.data)) := by
  cases es with
  | nil => exact absurd rfl h
  | cons e es => rfl

namespace P

/-- After a run a read returns what the messages of its own key carried, and
returns it at once; `caches` may change while it is read. -/
theorem read_run {U : EventUtils} (hU : U.toJsonUtils.Exact) {es : List Event} {m : P}
    (hrun : Trace.run (step U) {} es = some m) (hes : ∀ event ∈ messages U es, Decodes U event) {timeout : Nat → Int}
    (hwait : ∀ n, 0 < timeout n) {caches : Nat → Caches} (hnow : caches 0 = m.caches) :
    (∀ pair, (events tickerKey pair (messages U es) = [] → m.caches.tickers pair = none) ∧
      (events tickerKey pair (messages U es) ≠ [] → readEventTicker timeout caches pair =
        (some (EventTicker.last ((events tickerKey pair (messages U es)).map Futures.Event.data)), 0))) ∧
    ∀ pair interval, (events (candlestickKey U) (pair, interval) (messages U es) = [] →
        m.caches.candlestick pair interval = none) ∧
      ∀ event, (events (candlestickKey U) (pair, interval) (messages U es)).getLast? = some event →
        ∃ candlestick, EventCandlestick.fromJson U event.data = .ok candlestick ∧
          readEventCandlestick timeout caches pair interval = (some candlestick, 0) := by
  have hcaches := run_caches hrun
  constructor
  · intro pair
    have hfold := tickers_fold hU hes pair
    rw [← hcaches] at hfold
    constructor
    · intro hnil
      rw [hfold, hnil]
      rfl
    · intro hne
      rw [tickerOf_some hne] at hfold
      apply poll_first (Int.ne_of_gt (hwait 1)) (tries_pos hwait)
      rw [hnow, hfold]
  · intro pair interval
    have hfold := candlesticks_fold hes pair interval
    rw [← hcaches] at hfold
    constructor
    · intro hnil
      rw [hfold, hnil]
      rfl
    · intro event hlast
      -- a candlestick has its key because it decodes
      have hmem := List.mem_of_getLast? hlast
      have hkey : candlestickKey U event = some (pair, interval) := by
        simpa using (List.mem_filter.mp hmem).2
      rw [hlast] at hfold
      unfold candlestickKey at hkey
      cases hc : EventCandlestick.fromJson U event.data with
      | error e => simp [hc] at hkey
      | ok candlestick =>
        rw [Option.bind_some, hc] at hfold
        refine ⟨candlestick, rfl, ?_⟩
        apply poll_first (Int.ne_of_gt (hwait 1)) (tries_pos hwait)
        rw [hnow, hfold]
        rfl

def ticker : Futures.Event := tickerEvent "ETH_USDT" [("bid1", .num (.int 10))]

def ticker.message : Json :=
  .obj [("channel", .str ticker.channel), ("data", ticker.data), ("symbol", .str ticker.symbol)]

/-- A ticker is asked for and confirmed. -/
def confirmedTicker : List Event :=
  .subscribeTickerStream "ETH_USDT" ::
    (Session.firstMessage (Session.controlMsg "rs.sub.ticker" "success")).map .session

def oneTicker : List Event :=
  confirmedTicker ++ [Session.Event.read (.text (some ticker.message)), .readNext, .readAgain].map .session

theorem read_run_oneTicker :
    ∃ m, Trace.run (step .plain) {} oneTicker = some m ∧
      (∀ pair, (events tickerKey pair (messages .plain oneTicker) = [] → m.caches.tickers pair = none) ∧
        (events tickerKey pair (messages .plain oneTicker) ≠ [] →
          readEventTicker (fun _ => 5) (fun _ => m.caches) pair =
            (some (EventTicker.last ((events tickerKey pair (messages .plain oneTicker)).map Futures.Event.data)), 0))) ∧
      ∀ pair interval, (events (candlestickKey .plain) (pair, interval) (messages .plain oneTicker) = [] →
          m.caches.candlestick pair interval = none) ∧
        ∀ event, (events (candlestickKey .plain) (pair, interval) (messages .plain oneTicker)).getLast? = some event →
          ∃ candlestick, EventCandlestick.fromJson .plain event.data = .ok candlestick ∧
            readEventCandlestick (fun _ => 5) (fun _ => m.caches) pair interval = (some candlestick, 0) := by
  have hmessages : messages .plain oneTicker = [ticker] := rfl
  have hdecodes : ∀ event ∈ messages .plain oneTicker, Decodes .plain event := by
    intro event hevent
    rw [hmessages, List.mem_singleton] at hevent
    subst hevent
    exact ⟨fun _ => ⟨_, rfl⟩, fun _ => ⟨_, rfl⟩, rfl⟩
  obtain ⟨m, hrun⟩ : ∃ m, Trace.run (step .plain) {} oneTicker = some m := ⟨_, rfl⟩
  exact ⟨m, hrun, read_run JsonUtils.plain_exact hrun hdecodes (fun _ => by decide) rfl⟩

end P

end WSStreamManager

/-! ## What can be asked for -/

/-- The exchange refuses a request. -/
def Session.Event.Refuses : Session.Event → Prop
  | .read (.text (some json)) => ∃ data text, Session.isApiControlMsg json = .ok true ∧
    json.find? "data" = some data ∧ data.getString = .ok text ∧ text ≠ "success"
  | _ => False

namespace Session

theorem handleMessage_keeps {s s' : Session} {json : Option Json} (h : s.handleMessage json = .ok s')
    (he : ¬ (Event.read (.text json)).Refuses) {sub : Json} (hsub : sub ∈ s.subscriptions) : sub ∈ s'.subscriptions := by
  cases json with
  | none => cases h
  | some json =>
    simp only [handleMessage] at h
    split at h
    · obtain ⟨isControl, hcontrol, h⟩ := bind_ok h
      cases isControl with
      | false =>
        cases h
        exact hsub
      | true =>
        simp only [if_true, handleApiControlMsg] at h
        split at h
        · rename_i data hdata
          obtain ⟨text, htext, h⟩ := bind_ok h
          by_cases hsuccess : text = "success"
          · rw [if_neg (by simpa using hsuccess)] at h
            cases h
            exact List.mem_append_left _ hsub
          · exact absurd ⟨data, text, hcontrol, hdata, htext, hsuccess⟩ he
        · cases h
          exact hsub
    · cases h
      exact hsub

/-- A handler leaves what was confirmed, unless the exchange refuses something. -/
theorem handler_keeps {s s' : Session} {e : Event} (hs : s.step e = some s') (hhandler : e.isHandler = true)
    (he : ¬ e.Refuses) {sub : Json} (hsub : sub ∈ s.subscriptions) : sub ∈ s'.subscriptions := by
  obtain ⟨-, -, rfl⟩ := step_some hs
  by_cases hquiet : quiet e = true
  · have hsame : (s.next e).subscriptions = s.subscriptions := congrArg Lists.subscriptions (quiet_lists s hquiet)
    rw [hsame]
    exact hsub
  · cases e with
    | subscribe r => cases hhandler
    | handshaken ok =>
      cases ok with
      | false => exact hsub
      | true =>
        obtain ⟨queue, r, heq⟩ :=
          readSubscription_fields { s with handshake := s.handshake - 1, waiting := s.waiting + 1 }
        simp only [next, onHandshake, if_true, asyncWrite, heq]
        exact hsub
    | readNext =>
      obtain ⟨queue, r, heq⟩ := s.readSubscription_fields
      simp only [next, onReadNext]
      split <;> rename_i hq <;> (rw [hq] at heq; cases heq; exact hsub)
    | read result =>
      cases result with
      | error => exact hsub
      | text json =>
        simp only [next, onRead]
        cases hm : { s with read := s.read - 1 }.handleMessage json with
        | error e => exact hsub
        | ok s₁ =>
          have hkept := handleMessage_keeps hm he hsub
          exact hkept
    | _ => exact absurd rfl hquiet

theorem writeSubscription_subscriptions {s s' : Session} {r : Json} (h : s.writeSubscription r = .ok s') :
    s'.subscriptions = s.subscriptions := by
  unfold writeSubscription at h
  obtain ⟨already, -, h⟩ := bind_ok h
  cases already <;> (cases h; rfl)

theorem shaped_writeSubscription {s s' : Session} {request : WSSubscription} (hs : Shaped s.lists)
    (h : s.writeSubscription request.toJson = .ok s') : Shaped s'.lists := by
  have hmove := s.subscribe_move request.toJson
  simp only [next, h] at hmove
  refine shaped_move hmove ?_ hs
  rintro r heq
  cases heq
  exact ⟨request, rfl⟩

/-- Next to a confirmed request of the same kind the comparison does not get to its end. -/
theorem compareAll_kind {r sub : WSSubscription} (hkind : r.method = sub.method) : ∀ {subs : List Json},
    (∀ entry ∈ subs, entry = .null ∨ IsRequest entry) → sub.toJson ∈ subs →
    compareAll r.toJson subs = .error .undefined ∨
      .null ∈ subs ∧ compareAll r.toJson subs = .error (.jsonException 305)
  | [], _, hsub => by cases hsub
  | entry :: subs, hshaped, hsub => by
    rcases hshaped entry List.mem_cons_self with rfl | ⟨request, rfl⟩
    · exact Or.inr ⟨List.mem_cons_self, rfl⟩
    · rw [compareAll_cons]
      by_cases hm : request.method = r.method
      · exact Or.inl (if_pos hm)
      · rw [if_neg hm]
        have hrest : sub.toJson ∈ subs := by
          rcases List.mem_cons.mp hsub with heq | hrest
          · have hmethod : sub.method = request.method := Json.str.inj (congrArg (member · "method") heq)
            exact absurd (hkind.trans hmethod).symm hm
          · exact hrest
        rcases compareAll_kind hkind (fun e he => hshaped e (List.mem_cons_of_mem _ he)) hrest with h | ⟨hnull, h⟩
        · exact Or.inl h
        · exact Or.inr ⟨List.mem_cons_of_mem _ hnull, h⟩

end Session

namespace WSStreamManager

namespace P

/-- What is in the lists of the session comes from the functions of the manager. -/
def Shaped (m : P) : Prop := ∀ s ∈ m.wsClient.session, Session.Shaped s.lists

/-- The session is the same one still, and the request is confirmed in it. -/
def Holds (sub : WSSubscription) (m : P) : Prop := ∃ s, m.wsClient.lock = some s ∧ sub.toJson ∈ s.subscriptions

theorem subscribe_shaped {c c' : WSClient} {request : WSSubscription} (h : ∀ s ∈ c.session, Session.Shaped s.lists)
    (hc : (if !c.isSubscribed request.toJson then c.subscribe request.toJson else .ok c) = .ok c') :
    ∀ s ∈ c'.session, Session.Shaped s.lists := by
  split at hc
  · unfold WSClient.subscribe at hc
    cases hlock : c.lock with
    | none =>
      rw [hlock] at hc
      cases hc
      intro s hs
      cases hs
      exact Session.shaped_start request
    | some t =>
      rw [hlock] at hc
      obtain ⟨t', ht', hc⟩ := bind_ok hc
      cases hc
      intro s hs
      cases hs
      exact Session.shaped_writeSubscription (h t (WSClient.lock_eq_some.mp hlock).1) ht'
  · cases hc
    exact h

theorem shaped_step {U : EventUtils} (m : P) (e : Event) (m' : P) (h : m.Shaped) (hs : m.step U e = some m') :
    m'.Shaped := by
  rcases step_cases hs with ⟨-, rfl | ⟨request, c, hc, rfl⟩⟩ | ⟨handled, c, rfl, hhandler, hc, rfl⟩
  · exact h
  · exact subscribe_shaped h hc
  · obtain ⟨s, s', hsession, hstep, rfl⟩ := WSClient.step_session hc
    intro t ht
    cases ht
    refine Session.shaped_move (Session.step_move hstep) ?_ (h s hsession)
    rintro r rfl
    cases hhandler

theorem subscribe_holds {c c' : WSClient} {s : Session} {sub request : WSSubscription} (hlock : c.lock = some s)
    (hsub : sub.toJson ∈ s.subscriptions)
    (h : (if !c.isSubscribed request.toJson then c.subscribe request.toJson else .ok c) = .ok c') :
    ∃ s', c'.session = some s' ∧ sub.toJson ∈ s'.subscriptions := by
  split at h
  · unfold WSClient.subscribe at h
    rw [hlock] at h
    obtain ⟨s', hs', h⟩ := bind_ok h
    cases h
    exact ⟨s', rfl, Session.writeSubscription_subscriptions hs' ▸ hsub⟩
  · cases h
    exact ⟨s, (WSClient.lock_eq_some.mp hlock).1, hsub⟩

theorem Holds.of_session {sub : WSSubscription} {m : P} {s : Session} (hs : m.wsClient.session = some s)
    (hlock : m.wsClient.lock ≠ none) (hsub : sub.toJson ∈ s.subscriptions) : m.Holds sub := by
  obtain ⟨s', hs'⟩ := Option.ne_none_iff_exists'.mp hlock
  have hsame := (WSClient.lock_eq_some.mp hs').1
  rw [hs] at hsame
  cases hsame
  exact ⟨s, hs', hsub⟩

def Event.Refuses : Event → Prop
  | .session e => e.Refuses
  | _ => False

theorem holds_step {U : EventUtils} {sub : WSSubscription} (m : P) (e : Event) (m' : P) (h : m.Shaped ∧ m.Holds sub)
    (hok : (∀ m', m.step U e = some m' → m'.wsClient.lock ≠ none) ∧ ¬ e.Refuses) (hs : m.step U e = some m') :
    m'.Shaped ∧ m'.Holds sub := by
  refine ⟨shaped_step m e m' h.1 hs, ?_⟩
  obtain ⟨-, hholds⟩ := h
  obtain ⟨s, hlock, hsub⟩ := hholds
  have halive := hok.1 m' hs
  rcases step_cases hs with ⟨-, rfl | ⟨request, c, hc, rfl⟩⟩ | ⟨handled, c, rfl, hhandler, hc, rfl⟩
  · exact ⟨s, hlock, hsub⟩
  · obtain ⟨s', hs', hsub'⟩ := subscribe_holds hlock hsub hc
    exact .of_session hs' halive hsub'
  · simp only [WSClient.step, (WSClient.lock_eq_some.mp hlock).1, Option.map_eq_some_iff] at hc
    obtain ⟨s', hs', rfl⟩ := hc
    exact .of_session rfl halive (Session.handler_keeps hs' hhandler hok.2 hsub)

/-- While the session lives and nothing is refused, the comparison of another
stream of a confirmed kind applies the const `operator[]` to a missing key, or
throws at an entry that an acknowledgement too many has left. -/
theorem further_unchecked {U : EventUtils} {es₀ es : List Event} {m : P} {s : Session} {sub : WSSubscription}
    (hrun : Trace.run (step U) {} es₀ = some m) (hlock : m.wsClient.lock = some s) (hsub : sub.toJson ∈ s.subscriptions)
    (halive : Trace.Always (step U) (fun m => m.wsClient.lock ≠ none) m es) (hes : ∀ e ∈ es, ¬ e.Refuses) :
    Trace.Always (step U) (fun m' => ∃ s', m'.wsClient.lock = some s' ∧
      ∀ request : WSSubscription, request.method = sub.method →
        Session.compareAll request.toJson s'.subscriptions = .error .undefined ∨
          .null ∈ s'.subscriptions ∧ Session.compareAll request.toJson s'.subscriptions =
            .error (.jsonException 305)) m es := by
  have hshaped : m.Shaped := (Trace.always_of_step (step U) shaped_step fun s hs => by cases hs).last _ hrun
  have haccepting : Trace.Guarded (step U) (fun _ e => ¬ e.Refuses) m es := Trace.guarded_of_forall _ fun _ => hes
  have hguarded := (Trace.always_and_guarded_iff (step U) (halive.head _)).mp ⟨halive, haccepting⟩
  refine (Trace.always_of_guarded _ holds_step ⟨hshaped, s, hlock, hsub⟩ hguarded).mono _ fun m' hm' => ?_
  obtain ⟨hshaped', s', hlock', hsub'⟩ := hm'
  exact ⟨s', hlock', fun request hkind =>
    Session.compareAll_kind hkind (hshaped' s' (WSClient.lock_eq_some.mp hlock').1).subscriptions hsub'⟩

/-- A candlestick stream is subscribed, and the exchange goes on sending. -/
def candlestickToo : List Event :=
  .subscribeCandlestickStream "BTC_USDT" ._1m ::
    [Session.Event.read (.text (some ticker.message)), .readNext, .written true].map .session

theorem further_unchecked_candlestickToo :
    ∃ m s, Trace.run (step .plain) {} confirmedTicker = some m ∧ m.wsClient.lock = some s ∧
      Trace.Always (step .plain) (fun m' => ∃ s', m'.wsClient.lock = some s' ∧
        ∀ request : WSSubscription, request.method = (tickerSubscription "ETH_USDT").method →
          Session.compareAll request.toJson s'.subscriptions = .error .undefined ∨
            .null ∈ s'.subscriptions ∧ Session.compareAll request.toJson s'.subscriptions = .error (.jsonException 305))
        m candlestickToo := by
  obtain ⟨m, hrun⟩ : ∃ m, Trace.run (step .plain) {} confirmedTicker = some m := ⟨_, rfl⟩
  obtain ⟨s, hlock⟩ : ∃ s, m.wsClient.lock = some s := by
    cases hrun
    exact ⟨_, rfl⟩
  have halive : Trace.Always (step .plain) (fun m => m.wsClient.lock ≠ none) m candlestickToo := by
    cases hrun
    refine ⟨Option.some_ne_none _, fun m₁ h₁ => ?_⟩
    cases h₁
    refine ⟨Option.some_ne_none _, fun m₂ h₂ => ?_⟩
    cases h₂
    refine ⟨Option.some_ne_none _, fun m₃ h₃ => ?_⟩
    cases h₃
    refine ⟨Option.some_ne_none _, fun m₄ h₄ => ?_⟩
    cases h₄
    exact Option.some_ne_none _
  have haccepting : ∀ e ∈ candlestickToo, ¬ e.Refuses := by
    intro e he
    simp only [candlestickToo, List.map_cons, List.map_nil, List.mem_cons, List.not_mem_nil, or_false] at he
    rcases he with rfl | rfl | rfl | rfl
    · exact id
    · rintro ⟨data, text, hcontrol, -⟩
      cases hcontrol
    · exact id
    · exact id
  have hsub : (tickerSubscription "ETH_USDT").toJson ∈ s.subscriptions := by
    cases hrun
    cases hlock
    exact List.mem_singleton.mpr rfl
  exact ⟨m, s, hrun, hlock, further_unchecked hrun hlock hsub halive haccepting⟩

end P

end WSStreamManager

end Futures

end MexcApi
