import MexcApi.Trace
import MexcApi.WsClient

/-!
# When a subscription request is skipped

`writeSubscription` compares the method and the top-level symbol of a request
with those of every confirmed one, `isSubscribed` compares the whole request.
Requests of the stream manager have no top-level symbol, so that there every
two requests with the same method look the same to `writeSubscription`.
-/

namespace MexcApi

open Nlohmann

namespace Futures

def member (json : Json) (key : String) : Json := (json.find? key).getD .null

/-- The test of `writeSubscription`. -/
def SameStream (sub subscriptionRequest : Json) : Prop :=
  (member sub "method").eq (member subscriptionRequest "method") = true ∧
    (member sub "symbol").eq (member subscriptionRequest "symbol") = true

theorem orNull_member {json : Json} (h : json.isObject = true) (key : String) :
    (json.access key).orNull = .ok (member json key) := by
  cases json with
  | obj kvs => exact Json.orNull_obj kvs key
  | _ => cases h

theorem orNull_error {json : Json} (h : json.isObject = false) (key : String) :
    (json.access key).orNull = .error (.jsonException 305) := by
  cases json with
  | obj kvs => cases h
  | _ => rfl

theorem sameStream_of_eq {sub : Json} {kvs : List (String × Json)} (h : sub.eq (.obj kvs) = true) :
    sub.isObject = true ∧ SameStream sub (.obj kvs) := by
  obtain ⟨kvs', rfl, heq⟩ := Json.eq_obj h
  exact ⟨rfl, Json.eqObj_lookup "method" heq, Json.eqObj_lookup "symbol" heq⟩

/-- To `writeSubscription` the requests of the stream manager are their methods. -/
theorem sameStream_toJson (sub request : WSSubscription) :
    SameStream sub.toJson request.toJson ↔ sub.method = request.method := by
  have hm : ∀ r : WSSubscription, member r.toJson "method" = .str r.method := fun _ => rfl
  have hy : ∀ r : WSSubscription, member r.toJson "symbol" = .null := fun _ => rfl
  simp [SameStream, hm, hy, Json.eq]

namespace Session

theorem alreadySubscribed_false_iff {r : Json} (hr : r.isObject = true) {subs : List Json} :
    alreadySubscribed r subs = .ok false ↔ ∀ sub ∈ subs, sub.isObject = true ∧ ¬ SameStream sub r := by
  induction subs with
  | nil => simp [alreadySubscribed]
  | cons sub subs ih =>
    rw [List.forall_mem_cons, ← ih]
    by_cases hs : sub.isObject = true
    · simp only [alreadySubscribed, orNull_member hs, orNull_member hr, bind, Except.bind, pure, Except.pure]
      by_cases hm : (member sub "method").eq (member r "method") = true
      · by_cases hy : (member sub "symbol").eq (member r "symbol") = true
        · simp [SameStream, hm, hy]
        · simp [SameStream, hm, hy, hs]
      · simp [SameStream, hm, hs]
    · have hf : sub.isObject = false := by simpa using hs
      simp [alreadySubscribed, orNull_error hf, hs, bind, Except.bind]

theorem alreadySubscribed_ok {r : Json} (hr : r.isObject = true) {subs : List Json}
    (h : ∀ sub ∈ subs, sub.isObject = true) : ∃ b, alreadySubscribed r subs = .ok b := by
  induction subs with
  | nil => exact ⟨false, rfl⟩
  | cons sub subs ih =>
    have hs := h sub List.mem_cons_self
    simp only [alreadySubscribed, orNull_member hs, orNull_member hr, bind, Except.bind, pure, Except.pure]
    by_cases hm : (member sub "method").eq (member r "method") = true
    · by_cases hy : (member sub "symbol").eq (member r "symbol") = true
      · exact ⟨true, by simp [hm, hy]⟩
      · obtain ⟨b, hb⟩ := ih (fun sub' h' => h sub' (List.mem_cons_of_mem _ h'))
        exact ⟨b, by simp [hm, hy, hb]⟩
    · obtain ⟨b, hb⟩ := ih (fun sub' h' => h sub' (List.mem_cons_of_mem _ h'))
      exact ⟨b, by simp [hm, hb]⟩

theorem alreadySubscribed_true_iff {r : Json} (hr : r.isObject = true) {subs : List Json}
    (h : ∀ sub ∈ subs, sub.isObject = true) :
    alreadySubscribed r subs = .ok true ↔ ∃ sub ∈ subs, SameStream sub r := by
  have hfalse : alreadySubscribed r subs = .ok false ↔ ∀ sub ∈ subs, ¬ SameStream sub r := by
    rw [alreadySubscribed_false_iff hr]
    exact ⟨fun hall sub hmem => (hall sub hmem).2, fun hall sub hmem => ⟨h sub hmem, hall sub hmem⟩⟩
  obtain ⟨b, hb⟩ := alreadySubscribed_ok hr h
  cases b with
  | false =>
    constructor
    · intro ht
      rw [hb] at ht
      cases ht
    · rintro ⟨sub, hmem, hsame⟩
      exact absurd hsame (hfalse.mp hb sub hmem)
  | true =>
    refine ⟨fun _ => ?_, fun _ => hb⟩
    by_contra hn
    have hf := hfalse.mpr fun sub hmem hsame => hn ⟨sub, hmem, hsame⟩
    rw [hb] at hf
    cases hf

theorem unchanged_iff (s : Session) (r : Json) :
    (s.next (.subscribe r)).subscriptionRequests = s.subscriptionRequests ↔
      alreadySubscribed r s.subscriptions ≠ .ok false := by
  simp only [next, writeSubscription]
  cases h : alreadySubscribed r s.subscriptions with
  | error e => simp [bind, Except.bind]
  | ok b => cases b <;> simp [bind, Except.bind, pure, Except.pure]

theorem isSubscribed_iff (s : Session) (r : Json) :
    s.isSubscribed r = true ↔ ∃ sub ∈ s.subscriptions, sub.eq r = true := by
  simp [isSubscribed]

theorem skipped_iff_isSubscribed (s : Session) (kvs : List (String × Json)) :
    ((s.next (.subscribe (.obj kvs))).subscriptionRequests = s.subscriptionRequests ↔
      s.isSubscribed (.obj kvs) = true) ↔
    (∃ sub ∈ s.subscriptions, sub.eq (.obj kvs) = true) ∨
      ∀ sub ∈ s.subscriptions, sub.isObject = true ∧ ¬ SameStream sub (.obj kvs) := by
  rw [unchanged_iff, isSubscribed_iff, ← alreadySubscribed_false_iff rfl]
  by_cases hsub : ∃ sub ∈ s.subscriptions, sub.eq (.obj kvs) = true
  · have hne : alreadySubscribed (.obj kvs) s.subscriptions ≠ .ok false := by
      rw [Ne, alreadySubscribed_false_iff rfl]
      intro hall
      obtain ⟨sub, hmem, heq⟩ := hsub
      exact (hall sub hmem).2 (sameStream_of_eq heq).2
    exact ⟨fun _ => Or.inl hsub, fun _ => ⟨fun _ => hsub, fun _ => hne⟩⟩
  · constructor
    · intro h
      right
      exact Classical.byContradiction fun hn => hsub (h.mp hn)
    · rintro (h | h)
      · exact absurd h hsub
      · exact ⟨fun hne => absurd h hne, fun h' => absurd h' hsub⟩

def firstMessage (json : Json) : List Event :=
  [.resolved true, .connected true, .sslHandshaken true, .handshaken true, .written true, .read (.text (some json)),
    .readNext, .readAgain]

/-- A ticker is confirmed, the ticker of another pair is dropped. -/
theorem other_ticker_dropped :
    let eth := (WSStreamManager.tickerSubscription "ETH_USDT").toJson
    let btc := (WSStreamManager.tickerSubscription "BTC_USDT").toJson
    ∃ s, Trace.run step (start eth) (firstMessage (controlMsg "rs.sub.ticker" "success")) = some s ∧
      s.subscriptions = [eth] ∧ s.isSubscribed btc = false ∧
      (s.next (.subscribe btc)).subscriptionRequests = s.subscriptionRequests ∧
      ¬ ((s.next (.subscribe btc)).subscriptionRequests = s.subscriptionRequests ↔ s.isSubscribed btc = true) :=
  ⟨_, rfl, rfl, rfl, rfl, fun h => Bool.false_ne_true (h.mp rfl)⟩

end Session

/-! ## Requests of the stream manager -/

namespace WSStreamManager

theorem subscribe_dropped_iff {c : WSClient} {s : Session} (hl : c.lock = some s) (r : Json) :
    c.subscribe r = .ok c ↔ Session.alreadySubscribed r s.subscriptions = .ok true := by
  have hc : c = { session := some s } := congrArg WSClient.mk (Option.filter_eq_some_iff.mp hl).1
  simp only [WSClient.subscribe, hl, Session.writeSubscription]
  cases h : Session.alreadySubscribed r s.subscriptions with
  | error e => simp [bind, Except.bind]
  | ok b =>
    cases b with
    | true => simp [bind, Except.bind, pure, Except.pure, ← hc]
    | false =>
      simp only [bind, Except.bind, pure, Except.pure, Bool.false_eq_true, ite_false, Except.ok.injEq, iff_false]
      intro heq
      rw [hc] at heq
      have hs := Option.some.inj (congrArg WSClient.session heq)
      have hlength := congrArg (fun s : Session => s.subscriptionRequests.length) hs
      simp at hlength

theorem dropped_iff {c : WSClient} {s : Session} (hl : c.lock = some s) {requests : List WSSubscription}
    (hsubs : s.subscriptions = requests.map WSSubscription.toJson) (request : WSSubscription) :
    (if !c.isSubscribed request.toJson then c.subscribe request.toJson else .ok c) = .ok c ↔
      ∃ other ∈ requests, other.method = request.method := by
  have hobj : ∀ sub ∈ s.subscriptions, sub.isObject = true := by
    intro sub hsub
    rw [hsubs, List.mem_map] at hsub
    obtain ⟨other, -, rfl⟩ := hsub
    rfl
  have hsame : (∃ other ∈ requests, other.method = request.method) ↔
      ∃ sub ∈ s.subscriptions, SameStream sub request.toJson := by
    simp only [hsubs, List.mem_map, exists_exists_and_eq_and, sameStream_toJson]
  have hlocked : c.isSubscribed request.toJson = s.isSubscribed request.toJson := by
    simp only [WSClient.isSubscribed, hl]
  rw [hsame, hlocked]
  by_cases hsub : s.isSubscribed request.toJson = true
  · -- a confirmed copy of the request has its method, too
    obtain ⟨sub, hmem, heq⟩ := (s.isSubscribed_iff _).mp hsub
    simp only [hsub, Bool.not_true, Bool.false_eq_true, if_false, true_iff]
    exact ⟨sub, hmem, (sameStream_of_eq heq).2⟩
  · simp only [hsub, Bool.not_false, if_true]
    rw [subscribe_dropped_iff hl, Session.alreadySubscribed_true_iff rfl hobj]

theorem subscribeTickerStream_dropped_iff {c : WSClient} {s : Session} (hl : c.lock = some s)
    {requests : List WSSubscription} (hsubs : s.subscriptions = requests.map WSSubscription.toJson) (pair : String) :
    subscribeTickerStream c pair = .ok c ↔ ∃ other ∈ requests, other.method = "sub.ticker" :=
  dropped_iff hl hsubs (tickerSubscription pair)

theorem subscribeCandlestickStream_dropped_iff {c : WSClient} {s : Session} (hl : c.lock = some s)
    {requests : List WSSubscription} (hsubs : s.subscriptions = requests.map WSSubscription.toJson)
    (pair : String) (interval : CandleInterval) :
    subscribeCandlestickStream c pair interval = .ok c ↔ ∃ other ∈ requests, other.method = "sub.kline" :=
  dropped_iff hl hsubs (candlestickSubscription pair interval)

end WSStreamManager

end Futures

end MexcApi
