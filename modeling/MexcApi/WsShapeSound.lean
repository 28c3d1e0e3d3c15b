import MexcApi.WsLists
import MexcApi.WsSkipSound

/-!
# When the comparison of subscriptions is safe

`writeSubscription` reads the method and the symbol of the confirmed requests
through the const `operator[]`. A request made by `WSSubscription::toJson` has
no symbol at the top, and an acknowledgement that nothing waits for leaves a
null among the subscriptions.
-/

namespace MexcApi

open Nlohmann

namespace Futures

namespace Session

/-- The loop of `writeSubscription` with its accesses as the language defines them. -/
def compareAll (subscriptionRequest : Json) : List Json → Except Fault Bool
  | [] => .ok false
  | sub :: subscriptions => do
    let subMethod ← (sub.access "method").get
    let method ← (subscriptionRequest.access "method").get
    if subMethod.eq method then
      let subSymbol ← (sub.access "symbol").get
      let symbol ← (subscriptionRequest.access "symbol").get
      if subSymbol.eq symbol then return true
      else compareAll subscriptionRequest subscriptions
    else compareAll subscriptionRequest subscriptions

theorem orNull_of_get {a : Json.Access} {j : Json} (h : a.get = .ok j) : a.orNull = .ok j := by
  cases a with
  | value => exact h
  | _ => cases h

/-- Where it is safe, the comparison does not depend on how a missing key is read. -/
theorem compareAll_ok {r : Json} : ∀ {subs : List Json} {b : Bool}, compareAll r subs = .ok b →
    alreadySubscribed r subs = .ok b
  | [], _, h => h
  | sub :: subs, b, h => by
    unfold compareAll at h
    obtain ⟨subMethod, h1, h⟩ := bind_ok h
    obtain ⟨method, h2, h⟩ := bind_ok h
    simp only [alreadySubscribed, orNull_of_get h1, orNull_of_get h2, bind, Except.bind]
    split at h
    · rename_i hm
      obtain ⟨subSymbol, h3, h⟩ := bind_ok h
      obtain ⟨symbol, h4, h⟩ := bind_ok h
      rw [if_pos hm, orNull_of_get h3, orNull_of_get h4]
      simp only
      split at h
      · rename_i hy
        rw [if_pos hy]; exact h
      · rename_i hy
        rw [if_neg hy]; exact compareAll_ok h
    · rename_i hm
      rw [if_neg hm]; exact compareAll_ok h

def SafeSubscribe (s : Session) : Event → Prop
  | .subscribe r => ∃ b, compareAll r s.subscriptions = .ok b
  | _ => True

/-- No confirmed entry is empty, and none has the method of the new request. -/
def Comparable (s : Session) : Event → Prop
  | .subscribe r => ∀ sub ∈ s.subscriptions,
      sub.isNull = false ∧ (member sub "method").eq (member r "method") = false
  | _ => True

instance (s : Session) : (e : Event) → Decidable (s.Comparable e)
  | .subscribe r => inferInstanceAs (Decidable (∀ sub ∈ s.subscriptions,
      sub.isNull = false ∧ (member sub "method").eq (member r "method") = false))
  | .close | .resolved _ | .connected _ | .sslHandshaken _ | .handshaken _ | .written _ | .read _ | .readNext
  | .readAgain | .closed | .pinged | .timerExpires | .timer _ | .timerCancelled => isTrue trivial

/-! ## What gets into the lists -/

def IsRequest (j : Json) : Prop := ∃ request : WSSubscription, j = request.toJson

structure Shaped (l : Lists) : Prop where
  subscriptions : ∀ sub ∈ l.subscriptions, sub = .null ∨ IsRequest sub
  subscribing : l.subscribing = .null ∨ IsRequest l.subscribing
  subscriptionRequests : ∀ r ∈ l.subscriptionRequests, IsRequest r

theorem shaped_start (request : WSSubscription) : Shaped (start request.toJson).lists where
  subscriptions := nofun
  subscribing := Or.inl rfl
  subscriptionRequests := by
    intro r hr
    exact ⟨request, List.mem_singleton.mp hr⟩

theorem shaped_move {e : Event} {l l' : Lists} (hm : Move e l l') (he : ∀ r, e = .subscribe r → IsRequest r)
    (h : Shaped l) : Shaped l' := by
  obtain ⟨hsubs, hslot, hqueue⟩ := h
  cases hm with
  | keep => exact ⟨hsubs, hslot, hqueue⟩
  | accept r =>
    refine ⟨hsubs, hslot, fun q hq => ?_⟩
    rcases List.mem_append.mp hq with hq | hq
    · exact hqueue q hq
    · rw [List.mem_singleton.mp hq]
      exact he r rfl
  | take r queue _ hq =>
    rw [hq] at hqueue
    exact ⟨hsubs, Or.inr (hqueue r List.mem_cons_self), fun q h => hqueue q (List.mem_cons_of_mem _ h)⟩
  | takeNone => exact ⟨hsubs, hslot, hqueue⟩
  | confirm =>
    refine ⟨fun sub hsub => ?_, Or.inl rfl, hqueue⟩
    rcases List.mem_append.mp hsub with hsub | hsub
    · exact hsubs sub hsub
    · rw [List.mem_singleton.mp hsub]
      exact hslot
  | reject => exact ⟨fun sub hsub => hsubs sub (List.mem_of_mem_eraseP hsub), Or.inl rfl, hqueue⟩

/-! ## The comparison -/

theorem method_toJson (request : WSSubscription) :
    (request.toJson.access "method").get = .ok (.str request.method) ∧
      member request.toJson "method" = .str request.method :=
  ⟨rfl, rfl⟩

theorem compareAll_cons (sub r : WSSubscription) (subs : List Json) :
    compareAll r.toJson (sub.toJson :: subs) =
      if sub.method = r.method then .error .undefined else compareAll r.toJson subs := by
  have hsymbol : (sub.toJson.access "symbol").get = .error .undefined := rfl
  simp only [compareAll, (method_toJson sub).1, (method_toJson r).1, bind, Except.bind, Json.eq, beq_iff_eq, hsymbol]

/-- With the shapes that get into the list, the loop gets to its end or fails. -/
theorem compareAll_iff (r : WSSubscription) : ∀ {subs : List Json}, (∀ sub ∈ subs, sub = .null ∨ IsRequest sub) →
    ((∃ b, compareAll r.toJson subs = .ok b) ↔ ∀ sub ∈ subs,
      sub.isNull = false ∧ (member sub "method").eq (member r.toJson "method") = false)
  | [], _ => ⟨fun _ => nofun, fun _ => ⟨false, rfl⟩⟩
  | sub :: subs, h => by
    have ih := compareAll_iff r fun sub' h' => h sub' (List.mem_cons_of_mem _ h')
    rw [List.forall_mem_cons]
    rcases h sub List.mem_cons_self with rfl | ⟨request, rfl⟩
    · simp [compareAll, Json.access, Json.Access.get, bind, Except.bind, Json.isNull]
    · rw [compareAll_cons, ← ih, (method_toJson request).2, (method_toJson r).2]
      by_cases hm : request.method = r.method
      · simp [hm, Json.eq]
      · simp [hm, Json.eq, WSSubscription.toJson, Json.isNull]

theorem safe_iff (s : Session) (e : Event) (h : Shaped s.lists) (he : ∀ r, e = .subscribe r → IsRequest r) :
    s.SafeSubscribe e ↔ s.Comparable e := by
  cases e with
  | subscribe r =>
    obtain ⟨request, rfl⟩ := he r rfl
    exact compareAll_iff request h.subscriptions
  | _ => exact Iff.rfl

theorem safeSubscribe_iff_comparable (request : WSSubscription) {es : List Event}
    (hes : ∀ r, .subscribe r ∈ es → ∃ request : WSSubscription, r = request.toJson) :
    Trace.Guarded step SafeSubscribe (start request.toJson) es ↔
      Trace.Guarded step Comparable (start request.toJson) es := by
  have hstep : ∀ (s : Session) (e : Event) (s' : Session), Shaped s.lists → (∀ r, e = .subscribe r → IsRequest r) →
      s.step e = some s' → Shaped s'.lists := fun s e s' h he hs => shaped_move (step_move hs) he h
  refine Trace.guarded_iff step hstep safe_iff (shaped_start request) ?_
  rintro e he r rfl
  exact hes r he

theorem safeSubscribe_kline :
    let eth := WSStreamManager.tickerSubscription "ETH_USDT"
    let kline := WSStreamManager.candlestickSubscription "ETH_USDT" ._1m
    Trace.Guarded step SafeSubscribe (start eth.toJson)
        (firstMessage (controlMsg "rs.sub.ticker" "success") ++ [.subscribe kline.toJson]) ↔
      Trace.Guarded step Comparable (start eth.toJson)
        (firstMessage (controlMsg "rs.sub.ticker" "success") ++ [.subscribe kline.toJson]) := by
  refine safeSubscribe_iff_comparable _ fun r hr => ⟨WSStreamManager.candlestickSubscription "ETH_USDT" ._1m, ?_⟩
  simpa [firstMessage] using hr

/-- A second ticker after a confirmed one, and any request after an acknowledgement too many. -/
theorem compare_fails :
    let eth := WSStreamManager.tickerSubscription "ETH_USDT"
    let btc := WSStreamManager.tickerSubscription "BTC_USDT"
    let success := controlMsg "rs.sub.ticker" "success"
    (∃ s, Trace.run step (start eth.toJson) (firstMessage success) = some s ∧
      compareAll btc.toJson s.subscriptions = .error .undefined ∧ ¬ s.SafeSubscribe (.subscribe btc.toJson)) ∧
    ∃ s, Trace.run step (start eth.toJson) (firstMessage success ++ [.read (.text (some success))]) = some s ∧
      compareAll (WSStreamManager.candlestickSubscription "BTC_USDT" ._1m).toJson s.subscriptions =
        .error (.jsonException 305) := by
  refine ⟨⟨_, rfl, rfl, ?_⟩, ⟨_, rfl, rfl⟩⟩
  rintro ⟨b, hb⟩
  cases hb

end Session

end Futures

end MexcApi
