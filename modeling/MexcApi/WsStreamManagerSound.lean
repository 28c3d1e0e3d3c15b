import MexcApi.KeyedFold
import MexcApi.WsStreamManager

/-!
# The caches are the fold of the events

A ticker is decoded into a fresh object or over the old one. When the payload
decodes, both store the same values, and a field whose key is not there keeps
what it had. A candlestick is always a fresh object.
-/

namespace MexcApi

open Nlohmann KeyedFold

namespace Futures

/-! ## One field -/

/-- What `readValue` stores; nothing when the key is absent or its value is null. -/
def carried {α : Type} (get : Json → Except Fault α) (key : String) (json : Json) : Option α :=
  match json.find? key with
  | some v => if v.isNull then none else (get v).toOption
  | none => none

def Field.update {σ : Type} (f : Field σ) (json : Json) (self : σ) : σ :=
  f.assign self ((carried f.get f.key json).getD (f.value self))

theorem readValue_carried {U : JsonUtils} (hU : U.Exact) {α : Type} {get : Json → Except Fault α} {json : Json}
    {key : String} {old value : α} (hnull : ∀ a, get .null ≠ .ok a) (h : U.readValue get json key old = .ok value)
    (old' : α) : U.readValue get json key old' = .ok ((carried get key json).getD old') := by
  cases hf : json.find? key with
  | none =>
    simp only [carried, hf]
    exact hU.absent get old' hf
  | some v =>
    by_cases hv : v = .null
    · subst hv
      simp only [carried, hf]
      rcases hU.null get hf with hskip | hget
      · exact hskip old'
      · rw [hget] at h
        exact absurd h (hnull value)
    · have hn : v.isNull = false := by cases v <;> first | rfl | exact absurd rfl hv
      rw [hU.present get old hf hv] at h
      rw [hU.present get old' hf hv]
      simp only [carried, hf, hn, h]
      rfl

theorem readFields_update {U : JsonUtils} (hU : U.Exact) {σ : Type} {json : Json} : ∀ {fields : List (Field σ)} {self t : σ},
    (∀ f ∈ fields, ∀ a, f.get .null ≠ .ok a) → readFields U json fields self = (.ok (), t) →
    ∀ self', readFields U json fields self' = (.ok (), fields.foldl (fun s f => f.update json s) self')
  | [], _, _, _, _, _ => rfl
  | f :: fields, self, t, hnull, h, self' => by
    unfold readFields at h
    cases hr : U.readValue f.get json f.key (f.value self) with
    | error e =>
      simp only [Field.read, hr, bind, Except.bind] at h
      cases h
    | ok value =>
      simp only [Field.read, hr, bind, Except.bind, pure, Except.pure] at h
      have hread := readValue_carried hU (hnull f List.mem_cons_self) hr (f.value self')
      have ih := readFields_update hU (fun g hg => hnull g (List.mem_cons_of_mem _ hg)) h (f.update json self')
      unfold readFields
      simp only [Field.read, hread, bind, Except.bind, pure, Except.pure]
      exact ih

/-! ## The ticker -/

namespace EventTicker

/-- Each field takes the value the payload carries for it. -/
def update (self : EventTicker) (json : Json) : EventTicker where
  symbol := (carried Json.getString "symbol" json).getD self.symbol
  bid1 := (carried Json.getDouble "bid1" json).getD self.bid1
  ask1 := (carried Json.getDouble "ask1" json).getD self.ask1
  volume24 := (carried Json.getDouble "volume24" json).getD self.volume24
  holdVol := (carried Json.getDouble "holdVol" json).getD self.holdVol
  lower24Price := (carried Json.getDouble "lower24Price" json).getD self.lower24Price
  high24Price := (carried Json.getDouble "high24Price" json).getD self.high24Price
  riseFallRate := (carried Json.getDouble "riseFallRate" json).getD self.riseFallRate
  riseFallValue := (carried Json.getDouble "riseFallValue" json).getD self.riseFallValue
  indexPrice := (carried Json.getDouble "indexPrice" json).getD self.indexPrice
  fairPrice := (carried Json.getDouble "fairPrice" json).getD self.fairPrice
  fundingRate := (carried Json.getDouble "fundingRate" json).getD self.fundingRate
  timestamp := (carried Json.getInt64 "m_timestamp" json).getD self.timestamp

/-- Each field has the value of the last payload that carries one for it. -/
def last (datas : List Json) : EventTicker where
  symbol := lastCarried (carried Json.getString "symbol") "" datas
  bid1 := lastCarried (carried Json.getDouble "bid1") 0 datas
  ask1 := lastCarried (carried Json.getDouble "ask1") 0 datas
  volume24 := lastCarried (carried Json.getDouble "volume24") 0 datas
  holdVol := lastCarried (carried Json.getDouble "holdVol") 0 datas
  lower24Price := lastCarried (carried Json.getDouble "lower24Price") 0 datas
  high24Price := lastCarried (carried Json.getDouble "high24Price") 0 datas
  riseFallRate := lastCarried (carried Json.getDouble "riseFallRate") 0 datas
  riseFallValue := lastCarried (carried Json.getDouble "riseFallValue") 0 datas
  indexPrice := lastCarried (carried Json.getDouble "indexPrice") 0 datas
  fairPrice := lastCarried (carried Json.getDouble "fairPrice") 0 datas
  fundingRate := lastCarried (carried Json.getDouble "fundingRate") 0 datas
  timestamp := lastCarried (carried Json.getInt64 "m_timestamp") 0 datas

theorem updates_last {α : Type} (field : EventTicker → α) (value : Json → Option α)
    (h : ∀ (self : EventTicker) (json : Json), field (self.update json) = (value json).getD (field self))
    (datas : List Json) (self : EventTicker) : field (datas.foldl update self) = lastCarried value (field self) datas := by
  rw [← foldl_lastCarried]
  exact (List.foldl_hom field fun t json => (h t json).symm).symm

theorem foldl_update (datas : List Json) : datas.foldl update {} = last datas := by
  apply EventTicker.ext
  · exact updates_last symbol _ (fun _ _ => rfl) datas {}
  · exact updates_last bid1 _ (fun _ _ => rfl) datas {}
  · exact updates_last ask1 _ (fun _ _ => rfl) datas {}
  · exact updates_last volume24 _ (fun _ _ => rfl) datas {}
  · exact updates_last holdVol _ (fun _ _ => rfl) datas {}
  · exact updates_last lower24Price _ (fun _ _ => rfl) datas {}
  · exact updates_last high24Price _ (fun _ _ => rfl) datas {}
  · exact updates_last riseFallRate _ (fun _ _ => rfl) datas {}
  · exact updates_last riseFallValue _ (fun _ _ => rfl) datas {}
  · exact updates_last indexPrice _ (fun _ _ => rfl) datas {}
  · exact updates_last fairPrice _ (fun _ _ => rfl) datas {}
  · exact updates_last fundingRate _ (fun _ _ => rfl) datas {}
  · exact updates_last timestamp _ (fun _ _ => rfl) datas {}

theorem fields_null : ∀ f ∈ fields, ∀ a, f.get .null ≠ .ok a := by
  simp [fields, Json.getString, Json.getDouble, Json.getInt64]

theorem fromJson_update {U : JsonUtils} (hU : U.Exact) {json : Json} {t : EventTicker}
    (h : fromJson U json {} = (.ok (), t)) (self : EventTicker) : fromJson U json self = (.ok (), self.update json) :=
  readFields_update hU fields_null h self

end EventTicker

namespace WSStreamManager

/-! ## The entry an event touches -/

def tickerKey (event : Event) : Option String := if isTicker event then some event.symbol else none

def candlestickKey (U : EventUtils) (event : Event) : Option (String × CandleInterval) :=
  if isKline event then
    match EventCandlestick.fromJson U event.data with
    | .ok eventCandlestick => some (event.symbol, eventCandlestick.interval)
    | .error _ => none
  else none

/-- The payload decodes, and it has the symbol of the event. -/
structure Decodes (U : EventUtils) (event : Event) : Prop where
  ticker : isTicker event = true → ∃ t, EventTicker.fromJson U.toJsonUtils event.data {} = (.ok (), t)
  candlestick : isKline event = true → ∃ c, EventCandlestick.fromJson U event.data = .ok c
  symbol : event.data.find? "symbol" = some (.str event.symbol)

theorem kline_ne_ticker {event : Event} (h : isKline event = true) : isTicker event = false := by
  unfold isKline at h
  cases hb : isTicker event with
  | false => rfl
  | true =>
    rw [hb] at h
    cases h

theorem onTicker_tickers {U : JsonUtils} (hU : U.Exact) {m : Caches} {event : Event} {t : EventTicker}
    (ht : EventTicker.fromJson U event.data {} = (.ok (), t))
    (hsymbol : event.data.find? "symbol" = some (.str event.symbol))
    (k : String) : (onTicker U m event).tickers k =
      if event.symbol = k then some (((m.tickers k).getD {}).update event.data) else m.tickers k := by
  have hdecode := EventTicker.fromJson_update hU ht
  unfold onTicker
  cases hm : m.tickers event.symbol with
  | none =>
    have hkey : (EventTicker.update {} event.data).symbol = event.symbol := by
      simp only [EventTicker.update, carried, hsymbol]
      rfl
    simp only [hdecode, hkey]
    by_cases hk : event.symbol = k
    · subst hk
      rw [Function.update_self, if_pos rfl, hm]
      rfl
    · rw [Function.update_of_ne (Ne.symm hk), if_neg hk]
  | some ticker =>
    simp only [hdecode]
    by_cases hk : event.symbol = k
    · subst hk
      rw [Function.update_self, if_pos rfl, hm]
      rfl
    · rw [Function.update_of_ne (Ne.symm hk), if_neg hk]

theorem onCandlestick_candlestick {U : EventUtils} {m : Caches} {event : Event} {c : EventCandlestick}
    (hc : EventCandlestick.fromJson U event.data = .ok c) (k : String × CandleInterval) :
    (onCandlestick U m event).candlestick k.1 k.2 =
      if (event.symbol, c.interval) = k then some c else m.candlestick k.1 k.2 := by
  obtain ⟨symbol, interval⟩ := k
  simp only [onCandlestick, hc, Caches.candlestick, Prod.mk.injEq]
  by_cases hs : event.symbol = symbol
  · subst hs
    rw [Function.update_self]
    by_cases hi : c.interval = interval
    · subst hi
      simp
    · simp only [Option.bind_some, Function.update_of_ne (Ne.symm hi), hi, and_false, if_false]
      cases m.candlesticks event.symbol <;> rfl
  · rw [Function.update_of_ne (Ne.symm hs), if_neg fun h => hs h.1]

theorem onTicker_candlesticks (U : JsonUtils) (m : Caches) (event : Event) :
    (onTicker U m event).candlesticks = m.candlesticks := by
  unfold onTicker
  split
  · split <;> rfl
  · rfl

theorem onCandlestick_tickers (U : EventUtils) (m : Caches) (event : Event) :
    (onCandlestick U m event).tickers = m.tickers := by
  unfold onCandlestick
  split <;> rfl

/-! ## One event -/

theorem onDataEvent_tickers {U : EventUtils} (hU : U.toJsonUtils.Exact) (m : Caches) {event : Event}
    (he : Decodes U event) (k : String) : (onDataEvent U m event).tickers k =
      if tickerKey event = some k then some (((m.tickers k).getD {}).update event.data) else m.tickers k := by
  unfold onDataEvent tickerKey
  cases ht : isTicker event with
  | true =>
    obtain ⟨t, hdecode⟩ := he.ticker ht
    simp only [if_true, Option.some.injEq]
    exact onTicker_tickers hU hdecode he.symbol k
  | false =>
    simp only [Bool.false_eq_true, if_false, reduceCtorEq]
    split
    · rw [onCandlestick_tickers]
    · rfl

theorem onDataEvent_candlestick {U : EventUtils} (m : Caches) {event : Event} (he : Decodes U event)
    (k : String × CandleInterval) : (onDataEvent U m event).candlestick k.1 k.2 =
      if candlestickKey U event = some k then (EventCandlestick.fromJson U event.data).toOption
      else m.candlestick k.1 k.2 := by
  unfold onDataEvent candlestickKey
  cases hk : isKline event with
  | true =>
    obtain ⟨c, hc⟩ := he.candlestick hk
    simp only [kline_ne_ticker hk, Bool.false_eq_true, if_false, if_true, hc, Option.some.injEq]
    exact onCandlestick_candlestick hc k
  | false =>
    simp only [Bool.false_eq_true, if_false, reduceCtorEq]
    split
    · simp only [Caches.candlestick, onTicker_candlesticks]
    · rfl

/-! ## All events -/

/-- What the payloads of a symbol's events leave in the cache. -/
def tickerOf (tickerEvents : List Event) : Option EventTicker :=
  if tickerEvents.isEmpty then none else some (EventTicker.last (tickerEvents.map Event.data))

theorem foldl_tickerOf (tickerEvents : List Event) :
    tickerEvents.foldl (fun t e => some ((t.getD {}).update e.data)) none = tickerOf tickerEvents := by
  cases tickerEvents with
  | nil => rfl
  | cons e es =>
    have hfold : ∀ (es : List Event) (t : EventTicker), es.foldl (fun t e => some ((t.getD {}).update e.data)) (some t) =
        some (es.foldl (fun t e => t.update e.data) t) := by
      intro es t
      exact List.foldl_hom some fun _ _ => rfl
    rw [List.foldl_cons, hfold]
    unfold tickerOf
    rw [← EventTicker.foldl_update, List.foldl_map]
    rfl

theorem tickers_fold {U : EventUtils} (hU : U.toJsonUtils.Exact) {es : List Event} (hes : ∀ e ∈ es, Decodes U e)
    (s : String) : (es.foldl (onDataEvent U) {}).tickers s = tickerOf (events tickerKey s es) := by
  rw [← foldl_tickerOf]
  exact foldl_get (onDataEvent U) Caches.tickers tickerKey (fun t e => some ((t.getD {}).update e.data)) {} fun m e he =>
    onDataEvent_tickers hU m (hes e he) s

theorem candlesticks_fold {U : EventUtils} {es : List Event} (hes : ∀ e ∈ es, Decodes U e) (s : String)
    (i : CandleInterval) : (es.foldl (onDataEvent U) {}).candlestick s i =
      (events (candlestickKey U) (s, i) es).getLast?.bind fun e => (EventCandlestick.fromJson U e.data).toOption := by
  have hfold := foldl_get (onDataEvent U) (fun m (k : String × CandleInterval) => m.candlestick k.1 k.2) (candlestickKey U)
    (fun _ e => (EventCandlestick.fromJson U e.data).toOption) (k := (s, i)) {} fun m e he =>
      onDataEvent_candlestick m (hes e he) (s, i)
  rw [foldl_replace] at hfold
  rw [hfold]
  cases (events (candlestickKey U) (s, i) es).getLast? <;> rfl

theorem caches_fold {U : EventUtils} (hU : U.toJsonUtils.Exact) {es : List Event} (hes : ∀ e ∈ es, Decodes U e) :
    (∀ s, (es.foldl (onDataEvent U) {}).tickers s = tickerOf (events tickerKey s es)) ∧
    (∀ s i, (es.foldl (onDataEvent U) {}).candlestick s i =
      (events (candlestickKey U) (s, i) es).getLast?.bind fun e => (EventCandlestick.fromJson U e.data).toOption) ∧
    ∀ es', (∀ e ∈ es', Decodes U e) →
      (∀ s, events tickerKey s es = events tickerKey s es' →
        (es.foldl (onDataEvent U) {}).tickers s = (es'.foldl (onDataEvent U) {}).tickers s) ∧
      ∀ s i, events (candlestickKey U) (s, i) es = events (candlestickKey U) (s, i) es' →
        (es.foldl (onDataEvent U) {}).candlestick s i = (es'.foldl (onDataEvent U) {}).candlestick s i := by
  refine ⟨tickers_fold hU hes, candlesticks_fold hes, fun es' hes' => ⟨fun s heq => ?_, fun s i heq => ?_⟩⟩
  · rw [tickers_fold hU hes, tickers_fold hU hes', heq]
  · rw [candlesticks_fold hes, candlesticks_fold hes', heq]

def tickerEvent (symbol : String) (kvs : List (String × Json)) : Event :=
  { channel := "push.ticker", symbol, data := .obj (("symbol", .str symbol) :: kvs) }

def klineEvent (symbol interval : String) (close : Int) : Event :=
  { channel := "push.kline", symbol
    data := .obj [("c", .num (.int close)), ("interval", .str interval), ("symbol", .str symbol)] }

/-- Two symbols interleaved, with a partial ticker and two candlesticks of one interval. -/
def interleaved : List Event :=
  [tickerEvent "ETH_USDT" [("bid1", .num (.int 10)), ("ask1", .num (.int 11))], klineEvent "ETH_USDT" "Min1" 10,
    tickerEvent "BTC_USDT" [("bid1", .num (.int 100))], klineEvent "ETH_USDT" "Min1" 12,
    tickerEvent "ETH_USDT" [("bid1", .num (.int 12))]]

theorem interleaved_decodes : ∀ e ∈ interleaved, Decodes .plain e := by
  intro e he
  simp only [interleaved, List.mem_cons, List.not_mem_nil, or_false] at he
  rcases he with rfl | rfl | rfl | rfl | rfl <;> exact ⟨fun _ => ⟨_, rfl⟩, fun _ => ⟨_, rfl⟩, rfl⟩

theorem caches_interleaved :
    (∀ s, (interleaved.foldl (onDataEvent .plain) {}).tickers s = tickerOf (events tickerKey s interleaved)) ∧
    (∀ s i, (interleaved.foldl (onDataEvent .plain) {}).candlestick s i =
      (events (candlestickKey .plain) (s, i) interleaved).getLast?.bind fun e =>
        (EventCandlestick.fromJson .plain e.data).toOption) ∧
    ∀ es', (∀ e ∈ es', Decodes .plain e) →
      (∀ s, events tickerKey s interleaved = events tickerKey s es' →
        (interleaved.foldl (onDataEvent .plain) {}).tickers s = (es'.foldl (onDataEvent .plain) {}).tickers s) ∧
      ∀ s i, events (candlestickKey .plain) (s, i) interleaved = events (candlestickKey .plain) (s, i) es' →
        (interleaved.foldl (onDataEvent .plain) {}).candlestick s i =
          (es'.foldl (onDataEvent .plain) {}).candlestick s i :=
  caches_fold JsonUtils.plain_exact interleaved_decodes

end WSStreamManager

end Futures

end MexcApi
