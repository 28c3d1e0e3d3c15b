import MexcApi.WsIntactSound

/-!
# When a cached ticker belongs to its key

A ticker is looked up by the symbol of the event, stored first under the symbol
of the payload, and later decoded in place with the symbol it has.
-/

namespace MexcApi

open Nlohmann

namespace Futures

namespace WSStreamManager

def Owned (m : Caches) : Prop := ∀ key ticker, m.tickers key = some ticker → ticker.symbol = key

/-- The event changes no entry of another symbol. -/
def Framed (U : EventUtils) (m : Caches) (event : Event) : Prop :=
  ∀ key, key ≠ event.symbol → (onDataEvent U m event).tickers key = m.tickers key ∧
    (onDataEvent U m event).candlesticks key = m.candlesticks key

/-- What the payload has for its symbol is that of the event; as the first
ticker of a symbol it may also be one that is in the cache already. -/
def SymbolKept (U : JsonUtils) (m : Caches) (event : Event) : Prop :=
  match m.tickers event.symbol with
  | none => ∀ ticker, EventTicker.fromJson U event.data {} = (.ok (), ticker) →
    ticker.symbol = event.symbol ∨ m.tickers ticker.symbol = some ticker
  | some ticker => ∀ symbol, U.readValue Json.getString event.data "symbol" ticker.symbol = .ok symbol →
    symbol = event.symbol

def Permitted (U : EventUtils) (m : Caches) (event : Event) : Prop :=
  isTicker event = true → SymbolKept U.toJsonUtils m event

/-! ## The symbol of a decoded ticker -/

/-- The symbol is read first, and no other field is stored there. -/
theorem symbol_fromJson (U : JsonUtils) (json : Json) (self : EventTicker) :
    (EventTicker.fromJson U json self).2.symbol =
      match U.readValue Json.getString json "symbol" self.symbol with
      | .ok symbol => symbol
      | .error _ => self.symbol := by
  unfold EventTicker.fromJson EventTicker.fields
  rw [readFields_cons]
  cases U.readValue Json.getString json "symbol" self.symbol with
  | error e => rfl
  | ok symbol =>
    exact value_readFields U json _ (List.pairwise_cons.mp EventTicker.fields_separate.pairwise).1

theorem symbol_kept_iff (U : JsonUtils) (json : Json) {self : EventTicker} {key : String} (h : self.symbol = key) :
    (EventTicker.fromJson U json self).2.symbol = key ↔
      ∀ symbol, U.readValue Json.getString json "symbol" self.symbol = .ok symbol → symbol = key := by
  rw [symbol_fromJson]
  cases U.readValue Json.getString json "symbol" self.symbol with
  | error e => exact iff_of_true h fun _ he => by cases he
  | ok symbol => simp

/-! ## One event -/

theorem onTicker_none {U : JsonUtils} {m : Caches} {event : Event} {ticker : EventTicker}
    (h : m.tickers event.symbol = none) (hd : EventTicker.fromJson U event.data {} = (.ok (), ticker)) :
    onTicker U m event = { m with tickers := Function.update m.tickers ticker.symbol (some ticker) } := by
  unfold onTicker
  rw [h]
  simp only [hd]

theorem onTicker_failed {U : JsonUtils} {m : Caches} {event : Event} {ticker : EventTicker} {e : Fault}
    (h : m.tickers event.symbol = none) (hd : EventTicker.fromJson U event.data {} = (.error e, ticker)) :
    onTicker U m event = m := by
  unfold onTicker
  rw [h]
  simp only [hd]

theorem onTicker_some {U : JsonUtils} {m : Caches} {event : Event} {ticker : EventTicker}
    (h : m.tickers event.symbol = some ticker) : onTicker U m event = { m with
      tickers := Function.update m.tickers event.symbol (some (EventTicker.fromJson U event.data ticker).2) } := by
  unfold onTicker
  rw [h]

theorem Owned.update {m : Caches} (hm : Owned m) {key : String} {ticker : EventTicker} :
    Owned { m with tickers := Function.update m.tickers key (some ticker) } ↔ ticker.symbol = key := by
  constructor
  · intro h
    exact h key ticker (Function.update_self ..)
  · intro h key' ticker' hk
    by_cases heq : key' = key
    · subst heq
      simp only [Function.update_self, Option.some.injEq] at hk
      rw [← hk, h]
    · simp only [Function.update_of_ne heq] at hk
      exact hm key' ticker' hk

theorem onCandlestick_frame (U : EventUtils) (m : Caches) {event : Event} {key : String} (h : key ≠ event.symbol) :
    (onCandlestick U m event).candlesticks key = m.candlesticks key := by
  unfold onCandlestick
  split
  · exact Function.update_of_ne h ..
  · rfl

theorem symbolKept_iff {U : JsonUtils} {m : Caches} (hm : Owned m) (event : Event) :
    (Owned (onTicker U m event) ∧ ∀ key, key ≠ event.symbol → (onTicker U m event).tickers key = m.tickers key) ↔
      SymbolKept U m event := by
  unfold SymbolKept
  cases h : m.tickers event.symbol with
  | none =>
    cases hd : EventTicker.fromJson U event.data {} with
    | mk r ticker =>
      cases r with
      | error e =>
        rw [onTicker_failed h hd]
        exact iff_of_true ⟨hm, fun _ _ => rfl⟩ fun _ he => by cases he
      | ok _ =>
        rw [onTicker_none h hd]
        constructor
        · rintro ⟨-, hframe⟩ ticker' heq
          cases heq
          refine or_iff_not_imp_left.mpr fun hne => ?_
          rw [← hframe _ hne]
          exact Function.update_self ..
        · intro hp
          refine ⟨hm.update.mpr rfl, fun key hkey => ?_⟩
          by_cases heq : key = ticker.symbol
          · subst heq
            rcases hp ticker rfl with hsame | hcached
            · exact absurd hsame hkey
            · rw [hcached]
              exact Function.update_self ..
          · exact Function.update_of_ne heq ..
  | some ticker =>
    rw [onTicker_some h, hm.update, symbol_kept_iff U event.data (hm _ _ h)]
    exact and_iff_left fun key hkey => Function.update_of_ne hkey ..

theorem permitted_iff (U : EventUtils) {m : Caches} (hm : Owned m) (event : Event) :
    (Owned (onDataEvent U m event) ∧ Framed U m event) ↔ Permitted U m event := by
  unfold Framed Permitted onDataEvent
  cases ht : isTicker event with
  | true =>
    simp only [if_true, forall_const, onTicker_candlesticks, and_true]
    exact symbolKept_iff hm event
  | false =>
    simp only [Bool.false_eq_true, if_false, false_imp_iff, iff_true]
    split
    · have hsame := onCandlestick_tickers U m event
      refine ⟨fun key ticker hk => hm key ticker ?_, fun key hkey => ⟨?_, onCandlestick_frame U m hkey⟩⟩
      · rw [← hsame]
        exact hk
      · rw [hsame]
    · exact ⟨hm, fun _ _ => ⟨rfl, rfl⟩⟩

/-! ## Runs -/

theorem owned_init : Owned {} := by
  intro key ticker h
  cases h

theorem poll_found {α : Type} {timeout : Nat → Int} {find : Nat → Option α} {retVal : α} : ∀ {left numTries : Nat},
    (poll timeout find left numTries).1 = some retVal → ∃ n, find n = some retVal
  | 0, _, h => by cases h
  | left + 1, numTries, h => by
    unfold poll at h
    split at h
    · cases h
    · split at h
      · rename_i found hfind
        cases h
        exact ⟨numTries, hfind⟩
      · exact poll_found h

theorem foldl_owned {U : EventUtils} : ∀ {events seen : List Event} {m : Caches},
    Trace.Always (step U) Owned m events → seen <+: events → Owned (seen.foldl (onDataEvent U) m)
  | _, [], _, h, _ => h.head (step U)
  | [], _ :: _, _, _, hseen => by cases List.prefix_nil.mp hseen
  | event :: events, e :: seen, m, h, hprefix => by
    obtain ⟨rfl, hseen⟩ := List.cons_prefix_cons.mp hprefix
    rw [List.foldl_cons]
    exact foldl_owned (h.2 _ rfl) hseen

theorem owned_iff_permitted (U : EventUtils) (events : List Event) :
    (Trace.Always (step U) Owned {} events ∧ Trace.Guarded (step U) (Framed U) {} events ↔
      Trace.Guarded (step U) (Permitted U) {} events) ∧
    (Trace.Guarded (step U) (Permitted U) {} events →
      ∀ (seen : Nat → List Event), (∀ n, seen n <+: events) → ∀ timeout pair ticker,
        (readEventTicker timeout (fun n => (seen n).foldl (onDataEvent U) {}) pair).1 = some ticker →
        ticker.symbol = pair) := by
  have hiff : Trace.Always (step U) Owned {} events ∧ Trace.Guarded (step U) (Framed U) {} events ↔
      Trace.Guarded (step U) (Permitted U) {} events := by
    rw [Trace.always_and_guarded_iff (step U) owned_init]
    refine Trace.guarded_iff_of_keeps (step U) (fun m event m' _ hok hs => hok.1 m' hs) (fun m event hm => ?_) owned_init
    rw [← permitted_iff U hm event]
    exact and_congr_left' ⟨fun h => h _ rfl, fun h m' hs => by cases hs; exact h⟩
  refine ⟨hiff, fun hp seen hseen timeout pair ticker hread => ?_⟩
  obtain ⟨n, hn⟩ := poll_found hread
  exact foldl_owned (hiff.mpr hp).1 (hseen n) pair ticker hn

/-- A ticker event of one pair whose payload has the symbol of another. -/
def foreignEvent : Event :=
  { channel := "push.ticker", symbol := "BTC_USDT"
    data := .obj [("bid1", .num (.int 10)), ("symbol", .str "ETH_USDT")] }

/-- Decoded over the ticker of its own pair, it becomes the quote of that pair;
as the first one, it replaces the quote of the other pair. -/
theorem foreign_ticker :
    (¬ Trace.Always (step .plain) Owned {} [tickerEvent "BTC_USDT" [], foreignEvent] ∧
      ∃ ticker, (readEventTicker (fun _ => 5)
          (fun _ => [tickerEvent "BTC_USDT" [], foreignEvent].foldl (onDataEvent .plain) {}) "BTC_USDT").1 = some ticker ∧
        ticker.symbol = "ETH_USDT") ∧
    ¬ Trace.Guarded (step .plain) (Framed .plain) {} [tickerEvent "ETH_USDT" [], foreignEvent] := by
  refine ⟨⟨fun h => ?_, _, rfl, rfl⟩, fun h => ?_⟩
  · have howned := foldl_owned h (List.prefix_refl _) "BTC_USDT" { symbol := "ETH_USDT", bid1 := 10 } rfl
    exact absurd howned (by decide)
  · have hframe := ((h _ rfl).2 _ rfl).1 "ETH_USDT" (by decide)
    have hbid := congrArg (Option.map EventTicker.bid1) hframe.1
    exact absurd hbid (by decide)

end WSStreamManager

end Futures

end MexcApi
