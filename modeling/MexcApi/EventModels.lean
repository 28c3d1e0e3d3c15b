import MexcApi.Models

/-!
# Event data models

The decoders of `mexc_event_models.cpp`. A ticker is decoded in place, so what
its decoder has stored before an exception stays.
-/

namespace MexcApi

open Nlohmann

/-- With `readMagicEnum` of the same header, for the intervals. -/
structure EventUtils extends JsonUtils where
  readMagicEnum : Json → String → CandleInterval → Except Fault CandleInterval

def EventUtils.plain : EventUtils where
  toJsonUtils := .plain
  readMagicEnum json key old :=
    match json.find? key with
    | some (.str "Min1") => .ok ._1m
    | some (.str "Min5") => .ok ._5m
    | some (.str "Min15") => .ok ._15m
    | some (.str "Min30") => .ok ._30m
    | some (.str "Min60") => .ok ._60m
    | some (.str "Hour4") => .ok ._4h
    | some (.str "Hour8") => .ok ._8h
    | some (.str "Day1") => .ok ._1d
    | some (.str "Week1") => .ok ._1W
    | some (.str "Month1") => .ok ._1M
    | _ => .ok old

namespace Futures

structure Event where
  channel : String := ""
  symbol : String := ""
  ts : Int := 0
  data : Json := .null

def Event.fromJson (U : JsonUtils) (json : Json) : Except Fault Event := do
  let channel ← U.readValue Json.getString json "channel" ""
  let symbol ← U.readValue Json.getString json "symbol" ""
  let ts ← U.readValue Json.getInt64 json "ts" 0
  let data ← (json.access "data").get
  return { channel, symbol, ts, data }

/-! ## Decoding in place -/

/-- A call of `readValue`: the type it reads, the key, and where it is stored. -/
structure Field (σ : Type) where
  {α : Type}
  get : Json → Except Fault α
  key : String
  value : σ → α
  assign : σ → α → σ

def Field.read {σ : Type} (U : JsonUtils) (json : Json) (f : Field σ) (self : σ) : Except Fault σ := do
  return f.assign self (← U.readValue f.get json f.key (f.value self))

def readFields {σ : Type} (U : JsonUtils) (json : Json) : List (Field σ) → σ → Except Fault Unit × σ
  | [], self => (.ok (), self)
  | f :: fields, self =>
    match f.read U json self with
    | .ok self' => readFields U json fields self'
    | .error e => (.error e, self)

@[ext] structure EventTicker where
  symbol : String := ""
  bid1 : ℚ := 0
  ask1 : ℚ := 0
  volume24 : ℚ := 0
  holdVol : ℚ := 0
  lower24Price : ℚ := 0
  high24Price : ℚ := 0
  riseFallRate : ℚ := 0
  riseFallValue : ℚ := 0
  indexPrice : ℚ := 0
  fairPrice : ℚ := 0
  fundingRate : ℚ := 0
  timestamp : Int := 0

def EventTicker.fields : List (Field EventTicker) := [
  ⟨Json.getString, "symbol", symbol, fun t v => { t with symbol := v }⟩,
  ⟨Json.getDouble, "bid1", bid1, fun t v => { t with bid1 := v }⟩,
  ⟨Json.getDouble, "ask1", ask1, fun t v => { t with ask1 := v }⟩,
  ⟨Json.getDouble, "volume24", volume24, fun t v => { t with volume24 := v }⟩,
  ⟨Json.getDouble, "holdVol", holdVol, fun t v => { t with holdVol := v }⟩,
  ⟨Json.getDouble, "lower24Price", lower24Price, fun t v => { t with lower24Price := v }⟩,
  ⟨Json.getDouble, "high24Price", high24Price, fun t v => { t with high24Price := v }⟩,
  ⟨Json.getDouble, "riseFallRate", riseFallRate, fun t v => { t with riseFallRate := v }⟩,
  ⟨Json.getDouble, "riseFallValue", riseFallValue, fun t v => { t with riseFallValue := v }⟩,
  ⟨Json.getDouble, "indexPrice", indexPrice, fun t v => { t with indexPrice := v }⟩,
  ⟨Json.getDouble, "fairPrice", fairPrice, fun t v => { t with fairPrice := v }⟩,
  ⟨Json.getDouble, "fundingRate", fundingRate, fun t v => { t with fundingRate := v }⟩,
  ⟨Json.getInt64, "m_timestamp", timestamp, fun t v => { t with timestamp := v }⟩]

def EventTicker.fromJson (U : JsonUtils) (json : Json) (self : EventTicker) : Except Fault Unit × EventTicker :=
  readFields U json fields self

structure EventCandlestick where
  symbol : String := ""
  amount : ℚ := 0
  interval : CandleInterval := ._1m
  «open» : ℚ := 0
  high : ℚ := 0
  low : ℚ := 0
  close : ℚ := 0
  volume : ℚ := 0
  start : Int := 0

def EventCandlestick.fromJson (U : EventUtils) (json : Json) : Except Fault EventCandlestick := do
  let symbol ← U.readValue Json.getString json "symbol" ""
  let amount ← U.readValue Json.getDouble json "a" 0
  let interval ← U.readMagicEnum json "interval" ._1m
  let «open» ← U.readValue Json.getDouble json "o" 0
  let high ← U.readValue Json.getDouble json "h" 0
  let low ← U.readValue Json.getDouble json "l" 0
  let close ← U.readValue Json.getDouble json "c" 0
  let volume ← U.readValue Json.getDouble json "q" 0
  let start ← U.readValue Json.getInt64 json "t" 0
  return { symbol, amount, interval, «open», high, low, close, volume, start }

end Futures

end MexcApi
