/-!
# Enumerations

`mexc_enums.h`, the interval tables of `mexc.cpp`, and the enumerations of the
common connector interface that the connector reads. The latter come from the
submodule: the enumerators the code names are constructors, the rest are
`other`.
-/

namespace MexcApi

inductive CandleInterval where
  | _1m
  | _5m
  | _15m
  | _30m
  | _60m
  | _4h
  | _8h
  | _1d
  | _1W
  | _1M
  deriving DecidableEq, Repr

namespace CandleInterval

/-- `magic_enum::enum_name`, customized in `mexc_enums.h`. -/
def enumName : CandleInterval → String
  | _1m => "Min1"
  | _5m => "Min5"
  | _15m => "Min15"
  | _30m => "Min30"
  | _60m => "Min60"
  | _4h => "Hour4"
  | _8h => "Hour8"
  | _1d => "Day1"
  | _1W => "Week1"
  | _1M => "Month1"

def numberOfMsForCandleInterval : CandleInterval → Int
  | _1m => 60000
  | _5m => 60000 * 5
  | _15m => 60000 * 15
  | _30m => 60000 * 30
  | _60m => 60000 * 60
  | _4h => 60000 * 240
  | _8h => 60000 * 480
  | _1d => 86400000
  | _1W => 86400000 * 7
  | _1M => 86400000 * 30

def candleIntervalToSpotString : CandleInterval → String
  | _1m => "1m"
  | _5m => "5m"
  | _15m => "15m"
  | _30m => "30m"
  | _60m => "60m"
  | _4h => "4h"
  | _8h => "8h"
  | _1d => "1d"
  | _1W => "1W"
  | _1M => "1M"

theorem numberOfMs_pos (interval : CandleInterval) : 0 < interval.numberOfMsForCandleInterval := by
  cases interval <;> decide

end CandleInterval

/-! ## The common connector interface -/

inductive Side where
  | Buy
  | Sell
  deriving DecidableEq, Repr

inductive CommonOrderType where
  | Market
  | Limit
  | other (value : Int)
  deriving DecidableEq, Repr

inductive TimeInForce where
  | IOC
  | FOK
  | other (value : Int)
  deriving DecidableEq, Repr

inductive CommonCandleInterval where
  | _1m
  | _5m
  | _15m
  | _30m
  | _1h
  | _4h
  | _8h
  | _1d
  | _1w
  | _1M
  | other (value : Int)
  deriving DecidableEq, Repr

inductive OrderStatus where
  | New
  | Rejected
  deriving DecidableEq, Repr

/-! ## Futures orders -/

/-- `unset` is the value 0 of a value-initialized enumerator. -/
inductive OrderSide where
  | unset
  | OpenLong
  | CloseShort
  | OpenShort
  | CloseLong
  deriving DecidableEq, Repr

def OrderSide.toInt : OrderSide → Int
  | unset => 0
  | OpenLong => 1
  | CloseShort => 2
  | OpenShort => 3
  | CloseLong => 4

inductive OrderType where
  | unset
  | Limit
  | PostOnly
  | IOC
  | FOK
  | Market
  | MarketToLimit
  deriving DecidableEq, Repr

def OrderType.toInt : OrderType → Int
  | unset => 0
  | Limit => 1
  | PostOnly => 2
  | IOC => 3
  | FOK => 4
  | Market => 5
  | MarketToLimit => 6

/-- `static_cast` from an integer also makes values that are not enumerators. -/
inductive MarginType where
  | Isolated
  | Cross
  | unnamed (value : Int)
  deriving DecidableEq, Repr

def MarginType.ofInt (n : Int) : MarginType :=
  if n = 1 then Isolated else if n = 2 then Cross else unnamed n

def MarginType.toInt : MarginType → Int
  | Isolated => 1
  | Cross => 2
  | unnamed n => n

end MexcApi
