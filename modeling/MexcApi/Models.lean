import MexcApi.Enums
import MexcApi.Json

/-!
# Data models

Decoders of `mexc_models.cpp`: those of the spot client, and of the futures
client those that the history download and the funding rates use.
`cpp_dec_float_50` values are exact rationals.
-/

namespace MexcApi

open Nlohmann

/-- What the code uses of `vk/utils/json_utils.h` and of boost's decimal
parser, neither of which is part of the repository. -/
structure JsonUtils where
  readValue : {α : Type} → (Json → Except Fault α) → Json → String → α → Except Fault α
  readDecimalValue : Json → String → Except Fault ℚ
  assign : String → Except Fault ℚ

/-- `readValue` stores what `get` makes of the member, and leaves the field
untouched when its key is absent. -/
structure JsonUtils.Lawful (U : JsonUtils) : Prop where
  present : ∀ {α : Type} (get : Json → Except Fault α) {j : Json} {key : String} {v : Json} (old : α),
    j.find? key = some v → v ≠ .null → U.readValue get j key old = get v
  absent : ∀ {α : Type} (get : Json → Except Fault α) {j : Json} {key : String} (old : α),
    j.find? key = none → U.readValue get j key old = .ok old

/-- Besides, a null is either skipped or handed to `get`, and the decimals end
with a value or with an exception. -/
structure JsonUtils.Exact (U : JsonUtils) : Prop extends U.Lawful where
  null : ∀ {α : Type} (get : Json → Except Fault α) {j : Json} {key : String}, j.find? key = some .null →
    (∀ old, U.readValue get j key old = .ok old) ∨ ∀ old, U.readValue get j key old = get .null
  readDecimalValue : ∀ j key, Defined (U.readDecimalValue j key)
  assign : ∀ s, Defined (U.assign s)

/-- A field whose key is absent, or which holds what `get` takes. -/
theorem JsonUtils.Exact.readValue_eq {U : JsonUtils} (hU : U.Exact) {α : Type} (get : Json → Except Fault α) (j : Json)
    (key : String) : (∀ old, U.readValue get j key old = .ok old) ∨
      ∃ v, j.find? key = some v ∧ ∀ old, U.readValue get j key old = get v := by
  cases h : j.find? key with
  | none => exact Or.inl fun old => hU.absent get old h
  | some v =>
    by_cases hv : v = .null
    · subst hv
      rcases hU.null get h with hskip | hget
      · exact Or.inl hskip
      · exact Or.inr ⟨.null, rfl, hget⟩
    · exact Or.inr ⟨v, rfl, fun old => hU.present get old h hv⟩

theorem JsonUtils.Exact.defined_readValue {U : JsonUtils} (hU : U.Exact) {α : Type} {get : Json → Except Fault α}
    (hget : ∀ v, Defined (get v)) (j : Json) (key : String) (old : α) : Defined (U.readValue get j key old) := by
  rcases hU.readValue_eq get j key with h | ⟨v, -, h⟩
  · rw [h old]
    exact defined_ok old
  · rw [h old]
    exact hget v

/-! ## Numbers -/

inductive Double where
  | finite (q : ℚ)
  | infinite (negative : Bool)
  | nan
  deriving DecidableEq, Repr

/-- The JSON value that `dump` prints for a double. -/
def Double.toJson : Double → Json
  | .finite q => .num (.float q)
  | _ => .null

def Double.isPositive : Double → Bool
  | .finite q => 0 < q
  | .infinite negative => !negative
  | .nan => false

def roundHalfEven (q : ℚ) : Int :=
  let r := q - q.floor
  if r < 1 / 2 then q.floor
  else if 1 / 2 < r then q.floor + 1
  else if q.floor % 2 = 0 then q.floor else q.floor + 1

/-- The decimal `std::to_string` prints for a double: six fractional digits. -/
def toStringValue (q : ℚ) : ℚ := roundHalfEven (q * 1000000) / 1000000

def isSpace (c : Char) : Bool := c ∈ [' ', '\t', '\n', '\x0b', '\x0c', '\r']

def digitsValue : List Char → Int := List.foldl (fun n c => 10 * n + (c.toNat - '0'.toNat)) 0

def stoi (s : String) : Except Fault Int :=
  let cs := s.toList.dropWhile isSpace
  let digits (ds : List Char) : Except Fault Int :=
    if ds.isEmpty then .error (.runtimeError "stoi: invalid_argument") else .ok (digitsValue ds)
  let value := match cs with
    | '-' :: ds => (digits (ds.takeWhile Char.isDigit)).map (-·)
    | '+' :: ds => digits (ds.takeWhile Char.isDigit)
    | ds => digits (ds.takeWhile Char.isDigit)
  value.bind fun n =>
    if -2147483648 ≤ n ∧ n ≤ 2147483647 then .ok n else .error (.runtimeError "stoi: out_of_range")

def decimalOfString (s : String) : Except Fault ℚ :=
  let whole := s.toList.takeWhile Char.isDigit
  match s.toList.dropWhile Char.isDigit with
  | [] => if whole.isEmpty then .error (.runtimeError "bad decimal") else .ok (digitsValue whole)
  | '.' :: fraction =>
    if fraction.all Char.isDigit then .ok (digitsValue whole + digitsValue fraction / 10 ^ fraction.length)
    else .error (.runtimeError "bad decimal")
  | _ => .error (.runtimeError "bad decimal")

def JsonUtils.plain : JsonUtils where
  readValue get j key old :=
    match j.find? key with
    | some .null => .ok old
    | some v => get v
    | none => .ok old
  readDecimalValue j key :=
    match j.find? key with
    | some (.str s) => decimalOfString s
    | _ => .ok 0
  assign := decimalOfString

theorem JsonUtils.plain_lawful : JsonUtils.plain.Lawful where
  present get j key v old h hv := by
    simp only [plain, h]
  absent get j key old h := by simp only [plain, h]

theorem defined_decimalOfString (s : String) : Defined (decimalOfString s) := by
  unfold decimalOfString
  split
  · exact .ite (by simp) (by simp)
  · exact .ite (by simp) (by simp)
  · simp

theorem defined_stoi (s : String) : Defined (stoi s) := by
  have hdigits : ∀ ds : List Char, Defined (if ds.isEmpty then .error (.runtimeError "stoi: invalid_argument")
      else .ok (digitsValue ds) : Except Fault Int) := fun ds => .ite (by simp) (by simp)
  unfold stoi
  refine (defined_bind _ _).mpr ⟨?_, fun n _ => .ite (by simp) (by simp)⟩
  split
  · rw [defined_map]
    exact hdigits _
  · exact hdigits _
  · exact hdigits _

theorem JsonUtils.plain_exact : JsonUtils.plain.Exact where
  toLawful := plain_lawful
  null get j key h := Or.inl fun old => by simp only [plain, h]
  readDecimalValue j key := by
    simp only [plain]
    split
    · exact defined_decimalOfString _
    · exact defined_ok _
  assign := defined_decimalOfString

/-! ## HTTP replies -/

/-- A reply: its status, its body, and what `nlohmann::json::parse` makes of
the body. -/
structure HttpResponse where
  result : Nat
  body : String
  json : Option Json

def HttpResponse.parse (response : HttpResponse) : Except Fault Json :=
  match response.json with
  | some json => .ok json
  | none => .error (.jsonException 101)

def checkResponse (response : HttpResponse) : Except Fault HttpResponse :=
  let code := response.result
  let msg := response.body
  if response.result ≠ 200 then .error (.runtimeError s!"Bad response, code {code}, msg: {msg}")
  else .ok response

theorem checkResponse_ok {response : HttpResponse} (h : response.result = 200) : checkResponse response = .ok response := by
  unfold checkResponse
  rw [if_neg (by simpa using h)]

namespace Spot

structure Response where
  code : Int := 0
  msg : String := ""

def Response.fromJson (U : JsonUtils) (self : Response) (json : Json) : Except Fault Response := do
  let codeStr ← U.readValue Json.getString json "code" ""
  let msg ← U.readValue Json.getString json "msg" self.msg
  if codeStr ≠ "" then
    return { code := ← stoi codeStr, msg }
  return { self with msg }

structure ServerTime extends Response where
  serverTime : Int := 0

def ServerTime.fromJson (U : JsonUtils) (json : Json) : Except Fault ServerTime := do
  let response ← Response.fromJson U {} json
  let serverTime ← U.readValue Json.getInt64 json "serverTime" 0
  return { response with serverTime }

structure Candle extends Response where
  openTime : Int
  closeTime : Int
  «open» : ℚ
  high : ℚ
  low : ℚ
  close : ℚ
  volume : ℚ
  quoteAssetVolume : ℚ

def Candle.fromJson (U : JsonUtils) (json : Json) : Except Fault Candle := do
  let response ← Response.fromJson U {} json
  let openTime ← (← (json.accessIndex 0).get).getInt64
  let «open» ← U.assign (← (← (json.accessIndex 1).get).getString)
  let high ← U.assign (← (← (json.accessIndex 2).get).getString)
  let low ← U.assign (← (← (json.accessIndex 3).get).getString)
  let close ← U.assign (← (← (json.accessIndex 4).get).getString)
  let volume ← U.assign (← (← (json.accessIndex 5).get).getString)
  let closeTime ← (← (json.accessIndex 6).get).getInt64
  let quoteAssetVolume ← U.assign (← (← (json.accessIndex 7).get).getString)
  return { response with openTime, closeTime, «open», high, low, close, volume, quoteAssetVolume }

structure TickerPrice extends Response where
  symbol : String := ""
  price : ℚ := 0

def TickerPrice.fromJson (U : JsonUtils) (json : Json) : Except Fault TickerPrice := do
  let response ← Response.fromJson U {} json
  let symbol ← U.readValue Json.getString json "symbol" ""
  let price ← U.assign (← (← (json.access "price").get).getString)
  return { response with symbol, price }

structure ListenKey extends Response where
  listenKey : String := ""

def ListenKey.fromJson (U : JsonUtils) (json : Json) : Except Fault ListenKey := do
  let response ← Response.fromJson U {} json
  let listenKey ← U.readValue Json.getString json "listenKey" ""
  return { response with listenKey }

structure ListenKeys extends Response where
  available : Int := 0
  total : Int := 0
  listenKeys : List String := []

def ListenKeys.fromJson (U : JsonUtils) (json : Json) : Except Fault ListenKeys := do
  let response ← Response.fromJson U {} json
  let available ← U.readValue Json.getInt32 json "available" 0
  let total ← U.readValue Json.getInt32 json "total" 0
  let listenKeys ← (← (json.access "listenKey").get).getStrings
  return { response with available, total, listenKeys }

end Spot

namespace Futures

structure Response where
  code : Int := 0
  success : Bool := false
  data : Json := .null

def Response.fromJson (U : JsonUtils) (self : Response) (json : Json) : Except Fault Response := do
  let code ← U.readValue Json.getInt32 json "code" self.code
  let success ← U.readValue Json.getBool json "success" self.success
  return { code, success, data := (json.find? "data").getD self.data }

theorem Response.fromJson_success {U : JsonUtils} (hU : U.Lawful) {json data : Json}
    (hcode : json.find? "code" = some (.num (.int 0))) (hsuccess : json.find? "success" = some (.bool true))
    (hdata : json.find? "data" = some data) :
    Response.fromJson U {} json = .ok { code := 0, success := true, data } := by
  have h1 : U.readValue Json.getInt32 json "code" (0 : Int) = .ok 0 := hU.present _ _ hcode nofun
  have h2 : U.readValue Json.getBool json "success" false = .ok true := hU.present _ _ hsuccess nofun
  simp only [Response.fromJson, h1, h2, hdata]
  rfl

/-- The template of `mexc_futures_rest_client.cpp`; `toResponse` is the
inherited part of the decoded value. -/
def handleMEXCResponse {α : Type} (fromJson : Json → Except Fault α) (toResponse : α → Response)
    (response : HttpResponse) : Except Fault α := do
  let retVal ← fromJson (← response.parse)
  let code := (toResponse retVal).code
  if !(toResponse retVal).success then throw (.runtimeError s!"MEXC API error, code: {code}")
  return retVal

theorem handleMEXCResponse_ok {α : Type} {fromJson : Json → Except Fault α} {toResponse : α → Response}
    {response : HttpResponse} {json : Json} {value : α} (hjson : response.json = some json)
    (hvalue : fromJson json = .ok value) (hsuccess : (toResponse value).success = true) :
    handleMEXCResponse fromJson toResponse response = .ok value := by
  unfold handleMEXCResponse HttpResponse.parse
  rw [hjson]
  simp only [bind, Except.bind, hvalue, hsuccess]
  rfl

theorem handleMEXCResponse_returns {α : Type} {fromJson : Json → Except Fault α} {toResponse : α → Response}
    {response : HttpResponse} {value : α} (h : handleMEXCResponse fromJson toResponse response = .ok value) :
    (toResponse value).success = true ∧ ∃ json, fromJson json = .ok value := by
  unfold handleMEXCResponse at h
  obtain ⟨json, -, h⟩ := bind_ok h
  obtain ⟨retVal, hvalue, h⟩ := bind_ok h
  dsimp only at h
  split at h
  · cases h
  · rename_i hsuccess
    cases h
    exact ⟨by simpa using hsuccess, json, hvalue⟩

structure Candle where
  openTime : Int
  «open» : ℚ
  high : ℚ
  low : ℚ
  close : ℚ
  volume : ℚ
  amount : ℚ

structure Candles extends Response where
  candles : List Candle := []

def decimalAt (column : Json) (i : Nat) : Except Fault ℚ := do
  return toStringValue (← (← (column.accessIndex i).get).getDouble)

def Candles.candleAt (times opens highs lows closes vols amounts : Json) (i : Nat) : Except Fault Candle := do
  let openTime := (← (← (times.accessIndex i).get).getInt64) * 1000
  let «open» ← decimalAt opens i
  let high ← decimalAt highs i
  let low ← decimalAt lows i
  let close ← decimalAt closes i
  let volume ← decimalAt vols i
  let amount ← decimalAt amounts i
  return { openTime, «open», high, low, close, volume, amount }

def Candles.fromJson (U : JsonUtils) (json : Json) : Except Fault Candles := do
  let response ← Response.fromJson U {} json
  let data := response.data
  match data.find? "time" with
  | none => return { response with }
  | some times =>
    if times.empty then return { response with }
    let opens ← data.atOrInsert "open"
    let highs ← data.atOrInsert "high"
    let lows ← data.atOrInsert "low"
    let closes ← data.atOrInsert "close"
    let vols ← data.atOrInsert "vol"
    let amounts ← data.atOrInsert "amount"
    let candles ← (List.range times.size).mapM (candleAt times opens highs lows closes vols amounts)
    return { response with candles }

theorem Candles.fromJson_ok {U : JsonUtils} {json data times opens highs lows closes vols amounts : Json}
    {candles : List Candle}
    (hresponse : Response.fromJson U {} json = .ok { code := 0, success := true, data })
    (htime : data.find? "time" = some times) (hempty : times.empty = false)
    (hopen : data.atOrInsert "open" = .ok opens) (hhigh : data.atOrInsert "high" = .ok highs)
    (hlow : data.atOrInsert "low" = .ok lows) (hclose : data.atOrInsert "close" = .ok closes)
    (hvol : data.atOrInsert "vol" = .ok vols) (hamount : data.atOrInsert "amount" = .ok amounts)
    (hcandles : (List.range times.size).mapM (candleAt times opens highs lows closes vols amounts) = .ok candles) :
    Candles.fromJson U json = .ok { code := 0, success := true, data, candles } := by
  unfold Candles.fromJson
  simp only [bind, Except.bind, hresponse, htime, hempty, Bool.false_eq_true, ite_false, hopen, hhigh, hlow, hclose,
    hvol, hamount, hcandles]
  rfl

structure HistoricalFundingRate where
  symbol : String := ""
  fundingRate : ℚ := 0
  settleTime : Int := 0

/-- A field the exchange sends as a number or as a string. -/
def readDecimal (U : JsonUtils) (json : Json) (key : String) : Except Fault ℚ :=
  match json.find? key with
  | some (.num n) => .ok (toStringValue n.toRat)
  | _ => U.readDecimalValue json key

def HistoricalFundingRate.fromJson (U : JsonUtils) (json : Json) : Except Fault HistoricalFundingRate := do
  let symbol ← U.readValue Json.getString json "symbol" ""
  let fundingRate ← readDecimal U json "fundingRate"
  let settleTime ← U.readValue Json.getInt64 json "settleTime" 0
  return { symbol, fundingRate, settleTime }

structure HistoricalFundingRates extends Response where
  pageSize : Int := 0
  totalCount : Int := 0
  totalPage : Int := 0
  currentPage : Int := 0
  resultList : List HistoricalFundingRate := []

def HistoricalFundingRates.fromJson (U : JsonUtils) (json : Json) : Except Fault HistoricalFundingRates := do
  let response ← Response.fromJson U {} json
  let data := response.data
  let pageSize ← U.readValue Json.getInt32 data "pageSize" 0
  let totalCount ← U.readValue Json.getInt32 data "totalCount" 0
  let totalPage ← U.readValue Json.getInt32 data "totalPage" 0
  let currentPage ← U.readValue Json.getInt32 data "currentPage" 0
  let resultList ← match data.find? "resultList" with
    | some (.arr items) => items.mapM (HistoricalFundingRate.fromJson U)
    | _ => pure []
  return { response with pageSize, totalCount, totalPage, currentPage, resultList }

end Futures

end MexcApi
