import MexcApi.ConnectorQueries
import MexcApi.HttpMessagesSound
import MexcApi.HttpSessionSound
import MexcApi.Reports

/-!
# What the connector reads of an exchange

From the exchange's books through its replies and the messages of the session
to the types of the connector: an exchange that answers a message from the
account which the message is accepted for is read exactly, whatever was logged
in before.
-/

namespace MexcApi

open Nlohmann

namespace Futures

/-! ## How a message is read -/

def targetPath (target : String) : String := String.ofList (target.toList.takeWhile (· ≠ '?'))

def parameter? (m : Message) (name : String) : Option String := (splitQuery (targetQuery m.target)).lookup name

/-- The records a message asks for, all of them if it names no symbol. -/
def requested {α : Type} (symbolOf : α → String) (m : Message) (records : List α) : List α :=
  match parameter? m "symbol" with
  | some symbol => records.filter fun record => symbolOf record = symbol
  | none => records

theorem unmarked_append {path name : String} (h : '?' ∉ path.toList) (hname : '?' ∉ name.toList) :
    '?' ∉ (path ++ name).toList := by
  rw [String.toList_append, List.mem_append]
  exact not_or.mpr ⟨h, hname⟩

theorem targetPath_append {path : String} (h : '?' ∉ path.toList) (query : String) :
    targetPath (path ++ "?" ++ query) = path := by
  unfold targetPath
  simp only [String.toList_append]
  rw [List.append_assoc, List.takeWhile_append_of_pos (unmarked h)]
  simp

theorem targetPath_query {path : String} (h : '?' ∉ path.toList) (query : String) :
    targetPath (if query.isEmpty then path else path ++ "?" ++ query) = path := by
  split
  · unfold targetPath
    rw [List.takeWhile_eq_self_iff.mpr (unmarked h), String.ofList_toList]
  · exact targetPath_append h query

section
variable (C : Platform) (p : HTTPSession.P) (ts : Int)

theorem methodGet_target (path : String) (parameters : Parameters) (isPublic : Bool) :
    (p.methodGet C ts path parameters isPublic).method = .get ∧
    (p.methodGet C ts path parameters isPublic).target =
      if (queryStr parameters).isEmpty then path else path ++ "?" ++ queryStr parameters := by
  have hprepared := HTTPSession.P.prepared_rest C ts p path parameters isPublic
  have hrest := p.request_rest C (p.prepared C ts path parameters isPublic) ""
  rw [HTTPSession.P.methodGet_eq]
  exact ⟨hrest.2.2.1.trans hprepared.1, hrest.2.2.2.trans hprepared.2.1⟩

theorem parameter_none {path : String} (h : '?' ∉ path.toList) (isPublic : Bool) (name : String) :
    parameter? (p.methodGet C ts path (Parameters.ofList []) isPublic) name = none := by
  unfold parameter?
  rw [(methodGet_target C p ts path _ isPublic).2, targetQuery_query h]
  rfl

theorem ofList_clean {parameters : List (String × String)}
    (h : ∀ p ∈ parameters, Separated.Clean '&' '=' (p.1.toList, p.2.toList)) : Clean (Parameters.ofList parameters) := by
  induction parameters using List.reverseRecOn with
  | nil => exact fun entry hentry => absurd hentry List.not_mem_nil
  | append_singleton rest p ih =>
    unfold Parameters.ofList at ih ⊢
    rw [List.foldl_append]
    exact (ih fun q hq => h q (List.mem_append_left _ hq)).insertOrAssign (h p (by simp))

theorem parameter_symbol {path symbol : String} (h : '?' ∉ path.toList) (hsymbol : '&' ∉ symbol.toList) (isPublic : Bool) :
    parameter? (p.methodGet C ts path (Parameters.ofList [("symbol", symbol)]) isPublic) "symbol" = some symbol := by
  have hname : '&' ∉ "symbol".toList ∧ '=' ∉ "symbol".toList := by decide
  have hentry : Separated.Clean '&' '=' ("symbol".toList, symbol.toList) := ⟨hname.1, hname.2, hsymbol⟩
  have hclean : Clean (Parameters.ofList [("symbol", symbol)]) := ofList_clean (List.forall_mem_singleton.mpr hentry)
  unfold parameter?
  rw [(methodGet_target C p ts path _ isPublic).2, targetQuery_query h, (splitQuery_queryStr _).mpr hclean]
  rfl

theorem requested_symbol {α : Type} (symbolOf : α → String) {path symbol : String} (h : '?' ∉ path.toList)
    (hsymbol : '&' ∉ symbol.toList) (isPublic : Bool) (records : List α) :
    requested symbolOf (p.methodGet C ts path
      (Parameters.ofList (if symbol ≠ "" then [("symbol", symbol)] else [])) isPublic)
      records = if symbol = "" then records else records.filter fun record => symbolOf record = symbol := by
  unfold requested
  by_cases hempty : symbol = ""
  · rw [if_neg (not_not.mpr hempty), parameter_none C p ts h, if_pos hempty]
  · rw [if_pos hempty, parameter_symbol C p ts h hsymbol, if_neg hempty]

end

/-! ## The exchange -/

/-- A reply that reports success, with the data that is asked for. -/
def Delivers (holds : Json → Prop) (reply : Except Fault HttpResponse) : Prop :=
  ∃ response json data, reply = .ok response ∧ response.result = 200 ∧ response.json = some json ∧
    json.find? "success" = some (.bool true) ∧ json.find? "code" = some (.num (.int 0)) ∧
    json.find? "data" = some data ∧ holds data

theorem Delivers.handled {holds : Json → Prop} {reply : Except Fault HttpResponse} (h : Delivers holds reply) {U : JsonUtils}
    (hU : U.Lawful) {α : Type} (fromJson : Json → Except Fault α) (toResponse : α → Response) (R : α → Prop)
    (hdecode : ∀ json response, Response.fromJson U {} json = .ok response → response.success = true → holds response.data →
      ∃ value, fromJson json = .ok value ∧ toResponse value = response ∧ R value) :
    ∃ response value, reply = .ok response ∧ checkResponse response = .ok response ∧
      handleMEXCResponse fromJson toResponse response = .ok value ∧ R value := by
  obtain ⟨response, json, data, hreply, hresult, hjson, hsuccess, hcode, hdata, hholds⟩ := h
  obtain ⟨value, hvalue, hinherited, hR⟩ := hdecode json _ (Response.fromJson_success hU hcode hsuccess hdata) rfl hholds
  refine ⟨response, value, hreply, checkResponse_ok hresult, handleMEXCResponse_ok hjson hvalue ?_, hR⟩
  rw [hinherited]

/-! ## What a caller is told -/

structure OpenPosition.Told (convertTo round : ℚ → Double) (pos : OpenPosition) (told : Position) : Prop where
  symbol : told.symbol = pos.symbol
  buy : told.side = .Buy ↔ pos.positionType = 1
  size : told.size = convertTo pos.holdVol
  avgPrice : told.avgPrice = convertTo pos.openAvgPrice
  value : told.value = Double.mul round (convertTo pos.holdVol) (convertTo pos.openAvgPrice)
  createdTime : told.createdTime = pos.createTime
  updatedTime : told.updatedTime = pos.updateTime
  leverage : told.leverage = .finite pos.leverage

structure WalletBalance.Told (convertTo : ℚ → Double) (wb : WalletBalance) (told : Balance) : Prop where
  balance : told.balance = convertTo wb.equity
  customData : told.customData = [
    ("availableBalance", convertTo wb.availableBalance), ("cashBalance", convertTo wb.cashBalance),
    ("frozenBalance", convertTo wb.frozenBalance), ("unrealized", convertTo wb.unrealized)]

structure ContractFundingRate.Told (convertTo : ℚ → Double) (fr : ContractFundingRate) (told : FundingRate) : Prop where
  symbol : told.symbol = fr.symbol
  fundingRate : told.fundingRate = convertTo fr.fundingRate
  fundingTime : told.fundingTime = fr.nextSettleTime

structure ContractDetail.Told (d : ContractDetail) (told : Symbol) : Prop where
  symbol : told.symbol = d.symbol
  displayName : told.displayName = d.displayNameEn
  marketCategory : told.marketCategory = .Futures
  baseAsset : told.baseAsset = d.baseCoin
  quoteAsset : told.quoteAsset = d.quoteCoin
  marginAsset : told.marginAsset = d.settleCoin
  contractSize : told.contractSize = d.contractSize
  minVol : told.minVol = d.minVol
  maxVol : told.maxVol = d.maxVol
  volUnit : told.volUnit = d.volUnit

structure Ticker.Told (convertTo : ℚ → Double) (ticker : Ticker) (told : TickerPrice) : Prop where
  bidPrice : told.bidPrice = convertTo ticker.bid1
  askPrice : told.askPrice = convertTo ticker.ask1
  volume24h : told.volume24h = convertTo ticker.volume24
  turnover24h : told.turnover24h = convertTo ticker.amount24
  time : told.time = ticker.timestamp

theorem toPosition_told (convertTo round : ℚ → Double) (pos : OpenPosition) :
    pos.Told convertTo round (toPosition convertTo round pos) := by
  refine ⟨rfl, ?_, rfl, rfl, rfl, rfl, rfl, rfl⟩
  unfold toPosition
  by_cases hlong : pos.positionType = 1 <;> simp [hlong]

theorem told_map {α β : Type} {Told : α → β → Prop} {f : α → β} (h : ∀ a, Told a (f a)) (records : List α) :
    List.Forall₂ Told records (records.map f) :=
  List.forall₂_map_right_iff.mpr (List.forall₂_same.mpr fun a _ => h a)

/-! ## The exchange's books -/

structure Account where
  positions : List OpenPosition
  wallet : String → WalletBalance

def Account.holding (account : Account) (symbol : String) : List OpenPosition :=
  if symbol = "" then account.positions else account.positions.filter fun pos => pos.symbol = symbol

/-- Messages that are accepted for the credentials are answered from the account. -/
structure Account.Serves (account : Account) (C : Platform) (c : Credentials) (network : Network) : Prop where
  positions : ∀ m : Message, m.method = .get → Accepted C m c →
    targetPath m.target = "/api/v1/private/position/open_positions" →
    Delivers (ReportsAll OpenPosition.members (requested OpenPosition.symbol m account.positions)) (network m)
  wallet : ∀ (m : Message) (currency : String), m.method = .get → Accepted C m c →
    targetPath m.target = "/api/v1/private/account/asset/" ++ currency →
    Delivers (Reports (account.wallet currency).members) (network m)

structure Market where
  serverTime : Int
  details : List ContractDetail
  rates : List ContractFundingRate
  tickers : List Ticker

def Market.listed (market : Market) (symbol : String) : List ContractDetail :=
  if symbol = "" then market.details else market.details.filter fun d => d.symbol = symbol

/-- Anyone is told the market. -/
structure Market.Serves (market : Market) (network : Network) : Prop where
  serverTime : ∀ m : Message, m.method = .get → targetPath m.target = "/api/v1/contract/ping" →
    Delivers (· = .num (.int market.serverTime)) (network m)
  details : ∀ m : Message, m.method = .get → targetPath m.target = "/api/v1/contract/detail" →
    Delivers (ReportsAll ContractDetail.members (requested ContractDetail.symbol m market.details)) (network m)
  rates : ∀ m : Message, m.method = .get → targetPath m.target = "/api/v1/contract/funding_rate" →
    Delivers (ReportsAll ContractFundingRate.members market.rates) (network m)
  rate : ∀ m : Message, ∀ r ∈ market.rates, m.method = .get →
    targetPath m.target = "/api/v1/contract/funding_rate/" ++ r.symbol → Delivers (Reports r.members) (network m)
  ticker : ∀ m : Message, ∀ t ∈ market.tickers, m.method = .get → targetPath m.target = "/api/v1/contract/ticker" →
    parameter? m "symbol" = some t.symbol → Delivers (Reports t.members) (network m)

/-! ## The client -/

section
variable {U : JsonUtils} (hU : U.Lawful) (hD : U.ReadsDecimals) (convertTo round : ℚ → Double)
  {httpSession : MexcApi.HTTPSession}
include hU

theorem getServerTime_delivered {time : Int}
    (h : Delivers (· = .num (.int time)) (httpSession (.methodGet "/api/v1/contract/ping" [] true))) :
    getServerTime U httpSession = .ok time := by
  obtain ⟨response, value, hreply, hcheck, hhandle, hvalue⟩ := h.handled hU (ServerTime.fromJson U)
    ServerTime.toResponse (fun value => value.serverTime = time) <| by
      intro json response hresponse _ hholds
      refine ⟨{ response with serverTime := time }, ?_, rfl, rfl⟩
      unfold ServerTime.fromJson
      rw [hresponse, ok_bind, hholds]
      rfl
  unfold getServerTime RESTClient.getServerTime
  rw [hreply, ok_bind, hcheck, ok_bind, hhandle, ok_bind, hvalue]
  rfl

theorem getSymbolInfo_delivered {symbol : String} {details : List ContractDetail}
    (h : Delivers (ReportsAll ContractDetail.members details) (httpSession (.methodGet "/api/v1/contract/detail"
      (if symbol ≠ "" then [("symbol", symbol)] else []) true))) :
    getSymbolInfo U httpSession symbol = .ok (details.map toSymbol) := by
  obtain ⟨response, value, hreply, hcheck, hhandle, hvalue⟩ := h.handled hU (ContractDetails.fromJson U)
    ContractDetails.toResponse (fun value => value.contractDetails = details) <| by
      intro json response hresponse _ ⟨items, hdata, hitems⟩
      obtain ⟨read, hread, hsame⟩ := mapM_forall₂ (g := id) (k := id)
        (fun d item h => ⟨d, contractDetail_reported hU h, rfl⟩) hitems
      rw [List.map_id, List.map_id] at hsame
      refine ⟨{ response with contractDetails := read }, ?_, rfl, hsame⟩
      unfold ContractDetails.fromJson
      rw [hresponse, ok_bind, hdata, arrayItems, hread]
      rfl
  unfold getSymbolInfo RESTClient.getContractDetails
  dsimp only
  rw [hreply, ok_bind, hcheck, ok_bind, hhandle, ok_bind, ← hvalue]
  rfl

include hD

theorem getPositionInfo_delivered {symbol : String} {positions : List OpenPosition}
    (h : Delivers (ReportsAll OpenPosition.members positions) (httpSession (.methodGet
      "/api/v1/private/position/open_positions" (if symbol ≠ "" then [("symbol", symbol)] else []) false))) :
    getPositionInfo convertTo U httpSession round symbol = .ok (positions.map (toPosition convertTo round)) := by
  obtain ⟨response, value, hreply, hcheck, hhandle, hvalue⟩ := h.handled hU (OpenPositions.fromJson U)
    OpenPositions.toResponse (fun value => value.positions = positions) <| by
      intro json response hresponse _ ⟨items, hdata, hitems⟩
      obtain ⟨read, hread, hsame⟩ := mapM_forall₂ (g := id) (k := id)
        (fun pos item h => ⟨pos, openPosition_reported hU hD h, rfl⟩) hitems
      rw [List.map_id, List.map_id] at hsame
      refine ⟨{ response with positions := read }, ?_, rfl, hsame⟩
      unfold OpenPositions.fromJson
      rw [hresponse, ok_bind, hdata, arrayItems, hread]
      rfl
  unfold getPositionInfo RESTClient.getOpenPositions
  dsimp only
  rw [hreply, ok_bind, hcheck, ok_bind, hhandle, ok_bind, ← hvalue]
  rfl

theorem getFundingRates_delivered {rates : List ContractFundingRate}
    (h : Delivers (ReportsAll ContractFundingRate.members rates)
      (httpSession (.methodGet "/api/v1/contract/funding_rate" [] true))) :
    getFundingRates convertTo U httpSession = .ok (rates.map (toNextRate convertTo)) := by
  obtain ⟨response, value, hreply, hcheck, hhandle, hvalue⟩ := h.handled hU (ContractFundingRates.fromJson U)
    ContractFundingRates.toResponse
    (fun value => value.fundingRates.map (toNextRate convertTo) = rates.map (toNextRate convertTo)) <| by
      intro json response hresponse _ ⟨items, hdata, hitems⟩
      -- an entry is decoded as the data of a reply of its own, which reports no success
      have hentry : ∀ (r : ContractFundingRate) item, Reports r.members item →
          ∃ r', ContractFundingRate.fromJson U (.obj [("data", item)]) = .ok r' ∧
            toNextRate convertTo r' = toNextRate convertTo r := by
        intro r item hr
        have hcode : U.readValue Json.getInt32 (.obj [("data", item)]) "code" 0 = .ok 0 := hU.absent _ _ rfl
        have hsuccess : U.readValue Json.getBool (.obj [("data", item)]) "success" false = .ok false := hU.absent _ _ rfl
        have hwrapped : Response.fromJson U {} (.obj [("data", item)]) =
            .ok { code := 0, success := false, data := item } := by
          unfold Response.fromJson
          rw [hcode, hsuccess]
          rfl
        exact ⟨_, fundingRate_reported hU hD hwrapped hr, rfl⟩
      obtain ⟨read, hread, hsame⟩ := mapM_forall₂ hentry hitems
      refine ⟨{ response with fundingRates := read }, ?_, rfl, hsame⟩
      unfold ContractFundingRates.fromJson
      rw [hresponse, ok_bind, hdata, Json.elements, hread]
      rfl
  unfold getFundingRates RESTClient.getContractFundingRates
  rw [hreply, ok_bind, hcheck, ok_bind, hhandle, ok_bind, ← hvalue]
  rfl

theorem getFundingRate_delivered {r : ContractFundingRate}
    (h : Delivers (Reports r.members) (httpSession (.methodGet ("/api/v1/contract/funding_rate/" ++ r.symbol) [] true))) :
    getFundingRate convertTo U httpSession r.symbol = .ok (toNextRate convertTo r) := by
  obtain ⟨response, value, hreply, hcheck, hhandle, hvalue⟩ := h.handled hU (ContractFundingRate.fromJson U)
    ContractFundingRate.toResponse (fun value => toNextRate convertTo value = toNextRate convertTo r)
    fun json response hresponse _ hr => ⟨_, fundingRate_reported hU hD hresponse hr, rfl, rfl⟩
  unfold getFundingRate RESTClient.getContractFundingRate
  rw [hreply, ok_bind, hcheck, ok_bind, hhandle, ok_bind, hvalue]
  rfl

theorem getTickerPrice_delivered {t : Ticker}
    (h : Delivers (Reports t.members) (httpSession (.methodGet "/api/v1/contract/ticker" [("symbol", t.symbol)] true))) :
    getTickerPrice convertTo U httpSession t.symbol = .ok (toTickerPrice convertTo t) := by
  obtain ⟨response, value, hreply, hcheck, hhandle, hvalue⟩ := h.handled hU (Ticker.fromJson U)
    Ticker.toResponse (fun value => toTickerPrice convertTo value = toTickerPrice convertTo t)
    fun json response hresponse _ ht => ⟨_, ticker_reported hU hD hresponse ht, rfl, rfl⟩
  unfold getTickerPrice RESTClient.getContractTicker
  rw [hreply, ok_bind, hcheck, ok_bind, hhandle, ok_bind, hvalue]
  rfl

theorem getAccountBalance_delivered {currency : String} {wb : WalletBalance}
    (h : Delivers (Reports wb.members) (httpSession (.methodGet ("/api/v1/private/account/asset/" ++ currency) [] false))) :
    getAccountBalance convertTo U httpSession currency = .ok (toBalance convertTo wb) := by
  obtain ⟨response, value, hreply, hcheck, hhandle, hvalue⟩ := h.handled hU (WalletBalance.fromJson U)
    WalletBalance.toResponse (fun value => toBalance convertTo value = toBalance convertTo wb)
    fun json response hresponse _ hwb => ⟨_, walletBalance_reported hU hD hresponse hwb, rfl, rfl⟩
  unfold getAccountBalance RESTClient.getWalletBalance
  rw [hreply, ok_bind, hcheck, ok_bind, hhandle, ok_bind, hvalue]
  rfl

end

/-! ## Replies of an exchange -/

def reported (data : Json) : Except Fault HttpResponse :=
  .ok { result := 200, body := "", json := some (.obj [("code", .num (.int 0)), ("data", data), ("success", .bool true)]) }

theorem reported_delivers {holds : Json → Prop} {data : Json} (h : holds data) : Delivers holds (reported data) :=
  ⟨_, _, data, rfl, rfl, rfl, rfl, rfl, rfl, h⟩

theorem reportsAll_map {α : Type} {members : α → List (String × Member)} {encode : α → Json} {records : List α}
    (h : ∀ record ∈ records, Reports (members record) (encode record)) :
    ReportsAll members records (.arr (records.map encode)) :=
  ⟨_, rfl, List.forall₂_map_right_iff.mpr (List.forall₂_same.mpr h)⟩

theorem requested_subset {α : Type} (symbolOf : α → String) (m : Message) (records : List α) :
    requested symbolOf m records ⊆ records := by
  unfold requested
  cases parameter? m "symbol" with
  | none => exact List.Subset.refl records
  | some symbol => exact List.filter_subset_self _

theorem decimal_int (n : Int) : (Member.decimal n).In (.num (.int n)) :=
  Or.inr ⟨.int n, rfl, rfl, n * 1000000, by push_cast; rfl⟩

/-! ## The connector -/

section
variable {U : JsonUtils} (hU : U.Lawful) (hD : U.ReadsDecimals) (convertTo round : ℚ → Double) (C : Platform) (ts : Int)
include hU hD

/-- The account of the last login is read, in full and in order. -/
theorem account_reported (es : List Client.Event) {account : Account} {network : Network}
    (hserves : account.Serves C (inForce es) network) :
    (∀ symbol, '&' ∉ symbol.toList → ∃ positions,
      getPositionInfo convertTo U ((Client.run C es).httpSession.perform C ts network) round symbol = .ok positions ∧
        List.Forall₂ (OpenPosition.Told convertTo round) (account.holding symbol) positions) ∧
    ∀ currency, '?' ∉ currency.toList → ∃ balance,
      getAccountBalance convertTo U ((Client.run C es).httpSession.perform C ts network) currency = .ok balance ∧
        (account.wallet currency).Told convertTo balance := by
  rw [httpSession_run]
  constructor
  · intro symbol hsymbol
    refine ⟨_, ?_, told_map (toPosition_told convertTo round) _⟩
    have hpath : '?' ∉ "/api/v1/private/position/open_positions".toList := by decide
    apply getPositionInfo_delivered hU hD
    have htarget := methodGet_target C (inForce es).session ts "/api/v1/private/position/open_positions"
      (Parameters.ofList (if symbol ≠ "" then [("symbol", symbol)] else [])) false
    have hdelivers := hserves.positions _ htarget.1 (HTTPSession.P.accepted_get C ts (inForce es) hpath _)
      (by rw [htarget.2, targetPath_query hpath])
    rw [requested_symbol C _ ts _ hpath hsymbol] at hdelivers
    exact hdelivers
  · intro currency hcurrency
    refine ⟨toBalance convertTo (account.wallet currency), ?_, ⟨rfl, rfl⟩⟩
    have hpath : '?' ∉ ("/api/v1/private/account/asset/" ++ currency).toList := unmarked_append (by decide) hcurrency
    apply getAccountBalance_delivered hU hD
    have htarget := methodGet_target C (inForce es).session ts ("/api/v1/private/account/asset/" ++ currency)
      (Parameters.ofList []) false
    exact hserves.wallet _ currency htarget.1 (HTTPSession.P.accepted_get C ts (inForce es) hpath _)
      (by rw [htarget.2, targetPath_query hpath])

end

def longPosition : OpenPosition where
  positionId := 7
  symbol := "BTC_USDT"
  positionType := 1
  openType := 2
  state := 1
  holdVol := (3 : Int)
  frozenVol := (0 : Int)
  holdAvgPrice := (50000 : Int)
  openAvgPrice := (50000 : Int)
  liquidatePrice := (41000 : Int)
  oim := (7500 : Int)
  im := (7500 : Int)
  holdFee := (0 : Int)
  realised := (-3 : Int)
  leverage := 20
  createTime := 1700000000000
  updateTime := 1700000000500

def longPositionJson : Json := .obj [
  ("createTime", .num (.int 1700000000000)), ("frozenVol", .num (.int 0)), ("holdAvgPrice", .num (.int 50000)),
  ("holdFee", .num (.int 0)), ("holdVol", .num (.int 3)), ("im", .num (.int 7500)), ("leverage", .num (.int 20)),
  ("liquidatePrice", .num (.int 41000)), ("oim", .num (.int 7500)), ("openAvgPrice", .num (.int 50000)),
  ("openType", .num (.int 2)), ("positionId", .num (.int 7)), ("positionType", .num (.int 1)),
  ("realised", .num (.int (-3))), ("state", .num (.int 1)), ("symbol", .str "BTC_USDT"),
  ("updateTime", .num (.int 1700000000500))]

theorem longPosition_reports : Reports longPosition.members longPositionJson := by
  intro m hm
  simp only [OpenPosition.members, longPosition, List.mem_cons, List.not_mem_nil, or_false] at hm
  rcases hm with rfl | rfl | rfl | rfl | rfl | rfl | rfl | rfl | rfl | rfl | rfl | rfl | rfl | rfl | rfl | rfl | rfl <;>
    first
    | exact ⟨_, rfl, rfl⟩
    | exact ⟨_, rfl, decimal_int _⟩

/-- 12.5 -/
def someCoins : DecimalText := ⟨false, [⟨1, by decide⟩, ⟨2, by decide⟩], [⟨5, by decide⟩], List.cons_ne_nil _ _⟩

def noCoins : DecimalText := ⟨false, [⟨0, by decide⟩], [], List.cons_ne_nil _ _⟩

def someWallet (currency : String) : WalletBalance where
  currency := currency
  positionMargin := noCoins.value
  availableBalance := someCoins.value
  cashBalance := someCoins.value
  frozenBalance := noCoins.value
  equity := someCoins.value
  unrealized := noCoins.value
  bonus := noCoins.value

def someWalletJson (currency : String) : Json := .obj [
  ("availableBalance", .str someCoins.text), ("bonus", .str noCoins.text), ("cashBalance", .str someCoins.text),
  ("currency", .str currency), ("equity", .str someCoins.text), ("frozenBalance", .str noCoins.text),
  ("positionMargin", .str noCoins.text), ("unrealized", .str noCoins.text)]

theorem someWallet_reports (currency : String) : Reports (someWallet currency).members (someWalletJson currency) := by
  intro m hm
  simp only [WalletBalance.members, someWallet, List.mem_cons, List.not_mem_nil, or_false] at hm
  rcases hm with rfl | rfl | rfl | rfl | rfl | rfl | rfl | rfl <;>
    first
    | exact ⟨_, rfl, rfl⟩
    | exact ⟨_, rfl, _, rfl, rfl⟩

def longAccount : Account := ⟨[longPosition], someWallet⟩

def accountExchange : Network := fun m =>
  if targetPath m.target = "/api/v1/private/position/open_positions" then
    reported (.arr ((requested OpenPosition.symbol m [longPosition]).map fun _ => longPositionJson))
  else reported (someWalletJson (String.ofList ((targetPath m.target).toList.drop 30)))

theorem longAccount_serves (C : Platform) (c : Credentials) : longAccount.Serves C c accountExchange where
  positions m _ _ hpath := by
    unfold accountExchange
    rw [if_pos hpath]
    apply reported_delivers
    apply reportsAll_map
    intro record hrecord
    rw [List.mem_singleton.mp (requested_subset _ m _ hrecord)]
    exact longPosition_reports
  wallet m currency _ _ hpath := by
    have hlength : "/api/v1/private/account/asset/".toList.length = 30 := by decide
    have hdrop : (targetPath m.target).toList.drop 30 = currency.toList := by
      rw [hpath, String.toList_append, ← hlength, List.drop_left]
    have htake : (targetPath m.target).toList.take 30 = "/api/v1/private/account/asset/".toList := by
      rw [hpath, String.toList_append, ← hlength, List.take_left]
    unfold accountExchange
    rw [if_neg, hdrop, String.ofList_toList]
    · exact reported_delivers (someWallet_reports currency)
    · intro hother
      rw [hother] at htake
      exact absurd htake (by decide)

/-- With an API key the position and the balance of its account are read. -/
theorem account_reported_long :
    (∀ symbol, '&' ∉ symbol.toList → ∃ positions,
      getPositionInfo .finite .signed ((Client.run cancelPlatform [.login ("mx0vgl", "2a7f", "")]).httpSession.perform
        cancelPlatform 1700000000000 accountExchange) .finite symbol = .ok positions ∧
          List.Forall₂ (OpenPosition.Told .finite .finite) (longAccount.holding symbol) positions) ∧
    ∀ currency, '?' ∉ currency.toList → ∃ balance,
      getAccountBalance .finite .signed ((Client.run cancelPlatform [.login ("mx0vgl", "2a7f", "")]).httpSession.perform
        cancelPlatform 1700000000000 accountExchange) currency = .ok balance ∧
          (longAccount.wallet currency).Told .finite balance :=
  account_reported JsonUtils.signed_lawful JsonUtils.signed_readsDecimals .finite .finite cancelPlatform 1700000000000 _
    (longAccount_serves cancelPlatform _)

section
variable {U : JsonUtils} (hU : U.Lawful) (hD : U.ReadsDecimals) (convertTo : ℚ → Double) (C : Platform) (ts : Int)
include hU hD

/-- The market is read by any session. -/
theorem market_reported (p : HTTPSession.P) {market : Market} {network : Network} (hserves : market.Serves network) :
    getServerTime U (p.perform C ts network) = .ok market.serverTime ∧
    (∀ symbol, '&' ∉ symbol.toList → ∃ symbols,
      getSymbolInfo U (p.perform C ts network) symbol = .ok symbols ∧
        List.Forall₂ ContractDetail.Told (market.listed symbol) symbols) ∧
    (∃ rates, getFundingRates convertTo U (p.perform C ts network) = .ok rates ∧
      List.Forall₂ (ContractFundingRate.Told convertTo) market.rates rates) ∧
    (∀ r ∈ market.rates, '?' ∉ r.symbol.toList → ∃ rate,
      getFundingRate convertTo U (p.perform C ts network) r.symbol = .ok rate ∧ r.Told convertTo rate) ∧
    ∀ t ∈ market.tickers, '&' ∉ t.symbol.toList → ∃ price,
      getTickerPrice convertTo U (p.perform C ts network) t.symbol = .ok price ∧ t.Told convertTo price := by
  refine ⟨?_, ?_, ?_, ?_, ?_⟩
  · have hpath : '?' ∉ "/api/v1/contract/ping".toList := by decide
    have htarget := methodGet_target C p ts "/api/v1/contract/ping" (Parameters.ofList []) true
    apply getServerTime_delivered hU
    exact hserves.serverTime _ htarget.1 (by rw [htarget.2, targetPath_query hpath])
  · intro symbol hsymbol
    refine ⟨(market.listed symbol).map toSymbol, ?_,
      told_map (fun _ => ⟨rfl, rfl, rfl, rfl, rfl, rfl, rfl, rfl, rfl, rfl⟩) _⟩
    have hpath : '?' ∉ "/api/v1/contract/detail".toList := by decide
    have htarget := methodGet_target C p ts "/api/v1/contract/detail"
      (Parameters.ofList (if symbol ≠ "" then [("symbol", symbol)] else [])) true
    apply getSymbolInfo_delivered hU
    have hdelivers := hserves.details _ htarget.1 (by rw [htarget.2, targetPath_query hpath])
    rw [requested_symbol C _ ts _ hpath hsymbol] at hdelivers
    exact hdelivers
  · refine ⟨market.rates.map (toNextRate convertTo), ?_, told_map (fun _ => ⟨rfl, rfl, rfl⟩) _⟩
    have hpath : '?' ∉ "/api/v1/contract/funding_rate".toList := by decide
    have htarget := methodGet_target C p ts "/api/v1/contract/funding_rate" (Parameters.ofList []) true
    apply getFundingRates_delivered hU hD
    exact hserves.rates _ htarget.1 (by rw [htarget.2, targetPath_query hpath])
  · intro r hr hsymbol
    refine ⟨toNextRate convertTo r, ?_, ⟨rfl, rfl, rfl⟩⟩
    have hpath : '?' ∉ ("/api/v1/contract/funding_rate/" ++ r.symbol).toList := unmarked_append (by decide) hsymbol
    have htarget := methodGet_target C p ts ("/api/v1/contract/funding_rate/" ++ r.symbol) (Parameters.ofList []) true
    apply getFundingRate_delivered hU hD
    exact hserves.rate _ r hr htarget.1 (by rw [htarget.2, targetPath_query hpath])
  · intro t ht hsymbol
    refine ⟨toTickerPrice convertTo t, ?_, ⟨rfl, rfl, rfl, rfl, rfl⟩⟩
    have hpath : '?' ∉ "/api/v1/contract/ticker".toList := by decide
    have htarget := methodGet_target C p ts "/api/v1/contract/ticker" (Parameters.ofList [("symbol", t.symbol)]) true
    apply getTickerPrice_delivered hU hD
    exact hserves.ticker _ t ht htarget.1 (by rw [htarget.2, targetPath_query hpath])
      (parameter_symbol C p ts hpath hsymbol true)

end

def perpetual : ContractDetail where
  symbol := "BTC_USDT"
  displayNameEn := "BTC_USDT PERPETUAL"
  baseCoin := "BTC"
  quoteCoin := "USDT"
  settleCoin := "USDT"
  contractSize := (1 : Int)
  maxVol := 375000
  pricePrecision := 1
  conceptPlate := ["mc-trade-zone-pow"]

def perpetualJson : Json := .obj [
  ("apiAllowed", .bool true), ("automaticDelivery", .num (.int 0)), ("baseCoin", .str "BTC"),
  ("conceptPlate", .arr [.str "mc-trade-zone-pow"]), ("contractSize", .num (.int 1)),
  ("displayNameEn", .str "BTC_USDT PERPETUAL"), ("maxVol", .num (.int 375000)), ("minVol", .num (.int 1)),
  ("pricePrecision", .num (.int 1)), ("priceUnit", .num (.int 1)), ("quoteCoin", .str "USDT"),
  ("settleCoin", .str "USDT"), ("state", .num (.int 0)), ("symbol", .str "BTC_USDT"), ("volPrecision", .num (.int 0)),
  ("volUnit", .num (.int 1))]

theorem perpetual_reports : Reports perpetual.members perpetualJson := by
  intro m hm
  simp only [ContractDetail.members, perpetual, List.mem_cons, List.not_mem_nil, or_false] at hm
  rcases hm with rfl | rfl | rfl | rfl | rfl | rfl | rfl | rfl | rfl | rfl | rfl | rfl | rfl | rfl | rfl | rfl <;>
    first
    | exact ⟨_, rfl, rfl⟩
    | exact ⟨_, rfl, _, rfl, rfl⟩

def perpetualRate : ContractFundingRate where
  symbol := "BTC_USDT"
  fundingRate := smallRate.value
  maxFundingRate := someCoins.value
  minFundingRate := noCoins.value
  collectCycle := 8
  nextSettleTime := 1700006400000
  timestamp := 1700000000000

def perpetualRateJson : Json := .obj [
  ("collectCycle", .num (.int 8)), ("fundingRate", .str smallRate.text), ("maxFundingRate", .str someCoins.text),
  ("minFundingRate", .str noCoins.text), ("nextSettleTime", .num (.int 1700006400000)), ("symbol", .str "BTC_USDT"),
  ("timestamp", .num (.int 1700000000000))]

theorem perpetualRate_reports : Reports perpetualRate.members perpetualRateJson := by
  intro m hm
  simp only [ContractFundingRate.members, perpetualRate, List.mem_cons, List.not_mem_nil, or_false] at hm
  rcases hm with rfl | rfl | rfl | rfl | rfl | rfl | rfl <;>
    first
    | exact ⟨_, rfl, rfl⟩
    | exact ⟨_, rfl, Or.inl ⟨_, rfl, rfl⟩⟩

def perpetualTicker : Ticker where
  symbol := "BTC_USDT"
  lastPrice := (50000 : Int)
  bid1 := (49999 : Int)
  ask1 := (50001 : Int)
  volume24 := (1200 : Int)
  amount24 := (6000000 : Int)
  holdVol := (800 : Int)
  timestamp := 1700000000000

def perpetualTickerJson : Json := .obj [
  ("amount24", .num (.int 6000000)), ("ask1", .num (.int 50001)), ("bid1", .num (.int 49999)),
  ("holdVol", .num (.int 800)), ("lastPrice", .num (.int 50000)), ("symbol", .str "BTC_USDT"),
  ("timestamp", .num (.int 1700000000000)), ("volume24", .num (.int 1200))]

theorem perpetualTicker_reports : Reports perpetualTicker.members perpetualTickerJson := by
  intro m hm
  simp only [Ticker.members, perpetualTicker, List.mem_cons, List.not_mem_nil, or_false] at hm
  rcases hm with rfl | rfl | rfl | rfl | rfl | rfl | rfl | rfl <;>
    first
    | exact ⟨_, rfl, rfl⟩
    | exact ⟨_, rfl, decimal_int _⟩

def perpetualMarket : Market := ⟨1700000000000, [perpetual], [perpetualRate], [perpetualTicker]⟩

def marketExchange : Network := fun m =>
  if targetPath m.target = "/api/v1/contract/ping" then reported (.num (.int 1700000000000))
  else if targetPath m.target = "/api/v1/contract/detail" then
    reported (.arr ((requested ContractDetail.symbol m [perpetual]).map fun _ => perpetualJson))
  else if targetPath m.target = "/api/v1/contract/funding_rate" then reported (.arr [perpetualRateJson])
  else if targetPath m.target = "/api/v1/contract/ticker" then reported perpetualTickerJson
  else reported perpetualRateJson

theorem perpetualMarket_serves : perpetualMarket.Serves marketExchange where
  serverTime m _ hpath := by
    simp only [marketExchange, hpath, if_true]
    exact reported_delivers rfl
  details m _ hpath := by
    simp +decide only [marketExchange, hpath, if_true, if_false]
    apply reported_delivers
    apply reportsAll_map
    intro record hrecord
    rw [List.mem_singleton.mp (requested_subset _ m _ hrecord)]
    exact perpetual_reports
  rates m _ hpath := by
    simp +decide only [marketExchange, hpath, if_true, if_false]
    exact reported_delivers ⟨_, rfl, .cons perpetualRate_reports .nil⟩
  rate m r hr _ hpath := by
    rw [List.mem_singleton.mp hr] at hpath ⊢
    simp +decide only [marketExchange, hpath, perpetualRate, if_false]
    exact reported_delivers perpetualRate_reports
  ticker m t ht _ hpath _ := by
    rw [List.mem_singleton.mp ht]
    simp +decide only [marketExchange, hpath, if_true, if_false]
    exact reported_delivers perpetualTicker_reports

theorem market_reported_perpetual :
    getServerTime .signed ((HTTPSession.withKey "" "").perform cancelPlatform 1700000000000 marketExchange) =
      .ok perpetualMarket.serverTime ∧
    (∀ symbol, '&' ∉ symbol.toList → ∃ symbols,
      getSymbolInfo .signed ((HTTPSession.withKey "" "").perform cancelPlatform 1700000000000 marketExchange) symbol =
        .ok symbols ∧ List.Forall₂ ContractDetail.Told (perpetualMarket.listed symbol) symbols) ∧
    (∃ rates, getFundingRates .finite .signed ((HTTPSession.withKey "" "").perform cancelPlatform 1700000000000
      marketExchange) = .ok rates ∧ List.Forall₂ (ContractFundingRate.Told .finite) perpetualMarket.rates rates) ∧
    (∀ r ∈ perpetualMarket.rates, '?' ∉ r.symbol.toList → ∃ rate,
      getFundingRate .finite .signed ((HTTPSession.withKey "" "").perform cancelPlatform 1700000000000 marketExchange)
        r.symbol = .ok rate ∧ r.Told .finite rate) ∧
    ∀ t ∈ perpetualMarket.tickers, '&' ∉ t.symbol.toList → ∃ price,
      getTickerPrice .finite .signed ((HTTPSession.withKey "" "").perform cancelPlatform 1700000000000 marketExchange)
        t.symbol = .ok price ∧ t.Told .finite price :=
  market_reported JsonUtils.signed_lawful JsonUtils.signed_readsDecimals .finite cancelPlatform 1700000000000
    (HTTPSession.withKey "" "") perpetualMarket_serves

end Futures

end MexcApi
