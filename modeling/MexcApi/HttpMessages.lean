import MexcApi.HeaderFields
import MexcApi.HttpSession
import MexcApi.RestEndpoints

/-!
# The messages of the HTTP sessions

Both sessions down to what they write to the connection, and the clients as
far as they replace their session. The connection itself, and what it throws,
is a function from messages to replies.
-/

namespace MexcApi

open Nlohmann

/-- Names of fields are compared without regard to case. -/
def fieldKey (name : String) : List Char := name.toList.map Char.toLower

def Request.set (req : Request) (name value : String) : Request :=
  { req with fields := HeaderFields.set fieldKey name value req.fields }

/-- A request as it is written to the connection to `uri`. -/
structure Message extends Request where
  uri : String
  body : String := ""
  deriving DecidableEq

def Message.get? (m : Message) (name : String) : Option String := HeaderFields.get? fieldKey name m.fields

abbrev Network := Message → Except Fault HttpResponse

/-- With MD5 and its hex digest, `dump` of nlohmann::json and Boost's name. -/
structure Platform extends Crypto where
  EVP_md5 : String → Vector UInt8 16
  md5ToHex : Vector UInt8 16 → String
  dump : Json → String
  BOOST_BEAST_VERSION_STRING : String

def md5Hex (C : Platform) (input : String) : String := C.md5ToHex (C.EVP_md5 input)

def substr (s : String) (pos : Nat) : Except Fault String :=
  if pos > s.toList.length then .error (.runtimeError "basic_string::substr") else .ok (String.ofList (s.toList.drop pos))

def Parameters.ofList (parameters : List (String × String)) : Parameters :=
  parameters.foldl (fun m p => m.insertOrAssign p.1 p.2) ⟨[], List.Pairwise.nil⟩

/-! ## The futures session -/

namespace Futures

inductive AuthSource where
  | OpenAPI
  | Web
  deriving DecidableEq, Repr

def API_URI_FUTURES : String := "contract.mexc.com"

def API_URI_FUTURES_WEB : String := "futures.mexc.com"

namespace HTTPSession

structure P where
  apiKey : String := ""
  apiSecret : String := ""
  webToken : String := ""
  authSource : AuthSource := .OpenAPI
  uri : String := API_URI_FUTURES
  deriving DecidableEq

/-- The constructor with an API key. -/
def withKey (apiKey apiSecret : String) : P :=
  { apiKey, apiSecret, authSource := .OpenAPI, uri := API_URI_FUTURES }

/-- The constructor with a token. -/
def withToken (webToken : String) (source : AuthSource) : P :=
  { webToken, authSource := source, uri := if source = .Web then API_URI_FUTURES_WEB else API_URI_FUTURES }

namespace P

section
variable (C : Platform) (p : P) (ts : Int)

def authenticateGet (req : Request) (parameters : Parameters) : Request :=
  let digest := C.HMAC p.apiSecret (strToSign p.apiKey ts parameters)
  let req := req.set "ApiKey" p.apiKey
  let req := req.set "Content-Type" "application/json"
  let req := req.set "Request-Time" (toString ts)
  req.set "Signature" (C.stringToHex digest)

def authenticateWebGet (req : Request) : Request := req.set "Authorization" p.webToken

def authenticateWebPost (req : Request) (jsonBody : String) : Except Fault Request := do
  let timestamp := toString ts
  let g ← substr (md5Hex C (p.webToken ++ timestamp)) 7
  let sign := md5Hex C (timestamp ++ jsonBody ++ g)
  let req := req.set "Authorization" p.webToken
  let req := req.set "x-mxc-nonce" timestamp
  return req.set "x-mxc-sign" sign

def browserHeaders : List (String × String) := [
  ("User-Agent",
    "Mozilla/5.0 (X11; Linux x86_64) AppleWebKit/537.36 (KHTML, like Gecko) Chrome/131.0.0.0 Safari/537.36"),
  ("origin", "https://www.mexc.com"), ("referer", "https://www.mexc.com/"), ("accept", "*/*"),
  ("accept-language", "en-US,en;q=0.9"), ("cache-control", "no-cache"), ("dnt", "1")]

def setBrowserHeaders (req : Request) : Request :=
  { req with fields := HeaderFields.setAll fieldKey browserHeaders req.fields }

def request (req : Request) (body : String) : Message :=
  let req := req.set "Host" p.uri
  let req := if p.authSource = .Web then setBrowserHeaders req else req.set "User-Agent" C.BOOST_BEAST_VERSION_STRING
  { req with uri := p.uri, body }

def methodGet (path : String) (parameters : Parameters) (isPublic : Bool) : Message :=
  let queryString := createQueryStr parameters
  let finalPath := if queryString.isEmpty then path else path ++ "?" ++ queryString
  let req : Request := ⟨.get, finalPath, []⟩
  let req :=
    if isPublic then req
    else if p.authSource = .Web then p.authenticateWebGet req
    else p.authenticateGet C ts req parameters
  p.request C req ""

def methodPost (path jsonBody : String) : Except Fault Message := do
  let req : Request := ⟨.post, path, []⟩
  let req := req.set "Content-Type" "application/json"
  let req := req.set "Content-Length" (toString jsonBody.utf8ByteSize)
  if p.authSource = .Web then
    return p.request C (← p.authenticateWebPost C ts req jsonBody) jsonBody
  else
    throw (.runtimeError "OpenAPI POST authentication not implemented for MEXC futures")

/-- The message for what a client asks for, unless the session has no such
method. -/
def message : HttpRequest → Option (Except Fault Message)
  | .methodGet path parameters isPublic => some (.ok (p.methodGet C ts path (Parameters.ofList parameters) isPublic))
  | .methodPostBody path jsonBody => some (p.methodPost C ts path (C.dump jsonBody))
  | .methodPost .. | .methodPut .. | .methodDelete .. => none

/-- The session over a connection, in the monad in which the connection answers. -/
def perform {m : Type → Type} [Monad m] [MonadLiftT (Except Fault) m] (network : Message → m HttpResponse)
    (request : HttpRequest) : m HttpResponse :=
  match p.message C ts request with
  | some message => liftM message >>= network
  | none => liftM (Except.error (.runtimeError "no such method") : Except Fault HttpResponse)

end

end P

end HTTPSession

end Futures

/-! ## The spot session -/

namespace Spot

def API_URI_SPOT : String := "api.mexc.com"

namespace HTTPSession.P

section
variable (C : Platform) (p : P) (ts : Int)

def request (req : Request) : Message :=
  let req := req.set "Host" API_URI_SPOT
  let req := req.set "User-Agent" C.BOOST_BEAST_VERSION_STRING
  let req := if req.method = .post then req.set "Content-Type" "application/json" else req
  { req with uri := API_URI_SPOT }

/-- The four methods; they differ in the verb only. The second part is what
becomes of the caller's map. -/
def method (verb : Verb) (path : String) (parameters : Parameters) (isPublic : Bool) : Message × Parameters :=
  let (req, parameters) := p.createRequest C.toCrypto ts verb path parameters isPublic
  (request C req, parameters)

def methodGet (path : String) (parameters : Parameters) (isPublic : Bool) := p.method C ts .get path parameters isPublic

def methodPost (path : String) (parameters : Parameters) (isPublic : Bool) := p.method C ts .post path parameters isPublic

def methodPut (path : String) (parameters : Parameters) (isPublic : Bool) := p.method C ts .put path parameters isPublic

def methodDelete (path : String) (parameters : Parameters) (isPublic : Bool) :=
  p.method C ts .delete_ path parameters isPublic

def message : HttpRequest → Option Message
  | .methodGet path parameters isPublic => some (p.methodGet C ts path (Parameters.ofList parameters) isPublic).1
  | .methodPost path parameters isPublic => some (p.methodPost C ts path (Parameters.ofList parameters) isPublic).1
  | .methodPut path parameters isPublic => some (p.methodPut C ts path (Parameters.ofList parameters) isPublic).1
  | .methodDelete path parameters isPublic => some (p.methodDelete C ts path (Parameters.ofList parameters) isPublic).1
  | .methodPostBody .. => none

/-- The session over a connection, in the monad in which the connection answers. -/
def perform {m : Type → Type} [Monad m] [MonadLiftT (Except Fault) m] (network : Message → m HttpResponse)
    (request : HttpRequest) : m HttpResponse :=
  match p.message C ts request with
  | some message => network message
  | none => liftM (Except.error (.runtimeError "no such method") : Except Fault HttpResponse)

end

end HTTPSession.P

end Spot

/-! ## What the clients ask for -/

namespace Spot

def KlineRequest.toHttp (request : KlineRequest) : HttpRequest :=
  let limit := match request.limit with
    | some limit => [("limit", toString limit)]
    | none => []
  let startTime := match request.startTime with
    | some startTime => [("startTime", toString startTime)]
    | none => []
  .methodGet "/api/v3/klines"
    ([("endTime", toString request.endTime), ("interval", request.interval)] ++ limit ++ startTime ++
      [("symbol", request.symbol)]) true

def Query.request : Query → HttpRequest
  | .getServerTime => .methodGet "/api/v3/time" [] true
  | .getTickerPrice symbol => .methodGet "/api/v3/ticker/price" [("symbol", symbol)] true
  | .getListenKey => .methodPost "/api/v3/userDataStream" [] false
  | .getListenKeys => .methodGet "/api/v3/userDataStream" [] false
  | .renewListenKey listenKey => .methodPut "/api/v3/userDataStream" [("listenKey", listenKey)] false
  | .closeListenKey listenKey => .methodDelete "/api/v3/userDataStream" [("listenKey", listenKey)] false

/-- A method that makes one request, or one request of a download. -/
inductive Call where
  | query (query : Query)
  | klines (symbol : String) (interval : CandleInterval) (startTime endTime : Int) (limit : Nat)

def Call.request : Call → HttpRequest
  | .query q => q.request
  | .klines symbol interval startTime endTime limit => KlineRequest.toHttp {
      symbol
      interval := interval.candleIntervalToSpotString
      startTime := if startTime > 0 then some startTime else none
      endTime
      limit := if limit ≠ 500 then some limit else none }

def Call.send (U : JsonUtils) (httpSession : MexcApi.HTTPSession) : Call → Except Fault Unit
  | .query q => q.send U httpSession
  | .klines symbol interval startTime endTime limit =>
    ending (RESTClient.P.getHistoricalPrices U (fun request => httpSession request.toHttp) symbol interval startTime
      endTime limit)

/-- The session of the client and what was written to the connection so far. -/
structure Client where
  httpSession : HTTPSession.P
  written : List Message := []

inductive Client.Event where
  | setCredentials (apiKey apiSecret : String)
  | call (call : Call) (ts : Int)

def Client.step (C : Platform) (c : Client) : Client.Event → Client
  | .setCredentials apiKey apiSecret => { c with httpSession := ⟨apiKey, apiSecret⟩ }
  | .call call ts =>
    match c.httpSession.message C ts call.request with
    | some m => { c with written := c.written ++ [m] }
    | none => c

end Spot

namespace Futures

def KlineRequest.toHttp (request : KlineRequest) : HttpRequest :=
  .methodGet ("/api/v1/contract/kline/" ++ request.symbol)
    [("end", toString request.end), ("interval", request.interval), ("start", toString request.start)] true

def Query.request : Query → HttpRequest
  | .getServerTime => .methodGet "/api/v1/contract/ping" [] true
  | .getContractDetails symbol =>
    .methodGet "/api/v1/contract/detail" (if symbol ≠ "" then [("symbol", symbol)] else []) true
  | .getContractFundingRate contract => .methodGet ("/api/v1/contract/funding_rate/" ++ contract) [] true
  | .getContractFundingRates => .methodGet "/api/v1/contract/funding_rate" [] true
  | .getContractFundingRateHistory symbol pageNum pageSize => FundingRateRequest.toHttp { symbol, pageNum, pageSize }
  | .getWalletBalance currency => .methodGet ("/api/v1/private/account/asset/" ++ currency) [] false
  | .getContractTicker symbol => .methodGet "/api/v1/contract/ticker" [("symbol", symbol)] true
  | .getOpenPositions symbol =>
    .methodGet "/api/v1/private/position/open_positions" (if symbol ≠ "" then [("symbol", symbol)] else []) false
  | .submitOrder request => .methodPostBody "/api/v1/private/order/submit" request.toJson
  | .cancelOrders orderIds =>
    .methodPostBody "/api/v1/private/order/cancel" (.arr (orderIds.map fun orderId => .num (.int orderId)))

/-- A method that makes one request, or one request of a download. -/
inductive Call where
  | query (query : Query)
  | klines (symbol : String) (interval : CandleInterval) (startTime endTime : Int)

def Call.request : Call → HttpRequest
  | .query q => q.request
  | .klines symbol interval startTime endTime =>
    KlineRequest.toHttp { symbol, interval := interval.enumName, start := startTime, «end» := endTime }

def Call.send (U : JsonUtils) (httpSession : MexcApi.HTTPSession) : Call → Except Fault Unit
  | .query q => q.send U httpSession
  | .klines symbol interval startTime endTime =>
    ending (RESTClient.P.getHistoricalPrices U (fun request => httpSession request.toHttp) symbol interval startTime
      endTime)

namespace RESTClient

def new (apiKey apiSecret : String) : HTTPSession.P := HTTPSession.withKey apiKey apiSecret

def newWeb (webToken : String) (source : AuthSource) : HTTPSession.P := HTTPSession.withToken webToken source

end RESTClient

/-- `MEXCFuturesExchangeConnector::login`. -/
def login : String × String × String → HTTPSession.P
  | (apiKey, apiSecret, _) =>
    if apiSecret = "" then RESTClient.newWeb apiKey .Web else RESTClient.new apiKey apiSecret

/-- The session of the client that the connector holds, and what was written to
the connection so far. -/
structure Client where
  httpSession : HTTPSession.P := RESTClient.new "" ""
  written : List Message := []

/-- A `login` replaces the client, the two setters replace its session. -/
inductive Client.Event where
  | login (credentials : String × String × String)
  | setCredentials (apiKey apiSecret : String)
  | setWebToken (webToken : String)
  | call (call : Call) (ts : Int)

def Client.step (C : Platform) (c : Client) : Client.Event → Client
  | .login credentials => { c with httpSession := Futures.login credentials }
  | .setCredentials apiKey apiSecret => { c with httpSession := HTTPSession.withKey apiKey apiSecret }
  | .setWebToken webToken => { c with httpSession := HTTPSession.withToken webToken .Web }
  | .call call ts =>
    match c.httpSession.message C ts call.request with
    | some (.ok m) => { c with written := c.written ++ [m] }
    -- the request is not written: `methodPost` has thrown
    | some (.error _) => c
    | none => c

end Futures

end MexcApi
