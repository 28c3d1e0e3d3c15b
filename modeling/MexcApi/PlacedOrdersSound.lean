import MexcApi.HttpMessagesSound
import MexcApi.OrderMeaningSound
import MexcApi.OrderVerdictSound
import MexcApi.Replies
import MexcApi.Served

/-!
# Orders over a connection that fails

A run of the connector against the book of an exchange. The message of an order
may get lost, and so may the answer after the order is booked. `placeOrder`
sends one message and does not repeat it, so no call books twice, and a trade
that is returned is booked. From an exception nothing can be told.
-/

namespace MexcApi

open Nlohmann

namespace Futures

/-! ## The exchange -/

inductive Decision where
  | accept (orderId : Int)
  | reject (code : Int)

/-- Something else than a decision: a connection that broke, or another status. -/
structure Unheard where
  reply : Except Fault HttpResponse
  unheard : ∀ response, reply = .ok response → response.result ≠ 200

/-- What becomes of a message. -/
inductive Fate where
  | lost (reply : Unheard)
  | decided (decision : Decision)
  | unheard (decision : Decision) (reply : Unheard)

structure Entry where
  webToken : String
  orderId : Int
  order : OrderRequest

def Entry.placed (e : Entry) : String × OrderRequest := (e.webToken, e.order)

def orderPath : String := "/api/v1/private/order/submit"

open Classical in
/-- The account and the order that a message places, if its signature holds. -/
noncomputable def placedBy (C : Platform) (parse : String → Option Json) (m : Message) : Option (String × OrderRequest) :=
  match m.get? "Authorization" with
  | none => none
  | some webToken =>
    if Accepted C m (.token webToken) ∧ m.method = .post ∧ m.target = orderPath then
      ((parse m.body).bind OrderRequest.read).map fun order => (webToken, order)
    else none

/-- The entry of the account that an order repeats. An order is known again by
the id that its caller has given it. -/
def repeated (book : List Entry) (placed : String × OrderRequest) : Option Entry :=
  if placed.2.externalOid = "" then none
  else book.find? fun e => e.webToken = placed.1 ∧ e.order.externalOid = placed.2.externalOid

namespace Decision

/-- A message that places no order can only be rejected. -/
def about (placed : Option (String × OrderRequest)) : Decision → Decision
  | accept orderId => if placed.isSome then accept orderId else reject 600
  | reject code => reject code

def reply : Decision → HttpResponse
  | accept orderId => verdict true 0 (.num (.int orderId))
  | reject code => verdict false code .null
where
  verdict (success : Bool) (code : Int) (data : Json) : HttpResponse := {
    result := 200
    body := ""
    json := some (.obj [("code", .num (.int code)), ("data", data), ("success", .bool success)]) }

def entry (placed : Option (String × OrderRequest)) : Decision → Option Entry
  | accept orderId => placed.map fun p => ⟨p.1, orderId, p.2⟩
  | reject _ => none

/-- The decision that stands and the entry that it makes: an order that repeats
an entry is accepted as that entry and makes none. -/
def settle (book : List Entry) (placed : Option (String × OrderRequest)) (decision : Decision) : Decision × Option Entry :=
  match placed.bind (repeated book), decision with
  | some e, accept _ => (accept e.orderId, none)
  | _, _ => (decision.about placed, (decision.about placed).entry placed)

end Decision

/-- The answer to a message and the book after it. -/
def Fate.serve (placed : Option (String × OrderRequest)) (book : List Entry) : Fate → Except Fault HttpResponse × List Entry
  | lost reply => (reply.reply, book)
  | decided decision => (.ok (decision.settle book placed).1.reply, book ++ (decision.settle book placed).2.toList)
  | unheard decision reply => (reply.reply, book ++ (decision.settle book placed).2.toList)

/-! ## Runs -/

/-- A call as the caller knows it, with the session it was made with. -/
structure Outcome where
  session : HTTPSession.P
  order : Order
  result : Except Fault Trade

structure Trading where
  httpSession : HTTPSession.P := RESTClient.new "" ""
  book : List Entry := []
  outcomes : List Outcome := []

namespace Trading

inductive Event where
  | login (credentials : String × String × String)
  | placeOrder (order : Order) (ts : Int) (fate : Fate)

section
variable (U : JsonUtils) (C : Platform) (parse : String → Option Json)

/-- The connection takes each message to the exchange. -/
noncomputable def connection (fate : Fate) (message : Message) : Served.Program Fault (List Entry) HttpResponse :=
  Served.ask fun book => fate.serve (placedBy C parse message) book

/-- How `placeOrder` ends, and the book after it. -/
noncomputable def call (p : HTTPSession.P) (order : Order) (ts : Int) (fate : Fate) (book : List Entry) :
    Except Fault Trade × List Entry :=
  Served.exec (placeOrder U (fun body => p.perform C ts (connection C parse fate) (.methodPostBody orderPath body)) order)
    book

noncomputable def step (s : Trading) : Event → Trading
  | .login credentials => { s with httpSession := Futures.login credentials }
  | .placeOrder order ts fate => { s with
      book := (call U C parse s.httpSession order ts fate s.book).2
      outcomes := s.outcomes ++ [⟨s.httpSession, order, (call U C parse s.httpSession order ts fate s.book).1⟩] }

noncomputable def run (es : List Event) : Trading := es.foldl (step U C parse) {}

theorem run_concat (es : List Event) (e : Event) : run U C parse (es ++ [e]) = step U C parse (run U C parse es) e := by
  simp [run]

end

end Trading

/-! ## An order at once or never -/

def limitRequest : OrderRequest where
  symbol := "BTC_USDT"
  price := .finite 50000
  vol := .finite 1
  side := .OpenLong
  type := .IOC
  openType := .Cross

theorem limitRequest_of : orderRequest limitOrder = .ok limitRequest := rfl

def limitBody : String :=
  "\x7b\"openType\":2,\"price\":50000.0,\"side\":1,\"symbol\":\"BTC_USDT\",\"type\":3,\"vol\":1.0\x7d"

def limitJson : Json := .obj [
  ("openType", .num (.int 2)), ("price", .num (.float 50000)), ("side", .num (.int 1)), ("symbol", .str "BTC_USDT"),
  ("type", .num (.int 3)), ("vol", .num (.float 1))]

theorem limitRequest_toJson : limitRequest.toJson = limitJson := by
  simp +decide [OrderRequest.toJson, limitRequest, limitJson, Json.set, Double.toJson, OrderSide.toInt, OrderType.toInt,
    MarginType.toInt]

/-- The digests of the two texts that the order signs, and the text of its body. -/
def orderPlatform : Platform where
  HMAC := cancelPlatform.HMAC
  stringToHex := cancelPlatform.stringToHex
  EVP_md5 input :=
    if input = "WEB3f1c1700000000000" then cancelPlatform.EVP_md5 input
    else #v[151, 236, 84, 89, 249, 137, 245, 193, 20, 67, 173, 62, 129, 46, 21, 137].map UInt8.ofNat
  md5ToHex := cancelPlatform.md5ToHex
  dump _ := limitBody
  BOOST_BEAST_VERSION_STRING := cancelPlatform.BOOST_BEAST_VERSION_STRING

def parseLimit (text : String) : Option Json := if text = limitBody then some limitJson else none

def brokenStream : Unheard := ⟨.error (.runtimeError "end of stream"), fun _ h => by cases h⟩

/-! ## One call -/

theorem login_session (credentials : String × String × String) : ∃ c : Credentials, login credentials = c.session := by
  obtain ⟨apiKey, apiSecret, passPhrase⟩ := credentials
  by_cases hsecret : apiSecret = ""
  · exact ⟨.token apiKey, if_pos hsecret⟩
  · exact ⟨.key apiKey apiSecret, if_neg hsecret⟩

theorem placeOrder_returned {U : JsonUtils} {methodPost : Json → Except Fault HttpResponse} {order : Order} {trade : Trade}
    (h : placeOrder U methodPost order = .ok trade) :
    ∃ request response, orderRequest order = .ok request ∧ methodPost request.toJson = .ok response ∧
      response.result = 200 := by
  unfold placeOrder at h
  obtain ⟨request, hrequest, h⟩ := bind_ok h
  obtain ⟨value, hvalue, -⟩ := bind_ok h
  unfold RESTClient.submitOrder at hvalue
  obtain ⟨response, hresponse, hvalue⟩ := bind_ok hvalue
  obtain ⟨checked, hchecked, -⟩ := bind_ok hvalue
  exact ⟨request, response, hrequest, hresponse, (checked_ok hchecked).1⟩

theorem placeOrder_failed {U : JsonUtils} {order : Order} {request : OrderRequest}
    (hrequest : orderRequest order = .ok request)
    (e : Fault) : placeOrder (m := Except Fault) U (fun _ => .error e) order = .error e := by
  unfold placeOrder RESTClient.submitOrder
  rw [hrequest]
  rfl

theorem substr_error {s : String} {n : Nat} {e : Fault} (h : substr s n = .error e) : s.toList.length < n := by
  unfold substr at h
  by_cases hlong : n > s.toList.length
  · exact hlong
  · rw [if_neg hlong] at h
    cases h

theorem Unheard.not_ok (u : Unheard) {response : HttpResponse} (h : u.reply = .ok response) : response.result ≠ 200 :=
  u.unheard response h

theorem decision_reply (decision : Decision) : ∃ success code data,
    decision.reply = Decision.reply.verdict success code data ∧
    OrderReply (.obj [("code", .num (.int code)), ("data", data), ("success", .bool success)]) success code data ∧
    ((success = true ∧ ∃ orderId, decision = .accept orderId ∧ data = .num (.int orderId)) ∨
      success = false ∧ ∃ code, decision = .reject code) := by
  cases decision with
  | accept orderId => exact ⟨true, 0, _, rfl, ⟨rfl, rfl, rfl⟩, Or.inl ⟨rfl, orderId, rfl, rfl⟩⟩
  | reject code => exact ⟨false, code, _, rfl, ⟨rfl, rfl, rfl⟩, Or.inr ⟨rfl, code, rfl⟩⟩

/-- The trade that an accepted order comes back as. -/
def newTrade (orderId : Int) : Trade := { orderStatus := .New, customData := .obj [("orderId", .num (.int orderId))] }

theorem placeOrder_decided {U : JsonUtils} (hU : U.Lawful) {methodPost : Json → Except Fault HttpResponse} {order : Order}
    {request : OrderRequest} (hrequest : orderRequest order = .ok request) {decision : Decision}
    (hpost : methodPost request.toJson = .ok decision.reply) (trade : Trade) :
    placeOrder U methodPost order = .ok trade ↔ ∃ orderId, decision = .accept orderId ∧ trade = newTrade orderId := by
  obtain ⟨success, code, data, hreply, hverdict, hcases⟩ := decision_reply decision
  rw [hreply] at hpost
  rw [placeOrder_reply hU hrequest hpost hverdict]
  rcases hcases with ⟨rfl, orderId, rfl, rfl⟩ | ⟨rfl, code, rfl⟩
  · constructor
    · intro h
      cases h
      exact ⟨orderId, rfl, rfl⟩
    · rintro ⟨other, hother, rfl⟩
      cases hother
      rfl
  · constructor
    · intro h
      cases h
    · rintro ⟨orderId, h, -⟩
      cases h

/-! ## One call against an exchange -/

section
variable {σ : Type} (s : σ)

theorem exec_submitOrder (U : JsonUtils) (methodPost : Json → Served.Program Fault σ HttpResponse) (request : OrderRequest) :
    Served.exec (RESTClient.submitOrder U methodPost request) s =
      (RESTClient.submitOrder U (fun _ => (Served.exec (methodPost request.toJson) s).1) request,
        (Served.exec (methodPost request.toJson) s).2) :=
  Served.exec_bind_quiet _ (fun response s => Served.exec_lift_lift (checkResponse response)
    (handleMEXCResponse (OrderResponse.fromJson U) OrderResponse.toResponse) s) s

/-- An order is one request to the exchange, made with the body of its request. -/
theorem exec_placeOrder (U : JsonUtils) (methodPost : Json → Served.Program Fault σ HttpResponse) {order : Order}
    {request : OrderRequest} (hrequest : orderRequest order = .ok request) :
    Served.exec (placeOrder U methodPost order) s =
      (placeOrder U (fun _ => (Served.exec (methodPost request.toJson) s).1) order,
        (Served.exec (methodPost request.toJson) s).2) := by
  have hquiet : ∀ (response : OrderResponse) (s : σ), Served.exec (if response.success then
      pure { orderStatus := .New, customData := .obj [("orderId", .num (.int response.orderId))] }
      else pure { orderStatus := .Rejected, customData := .obj [("errorCode", .num (.int response.code))] } :
      Served.Program Fault σ Trade) s = (if response.success then
      .ok { orderStatus := .New, customData := .obj [("orderId", .num (.int response.orderId))] }
      else .ok { orderStatus := .Rejected, customData := .obj [("errorCode", .num (.int response.code))] }, s) := by
    intro response s
    cases response.success <;> rfl
  unfold placeOrder
  rw [Served.exec_lift_bind, hrequest]
  dsimp only
  rw [Served.exec_bind_quiet _ hquiet, exec_submitOrder]
  rfl

theorem exec_placeOrder_unsent (U : JsonUtils) (methodPost : Json → Served.Program Fault σ HttpResponse) {order : Order}
    {e : Fault} (h : orderRequest order = .error e) : Served.exec (placeOrder U methodPost order) s = (.error e, s) := by
  unfold placeOrder
  rw [Served.exec_lift_bind, h]

theorem exec_perform (C : Platform) {p : HTTPSession.P} {ts : Int} {request : HttpRequest} {message : Message}
    (h : p.message C ts request = some (.ok message)) (network : Message → Served.Program Fault σ HttpResponse) :
    Served.exec (p.perform C ts network request) s = Served.exec (network message) s := by
  unfold HTTPSession.P.perform
  rw [h]
  dsimp only
  rw [Served.exec_lift_bind]

theorem exec_perform_unsent (C : Platform) {p : HTTPSession.P} {ts : Int} {request : HttpRequest} {e : Fault}
    (h : p.message C ts request = some (.error e)) (network : Message → Served.Program Fault σ HttpResponse) :
    Served.exec (p.perform C ts network request) s = (.error e, s) := by
  unfold HTTPSession.P.perform
  rw [h]
  dsimp only
  rw [Served.exec_lift_bind]

end

section
variable {U : JsonUtils} (hU : U.Lawful) (C : Platform) (parse : String → Option Json) (ts : Int)

/-- What a token session writes for a body, unless the signature throws. -/
theorem token_post (webToken path : String) (body : Json) :
    (∃ e, substr (md5Hex C (webToken ++ toString ts)) 7 = .error e ∧
      (Credentials.token webToken).session.message C ts (.methodPostBody path body) = some (.error e)) ∨
    ∃ m, (Credentials.token webToken).session.message C ts (.methodPostBody path body) = some (.ok m) ∧
      m.get? "Authorization" = some webToken ∧ Accepted C m (.token webToken) ∧ m.method = .post ∧ m.target = path ∧
      m.body = C.dump body := by
  have hpost := HTTPSession.P.withToken_post C ts webToken path (C.dump body)
  cases hg : substr (md5Hex C (webToken ++ toString ts)) 7 with
  | error e =>
    refine Or.inl ⟨e, rfl, congrArg some (hpost.trans ?_)⟩
    rw [hg]
    rfl
  | ok g =>
    have hrest := HTTPSession.P.request_rest C (HTTPSession.withToken webToken .Web)
      (HTTPSession.P.posted C ts webToken path (C.dump body) g) (C.dump body)
    have haccepted := HTTPSession.P.accepted_post C ts webToken path (C.dump body) g hg
    refine Or.inr ⟨_, congrArg some (hpost.trans ?_), haccepted.2.1, haccepted, hrest.2.2.1, hrest.2.2.2, hrest.2.1⟩
    rw [hg]
    rfl

theorem token_posted (hC : ∀ digest, 7 ≤ (C.md5ToHex digest).toList.length) (webToken path : String) (body : Json) :
    ∃ m, (Credentials.token webToken).session.message C ts (.methodPostBody path body) = some (.ok m) := by
  rcases token_post C ts webToken path body with ⟨e, hdigest, -⟩ | ⟨m, hm, -⟩
  · have hlong := hC (C.EVP_md5 (webToken ++ toString ts))
    unfold substr md5Hex at hdigest
    rw [if_neg (by omega)] at hdigest
    cases hdigest
  · exact ⟨m, hm⟩

/-- What the exchange makes of the body of a request. -/
def placing (webToken : String) (request : OrderRequest) : Option (String × OrderRequest) :=
  if request.Numeric then some (webToken, request.meaning) else none

theorem placedBy_post {webToken : String} {request : OrderRequest} {m : Message}
    (hauth : m.get? "Authorization" = some webToken) (haccepted : Accepted C m (.token webToken))
    (hmethod : m.method = .post)
    (htarget : m.target = orderPath) (hbody : parse m.body = some request.toJson) :
    placedBy C parse m = placing webToken request := by
  unfold placedBy placing
  rw [hauth]
  dsimp only
  rw [if_pos ⟨haccepted, hmethod, htarget⟩, hbody, Option.bind_some]
  by_cases hnumeric : request.Numeric
  · rw [if_pos hnumeric, (request.read_iff).mpr ⟨hnumeric, rfl⟩]
    rfl
  · rw [if_neg hnumeric]
    cases hread : OrderRequest.read request.toJson with
    | none => rfl
    | some request' => exact absurd ((request.read_iff).mp hread).1 hnumeric

/-! ## An order that repeats nothing -/

namespace Fate

variable (placed : Option (String × OrderRequest))

def reply : Fate → Except Fault HttpResponse
  | lost reply => reply.reply
  | decided decision => .ok (decision.about placed).reply
  | unheard _ reply => reply.reply

def entry : Fate → Option Entry
  | lost _ => none
  | decided decision | unheard decision _ => (decision.about placed).entry placed

variable {placed} in
theorem serve_fresh {book : List Entry} (h : placed.bind (repeated book) = none) (fate : Fate) :
    fate.serve placed book = (fate.reply placed, book ++ (fate.entry placed).toList) := by
  have hsettle : ∀ decision : Decision, decision.settle book placed =
      (decision.about placed, (decision.about placed).entry placed) := by
    intro decision
    unfold Decision.settle
    rw [h]
  cases fate with
  | lost u => exact congrArg (Prod.mk _) (List.append_nil book).symm
  | decided decision | unheard decision u =>
    dsimp only [serve]
    rw [hsettle]
    rfl

end Fate

theorem placing_fresh {order : Order} {request : OrderRequest} (hrequest : orderRequest order = .ok request)
    (webToken : String)
    (book : List Entry) : (placing webToken request).bind (repeated book) = none := by
  unfold placing
  by_cases hnumeric : request.Numeric
  · rw [if_pos hnumeric, Option.bind_some]
    exact if_pos (orderRequest_means hrequest).unnamed
  · rw [if_neg hnumeric, Option.bind_none]

namespace Trading

/-- The text of the order's body is read back. -/
def Legible (order : Order) : Prop :=
  ∀ request, orderRequest order = .ok request → parse (C.dump request.toJson) = some request.toJson

/-- A call leaves the book as it is and throws, or its message reaches the
exchange, and then the reply alone decides how it ends. -/
theorem call_cases (c : Credentials) (order : Order) (fate : Fate) (book : List Entry) (hparse : Legible C parse order) :
    ((∃ e, call U C parse c.session order ts fate book = (.error e, book)) ∧
      ((∀ request, orderRequest order ≠ .ok request) ∨ (∃ apiKey apiSecret, c = .key apiKey apiSecret) ∨
        ∃ digest, (C.md5ToHex digest).toList.length < 7)) ∨
    ∃ webToken request, c = .token webToken ∧ orderRequest order = .ok request ∧
      call U C parse c.session order ts fate book =
        (placeOrder U (fun _ => fate.reply (placing webToken request)) order,
          book ++ (fate.entry (placing webToken request)).toList) := by
  cases hrequest : orderRequest order with
  | error e =>
    refine Or.inl ⟨⟨e, exec_placeOrder_unsent book U _ hrequest⟩, Or.inl fun request h => ?_⟩
    cases h
  | ok request =>
    have hcall := fun c : Credentials => exec_placeOrder book U
      (fun body => c.session.perform C ts (connection C parse fate) (.methodPostBody orderPath body)) hrequest
    have hthrows : ∀ {c : Credentials} {e : Fault}, c.session.message C ts (.methodPostBody orderPath request.toJson) =
        some (.error e) → call U C parse c.session order ts fate book = (.error e, book) := by
      intro c e hm
      refine (hcall c).trans ?_
      rw [exec_perform_unsent book C hm]
      exact congrArg (Prod.mk · book) (placeOrder_failed hrequest e)
    cases c with
    | key apiKey apiSecret => exact Or.inl ⟨⟨_, hthrows rfl⟩, Or.inr (Or.inl ⟨apiKey, apiSecret, rfl⟩)⟩
    | token webToken =>
      rcases token_post C ts webToken orderPath request.toJson with
        ⟨e, hshort, hm⟩ | ⟨m, hm, hauth, haccepted, hmethod, htarget, hbody⟩
      · exact Or.inl ⟨⟨e, hthrows hm⟩, Or.inr (Or.inr ⟨_, substr_error hshort⟩)⟩
      · have hread : parse m.body = some request.toJson := by
          rw [hbody]
          exact hparse request hrequest
        have hplaced := placedBy_post C parse hauth haccepted hmethod htarget hread
        refine Or.inr ⟨webToken, request, rfl, rfl, (hcall _).trans ?_⟩
        rw [exec_perform book C hm]
        unfold connection
        rw [Served.exec_ask, hplaced, Fate.serve_fresh (placing_fresh hrequest webToken book)]

theorem about_accept {placed : Option (String × OrderRequest)} {decision : Decision} {orderId : Int}
    (h : decision.about placed = .accept orderId) : decision = .accept orderId ∧ ∃ p, placed = some p := by
  cases decision with
  | reject code => cases h
  | accept orderId' =>
    cases placed with
    | none => cases h
    | some p =>
      cases h
      exact ⟨rfl, p, rfl⟩

theorem entry_about {placed : Option (String × OrderRequest)} {decision : Decision} {e : Entry} :
    (decision.about placed).entry placed = some e ↔ decision.about placed = .accept e.orderId ∧ placed = some e.placed := by
  cases placed with
  | none =>
    refine iff_of_false (fun h => ?_) fun h => by cases h.2
    cases decision <;> cases h
  | some p =>
    cases decision with
    | reject code => exact iff_of_false (fun h => by cases h) fun h => by cases h.1
    | accept orderId =>
      constructor
      · intro h
        cases h
        exact ⟨rfl, rfl⟩
      · rintro ⟨haccept, hp⟩
        cases haccept
        cases hp
        rfl

include hU in
theorem returned_iff {order : Order} {request : OrderRequest} (hrequest : orderRequest order = .ok request) (fate : Fate)
    (placed : Option (String × OrderRequest)) (trade : Trade) :
    placeOrder U (fun _ => fate.reply placed) order = .ok trade ↔ ∃ decision orderId, fate = .decided decision ∧
      decision.about placed = .accept orderId ∧ trade = newTrade orderId := by
  have hunheard : ∀ u : Unheard, placeOrder U (fun _ => u.reply) order ≠ .ok trade := by
    intro u h
    obtain ⟨-, response, -, hreply, hresult⟩ := placeOrder_returned h
    exact u.not_ok hreply hresult
  cases fate with
  | lost u => exact iff_of_false (hunheard u) fun ⟨_, _, h, _⟩ => by cases h
  | unheard decision u => exact iff_of_false (hunheard u) fun ⟨_, _, h, _⟩ => by cases h
  | decided decision =>
    rw [placeOrder_decided hU hrequest rfl]
    constructor
    · rintro ⟨orderId, haccept, htrade⟩
      exact ⟨decision, orderId, rfl, haccept, htrade⟩
    · rintro ⟨decision', orderId, hdecided, haccept, htrade⟩
      cases hdecided
      exact ⟨orderId, haccept, htrade⟩

theorem fate_entry {fate : Fate} {placed : Option (String × OrderRequest)} {e : Entry} : fate.entry placed = some e ↔
    ∃ decision, (fate = .decided decision ∨ ∃ u, fate = .unheard decision u) ∧
      decision.about placed = .accept e.orderId ∧ placed = some e.placed := by
  cases fate with
  | lost u => exact iff_of_false (fun h => by cases h) fun ⟨_, h, _⟩ => by rcases h with h | ⟨_, h⟩ <;> cases h
  | decided decision =>
    refine entry_about.trans ⟨fun h => ⟨decision, Or.inl rfl, h⟩, ?_⟩
    rintro ⟨decision', h | ⟨u, h⟩, haccept⟩ <;> cases h
    exact haccept
  | unheard decision u =>
    refine entry_about.trans ⟨fun h => ⟨decision, Or.inr ⟨u, rfl⟩, h⟩, ?_⟩
    rintro ⟨decision', h | ⟨u', h⟩, haccept⟩ <;> cases h
    exact haccept

/-- What a call has to do with the entry that it leaves in the book, if any. -/
structure Accounted (o : Outcome) (entry : Option Entry) : Prop where
  meant : ∀ e, entry = some e → o.session = (Credentials.token e.webToken).session ∧ Means o.order e.order
  returned : ∀ trade, o.result = .ok trade → ∃ e, entry = some e ∧ trade = newTrade e.orderId

def Told (o : Outcome) (entry : Option Entry) : Prop := ∀ e, entry = some e → o.result = .ok (newTrade e.orderId)

theorem placing_some {webToken : String} {request : OrderRequest} {p : String × OrderRequest}
    (h : placing webToken request = some p) : p = (webToken, request.meaning) := by
  unfold placing at h
  by_cases hnumeric : request.Numeric
  · rw [if_pos hnumeric] at h
    exact (Option.some.inj h).symm
  · rw [if_neg hnumeric] at h
    cases h

include hU in
theorem accounted_reply (webToken : String) {order : Order} {request : OrderRequest}
    (hrequest : orderRequest order = .ok request)
    (fate : Fate) : Accounted ⟨(Credentials.token webToken).session, order,
      placeOrder U (fun _ => fate.reply (placing webToken request)) order⟩ (fate.entry (placing webToken request)) := by
  refine ⟨fun e h => ?_, fun trade h => ?_⟩
  · obtain ⟨-, -, -, hplaced⟩ := fate_entry.mp h
    obtain ⟨htoken, horder⟩ := Prod.mk.inj (placing_some hplaced)
    rw [htoken, horder]
    exact ⟨rfl, orderRequest_means hrequest⟩
  · obtain ⟨decision, orderId, hdecided, haccept, rfl⟩ := (returned_iff hU hrequest fate _ trade).mp h
    obtain ⟨-, p, hp⟩ := about_accept haccept
    exact ⟨⟨p.1, orderId, p.2⟩, fate_entry.mpr ⟨decision, Or.inl hdecided, haccept, hp⟩, rfl⟩

theorem entry_accepted (webToken : String) {order : Order} {request : OrderRequest}
    (hrequest : orderRequest order = .ok request)
    (orderId : Int) : ((Fate.decided (.accept orderId)).entry (placing webToken request)).isSome = true ↔
      order.Sendable := by
  have hnumeric : order.Sendable ↔ request.Numeric := by
    rw [sendable_iff, hrequest]
    constructor
    · rintro ⟨request', h, hnumeric⟩
      cases h
      exact hnumeric
    · exact fun h => ⟨request, rfl, h⟩
  rw [hnumeric]
  unfold placing
  by_cases h : request.Numeric
  · rw [if_pos h]
    exact iff_of_true rfl h
  · rw [if_neg h]
    exact iff_of_false (fun h => by cases h) h

include hU in
theorem call_accounted (c : Credentials) (order : Order) (fate : Fate) (book : List Entry) (hparse : Legible C parse order) :
    ∃ entry, (call U C parse c.session order ts fate book).2 = book ++ entry.toList ∧
      Accounted ⟨c.session, order, (call U C parse c.session order ts fate book).1⟩ entry ∧
      ((∃ decision, fate = .decided decision) →
        Told ⟨c.session, order, (call U C parse c.session order ts fate book).1⟩ entry) ∧
      ((∀ digest, 7 ≤ (C.md5ToHex digest).toList.length) → (∃ orderId, fate = .decided (.accept orderId)) →
        (entry.isSome = true ↔ c.session.authSource = .Web ∧ order.Sendable)) := by
  rcases call_cases C parse ts c order fate book hparse with ⟨⟨e, hcall⟩, hwhy⟩ | ⟨webToken, request, rfl, hrequest, hcall⟩
  · rw [hcall]
    refine ⟨none, (List.append_nil book).symm, ⟨fun _ h => (by cases h), fun _ h => (by cases h)⟩,
      fun _ _ h => (by cases h), ?_⟩
    intro hC _
    refine iff_of_false (fun h => by cases h) ?_
    rintro ⟨hweb, hsendable⟩
    rcases hwhy with hnone | ⟨apiKey, apiSecret, rfl⟩ | ⟨digest, hshort⟩
    · obtain ⟨request, hrequest, -⟩ := (sendable_iff order).mp hsendable
      exact hnone request hrequest
    · cases hweb
    · have hlong := hC digest
      omega
  · rw [hcall]
    refine ⟨_, rfl, accounted_reply hU webToken hrequest fate, fun hdecided e h => ?_, fun _ haccepted => ?_⟩
    · obtain ⟨decision, rfl⟩ := hdecided
      exact (returned_iff hU hrequest _ _ _).mpr ⟨decision, e.orderId, rfl, (entry_about.mp h).1, rfl⟩
    · obtain ⟨orderId, rfl⟩ := haccepted
      rw [entry_accepted webToken hrequest orderId]
      exact ⟨fun h => ⟨rfl, h⟩, fun h => h.2⟩

theorem limitOrder_legible : Legible orderPlatform parseLimit limitOrder := by
  intro request hrequest
  rw [limitRequest_of] at hrequest
  cases hrequest
  rw [limitRequest_toJson]
  rfl

/-! ## Runs of calls -/

theorem session_run (es : List Event) : ∃ c : Credentials, (run U C parse es).httpSession = c.session := by
  induction es using List.reverseRecOn with
  | nil => exact ⟨.key "" "", rfl⟩
  | append_singleton es e ih =>
    rw [run_concat]
    cases e with
    | login credentials => exact login_session credentials
    | placeOrder order ts fate => exact ih

/-- Every order of the run is read back from its text. -/
def AllLegible (es : List Event) : Prop :=
  ∀ order ts fate, Event.placeOrder order ts fate ∈ es → Legible C parse order

def limitRun (fate : Fate) : List Event := [.login ("WEB3f1c", "", ""), .placeOrder limitOrder 1700000000000 fate]

theorem limitRun_event {fate fate' : Fate} {order : Order} {ts : Int}
    (h : Event.placeOrder order ts fate' ∈ limitRun fate) : order = limitOrder ∧ fate' = fate := by
  rcases List.mem_cons.mp h with h | h
  · cases h
  · cases List.mem_singleton.mp h
    exact ⟨rfl, rfl⟩

theorem limitRun_legible (fate : Fate) : AllLegible orderPlatform parseLimit (limitRun fate) := by
  intro order ts fate' h
  rw [(limitRun_event h).1]
  exact limitOrder_legible

/-- Every message of the run reaches the exchange, and its decision the caller. -/
def AllHeard (es : List Event) : Prop :=
  ∀ order ts fate, Event.placeOrder order ts fate ∈ es → ∃ decision, fate = .decided decision

/-- The calls of a run side by side with the entries of the book. -/
def Pairs (R : Outcome → Option Entry → Prop) (s : Trading) : Prop :=
  ∃ entries : List (Option Entry), s.book = entries.filterMap id ∧ List.Forall₂ R s.outcomes entries

theorem Pairs.call {R : Outcome → Option Entry → Prop} {s : Trading} (h : Pairs R s) {o : Outcome} {entry : Option Entry}
    (ho : R o entry) : Pairs R { s with book := s.book ++ entry.toList, outcomes := s.outcomes ++ [o] } := by
  obtain ⟨entries, hbook, hentries⟩ := h
  refine ⟨entries ++ [entry], ?_, List.rel_append hentries (.cons ho .nil)⟩
  rw [List.filterMap_append, ← hbook]
  cases entry <;> rfl

/-- What relates every call to its entry relates the calls of a run to the book. -/
theorem pairs_run {R : Outcome → Option Entry → Prop} (es : List Event)
    (hcall : ∀ order ts fate, Event.placeOrder order ts fate ∈ es → ∀ (c : Credentials) book, ∃ entry,
      (call U C parse c.session order ts fate book).2 = book ++ entry.toList ∧
        R ⟨c.session, order, (call U C parse c.session order ts fate book).1⟩ entry) : Pairs R (run U C parse es) := by
  induction es using List.reverseRecOn with
  | nil => exact ⟨[], rfl, .nil⟩
  | append_singleton es e ih =>
    have hold := ih fun order ts fate h => hcall order ts fate (List.mem_append_left _ h)
    rw [run_concat]
    cases e with
    | login credentials => exact hold
    | placeOrder order ts fate =>
      obtain ⟨c, hc⟩ := session_run (U := U) C parse es
      obtain ⟨entry, hbook, hR⟩ :=
        hcall order ts fate (List.mem_append_right _ (List.mem_singleton_self _)) c (run U C parse es).book
      dsimp only [step]
      rw [hc, hbook]
      exact hold.call hR

include hU in
/-- Whatever gets lost: each call leaves at most one entry in the book, for its
own order and account and in the order of the calls, and what a call returns is
its entry. Where every decision is heard, every entry is returned. -/
theorem booked_once (es : List Event) (hes : AllLegible C parse es) : Pairs Accounted (run U C parse es) ∧
    (AllHeard es → Pairs (fun o entry => Accounted o entry ∧ Told o entry) (run U C parse es)) := by
  constructor
  · apply pairs_run
    intro order ts fate h c book
    obtain ⟨entry, hbook, haccounted, -, -⟩ := call_accounted hU C parse ts c order fate book (hes order ts fate h)
    exact ⟨entry, hbook, haccounted⟩
  · intro hheard
    apply pairs_run
    intro order ts fate h c book
    obtain ⟨entry, hbook, haccounted, htold, -⟩ := call_accounted hU C parse ts c order fate book (hes order ts fate h)
    exact ⟨entry, hbook, haccounted, htold (hheard order ts fate h)⟩

theorem booked_once_unheard :
    Pairs Accounted (run .plain orderPlatform parseLimit (limitRun (.unheard (.accept 17) brokenStream))) ∧
    (AllHeard (limitRun (.unheard (.accept 17) brokenStream)) → Pairs (fun o entry => Accounted o entry ∧ Told o entry)
      (run .plain orderPlatform parseLimit (limitRun (.unheard (.accept 17) brokenStream)))) :=
  booked_once JsonUtils.plain_lawful orderPlatform parseLimit _ (limitRun_legible _)

/-! ## A connection that holds -/

theorem call_sent (hC : ∀ digest, 7 ≤ (C.md5ToHex digest).toList.length) (webToken : String) {order : Order}
    (hsendable : order.Sendable) (hparse : Legible C parse order) (fate : Fate) (book : List Entry) :
    ∃ request, orderRequest order = .ok request ∧
      call U C parse (Credentials.token webToken).session order ts fate book =
        (placeOrder U (fun _ => fate.reply (some (webToken, request.meaning))) order,
          book ++ (fate.entry (some (webToken, request.meaning))).toList) := by
  obtain ⟨request, hrequest, hnumeric⟩ := (sendable_iff order).mp hsendable
  rcases call_cases (U := U) C parse ts (.token webToken) order fate book hparse with
    ⟨-, hnone | ⟨apiKey, apiSecret, hkey⟩ | ⟨digest, hshort⟩⟩ | ⟨webToken', request', htoken, hrequest', hcall⟩
  · exact absurd hrequest (hnone request)
  · cases hkey
  · exact absurd (hC digest) (by omega)
  · cases htoken
    rw [hrequest] at hrequest'
    cases hrequest'
    refine ⟨request, hrequest, ?_⟩
    rw [hcall]
    unfold placing
    rw [if_pos hnumeric]

/-- A call against its entry where nothing is lost or rejected. -/
structure Exact (o : Outcome) (entry : Option Entry) : Prop extends Accounted o entry where
  told : Told o entry
  booked : entry.isSome = true ↔ o.session.authSource = .Web ∧ o.order.Sendable

include hU in
/-- With nothing lost and nothing rejected the book holds the orders of the web
sessions that can be sent, each exactly once. -/
theorem booked_exactly (hC : ∀ digest, 7 ≤ (C.md5ToHex digest).toList.length) (es : List Event)
    (hes : AllLegible C parse es)
    (haccepts : ∀ order ts fate, Event.placeOrder order ts fate ∈ es → ∃ orderId, fate = .decided (.accept orderId)) :
    Pairs Exact (run U C parse es) := by
  apply pairs_run
  intro order ts fate h c book
  obtain ⟨orderId, rfl⟩ := haccepts order ts fate h
  obtain ⟨entry, hbook, haccounted, htold, hbooked⟩ := call_accounted hU C parse ts c order _ book (hes order ts _ h)
  exact ⟨entry, hbook, haccounted, htold ⟨_, rfl⟩, hbooked hC ⟨orderId, rfl⟩⟩

theorem orderPlatform_hex (digest : Vector UInt8 16) : 7 ≤ (orderPlatform.md5ToHex digest).toList.length :=
  cancelPlatform_hex digest

theorem booked_exactly_accepted :
    Pairs Exact (run .plain orderPlatform parseLimit (limitRun (.decided (.accept 17)))) :=
  booked_exactly JsonUtils.plain_lawful orderPlatform parseLimit orderPlatform_hex _ (limitRun_legible _)
    fun _ _ _ h => ⟨17, (limitRun_event h).2⟩

/-! ## After an exception -/

/-- The same order again, at other times; the exchange accepts each. -/
def again (order : Order) (retries : List (Int × Int)) : List Event :=
  retries.map fun r => .placeOrder order r.1 (.decided (.accept r.2))

variable (U) in
/-- The order is booked `n` times since the run. -/
def Booked (es later : List Event) (webToken : String) (order : Order) (n : Nat) : Prop :=
  ∃ entries : List Entry, entries.length = n ∧ (∀ e ∈ entries, e.webToken = webToken ∧ Means order e.order) ∧
    (run U C parse (es ++ later)).book = (run U C parse es).book ++ entries

theorem again_booked (hC : ∀ digest, 7 ≤ (C.md5ToHex digest).toList.length) {es later : List Event} {webToken : String}
    (hsession : (run U C parse (es ++ later)).httpSession = (Credentials.token webToken).session) {order : Order}
    (hsendable : order.Sendable) (hparse : Legible C parse order) {n : Nat}
    (hbooked : Booked U C parse es later webToken order n)
    (retries : List (Int × Int)) :
    Booked U C parse es (later ++ again order retries) webToken order (n + retries.length) := by
  induction retries generalizing later n with
  | nil =>
    show Booked U C parse es (later ++ []) webToken order n
    rwa [List.append_nil]
  | cons r retries ih =>
    have hlast : later ++ again order (r :: retries) =
        later ++ [.placeOrder order r.1 (.decided (.accept r.2))] ++ again order retries := by simp [again]
    obtain ⟨request, hrequest, hcall⟩ := call_sent (U := U) C parse r.1 hC webToken hsendable hparse (.decided (.accept r.2))
      (run U C parse (es ++ later)).book
    have hnext := run_concat U C parse (es ++ later) (.placeOrder order r.1 (.decided (.accept r.2)))
    rw [List.append_assoc] at hnext
    rw [hlast, List.length_cons, Nat.add_comm retries.length 1, ← Nat.add_assoc]
    apply ih
    · rw [hnext]
      exact hsession
    · obtain ⟨entries, hlength, hmeans, hbook⟩ := hbooked
      refine ⟨entries ++ [⟨webToken, r.2, request.meaning⟩], ?_, ?_, ?_⟩
      · rw [List.length_append, hlength, List.length_singleton]
      · intro e he
        rcases List.mem_append.mp he with hold | hnew
        · exact hmeans e hold
        · rw [List.mem_singleton.mp hnew]
          exact ⟨rfl, orderRequest_means hrequest⟩
      · rw [hnext]
        dsimp only [step]
        rw [hsession, hcall, hbook, List.append_assoc]
        rfl

/-- A caller cannot make up for an exception. However it decides from what it has
seen how often to place the order again: it has seen the same where the order was
lost and where it was booked, so in one of the two it is not in the book exactly
once. The exchange would know the order again, but it goes out without an id. -/
theorem retry_inexact (hC : ∀ digest, 7 ≤ (C.md5ToHex digest).toList.length) (es : List Event) {webToken : String}
    (hsession : (run U C parse es).httpSession = (Credentials.token webToken).session) {order : Order}
    (hsendable : order.Sendable) (hparse : Legible C parse order) (u : Unheard) (orderId : Int)
    (retries : List Outcome → List (Int × Int)) :
    ∃ outcomes, (∀ fate ∈ [Fate.lost u, .unheard (.accept orderId) u],
        (run U C parse (es ++ [.placeOrder order ts fate])).outcomes = outcomes) ∧
      Booked U C parse es ([.placeOrder order ts (.lost u)] ++ again order (retries outcomes)) webToken order
        (retries outcomes).length ∧
      Booked U C parse es ([.placeOrder order ts (.unheard (.accept orderId) u)] ++ again order (retries outcomes))
        webToken order (1 + (retries outcomes).length) := by
  have hnext : ∀ fate, run U C parse (es ++ [.placeOrder order ts fate]) =
      step U C parse (run U C parse es) (.placeOrder order ts fate) := fun fate => run_concat U C parse es _
  have hkept : ∀ fate, (run U C parse (es ++ [.placeOrder order ts fate])).httpSession =
      (Credentials.token webToken).session := by
    intro fate
    rw [hnext]
    exact hsession
  have hcall := fun fate => call_sent (U := U) C parse ts hC webToken hsendable hparse fate (run U C parse es).book
  refine ⟨(run U C parse es).outcomes ++ [⟨(Credentials.token webToken).session, order,
    placeOrder U (fun _ => u.reply) order⟩],
    ?_, ?_, ?_⟩
  · intro fate hfate
    obtain ⟨request, -, hfirst⟩ := hcall fate
    rw [hnext]
    dsimp only [step]
    rw [hsession, hfirst]
    rcases List.mem_pair.mp hfate with rfl | rfl <;> rfl
  · rw [← Nat.zero_add (List.length _)]
    apply again_booked C parse hC (hkept _) hsendable hparse
    obtain ⟨request, -, hfirst⟩ := hcall (.lost u)
    refine ⟨[], rfl, List.forall_mem_nil _, ?_⟩
    rw [hnext]
    dsimp only [step]
    rw [hsession, hfirst]
    rfl
  · apply again_booked C parse hC (hkept _) hsendable hparse
    obtain ⟨request, hrequest, hfirst⟩ := hcall (.unheard (.accept orderId) u)
    refine ⟨[⟨webToken, orderId, request.meaning⟩], rfl, ?_, ?_⟩
    · exact List.forall_mem_singleton.mpr ⟨rfl, orderRequest_means hrequest⟩
    · rw [hnext]
      dsimp only [step]
      rw [hsession, hfirst]
      rfl

theorem limitOrder_sendable : limitOrder.Sendable := by
  refine ⟨?_, ?_, ?_, ?_, rfl, fun _ => rfl⟩ <;> exact fun v h => by cases h

theorem retry_inexact_once : ∃ outcomes, (∀ fate ∈ [Fate.lost brokenStream, .unheard (.accept 17) brokenStream],
      (run .plain orderPlatform parseLimit ([.login ("WEB3f1c", "", "")] ++
        [.placeOrder limitOrder 1700000000000 fate])).outcomes = outcomes) ∧
    Booked .plain orderPlatform parseLimit [.login ("WEB3f1c", "", "")]
      ([.placeOrder limitOrder 1700000000000 (.lost brokenStream)] ++ again limitOrder [(1700000000000, 18)]) "WEB3f1c"
      limitOrder 1 ∧
    Booked .plain orderPlatform parseLimit [.login ("WEB3f1c", "", "")]
      ([.placeOrder limitOrder 1700000000000 (.unheard (.accept 17) brokenStream)] ++
        again limitOrder [(1700000000000, 18)]) "WEB3f1c" limitOrder 2 :=
  retry_inexact orderPlatform parseLimit 1700000000000 orderPlatform_hex [.login ("WEB3f1c", "", "")] rfl limitOrder_sendable
    limitOrder_legible brokenStream 17 fun _ => [(1700000000000, 18)]

end Trading

end

end Futures

end MexcApi
