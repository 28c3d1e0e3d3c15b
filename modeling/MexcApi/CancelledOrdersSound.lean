import MexcApi.ConnectorQueriesSound
import MexcApi.Leases
import MexcApi.PlacedOrdersSound

/-!
# Cancellations over a connection that fails

A run of the client against the open orders of an exchange, which are opened and
filled meanwhile. Unlike an order, a cancellation names what it is about, so
after an exception it can be sent again until an answer is heard.
-/

namespace MexcApi

open Nlohmann

namespace Futures

/-! ## The exchange -/

/-- The orders, each with the token of its account. -/
abbrev OrderBook := Leases.Book String Int

def cancelPath : String := "/api/v1/private/order/cancel"

def cancelBody (orderIds : List Int) : Json := .arr (orderIds.map fun orderId => .num (.int orderId))

def readOrderIds : Json → Option (List Int)
  | .arr items => items.mapM Json.integer?
  | _ => none

open Classical in
/-- The account and the orders that a message cancels, if its signature holds. -/
noncomputable def cancelledBy (C : Platform) (parse : String → Option Json) (m : Message) : Option (String × List Int) :=
  match m.get? "Authorization" with
  | none => none
  | some webToken =>
    if Accepted C m (.token webToken) ∧ m.method = .post ∧ m.target = cancelPath then
      ((parse m.body).bind readOrderIds).map fun orderIds => (webToken, orderIds)
    else none

def cancelVerdict (isOpen : Bool) (orderId : Int) : CancelOrderResponse.Result :=
  if isOpen then { orderId, errorCode := 0, errorMsg := "success" }
  else { orderId, errorCode := 2041, errorMsg := "order state cannot be cancelled" }

def cancelEach (account : String) : OrderBook → List Int → List CancelOrderResponse.Result
  | _, [] => []
  | b, orderId :: orderIds =>
    cancelVerdict (decide ((account, orderId) ∈ b.open)) orderId :: cancelEach account (b.finish (account, orderId)) orderIds

def CancelOrderResponse.Result.json (r : CancelOrderResponse.Result) : Json :=
  .obj [("errorCode", .num (.int r.errorCode)), ("errorMsg", .str r.errorMsg), ("orderId", .num (.int r.orderId))]

def cancelReply (results : List CancelOrderResponse.Result) : HttpResponse :=
  Decision.reply.verdict true 0 (.arr (results.map CancelOrderResponse.Result.json))

/-- What becomes of a message. -/
inductive Passage where
  | lost (reply : Unheard)
  | served
  | unheard (reply : Unheard)

namespace Passage

variable (b : OrderBook) (asked : Option (String × List Int))

def change : Passage → OrderBook
  | lost _ => b
  | served | unheard _ =>
    match asked with
    | some (account, orderIds) => b.finishAll account orderIds
    | none => b

def reply : Passage → Except Fault HttpResponse
  | lost reply | unheard reply => reply.reply
  | served =>
    match asked with
    | some (account, orderIds) => .ok (cancelReply (cancelEach account b orderIds))
    | none => .ok (Decision.reply (.reject 600))

end Passage

/-! ## Runs -/

/-- A call as the caller knows it, with the session it was made with. -/
structure CancelOutcome where
  session : HTTPSession.P
  orderIds : List Int
  result : Except Fault CancelOrderResponse

/-- The orders that a call reports cancelled. -/
def CancelOutcome.cancelled (o : CancelOutcome) : List (String × Int) :=
  match o.result with
  | .error _ => []
  | .ok response => (response.results.filter fun r => r.errorCode = 0).map fun r => (o.session.webToken, r.orderId)

structure Cancelling where
  httpSession : HTTPSession.P := RESTClient.new "" ""
  book : OrderBook := {}
  outcomes : List CancelOutcome := []

namespace Cancelling

inductive Event where
  | login (credentials : String × String × String)
  | opened (webToken : String)
  | filled (webToken : String) (orderId : Int)
  | cancelOrders (orderIds : List Int) (ts : Int) (passage : Passage)

def Event.isMarket : Event → Bool
  | opened _ | filled _ _ => true
  | login _ | cancelOrders _ _ _ => false

def cancelled (s : Cancelling) : List (String × Int) := s.outcomes.flatMap CancelOutcome.cancelled

section
variable (U : JsonUtils) (C : Platform) (parse : String → Option Json) (orderName : Nat → Int)

/-- The connection takes each message to the exchange. -/
noncomputable def connection (passage : Passage) (message : Message) : Served.Program Fault OrderBook HttpResponse :=
  Served.ask fun b => (passage.reply b (cancelledBy C parse message), passage.change b (cancelledBy C parse message))

/-- How `cancelOrders` ends, and the book after it. -/
noncomputable def call (p : HTTPSession.P) (orderIds : List Int) (ts : Int) (passage : Passage) (b : OrderBook) :
    Except Fault CancelOrderResponse × OrderBook :=
  Served.exec (RESTClient.cancelOrders U (p.perform C ts (connection C parse passage)) orderIds) b

noncomputable def step (s : Cancelling) : Event → Cancelling
  | .login credentials => { s with httpSession := Futures.login credentials }
  | .opened webToken => { s with book := s.book.issue orderName webToken }
  | .filled webToken orderId => { s with book := s.book.finish (webToken, orderId) }
  | .cancelOrders orderIds ts passage => { s with
      book := (call U C parse s.httpSession orderIds ts passage s.book).2
      outcomes := s.outcomes ++ [⟨s.httpSession, orderIds, (call U C parse s.httpSession orderIds ts passage s.book).1⟩] }

noncomputable def run (es : List Event) : Cancelling := es.foldl (step U C parse orderName) {}

theorem run_concat (es : List Event) (e : Event) :
    run U C parse orderName (es ++ [e]) = step U C parse orderName (run U C parse orderName es) e := by
  simp [run]

end

end Cancelling

/-! ## One call -/

theorem readOrderIds_body (orderIds : List Int) : readOrderIds (cancelBody orderIds) = some orderIds := by
  show (orderIds.map fun orderId => Json.num (.int orderId)).mapM Json.integer? = some orderIds
  induction orderIds with
  | nil => rfl
  | cons orderId orderIds ih =>
    rw [List.map_cons, List.mapM_cons, ih]
    rfl

theorem cancelEach_orderIds (account : String) (orderIds : List Int) : ∀ b : OrderBook,
    (cancelEach account b orderIds).map CancelOrderResponse.Result.orderId = orderIds := by
  induction orderIds with
  | nil => exact fun _ => rfl
  | cons orderId orderIds ih =>
    intro b
    have hname : ∀ isOpen, (cancelVerdict isOpen orderId).orderId = orderId := by
      intro isOpen
      cases isOpen <;> rfl
    rw [cancelEach, List.map_cons, hname, ih]

theorem cancelEach_taken (account : String) (orderIds : List Int) : ∀ b : OrderBook,
    ((cancelEach account b orderIds).filter fun r => r.errorCode = 0).map CancelOrderResponse.Result.orderId =
      Leases.Book.taken account b orderIds := by
  induction orderIds with
  | nil => exact fun _ => rfl
  | cons orderId orderIds ih =>
    intro b
    rw [cancelEach, Leases.Book.taken, ← ih]
    by_cases h : (account, orderId) ∈ b.open <;> simp [h, cancelVerdict]

/-- What the decoder does with one entry of the reply. -/
def readResult (U : JsonUtils) (item : Json) : Except Fault CancelOrderResponse.Result := do
  let orderId ← U.readValue Json.getInt64 item "orderId" 0
  let errorCode ← U.readValue Json.getInt32 item "errorCode" 0
  let errorMsg ← U.readValue Json.getString item "errorMsg" ""
  return { orderId, errorCode, errorMsg }

section
variable {U : JsonUtils} (hU : U.Lawful)
include hU

theorem readResult_json (r : CancelOrderResponse.Result) : readResult U r.json = .ok r := by
  have hid : r.json.find? "orderId" = some (.num (.int r.orderId)) := rfl
  have hcode : r.json.find? "errorCode" = some (.num (.int r.errorCode)) := rfl
  have hmsg : r.json.find? "errorMsg" = some (.str r.errorMsg) := rfl
  have hreadId := hU.present Json.getInt64 0 hid fun h => by cases h
  have hreadCode := hU.present Json.getInt32 0 hcode fun h => by cases h
  have hreadMsg := hU.present Json.getString "" hmsg fun h => by cases h
  unfold readResult
  rw [hreadId, hreadCode, hreadMsg]
  rfl

theorem cancelOrders_delivered {httpSession : MexcApi.HTTPSession} {orderIds : List Int}
    {results : List CancelOrderResponse.Result}
    (h : Delivers (· = .arr (results.map CancelOrderResponse.Result.json))
      (httpSession (.methodPostBody cancelPath (cancelBody orderIds)))) :
    ∃ response, RESTClient.cancelOrders U httpSession orderIds = .ok response ∧ response.results = results := by
  have hresults := Encoded.mapM_json (results.map fun r => ⟨r.json, r, readResult_json hU r⟩)
  simp only [List.map_map, Function.comp_def, List.map_id'] at hresults
  obtain ⟨reply, value, hreply, hchecked, hvalue, hsame⟩ :=
    h.handled hU (CancelOrderResponse.fromJson U) CancelOrderResponse.toResponse (fun value => value.results = results) (by
      intro json response hresponse _ hdata
      refine ⟨{ response with results }, ?_, rfl, rfl⟩
      unfold CancelOrderResponse.fromJson
      rw [hresponse, ok_bind, hdata]
      show (List.mapM (readResult U) (results.map CancelOrderResponse.Result.json) >>= _) = _
      rw [hresults]
      rfl)
  have hdecoded : RESTClient.cancelOrders U httpSession orderIds =
      httpSession (.methodPostBody cancelPath (cancelBody orderIds)) >>= fun response => checkResponse response >>=
        handleMEXCResponse (CancelOrderResponse.fromJson U) CancelOrderResponse.toResponse := rfl
  refine ⟨value, ?_, hsame⟩
  rw [hdecoded, hreply, ok_bind, hchecked, ok_bind, hvalue]

omit hU in
theorem cancelOrders_unheard {httpSession : MexcApi.HTTPSession} {orderIds : List Int}
    (h : ∀ response, httpSession (.methodPostBody cancelPath (cancelBody orderIds)) = .ok response → response.result ≠ 200) :
    ∃ e, RESTClient.cancelOrders U httpSession orderIds = .error e :=
  unchecked h _

end

namespace Cancelling

section
variable {U : JsonUtils} (hU : U.Lawful) (C : Platform) (parse : String → Option Json) (ts : Int)

/-- The text of the body is read back. -/
def Legible (orderIds : List Int) : Prop := parse (C.dump (cancelBody orderIds)) = some (cancelBody orderIds)

theorem cancelledBy_post {webToken : String} {orderIds : List Int} {m : Message}
    (hauth : m.get? "Authorization" = some webToken) (haccepted : Accepted C m (.token webToken))
    (hmethod : m.method = .post)
    (htarget : m.target = cancelPath) (hbody : parse m.body = some (cancelBody orderIds)) :
    cancelledBy C parse m = some (webToken, orderIds) := by
  unfold cancelledBy
  rw [hauth]
  dsimp only
  rw [if_pos ⟨haccepted, hmethod, htarget⟩, hbody, Option.bind_some, readOrderIds_body]
  rfl

/-- Cancelling is one request to the exchange, and the reply alone decides how it ends. -/
theorem exec_cancelOrders {σ : Type} (s : σ) (U : JsonUtils)
    (httpSession : HttpRequest → Served.Program Fault σ HttpResponse)
    (orderIds : List Int) : Served.exec (RESTClient.cancelOrders U httpSession orderIds) s =
      (RESTClient.cancelOrders U (fun request => (Served.exec (httpSession request) s).1) orderIds,
        (Served.exec (httpSession (.methodPostBody cancelPath (cancelBody orderIds))) s).2) :=
  Served.exec_bind_quiet _ (fun response s => Served.exec_lift_lift (checkResponse response)
    (handleMEXCResponse (CancelOrderResponse.fromJson U) CancelOrderResponse.toResponse) s) s

theorem call_session (U : JsonUtils) (p : HTTPSession.P) (b : OrderBook) (orderIds : List Int) (passage : Passage) :
    ∃ httpSession : MexcApi.HTTPSession,
      httpSession (.methodPostBody cancelPath (cancelBody orderIds)) =
        (Served.exec (p.perform C ts (connection C parse passage) (.methodPostBody cancelPath (cancelBody orderIds))) b).1 ∧
      call U C parse p orderIds ts passage b = (RESTClient.cancelOrders U httpSession orderIds,
        (Served.exec (p.perform C ts (connection C parse passage)
        (.methodPostBody cancelPath (cancelBody orderIds))) b).2) :=
  ⟨_, rfl, exec_cancelOrders b U (p.perform C ts (connection C parse passage)) orderIds⟩

include hU in
/-- A call leaves the book as it is and throws, or all its orders are taken from
the account of its token, and the caller gets the results or an exception. -/
theorem call_cases (c : Credentials) (b : OrderBook) {orderIds : List Int} (hparse : Legible C parse orderIds)
    (passage : Passage) :
    ((∃ e, call U C parse c.session orderIds ts passage b = (.error e, b)) ∧
      ¬ (passage = .served ∧ ∃ m, c.session.message C ts (.methodPostBody cancelPath (cancelBody orderIds)) =
        some (.ok m))) ∨
    ∃ webToken, c = .token webToken ∧ (call U C parse c.session orderIds ts passage b).2 = b.finishAll webToken orderIds ∧
      ((∃ response, (call U C parse c.session orderIds ts passage b).1 = .ok response ∧
          response.results = cancelEach webToken b orderIds) ∨
        (∃ u, passage = .unheard u) ∧ ∃ e, (call U C parse c.session orderIds ts passage b).1 = .error e) := by
  obtain ⟨httpSession, hsession, hcall⟩ := call_session C parse ts U c.session b orderIds passage
  rw [hcall]
  -- a message that cannot be made is an exception of the session
  have hthrows : ∀ {e : Fault}, c.session.message C ts (.methodPostBody cancelPath (cancelBody orderIds)) = some (.error e) →
      (∃ e, (RESTClient.cancelOrders U httpSession orderIds, (Served.exec (c.session.perform C ts
        (connection C parse passage) (.methodPostBody cancelPath (cancelBody orderIds))) b).2) = (.error e, b)) ∧
      ¬ (passage = .served ∧ ∃ m, c.session.message C ts (.methodPostBody cancelPath (cancelBody orderIds)) =
        some (.ok m)) := by
    intro e hm
    rw [exec_perform_unsent b C hm] at hsession ⊢
    constructor
    · obtain ⟨e', he'⟩ : ∃ e', RESTClient.cancelOrders U httpSession orderIds = .error e' := by
        refine cancelOrders_unheard fun response hresponse => ?_
        rw [hsession] at hresponse
        cases hresponse
      exact ⟨e', congrArg (Prod.mk · b) he'⟩
    · rintro ⟨-, m, hm'⟩
      rw [hm] at hm'
      cases hm'
  cases c with
  | key apiKey apiSecret => exact Or.inl (hthrows rfl)
  | token webToken =>
    rcases token_post C ts webToken cancelPath (cancelBody orderIds) with
      ⟨e, -, hm⟩ | ⟨m, hm, hauth, haccepted, hmethod, htarget, hbody⟩
    · exact Or.inl (hthrows hm)
    · have hread : parse m.body = some (cancelBody orderIds) := by
        rw [hbody]
        exact hparse
      have hasked := cancelledBy_post C parse hauth haccepted hmethod htarget hread
      unfold connection at hsession ⊢
      rw [exec_perform b C hm, Served.exec_ask, hasked] at hsession ⊢
      have hunheard : (∀ response, passage.reply b (some (webToken, orderIds)) = .ok response → response.result ≠ 200) →
          ∃ e, RESTClient.cancelOrders U httpSession orderIds = .error e := by
        intro hnone
        exact cancelOrders_unheard (by rwa [hsession])
      cases passage with
      | lost u =>
        obtain ⟨e, he⟩ := hunheard fun response h => u.not_ok h
        exact Or.inl ⟨⟨e, congrArg (Prod.mk · b) he⟩, fun h => by cases h.1⟩
      | served =>
        refine Or.inr ⟨webToken, rfl, rfl, Or.inl (cancelOrders_delivered hU ?_)⟩
        exact ⟨_, _, _, hsession, rfl, rfl, rfl, rfl, rfl, rfl⟩
      | unheard u => exact Or.inr ⟨webToken, rfl, rfl, Or.inr ⟨⟨u, rfl⟩, hunheard fun response h => u.not_ok h⟩⟩

/-! ## One event -/

/-- The event ends the order: a fill, or a call of its account that names it, and
then the caller is told or the answer is lost. -/
def Event.Ends (e : Event) (outcomes : List CancelOutcome) (order : String × Int) : Prop :=
  e = .filled order.1 order.2 ∨ ∃ o ts passage, e = .cancelOrders o.orderIds ts passage ∧ outcomes = [o] ∧
    o.session = (Credentials.token order.1).session ∧ order.2 ∈ o.orderIds ∧
    (order ∈ o.cancelled ∨ ∃ u, passage = .unheard u)

/-- One verdict for each order that was named. -/
def Answered (o : CancelOutcome) : Prop :=
  ∀ response, o.result = .ok response → response.results.map CancelOrderResponse.Result.orderId = o.orderIds

/-- What an event ends, and the calls it makes. -/
structure Effect (orderName : Nat → Int) (e : Event) (b b' : OrderBook) (gone : List (String × Int))
    (outcomes : List CancelOutcome) : Prop where
  sound : b.Sound orderName → b'.Sound orderName
  ended : b'.ended = b.ended ++ gone
  reported : (outcomes.flatMap CancelOutcome.cancelled).Sublist gone
  caused : ∀ order ∈ gone, e.Ends outcomes order
  answered : ∀ o ∈ outcomes, Answered o

theorem Effect.quiet {orderName : Nat → Int} {e : Event} {b b' : OrderBook} {outcomes : List CancelOutcome}
    (hsound : b.Sound orderName → b'.Sound orderName) (hended : b'.ended = b.ended)
    (hfailed : ∀ o ∈ outcomes, ∃ e, o.result = .error e) : Effect orderName e b b' [] outcomes := by
  refine ⟨hsound, by rw [hended, List.append_nil], ?_, List.forall_mem_nil _, ?_⟩
  · have hnone : outcomes.flatMap CancelOutcome.cancelled = [] := by
      refine List.flatMap_eq_nil_iff.mpr fun o ho => ?_
      obtain ⟨e, he⟩ := hfailed o ho
      unfold CancelOutcome.cancelled
      rw [he]
    rw [hnone]
  · intro o ho response hresponse
    obtain ⟨e, he⟩ := hfailed o ho
    rw [he] at hresponse
    cases hresponse

include hU in
theorem call_effect (orderName : Nat → Int) (c : Credentials) (b : OrderBook) {orderIds : List Int}
    (hparse : Legible C parse orderIds) (passage : Passage) :
    ∃ gone, Effect orderName (.cancelOrders orderIds ts passage) b (call U C parse c.session orderIds ts passage b).2 gone
      [⟨c.session, orderIds, (call U C parse c.session orderIds ts passage b).1⟩] := by
  rcases call_cases hU C parse ts c b hparse passage with
    ⟨⟨e, hfailed⟩, -⟩ | ⟨webToken, rfl, hchanged, ⟨response, hcall, hresults⟩ | ⟨⟨u, rfl⟩, e, hcall⟩⟩
  · rw [hfailed]
    refine ⟨[], .quiet id rfl fun o ho => ?_⟩
    rw [List.mem_singleton.mp ho]
    exact ⟨e, rfl⟩
  · -- what is reported is what ends
    let o : CancelOutcome := ⟨(Credentials.token webToken).session, orderIds, .ok response⟩
    have hcancelled : o.cancelled = (Leases.Book.taken webToken b orderIds).map (Prod.mk webToken) := by
      rw [← cancelEach_taken, List.map_map, ← hresults]
      rfl
    rw [hcall, hchanged]
    refine ⟨o.cancelled, fun h => h.finishAll webToken orderIds, ?_, ?_, fun order horder => ?_, ?_⟩
    · rw [hcancelled, Leases.Book.finishAll_ended]
    · show (o.cancelled ++ []).Sublist o.cancelled
      rw [List.append_nil]
    · have htold := horder
      rw [hcancelled] at horder
      obtain ⟨orderId, hid, rfl⟩ := List.mem_map.mp horder
      exact Or.inr ⟨o, ts, passage, rfl, rfl, rfl, Leases.Book.taken_subset _ _ _ hid, Or.inl htold⟩
    · intro o' ho' response' hresponse'
      rw [List.mem_singleton.mp ho'] at hresponse' ⊢
      cases hresponse'
      rw [hresults, cancelEach_orderIds]
  · rw [hcall, hchanged]
    refine ⟨_, fun h => h.finishAll webToken orderIds, Leases.Book.finishAll_ended _ _ _, List.nil_sublist _, ?_, ?_⟩
    · intro order horder
      obtain ⟨orderId, hid, rfl⟩ := List.mem_map.mp horder
      exact Or.inr ⟨_, ts, _, rfl, rfl, rfl, Leases.Book.taken_subset _ _ _ hid, Or.inr ⟨u, rfl⟩⟩
    · intro o ho response hresponse
      rw [List.mem_singleton.mp ho] at hresponse
      cases hresponse

theorem session_run (orderName : Nat → Int) (es : List Event) :
    ∃ c : Credentials, (run U C parse orderName es).httpSession = c.session := by
  induction es using List.reverseRecOn with
  | nil => exact ⟨.key "" "", rfl⟩
  | append_singleton es e ih =>
    rw [run_concat]
    cases e with
    | login credentials => exact login_session credentials
    | opened webToken => exact ih
    | filled webToken orderId => exact ih
    | cancelOrders orderIds ts passage => exact ih

/-- Every list of orders of the run is read back from its text. -/
def AllLegible (es : List Event) : Prop :=
  ∀ orderIds ts passage, Event.cancelOrders orderIds ts passage ∈ es → Legible C parse orderIds

/-- Attempts to cancel the same orders, while the exchange goes on. -/
def Attempts (orderIds : List Int) (es : List Event) : Prop :=
  ∀ e ∈ es, e.isMarket = true ∨ ∃ ts passage, e = .cancelOrders orderIds ts passage

theorem Attempts.legible {orderIds : List Int} {attempts : List Event} (h : Attempts orderIds attempts)
    (hparse : Legible C parse orderIds) : AllLegible C parse attempts := by
  intro other ts passage he
  rcases h _ he with hmarket | ⟨ts', passage', heq⟩
  · cases hmarket
  · cases heq
    exact hparse

theorem AllLegible.append {es es' : List Event} (h : AllLegible C parse es) (h' : AllLegible C parse es') :
    AllLegible C parse (es ++ es') :=
  fun orderIds ts passage he => (List.mem_append.mp he).elim (h orderIds ts passage) (h' orderIds ts passage)

variable (U) in
/-- The order has ended at an event of the run that ends it. -/
def Caused (orderName : Nat → Int) (es : List Event) (order : String × Int) : Prop :=
  ∃ before e after outcomes, es = before ++ e :: after ∧ order ∉ (run U C parse orderName before).book.ended ∧
    order ∈ (run U C parse orderName (before ++ [e])).book.ended ∧
    (run U C parse orderName (before ++ [e])).outcomes = (run U C parse orderName before).outcomes ++ outcomes ∧
    e.Ends outcomes order

variable {C parse} in
theorem Caused.append {orderName : Nat → Int} {es : List Event} {order : String × Int}
    (h : Caused U C parse orderName es order)
    (es' : List Event) : Caused U C parse orderName (es ++ es') order := by
  obtain ⟨before, e, after, outcomes, rfl, hends⟩ := h
  exact ⟨before, e, after ++ es', outcomes, by rw [List.append_assoc, List.cons_append], hends⟩

variable {orderName : Nat → Int} (hname : Function.Injective orderName)
include hU hname

theorem step_effect {s : Cancelling} {c : Credentials} (hc : s.httpSession = c.session) {e : Event}
    (hparse : AllLegible C parse [e]) : ∃ gone outcomes,
      Effect orderName e s.book (step U C parse orderName s e).book gone outcomes ∧
      (step U C parse orderName s e).outcomes = s.outcomes ++ outcomes := by
  cases e with
  | login credentials => exact ⟨[], [], .quiet id rfl (List.forall_mem_nil _), (List.append_nil _).symm⟩
  | opened webToken =>
    exact ⟨[], [], .quiet (fun h => h.issue hname webToken) rfl (List.forall_mem_nil _), (List.append_nil _).symm⟩
  | filled webToken orderId =>
    refine ⟨_, [], ⟨fun h => h.finish _, s.book.finish_ended _, List.nil_sublist _, ?_, List.forall_mem_nil _⟩,
      (List.append_nil _).symm⟩
    intro order horder
    by_cases hopen : (webToken, orderId) ∈ s.book.open
    · rw [if_pos hopen] at horder
      rw [List.mem_singleton.mp horder]
      exact Or.inl rfl
    · rw [if_neg hopen] at horder
      cases horder
  | cancelOrders orderIds ts passage =>
    obtain ⟨gone, heffect⟩ := call_effect hU C parse ts orderName c s.book
      (hparse orderIds ts passage (List.mem_singleton_self _)) passage
    rw [← hc] at heffect
    exact ⟨gone, _, heffect, rfl⟩

/-! ## The whole run -/

variable (U orderName) in
/-- What the exchange has ended and what the caller knows of it. -/
structure Consistent (es : List Event) (s : Cancelling) : Prop where
  sound : s.book.Sound orderName
  reported : s.cancelled.Sublist s.book.ended
  caused : ∀ order ∈ s.book.ended, Caused U C parse orderName es order
  answered : ∀ o ∈ s.outcomes, Answered o

theorem consistent_run (es : List Event) (hes : AllLegible C parse es) :
    Consistent U C parse orderName es (run U C parse orderName es) := by
  induction es using List.reverseRecOn with
  | nil => exact ⟨⟨List.nodup_nil, List.forall_mem_nil _⟩, List.nil_sublist _, List.forall_mem_nil _, List.forall_mem_nil _⟩
  | append_singleton es e ih =>
    have hold := ih fun orderIds ts passage h => hes orderIds ts passage (List.mem_append_left _ h)
    obtain ⟨c, hc⟩ := session_run (U := U) C parse orderName es
    obtain ⟨gone, outcomes, heffect, houtcomes⟩ := step_effect hU C parse hname hc (e := e)
      fun orderIds ts passage h => hes orderIds ts passage (List.mem_append_right _ h)
    rw [run_concat]
    refine ⟨heffect.sound hold.sound, ?_, ?_, ?_⟩
    · unfold cancelled
      rw [houtcomes, heffect.ended, List.flatMap_append]
      exact hold.reported.append heffect.reported
    · intro order horder
      by_cases hbefore : order ∈ (run U C parse orderName es).book.ended
      · exact (hold.caused order hbefore).append [e]
      · refine ⟨es, e, [], outcomes, rfl, hbefore, ?_, ?_, ?_⟩
        · rwa [run_concat]
        · rw [run_concat, houtcomes]
        · rw [heffect.ended] at horder
          exact heffect.caused order ((List.mem_append.mp horder).resolve_left hbefore)
    · rw [houtcomes]
      intro o ho
      exact (List.mem_append.mp ho).elim (hold.answered o) (heffect.answered o)

/-- Whatever gets lost: no order is reported cancelled twice, one that is never
is open again, an order ends only by a fill or by a call of its account that
names it, and a call that returns has one verdict for each order it named. -/
theorem cancelled_once (es : List Event) (hes : AllLegible C parse es) :
    (run U C parse orderName es).cancelled.Nodup ∧
    (∀ order ∈ (run U C parse orderName es).cancelled, order ∉ (run U C parse orderName es).book.open) ∧
    (∀ order ∈ (run U C parse orderName es).book.ended, Caused U C parse orderName es order) ∧
    ∀ o ∈ (run U C parse orderName es).outcomes, Answered o := by
  have hrun := consistent_run hU C parse hname es hes
  refine ⟨?_, fun order horder => hrun.sound.disjoint (hrun.reported.subset horder), hrun.caused, hrun.answered⟩
  exact hrun.reported.nodup hrun.sound.ended_nodup

end

/-! ## Two orders whose cancellation is not heard -/

def nextOrder (n : Nat) : Int := 101 + n

theorem nextOrder_injective : Function.Injective nextOrder := by
  intro m n h
  unfold nextOrder at h
  omega

def parseCancel (text : String) : Option Json := if text = "[101,102]" then some (cancelBody [101, 102]) else none

theorem parseCancel_legible : Legible cancelPlatform parseCancel [101, 102] := rfl

def twoOrders : List Event := [.login ("WEB3f1c", "", ""), .opened "WEB3f1c", .opened "WEB3f1c"]

/-- The orders are cancelled, the answer is lost, and the exchange goes on. -/
def lostAnswer : List Event :=
  [.cancelOrders [101, 102] 1700000000000 (.unheard brokenStream), .opened "WEB3f1c", .filled "WEB3f1c" 103]

theorem twoOrders_legible : AllLegible cancelPlatform parseCancel twoOrders := by
  intro orderIds ts passage h
  simp [twoOrders] at h

theorem lostAnswer_attempts : Attempts [101, 102] lostAnswer := by
  intro e he
  rcases List.mem_cons.mp he with rfl | he
  · exact Or.inr ⟨_, _, rfl⟩
  · left
    rcases List.mem_pair.mp he with rfl | rfl <;> rfl

theorem cancelled_once_unheard :
    (run .plain cancelPlatform parseCancel nextOrder (twoOrders ++ lostAnswer)).cancelled.Nodup ∧
    (∀ order ∈ (run .plain cancelPlatform parseCancel nextOrder (twoOrders ++ lostAnswer)).cancelled,
      order ∉ (run .plain cancelPlatform parseCancel nextOrder (twoOrders ++ lostAnswer)).book.open) ∧
    (∀ order ∈ (run .plain cancelPlatform parseCancel nextOrder (twoOrders ++ lostAnswer)).book.ended,
      Caused .plain cancelPlatform parseCancel nextOrder (twoOrders ++ lostAnswer) order) ∧
    ∀ o ∈ (run .plain cancelPlatform parseCancel nextOrder (twoOrders ++ lostAnswer)).outcomes, Answered o :=
  cancelled_once JsonUtils.plain_lawful cancelPlatform parseCancel nextOrder_injective (twoOrders ++ lostAnswer)
    (twoOrders_legible.append _ _ (lostAnswer_attempts.legible _ _ parseCancel_legible))

/-! ## After an exception -/

section
variable {U : JsonUtils} (hU : U.Lawful) (C : Platform) (parse : String → Option Json) (ts : Int) {orderName : Nat → Int}
  (hname : Function.Injective orderName)
include hU hname

theorem attempts_spared {es : List Event} (hes : AllLegible C parse es) {webToken : String}
    (hsession : (run U C parse orderName es).httpSession = (Credentials.token webToken).session) {orderIds : List Int}
    (hparse : Legible C parse orderIds) (attempts : List Event) (hattempts : Attempts orderIds attempts) :
    (run U C parse orderName (es ++ attempts)).httpSession = (Credentials.token webToken).session ∧
    (run U C parse orderName (es ++ attempts)).book.issued =
      (run U C parse orderName (es ++ attempts.filter Event.isMarket)).book.issued ∧
    (run U C parse orderName (es ++ attempts)).book.spared webToken orderIds =
      (run U C parse orderName (es ++ attempts.filter Event.isMarket)).book.spared webToken orderIds := by
  induction attempts using List.reverseRecOn with
  | nil => exact ⟨by rw [List.append_nil]; exact hsession, rfl, rfl⟩
  | append_singleton attempts e ih =>
    have hbefore : Attempts orderIds attempts := fun e he => hattempts e (List.mem_append_left _ he)
    have hmarket : Attempts orderIds (attempts.filter Event.isMarket) := fun e he => hbefore e (List.mem_of_mem_filter he)
    obtain ⟨hkept, hissued, hrest⟩ := ih hbefore
    have hsound := (consistent_run hU C parse hname _ (hes.append C parse (hbefore.legible C parse hparse))).sound
    have hsound' := (consistent_run hU C parse hname _ (hes.append C parse (hmarket.legible C parse hparse))).sound
    rw [List.filter_append, ← List.append_assoc, ← List.append_assoc, run_concat]
    cases e with
    | login credentials =>
      rcases hattempts _ (List.mem_append_right _ (List.mem_singleton_self _)) with h | ⟨ts, passage, h⟩ <;> cases h
    | opened account =>
      rw [show [Event.opened account].filter Event.isMarket = [Event.opened account] from rfl, run_concat]
      exact ⟨hkept, congrArg (· + 1) hissued, Leases.Book.spared_issue account hissued hrest⟩
    | filled account orderId =>
      rw [show [Event.filled account orderId].filter Event.isMarket = [Event.filled account orderId] from rfl, run_concat]
      refine ⟨hkept, ?_, ?_⟩
      · exact (Leases.Book.finish_issued _ _).trans (hissued.trans (Leases.Book.finish_issued _ _).symm)
      · exact (hsound.spared_finish _ _ _).trans ((congrArg _ hrest).trans (hsound'.spared_finish _ _ _).symm)
    | cancelOrders ids ts passage =>
      have hsame : ids = orderIds := by
        rcases hattempts _ (List.mem_append_right _ (List.mem_singleton_self _)) with h | ⟨ts, passage, h⟩ <;> cases h
        rfl
      rw [show [Event.cancelOrders ids ts passage].filter Event.isMarket = [] from rfl, List.append_nil, hsame]
      refine ⟨hkept, ?_⟩
      dsimp only [step]
      rw [hkept]
      rcases call_cases hU C parse ts (.token webToken) (run U C parse orderName (es ++ attempts)).book hparse passage with
        ⟨⟨e, hfailed⟩, -⟩ | ⟨token, htoken, hchanged, -⟩
      · rw [hfailed]
        exact ⟨hissued, hrest⟩
      · cases htoken
        rw [hchanged]
        exact ⟨(Leases.Book.finishAll_issued _ _ _).trans hissued, (hsound.spared_finishAll _ _).trans hrest⟩

/-- A caller can make up for an exception by calling again: once an answer is
heard, none of the orders is open, and the others are what they would be without
any of the attempts. -/
theorem retry_settled (hC : ∀ digest, 7 ≤ (C.md5ToHex digest).toList.length) (es : List Event) (hes : AllLegible C parse es)
    {webToken : String} (hsession : (run U C parse orderName es).httpSession = (Credentials.token webToken).session)
    {orderIds : List Int} (hparse : Legible C parse orderIds) (attempts : List Event)
    (hattempts : Attempts orderIds attempts) :
    ∃ response, (run U C parse orderName (es ++ attempts ++ [.cancelOrders orderIds ts .served])).outcomes =
        (run U C parse orderName (es ++ attempts)).outcomes ++
        [⟨(Credentials.token webToken).session, orderIds, .ok response⟩] ∧
      response.results.map CancelOrderResponse.Result.orderId = orderIds ∧
      (run U C parse orderName (es ++ attempts ++ [.cancelOrders orderIds ts .served])).book.open =
        (run U C parse orderName (es ++ attempts.filter Event.isMarket)).book.open.filter
          fun order => ¬ (order.1 = webToken ∧ order.2 ∈ orderIds) := by
  obtain ⟨hkept, -, hrest⟩ := attempts_spared hU C parse hname hes hsession hparse attempts hattempts
  have hsound := (consistent_run hU C parse hname _ (hes.append C parse (hattempts.legible C parse hparse))).sound
  rw [run_concat]
  dsimp only [step]
  rw [hkept]
  rcases call_cases hU C parse ts (.token webToken) (run U C parse orderName (es ++ attempts)).book hparse .served with
    ⟨-, hnot⟩ | ⟨token, htoken, hchanged, ⟨response, hcall, hresults⟩ | ⟨⟨u, hu⟩, -⟩⟩
  · exact absurd ⟨rfl, token_posted C ts hC webToken cancelPath (cancelBody orderIds)⟩ hnot
  · cases htoken
    refine ⟨response, by rw [hcall], by rw [hresults, cancelEach_orderIds], ?_⟩
    rw [hchanged, Leases.Book.Sound.finishAll_open webToken orderIds hsound]
    exact hrest
  · cases hu

end

theorem retry_settled_unheard :
    ∃ response, (run .plain cancelPlatform parseCancel nextOrder
          (twoOrders ++ lostAnswer ++ [.cancelOrders [101, 102] 1700000001000 .served])).outcomes =
        (run .plain cancelPlatform parseCancel nextOrder (twoOrders ++ lostAnswer)).outcomes ++
          [⟨(Credentials.token "WEB3f1c").session, [101, 102], .ok response⟩] ∧
      response.results.map CancelOrderResponse.Result.orderId = [101, 102] ∧
      (run .plain cancelPlatform parseCancel nextOrder
          (twoOrders ++ lostAnswer ++ [.cancelOrders [101, 102] 1700000001000 .served])).book.open =
        (run .plain cancelPlatform parseCancel nextOrder (twoOrders ++ lostAnswer.filter Event.isMarket)).book.open.filter
          fun order => ¬ (order.1 = "WEB3f1c" ∧ order.2 ∈ [101, 102]) :=
  retry_settled JsonUtils.plain_lawful cancelPlatform parseCancel 1700000001000 nextOrder_injective cancelPlatform_hex
    twoOrders twoOrders_legible rfl parseCancel_legible lostAnswer lostAnswer_attempts

end Cancelling

end Futures

end MexcApi
