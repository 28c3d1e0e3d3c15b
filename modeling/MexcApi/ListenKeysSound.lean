import MexcApi.ConnectorQueriesSound
import MexcApi.Leases
import MexcApi.PlacedOrdersSound
import MexcApi.SpotMessagesSound

/-!
# Listen keys over a connection that fails

A run of the spot client against the keys of an exchange, which checks the
signature of each message and knows an account by its API key. Messages and
answers may get lost, and a key may expire. A key whose answer was lost is open
without the client knowing it, until it asks which keys are open.
-/

namespace MexcApi

open Nlohmann

namespace Spot

open HTTPSession

/-! ## The calls -/

inductive KeyCall where
  | getListenKey
  | getListenKeys
  | renewListenKey (listenKey : String)
  | closeListenKey (listenKey : String)

namespace KeyCall

def query : KeyCall → Query
  | getListenKey => .getListenKey
  | getListenKeys => .getListenKeys
  | renewListenKey listenKey => .renewListenKey listenKey
  | closeListenKey listenKey => .closeListenKey listenKey

/-- The keys that the caller gets. -/
def send {m : Type → Type} [Monad m] [MonadLiftT (Except Fault) m] (U : JsonUtils)
    (httpSession : HttpRequest → m HttpResponse) :
    KeyCall → m (List String)
  | getListenKey => (fun key => [key]) <$> RESTClient.getListenKey U httpSession
  | getListenKeys => ListenKeys.listenKeys <$> RESTClient.getListenKeys U httpSession
  | renewListenKey listenKey => (fun key => [key]) <$> RESTClient.renewListenKey U httpSession listenKey
  | closeListenKey listenKey => (fun key => [key]) <$> RESTClient.closeListenKey U httpSession listenKey

def Plain : KeyCall → Prop
  | renewListenKey listenKey | closeListenKey listenKey => '&' ∉ listenKey.toList
  | getListenKey | getListenKeys => True

end KeyCall

/-! ## The exchange -/

abbrev KeyBook := Leases.Book String String

def userDataPath : String := "/api/v3/userDataStream"

open Classical in
/-- The account of a message and what it asks for, if its signature holds. -/
noncomputable def keyCallOf (C : Platform) (secretOf : String → Option String) (m : Message) : Option (String × KeyCall) :=
  match m.get? "X-MEXC-APIKEY" with
  | none => none
  | some apiKey =>
    if (∃ apiSecret, secretOf apiKey = some apiSecret ∧ Verifies C.toCrypto apiSecret (Futures.targetQuery m.target)) ∧
        Futures.targetPath m.target = userDataPath then
      match m.method, Futures.parameter? m "listenKey" with
      | .post, _ => some (apiKey, .getListenKey)
      | .get, _ => some (apiKey, .getListenKeys)
      | .put, some listenKey => some (apiKey, .renewListenKey listenKey)
      | .delete_, some listenKey => some (apiKey, .closeListenKey listenKey)
      | _, none => none
    else none

def keyReply (listenKey : String) : HttpResponse :=
  { result := 200, body := "", json := some (.obj [("listenKey", .str listenKey)]) }

def keysReply (listenKeys : List String) : HttpResponse := {
  result := 200
  body := ""
  json := some (.obj [
    ("available", .num (.int (60 - listenKeys.length))), ("listenKey", .arr (listenKeys.map .str)),
    ("total", .num (.int 60))]) }

def refusal : HttpResponse := { result := 400, body := "", json := none }

section
variable (keyName : Nat → String) (b : KeyBook)

def change : String × KeyCall → KeyBook
  | (account, .getListenKey) => b.issue keyName account
  | (account, .closeListenKey listenKey) => b.finish (account, listenKey)
  | (_, .getListenKeys) | (_, .renewListenKey _) => b

/-- The keys that a call is answered with, unless it is refused. -/
def answer : String × KeyCall → Option (List String)
  | (_, .getListenKey) => some [keyName b.issued]
  | (account, .getListenKeys) => some (b.listed account)
  | (account, .renewListenKey listenKey) | (account, .closeListenKey listenKey) =>
    if (account, listenKey) ∈ b.open then some [listenKey] else none

def replyTo (asked : String × KeyCall) : HttpResponse :=
  match asked.2, answer keyName b asked with
  | .getListenKeys, some listenKeys => keysReply listenKeys
  | _, some [listenKey] => keyReply listenKey
  | _, _ => refusal

/-- What becomes of a message. -/
inductive Fate where
  | lost (reply : Futures.Unheard)
  | served
  | unheard (reply : Futures.Unheard)

namespace Fate

def change (asked : Option (String × KeyCall)) : Fate → KeyBook
  | lost _ => b
  | served | unheard _ =>
    match asked with
    | some asked => Spot.change keyName b asked
    | none => b

def reply (asked : Option (String × KeyCall)) : Fate → Except Fault HttpResponse
  | lost reply | unheard reply => reply.reply
  | served =>
    match asked with
    | some asked => .ok (replyTo keyName b asked)
    | none => .ok refusal

end Fate

end

/-! ## Runs -/

structure KeyOutcome where
  apiKey : String
  call : KeyCall
  result : Except Fault (List String)

structure UserData where
  httpSession : P
  book : KeyBook := {}
  outcomes : List KeyOutcome := []

namespace UserData

inductive Event where
  | setCredentials (apiKey apiSecret : String)
  | expire (apiKey listenKey : String)
  | call (call : KeyCall) (ts : Int) (fate : Fate)

section
variable (U : JsonUtils) (C : Platform) (secretOf : String → Option String) (keyName : Nat → String)

/-- The connection takes each message to the exchange. -/
noncomputable def connection (fate : Fate) (message : Message) : Served.Program Fault KeyBook HttpResponse :=
  Served.ask fun b =>
    (fate.reply keyName b (keyCallOf C secretOf message), fate.change keyName b (keyCallOf C secretOf message))

/-- How a call ends, and the book after it. -/
noncomputable def served (p : P) (b : KeyBook) (call : KeyCall) (ts : Int) (fate : Fate) :
    Except Fault (List String) × KeyBook :=
  Served.exec (call.send U (p.perform C ts (connection C secretOf keyName fate))) b

noncomputable def heard (p : P) (b : KeyBook) (call : KeyCall) (ts : Int) (fate : Fate) : Except Fault (List String) :=
  (served U C secretOf keyName p b call ts fate).1

noncomputable def booked (p : P) (b : KeyBook) (call : KeyCall) (ts : Int) (fate : Fate) : KeyBook :=
  (served U C secretOf keyName p b call ts fate).2

noncomputable def step (s : UserData) : Event → UserData
  | .setCredentials apiKey apiSecret => { s with httpSession := ⟨apiKey, apiSecret⟩ }
  | .expire apiKey listenKey => { s with book := s.book.finish (apiKey, listenKey) }
  | .call call ts fate => { s with
      book := booked U C secretOf keyName s.httpSession s.book call ts fate
      outcomes := s.outcomes ++
        [⟨s.httpSession.apiKey, call, heard U C secretOf keyName s.httpSession s.book call ts fate⟩] }

noncomputable def run (first : P) (es : List Event) : UserData :=
  es.foldl (step U C secretOf keyName) { httpSession := first }

theorem run_concat (first : P) (es : List Event) (e : Event) :
    run U C secretOf keyName first (es ++ [e]) = step U C secretOf keyName (run U C secretOf keyName first es) e := by
  simp [run]

end

end UserData

/-! ## How a message is read -/

theorem request_method (C : Platform) (req : Request) : (P.request C req).method = req.method := by
  unfold P.request
  dsimp only
  split <;> rfl

section
variable {C : Platform} (hC : C.HexDigits) (secretOf : String → Option String) (p : P) (ts : Int)
include hC

/-- The exchange takes a message of the client for the call that it is, or for
nothing if the credentials are not the registered ones. -/
theorem keyCallOf_message {call : KeyCall} (hplain : call.Plain) :
    ∃ m, p.message C ts call.query.request = some m ∧
      (keyCallOf C secretOf m = some (p.apiKey, call) ∨
        keyCallOf C secretOf m = none ∧ secretOf p.apiKey ≠ some p.apiSecret) := by
  let whole : Call := .query call.query
  have hprivate : whole.request.isPrivate = true := by cases call <;> rfl
  have hpath : whole.request.path = userDataPath := by cases call <;> rfl
  have hwhole : whole.Plain := by
    cases call with
    | getListenKey | getListenKeys => exact List.forall_mem_nil _
    | renewListenKey listenKey | closeListenKey listenKey => exact List.forall_mem_singleton.mpr hplain
  obtain ⟨m, hm⟩ : ∃ m, p.message C ts whole.request = some m := by cases call <;> exact ⟨_, rfl⟩
  refine ⟨m, hm, ?_⟩
  have hkey : m.get? "X-MEXC-APIKEY" = some p.apiKey := by
    rw [(isolated_message C p ts hm).apiKey, hprivate]
    rfl
  have hmark : '?' ∉ userDataPath.toList := by decide
  have heq := message_eq C p ts hm
  rw [hprivate, hpath] at heq
  obtain ⟨hclean, hsig⟩ := private_clean hprivate hwhole
  have htarget : m.target = userDataPath ++ "?" ++ queryStr (p.sign C.toCrypto ts (parametersOf whole.request)) := by
    rw [heq]
    exact (request_rest C _).2.2.2.1.trans (p.createRequest_target ts _ _ _)
  have hmethod : m.method = verbOf whole.request := by
    rw [heq]
    exact request_method C _
  have hparameter : Futures.parameter? m "listenKey" = (parametersOf whole.request).entries.lookup "listenKey" := by
    unfold Futures.parameter?
    rw [htarget, Futures.targetQuery_append hmark, (splitQuery_queryStr _).mpr (sign_clean hC p ts hclean)]
    unfold P.sign
    rw [SortedMap.lookup_insertOrAssign, if_neg (by decide), SortedMap.lookup_insertOrAssign, if_neg (by decide)]
  have hread : keyCallOf C secretOf m = some (p.apiKey, call) ∨ keyCallOf C secretOf m = none ∧
      ¬ ∃ apiSecret, secretOf p.apiKey = some apiSecret ∧
        Verifies C.toCrypto apiSecret (queryStr (p.sign C.toCrypto ts (parametersOf whole.request))) := by
    unfold keyCallOf
    rw [hkey, htarget]
    dsimp only
    rw [Futures.targetQuery_append hmark, Futures.targetPath_append hmark, hmethod, hparameter]
    by_cases hverifies : ∃ apiSecret, secretOf p.apiKey = some apiSecret ∧
        Verifies C.toCrypto apiSecret (queryStr (p.sign C.toCrypto ts (parametersOf whole.request)))
    · rw [if_pos ⟨hverifies, rfl⟩]
      left
      cases call <;> rfl
    · rw [if_neg fun h => hverifies h.1]
      exact Or.inr ⟨rfl, hverifies⟩
  refine hread.imp_right fun ⟨hnone, hunverified⟩ => ⟨hnone, fun hregistered => hunverified ⟨p.apiSecret, hregistered, ?_⟩⟩
  rw [verifies_iff hC p ts hclean, sentText_eq ts hsig]

end

/-! ## How an answer is read -/

theorem getStrings_map (keys : List String) : (Json.arr (keys.map .str)).getStrings = .ok keys := by
  show (keys.map .str).mapM Json.getString = .ok keys
  induction keys with
  | nil => rfl
  | cons key keys ih =>
    rw [List.map_cons, List.mapM_cons, ih]
    rfl

section
variable {U : JsonUtils} {httpSession : MexcApi.HTTPSession}

theorem send_unheard (call : KeyCall)
    (h : ∀ response, httpSession call.query.request = .ok response → response.result ≠ 200) :
    ∃ e, call.send U httpSession = .error e := by
  have hthrows : ∀ {α : Type} (rest : HttpResponse → Except Fault α) (f : α → List String),
      ∃ e, (httpSession call.query.request >>= fun response => checkResponse response >>= rest).map f = .error e := by
    intro α rest f
    obtain ⟨e, he⟩ := unchecked h rest
    refine ⟨e, ?_⟩
    rw [he]
    rfl
  cases call <;> exact hthrows _ _

variable (hU : U.Lawful)
include hU

theorem response_plain {json : Json} (hcode : json.find? "code" = none) (hmsg : json.find? "msg" = none) :
    Response.fromJson U {} json = .ok {} := by
  have hcode' : U.readValue Json.getString json "code" "" = .ok "" := hU.absent _ _ hcode
  have hmsg' : U.readValue Json.getString json "msg" "" = .ok "" := hU.absent _ _ hmsg
  unfold Response.fromJson
  rw [hcode', ok_bind, hmsg']
  rfl

theorem handled_keyReply (listenKey : String) :
    handleMEXCResponse (ListenKey.fromJson U) ListenKey.toResponse (keyReply listenKey) = .ok { listenKey } := by
  have hresponse : Response.fromJson U {} (.obj [("listenKey", .str listenKey)]) = .ok {} := response_plain hU rfl rfl
  have hfind : (Json.obj [("listenKey", .str listenKey)]).find? "listenKey" = some (.str listenKey) := rfl
  have hread := hU.present Json.getString "" hfind fun h => by cases h
  have hkey : ListenKey.fromJson U (.obj [("listenKey", .str listenKey)]) = .ok { listenKey } := by
    unfold ListenKey.fromJson
    rw [hresponse, ok_bind, hread]
    rfl
  unfold handleMEXCResponse keyReply HttpResponse.parse
  dsimp only
  rw [ok_bind, hkey]
  rfl

theorem handled_keysReply (keys : List String) :
    ∃ value, handleMEXCResponse (ListenKeys.fromJson U) ListenKeys.toResponse (keysReply keys) = .ok value ∧
      value.listenKeys = keys := by
  let json : Json := .obj [
    ("available", .num (.int (60 - keys.length))), ("listenKey", .arr (keys.map .str)), ("total", .num (.int 60))]
  have hresponse : Response.fromJson U {} json = .ok {} := response_plain hU rfl rfl
  have hread : ∀ {key : String} {n : Int}, json.find? key = some (.num (.int n)) →
      U.readValue Json.getInt32 json key 0 = .ok n := fun h => hU.present _ _ h fun h => by cases h
  have havailable : U.readValue Json.getInt32 json "available" 0 = .ok (60 - keys.length : Int) := hread rfl
  have htotal : U.readValue Json.getInt32 json "total" 0 = .ok (60 : Int) := hread rfl
  have hlist : (json.access "listenKey").get = .ok (.arr (keys.map .str)) := rfl
  have hkeys : ListenKeys.fromJson U json = .ok { available := 60 - keys.length, total := 60, listenKeys := keys } := by
    unfold ListenKeys.fromJson
    rw [hresponse, ok_bind, havailable, ok_bind, htotal, ok_bind, hlist, ok_bind, getStrings_map]
    rfl
  refine ⟨{ available := 60 - keys.length, total := 60, listenKeys := keys }, ?_, rfl⟩
  unfold handleMEXCResponse keysReply HttpResponse.parse
  dsimp only
  rw [ok_bind, hkeys]
  rfl

/-- The caller gets what the exchange answers, and an exception if it refuses. -/
theorem send_served (keyName : Nat → String) (b : KeyBook) (account : String) (call : KeyCall)
    (h : httpSession call.query.request = .ok (replyTo keyName b (account, call))) (keys : List String) :
    call.send U httpSession = .ok keys ↔ answer keyName b (account, call) = some keys := by
  have hrefused : ∀ {call : KeyCall}, httpSession call.query.request = .ok refusal →
      ∃ e, call.send U httpSession = .error e :=
    fun hreply => send_unheard _ fun response hresponse => by
      rw [hreply] at hresponse
      cases hresponse
      decide
  have hkey : ∀ {request : HttpRequest} {key : String}, httpSession request = .ok (keyReply key) →
      (do
        let response ← checkResponse (← httpSession request)
        let retVal ← handleMEXCResponse (ListenKey.fromJson U) ListenKey.toResponse response
        return retVal.listenKey) = Except.ok key := by
    intro request key hreply
    rw [hreply, ok_bind, checkResponse_ok rfl, ok_bind, handled_keyReply hU]
    rfl
  cases call with
  | getListenKey =>
    have hsend : KeyCall.getListenKey.send U httpSession = .ok [keyName b.issued] := congrArg (Except.map _) (hkey h)
    rw [hsend]
    simp [answer]
  | getListenKeys =>
    obtain ⟨value, hvalue, hkeys⟩ := handled_keysReply hU (b.listed account)
    have hreply : httpSession KeyCall.getListenKeys.query.request = .ok (keysReply (b.listed account)) := h
    have hdecoded : RESTClient.getListenKeys U httpSession = httpSession KeyCall.getListenKeys.query.request >>=
        fun response => checkResponse response >>= handleMEXCResponse (ListenKeys.fromJson U) ListenKeys.toResponse := rfl
    have hsend : RESTClient.getListenKeys U httpSession = .ok value := by
      rw [hdecoded, hreply, ok_bind, checkResponse_ok rfl, ok_bind, hvalue]
    have hall : KeyCall.getListenKeys.send U httpSession = .ok (b.listed account) := by
      rw [← hkeys]
      exact congrArg (Except.map _) hsend
    rw [hall]
    simp [answer]
  | renewListenKey listenKey | closeListenKey listenKey =>
    by_cases hopen : (account, listenKey) ∈ b.open
    · simp only [replyTo, answer, if_pos hopen] at h ⊢
      have hsend := congrArg (Except.map fun key => [key]) (hkey h)
      constructor
      · intro hok
        have := hsend.symm.trans hok
        cases this
        rfl
      · intro hsome
        cases hsome
        exact hsend
    · simp only [replyTo, answer, if_neg hopen] at h ⊢
      obtain ⟨e, he⟩ := hrefused h
      rw [he]
      simp

end

/-! ## One event -/

namespace KeyOutcome

def returned (o : KeyOutcome) : Option (String × String) :=
  match o.call, o.result with
  | .getListenKey, .ok [listenKey] => some (o.apiKey, listenKey)
  | _, _ => none

def closed (o : KeyOutcome) : Option (String × String) :=
  match o.call, o.result with
  | .closeListenKey listenKey, .ok _ => some (o.apiKey, listenKey)
  | _, _ => none

end KeyOutcome

namespace UserData

def returned (s : UserData) : List (String × String) := s.outcomes.filterMap KeyOutcome.returned

def closed (s : UserData) : List (String × String) := s.outcomes.filterMap KeyOutcome.closed

namespace Event

/-- The event is about the key of the account, where calls are made with `apiKey`. -/
def Ends (apiKey : String) (lease : String × String) : Event → Prop
  | .expire account expired => (account, expired) = lease
  | .call (.closeListenKey closed) _ _ => (apiKey, closed) = lease
  | _ => False

/-- A key is asked for and the answer gets lost. -/
def untold : Event → Bool
  | .call .getListenKey _ (.unheard _) => true
  | _ => false

def Plain : Event → Prop
  | .call c _ _ => c.Plain
  | _ => True

end Event

section
variable {U : JsonUtils} (hU : U.Lawful) {C : Platform} (hC : C.HexDigits) (secretOf : String → Option String)
  (keyName : Nat → String)

/-- A call is one request to the exchange, and the reply alone decides how it ends. -/
theorem exec_send {σ : Type} (s : σ) (U : JsonUtils) (httpSession : HttpRequest → Served.Program Fault σ HttpResponse)
    (call : KeyCall) : Served.exec (call.send U httpSession) s =
      (call.send U (fun request => (Served.exec (httpSession request) s).1),
        (Served.exec (httpSession call.query.request) s).2) := by
  have hkey : ∀ request : HttpRequest, Served.exec (do
      let response ← checkResponse (← httpSession request)
      let retVal ← handleMEXCResponse (ListenKey.fromJson U) ListenKey.toResponse response
      return retVal.listenKey : Served.Program Fault σ String) s =
      ((Served.exec (httpSession request) s).1 >>= fun response => checkResponse response >>= fun response =>
        handleMEXCResponse (ListenKey.fromJson U) ListenKey.toResponse response >>= fun retVal => .ok retVal.listenKey,
        (Served.exec (httpSession request) s).2) := by
    intro request
    apply Served.exec_bind_quiet
    intro response s
    apply Served.exec_bind_quiet (liftM (checkResponse response))
    intro response s
    exact Served.exec_bind_quiet (liftM (handleMEXCResponse (ListenKey.fromJson U) ListenKey.toResponse response))
      (fun retVal s => Served.exec_pure retVal.listenKey s) s
  cases call with
  | getListenKey | renewListenKey listenKey | closeListenKey listenKey =>
    refine (Served.exec_map _ _ s).trans ?_
    exact congrArg (Prod.map (Except.map fun key => [key]) id) (hkey _)
  | getListenKeys =>
    refine (Served.exec_map _ _ s).trans ?_
    exact congrArg (Prod.map (Except.map ListenKeys.listenKeys) id) (Served.exec_bind_quiet _ (fun response s =>
      Served.exec_lift_lift (checkResponse response) (handleMEXCResponse (ListenKeys.fromJson U) ListenKeys.toResponse) s) s)

theorem served_message {p : P} {ts : Int} {call : KeyCall} {m : Message} (hm : p.message C ts call.query.request = some m)
    (b : KeyBook) (fate : Fate) : ∃ httpSession : MexcApi.HTTPSession,
      httpSession call.query.request = fate.reply keyName b (keyCallOf C secretOf m) ∧
      served U C secretOf keyName p b call ts fate =
        (call.send U httpSession, fate.change keyName b (keyCallOf C secretOf m)) := by
  have hperform : Served.exec (p.perform C ts (connection C secretOf keyName fate) call.query.request) b =
      (fate.reply keyName b (keyCallOf C secretOf m), fate.change keyName b (keyCallOf C secretOf m)) := by
    unfold P.perform
    rw [hm]
    rfl
  refine ⟨fun request => (Served.exec (p.perform C ts (connection C secretOf keyName fate) request) b).1,
    congrArg Prod.fst hperform, (exec_send b U _ call).trans ?_⟩
  exact congrArg (Prod.mk _) (congrArg Prod.snd hperform)

include hU hC in
/-- A call leaves the book as it is and throws, or it makes the change that it
asks for, and the caller gets the answer or an exception. -/
theorem call_cases (p : P) (b : KeyBook) (call : KeyCall) (hplain : call.Plain) (ts : Int) (fate : Fate) :
    ((∃ e, heard U C secretOf keyName p b call ts fate = .error e) ∧ booked U C secretOf keyName p b call ts fate = b ∧
      ¬ (fate = .served ∧ secretOf p.apiKey = some p.apiSecret)) ∨
    booked U C secretOf keyName p b call ts fate = change keyName b (p.apiKey, call) ∧
      ((fate = .served ∧ ∀ keys, heard U C secretOf keyName p b call ts fate = .ok keys ↔
          answer keyName b (p.apiKey, call) = some keys) ∨
        (∃ u, fate = .unheard u) ∧ ∃ e, heard U C secretOf keyName p b call ts fate = .error e) := by
  obtain ⟨m, hm, hread⟩ := keyCallOf_message hC secretOf p ts hplain
  obtain ⟨httpSession, hreply, hserved⟩ := served_message (U := U) secretOf keyName hm b fate
  have hbooked : booked U C secretOf keyName p b call ts fate = fate.change keyName b (keyCallOf C secretOf m) :=
    congrArg Prod.snd hserved
  have hheard : heard U C secretOf keyName p b call ts fate = call.send U httpSession := congrArg Prod.fst hserved
  have hthrows : (∀ response, fate.reply keyName b (keyCallOf C secretOf m) = .ok response → response.result ≠ 200) →
      ∃ e, heard U C secretOf keyName p b call ts fate = .error e := by
    intro hnone
    rw [hheard]
    exact send_unheard call (by rwa [hreply])
  rw [hbooked]
  cases fate with
  | lost u => exact Or.inl ⟨hthrows u.unheard, rfl, fun h => by cases h.1⟩
  | served =>
    rcases hread with hread | ⟨hread, hunregistered⟩
    · refine Or.inr ⟨by rw [hread]; rfl, Or.inl ⟨rfl, fun keys => ?_⟩⟩
      rw [hheard]
      exact send_served hU keyName b p.apiKey call (by rw [hreply, hread]; rfl) keys
    · refine Or.inl ⟨hthrows fun response h => ?_, by rw [hread]; rfl, fun h => hunregistered h.2⟩
      rw [hread] at h
      cases h
      decide
  | unheard u =>
    rcases hread with hread | ⟨hread, -⟩
    · exact Or.inr ⟨by rw [hread]; rfl, Or.inr ⟨⟨u, rfl⟩, hthrows u.unheard⟩⟩
    · exact Or.inl ⟨hthrows u.unheard, by rw [hread]; rfl, fun h => by cases h.1⟩

/-- What an event does to the book, and what the caller learns of it. -/
inductive Effect (apiKey : String) (b : KeyBook) (e : Event) : KeyBook → Option (String × String) →
    Option (String × String) → Prop
  | quiet : Effect apiKey b e b none none
  | told {account : String} : Effect apiKey b e (b.issue keyName account) (some (account, keyName b.issued)) none
  | untold {account : String} : e.untold = true → Effect apiKey b e (b.issue keyName account) none none
  | ended {lease : String × String} : e.Ends apiKey lease → Effect apiKey b e (b.finish lease) none none
  | closed {lease : String × String} : e.Ends apiKey lease → lease ∈ b.open →
      Effect apiKey b e (b.finish lease) none (some lease)

theorem closed_error {apiKey : String} {call : KeyCall} {e : Fault} :
    KeyOutcome.returned ⟨apiKey, call, .error e⟩ = none ∧ KeyOutcome.closed ⟨apiKey, call, .error e⟩ = none := by
  cases call <;> exact ⟨rfl, rfl⟩

include hU hC in
theorem call_effect (p : P) (b : KeyBook) {call : KeyCall} (hplain : call.Plain) (ts : Int) (fate : Fate) :
    Effect keyName p.apiKey b (.call call ts fate) (booked U C secretOf keyName p b call ts fate)
      (KeyOutcome.returned ⟨p.apiKey, call, heard U C secretOf keyName p b call ts fate⟩)
      (KeyOutcome.closed ⟨p.apiKey, call, heard U C secretOf keyName p b call ts fate⟩) := by
  rcases call_cases hU hC secretOf keyName p b call hplain ts fate with
    ⟨⟨e, he⟩, hbooked, -⟩ | ⟨hbooked, ⟨-, hheard⟩ | ⟨⟨u, rfl⟩, e, he⟩⟩
  · rw [he, hbooked, closed_error.1, closed_error.2]
    exact .quiet
  · rw [hbooked]
    cases call with
    | getListenKey =>
      rw [(hheard [keyName b.issued]).mpr rfl]
      exact .told
    | getListenKeys =>
      rw [(hheard (b.listed p.apiKey)).mpr rfl]
      exact .quiet
    | renewListenKey listenKey => exact .quiet
    | closeListenKey listenKey =>
      by_cases hopen : (p.apiKey, listenKey) ∈ b.open
      · rw [(hheard [listenKey]).mpr (if_pos hopen)]
        exact .closed rfl hopen
      · cases hresult : heard U C secretOf keyName p b (.closeListenKey listenKey) ts fate with
        | error e => exact .ended rfl
        | ok keys =>
          have hanswer := (hheard keys).mp hresult
          rw [answer, if_neg hopen] at hanswer
          cases hanswer
  · rw [he, hbooked, closed_error.1, closed_error.2]
    cases call with
    | getListenKey => exact .untold rfl
    | getListenKeys => exact .quiet
    | renewListenKey listenKey => exact .quiet
    | closeListenKey listenKey => exact .ended rfl

theorem filterMap_one {α β : Type} (f : α → Option β) (a : α) : [a].filterMap f = (f a).toList := by
  cases h : f a <;> simp [h]

include hU hC in
theorem step_effect (s : UserData) {e : Event} (hplain : e.Plain) :
    ∃ returned closed, Effect keyName s.httpSession.apiKey s.book e (step U C secretOf keyName s e).book returned closed ∧
      (step U C secretOf keyName s e).returned = s.returned ++ returned.toList ∧
      (step U C secretOf keyName s e).closed = s.closed ++ closed.toList := by
  cases e with
  | setCredentials apiKey apiSecret => exact ⟨none, none, .quiet, (List.append_nil _).symm, (List.append_nil _).symm⟩
  | expire apiKey listenKey => exact ⟨none, none, .ended rfl, (List.append_nil _).symm, (List.append_nil _).symm⟩
  | call call ts fate =>
    refine ⟨_, _, call_effect hU hC secretOf keyName s.httpSession s.book hplain ts fate, ?_, ?_⟩
    · exact List.filterMap_append.trans (congrArg _ (filterMap_one _ _))
    · exact List.filterMap_append.trans (congrArg _ (filterMap_one _ _))

/-! ## The whole run -/

/-- What the keys of the exchange and those of the caller have to do with each other. -/
structure Accounted (es : List Event) (b : KeyBook) (returned closed : List (String × String)) : Prop where
  sound : b.Sound keyName
  distinct : (returned.map Prod.snd).Nodup
  there : ∀ lease ∈ returned, lease ∈ b.open ++ b.ended
  closed : ∀ lease ∈ closed, lease ∈ b.ended
  counted : returned.length ≤ b.issued ∧ b.issued ≤ returned.length + es.countP Event.untold

variable {keyName} {es : List Event} {e : Event} {b : KeyBook} {returned closed : List (String × String)}

theorem Accounted.later (h : Accounted keyName es b returned closed) (e : Event) :
    Accounted keyName (es ++ [e]) b returned closed := by
  have hcounted := h.counted
  refine ⟨h.sound, h.distinct, h.there, h.closed, hcounted.1, ?_⟩
  rw [List.countP_append]
  omega

theorem Accounted.finish (h : Accounted keyName es b returned closed) (lease : String × String) :
    Accounted keyName es (b.finish lease) returned closed := by
  refine ⟨h.sound.finish lease, h.distinct, ?_, ?_, by rw [b.finish_issued]; exact h.counted⟩
  · intro other hother
    exact (b.finish_perm lease).mem_iff.mpr (h.there other hother)
  · intro other hother
    exact (b.mem_finish_ended lease).mpr (Or.inl (h.closed other hother))

theorem Accounted.issue (hname : Function.Injective keyName) (h : Accounted keyName es b returned closed)
    (account : String) {returned' : List (String × String)} (hdistinct : (returned'.map Prod.snd).Nodup)
    (hreturned : ∀ lease ∈ returned', lease ∈ returned ∨ lease = (account, keyName b.issued))
    (hcounted : returned'.length ≤ b.issued + 1 ∧ b.issued + 1 ≤ returned'.length + es.countP Event.untold) :
    Accounted keyName es (b.issue keyName account) returned' closed := by
  refine ⟨h.sound.issue hname account, hdistinct, ?_, h.closed, hcounted⟩
  intro lease hlease
  refine (b.issue_perm keyName account).mem_iff.mpr ?_
  rcases hreturned lease hlease with hold | rfl
  · exact List.mem_cons_of_mem _ (h.there lease hold)
  · exact List.mem_cons_self

theorem Accounted.effect (hname : Function.Injective keyName) (h : Accounted keyName es b returned closed) {b' : KeyBook}
    {apiKey : String} {r c : Option (String × String)} (heffect : Effect keyName apiKey b e b' r c) :
    Accounted keyName (es ++ [e]) b' (returned ++ r.toList) (closed ++ c.toList) := by
  have hlater := h.later e
  have hcounted := h.counted
  cases heffect with
  | quiet =>
    rw [Option.toList_none, List.append_nil, List.append_nil]
    exact hlater
  | @told account =>
    rw [Option.toList_none, List.append_nil, Option.toList_some]
    have hcount := hlater.counted
    apply hlater.issue hname account
    · -- the key is not one of those before
      rw [List.map_append, List.map_singleton, List.nodup_append]
      refine ⟨h.distinct, List.nodup_singleton _, ?_⟩
      intro key hkey other hother heq
      obtain ⟨lease, hlease, rfl⟩ := List.mem_map.mp hkey
      have hsame : lease.2 = keyName b.issued := heq.trans (List.mem_singleton.mp hother)
      apply h.sound.fresh hname
      rw [← hsame]
      exact List.mem_map_of_mem (h.there lease hlease)
    · intro lease hlease
      exact (List.mem_append.mp hlease).imp_right List.mem_singleton.mp
    · rw [List.length_append, List.length_singleton]
      omega
  | @untold account huntold =>
    rw [Option.toList_none, List.append_nil, List.append_nil]
    apply hlater.issue hname account h.distinct fun lease hlease => Or.inl hlease
    rw [List.countP_append, List.countP_singleton, if_pos huntold]
    omega
  | @ended lease hends =>
    rw [Option.toList_none, List.append_nil, List.append_nil]
    exact hlater.finish lease
  | @closed lease hends hopen =>
    rw [Option.toList_none, List.append_nil, Option.toList_some]
    have hfinish := hlater.finish lease
    refine { hfinish with closed := ?_ }
    intro other hother
    rcases List.mem_append.mp hother with hold | hnew
    · exact hfinish.closed other hold
    · rw [List.mem_singleton.mp hnew]
      exact (b.mem_finish_ended lease).mpr (Or.inr ⟨rfl, hopen⟩)

theorem Effect.open_or_ends {apiKey : String} {b' : KeyBook} {r c : Option (String × String)}
    (h : Effect keyName apiKey b e b' r c) {lease : String × String} (hopen : lease ∈ b.open) :
    lease ∈ b'.open ∨ e.Ends apiKey lease := by
  have hfinish : ∀ {ended : String × String}, e.Ends apiKey ended →
      lease ∈ (b.finish ended).open ∨ e.Ends apiKey lease := by
    intro ended hends
    by_cases hsame : lease = ended
    · rw [hsame]
      exact Or.inr hends
    · exact Or.inl (Leases.Book.open_finish hsame hopen)
  cases h with
  | quiet => exact Or.inl hopen
  | told | untold => exact Or.inl (List.mem_append_left _ hopen)
  | ended hends => exact hfinish hends
  | closed hends => exact hfinish hends

theorem Effect.brought_open {apiKey : String} {b' : KeyBook} {c : Option (String × String)} {lease : String × String}
    (h : Effect keyName apiKey b e b' (some lease) c) : lease ∈ b'.open := by
  cases h
  exact List.mem_append_right _ (List.mem_singleton_self _)

variable (U C keyName) in
/-- The key has ended at an event of the run that was about it, after it was brought. -/
def Ended (first : P) (es : List Event) (lease : String × String) : Prop :=
  ∃ before e after, es = before ++ e :: after ∧ lease ∈ (run U C secretOf keyName first before).returned ∧
    lease ∈ (run U C secretOf keyName first before).book.open ∧
    e.Ends (run U C secretOf keyName first before).httpSession.apiKey lease

include hU hC in
theorem open_or_ended (first : P) (es : List Event) (hes : ∀ e ∈ es, e.Plain) {lease : String × String}
    (hlease : lease ∈ (run U C secretOf keyName first es).returned) :
    lease ∈ (run U C secretOf keyName first es).book.open ∨ Ended U C secretOf keyName first es lease := by
  induction es using List.reverseRecOn with
  | nil => cases hlease
  | append_singleton es e ih =>
    have hold := ih fun e he => hes e (List.mem_append_left _ he)
    have hplain := hes e (List.mem_append_right _ (List.mem_singleton_self e))
    obtain ⟨r, c, heffect, hreturned, -⟩ := step_effect hU hC secretOf keyName (run U C secretOf keyName first es) hplain
    rw [run_concat] at hlease ⊢
    rw [hreturned] at hlease
    rcases List.mem_append.mp hlease with hbefore | hnew
    · rcases hold hbefore with hopen | ⟨before, e', after, rfl, hended⟩
      · refine (heffect.open_or_ends hopen).imp_right fun hends => ?_
        exact ⟨es, e, [], rfl, hbefore, hopen, hends⟩
      · exact Or.inr ⟨before, e', after ++ [e], by rw [List.append_assoc, List.cons_append], hended⟩
    · rw [show r = some lease from Option.mem_toList.mp hnew] at heffect
      exact Or.inl heffect.brought_open

variable (hname : Function.Injective keyName)
include hU hC hname

theorem accounted_run (first : P) (es : List Event) (hes : ∀ e ∈ es, e.Plain) :
    Accounted keyName es (run U C secretOf keyName first es).book (run U C secretOf keyName first es).returned
      (run U C secretOf keyName first es).closed := by
  induction es using List.reverseRecOn with
  | nil =>
    exact ⟨⟨List.nodup_nil, List.forall_mem_nil _⟩, List.nodup_nil, List.forall_mem_nil _, List.forall_mem_nil _,
      Nat.le_refl 0, Nat.zero_le _⟩
  | append_singleton es e ih =>
    have hold := ih fun e he => hes e (List.mem_append_left _ he)
    have hplain := hes e (List.mem_append_right _ (List.mem_singleton_self e))
    rw [run_concat]
    obtain ⟨r, c, heffect, hreturned, hclosed⟩ :=
      step_effect hU hC secretOf keyName (run U C secretOf keyName first es) hplain
    rw [hreturned, hclosed]
    exact hold.effect hname heffect

/-- Whatever gets lost: a list of keys that is heard is that of the open keys, no
key is brought twice, a key is open until something ends it, a closed one is
never open again, and every key that was not brought is an answer that was lost. -/
theorem keys_accounted (first : P) (es : List Event) (hes : ∀ e ∈ es, e.Plain) :
    (∀ ts fate keys, heard U C secretOf keyName (run U C secretOf keyName first es).httpSession
        (run U C secretOf keyName first es).book .getListenKeys ts fate = .ok keys →
      keys = (run U C secretOf keyName first es).book.listed (run U C secretOf keyName first es).httpSession.apiKey) ∧
    ((run U C secretOf keyName first es).returned.map Prod.snd).Nodup ∧
    (∀ lease ∈ (run U C secretOf keyName first es).returned,
      lease ∈ (run U C secretOf keyName first es).book.open ∨ Ended U C secretOf keyName first es lease) ∧
    (∀ lease ∈ (run U C secretOf keyName first es).closed, lease ∉ (run U C secretOf keyName first es).book.open) ∧
    (run U C secretOf keyName first es).returned.length ≤ (run U C secretOf keyName first es).book.issued ∧
    (run U C secretOf keyName first es).book.issued ≤
      (run U C secretOf keyName first es).returned.length + es.countP Event.untold := by
  have hrun := accounted_run hU hC secretOf hname first es hes
  refine ⟨?_, hrun.distinct, ?_, fun lease hlease => hrun.sound.disjoint (hrun.closed lease hlease), hrun.counted⟩
  · intro ts fate keys hkeys
    rcases call_cases hU hC secretOf keyName (run U C secretOf keyName first es).httpSession
      (run U C secretOf keyName first es).book .getListenKeys trivial ts fate with
      ⟨⟨e, he⟩, -, -⟩ | ⟨-, ⟨-, hheard⟩ | ⟨-, e, he⟩⟩
    · rw [he] at hkeys
      cases hkeys
    · exact (Option.some.inj ((hheard keys).mp hkeys)).symm
    · rw [he] at hkeys
      cases hkeys
  · exact fun lease hlease => open_or_ended hU hC secretOf first es hes hlease

/-! ## Keys that nobody knows -/

/-- The keys are closed one after the other, at the given times. -/
def closing (keys : List String) (times : String → Int) : List Event :=
  keys.map fun key => .call (.closeListenKey key) (times key) .served

variable (keyName) in
omit hname in
theorem call_served {p : P} (hregistered : secretOf p.apiKey = some p.apiSecret) (b : KeyBook) (call : KeyCall)
    (hplain : call.Plain) (ts : Int) : booked U C secretOf keyName p b call ts .served = change keyName b (p.apiKey, call) ∧
      ∀ keys, heard U C secretOf keyName p b call ts .served = .ok keys ↔ answer keyName b (p.apiKey, call) = some keys := by
  rcases call_cases hU hC secretOf keyName p b call hplain ts .served with
    ⟨-, -, hnot⟩ | ⟨hbooked, ⟨-, hheard⟩ | ⟨⟨u, hu⟩, -⟩⟩
  · exact absurd ⟨rfl, hregistered⟩ hnot
  · exact ⟨hbooked, hheard⟩
  · cases hu

omit hname in
theorem closing_run {p : P} (hregistered : secretOf p.apiKey = some p.apiSecret) (times : String → Int)
    (keys : List String) :
    ∀ {s : UserData}, s.httpSession = p → s.book.Sound keyName → keys.Nodup →
      (∀ key ∈ keys, '&' ∉ key.toList ∧ (p.apiKey, key) ∈ s.book.open) →
      (closing keys times).foldl (step U C secretOf keyName) s = {
        httpSession := p
        book := s.book.finishAll p.apiKey keys
        outcomes := s.outcomes ++ keys.map fun key => ⟨p.apiKey, .closeListenKey key, .ok [key]⟩ } := by
  induction keys with
  | nil =>
    rintro s rfl - - -
    rw [List.map_nil, List.append_nil]
    rfl
  | cons key keys ih =>
    intro s hs hsound hnodup hkeys
    obtain ⟨hkey, hopen⟩ := hkeys key List.mem_cons_self
    obtain ⟨hbooked, hheard⟩ := call_served hU hC secretOf keyName hregistered s.book (.closeListenKey key) hkey (times key)
    have hstep : step U C secretOf keyName s (.call (.closeListenKey key) (times key) .served) = {
        httpSession := p
        book := s.book.finish (p.apiKey, key)
        outcomes := s.outcomes ++ [⟨p.apiKey, .closeListenKey key, .ok [key]⟩] } := by
      dsimp only [step]
      rw [hs, hbooked, (hheard [key]).mpr (if_pos hopen)]
      rfl
    have hrest : ∀ other ∈ keys, '&' ∉ other.toList ∧ (p.apiKey, other) ∈ (s.book.finish (p.apiKey, key)).open := by
      intro other hother
      obtain ⟨hplain, hother'⟩ := hkeys other (List.mem_cons_of_mem _ hother)
      refine ⟨hplain, ?_⟩
      rw [hsound.finish_open]
      refine List.mem_filter.mpr ⟨hother', decide_eq_true fun heq => ?_⟩
      have hsame : other = key := congrArg Prod.snd heq
      exact (List.nodup_cons.mp hnodup).1 (hsame ▸ hother)
    show (closing keys times).foldl (step U C secretOf keyName)
      (step U C secretOf keyName s (.call (.closeListenKey key) (times key) .served)) = _
    rw [hstep, ih rfl (hsound.finish _) (List.nodup_cons.mp hnodup).2 hrest, List.append_assoc]
    rfl

/-- However many answers were lost, a caller whose credentials are registered
can ask for the open keys and close them all. The other accounts keep theirs. -/
theorem keys_recovered (hnames : ∀ n, '&' ∉ (keyName n).toList) (first : P) (es : List Event) (hes : ∀ e ∈ es, e.Plain)
    {p : P} (hp : (run U C secretOf keyName first es).httpSession = p) (hregistered : secretOf p.apiKey = some p.apiSecret)
    (ts : Int) (times : String → Int) :
    ∃ keys, (run U C secretOf keyName first (es ++ .call .getListenKeys ts .served :: closing keys times)).outcomes =
        (run U C secretOf keyName first es).outcomes ++ ⟨p.apiKey, .getListenKeys, .ok keys⟩ ::
          keys.map (fun key => ⟨p.apiKey, .closeListenKey key, .ok [key]⟩) ∧
      ∀ account, (run U C secretOf keyName first (es ++ .call .getListenKeys ts .served :: closing keys times)).book.listed
        account = if account = p.apiKey then [] else (run U C secretOf keyName first es).book.listed account := by
  have hsound := (accounted_run hU hC secretOf hname first es hes).sound
  obtain ⟨hbooked, hheard⟩ := call_served hU hC secretOf keyName hregistered (run U C secretOf keyName first es).book
    .getListenKeys trivial ts
  let keys := (run U C secretOf keyName first es).book.listed p.apiKey
  have hstep : step U C secretOf keyName (run U C secretOf keyName first es) (.call .getListenKeys ts .served) = {
      httpSession := p
      book := (run U C secretOf keyName first es).book
      outcomes := (run U C secretOf keyName first es).outcomes ++ [⟨p.apiKey, .getListenKeys, .ok keys⟩] } := by
    dsimp only [step]
    rw [hp, hbooked, (hheard keys).mpr rfl]
    rfl
  have hkeys : ∀ key ∈ keys, '&' ∉ key.toList ∧ (p.apiKey, key) ∈ (run U C secretOf keyName first es).book.open := by
    intro key hkey
    have hopen := Leases.Book.mem_listed.mp hkey
    obtain ⟨n, -, hn⟩ := hsound.numbered _ (List.mem_append_left _ hopen)
    have hn' : key = keyName n := hn
    exact ⟨hn' ▸ hnames n, hopen⟩
  have hall : run U C secretOf keyName first (es ++ .call .getListenKeys ts .served :: closing keys times) = {
      httpSession := p
      book := (run U C secretOf keyName first es).book.finishAll p.apiKey keys
      outcomes := (run U C secretOf keyName first es).outcomes ++ [⟨p.apiKey, .getListenKeys, .ok keys⟩] ++
        keys.map fun key => ⟨p.apiKey, .closeListenKey key, .ok [key]⟩ } := by
    show (es ++ .call .getListenKeys ts .served :: closing keys times).foldl (step U C secretOf keyName) _ = _
    rw [List.foldl_append, List.foldl_cons]
    show (closing keys times).foldl _ (step U C secretOf keyName (run U C secretOf keyName first es) _) = _
    rw [hstep]
    exact closing_run hU hC secretOf hregistered times keys rfl hsound (hsound.listed_nodup _) hkeys
  refine ⟨keys, ?_, fun account => ?_⟩
  · rw [hall, List.append_assoc]
    rfl
  · rw [hall]
    exact hsound.finishAll_listed p.apiKey account

end

/-! ## A key whose answer is lost -/

section

def lastingName (n : Nat) : String := String.ofList (List.replicate n 'k')

theorem lastingName_injective : Function.Injective lastingName := by
  intro m n h
  have hlist := congrArg String.toList h
  unfold lastingName at hlist
  rw [String.toList_ofList, String.toList_ofList] at hlist
  simpa using congrArg List.length hlist

theorem lastingName_plain (n : Nat) : '&' ∉ (lastingName n).toList := by
  unfold lastingName
  rw [String.toList_ofList, List.mem_replicate]
  exact fun h => absurd h.2 (by decide)

def registered (apiKey : String) : Option String := if apiKey = "key" then some "secret" else none

/-- A key is opened and the connection breaks before the answer. -/
def lostKeyRun : List Event :=
  [.setCredentials "key" "secret", .call .getListenKey 1700000000000 (.unheard Futures.brokenStream)]

theorem lostKeyRun_plain : ∀ e ∈ lostKeyRun, e.Plain := by
  intro e he
  rcases List.mem_pair.mp he with rfl | rfl <;> exact trivial

theorem keys_accounted_lost :
    (∀ ts fate keys, heard .plain listenPlatform registered lastingName
        (run .plain listenPlatform registered lastingName ⟨"", ""⟩ lostKeyRun).httpSession
        (run .plain listenPlatform registered lastingName ⟨"", ""⟩ lostKeyRun).book .getListenKeys ts fate = .ok keys →
      keys = (run .plain listenPlatform registered lastingName ⟨"", ""⟩ lostKeyRun).book.listed
        (run .plain listenPlatform registered lastingName ⟨"", ""⟩ lostKeyRun).httpSession.apiKey) ∧
    ((run .plain listenPlatform registered lastingName ⟨"", ""⟩ lostKeyRun).returned.map Prod.snd).Nodup ∧
    (∀ lease ∈ (run .plain listenPlatform registered lastingName ⟨"", ""⟩ lostKeyRun).returned,
      lease ∈ (run .plain listenPlatform registered lastingName ⟨"", ""⟩ lostKeyRun).book.open ∨
        Ended .plain listenPlatform registered lastingName ⟨"", ""⟩ lostKeyRun lease) ∧
    (∀ lease ∈ (run .plain listenPlatform registered lastingName ⟨"", ""⟩ lostKeyRun).closed,
      lease ∉ (run .plain listenPlatform registered lastingName ⟨"", ""⟩ lostKeyRun).book.open) ∧
    (run .plain listenPlatform registered lastingName ⟨"", ""⟩ lostKeyRun).returned.length ≤
      (run .plain listenPlatform registered lastingName ⟨"", ""⟩ lostKeyRun).book.issued ∧
    (run .plain listenPlatform registered lastingName ⟨"", ""⟩ lostKeyRun).book.issued ≤
      (run .plain listenPlatform registered lastingName ⟨"", ""⟩ lostKeyRun).returned.length +
        lostKeyRun.countP Event.untold :=
  keys_accounted JsonUtils.plain_lawful listenPlatform_hexDigits registered lastingName_injective ⟨"", ""⟩ lostKeyRun
    lostKeyRun_plain

theorem keys_recovered_lost :
    ∃ keys, (run .plain listenPlatform registered lastingName ⟨"", ""⟩
        (lostKeyRun ++ .call .getListenKeys 1700000001000 .served :: closing keys fun _ => 1700000001000)).outcomes =
        (run .plain listenPlatform registered lastingName ⟨"", ""⟩ lostKeyRun).outcomes ++
          ⟨"key", .getListenKeys, .ok keys⟩ :: keys.map (fun key => ⟨"key", .closeListenKey key, .ok [key]⟩) ∧
      ∀ account, (run .plain listenPlatform registered lastingName ⟨"", ""⟩ (lostKeyRun ++
          .call .getListenKeys 1700000001000 .served :: closing keys fun _ => 1700000001000)).book.listed account =
        if account = "key" then []
        else (run .plain listenPlatform registered lastingName ⟨"", ""⟩ lostKeyRun).book.listed account :=
  keys_recovered JsonUtils.plain_lawful listenPlatform_hexDigits registered lastingName_injective lastingName_plain ⟨"", ""⟩
    lostKeyRun lostKeyRun_plain (show _ = P.mk "key" "secret" from rfl) rfl 1700000001000 _

end

end UserData

end Spot

end MexcApi
