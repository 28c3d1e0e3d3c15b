import Mathlib.Data.List.Induction
import Mathlib.Data.List.TakeWhile
import MexcApi.HttpMessages

/-!
# Whose credentials a futures message carries

The session of the futures client is replaced as a whole, so a message only has
the credentials given last, and a public one has none. What an API key signs is
the query, and what a token signs is the body, so the exchange can check both
from the message. An order is never sent with an API key.
-/

namespace MexcApi

open Nlohmann

def HttpRequest.isPrivate : HttpRequest → Bool
  | .methodGet _ _ isPublic | .methodPost _ _ isPublic | .methodPut _ _ isPublic | .methodDelete _ _ isPublic => !isPublic
  | .methodPostBody .. => true

def HttpRequest.path : HttpRequest → String
  | .methodGet path .. | .methodPost path .. | .methodPut path .. | .methodDelete path .. | .methodPostBody path _ => path

/-! ## The fields of a message -/

theorem Request.get?_set (req : Request) (name value other : String) :
    HeaderFields.get? fieldKey other (req.set name value).fields =
      if fieldKey other = fieldKey name then some value else HeaderFields.get? fieldKey other req.fields := by
  by_cases h : fieldKey other = fieldKey name
  · have hkey : HeaderFields.get? fieldKey other (req.set name value).fields =
        HeaderFields.get? fieldKey name (req.set name value).fields := by
      unfold HeaderFields.get?
      rw [h]
    rw [if_pos h, hkey]
    simp [Request.set]
  · rw [if_neg h]
    exact HeaderFields.get?_set_of_ne h value req.fields

def Request.Distinct (req : Request) : Prop := (req.fields.map fun f => fieldKey f.1).Nodup

theorem Request.Distinct.set {req : Request} (h : req.Distinct) (name value : String) : (req.set name value).Distinct :=
  HeaderFields.set_distinct name value h

theorem setAll_distinct (news : List (String × String)) {fields : List (String × String)}
    (h : (fields.map fun f => fieldKey f.1).Nodup) :
    ((HeaderFields.setAll fieldKey news fields).map fun f => fieldKey f.1).Nodup := by
  induction news generalizing fields with
  | nil => exact h
  | cons f news ih => exact ih (HeaderFields.set_distinct f.1 f.2 h)

namespace Futures

namespace HTTPSession.P

section
variable (C : Platform) (p : P) (req : Request) (body : String)

def reservedNames : List String := "Host" :: "User-Agent" :: browserHeaders.map Prod.fst

theorem request_kept {name : String} (h : ∀ other ∈ reservedNames, fieldKey name ≠ fieldKey other) :
    (p.request C req body).get? name = HeaderFields.get? fieldKey name req.fields := by
  have hhost : fieldKey name ≠ fieldKey "Host" := h _ (by simp [reservedNames])
  have hagent : fieldKey name ≠ fieldKey "User-Agent" := h _ (by simp [reservedNames])
  unfold Message.get? request
  by_cases hweb : p.authSource = .Web
  · have hbrowser : ∀ f ∈ browserHeaders, fieldKey name ≠ fieldKey f.1 := by
      intro f hf
      apply h
      simp only [reservedNames, List.mem_cons]
      exact Or.inr (Or.inr (List.mem_map_of_mem hf))
    simp only [hweb, if_true, setBrowserHeaders]
    rw [HeaderFields.get?_setAll_of_forall_ne hbrowser, Request.get?_set, if_neg hhost]
  · simp only [hweb, if_false]
    rw [Request.get?_set, if_neg hagent, Request.get?_set, if_neg hhost]

theorem request_host : (p.request C req body).get? "Host" = some p.uri := by
  have hbrowser : ∀ f ∈ browserHeaders, fieldKey "Host" ≠ fieldKey f.1 := by decide
  have hagent : fieldKey "Host" ≠ fieldKey "User-Agent" := by decide
  unfold Message.get? request
  by_cases hweb : p.authSource = .Web
  · simp only [hweb, if_true, setBrowserHeaders]
    rw [HeaderFields.get?_setAll_of_forall_ne hbrowser, Request.get?_set, if_pos rfl]
  · simp only [hweb, if_false]
    rw [Request.get?_set, if_neg hagent, Request.get?_set, if_pos rfl]

theorem request_distinct (h : req.Distinct) : (p.request C req body).Distinct := by
  unfold request
  by_cases hweb : p.authSource = .Web
  · simp only [hweb, if_true]
    exact setAll_distinct _ (h.set _ _)
  · simp only [hweb, if_false]
    exact (h.set _ _).set _ _

theorem request_rest : (p.request C req body).uri = p.uri ∧ (p.request C req body).body = body ∧
    (p.request C req body).method = req.method ∧ (p.request C req body).target = req.target := by
  unfold request
  by_cases hweb : p.authSource = .Web <;> simp [hweb, setBrowserHeaders, Request.set]

end

/-! ## The names that carry credentials -/

def credentialNames : List String := ["ApiKey", "Request-Time", "Signature", "Authorization", "x-mxc-nonce", "x-mxc-sign"]

theorem credential_kept (C : Platform) (p : P) (req : Request) (body : String) {name : String}
    (h : name ∈ credentialNames) : (p.request C req body).get? name = HeaderFields.get? fieldKey name req.fields := by
  have hfree : ∀ name ∈ credentialNames, ∀ other ∈ reservedNames, fieldKey name ≠ fieldKey other := by decide
  exact p.request_kept C req body (hfree name h)

end HTTPSession.P

/-! ## Credentials -/

inductive Credentials where
  | key (apiKey apiSecret : String)
  | token (webToken : String)

namespace Credentials

def session : Credentials → HTTPSession.P
  | key apiKey apiSecret => HTTPSession.withKey apiKey apiSecret
  | token webToken => HTTPSession.withToken webToken .Web

def host : Credentials → String
  | key .. => API_URI_FUTURES
  | token _ => API_URI_FUTURES_WEB

def apiKey? : Credentials → Option String
  | key apiKey _ => some apiKey
  | token _ => none

def webToken? : Credentials → Option String
  | key .. => none
  | token webToken => some webToken

end Credentials

/-- What a message may have of the credentials in force. -/
structure Isolated (C : Platform) (c : Credentials) (ts : Int) (request : HttpRequest) (m : Message) : Prop where
  uri : m.uri = c.host
  host : m.get? "Host" = some c.host
  distinct : m.Distinct
  apiKey : m.get? "ApiKey" = if request.isPrivate then c.apiKey? else none
  authorization : m.get? "Authorization" = if request.isPrivate then c.webToken? else none
  post : m.method = .post → c.webToken?.isSome
  /-- A public message would be the same with other credentials of that kind. -/
  anonymous : request.isPrivate = false →
    (∀ name ∈ HTTPSession.P.credentialNames, m.get? name = none) ∧
    ∀ c' : Credentials, c'.host = c.host → c'.session.message C ts request = some (.ok m)

namespace HTTPSession.P

section
variable (C : Platform) (ts : Int)

theorem public_same {c c' : Credentials} (h : c'.host = c.host) (path : String) (parameters : Parameters) :
    c'.session.methodGet C ts path parameters true = c.session.methodGet C ts path parameters true := by
  have hne : API_URI_FUTURES ≠ API_URI_FUTURES_WEB := by decide
  cases c with
  | key apiKey apiSecret =>
    cases c' with
    | key apiKey' apiSecret' => rfl
    | token webToken' => exact absurd h.symm hne
  | token webToken =>
    cases c' with
    | key apiKey' apiSecret' => exact absurd h hne
    | token webToken' => rfl

theorem session_uri (c : Credentials) : c.session.uri = c.host := by
  cases c <;> rfl

/-! ## Messages without a body -/

/-- The request that `methodGet` hands to `request`. -/
def prepared (p : P) (path : String) (parameters : Parameters) (isPublic : Bool) : Request :=
  let queryString := createQueryStr parameters
  let req : Request := ⟨.get, if queryString.isEmpty then path else path ++ "?" ++ queryString, []⟩
  if isPublic then req
  else if p.authSource = .Web then p.authenticateWebGet req
  else p.authenticateGet C ts req parameters

theorem methodGet_eq (p : P) (path : String) (parameters : Parameters) (isPublic : Bool) :
    p.methodGet C ts path parameters isPublic = p.request C (p.prepared C ts path parameters isPublic) "" := rfl

theorem prepared_rest (p : P) (path : String) (parameters : Parameters) (isPublic : Bool) :
    (p.prepared C ts path parameters isPublic).method = .get ∧
    (p.prepared C ts path parameters isPublic).target =
      (if (createQueryStr parameters).isEmpty then path else path ++ "?" ++ createQueryStr parameters) ∧
    (p.prepared C ts path parameters isPublic).Distinct := by
  have hempty : ∀ target, (Request.mk .get target []).Distinct := fun _ => by simp [Request.Distinct]
  unfold prepared
  by_cases hpublic : isPublic
  · simp [hpublic, hempty]
  · by_cases hweb : p.authSource = .Web
    · simp only [hpublic, hweb, if_true]
      exact ⟨rfl, rfl, (hempty _).set _ _⟩
    · simp only [hpublic, hweb, if_false]
      exact ⟨rfl, rfl, ((((hempty _).set _ _).set _ _).set _ _).set _ _⟩

theorem prepared_key (apiKey apiSecret path : String) (parameters : Parameters) :
    let req := (withKey apiKey apiSecret).prepared C ts path parameters false
    HeaderFields.get? fieldKey "ApiKey" req.fields = some apiKey ∧
    HeaderFields.get? fieldKey "Request-Time" req.fields = some (toString ts) ∧
    HeaderFields.get? fieldKey "Signature" req.fields =
      some (C.stringToHex (C.HMAC apiSecret (strToSign apiKey ts parameters))) ∧
    HeaderFields.get? fieldKey "Authorization" req.fields = none := by
  have hsource : (withKey apiKey apiSecret).authSource ≠ .Web := by simp [withKey]
  simp only [prepared, hsource, Bool.false_eq_true, if_false, authenticateGet]
  simp +decide [Request.get?_set, withKey]

theorem prepared_token (webToken path : String) (parameters : Parameters) :
    let req := (withToken webToken .Web).prepared C ts path parameters false
    HeaderFields.get? fieldKey "Authorization" req.fields = some webToken ∧
    HeaderFields.get? fieldKey "ApiKey" req.fields = none := by
  have hsource : (withToken webToken .Web).authSource = .Web := rfl
  simp only [prepared, hsource, Bool.false_eq_true, if_false, if_true, authenticateWebGet]
  simp +decide [Request.get?_set, withToken]

theorem isolated_get (c : Credentials) (path : String) (parameters : List (String × String)) (isPublic : Bool) :
    Isolated C c ts (.methodGet path parameters isPublic)
      (c.session.methodGet C ts path (Parameters.ofList parameters) isPublic) := by
  rw [methodGet_eq]
  generalize hm : Parameters.ofList parameters = m
  obtain ⟨hmethod, -, hdistinct⟩ := prepared_rest C ts c.session path m isPublic
  have hrest := c.session.request_rest C (c.session.prepared C ts path m isPublic) ""
  have hkept : ∀ {name : String}, name ∈ credentialNames → _ :=
    fun hname => c.session.credential_kept C (c.session.prepared C ts path m isPublic) "" hname
  refine ⟨?_, ?_, request_distinct C _ _ _ hdistinct, ?_, ?_, ?_, ?_⟩
  · exact hrest.1.trans (session_uri c)
  · exact (c.session.request_host C _ "").trans (congrArg some (session_uri c))
  · rw [hkept (by simp [credentialNames])]
    cases isPublic with
    | true => rfl
    | false =>
      cases c with
      | key apiKey apiSecret => exact (prepared_key C ts apiKey apiSecret path m).1
      | token webToken => exact (prepared_token C ts webToken path m).2
  · rw [hkept (by simp [credentialNames])]
    cases isPublic with
    | true => rfl
    | false =>
      cases c with
      | key apiKey apiSecret => exact (prepared_key C ts apiKey apiSecret path m).2.2.2
      | token webToken => exact (prepared_token C ts webToken path m).1
  · intro hpost
    rw [hrest.2.2.1, hmethod] at hpost
    cases hpost
  · intro hpublic
    have htrue : isPublic = true := by simpa [HttpRequest.isPrivate] using hpublic
    subst htrue
    refine ⟨fun name hname => hkept hname, ?_⟩
    intro c' hc'
    rw [message, hm, public_same C ts hc', methodGet_eq]

/-! ## Messages with a body -/

theorem withKey_post (apiKey apiSecret path jsonBody : String) :
    ∃ e, (withKey apiKey apiSecret).methodPost C ts path jsonBody = .error e := ⟨_, rfl⟩

/-- The request that `methodPost` hands to `request`, `g` being what is left of
the first digest. -/
def posted (webToken path jsonBody g : String) : Request :=
  let req := ((Request.mk .post path []).set "Content-Type" "application/json").set "Content-Length"
    (toString jsonBody.utf8ByteSize)
  ((req.set "Authorization" webToken).set "x-mxc-nonce" (toString ts)).set "x-mxc-sign"
    (md5Hex C (toString ts ++ jsonBody ++ g))

theorem withToken_post (webToken path jsonBody : String) :
    (withToken webToken .Web).methodPost C ts path jsonBody =
      (substr (md5Hex C (webToken ++ toString ts)) 7).map fun g =>
        (withToken webToken .Web).request C (posted C ts webToken path jsonBody g) jsonBody := by
  have hsource : (withToken webToken .Web).authSource = .Web := rfl
  have htoken : (withToken webToken .Web).webToken = webToken := rfl
  simp only [methodPost, hsource, if_true, authenticateWebPost, htoken]
  cases substr (md5Hex C (webToken ++ toString ts)) 7 with
  | error e => rfl
  | ok g => rfl

theorem posted_rest (webToken path jsonBody g : String) : (posted C ts webToken path jsonBody g).Distinct ∧
    (posted C ts webToken path jsonBody g).method = .post ∧ (posted C ts webToken path jsonBody g).target = path := by
  have hempty : (Request.mk .post path []).Distinct := by simp [Request.Distinct]
  exact ⟨((((hempty.set _ _).set _ _).set _ _).set _ _).set _ _, rfl, rfl⟩

theorem posted_fields (webToken path jsonBody g : String) :
    let req := posted C ts webToken path jsonBody g
    HeaderFields.get? fieldKey "Authorization" req.fields = some webToken ∧
    HeaderFields.get? fieldKey "x-mxc-nonce" req.fields = some (toString ts) ∧
    HeaderFields.get? fieldKey "x-mxc-sign" req.fields = some (md5Hex C (toString ts ++ jsonBody ++ g)) ∧
    HeaderFields.get? fieldKey "Content-Length" req.fields = some (toString jsonBody.utf8ByteSize) ∧
    HeaderFields.get? fieldKey "ApiKey" req.fields = none := by
  simp +decide [posted, Request.get?_set]

theorem isolated_post {c : Credentials} {path : String} {jsonBody : Json} {m : Message}
    (h : c.session.methodPost C ts path (C.dump jsonBody) = .ok m) : Isolated C c ts (.methodPostBody path jsonBody) m := by
  cases c with
  | key apiKey apiSecret =>
    obtain ⟨e, he⟩ := withKey_post C ts apiKey apiSecret path (C.dump jsonBody)
    simp [Credentials.session, he] at h
  | token webToken =>
    simp only [Credentials.session, withToken_post] at h
    cases hg : substr (md5Hex C (webToken ++ toString ts)) 7 with
    | error e =>
      rw [hg] at h
      cases h
    | ok g =>
      rw [hg] at h
      cases h
      obtain ⟨hdistinct, hmethod, -⟩ := posted_rest C ts webToken path (C.dump jsonBody) g
      obtain ⟨hauth, -, -, -, hkey⟩ := posted_fields C ts webToken path (C.dump jsonBody) g
      have hrest := request_rest C (withToken webToken .Web) (posted C ts webToken path (C.dump jsonBody) g)
          (C.dump jsonBody)
      refine ⟨hrest.1, request_host C _ _ _, request_distinct C _ _ _ hdistinct, ?_, ?_, fun _ => rfl, ?_⟩
      · exact (credential_kept C _ _ _ (by simp [credentialNames])).trans hkey
      · exact (credential_kept C _ _ _ (by simp [credentialNames])).trans hauth
      · intro hpublic
        simp [HttpRequest.isPrivate] at hpublic

theorem isolated_message {c : Credentials} {request : HttpRequest} {m : Message}
    (h : c.session.message C ts request = some (.ok m)) : Isolated C c ts request m := by
  cases request with
  | methodGet path parameters isPublic =>
    simp only [message, Option.some.injEq, Except.ok.injEq] at h
    rw [← h]
    exact isolated_get C ts c path parameters isPublic
  | methodPostBody path jsonBody =>
    simp only [message, Option.some.injEq] at h
    exact isolated_post C ts h
  | methodPost _ _ _ => simp [message] at h
  | methodPut _ _ _ => simp [message] at h
  | methodDelete _ _ _ => simp [message] at h

end

end HTTPSession.P

/-! ## Runs of a client -/

theorem Call.send_congr (U : JsonUtils) {httpSession httpSession' : MexcApi.HTTPSession} (call : Call)
    (h : httpSession call.request = httpSession' call.request) : call.send U httpSession = call.send U httpSession' := by
  cases call with
  | klines symbol interval startTime endTime =>
    simp only [Call.request] at h
    simp only [Call.send, RESTClient.P.getHistoricalPrices, h]
  | query q =>
    simp only [Call.request] at h
    simp only [Call.send]
    cases q <;> simp only [Query.request] at h <;>
      simp only [Query.send, RESTClient.getServerTime, RESTClient.getContractDetails, RESTClient.getContractFundingRate,
        RESTClient.getContractFundingRates, RESTClient.getContractFundingRateHistory, RESTClient.getWalletBalance,
        RESTClient.getContractTicker, RESTClient.getOpenPositions, RESTClient.submitOrder, RESTClient.cancelOrders, h]

def Client.Event.credentials? : Client.Event → Option Credentials
  | .login (apiKey, apiSecret, _) => some (if apiSecret = "" then .token apiKey else .key apiKey apiSecret)
  | .setCredentials apiKey apiSecret => some (.key apiKey apiSecret)
  | .setWebToken webToken => some (.token webToken)
  | .call .. => none

/-- The credentials given last; a new connector has an empty key. -/
def inForce (es : List Client.Event) : Credentials :=
  (es.filterMap Client.Event.credentials?).getLast?.getD (.key "" "")

def Client.run (C : Platform) (es : List Client.Event) : Client := es.foldl (Client.step C) {}

theorem Client.run_snoc (C : Platform) (es : List Client.Event) (e : Client.Event) :
    Client.run C (es ++ [e]) = (Client.run C es).step C e := by
  simp [Client.run]

theorem inForce_snoc (es : List Client.Event) (e : Client.Event) :
    inForce (es ++ [e]) = e.credentials?.getD (inForce es) := by
  unfold inForce
  cases h : e.credentials? with
  | none => simp [h]
  | some c => simp [h]

theorem httpSession_run (C : Platform) (es : List Client.Event) : (Client.run C es).httpSession = (inForce es).session := by
  induction es using List.reverseRecOn with
  | nil => rfl
  | append_singleton es e ih =>
    rw [Client.run_snoc, inForce_snoc]
    cases e with
    | login credentials =>
      obtain ⟨apiKey, apiSecret, passPhrase⟩ := credentials
      by_cases hsecret : apiSecret = ""
      · simp [Client.step, login, hsecret, Client.Event.credentials?, Credentials.session, RESTClient.newWeb]
      · simp [Client.step, login, hsecret, Client.Event.credentials?, Credentials.session, RESTClient.new]
    | setCredentials apiKey apiSecret => rfl
    | setWebToken webToken => rfl
    | call call ts =>
      simp only [Client.step, Client.Event.credentials?, Option.getD_none, ← ih]
      cases (Client.run C es).httpSession.message C ts call.request with
      | none => rfl
      | some result => cases result <;> rfl

theorem written_step (C : Platform) (c : Client) (e : Client.Event) {m : Message} (h : m ∈ (c.step C e).written) :
    m ∈ c.written ∨ ∃ call ts, e = .call call ts ∧ c.httpSession.message C ts call.request = some (.ok m) := by
  cases e with
  | login credentials => exact Or.inl h
  | setCredentials apiKey apiSecret => exact Or.inl h
  | setWebToken webToken => exact Or.inl h
  | call call ts =>
    simp only [Client.step] at h
    cases hm : c.httpSession.message C ts call.request with
    | none =>
      rw [hm] at h
      exact Or.inl h
    | some result =>
      rw [hm] at h
      cases result with
      | error e => exact Or.inl h
      | ok m' =>
        rcases List.mem_append.mp h with h | h
        · exact Or.inl h
        · rw [List.mem_singleton] at h
          exact Or.inr ⟨call, ts, rfl, by rw [hm, h]⟩

theorem written_isolated (C : Platform) (es : List Client.Event) : ∀ m ∈ (Client.run C es).written,
    ∃ before call ts after, es = before ++ .call call ts :: after ∧ Isolated C (inForce before) ts call.request m := by
  induction es using List.reverseRecOn with
  | nil => simp [Client.run]
  | append_singleton es e ih =>
    intro m hm
    rw [Client.run_snoc] at hm
    rcases written_step C _ e hm with hold | ⟨call, ts, rfl, hnew⟩
    · obtain ⟨before, call, ts, after, rfl, hisolated⟩ := ih m hold
      exact ⟨before, call, ts, after ++ [e], by simp, hisolated⟩
    · rw [httpSession_run] at hnew
      exact ⟨es, call, ts, [], rfl, HTTPSession.P.isolated_message C ts hnew⟩

theorem messages_isolated (C : Platform) (es : List Client.Event) :
    (∀ m ∈ (Client.run C es).written, ∃ before call ts after, es = before ++ .call call ts :: after ∧
      Isolated C (inForce before) ts call.request m) ∧
    ∀ (U : JsonUtils) (call : Call) (ts : Int) (network network' : Network),
      (∀ m, Isolated C (inForce es) ts call.request m → network m = network' m) →
      call.send U ((Client.run C es).httpSession.perform C ts network) =
        call.send U ((Client.run C es).httpSession.perform C ts network') := by
  refine ⟨written_isolated C es, ?_⟩
  intro U call ts network network' hsame
  apply Call.send_congr
  unfold HTTPSession.P.perform
  rw [httpSession_run]
  cases hm : (inForce es).session.message C ts call.request with
  | none => rfl
  | some result =>
    cases result with
    | error e => rfl
    | ok m => exact hsame m (HTTPSession.P.isolated_message C ts hm)

/-! ## What the exchange can check -/

def targetQuery (target : String) : String := String.ofList ((target.toList.dropWhile (· ≠ '?')).drop 1)

theorem unmarked {path : String} (h : '?' ∉ path.toList) : ∀ c ∈ path.toList, decide (c ≠ '?') = true := by
  intro c hc
  rw [decide_eq_true_iff]
  rintro rfl
  exact h hc

theorem targetQuery_path {path : String} (h : '?' ∉ path.toList) : targetQuery path = "" := by
  unfold targetQuery
  rw [List.dropWhile_eq_nil_iff.mpr (unmarked h)]
  rfl

theorem targetQuery_append {path : String} (h : '?' ∉ path.toList) (query : String) :
    targetQuery (path ++ "?" ++ query) = query := by
  unfold targetQuery
  simp only [String.toList_append]
  rw [List.append_assoc, List.dropWhile_append_of_pos (unmarked h)]
  simp

theorem targetQuery_query {path : String} (h : '?' ∉ path.toList) (query : String) :
    targetQuery (if query.isEmpty then path else path ++ "?" ++ query) = query := by
  split
  · rename_i hempty
    rw [targetQuery_path h, String.isEmpty_iff.mp hempty]
  · exact targetQuery_append h query

/-- The exchange knows the credentials, and what they sign it takes from the
message. -/
def Accepted (C : Platform) (m : Message) : Credentials → Prop
  | .key apiKey apiSecret =>
    m.uri = API_URI_FUTURES ∧ ∃ time, m.get? "ApiKey" = some apiKey ∧ m.get? "Request-Time" = some time ∧
      m.get? "Signature" = some (C.stringToHex (C.HMAC apiSecret (apiKey ++ time ++ targetQuery m.target)))
  | .token webToken =>
    m.uri = API_URI_FUTURES_WEB ∧ m.get? "Authorization" = some webToken ∧
      (m.method = .post → ∃ time g, m.get? "x-mxc-nonce" = some time ∧
        substr (md5Hex C (webToken ++ time)) 7 = .ok g ∧ m.get? "x-mxc-sign" = some (md5Hex C (time ++ m.body ++ g)) ∧
        m.get? "Content-Length" = some (toString m.body.utf8ByteSize))

namespace HTTPSession.P

section
variable (C : Platform) (ts : Int)

theorem accepted_get (c : Credentials) {path : String} (h : '?' ∉ path.toList) (parameters : Parameters) :
    Accepted C (c.session.methodGet C ts path parameters false) c := by
  rw [methodGet_eq]
  obtain ⟨hmethod, htarget, -⟩ := prepared_rest C ts c.session path parameters false
  have hrest := c.session.request_rest C (c.session.prepared C ts path parameters false) ""
  cases c with
  | key apiKey apiSecret =>
    obtain ⟨hkey, htime, hsign, -⟩ := prepared_key C ts apiKey apiSecret path parameters
    refine ⟨hrest.1, toString ts, ?_, ?_, ?_⟩
    · exact (credential_kept C _ _ _ (by simp [credentialNames])).trans hkey
    · exact (credential_kept C _ _ _ (by simp [credentialNames])).trans htime
    · rw [hrest.2.2.2, htarget, targetQuery_query h]
      exact (credential_kept C _ _ _ (by simp [credentialNames])).trans hsign
  | token webToken =>
    refine ⟨hrest.1, ?_, ?_⟩
    · exact (credential_kept C _ _ _ (by simp [credentialNames])).trans (prepared_token C ts webToken path parameters).1
    · intro hpost
      rw [hrest.2.2.1, hmethod] at hpost
      cases hpost

theorem accepted_post (webToken path jsonBody g : String) (hg : substr (md5Hex C (webToken ++ toString ts)) 7 = .ok g) :
    Accepted C ((withToken webToken .Web).request C (posted C ts webToken path jsonBody g) jsonBody) (.token webToken) := by
  obtain ⟨hauth, hnonce, hsign, hlength, -⟩ := posted_fields C ts webToken path jsonBody g
  have hrest := request_rest C (withToken webToken .Web) (posted C ts webToken path jsonBody g) jsonBody
  have hfree : ∀ other ∈ reservedNames, fieldKey "Content-Length" ≠ fieldKey other := by decide
  refine ⟨hrest.1, ?_, fun _ => ⟨toString ts, g, ?_, hg, ?_, ?_⟩⟩
  · exact (credential_kept C _ _ _ (by simp [credentialNames])).trans hauth
  · exact (credential_kept C _ _ _ (by simp [credentialNames])).trans hnonce
  · rw [hrest.2.1]
    exact (credential_kept C _ _ _ (by simp [credentialNames])).trans hsign
  · rw [hrest.2.1]
    exact (request_kept C _ _ _ hfree).trans hlength

end

end HTTPSession.P

/-- A private call writes one message, which the exchange accepts. Only with an
API key no order and no cancellation is written. -/
theorem private_accepted {C : Platform} (hC : ∀ digest, 7 ≤ (C.md5ToHex digest).toList.length) (es : List Client.Event)
    {call : Call} (ts : Int) (hprivate : call.request.isPrivate = true) (hpath : '?' ∉ call.request.path.toList) :
    ((∃ path jsonBody, call.request = .methodPostBody path jsonBody) ∧ (inForce es).apiKey?.isSome ∧
      (Client.run C (es ++ [.call call ts])).written = (Client.run C es).written) ∨
    ∃ m, (Client.run C (es ++ [.call call ts])).written = (Client.run C es).written ++ [m] ∧
      Accepted C m (inForce es) ∧ ∀ path jsonBody, call.request = .methodPostBody path jsonBody →
        m.method = .post ∧ m.target = path ∧ m.body = C.dump jsonBody := by
  rw [Client.run_snoc]
  simp only [Client.step, httpSession_run]
  cases hrequest : call.request with
  | methodGet path parameters isPublic =>
    rw [hrequest] at hprivate hpath
    have hfalse : isPublic = false := by simpa [HttpRequest.isPrivate] using hprivate
    subst hfalse
    exact Or.inr ⟨_, rfl, HTTPSession.P.accepted_get C ts (inForce es) hpath _, fun _ _ h => by cases h⟩
  | methodPostBody path jsonBody =>
    cases hc : inForce es with
    | key apiKey apiSecret => exact Or.inl ⟨⟨path, jsonBody, rfl⟩, rfl, rfl⟩
    | token webToken =>
      obtain ⟨g, hg⟩ : ∃ g, substr (md5Hex C (webToken ++ toString ts)) 7 = .ok g := by
        have hlen := hC (C.EVP_md5 (webToken ++ toString ts))
        unfold substr md5Hex
        rw [if_neg (by omega)]
        exact ⟨_, rfl⟩
      have hpost := HTTPSession.P.withToken_post C ts webToken path (C.dump jsonBody)
      rw [hg] at hpost
      have hrest := HTTPSession.P.request_rest C (HTTPSession.withToken webToken .Web)
        (HTTPSession.P.posted C ts webToken path (C.dump jsonBody) g) (C.dump jsonBody)
      refine Or.inr ⟨_, ?_, HTTPSession.P.accepted_post C ts webToken path (C.dump jsonBody) g hg, ?_⟩
      · simp only [HTTPSession.P.message, Credentials.session, hpost]
        rfl
      · intro path' jsonBody' h
        cases h
        exact ⟨hrest.2.2.1, hrest.2.2.2, hrest.2.1⟩
  | methodPost _ _ _ =>
    cases call with
    | klines _ _ _ _ => cases hrequest
    | query q => cases q <;> cases hrequest
  | methodPut _ _ _ =>
    cases call with
    | klines _ _ _ _ => cases hrequest
    | query q => cases q <;> cases hrequest
  | methodDelete _ _ _ =>
    cases call with
    | klines _ _ _ _ => cases hrequest
    | query q => cases q <;> cases hrequest

/-- The digests of the two texts that the cancellation below signs, lower-case
hex, and the text of its body. -/
def cancelPlatform : Platform where
  HMAC _ _ := Vector.replicate 32 0
  stringToHex digest := String.ofList (digest.toList.flatMap hexByte)
  EVP_md5 input :=
    if input = "WEB3f1c1700000000000" then #v[178, 170, 155, 32, 152, 75, 95, 209, 66, 109, 238, 43, 135, 106, 167, 11]
    else #v[120, 143, 88, 85, 23, 216, 55, 91, 84, 48, 186, 60, 90, 208, 9, 178]
  md5ToHex digest := String.ofList (digest.toList.flatMap hexByte)
  dump _ := "[101,102]"
  BOOST_BEAST_VERSION_STRING := "Boost.Beast/347"
where
  hexByte (b : UInt8) : List Char := [Nat.digitChar (b.toNat / 16), Nat.digitChar (b.toNat % 16)]

theorem cancelPlatform_hex (digest : Vector UInt8 16) : 7 ≤ (cancelPlatform.md5ToHex digest).toList.length := by
  simp [cancelPlatform, cancelPlatform.hexByte, List.length_flatMap]

theorem private_accepted_cancel :
    ((∃ path jsonBody, (Call.query (.cancelOrders [101, 102])).request = .methodPostBody path jsonBody) ∧
      (inForce [.login ("WEB3f1c", "", "")]).apiKey?.isSome ∧
      (Client.run cancelPlatform ([.login ("WEB3f1c", "", "")] ++
      [.call (.query (.cancelOrders [101, 102])) 1700000000000])).written =
        (Client.run cancelPlatform [.login ("WEB3f1c", "", "")]).written) ∨
    ∃ m, (Client.run cancelPlatform ([.login ("WEB3f1c", "", "")] ++
          [.call (.query (.cancelOrders [101, 102])) 1700000000000])).written =
        (Client.run cancelPlatform [.login ("WEB3f1c", "", "")]).written ++ [m] ∧
      Accepted cancelPlatform m (inForce [.login ("WEB3f1c", "", "")]) ∧
      ∀ path jsonBody, (Call.query (.cancelOrders [101, 102])).request = .methodPostBody path jsonBody →
        m.method = .post ∧ m.target = path ∧ m.body = cancelPlatform.dump jsonBody :=
  private_accepted cancelPlatform_hex [.login ("WEB3f1c", "", "")] 1700000000000 rfl (by decide)

end Futures

end MexcApi
