import MexcApi.HttpMessagesSound
import MexcApi.SignatureSound

/-!
# What the exchange can check of a spot message

A private message is signed with the secret given last, and the exchange can
check the signature from the query alone: it takes the signature out and signs
the rest. This holds as long as the caller's map is a new one. A map that was
used before still has the old signature, which is signed again but not sent.
-/

namespace MexcApi

namespace Spot

open HTTPSession

/-- The parameters of a query, written again. -/
def joinQuery (parameters : List (String × String)) : String := "&".intercalate (parameters.map component)

/-- The query has one signature, and it is that of the other parameters. -/
def Verifies (C : Crypto) (apiSecret query : String) : Prop :=
  let parameters := splitQuery query
  parameters.filter (·.1 = "signature") =
    [("signature", C.stringToHex (C.HMAC apiSecret (joinQuery (parameters.filter (·.1 ≠ "signature")))))]

/-! ## The query of a signed request -/

section
variable {C : Crypto} (hC : C.HexDigits) (p : P) (ts : Int) {m : Parameters} (hm : Clean m)

include hC hm in
theorem sign_clean : Clean (p.sign C ts m) := by
  have hname : '&' ∉ "signature".toList ∧ '=' ∉ "signature".toList := by decide
  exact (hm.timestamp ts).insertOrAssign ⟨hname.1, hname.2, hC.separate _⟩

include hC hm in
theorem signed_query :
    (splitQuery (queryStr (p.sign C ts m))).filter (·.1 = "signature") =
      [("signature", C.stringToHex (C.HMAC p.apiSecret (P.parameterString ts m)))] ∧
    (splitQuery (queryStr (p.sign C ts m))).filter (·.1 ≠ "signature") =
      (m.insertOrAssign "timestamp" (toString ts)).entries.filter (·.1 ≠ "signature") := by
  rw [(splitQuery_queryStr _).mpr (sign_clean hC p ts hm)]
  exact ⟨SortedMap.filter_eq_insertEntry _ _ (m.insertOrAssign "timestamp" (toString ts)).sorted,
    SortedMap.filter_ne_insertEntry _ _ _⟩

/-- What the exchange signs, when it takes the signature out. -/
def sentText (ts : Int) (m : Parameters) : String :=
  joinQuery ((m.insertOrAssign "timestamp" (toString ts)).entries.filter (·.1 ≠ "signature"))

include hC hm in
theorem verifies_iff : Verifies C p.apiSecret (queryStr (p.sign C ts m)) ↔
    C.stringToHex (C.HMAC p.apiSecret (P.parameterString ts m)) = C.stringToHex (C.HMAC p.apiSecret (sentText ts m)) := by
  obtain ⟨hone, hrest⟩ := signed_query hC p ts hm
  unfold Verifies
  dsimp only
  rw [hone, hrest]
  simp [sentText]

theorem sentText_eq (hsig : ∀ e ∈ m.entries, e.1 ≠ "signature") : sentText ts m = P.parameterString ts m := by
  have hall : (m.insertOrAssign "timestamp" (toString ts)).entries.filter (·.1 ≠ "signature") =
      (m.insertOrAssign "timestamp" (toString ts)).entries := by
    rw [List.filter_eq_self]
    intro e he
    simpa using P.timestamp_unsigned m (toString ts) hsig e he
  unfold sentText joinQuery
  rw [hall, intercalate_component]
  rfl

theorem sentText_ne (hm : Clean m) (hsig : ∃ e ∈ m.entries, e.1 = "signature") : sentText ts m ≠ P.parameterString ts m := by
  intro heq
  let n : Parameters := m.insertOrAssign "timestamp" (toString ts)
  have hn : Clean n := hm.timestamp ts
  let rest : Parameters := ⟨n.entries.filter (·.1 ≠ "signature"), n.sorted.filter _⟩
  have hrest : Clean rest := fun e he => hn e (List.mem_filter.mp he).1
  have hquery : queryStr rest = queryStr n := by
    rw [← intercalate_component]
    exact heq
  have hsame : n.entries.filter (·.1 ≠ "signature") = n.entries :=
    congrArg SortedMap.entries (queryStr_injective hrest hn hquery)
  obtain ⟨e, he, hname⟩ := hsig
  -- the time does not replace the signature
  have hmem : e ∈ n.entries := by
    have hfilter := SortedMap.filter_ne_insertEntry "timestamp" (toString ts) m.entries
    have hkept : e ∈ m.entries.filter (·.1 ≠ "timestamp") := by
      simp [he, hname]
    rw [← hfilter] at hkept
    exact (List.mem_filter.mp hkept).1
  rw [← hsame] at hmem
  simp [hname] at hmem

end

/-! ## The fields of a message -/

section
variable (C : Platform) (p : P) (ts : Int)

theorem request_rest (req : Request) : (P.request C req).uri = API_URI_SPOT ∧
    (P.request C req).get? "Host" = some API_URI_SPOT ∧
    (P.request C req).get? "X-MEXC-APIKEY" = HeaderFields.get? fieldKey "X-MEXC-APIKEY" req.fields ∧
    (P.request C req).target = req.target ∧ (req.Distinct → (P.request C req).Distinct) := by
  unfold P.request
  by_cases hpost : req.method = .post
  · have hmethod : ((req.set "Host" API_URI_SPOT).set "User-Agent" C.BOOST_BEAST_VERSION_STRING).method = .post := hpost
    simp only [hmethod, if_true]
    refine ⟨trivial, ?_, ?_, rfl, fun h => ((h.set _ _).set _ _).set _ _⟩
    · simp +decide [Message.get?, Request.get?_set]
    · simp +decide [Message.get?, Request.get?_set]
  · have hmethod : ((req.set "Host" API_URI_SPOT).set "User-Agent" C.BOOST_BEAST_VERSION_STRING).method ≠ .post := hpost
    simp only [hmethod, if_false]
    refine ⟨trivial, ?_, ?_, rfl, fun h => (h.set _ _).set _ _⟩
    · simp +decide [Message.get?, Request.get?_set]
    · simp +decide [Message.get?, Request.get?_set]

/-- What a message may have of the key in force. -/
structure Isolated (request : HttpRequest) (m : Message) : Prop where
  uri : m.uri = API_URI_SPOT
  host : m.get? "Host" = some API_URI_SPOT
  distinct : m.Distinct
  apiKey : m.get? "X-MEXC-APIKEY" = if request.isPrivate then some p.apiKey else none
  /-- A public message would be the same with any other key. -/
  anonymous : request.isPrivate = false → ∀ p' : P, p'.message C ts request = some m

def verbOf : HttpRequest → Verb
  | .methodGet .. => .get
  | .methodPost .. | .methodPostBody .. => .post
  | .methodPut .. => .put
  | .methodDelete .. => .delete_

def parametersOf : HttpRequest → Parameters
  | .methodGet _ parameters _ | .methodPost _ parameters _ | .methodPut _ parameters _ | .methodDelete _ parameters _ =>
    Parameters.ofList parameters
  | .methodPostBody .. => Parameters.ofList []

theorem message_eq {request : HttpRequest} {m : Message} (h : p.message C ts request = some m) :
    m = (p.method C ts (verbOf request) request.path (parametersOf request) (!request.isPrivate)).1 := by
  cases request with
  | methodPostBody _ _ => cases h
  | _ =>
    simp only [P.message, Option.some.injEq] at h
    rw [← h]
    simp [HttpRequest.isPrivate, verbOf, parametersOf, HttpRequest.path, P.methodGet, P.methodPost, P.methodPut,
      P.methodDelete]

theorem message_public {request : HttpRequest} {m : Message} (h : p.message C ts request = some m)
    (hpublic : request.isPrivate = false) (p' : P) : p'.message C ts request = some m := by
  cases request with
  | methodPostBody _ _ => cases h
  | _ =>
    simp only [HttpRequest.isPrivate, Bool.not_eq_false'] at hpublic
    subst hpublic
    exact h

theorem isolated_message {request : HttpRequest} {m : Message} (h : p.message C ts request = some m) :
    Isolated C p ts request m := by
  have heq := message_eq C p ts h
  obtain ⟨huri, hhost, hkey, -, hdistinct⟩ := request_rest C
    (p.createRequest C.toCrypto ts (verbOf request) request.path (parametersOf request) (!request.isPrivate)).1
  have hm : m = P.request C
    (p.createRequest C.toCrypto ts (verbOf request) request.path (parametersOf request) (!request.isPrivate)).1 := heq
  refine ⟨hm ▸ huri, hm ▸ hhost, ?_, ?_, message_public C p ts h⟩
  · rw [hm]
    apply hdistinct
    unfold P.createRequest Request.Distinct
    cases request.isPrivate <;> simp
  · rw [hm, hkey]
    unfold P.createRequest
    cases request.isPrivate with
    | true => simp +decide [HeaderFields.get?]
    | false => simp

end

/-! ## Runs of a client -/

theorem Call.send_congr (U : JsonUtils) {httpSession httpSession' : MexcApi.HTTPSession} (call : Call)
    (h : httpSession call.request = httpSession' call.request) : call.send U httpSession = call.send U httpSession' := by
  cases call with
  | klines symbol interval startTime endTime limit =>
    simp only [Call.request] at h
    simp only [Call.send, RESTClient.P.getHistoricalPrices, h]
  | query q =>
    simp only [Call.request] at h
    simp only [Call.send]
    cases q <;> simp only [Query.request] at h <;>
      simp only [Query.send, RESTClient.getServerTime, RESTClient.getTickerPrice, RESTClient.getListenKey,
        RESTClient.getListenKeys, RESTClient.renewListenKey, RESTClient.closeListenKey, h]

def Client.Event.session? : Client.Event → Option P
  | .setCredentials apiKey apiSecret => some ⟨apiKey, apiSecret⟩
  | .call .. => none

/-- The key given last, to the constructor at first. -/
def inForce (first : P) (es : List Client.Event) : P := (es.filterMap Client.Event.session?).getLast?.getD first

def Client.run (C : Platform) (first : P) (es : List Client.Event) : Client :=
  es.foldl (Client.step C) { httpSession := first }

theorem Client.run_snoc (C : Platform) (first : P) (es : List Client.Event) (e : Client.Event) :
    Client.run C first (es ++ [e]) = (Client.run C first es).step C e := by
  simp [Client.run]

theorem httpSession_run (C : Platform) (first : P) (es : List Client.Event) :
    (Client.run C first es).httpSession = inForce first es := by
  induction es using List.reverseRecOn with
  | nil => rfl
  | append_singleton es e ih =>
    rw [Client.run_snoc]
    cases e with
    | setCredentials apiKey apiSecret => simp [Client.step, inForce, Client.Event.session?]
    | call call ts =>
      simp only [Client.step]
      unfold inForce at ih ⊢
      simp only [List.filterMap_append, List.filterMap_cons, List.filterMap_nil, Client.Event.session?, List.append_nil]
      cases (Client.run C first es).httpSession.message C ts call.request <;> exact ih

/-- The names and values of a private call are without the symbols of a query. -/
def Call.Plain (call : Call) : Prop := ∀ p ∈ (parametersOf call.request).entries, '&' ∉ p.2.toList

theorem private_parameters {call : Call} (hprivate : call.request.isPrivate = true) :
    parametersOf call.request = ⟨[], List.Pairwise.nil⟩ ∨
      ∃ listenKey, parametersOf call.request = Parameters.ofList [("listenKey", listenKey)] := by
  cases call with
  | klines _ _ _ _ _ => simp [Call.request, KlineRequest.toHttp, HttpRequest.isPrivate] at hprivate
  | query q =>
    cases q with
    | getServerTime => simp [Call.request, Query.request, HttpRequest.isPrivate] at hprivate
    | getTickerPrice symbol => simp [Call.request, Query.request, HttpRequest.isPrivate] at hprivate
    | getListenKey => exact Or.inl rfl
    | getListenKeys => exact Or.inl rfl
    | renewListenKey listenKey => exact Or.inr ⟨listenKey, rfl⟩
    | closeListenKey listenKey => exact Or.inr ⟨listenKey, rfl⟩

theorem private_clean {call : Call} (hprivate : call.request.isPrivate = true) (hplain : call.Plain) :
    Clean (parametersOf call.request) ∧ ∀ e ∈ (parametersOf call.request).entries, e.1 ≠ "signature" := by
  have hname : '&' ∉ "listenKey".toList ∧ '=' ∉ "listenKey".toList := by decide
  unfold Call.Plain at hplain
  rcases private_parameters hprivate with hnone | ⟨listenKey, hone⟩
  · rw [hnone]
    exact ⟨by simp [Clean], by simp⟩
  · rw [hone] at hplain ⊢
    have hentries : (Parameters.ofList [("listenKey", listenKey)]).entries = [("listenKey", listenKey)] := rfl
    unfold Clean
    rw [hentries] at hplain ⊢
    simp only [List.forall_mem_singleton] at hplain ⊢
    exact ⟨⟨hname.1, hname.2, hplain⟩, by decide⟩

/-- A private message whose signature the exchange accepts. -/
def Accepted (C : Platform) (p : P) (path : String) (m : Message) : Prop :=
  ∃ query, m.target = path ++ "?" ++ query ∧ Verifies C.toCrypto p.apiSecret query

theorem accepted_message {C : Platform} (hC : C.HexDigits) (p : P) (ts : Int) {call : Call} {m : Message}
    (h : p.message C ts call.request = some m) (hprivate : call.request.isPrivate = true) (hplain : call.Plain) :
    Accepted C p call.request.path m := by
  obtain ⟨hclean, hsig⟩ := private_clean hprivate hplain
  have heq := message_eq C p ts h
  rw [hprivate] at heq
  refine ⟨queryStr (p.sign C.toCrypto ts (parametersOf call.request)), ?_, ?_⟩
  · rw [heq]
    exact (request_rest C _).2.2.2.1.trans (p.createRequest_target ts _ _ _)
  · rw [verifies_iff hC p ts hclean, sentText_eq ts hsig]

/-- The message is that of a call, with the key that was in force. -/
def Stems (C : Platform) (first : P) (es : List Client.Event) (m : Message) : Prop :=
  ∃ before call ts after, es = before ++ .call call ts :: after ∧
    Isolated C (inForce first before) ts call.request m ∧
    (call.request.isPrivate = true → call.Plain → Accepted C (inForce first before) call.request.path m)

theorem Stems.snoc {C : Platform} {first : P} {es : List Client.Event} {m : Message} (h : Stems C first es m)
    (e : Client.Event) : Stems C first (es ++ [e]) m := by
  obtain ⟨before, call, ts, after, rfl, hmessage⟩ := h
  exact ⟨before, call, ts, after ++ [e], by simp, hmessage⟩

theorem written_stems {C : Platform} (hC : C.HexDigits) (first : P) (es : List Client.Event) :
    ∀ m ∈ (Client.run C first es).written, Stems C first es m := by
  induction es using List.reverseRecOn with
  | nil => simp [Client.run]
  | append_singleton es e ih =>
    intro m hm
    rw [Client.run_snoc] at hm
    cases e with
    | setCredentials apiKey apiSecret => exact (ih m hm).snoc _
    | call call ts =>
      simp only [Client.step] at hm
      cases hmessage : (Client.run C first es).httpSession.message C ts call.request with
      | none =>
        rw [hmessage] at hm
        exact (ih m hm).snoc _
      | some m' =>
        rw [hmessage] at hm
        rcases List.mem_append.mp hm with hold | hnew
        · exact (ih m hold).snoc _
        · rw [List.mem_singleton] at hnew
          subst hnew
          rw [httpSession_run] at hmessage
          exact ⟨es, call, ts, [], rfl, isolated_message C _ ts hmessage, accepted_message hC _ ts hmessage⟩

theorem messages_accepted {C : Platform} (hC : C.HexDigits) (first : P) (es : List Client.Event) :
    (∀ m ∈ (Client.run C first es).written, ∃ before call ts after, es = before ++ .call call ts :: after ∧
      Isolated C (inForce first before) ts call.request m ∧
      (call.request.isPrivate = true → call.Plain → Accepted C (inForce first before) call.request.path m)) ∧
    ∀ (U : JsonUtils) (call : Call) (ts : Int) (network network' : Network),
      (∀ m, Isolated C (inForce first es) ts call.request m → network m = network' m) →
      call.send U ((Client.run C first es).httpSession.perform C ts network) =
        call.send U ((Client.run C first es).httpSession.perform C ts network') := by
  refine ⟨written_stems hC first es, ?_⟩
  intro U call ts network network' hsame
  apply Call.send_congr
  unfold P.perform
  rw [httpSession_run]
  cases hm : (inForce first es).message C ts call.request with
  | none => rfl
  | some m => exact hsame m (isolated_message C _ ts hm)

/-- Lower-case hex, and what the HMAC gives with the key `secret` for a listen
key request and for one a second later, with the old signature and without it. -/
def listenPlatform : Platform where
  HMAC _ text :=
    if text = "timestamp=1700000000000" then #v[214, 21, 208, 82, 22, 198, 52, 175, 212, 141, 245, 225, 252, 82, 192, 217,
      91, 119, 137, 47, 25, 80, 46, 27, 97, 159, 57, 27, 201, 214, 130, 5]
    else if text = "timestamp=1700000001000" then
      #v[8, 129, 65, 227, 62, 156, 144, 81, 175, 187, 76, 186, 251, 136, 230, 107,
      194, 129, 144, 40, 26, 103, 205, 93, 241, 32, 241, 203, 182, 61, 224, 56]
    else #v[203, 159, 131, 230, 76, 1, 10, 198, 225, 73, 206, 54, 89, 249, 110, 116,
      222, 245, 128, 237, 95, 24, 99, 252, 218, 187, 215, 172, 228, 106, 202, 55]
  stringToHex digest := String.ofList (digest.toList.flatMap hexByte)
  EVP_md5 _ := Vector.replicate 16 0
  md5ToHex digest := String.ofList (digest.toList.flatMap hexByte)
  dump _ := ""
  BOOST_BEAST_VERSION_STRING := "Boost.Beast/347"
where
  hexByte (b : UInt8) : List Char := [Nat.digitChar (b.toNat / 16), Nat.digitChar (b.toNat % 16)]

theorem listenPlatform_hexDigits : listenPlatform.HexDigits := by
  have hdigit : ∀ n < 16, (Nat.digitChar n).isHexDigit = true := by decide
  intro digest c hc
  simp only [listenPlatform, String.toList_ofList, List.mem_flatMap] at hc
  obtain ⟨b, -, hc⟩ := hc
  have hb : b.toNat < 256 := b.toNat_lt
  rcases List.mem_pair.mp hc with rfl | rfl
  · exact hdigit _ (by omega)
  · exact hdigit _ (by omega)

def listenKeyRun : List Client.Event := [.setCredentials "key" "secret", .call (.query .getListenKey) 1700000000000]

theorem messages_accepted_listenKey :
    (∀ m ∈ (Client.run listenPlatform ⟨"", ""⟩ listenKeyRun).written, ∃ before call ts after,
      listenKeyRun = before ++ .call call ts :: after ∧
      Isolated listenPlatform (inForce ⟨"", ""⟩ before) ts call.request m ∧
      (call.request.isPrivate = true → call.Plain →
        Accepted listenPlatform (inForce ⟨"", ""⟩ before) call.request.path m)) ∧
    ∀ (U : JsonUtils) (call : Call) (ts : Int) (network network' : Network),
      (∀ m, Isolated listenPlatform (inForce ⟨"", ""⟩ listenKeyRun) ts call.request m → network m = network' m) →
      call.send U ((Client.run listenPlatform ⟨"", ""⟩ listenKeyRun).httpSession.perform listenPlatform ts network) =
        call.send U ((Client.run listenPlatform ⟨"", ""⟩ listenKeyRun).httpSession.perform listenPlatform ts network') :=
  messages_accepted listenPlatform_hexDigits ⟨"", ""⟩ listenKeyRun

/-! ## A map that is used again -/

/-- The caller's map after private calls with it: verb, path and time of each. -/
def reused (C : Platform) (p : P) (m : Parameters) (calls : List (Verb × String × Int)) : Parameters :=
  calls.foldl (fun m call => (p.method C call.2.2 call.1 call.2.1 m false).2) m

theorem sign_signature (C : Crypto) (p : P) (ts : Int) (m : Parameters) :
    ∃ e ∈ (p.sign C ts m).entries, e.1 = "signature" := by
  have hone := SortedMap.filter_eq_insertEntry "signature" (C.stringToHex (C.HMAC p.apiSecret (P.parameterString ts m)))
    (m.insertOrAssign "timestamp" (toString ts)).sorted
  have hmem : ("signature", C.stringToHex (C.HMAC p.apiSecret (P.parameterString ts m))) ∈
      (p.sign C ts m).entries.filter (·.1 = "signature") := by
    rw [show (p.sign C ts m).entries.filter (·.1 = "signature") = _ from hone]
    simp
  exact ⟨_, (List.mem_filter.mp hmem).1, rfl⟩

theorem reused_clean {C : Platform} (hC : C.HexDigits) (p : P) {m : Parameters} (hm : Clean m)
    (calls : List (Verb × String × Int)) :
    Clean (reused C p m calls) ∧ (calls ≠ [] → ∃ e ∈ (reused C p m calls).entries, e.1 = "signature") := by
  induction calls using List.reverseRecOn with
  | nil => exact ⟨hm, fun h => absurd rfl h⟩
  | append_singleton calls call ih =>
    have hlast : reused C p m (calls ++ [call]) = p.sign C.toCrypto call.2.2 (reused C p m calls) := by
      simp [reused, P.method, P.createRequest]
    rw [hlast]
    exact ⟨sign_clean hC p _ ih.1, fun _ => sign_signature _ p _ _⟩

/-- What the exchange signs to check a query. -/
def checkedText (query : String) : String := joinQuery ((splitQuery query).filter (·.1 ≠ "signature"))

/-- After the first call with a map, another one signs the old signature too and
does not send it, so that the exchange checks another text. -/
theorem reused_unverified {C : Platform} (hC : C.HexDigits) (p : P) {m : Parameters} (hm : Clean m)
    {calls : List (Verb × String × Int)} (hcalls : calls ≠ []) (verb : Verb) (path : String) (ts : Int) :
    ∃ query, (p.method C ts verb path (reused C p m calls) false).1.target = path ++ "?" ++ query ∧
      P.parameterString ts (reused C p m calls) ≠ checkedText query ∧
      (Verifies C.toCrypto p.apiSecret query ↔
        C.stringToHex (C.HMAC p.apiSecret (P.parameterString ts (reused C p m calls))) =
          C.stringToHex (C.HMAC p.apiSecret (checkedText query))) := by
  obtain ⟨hclean, hsig⟩ := reused_clean hC p hm calls
  have hchecked : checkedText (queryStr (p.sign C.toCrypto ts (reused C p m calls))) =
      sentText ts (reused C p m calls) :=
    congrArg joinQuery (signed_query hC p ts hclean).2
  refine ⟨queryStr (p.sign C.toCrypto ts (reused C p m calls)), ?_, ?_, ?_⟩
  · exact (request_rest C _).2.2.2.1.trans (p.createRequest_target ts _ _ _)
  · rw [hchecked]
    exact (sentText_ne ts hclean (hsig hcalls)).symm
  · rw [hchecked]
    exact verifies_iff hC p ts hclean

theorem reused_unverified_listenKey :
    ∃ query, ((P.mk "key" "secret").method listenPlatform 1700000001000 .get "/api/v3/userDataStream"
        (reused listenPlatform ⟨"key", "secret"⟩ ⟨[], List.Pairwise.nil⟩ [(.post, "/api/v3/userDataStream", 1700000000000)])
        false).1.target = "/api/v3/userDataStream" ++ "?" ++ query ∧
      P.parameterString 1700000001000 (reused listenPlatform ⟨"key", "secret"⟩ ⟨[], List.Pairwise.nil⟩
        [(.post, "/api/v3/userDataStream", 1700000000000)]) ≠ checkedText query ∧
      (Verifies listenPlatform.toCrypto "secret" query ↔
        listenPlatform.stringToHex (listenPlatform.HMAC "secret" (P.parameterString 1700000001000
          (reused listenPlatform ⟨"key", "secret"⟩ ⟨[], List.Pairwise.nil⟩
            [(.post, "/api/v3/userDataStream", 1700000000000)]))) =
          listenPlatform.stringToHex (listenPlatform.HMAC "secret" (checkedText query))) :=
  reused_unverified listenPlatform_hexDigits ⟨"key", "secret"⟩ (by simp [Clean]) (by simp) .get "/api/v3/userDataStream"
    1700000001000

end Spot

end MexcApi
