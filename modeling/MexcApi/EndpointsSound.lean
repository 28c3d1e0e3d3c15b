import MexcApi.FuturesEndpointsSound
import MexcApi.SpotEndpointsSound

/-!
# Whether a failure of the API is thrown

A failure is a reply with a bad status or a body that reports one. For each
endpoint method it is said when such a reply is overlooked.
-/

namespace MexcApi

open Nlohmann

namespace Endpoint

def ReportsFailure : Endpoint → Json → Prop
  | .spot _, json | .spotHistoricalPrices .., json => Spot.ReportsFailure json
  | .futures _, json | .futuresHistoricalPrices .., json => Futures.ReportsFailure json

/-- A reply with an object that has a bad status or reports a failure. -/
def Failure (endpoint : Endpoint) (response : HttpResponse) : Prop :=
  ∃ json, response.json = some json ∧ json.isObject = true ∧
    (response.result ≠ 200 ∨ endpoint.ReportsFailure json)

/-- When a method overlooks the failure of an object that came with status 200. -/
def OverlooksBody (U : JsonUtils) (json : Json) : Endpoint → Prop
  | .spot query => query.Overlooks U json
  | .spotHistoricalPrices .. => Spot.OverlooksKlines U json
  | .futures _ => False
  | .futuresHistoricalPrices .. => Futures.RaggedReply U json

def Overlooks (U : JsonUtils) (response : HttpResponse) (endpoint : Endpoint) : Prop :=
  response.result = 200 ∧ ∃ json, response.json = some json ∧ endpoint.OverlooksBody U json

section
variable {U : JsonUtils} {replies : Nat → Except Fault HttpResponse} {n : Nat}

theorem first_request (send : HTTPSession → Except Fault Unit)
    (h : ∀ e, send (fun _ => Function.update replies n (.error e) 0) = .error e) : n = 0 := by
  by_contra hn
  have hsame : ∀ e, Function.update replies n (.error e) 0 = replies 0 := fun e => Function.update_of_ne (Ne.symm hn) ..
  simp only [hsame] at h
  cases (h .undefined).symm.trans (h (.jsonException 0))

theorem spot_ends_iff {query : Spot.Query} {result : Except Fault Unit} :
    (Endpoint.spot query).Ends U replies result ↔ (query.send U fun _ => replies 0) = result := by
  simp [Ends, call]

theorem futures_ends_iff {query : Futures.Query} {result : Except Fault Unit} :
    (Endpoint.futures query).Ends U replies result ↔ (query.send U fun _ => replies 0) = result := by
  simp [Ends, call]

/-- The range of a download is not empty. -/
def Requests : Endpoint → Prop
  | .spot _ | .futures _ => True
  | .spotHistoricalPrices _ _ startTime endTime => startTime ≤ endTime
  | .futuresHistoricalPrices _ _ startTime endTime => startTime < endTime

theorem asks_first {endpoint : Endpoint} (h : endpoint.Requests) : endpoint.Asks U replies 0 := by
  intro e
  cases endpoint with
  | spot query => exact spot_ends_iff.mpr (by cases query <;> rfl)
  | futures query => exact futures_ends_iff.mpr (by cases query <;> rfl)
  | spotHistoricalPrices symbol interval startTime endTime =>
    refine (Spot.ends_iff ..).mpr ⟨0, ?_⟩
    have hrange : startTime ≤ endTime := h
    unfold Spot.RESTClient.start
    rw [if_pos hrange]
    simp only [Spot.fetch_reply, Function.update_self]
    exact congrArg _ (ite_self _)
  | futuresHistoricalPrices symbol interval startTime endTime =>
    refine (Futures.ends_iff ..).mpr ⟨0, ?_⟩
    have hrange : startTime < endTime := h
    unfold Futures.RESTClient.start
    rw [if_pos hrange]
    simp only [Futures.fetch_reply, Function.update_self]
    rfl

theorem failure_thrown_iff (hU : U.Exact) {response : HttpResponse} {endpoint : Endpoint} (hasks : endpoint.Asks U replies n)
    (hreply : replies n = .ok response) (hfailure : endpoint.Failure response) :
    endpoint.Throws U replies ↔ ¬ endpoint.Overlooks U response := by
  obtain ⟨json, hjson, hobject, h⟩ := hfailure
  have hbody : endpoint.Overlooks U response ↔ response.result = 200 ∧ endpoint.OverlooksBody U json := by
    simp [Overlooks, hjson]
  rw [hbody]
  cases endpoint with
  | spot query =>
    have hn : n = 0 := first_request (query.send U ·) fun e => spot_ends_iff.mp (hasks e)
    subst hn
    simp only [Throws, spot_ends_iff, hreply]
    exact Spot.Query.send_throws_iff hU hjson hobject h query
  | futures query =>
    have hn : n = 0 := first_request (query.send U ·) fun e => futures_ends_iff.mp (hasks e)
    subst hn
    simp only [Throws, futures_ends_iff, hreply]
    exact iff_of_true (Futures.Query.send_throws hU hjson h query) And.right
  | spotHistoricalPrices symbol interval startTime endTime =>
    refine (download_throws_iff (fun replies e => Spot.ends_iff U replies symbol interval startTime endTime e)
      (Spot.start_oneRequest U symbol interval startTime _ endTime)
      (Spot.batch_oneRequest U symbol interval startTime _) hasks hreply ?_).trans ?_
    · exact Spot.klinesOf_fails hU hjson hobject h
    · exact Spot.klinesOf_throws_iff hU hjson hobject h
  | futuresHistoricalPrices symbol interval startTime endTime =>
    refine (download_throws_iff (fun replies e => Futures.ends_iff U replies symbol interval startTime endTime e)
      (Futures.start_oneRequest U symbol interval startTime endTime)
      (Futures.batch_oneRequest U symbol interval startTime) hasks hreply ?_).trans ?_
    · exact Futures.klinesOf_fails hU hjson h
    · exact Futures.klinesOf_throws_iff hU hjson h

end

def errorReply : HttpResponse where
  result := 200
  body := "\x7b\"code\":\"700003\",\"msg\":\"Timestamp outside of the recvWindow\"\x7d"
  json := some errorObject

theorem errorReply_failure (query : Spot.Query) : (Endpoint.spot query).Failure errorReply := by
  refine ⟨errorObject, rfl, rfl, Or.inr ⟨.str "700003", 700003, rfl, ?_, ?_⟩⟩
  · decide +kernel
  · decide +kernel

theorem failure_thrown_serverTime : (Endpoint.spot .getServerTime).Throws .plain (fun _ => .ok errorReply) ↔
    ¬ (Endpoint.spot .getServerTime).Overlooks .plain errorReply :=
  failure_thrown_iff (n := 0) JsonUtils.plain_exact (asks_first trivial) rfl (errorReply_failure .getServerTime)

theorem failure_returned :
    Spot.RESTClient.getServerTime .plain (fun _ => .ok errorReply) = .ok 0 ∧
    Spot.RESTClient.getTickerPrice .plain (fun _ => .ok errorReply) "BTCUSDT" = .error .undefined ∧
    Spot.RESTClient.getListenKeys (m := Except Fault) .plain (fun _ => .ok errorReply) = .error .undefined ∧
    ¬ ∀ (endpoint : Endpoint) (replies : Nat → Except Fault HttpResponse) (n : Nat) (response : HttpResponse),
      endpoint.Asks .plain replies n → replies n = .ok response → endpoint.Failure response →
        endpoint.Throws .plain replies := by
  refine ⟨rfl, rfl, rfl, fun h => ?_⟩
  obtain ⟨e, he, -⟩ := h (.spot .getServerTime) (fun _ => .ok errorReply) 0 errorReply (asks_first trivial) rfl
    (errorReply_failure .getServerTime)
  cases spot_ends_iff.mp he

end Endpoint

end MexcApi
