import MexcApi.EventModels

/-!
# When a decoder reads what is not there

The const `operator[]` is applied without asking whether the key or the index
is there. Each condition below says when everything read before it can be
read, so that the missing one is reached.
-/

namespace MexcApi

open Nlohmann

def Reads {α : Type} (U : JsonUtils) (get : Json → Except Fault α) (key : String) (default : α) (json : Json) : Prop :=
  ∃ value, U.readValue get json key default = .ok value

theorem access_defined_iff (json : Json) (key : String) :
    Defined (json.access key).get ↔ ¬ (json.isObject = true ∧ json.find? key = none) := by
  cases json with
  | obj kvs =>
    cases h : kvs.lookup key with
    | none => simp [Json.access, h, Json.Access.get, Json.isObject, Json.find?]
    | some v => simp [Json.access, h, Json.Access.get, Json.isObject, Json.find?]
  | _ => simp [Json.access, Json.Access.get, Json.isObject]

/-! ## The spot decoders -/

namespace Spot

theorem defined_response {U : JsonUtils} (hU : U.Exact) (self : Response) (json : Json) :
    Defined (Response.fromJson U self json) := by
  have hcode := hU.defined_readValue Json.defined_getString json "code" ""
  have hmsg := hU.defined_readValue Json.defined_getString json "msg" self.msg
  unfold Response.fromJson
  refine (defined_bind _ _).mpr ⟨hcode, fun codeStr _ => (defined_bind _ _).mpr ⟨hmsg, fun msg _ => ?_⟩⟩
  refine .ite ?_ (by simp)
  simp [defined_stoi]

/-- The code is absent, empty or starts with a number, and the message can be read. -/
def ReadsResponse (U : JsonUtils) (json : Json) : Prop :=
  (∃ codeStr, U.readValue Json.getString json "code" "" = .ok codeStr ∧
    (codeStr = "" ∨ ∃ code, stoi codeStr = .ok code)) ∧ Reads U Json.getString "msg" "" json

theorem response_ok_iff (U : JsonUtils) (json : Json) :
    (∃ response, Response.fromJson U {} json = .ok response) ↔ ReadsResponse U json := by
  unfold Response.fromJson ReadsResponse Reads
  simp only [returns_bind_iff]
  constructor
  · rintro ⟨codeStr, hcode, msg, hmsg, response, hresponse⟩
    refine ⟨⟨codeStr, hcode, ?_⟩, msg, hmsg⟩
    by_cases hempty : codeStr = ""
    · exact Or.inl hempty
    · rw [if_pos hempty] at hresponse
      obtain ⟨code, hstoi, -⟩ := bind_ok hresponse
      exact Or.inr ⟨code, hstoi⟩
  · rintro ⟨⟨codeStr, hcode, hstoi⟩, msg, hmsg⟩
    refine ⟨codeStr, hcode, msg, hmsg, ?_⟩
    by_cases hempty : codeStr = ""
    · exact ⟨_, if_neg (not_not.mpr hempty)⟩
    · obtain ⟨code, hstoi⟩ := hstoi.resolve_left hempty
      refine ⟨{ code, msg }, ?_⟩
      rw [if_pos hempty, hstoi]
      rfl

def NoPrice (U : JsonUtils) (json : Json) : Prop :=
  (json.isObject = true ∧ json.find? "price" = none) ∧ ReadsResponse U json ∧ Reads U Json.getString "symbol" "" json

theorem tickerPrice_defined_iff {U : JsonUtils} (hU : U.Exact) (json : Json) :
    Defined (TickerPrice.fromJson U json) ↔ ¬ NoPrice U json := by
  have hresponse := defined_response hU {} json
  have hsymbol := hU.defined_readValue Json.defined_getString json "symbol" ""
  rw [NoPrice, ← response_ok_iff]
  unfold TickerPrice.fromJson Reads
  simp only [defined_bind, hresponse, hsymbol, true_and, access_defined_iff, hU.assign, Json.defined_getString,
    defined_pure, implies_true, and_true]
  constructor
  · rintro h ⟨hmissing, ⟨response, hr⟩, symbol, hs⟩
    exact h response hr symbol hs hmissing
  · intro h response hr symbol hs hmissing
    exact h ⟨hmissing, ⟨response, hr⟩, symbol, hs⟩

def NoListenKeys (U : JsonUtils) (json : Json) : Prop :=
  (json.isObject = true ∧ json.find? "listenKey" = none) ∧ ReadsResponse U json ∧
    Reads U Json.getInt32 "available" 0 json ∧ Reads U Json.getInt32 "total" 0 json

theorem listenKeys_defined_iff {U : JsonUtils} (hU : U.Exact) (json : Json) :
    Defined (ListenKeys.fromJson U json) ↔ ¬ NoListenKeys U json := by
  have hresponse := defined_response hU {} json
  have havailable := hU.defined_readValue Json.defined_getInt32 json "available" 0
  have htotal := hU.defined_readValue Json.defined_getInt32 json "total" 0
  rw [NoListenKeys, ← response_ok_iff]
  unfold ListenKeys.fromJson Reads
  simp only [defined_bind, hresponse, havailable, htotal, true_and, access_defined_iff, Json.defined_getStrings,
    defined_pure, implies_true, and_true]
  constructor
  · rintro h ⟨hmissing, ⟨response, hr⟩, ⟨available, ha⟩, total, ht⟩
    exact h response hr available ha total ht hmissing
  · intro h response hr available ha total ht hmissing
    exact h ⟨hmissing, ⟨response, hr⟩, ⟨available, ha⟩, total, ht⟩

/-! ## A candle -/

def Candle.entry (U : JsonUtils) : Nat → Json → Except Fault Unit
  | 0, json | 6, json => do
    let _ ← json.getInt64
    return ()
  | _, json => do
    let _ ← U.assign (← json.getString)
    return ()

/-- An array of fewer than eight entries, each of which can be read. -/
def ShortCandle (U : JsonUtils) (json : Json) : Prop :=
  ∃ xs, json = .arr xs ∧ xs.length < 8 ∧ ∀ i x, xs[i]? = some x → Candle.entry U i x = .ok ()

theorem defined_entry {U : JsonUtils} (hU : U.Exact) (i : Nat) (json : Json) : Defined (Candle.entry U i json) := by
  unfold Candle.entry
  split
  · simp
  · simp
  · simp [hU.assign]

theorem response_array {U : JsonUtils} (hU : U.Exact) (xs : List Json) :
    Response.fromJson U {} (.arr xs) = .ok {} := by
  have hcode : U.readValue Json.getString (.arr xs) "code" "" = .ok "" := hU.absent _ _ rfl
  have hmsg : U.readValue Json.getString (.arr xs) "msg" "" = .ok "" := hU.absent _ _ rfl
  simp only [Response.fromJson, hcode, hmsg]
  rfl

theorem candle_entries {U : JsonUtils} (hU : U.Exact) (xs : List Json) :
    Defined (Candle.fromJson U (.arr xs)) ↔
      Defined ((List.range 8).mapM fun i => do Candle.entry U i (← ((Json.arr xs).accessIndex i).get)) := by
  unfold Candle.fromJson
  rw [response_array hU, show List.range 8 = [0, 1, 2, 3, 4, 5, 6, 7] from rfl]
  simp only [List.mapM_cons, List.mapM_nil, Candle.entry, bind_assoc, pure_bind, defined_bind, defined_pure, implies_true,
    and_true, defined_ok, true_and, Json.defined_getInt64, Json.defined_getString, hU.assign, Except.ok.injEq,
    forall_eq']

theorem entry_ok_iff (U : JsonUtils) (xs : List Json) (i : Nat) :
    (∃ b, (do Candle.entry U i (← ((Json.arr xs).accessIndex i).get)) = .ok b) ↔
      ∃ x, xs[i]? = some x ∧ Candle.entry U i x = .ok () := by
  cases h : xs[i]? with
  | none => simp [Json.accessIndex, h, Json.Access.get, bind, Except.bind]
  | some x =>
    have hunit : (∃ b, Candle.entry U i x = .ok b) ↔ Candle.entry U i x = .ok () :=
      ⟨fun ⟨_, hb⟩ => hb, fun hb => ⟨(), hb⟩⟩
    simpa [Json.accessIndex, h, Json.Access.get, bind, Except.bind] using hunit

theorem candle_notArray (U : JsonUtils) {json : Json} (h : ∀ xs, json ≠ .arr xs) :
    Candle.fromJson U json = Response.fromJson U {} json >>= fun _ => .error (.jsonException 305) := by
  have hfirst : (json.accessIndex 0).get = .error (.jsonException 305) := by
    cases json with
    | arr xs => exact absurd rfl (h xs)
    | _ => rfl
  unfold Candle.fromJson
  rw [hfirst]
  rfl

theorem candle_defined_iff {U : JsonUtils} (hU : U.Exact) (json : Json) :
    Defined (Candle.fromJson U json) ↔ ¬ ShortCandle U json := by
  cases json with
  | arr xs =>
    rw [candle_entries hU, Defined, ne_eq, mapM_range_undefined, not_iff_not]
    have hundefined : ∀ i, (do Candle.entry U i (← ((Json.arr xs).accessIndex i).get)) = .error .undefined ↔
        xs.length ≤ i := by
      intro i
      rw [← List.getElem?_eq_none_iff]
      cases h : xs[i]? with
      | none => simp [Json.accessIndex, h, Json.Access.get, bind, Except.bind]
      | some x =>
        have hentry : Candle.entry U i x ≠ .error .undefined := defined_entry hU i x
        simpa [Json.accessIndex, h, Json.Access.get, bind, Except.bind] using hentry
    simp only [hundefined, entry_ok_iff, ShortCandle, Json.arr.injEq, exists_eq_left']
    constructor
    · rintro ⟨i, hi, hbefore, hlen⟩
      refine ⟨by omega, fun j x hx => ?_⟩
      have hj := (List.getElem?_eq_some_iff.mp hx).1
      obtain ⟨y, hy, hentry⟩ := hbefore j (by omega)
      rw [hx] at hy
      cases hy
      exact hentry
    · rintro ⟨hlen, hall⟩
      refine ⟨xs.length, hlen, fun j hj => ?_, le_refl _⟩
      exact ⟨xs[j], List.getElem?_eq_getElem hj, hall j xs[j] (List.getElem?_eq_getElem hj)⟩
  | _ =>
    refine iff_of_true ?_ (by simp [ShortCandle])
    rw [candle_notArray U (by simp)]
    simp [defined_response hU]

/-- An array whose first eight entries can be read. -/
def CompleteCandle (U : JsonUtils) (json : Json) : Prop :=
  ∃ xs, json = .arr xs ∧ ∀ i < 8, ∃ x, xs[i]? = some x ∧ Candle.entry U i x = .ok ()

theorem candle_ok_iff {U : JsonUtils} (hU : U.Exact) (json : Json) :
    (∃ candle, Candle.fromJson U json = .ok candle) ↔ CompleteCandle U json := by
  cases json with
  | arr xs =>
    have hentries : (∃ candle, Candle.fromJson U (.arr xs) = .ok candle) ↔
        ∃ us, (List.range 8).mapM (fun i => do Candle.entry U i (← ((Json.arr xs).accessIndex i).get)) = .ok us := by
      have hpure : ∀ {α : Type} (a : α), ∃ b, (pure a : Except Fault α) = .ok b := fun a => ⟨a, rfl⟩
      unfold Candle.fromJson
      rw [response_array hU, show List.range 8 = [0, 1, 2, 3, 4, 5, 6, 7] from rfl]
      simp only [List.mapM_cons, List.mapM_nil, Candle.entry, bind_assoc, pure_bind, returns_bind_iff, hpure, and_true,
        Except.ok.injEq, exists_eq_left']
    rw [hentries, returns_mapM_iff]
    simp only [List.mem_range, entry_ok_iff, CompleteCandle, Json.arr.injEq, exists_eq_left']
  | _ =>
    rw [candle_notArray U (by simp), returns_bind_iff]
    simp [CompleteCandle]

end Spot

/-! ## The futures decoders -/

namespace Futures

def NoData (U : JsonUtils) (json : Json) : Prop :=
  (json.isObject = true ∧ json.find? "data" = none) ∧ Reads U Json.getString "channel" "" json ∧
    Reads U Json.getString "symbol" "" json ∧ Reads U Json.getInt64 "ts" 0 json

theorem event_defined_iff {U : JsonUtils} (hU : U.Exact) (json : Json) :
    Defined (Event.fromJson U json) ↔ ¬ NoData U json := by
  have hchannel := hU.defined_readValue Json.defined_getString json "channel" ""
  have hsymbol := hU.defined_readValue Json.defined_getString json "symbol" ""
  have hts := hU.defined_readValue Json.defined_getInt64 json "ts" 0
  unfold Event.fromJson NoData Reads
  simp only [defined_bind, hchannel, hsymbol, hts, true_and, access_defined_iff, defined_pure, implies_true, and_true]
  constructor
  · rintro h ⟨hmissing, ⟨channel, hc⟩, ⟨symbol, hs⟩, ts, ht⟩
    exact h channel hc symbol hs ts ht hmissing
  · intro h channel hc symbol hs ts ht hmissing
    exact h ⟨hmissing, ⟨channel, hc⟩, ⟨symbol, hs⟩, ts, ht⟩

theorem defined_response {U : JsonUtils} (hU : U.Exact) (self : Response) (json : Json) :
    Defined (Response.fromJson U self json) := by
  have hcode := hU.defined_readValue Json.defined_getInt32 json "code" self.code
  have hsuccess := hU.defined_readValue Json.defined_getBool json "success" self.success
  simp [Response.fromJson, hcode, hsuccess]

/-! ## The columns of the candles -/

def NumberAt (column : Json) (i : Nat) : Prop := ∃ n, column.accessIndex i = .value (.num n)

/-- The column is an array that ends before the index. -/
def Ends (column : Json) (i : Nat) : Prop := ∃ xs, column = .arr xs ∧ xs.length ≤ i

/-- All columns but the time. -/
def columns (data : Json) : List Json :=
  ["open", "high", "low", "close", "vol", "amount"].map fun key => (data.find? key).getD .null

/-- Read row by row, a column ends before a time does. -/
def Ragged (times : Json) (columns : List Json) : Prop :=
  ∃ i < times.size, (∀ j < i, NumberAt times j ∧ ∀ column ∈ columns, NumberAt column j) ∧ NumberAt times i ∧
    ∃ before column after, columns = before ++ column :: after ∧ (∀ c ∈ before, NumberAt c i) ∧ Ends column i

/-- A reply with such columns whose other fields can be read. -/
def RaggedReply (U : JsonUtils) (json : Json) : Prop :=
  (Reads U Json.getInt32 "code" 0 json ∧ Reads U Json.getBool "success" false json) ∧
    ∃ times, ((json.find? "data").getD .null).find? "time" = some times ∧
      Ragged times (columns ((json.find? "data").getD .null))

theorem response_ok {U : JsonUtils} {json : Json} {response : Response} (h : Response.fromJson U {} json = .ok response) :
    (U.readValue Json.getInt32 json "code" 0 = .ok response.code ∧
      U.readValue Json.getBool json "success" false = .ok response.success) ∧
    response.data = (json.find? "data").getD .null := by
  obtain ⟨code, hcode, h⟩ := bind_ok h
  obtain ⟨success, hsuccess, h⟩ := bind_ok h
  cases h
  exact ⟨⟨hcode, hsuccess⟩, rfl⟩

theorem response_error {U : JsonUtils} {json : Json} {e : Fault} (h : Response.fromJson U {} json = .error e) :
    ¬ (Reads U Json.getInt32 "code" 0 json ∧ Reads U Json.getBool "success" false json) := by
  rintro ⟨⟨code, hcode⟩, success, hsuccess⟩
  simp only [Response.fromJson, hcode, hsuccess] at h
  cases h

theorem decimalAt_ok_iff (column : Json) (i : Nat) : (∃ q, decimalAt column i = .ok q) ↔ NumberAt column i := by
  unfold decimalAt NumberAt
  cases column.accessIndex i with
  | value v => cases v <;> simp [Json.Access.get, Json.getDouble, bind, Except.bind, pure, Except.pure]
  | _ => simp [Json.Access.get, bind, Except.bind]

theorem accessIndex_missing_iff (column : Json) (i : Nat) :
    (column.accessIndex i).get = .error .undefined ↔ Ends column i := by
  cases column with
  | arr xs =>
    unfold Ends
    simp only [Json.accessIndex, Json.arr.injEq, exists_eq_left']
    rw [← List.getElem?_eq_none_iff]
    cases xs[i]? <;> simp [Json.Access.get]
  | _ => simp [Json.accessIndex, Json.Access.get, Ends]

theorem decimalAt_undefined_iff (column : Json) (i : Nat) :
    decimalAt column i = .error .undefined ↔ Ends column i := by
  rw [← accessIndex_missing_iff]
  unfold decimalAt
  cases column.accessIndex i with
  | value v => cases v <;> simp [Json.Access.get, Json.getDouble, bind, Except.bind, pure, Except.pure]
  | _ => simp [Json.Access.get, bind, Except.bind]

theorem candleAt_columns (times opens highs lows closes vols amounts : Json) (i : Nat) :
    Candles.candleAt times opens highs lows closes vols amounts i = do
      let time ← (← (times.accessIndex i).get).getInt64
      let qs ← [opens, highs, lows, closes, vols, amounts].mapM (decimalAt · i)
      return { openTime := time * 1000, «open» := qs.getD 0 0, high := qs.getD 1 0, low := qs.getD 2 0
               close := qs.getD 3 0, volume := qs.getD 4 0, amount := qs.getD 5 0 } := by
  simp [Candles.candleAt, List.mapM_cons]

theorem time_ok_iff (times : Json) (i : Nat) :
    (∃ v, (times.accessIndex i).get = .ok v ∧ ∃ time, v.getInt64 = .ok time) ↔ NumberAt times i := by
  unfold NumberAt
  cases times.accessIndex i with
  | value v => cases v <;> simp [Json.Access.get, Json.getInt64]
  | _ => simp [Json.Access.get]

theorem candleAt_ok_iff (times opens highs lows closes vols amounts : Json) (i : Nat) :
    (∃ candle, Candles.candleAt times opens highs lows closes vols amounts i = .ok candle) ↔
      NumberAt times i ∧ ∀ column ∈ [opens, highs, lows, closes, vols, amounts], NumberAt column i := by
  have hcolumns : (∃ qs, [opens, highs, lows, closes, vols, amounts].mapM (decimalAt · i) = .ok qs) ↔
      ∀ column ∈ [opens, highs, lows, closes, vols, amounts], NumberAt column i := by
    rw [returns_mapM_iff]
    simp only [decimalAt_ok_iff]
  rw [candleAt_columns, returns_bind_iff, ← time_ok_iff, ← hcolumns]
  simp only [returns_bind_iff]
  constructor
  · rintro ⟨v, hv, time, htime, qs, hqs, -⟩
    exact ⟨⟨v, hv, time, htime⟩, qs, hqs⟩
  · rintro ⟨⟨v, hv, time, htime⟩, qs, hqs⟩
    exact ⟨v, hv, time, htime, qs, hqs, _, rfl⟩

theorem candleAt_undefined_iff {times opens highs lows closes vols amounts : Json} {i : Nat} (hi : i < times.size) :
    Candles.candleAt times opens highs lows closes vols amounts i = .error .undefined ↔ NumberAt times i ∧
      ∃ before column after, [opens, highs, lows, closes, vols, amounts] = before ++ column :: after ∧
        (∀ c ∈ before, NumberAt c i) ∧ Ends column i := by
  have htimes : ¬ Ends times i := by
    rintro ⟨xs, rfl, hlen⟩
    simp only [Json.size, Json.elements] at hi
    omega
  have hint : ∀ v : Json, v.getInt64 ≠ .error .undefined := Json.defined_getInt64
  have hcolumns : [opens, highs, lows, closes, vols, amounts].mapM (decimalAt · i) = .error .undefined ↔
      ∃ before column after, [opens, highs, lows, closes, vols, amounts] = before ++ column :: after ∧
        (∀ c ∈ before, NumberAt c i) ∧ Ends column i := by
    rw [mapM_undefined]
    simp only [decimalAt_ok_iff, decimalAt_undefined_iff]
  rw [candleAt_columns, undefined_bind_iff, accessIndex_missing_iff, ← time_ok_iff, ← hcolumns]
  simp only [htimes, undefined_bind_iff, hint, false_or]
  constructor
  · rintro ⟨v, hv, time, htime, hqs | ⟨qs, -, hpure⟩⟩
    · exact ⟨⟨v, hv, time, htime⟩, hqs⟩
    · cases hpure
  · rintro ⟨⟨v, hv, time, htime⟩, hqs⟩
    exact ⟨v, hv, time, htime, Or.inl hqs⟩

/-- Once the time column is there, the non-const access adds the columns that are missing. -/
theorem atOrInsert_of_find {data times : Json} (h : data.find? "time" = some times) (key : String) :
    data.atOrInsert key = .ok ((data.find? key).getD .null) := by
  cases data with
  | obj kvs => rfl
  | _ => cases h

theorem ragged_iff (times data : Json) :
    (List.range times.size).mapM (Candles.candleAt times ((data.find? "open").getD .null)
      ((data.find? "high").getD .null) ((data.find? "low").getD .null) ((data.find? "close").getD .null)
      ((data.find? "vol").getD .null) ((data.find? "amount").getD .null)) = .error .undefined ↔
      Ragged times (columns data) := by
  rw [mapM_range_undefined]
  refine exists_congr fun i => and_congr_right fun hi => ?_
  rw [candleAt_undefined_iff hi]
  simp only [candleAt_ok_iff]
  exact Iff.rfl

theorem candles_defined_iff {U : JsonUtils} (hU : U.Exact) (json : Json) :
    Defined (Candles.fromJson U json) ↔ ¬ RaggedReply U json := by
  have hresponse := defined_response hU {} json
  unfold Candles.fromJson RaggedReply
  cases hr : Response.fromJson U {} json with
  | error e =>
    rw [hr] at hresponse
    have hnone := response_error hr
    simpa [bind, Except.bind, hnone] using hresponse
  | ok response =>
    obtain ⟨⟨hcode, hsuccess⟩, hdata⟩ := response_ok hr
    have hreads : Reads U Json.getInt32 "code" 0 json ∧ Reads U Json.getBool "success" false json :=
      ⟨⟨_, hcode⟩, _, hsuccess⟩
    simp only [hreads, true_and, ← hdata]
    cases ht : response.data.find? "time" with
    | none => simp [bind, Except.bind, ht]
    | some times =>
      simp only [bind, Except.bind, ht, atOrInsert_of_find ht, Option.some.injEq, exists_eq_left']
      by_cases hempty : times.empty = true
      · have hnone : ¬ Ragged times (columns response.data) := by
          rintro ⟨i, hi, -⟩
          simp only [Json.empty, List.isEmpty_iff] at hempty
          simp only [Json.size, hempty, List.length_nil] at hi
          omega
        simp [hempty, hnone, pure, Except.pure]
      · rw [if_neg hempty, ← ragged_iff]
        unfold Defined
        cases h : (List.range times.size).mapM (Candles.candleAt times ((response.data.find? "open").getD .null)
          ((response.data.find? "high").getD .null) ((response.data.find? "low").getD .null)
          ((response.data.find? "close").getD .null) ((response.data.find? "vol").getD .null)
          ((response.data.find? "amount").getD .null)) with
        | error e => simp
        | ok candles => simp [pure, Except.pure]

end Futures

/-! ## All decoders -/

theorem decoders_defined_iff {U : JsonUtils} (hU : U.Exact) (json : Json) :
    (Defined (Spot.Candle.fromJson U json) ↔ ¬ Spot.ShortCandle U json) ∧
    (Defined (Spot.TickerPrice.fromJson U json) ↔ ¬ Spot.NoPrice U json) ∧
    (Defined (Spot.ListenKeys.fromJson U json) ↔ ¬ Spot.NoListenKeys U json) ∧
    (Defined (Futures.Candles.fromJson U json) ↔ ¬ Futures.RaggedReply U json) ∧
    (Defined (Futures.Event.fromJson U json) ↔ ¬ Futures.NoData U json) :=
  ⟨Spot.candle_defined_iff hU json, Spot.tickerPrice_defined_iff hU json, Spot.listenKeys_defined_iff hU json,
    Futures.candles_defined_iff hU json, Futures.event_defined_iff hU json⟩

def errorObject : Json := .obj [("code", .str "700003"), ("msg", .str "Timestamp outside of the recvWindow")]

theorem decoders_errorObject :
    (Defined (Spot.Candle.fromJson .plain errorObject) ↔ ¬ Spot.ShortCandle .plain errorObject) ∧
    (Defined (Spot.TickerPrice.fromJson .plain errorObject) ↔ ¬ Spot.NoPrice .plain errorObject) ∧
    (Defined (Spot.ListenKeys.fromJson .plain errorObject) ↔ ¬ Spot.NoListenKeys .plain errorObject) ∧
    (Defined (Futures.Candles.fromJson .plain errorObject) ↔ ¬ Futures.RaggedReply .plain errorObject) ∧
    (Defined (Futures.Event.fromJson .plain errorObject) ↔ ¬ Futures.NoData .plain errorObject) :=
  decoders_defined_iff JsonUtils.plain_exact errorObject

/-- Two times, and one value in each of the other columns. -/
def raggedObject : Json :=
  let one := Json.arr [.num (.int 1)]
  .obj [("code", .num (.int 0)), ("data", .obj [("amount", one), ("close", one), ("high", one), ("low", one), ("open", one),
    ("time", .arr [.num (.int 60), .num (.int 120)]), ("vol", one)]), ("success", .bool true)]

theorem decoders_undefined :
    Spot.Candle.fromJson .plain (.arr []) = .error .undefined ∧
    Spot.TickerPrice.fromJson .plain errorObject = .error .undefined ∧
    Spot.ListenKeys.fromJson .plain errorObject = .error .undefined ∧
    Futures.Candles.fromJson .plain raggedObject = .error .undefined ∧
    Futures.Event.fromJson .plain (.obj [("channel", .str "pong")]) = .error .undefined := by
  exact ⟨rfl, rfl, rfl, rfl, rfl⟩

end MexcApi
