import MexcApi.Trace
import MexcApi.WsStreamManagerSound

/-!
# When a failed event leaves the caches as they are

A candlestick and the first ticker of a symbol are decoded apart and stored
when that has worked. A later ticker is decoded over the cached one, and what
is read before an exception stays. It is the cached value again only when the
event carries that.
-/

namespace MexcApi

open Nlohmann

namespace Futures

/-! ## Decoding over an object -/

/-- Reading over `self` reads what it has, up to the first exception. -/
def ReadsSame {σ : Type} (U : JsonUtils) (json : Json) (self : σ) : List (Field σ) → Prop
  | [] => True
  | f :: fields =>
    match U.readValue f.get json f.key (f.value self) with
    | .ok value => value = f.value self ∧ ReadsSame U json self fields
    | .error _ => True

/-- The fields are places of the object that do not overlap. -/
structure Separate {σ : Type} (fields : List (Field σ)) : Prop where
  value_assign : ∀ f ∈ fields, ∀ self value, f.value (f.assign self value) = value
  assign_value : ∀ f ∈ fields, ∀ self, f.assign self (f.value self) = self
  pairwise : fields.Pairwise fun f g => ∀ self value, f.value (g.assign self value) = f.value self

theorem Separate.tail {σ : Type} {f : Field σ} {fields : List (Field σ)} (h : Separate (f :: fields)) : Separate fields where
  value_assign g hg := h.value_assign g (List.mem_cons_of_mem _ hg)
  assign_value g hg := h.assign_value g (List.mem_cons_of_mem _ hg)
  pairwise := (List.pairwise_cons.mp h.pairwise).2

section
variable {σ : Type} (U : JsonUtils) (json : Json)

theorem readFields_cons (f : Field σ) (fields : List (Field σ)) (self : σ) :
    readFields U json (f :: fields) self =
      match U.readValue f.get json f.key (f.value self) with
      | .ok value => readFields U json fields (f.assign self value)
      | .error e => (.error e, self) := by
  rw [readFields, Field.read]
  cases U.readValue f.get json f.key (f.value self) <;> rfl

theorem value_readFields {f : Field σ} : ∀ {fields : List (Field σ)} (self : σ),
    (∀ g ∈ fields, ∀ self value, f.value (g.assign self value) = f.value self) →
    f.value (readFields U json fields self).2 = f.value self
  | [], _, _ => rfl
  | g :: fields, self, h => by
    rw [readFields_cons]
    cases U.readValue g.get json g.key (g.value self) with
    | error e => rfl
    | ok value =>
      have ih := value_readFields (g.assign self value) fun g' hg' => h g' (List.mem_cons_of_mem _ hg')
      exact ih.trans (h g List.mem_cons_self self value)

theorem readFields_eq_self_iff : ∀ {fields : List (Field σ)} (self : σ), Separate fields →
    ((readFields U json fields self).2 = self ↔ ReadsSame U json self fields)
  | [], _, _ => iff_of_true rfl trivial
  | f :: fields, self, h => by
    rw [readFields_cons, ReadsSame]
    cases U.readValue f.get json f.key (f.value self) with
    | error e => exact iff_of_true rfl trivial
    | ok value =>
      dsimp only
      have hassign := h.assign_value f List.mem_cons_self self
      have ih := readFields_eq_self_iff self h.tail
      have hkept : f.value (readFields U json fields (f.assign self value)).2 = value :=
        (value_readFields U json _ (List.pairwise_cons.mp h.pairwise).1).trans
          (h.value_assign f List.mem_cons_self self value)
      constructor
      · intro heq
        have hvalue : value = f.value self := by rw [← hkept, heq]
        subst hvalue
        rw [hassign] at heq
        exact ⟨rfl, ih.mp heq⟩
      · rintro ⟨rfl, hrest⟩
        rw [hassign]
        exact ih.mpr hrest

end

theorem EventTicker.fields_separate : Separate EventTicker.fields where
  value_assign := by simp [fields]
  assign_value := by simp [fields]
  pairwise := by simp [fields]

namespace WSStreamManager

/-! ## One event -/

/-- The payload does not decode over what the cache has for the symbol. -/
def Fails (U : EventUtils) (m : Caches) (event : Event) : Prop :=
  isTicker event = true ∧
    (∃ e, (EventTicker.fromJson U.toJsonUtils event.data ((m.tickers event.symbol).getD {})).1 = .error e) ∨
  isKline event = true ∧ ∃ e, EventCandlestick.fromJson U event.data = .error e

def Intact (U : EventUtils) (m : Caches) (event : Event) : Prop := Fails U m event → onDataEvent U m event = m

/-- A ticker that fails over a cached one has brought nothing new before that. -/
def Unmoved (U : EventUtils) (m : Caches) (event : Event) : Prop :=
  ∀ ticker, isTicker event = true → m.tickers event.symbol = some ticker →
    (∃ e, (EventTicker.fromJson U.toJsonUtils event.data ticker).1 = .error e) →
    ReadsSame U.toJsonUtils event.data ticker EventTicker.fields

theorem onTicker_eq_iff {U : JsonUtils} {m : Caches} {event : Event} {ticker : EventTicker}
    (h : m.tickers event.symbol = some ticker) :
    onTicker U m event = m ↔ ReadsSame U event.data ticker EventTicker.fields := by
  rw [← readFields_eq_self_iff U event.data ticker EventTicker.fields_separate]
  have hstored : onTicker U m event = { m with
      tickers := Function.update m.tickers event.symbol (some (EventTicker.fromJson U event.data ticker).2) } := by
    unfold onTicker
    rw [h]
  rw [hstored]
  constructor
  · intro heq
    have hentry := congrFun (congrArg Caches.tickers heq) event.symbol
    simp only [Function.update_self, h, Option.some.injEq] at hentry
    exact hentry
  · intro heq
    have hentry : (EventTicker.fromJson U event.data ticker).2 = ticker := heq
    rw [hentry, ← h, Function.update_eq_self]

theorem intact_iff (U : EventUtils) (m : Caches) (event : Event) : Intact U m event ↔ Unmoved U m event := by
  unfold Intact Unmoved Fails onDataEvent
  cases ht : isTicker event with
  | true =>
    have hk : isKline event = false := by simp [isKline, ht]
    simp only [hk, if_true, true_and, Bool.false_eq_true, false_and, or_false, forall_const]
    cases hm : m.tickers event.symbol with
    | none =>
      refine iff_of_true ?_ fun _ h => by cases h
      rintro ⟨e, he⟩
      unfold onTicker
      rw [hm]
      cases hd : EventTicker.fromJson U.toJsonUtils event.data {} with
      | mk r t =>
        have hr : r = .error e := by
          rw [← he, Option.getD_none, hd]
        rw [hr]
    | some ticker =>
      simp only [Option.getD_some, Option.some.injEq, forall_eq', onTicker_eq_iff hm]
  | false =>
    simp only [Bool.false_eq_true, if_false, false_and, false_or, false_imp_iff, implies_true, iff_true]
    rintro ⟨hk, e, he⟩
    rw [if_pos hk, onCandlestick, he]

/-! ## Runs -/

/-- The caches as they should be: an event is applied as a whole or not at all. -/
noncomputable def transact (U : EventUtils) (m : Caches) (event : Event) : Caches :=
  open Classical in if Fails U m event then m else onDataEvent U m event

def step (U : EventUtils) (m : Caches) (event : Event) : Option Caches := some (onDataEvent U m event)

theorem transact_of_intact {U : EventUtils} {m : Caches} {event : Event} (h : Intact U m event) :
    transact U m event = onDataEvent U m event := by
  unfold transact
  split
  · rename_i hf
    exact (h hf).symm
  · rfl

theorem foldl_transact {U : EventUtils} : ∀ {events seen : List Event} {m : Caches},
    Trace.Guarded (step U) (Intact U) m events → seen <+: events →
    seen.foldl (onDataEvent U) m = seen.foldl (transact U) m
  | _, [], _, _, _ => rfl
  | [], _ :: _, _, _, h => by cases List.prefix_nil.mp h
  | event :: events, e :: seen, m, hg, h => by
    obtain ⟨rfl, hseen⟩ := List.cons_prefix_cons.mp h
    obtain ⟨hintact, hrest⟩ := hg _ rfl
    rw [List.foldl_cons, List.foldl_cons, transact_of_intact hintact]
    exact foldl_transact hrest hseen

theorem failed_intact_iff (U : EventUtils) (events : List Event) :
    (Trace.Guarded (step U) (Intact U) {} events ↔ Trace.Guarded (step U) (Unmoved U) {} events) ∧
    (Trace.Guarded (step U) (Unmoved U) {} events →
      ∀ (seen : Nat → List Event), (∀ n, seen n <+: events) → ∀ timeout pair,
        readEventTicker timeout (fun n => (seen n).foldl (onDataEvent U) {}) pair =
          readEventTicker timeout (fun n => (seen n).foldl (transact U) {}) pair) := by
  have hiff : Trace.Guarded (step U) (Intact U) {} events ↔ Trace.Guarded (step U) (Unmoved U) {} events :=
    Trace.guarded_iff_of_keeps (step U) (fun _ _ _ _ _ _ => trivial) (fun m e _ => intact_iff U m e)
      (show (fun _ => True) ({} : Caches) from trivial)
  refine ⟨hiff, fun hg seen hseen timeout pair => ?_⟩
  have hsame : (fun n => (seen n).foldl (onDataEvent U) {}) = fun n => (seen n).foldl (transact U) {} :=
    funext fun n => foldl_transact (hiff.mpr hg) (hseen n)
  rw [hsame]

/-- Two quotes, of which the second one has a text where the ask price should be. -/
def twoQuotes : List Event :=
  [tickerEvent "BTC_USDT" [("bid1", .num (.int 1)), ("ask1", .num (.int 2))],
    tickerEvent "BTC_USDT" [("bid1", .num (.int 5)), ("ask1", .str "6")]]

theorem quotes_mixed : ¬ Trace.Guarded (step .plain) (Intact .plain) {} twoQuotes ∧
    readEventTicker (fun _ => 5) (fun _ => twoQuotes.foldl (onDataEvent .plain) {}) "BTC_USDT" =
      (some { symbol := "BTC_USDT", bid1 := 5, ask1 := 2 }, 0) := by
  constructor
  · intro hg
    obtain ⟨-, hrest⟩ := hg _ rfl
    have hintact := (hrest _ rfl).1 (Or.inl ⟨rfl, _, rfl⟩)
    have hbid := congrArg (fun m : Caches => (m.tickers "BTC_USDT").map EventTicker.bid1) hintact
    exact absurd hbid (by decide)
  · rfl

end WSStreamManager

end Futures

end MexcApi
