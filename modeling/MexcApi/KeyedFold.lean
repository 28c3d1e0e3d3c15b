import Mathlib.Data.List.Basic

/-!
# Stores as folds over their events

An event touches at most one key of the store. What the store holds under a
key is then the fold over the events of that key, whatever comes in between.
-/

namespace KeyedFold

variable {σ κ ν ε : Type} [DecidableEq κ]

def events (key : ε → Option κ) (k : κ) (es : List ε) : List ε := es.filter fun e => key e = some k

theorem foldl_get (step : σ → ε → σ) (read : σ → κ → ν) (key : ε → Option κ) (update : ν → ε → ν) {k : κ} :
    ∀ {es : List ε} (s : σ),
    (∀ s, ∀ e ∈ es, read (step s e) k = if key e = some k then update (read s k) e else read s k) →
    read (es.foldl step s) k = (events key k es).foldl update (read s k)
  | [], _, _ => rfl
  | e :: es, s, h => by
    have ih := foldl_get step read key update (step s e) fun s' e' he' =>
      h s' e' (List.mem_cons_of_mem _ he')
    have he := h s e List.mem_cons_self
    rw [List.foldl_cons, ih, he, events]
    by_cases hk : key e = some k
    · rw [if_pos hk, events, List.filter_cons_of_pos (by simpa using hk), List.foldl_cons]
    · rw [if_neg hk, events, List.filter_cons_of_neg (by simpa using hk)]

/-! ## The last value carried -/

variable {α : Type}

/-- The value of the last event that carries one. -/
def lastCarried (carried : ε → Option α) (default : α) (es : List ε) : α :=
  (es.filterMap carried).getLast?.getD default

theorem foldl_lastCarried (carried : ε → Option α) (es : List ε) (default : α) :
    es.foldl (fun old e => (carried e).getD old) default = lastCarried carried default es := by
  induction es generalizing default with
  | nil => rfl
  | cons e es ih =>
    rw [List.foldl_cons, ih]
    unfold lastCarried
    rw [List.filterMap_cons]
    cases carried e with
    | none => rfl
    | some a =>
      rw [List.getLast?_cons]
      rfl

theorem foldl_replace (value : ε → ν) (es : List ε) (init : ν) :
    es.foldl (fun _ e => value e) init = (es.getLast?.map value).getD init := by
  induction es generalizing init with
  | nil => rfl
  | cons e es ih =>
    rw [List.foldl_cons, ih, List.getLast?_cons]
    cases es.getLast? <;> rfl

end KeyedFold
