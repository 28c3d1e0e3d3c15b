import MexcApi.RestEndpoints

/-!
# How a call depends on the replies

A call goes through its requests one after the other. If one of them gets a
reply that its decoder rejects, then the call ends with what the decoder
raises, whichever request of a download that is.
-/

namespace MexcApi

open Nlohmann

/-! ## Ends of a call -/

section
variable {α β : Type}

theorem throws_iff_not {x : Except Fault α} : Throws x ↔ ¬ (x = .error .undefined ∨ ∃ a, x = .ok a) := by
  rw [throws_iff, Defined, not_or, not_exists]

theorem throws_ending {x : Except Fault α} : Throws (ending x) ↔ Throws x := by
  cases x <;> simp [Throws, ending, Except.map]

theorem throws_bind_pure {x : Except Fault α} {g : α → β} : Throws (x >>= fun a => pure (g a)) ↔ Throws x := by
  cases x <;> simp [Throws, bind, Except.bind, pure, Except.pure]

theorem parse_eq {response : HttpResponse} {json : Json} (h : response.json = some json) : response.parse = .ok json := by
  unfold HttpResponse.parse
  rw [h]

theorem ok_bind (a : α) (f : α → Except Fault β) : (Except.ok a >>= f) = f a := rfl

theorem checked_ok {response response' : HttpResponse} (h : checkResponse response = .ok response') :
    response.result = 200 ∧ response' = response := by
  by_cases hresult : response.result = 200
  · rw [checkResponse_ok hresult] at h
    cases h
    exact ⟨hresult, rfl⟩
  · unfold checkResponse at h
    rw [if_pos hresult] at h
    cases h

theorem unchecked {α : Type} {reply : Except Fault HttpResponse}
    (h : ∀ response, reply = .ok response → response.result ≠ 200) (rest : HttpResponse → Except Fault α) :
    ∃ e, (reply >>= fun response => checkResponse response >>= rest) = .error e := by
  cases reply with
  | error e => exact ⟨e, rfl⟩
  | ok response =>
    unfold checkResponse
    rw [ok_bind]
    dsimp only
    rw [if_pos (h response rfl)]
    exact ⟨_, rfl⟩

theorem throws_checked_iff {response : HttpResponse} {f : HttpResponse → Except Fault α} {P : Prop}
    (h : response.result = 200 → (Throws (f response) ↔ ¬ P)) :
    Throws (checkResponse response >>= f) ↔ ¬ (response.result = 200 ∧ P) := by
  by_cases hresult : response.result = 200
  · rw [checkResponse_ok hresult]
    simpa [hresult, bind, Except.bind] using h hresult
  · unfold checkResponse
    rw [if_pos hresult]
    exact iff_of_true ⟨_, rfl, fun h => by cases h⟩ fun h => hresult h.1

theorem throws_checked {response : HttpResponse} {f : HttpResponse → Except Fault α}
    (h : response.result = 200 → Throws (f response)) : Throws (checkResponse response >>= f) :=
  (throws_checked_iff fun hresult => iff_of_true (h hresult) not_false).mpr And.right

end

instance : Nontrivial Fault := ⟨.undefined, .jsonException 0, fun h => by cases h⟩

theorem map_ending_iff {α : Type} {x : Option (Except Fault α)} {e : Fault} :
    x.map ending = some (.error e) ↔ x = some (.error e) := by
  rcases x with _ | (e' | a)
  · simp
  · simp [ending, Except.map]
  · simp [ending, Except.map]

/-! ## One request at a time -/

/-- The computation makes at most one request and goes on with what `decode`
makes of the reply. -/
def OneRequest {α β : Type} (decode : HttpResponse → Except Fault β)
    (step : (Nat → Except Fault HttpResponse) → Except Fault α) : Prop :=
  (∃ result, ∀ replies, step replies = result) ∨
    ∃ (k : Nat) (rest : β → Except Fault α), ∀ replies, step replies = replies k >>= decode >>= rest

section
variable {β : Type} {decode : HttpResponse → Except Fault β} {replies : Nat → Except Fault HttpResponse} {n : Nat}
  {response : HttpResponse}

theorem OneRequest.raising {α : Type} {step : (Nat → Except Fault HttpResponse) → Except Fault α}
    (h : OneRequest decode step) {f : Fault} (hreply : replies n = .ok response) (hfails : decode response = .error f) :
    (∀ e, step (Function.update replies n (.error e)) = step replies) ∨
      (∀ e, step (Function.update replies n (.error e)) = .error e) ∧ step replies = .error f := by
  rcases h with ⟨result, hresult⟩ | ⟨k, rest, hstep⟩
  · exact Or.inl fun e => by rw [hresult, hresult]
  · by_cases hk : k = n
    · subst hk
      refine Or.inr ⟨fun e => ?_, ?_⟩
      · rw [hstep, Function.update_self]
        rfl
      · rw [hstep, hreply, ok_bind, hfails]
        rfl
    · refine Or.inl fun e => ?_
      rw [hstep, hstep, Function.update_of_ne hk]

namespace Endpoint

theorem download_throws_iff {σ ρ : Type} {U : JsonUtils} {endpoint : Endpoint}
    {start : (Nat → Except Fault HttpResponse) → Except Fault σ}
    {batch : (Nat → Except Fault HttpResponse) → σ → Except Fault (Loop.Flow σ ρ)}
    (hends : ∀ replies e, endpoint.Ends U replies (.error e) ↔
      ∃ fuel, Loop.runFrom (batch replies) fuel (start replies) = some (.error e))
    (hstart : OneRequest decode start) (hbatch : ∀ s, OneRequest decode fun replies => batch replies s)
    (hasks : endpoint.Asks U replies n) (hreply : replies n = .ok response) (hfails : ∃ f, decode response = .error f) :
    endpoint.Throws U replies ↔ Nlohmann.Throws (decode response) := by
  obtain ⟨f, hf⟩ := hfails
  have hfirst := (hstart.raising hreply hf).imp_right And.right
  obtain ⟨fuel, hrun⟩ := Loop.runFrom_of_raising hfirst (fun s => (hbatch s).raising hreply hf) fun e =>
    (hends _ e).mp (hasks e)
  rw [hf]
  constructor
  · rintro ⟨e, he, hdefined⟩
    obtain ⟨m, hm⟩ := (hends ..).mp he
    cases Loop.runFrom_unique _ hrun hm
    exact ⟨f, rfl, hdefined⟩
  · rintro ⟨e, he, hdefined⟩
    cases he
    exact ⟨f, (hends ..).mpr ⟨fuel, hrun⟩, hdefined⟩

end Endpoint

end

end MexcApi
