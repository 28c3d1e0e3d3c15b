import MexcApi.WsLists
import MexcApi.WsSkipSound

/-!
# When a request is pending twice

`writeSubscription` looks for a request among the confirmed ones only. A
request that waits in the queue or for its answer is accepted once more.
-/

namespace MexcApi

open Nlohmann

namespace Futures

namespace Session

/-- The confirmed requests, the one in flight and the queued ones. -/
def Lists.requests (l : Lists) : List Json :=
  (l.subscriptions ++ l.subscribing :: l.subscriptionRequests).filter fun j => !j.isNull

def Distinct (s : Session) : Prop := s.lists.requests.Pairwise fun a b => a.eq b = false

instance (s : Session) : Decidable s.Distinct := inferInstanceAs (Decidable (List.Pairwise _ _))

/-- `writeSubscription` gets to the end of its loop. -/
def Passes (s : Session) (r : Json) : Prop :=
  ∀ sub ∈ s.subscriptions, r.isObject = true ∧ sub.isObject = true ∧ ¬ SameStream sub r

/-- No request is submitted while it is queued or in flight, unless a
confirmed one keeps it out of the queue. -/
def Fresh (s : Session) : Event → Prop
  | .subscribe r => r.isNull = true ∨ (∀ x ∈ s.subscribing :: s.subscriptionRequests, x.eq r = false) ∨ ¬ s.Passes r
  | _ => True

theorem passes_iff (s : Session) (r : Json) : alreadySubscribed r s.subscriptions = .ok false ↔ s.Passes r := by
  by_cases hr : r.isObject = true
  · rw [alreadySubscribed_false_iff hr]
    simp [Passes, hr]
  · cases hsubs : s.subscriptions with
    | nil => simp [Passes, hsubs, alreadySubscribed]
    | cons sub subs =>
      have hf : r.isObject = false := by simpa using hr
      have hnot : ¬ s.Passes r := fun h => hr (h sub (by rw [hsubs]; exact List.mem_cons_self)).1
      simp only [hnot, iff_false, alreadySubscribed]
      cases (sub.access "method").orNull with
      | error e => simp [bind, Except.bind]
      | ok m => simp [orNull_error hf, bind, Except.bind]

/-! ## What a move keeps -/

theorem requests_accept (l : Lists) (r : Json) (accepted : List Json) :
    Lists.requests { l with subscriptionRequests := l.subscriptionRequests ++ [r], accepted := accepted } =
      l.requests ++ if r.isNull then [] else [r] := by
  unfold Lists.requests
  rw [← List.cons_append, ← List.append_assoc, List.filter_append]
  cases hr : r.isNull with
  | true => simp [hr]
  | false => simp [hr]

theorem requests_null {l : Lists} (h : l.subscribing = .null) :
    l.requests = (l.subscriptions ++ l.subscriptionRequests).filter fun j => !j.isNull := by
  unfold Lists.requests
  rw [h, List.filter_append, List.filter_append, List.filter_cons_of_neg (by decide)]

/-- Everything but a new request goes on along the lists, or goes away. -/
theorem requests_move {e : Event} {l l' : Lists} (hm : Move e l l') (he : ∀ r, e ≠ .subscribe r) :
    l'.requests.Sublist l.requests := by
  cases hm with
  | keep => exact List.Sublist.refl _
  | accept r => exact absurd rfl (he r)
  | take r queue _ hq =>
    apply List.Sublist.filter
    rw [hq]
    exact List.Sublist.append (List.Sublist.refl _) (List.sublist_cons_self ..)
  | takeNone => exact List.Sublist.refl _
  | confirm =>
    rw [requests_null rfl]
    apply List.Sublist.filter
    rw [List.append_assoc]
    exact List.Sublist.refl _
  | reject =>
    rw [requests_null rfl]
    apply List.Sublist.filter
    exact List.Sublist.append List.eraseP_sublist (List.sublist_cons_self ..)

theorem subscribe_requests (s : Session) (r : Json) :
    ((s.next (.subscribe r)).lists.requests = s.lists.requests ++ if r.isNull then [] else [r]) ∧ s.Passes r ∨
      (s.next (.subscribe r)).lists.requests = s.lists.requests ∧ ¬ s.Passes r := by
  rw [← passes_iff]
  simp only [next, writeSubscription]
  cases h : alreadySubscribed r s.subscriptions with
  | error e => exact Or.inr ⟨rfl, fun heq => by cases heq⟩
  | ok b =>
    cases b with
    | true => exact Or.inr ⟨rfl, fun heq => by cases heq⟩
    | false => exact Or.inl ⟨requests_accept s.lists r _, rfl⟩

theorem distinct_append {l : List Json} {r : Json} :
    (l ++ [r]).Pairwise (fun a b => a.eq b = false) ↔
      l.Pairwise (fun a b => a.eq b = false) ∧ ∀ x ∈ l, x.eq r = false := by
  simp [List.pairwise_append]

/-! ## Runs -/

theorem confirmed_ne {s : Session} {r x : Json} (hp : s.Passes r) (hx : x ∈ s.subscriptions) : x.eq r = false := by
  obtain ⟨hr, -, hne⟩ := hp x hx
  cases r with
  | obj kvs =>
    cases h : x.eq (.obj kvs) with
    | false => rfl
    | true => exact absurd (sameStream_of_eq h).2 hne
  | _ => cases hr

theorem distinct_fresh (s : Session) (e : Event) (s' : Session) (h : s.Distinct) (hok : s.Fresh e)
    (hs : s.step e = some s') : s'.Distinct := by
  have hmove := step_move hs
  obtain ⟨-, -, rfl⟩ := step_some hs
  cases e with
  | subscribe r =>
    unfold Distinct
    rcases s.subscribe_requests r with ⟨heq, hp⟩ | ⟨heq, -⟩
    · rw [heq]
      cases hr : r.isNull with
      | true => simpa [Distinct] using h
      | false =>
        simp only [Bool.false_eq_true, ite_false]
        refine distinct_append.mpr ⟨h, fun x hx => ?_⟩
        rcases List.mem_append.mp (List.mem_filter.mp hx).1 with hx | hx
        · exact confirmed_ne hp hx
        · rcases hok with hnull | hnew | hnp
          · rw [hr] at hnull; cases hnull
          · exact hnew x hx
          · exact absurd hp hnp
    · rw [heq]; exact h
  | _ => exact h.sublist (requests_move hmove nofun)

theorem eq_null {x r : Json} (h : x.eq r = true) (hr : r.isNull = false) : x.isNull = false := by
  cases x with
  | null =>
    cases r with
    | null => cases hr
    | _ => simp [Json.eq] at h
  | _ => rfl

theorem pending_twice (s : Session) (e : Event) (s' : Session) (hok : ¬ s.Fresh e) (hs : s.step e = some s') :
    ¬ s'.Distinct := by
  obtain ⟨-, -, rfl⟩ := step_some hs
  cases e with
  | subscribe r =>
    simp only [Fresh, not_or, not_forall, not_not] at hok
    obtain ⟨hr, ⟨x, hx, heq⟩, hp⟩ := hok
    have hr' : r.isNull = false := by simpa using hr
    have heq' : x.eq r = true := by simpa using heq
    rcases s.subscribe_requests r with ⟨hreq, -⟩ | ⟨-, hnp⟩
    · unfold Distinct
      rw [hreq]
      simp only [hr', Bool.false_eq_true, ite_false]
      intro hd
      have hmem : x ∈ s.lists.requests := by
        refine List.mem_filter.mpr ⟨List.mem_append_right _ hx, ?_⟩
        rw [eq_null heq' hr']; rfl
      rw [(distinct_append.mp hd).2 x hmem] at heq'
      cases heq'
    · exact absurd hp hnp
  | _ => exact absurd trivial hok

theorem distinct_iff_fresh (r : Json) (es : List Event) :
    Trace.Always step Distinct (start r) es ↔ Trace.Guarded step Fresh (start r) es := by
  refine Trace.always_iff_guarded step (fun s h => h) distinct_fresh (fun s e s' _ => pending_twice s e s') ?_
  have heq : (start r).lists.requests = [] ++ if r.isNull then [] else [r] :=
    requests_accept
      { subscriptions := [], subscribing := .null, subscriptionRequests := [], accepted := [], written := [] } r _
  unfold Distinct
  rw [heq]
  cases r.isNull <;> simp

theorem submitted_twice :
    let eth := (WSStreamManager.tickerSubscription "ETH_USDT").toJson
    ∃ s, Trace.run step (start eth) [.subscribe eth] = some s ∧ s.subscriptionRequests = [eth, eth] ∧
      s.isSubscribed eth = false ∧ ¬ Trace.Always step Distinct (start eth) [.subscribe eth] := by
  refine ⟨_, rfl, rfl, rfl, ?_⟩
  intro h
  have hlast := h.last step rfl
  revert hlast
  decide

end Session

end Futures

end MexcApi
