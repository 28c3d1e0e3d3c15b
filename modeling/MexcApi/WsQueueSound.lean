import MexcApi.WsLists

/-!
# Requests between the caller and the write

The requests handed to `async_write` so far and the queue are the accepted
requests, in order.
The write after the handshake is the only one that does not ask whether there
is a request; the one `run` was called with is still there.
-/

namespace MexcApi

open Nlohmann

namespace Futures

namespace Session

structure InOrder (s : Session) : Prop where
  sequence : s.written ++ s.subscriptionRequests.map some = s.accepted.map some
  payload : none ∉ s.written

structure Queued (s : Session) : Prop where
  sequence : s.written ++ s.subscriptionRequests.map some = s.accepted.map some
  staged : s.Staged
  unsent : 0 < s.setup → s.subscriptionRequests ≠ []

theorem inOrder_of_queued {s : Session} (h : s.Queued) : s.InOrder := by
  refine ⟨h.sequence, fun hmem => ?_⟩
  have hmem' : none ∈ s.accepted.map some := by
    rw [← h.sequence]
    exact List.mem_append_left _ hmem
  obtain ⟨r, -, hr⟩ := List.mem_map.mp hmem'
  cases hr

theorem queued_start (r : Json) : (start r).Queued where
  sequence := rfl
  staged := staged_start r
  unsent := fun _ => List.cons_ne_nil _ _

/-! ## What a move keeps -/

theorem sequence_move {e : Event} {l l' : Lists} (hm : Move e l l')
    (hne : e = .handshaken true → l.subscriptionRequests ≠ [])
    (h : l.written ++ l.subscriptionRequests.map some = l.accepted.map some) :
    l'.written ++ l'.subscriptionRequests.map some = l'.accepted.map some := by
  cases hm with
  | keep => exact h
  | accept r =>
    show l.written ++ (l.subscriptionRequests ++ [r]).map some = (l.accepted ++ [r]).map some
    rw [List.map_append, List.map_append, ← List.append_assoc, h]
  | take r queue he hq =>
    show (l.written ++ [some r]) ++ queue.map some = l.accepted.map some
    rw [← h, hq, List.append_assoc]
    rfl
  | takeNone hq => exact absurd hq (hne rfl)
  | confirm => exact h
  | reject => exact h

theorem unsent_move {e : Event} {l l' : Lists} (hm : Move e l l') (hhs : e ≠ .handshaken true) (hnext : e ≠ .readNext)
    (h : l.subscriptionRequests ≠ []) : l'.subscriptionRequests ≠ [] := by
  cases hm with
  | keep => exact h
  | accept r => simp
  | take r queue he =>
    rcases he with he | he
    · exact absurd he hhs
    · exact absurd he hnext
  | takeNone => exact absurd rfl hhs
  | confirm => exact h
  | reject => exact h

theorem queued_step (s : Session) (e : Event) (s' : Session) (h : s.Queued) (hs : s.step e = some s') : s'.Queued := by
  have hmove := step_move hs
  have hstaged := staged_step h.staged hs
  obtain ⟨-, hen, rfl⟩ := step_some hs
  refine ⟨sequence_move hmove ?_ h.sequence, hstaged, fun hpos => unsent_move hmove ?_ ?_ (h.unsent ?_)⟩
  · rintro rfl
    have := handshaken_setup true hen.2
    exact h.unsent (by omega)
  · rintro rfl
    have := handshaken_setup true hen.2
    have := h.staged.1
    omega
  · rintro rfl
    have hp : s.phase = .handled := hen
    have := setup_eq_zero h.staged (Or.inl (by rw [hp]; decide))
    have := setup_next hen
    omega
  · have := setup_next hen
    omega

theorem written_inOrder (r : Json) (es : List Event) : Trace.Always step InOrder (start r) es :=
  (Trace.always_of_step step queued_step (queued_start r)).mono step fun _ => inOrder_of_queued

end Session

end Futures

end MexcApi
