import Mathlib.Data.List.Nodup
import Mathlib.Data.List.Perm.Basic

/-!
# Names that are handed out and taken back

A book of the names that are open, each with its owner, and of those that have
ended. A name is handed out once: the names are numbered and none is used again.
-/

namespace Leases

structure Book (κ ν : Type) where
  issued : Nat := 0
  «open» : List (κ × ν) := []
  ended : List (κ × ν) := []

namespace Book

variable {κ ν : Type}

def issue (name : Nat → ν) (b : Book κ ν) (owner : κ) : Book κ ν :=
  { b with issued := b.issued + 1, «open» := b.open ++ [(owner, name b.issued)] }

theorem issue_perm (name : Nat → ν) (b : Book κ ν) (owner : κ) :
    ((b.issue name owner).open ++ (b.issue name owner).ended).Perm ((owner, name b.issued) :: (b.open ++ b.ended)) := by
  show ((b.open ++ [(owner, name b.issued)]) ++ b.ended).Perm _
  rw [List.append_assoc]
  exact List.perm_middle

/-! ## What has been handed out -/

/-- No name is there twice, and all of them are numbered below the next one. -/
structure Sound (name : Nat → ν) (b : Book κ ν) : Prop where
  distinct : ((b.open ++ b.ended).map Prod.snd).Nodup
  numbered : ∀ lease ∈ b.open ++ b.ended, ∃ n < b.issued, lease.2 = name n

section
variable {name : Nat → ν} {b : Book κ ν} (h : b.Sound name)
include h

theorem Sound.fresh (hname : Function.Injective name) : name b.issued ∉ (b.open ++ b.ended).map Prod.snd := by
  intro hmem
  obtain ⟨lease, hlease, heq⟩ := List.mem_map.mp hmem
  obtain ⟨n, hn, hnumber⟩ := h.numbered lease hlease
  have := hname (heq.symm.trans hnumber)
  omega

theorem Sound.issue (hname : Function.Injective name) (owner : κ) : (b.issue name owner).Sound name := by
  have hperm := b.issue_perm name owner
  constructor
  · rw [(hperm.map Prod.snd).nodup_iff, List.map_cons, List.nodup_cons]
    exact ⟨h.fresh hname, h.distinct⟩
  · intro lease hlease
    show ∃ n < b.issued + 1, lease.2 = name n
    rcases List.mem_cons.mp (hperm.mem_iff.mp hlease) with rfl | hold
    · exact ⟨b.issued, Nat.lt_succ_self _, rfl⟩
    · obtain ⟨n, hn, hnumber⟩ := h.numbered lease hold
      exact ⟨n, Nat.lt_succ_of_lt hn, hnumber⟩

theorem Sound.disjoint {lease : κ × ν} (hended : lease ∈ b.ended) : lease ∉ b.open := by
  intro hopen
  have hnodup := h.distinct
  rw [List.map_append] at hnodup
  exact (List.nodup_append.mp hnodup).2.2 _ (List.mem_map_of_mem hopen) _ (List.mem_map_of_mem hended) rfl

theorem Sound.open_nodup : b.open.Nodup := by
  have hnodup := h.distinct
  rw [List.map_append] at hnodup
  exact List.Nodup.of_map _ (List.nodup_append.mp hnodup).1

theorem Sound.ended_nodup : b.ended.Nodup := by
  have hnodup := h.distinct
  rw [List.map_append] at hnodup
  exact List.Nodup.of_map _ (List.nodup_append.mp hnodup).2.1

end

/-! ## What ends -/

variable [DecidableEq κ] [DecidableEq ν]

/-- Ends what is open; anything else is left alone. -/
def finish (b : Book κ ν) (lease : κ × ν) : Book κ ν :=
  if lease ∈ b.open then { b with «open» := b.open.erase lease, ended := b.ended ++ [lease] } else b

/-- Ends a list of an owner's names, one after the other. -/
def finishAll (b : Book κ ν) (owner : κ) (names : List ν) : Book κ ν :=
  names.foldl (fun b name => b.finish (owner, name)) b

/-- Those of a list of names that end, in their order. -/
def taken (owner : κ) : Book κ ν → List ν → List ν
  | _, [] => []
  | b, name :: names => (if (owner, name) ∈ b.open then [name] else []) ++ taken owner (b.finish (owner, name)) names

theorem finishAll_cons (b : Book κ ν) (owner : κ) (name : ν) (names : List ν) :
    b.finishAll owner (name :: names) = (b.finish (owner, name)).finishAll owner names := rfl

theorem finish_issued (b : Book κ ν) (lease : κ × ν) : (b.finish lease).issued = b.issued := by
  unfold finish
  split <;> rfl

theorem finish_ended (b : Book κ ν) (lease : κ × ν) :
    (b.finish lease).ended = b.ended ++ if lease ∈ b.open then [lease] else [] := by
  unfold finish
  by_cases h : lease ∈ b.open
  · rw [if_pos h, if_pos h]
  · rw [if_neg h, if_neg h, List.append_nil]

theorem mem_finish_ended (b : Book κ ν) (lease : κ × ν) {other : κ × ν} :
    other ∈ (b.finish lease).ended ↔ other ∈ b.ended ∨ other = lease ∧ lease ∈ b.open := by
  rw [finish_ended]
  by_cases h : lease ∈ b.open <;> simp [h]

theorem open_finish {b : Book κ ν} {lease other : κ × ν} (hne : other ≠ lease) (hopen : other ∈ b.open) :
    other ∈ (b.finish lease).open := by
  unfold finish
  by_cases h : lease ∈ b.open
  · rw [if_pos h]
    exact (List.mem_erase_of_ne hne).mpr hopen
  · rwa [if_neg h]

theorem finishAll_ended (owner : κ) (names : List ν) : ∀ b : Book κ ν,
    (b.finishAll owner names).ended = b.ended ++ (taken owner b names).map (Prod.mk owner) := by
  induction names with
  | nil => exact fun b => (List.append_nil _).symm
  | cons name names ih =>
    intro b
    rw [finishAll_cons, ih, finish_ended, taken, List.map_append, ← List.append_assoc]
    by_cases h : (owner, name) ∈ b.open <;> simp [h]

theorem taken_subset (owner : κ) (names : List ν) : ∀ b : Book κ ν, taken owner b names ⊆ names := by
  induction names with
  | nil => exact fun _ => List.Subset.refl _
  | cons name names ih =>
    intro b other hother
    rcases List.mem_append.mp hother with hfirst | hrest
    · by_cases h : (owner, name) ∈ b.open
      · rw [if_pos h] at hfirst
        exact List.mem_cons.mpr (Or.inl (List.mem_singleton.mp hfirst))
      · rw [if_neg h] at hfirst
        cases hfirst
    · exact List.mem_cons_of_mem _ (ih _ hrest)

theorem finishAll_issued (owner : κ) (names : List ν) : ∀ b : Book κ ν, (b.finishAll owner names).issued = b.issued := by
  induction names with
  | nil => exact fun _ => rfl
  | cons name names ih => exact fun b => (ih _).trans (b.finish_issued _)

theorem finish_perm (b : Book κ ν) (lease : κ × ν) :
    ((b.finish lease).open ++ (b.finish lease).ended).Perm (b.open ++ b.ended) := by
  unfold finish
  by_cases h : lease ∈ b.open
  · have hlast : (b.open.erase lease ++ (b.ended ++ [lease])).Perm (lease :: (b.open.erase lease ++ b.ended)) := by
      rw [← List.append_assoc]
      exact List.perm_append_singleton _ _
    rw [if_pos h]
    exact hlast.trans ((List.perm_cons_erase h).symm.append_right b.ended)
  · rw [if_neg h]

section
variable {name : Nat → ν} {b : Book κ ν}

theorem Sound.finish (h : b.Sound name) (lease : κ × ν) : (b.finish lease).Sound name := by
  have hperm := b.finish_perm lease
  constructor
  · rw [(hperm.map Prod.snd).nodup_iff]
    exact h.distinct
  · intro other hother
    rw [b.finish_issued]
    exact h.numbered other (hperm.mem_iff.mp hother)

theorem Sound.finishAll (owner : κ) (names : List ν) : ∀ {b : Book κ ν}, b.Sound name →
    (b.finishAll owner names).Sound name := by
  induction names with
  | nil => exact fun h => h
  | cons first names ih => exact fun h => ih (h.finish (owner, first))

theorem Sound.finish_open (h : b.Sound name) (lease : κ × ν) :
    (b.finish lease).open = b.open.filter fun other => other ≠ lease := by
  unfold Book.finish
  by_cases hmem : lease ∈ b.open
  · rw [if_pos hmem]
    show b.open.erase lease = _
    rw [h.open_nodup.erase_eq_filter]
    apply List.filter_congr
    intro other _
    by_cases heq : other = lease <;> simp [heq]
  · rw [if_neg hmem, eq_comm, List.filter_eq_self]
    intro other hother
    rw [decide_eq_true_iff]
    rintro rfl
    exact hmem hother

theorem Sound.finishAll_open (owner : κ) (names : List ν) : ∀ {b : Book κ ν}, b.Sound name →
    (b.finishAll owner names).open =
      b.open.filter fun lease => ¬ (lease.1 = owner ∧ lease.2 ∈ names) := by
  induction names with
  | nil => simp [Book.finishAll]
  | cons first names ih =>
    intro b h
    rw [finishAll_cons, ih (h.finish _), h.finish_open, List.filter_filter]
    apply List.filter_congr
    intro lease _
    obtain ⟨a, k⟩ := lease
    by_cases ha : a = owner <;> by_cases hk : k = first <;> simp [ha, hk]

end

def spared (b : Book κ ν) (owner : κ) (names : List ν) : List (κ × ν) :=
  b.open.filter fun lease => ¬ (lease.1 = owner ∧ lease.2 ∈ names)

theorem spared_issue {name : Nat → ν} {b b' : Book κ ν} {owner : κ} {names : List ν} (account : κ)
    (hissued : b.issued = b'.issued) (h : b.spared owner names = b'.spared owner names) :
    (b.issue name account).spared owner names = (b'.issue name account).spared owner names := by
  unfold spared Book.issue at *
  rw [List.filter_append, List.filter_append, h, hissued]

section
variable {name : Nat → ν} {b : Book κ ν} (h : b.Sound name) (owner : κ) (names : List ν)
include h

theorem Sound.spared_finish (lease : κ × ν) :
    (b.finish lease).spared owner names = (b.spared owner names).filter fun other => other ≠ lease := by
  unfold spared
  rw [h.finish_open, List.filter_filter, List.filter_filter]
  apply List.filter_congr
  intro other _
  exact Bool.and_comm _ _

theorem Sound.spared_finishAll : (b.finishAll owner names).spared owner names = b.spared owner names := by
  unfold spared
  rw [Sound.finishAll_open owner names h, List.filter_filter]
  apply List.filter_congr
  intro other _
  exact Bool.and_self _

end

/-! ## What an owner has -/

def listed (b : Book κ ν) (owner : κ) : List ν := (b.open.filter fun lease => lease.1 = owner).map Prod.snd

omit [DecidableEq ν] in
theorem mem_listed {b : Book κ ν} {owner : κ} {name : ν} : name ∈ b.listed owner ↔ (owner, name) ∈ b.open := by
  unfold listed
  simp only [List.mem_map, List.mem_filter, decide_eq_true_eq]
  constructor
  · rintro ⟨lease, ⟨hlease, rfl⟩, rfl⟩
    exact hlease
  · intro h
    exact ⟨(owner, name), ⟨h, rfl⟩, rfl⟩

omit [DecidableEq ν] in
theorem Sound.listed_nodup {name : Nat → ν} {b : Book κ ν} (h : b.Sound name) (owner : κ) : (b.listed owner).Nodup := by
  have hsublist : (b.listed owner).Sublist ((b.open ++ b.ended).map Prod.snd) :=
    (List.filter_sublist.trans (List.sublist_append_left _ _)).map Prod.snd
  exact hsublist.nodup h.distinct

/-- Once all that is listed for an owner is finished, that owner has nothing open
and the others have what they had. -/
theorem Sound.finishAll_listed {name : Nat → ν} {b : Book κ ν} (h : b.Sound name) (owner other : κ) :
    (b.finishAll owner (b.listed owner)).listed other =
      if other = owner then [] else b.listed other := by
  unfold listed
  rw [Sound.finishAll_open owner _ h, List.filter_filter]
  by_cases hother : other = owner
  · rw [if_pos hother, List.map_eq_nil_iff, List.filter_eq_nil_iff]
    intro lease hlease hboth
    simp only [decide_eq_true_eq, Bool.and_eq_true, List.mem_map, List.mem_filter] at hboth
    apply hboth.2
    exact ⟨hboth.1.trans hother, lease, ⟨hlease, hboth.1.trans hother⟩, rfl⟩
  · rw [if_neg hother]
    congr 1
    apply List.filter_congr
    intro lease _
    by_cases hlease : lease.1 = other
    · have hne : lease.1 ≠ owner := fun heq => hother (hlease.symm.trans heq)
      simp [hlease, hother]
    · simp [hlease]

end Book

end Leases
