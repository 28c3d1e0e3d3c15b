import Mathlib.Data.List.Nodup

/-!
# The fields of a message

A list of named fields. Two names are the same when a key function says so,
which leaves room for names that are compared without regard to case. Setting
a field takes away every field of that name and puts the new one at the end.
-/

namespace HeaderFields

variable {ν κ β : Type} [DecidableEq κ] (key : ν → κ)

def set (name : ν) (value : β) (fields : List (ν × β)) : List (ν × β) :=
  fields.filter (fun f => key f.1 ≠ key name) ++ [(name, value)]

def setAll (news fields : List (ν × β)) : List (ν × β) :=
  news.foldl (fun fields f => set key f.1 f.2 fields) fields

def get? (name : ν) (fields : List (ν × β)) : Option β :=
  (fields.find? fun f => key f.1 = key name).map Prod.snd

/-! ## Reading what was set -/

variable {key}

@[simp] theorem get?_nil (name : ν) : get? key name ([] : List (ν × β)) = none := rfl

theorem find?_filter_ne {name other : ν} (h : key other ≠ key name) (fields : List (ν × β)) :
    (fields.filter fun f => key f.1 ≠ key name).find? (fun f => key f.1 = key other) =
      fields.find? fun f => key f.1 = key other := by
  induction fields with
  | nil => rfl
  | cons f fields ih =>
    by_cases hname : key f.1 = key name
    · have hother : key f.1 ≠ key other := fun heq => h (heq.symm.trans hname)
      simpa [hname, hother, h.symm] using ih
    · by_cases hother : key f.1 = key other
      · simp [hother, h]
      · simpa [hname, hother] using ih

@[simp] theorem get?_set_self (name : ν) (value : β) (fields : List (ν × β)) :
    get? key name (set key name value fields) = some value := by
  have hnone : (fields.filter fun f => key f.1 ≠ key name).find? (fun f => key f.1 = key name) = none := by
    simp
  unfold get? set
  rw [List.find?_append, hnone]
  simp

theorem get?_set_of_ne {name other : ν} (h : key other ≠ key name) (value : β) (fields : List (ν × β)) :
    get? key other (set key name value fields) = get? key other fields := by
  unfold get? set
  rw [List.find?_append, find?_filter_ne h]
  simp [h.symm]

theorem get?_setAll_of_forall_ne {other : ν} {news : List (ν × β)} (h : ∀ f ∈ news, key other ≠ key f.1)
    (fields : List (ν × β)) : get? key other (setAll key news fields) = get? key other fields := by
  induction news generalizing fields with
  | nil => rfl
  | cons f news ih =>
    have hrest := ih (fun f hf => h f (by simp [hf])) (set key f.1 f.2 fields)
    rw [get?_set_of_ne (h f (by simp))] at hrest
    exact hrest

/-! ## One field of a name -/

theorem set_distinct (name : ν) (value : β) {fields : List (ν × β)} (h : (fields.map fun f => key f.1).Nodup) :
    ((set key name value fields).map fun f => key f.1).Nodup := by
  unfold set
  rw [List.map_append, List.nodup_append]
  refine ⟨h.sublist (List.filter_sublist.map _), by simp, ?_⟩
  intro k hk k' hk'
  obtain ⟨f, hf, rfl⟩ := List.mem_map.mp hk
  simp only [List.map_cons, List.map_nil, List.mem_singleton] at hk'
  rw [hk']
  simpa using (List.mem_filter.mp hf).2

end HeaderFields
