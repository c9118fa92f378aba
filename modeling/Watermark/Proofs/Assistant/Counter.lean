import Watermark.Assistant.Counter

/-!
# Handles of one counter

A change that is counted through one handle is seen through another only if both reach the same counter. There is one
handle at the beginning, and after that handles are only cloned, which makes a handle of a counter that another handle
reaches already (`Counters.reached?_clone`). So at all times every handle reaches the counter of the first one
(`Counters.Shared`), and whoever counts a change adds one to what everyone sees (`Counters.Shared.generation_bump`).
-/

namespace Watermark.Counters

variable {c : Counters} {h : Handle} {i j : Fin c.size}

/-- Every handle reaches the counter that the first one reaches. -/
def Shared (c : Counters) : Prop := ∀ h i, c.reached? h = some i → i = c.first

theorem isSome_reached? : (c.reached? h).isSome ↔ h.number ≤ c.clones.length := by
  rw [reached?, Option.isSome_iff_ne_none, ne_eq, List.getElem?_eq_none_iff, Nat.not_le, List.length_cons,
    Nat.lt_succ_iff]

theorem reached?_nextHandle : c.reached? c.nextHandle = none := by
  simp [reached?, nextHandle]

/-- The new handle reaches the counter of the clone, and every other handle what it reached before. -/
theorem reached?_clone : (c.clone i).reached? h = some j ↔ c.reached? h = some j ∨ h = c.nextHandle ∧ j = i := by
  obtain ⟨n⟩ := h
  show (c.first :: c.clones ++ [i])[n]? = some j ↔
    (c.first :: c.clones)[n]? = some j ∨ Handle.mk n = ⟨c.clones.length + 1⟩ ∧ j = i
  rw [Handle.mk.injEq, ← List.length_cons (a := c.first)]
  generalize c.first :: c.clones = table
  obtain hlt | hge := Nat.lt_or_ge n table.length
  · rw [List.getElem?_append_left hlt]
    simp [Nat.ne_of_lt hlt]
  · have hlast : n - table.length = 0 ↔ n = table.length := by omega
    rw [List.getElem?_append_right hge, List.getElem?_eq_none hge, List.getElem?_singleton, eq_comm (a := j)]
    simp [hlast]

/-! ## What handles share -/

/-- There is only the first handle at the beginning. -/
theorem shared_start : start.Shared := by
  intro h i hi
  have hmem : i ∈ [start.first] := List.mem_of_getElem? hi
  exact List.mem_singleton.1 hmem

theorem Shared.clone (hc : c.Shared) (hi : c.reached? h = some i) : (c.clone i).Shared := by
  intro k j hj
  obtain hold | ⟨-, hnew⟩ := reached?_clone.1 hj
  · exact hc k j hold
  · exact hnew.trans (hc h i hi)

/-- A change is counted on what a handle reaches, and no handle comes to reach anything else. -/
theorem Shared.bump (hc : c.Shared) : (c.bump i).Shared := hc

/-! ## The count -/

/-- A handle shows the same count as the first one. -/
theorem Shared.count_eq (hc : c.Shared) (hi : c.reached? h = some i) : c.count i = c.generation := by
  rw [hc h i hi, generation]

theorem generation_clone : (c.clone i).generation = c.generation := rfl

/-- Through whatever handle a change is counted, the first one shows one change more. -/
theorem Shared.generation_bump (hc : c.Shared) (hi : c.reached? h = some i) :
    (c.bump i).generation = c.generation.bump := by
  obtain rfl := hc h i hi
  exact Vector.getElem_set_self _

end Watermark.Counters
