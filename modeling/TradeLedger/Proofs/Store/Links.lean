/-
The index of links of a store in memory. Beside its rows it keeps, for every table and link, the
positions of the rows with that link. Both grow at their ends and together, so the positions are
those of the rows with the link, in the order of the chain; and as a row stands where its position
says, each position leads back to its row.
-/
import TradeLedger.Proofs.Store.Flaky

namespace TradeLedger.Memory

/-! ## The index agrees with the rows -/

/-- What the index of links names is the positions of the rows with the link, in order. -/
def Indexed (m : Memory) : Prop :=
  ∀ t link, m.positions t link = ((m.rows.get t).filter (·.linkId = link)).map Row.position

theorem positions_push (m : Memory) (r : Row) (t : Table) (link : Uuid) :
    (m.push r).positions t link =
      if t = r.table ∧ link = r.linkId then m.positions t link ++ [r.position] else m.positions t link := by
  unfold positions push
  rw [Assoc.get?_set]
  by_cases h : t = r.table ∧ link = r.linkId
  · rw [if_pos (by rw [h.1, h.2]), if_pos h, h.1, h.2]
    rfl
  · rw [if_neg h, if_neg fun heq => h (Prod.mk.inj heq)]

theorem indexed_empty : Memory.empty.Indexed := by
  intro t link
  rw [Memory.empty, PerTable.get_ofFn]
  rfl

/-- A row that is stored goes to the end of its table and its position to the end of its link. -/
theorem Indexed.push {m : Memory} (h : m.Indexed) (r : Row) : (m.push r).Indexed := by
  intro t link
  rw [positions_push, rows_push, h t link]
  by_cases ht : t = r.table
  · by_cases hlink : link = r.linkId
    · rw [if_pos ⟨ht, hlink⟩, if_pos ht, List.filter_append, List.map_append]
      simp [hlink]
    · rw [if_neg fun h => hlink h.2, if_pos ht, List.filter_append, List.map_append]
      simp [Ne.symm hlink]
  · rw [if_neg fun h => ht h.1, if_neg ht]

/-! ## Positions lead to their rows -/

/-- Every row stands at the place that its position says. -/
def Placed (m : Memory) : Prop := ∀ t (i : ℕ) r, (m.rows.get t)[i]? = some r → r.position.toNat = i + 1

theorem Placed.row?_position {m : Memory} (h : m.Placed) {t : Table} {r : Row} (hr : r ∈ m.rows.get t) :
    m.row? t r.position = some r := by
  obtain ⟨i, hi⟩ := List.mem_iff_getElem?.1 hr
  have hposition := h t i r hi
  have hne : r.position ≠ 0 := by
    rintro heq
    rw [heq] at hposition
    simp at hposition
  rw [row?, if_neg hne, hposition, Nat.add_sub_cancel, hi]

/-- So whatever position the index names, there is a row with the link. -/
theorem Indexed.exists_row {m : Memory} (h : m.Indexed) (hplaced : m.Placed) {t : Table} {link : Uuid} {position : UInt64}
    (hmem : position ∈ m.positions t link) :
    ∃ r ∈ m.rows.get t, r.linkId = link ∧ r.position = position ∧ m.row? t position = some r := by
  rw [h t link] at hmem
  obtain ⟨r, hr, rfl⟩ := List.mem_map.1 hmem
  obtain ⟨hrow, hlink⟩ := List.mem_filter.1 hr
  exact ⟨r, hrow, of_decide_eq_true hlink, rfl, hplaced.row?_position hrow⟩

end TradeLedger.Memory
