import LifetimeEfficiency.Proofs.Ordered
/-!
# Layout of thresholds

Boundaries and fractions are two lists. Closing a bin puts a boundary before the last one and a fraction at the end, which for the
list of closed bins, each a limit with its fraction, is one more bin at the end. What holds of that list holds of the two.
-/
namespace LifetimeEfficiency

theorem insertIdx_length_append {α : Type} (before after : List α) (x : α) :
    (before ++ after).insertIdx before.length x = before ++ x :: after := by
  induction before with
  | nil => rfl
  | cons y before ih => rw [List.cons_append, List.length_cons, List.insertIdx_succ_cons, ih, List.cons_append]

namespace Thresholds

variable {K α : Type}

def ofClosed (low high : K) (closed : List (K × α)) : Thresholds K α :=
  ⟨low :: closed.map Prod.fst ++ [high], closed.map Prod.snd⟩

theorem length_boundaries_ofClosed (low high : K) (closed : List (K × α)) :
    (ofClosed low high closed).boundaries.length = (ofClosed low high closed).fractions.length + 2 := by
  simp [ofClosed]

theorem closed_ofClosed (low high : K) (closed : List (K × α)) : (ofClosed low high closed).closed = closed := by
  have hlen : (closed.map Prod.fst).length = (closed.map Prod.snd).length := by simp
  rw [Thresholds.closed, ofClosed, List.cons_append, List.tail_cons]
  calc
    (closed.map Prod.fst ++ [high]).zip (closed.map Prod.snd) =
        (closed.map Prod.fst ++ [high]).zip (closed.map Prod.snd ++ []) := by rw [List.append_nil]
    _ = (closed.map Prod.fst).zip (closed.map Prod.snd) ++ [high].zip [] := List.zip_append hlen
    _ = closed := by rw [List.zip_nil_right, List.append_nil, ← List.unzip_fst, ← List.unzip_snd, List.zip_unzip]

/-- Nothing but the lengths is needed for the lists to be those of their closed bins. -/
theorem exists_ofClosed {t : Thresholds K α} (hlen : t.boundaries.length = t.fractions.length + 2) :
    ∃ low high closed, t = ofClosed low high closed := by
  obtain ⟨boundaries, fractions⟩ := t
  dsimp only at hlen
  cases boundaries with
  | nil => simp at hlen
  | cons low rest =>
    rcases List.eq_nil_or_concat rest with rfl | ⟨limits, high, rfl⟩
    · simp at hlen
    · have hlimits : limits.length = fractions.length := by simpa using hlen
      refine ⟨low, high, limits.zip fractions, ?_⟩
      rw [ofClosed, List.map_fst_zip (Nat.le_of_eq hlimits), List.map_snd_zip (Nat.le_of_eq hlimits.symm), List.concat_eq_append]
      rfl

theorem getElem?_ofClosed (low high : K) {closed : List (K × α)} {i : Nat} {bin : K × α} (hbin : closed[i]? = some bin) :
    (ofClosed low high closed).boundaries[i + 1]? = some bin.1 ∧
      (ofClosed low high closed).fractions[i]? = some bin.2 := by
  have hi : i < (closed.map Prod.fst).length := by
    rw [List.length_map]
    exact (List.getElem?_eq_some_iff.mp hbin).1
  constructor
  · rw [ofClosed, List.cons_append, List.getElem?_cons_succ, List.getElem?_append_left hi, List.getElem?_map, hbin]
    rfl
  · rw [ofClosed, List.getElem?_map, hbin]
    rfl

theorem insertIdx_ofClosed (low high : K) (closed : List (K × α)) (limit : K) (fraction : α) :
    (ofClosed low high closed).boundaries.insertIdx ((ofClosed low high closed).boundaries.length - 1) limit =
      (ofClosed low high (closed ++ [(limit, fraction)])).boundaries := by
  have hlen : (ofClosed low high closed).boundaries.length - 1 = (low :: closed.map Prod.fst).length := by
    simp [ofClosed]
  rw [hlen, ofClosed, insertIdx_length_append]
  simp [ofClosed]

section Closing

variable [Scalar K] (low high : K) (closed : List (K × α)) (limit : K) (fraction : α)

@[simp] theorem low_ofClosed : (ofClosed low high closed).low = low := rfl

@[simp] theorem high_ofClosed : (ofClosed low high closed).high = high := by
  simp [Thresholds.high, ofClosed]

@[simp] theorem previous_ofClosed : (ofClosed low high closed).previous = (closed.map Prod.fst).getLastD low := by
  rcases List.eq_nil_or_concat closed with rfl | ⟨before, last, rfl⟩
  · rfl
  · simp [previous, ofClosed]

/-- One call over the closed bins alone. -/
def closePair : Except (EfficiencyError K) (List (K × α)) :=
  let previous := (closed.map Prod.fst).getLastD low
  if !(low < limit && limit < high) then .error (.thresholdOutsideRange limit low high)
  else if !(previous < limit : Bool) then .error (.thresholdOutOfOrder limit previous)
  else .ok (closed ++ [(limit, fraction)])

/-- The two lists and the list of closed bins accept the same limits, refuse the others with the same error, and stay in step. -/
theorem close_ofClosed : (ofClosed low high closed).close limit fraction =
    (closePair low high closed limit fraction).map (ofClosed low high) := by
  have hfractions : (ofClosed low high closed).fractions ++ [fraction] =
      (ofClosed low high (closed ++ [(limit, fraction)])).fractions := by
    simp [ofClosed]
  rw [close, closePair, insertIdx_ofClosed _ _ _ _ fraction, hfractions, low_ofClosed, high_ofClosed, previous_ofClosed]
  by_cases hrange : low < limit ∧ limit < high
  · by_cases hprevious : (closed.map Prod.fst).getLastD low < limit
    · simp only [hrange, hprevious, decide_true, Bool.and_self, Bool.not_true]
      rfl
    · simp only [hrange, hprevious, decide_true, decide_false, Bool.and_self, Bool.not_true, Bool.not_false]
      rfl
  · have hrefused : (!(low < limit && limit < high : Bool)) = true := by
      simpa [Classical.or_iff_not_imp_left] using hrange
    simp only [hrefused, if_true]
    rfl

end Closing

variable [Scalar K]

theorem closed_close {t : Thresholds K α} (hlen : t.boundaries.length = t.fractions.length + 2) (limit : K) (fraction : α) :
    (t.close limit fraction).map closed = closePair t.low t.high t.closed limit fraction := by
  obtain ⟨low, high, bins, rfl⟩ := exists_ofClosed hlen
  rw [close_ofClosed, low_ofClosed, high_ofClosed, closed_ofClosed]
  cases closePair low high bins limit fraction with
  | error e => rfl
  | ok bins' => exact congrArg Except.ok (closed_ofClosed low high bins')

/-- Increasing boundaries, two more of them than fractions. -/
structure Laid (t : Thresholds K α) : Prop where
  length : t.boundaries.length = t.fractions.length + 2
  sorted : t.boundaries.Pairwise (· < ·)

theorem laid_ofRange {low high : K} (hlt : low < high) : (⟨[low, high], []⟩ : Thresholds K α).Laid :=
  ⟨rfl, by simpa using hlt⟩

theorem Laid.map {β : Type} (f : α → β) {t : Thresholds K α} (ht : t.Laid) : (t.map f).Laid := by
  refine ⟨?_, ht.sorted⟩
  rw [fractions_map, List.length_map]
  exact ht.length

theorem sorted_ofClosed_concat [Scalar.Ordered K] {low high limit : K} {closed : List (K × α)} (fraction : α)
    (hsorted : (ofClosed low high closed).boundaries.Pairwise (· < ·))
    (hprevious : (closed.map Prod.fst).getLastD low < limit) (hlimit : limit < high) :
    (ofClosed low high (closed ++ [(limit, fraction)])).boundaries.Pairwise (· < ·) := by
  rw [ofClosed, ← List.isChain_iff_pairwise, List.isChain_append] at hsorted
  have hlimits : (low :: closed.map Prod.fst ++ [limit]).IsChain (· < ·) := by
    rw [List.isChain_append]
    refine ⟨hsorted.1, List.isChain_singleton _, ?_⟩
    simpa [List.getLast?_cons] using hprevious
  rw [ofClosed, ← List.isChain_iff_pairwise, List.map_append, ← List.cons_append, List.isChain_append]
  refine ⟨hlimits, List.isChain_singleton _, ?_⟩
  simpa [List.getLast?_cons] using hlimit

theorem eq_of_close {low high : K} {closed : List (K × α)} {t' : Thresholds K α} {limit : K} {fraction : α}
    (h : (ofClosed low high closed).close limit fraction = .ok t') : t' = ofClosed low high (closed ++ [(limit, fraction)]) := by
  obtain ⟨-, -, rfl⟩ := close_eq_ok_iff.mp h
  rw [insertIdx_ofClosed _ _ _ _ fraction]
  simp [ofClosed]

variable {t t' : Thresholds K α} {limit : K} {fraction : α}

theorem Laid.close [Scalar.Ordered K] (ht : t.Laid) (h : t.close limit fraction = .ok t') : t'.Laid := by
  obtain ⟨low, high, closed, rfl⟩ := exists_ofClosed ht.length
  obtain ⟨⟨-, hlimit⟩, hprevious, -⟩ := close_eq_ok_iff.mp h
  obtain rfl := eq_of_close h
  rw [previous_ofClosed] at hprevious
  rw [high_ofClosed] at hlimit
  exact ⟨length_boundaries_ofClosed _ _ _, sorted_ofClosed_concat fraction ht.sorted hprevious hlimit⟩

theorem Laid.range_of_close (ht : t.Laid) (h : t.close limit fraction = .ok t') : t'.low = t.low ∧ t'.high = t.high := by
  obtain ⟨low, high, closed, rfl⟩ := exists_ofClosed ht.length
  obtain rfl := eq_of_close h
  exact ⟨rfl, by simp⟩

/-! Two ways to find the fraction of a bin. -/

section Heights

variable (t : Thresholds K K)

theorem fraction_eq_getD (bin : Nat) : t.fraction bin = t.fractions.getD bin t.lastFraction := by
  rw [fraction, List.getD_eq_getElem?_getD]
  cases t.fractions[bin]? <;> rfl

theorem length_heights : t.steps.heights.length = t.boundaries.length - 1 := by
  rw [steps, List.length_map, List.length_range]

theorem getElem_heights {bin : Nat} (h : bin < t.steps.heights.length) : t.steps.heights[bin] = t.height bin := by
  simp only [steps, List.getElem_map, List.getElem_range]

theorem bins_eq : t.steps.bins =
    (t.boundaries.zip t.boundaries.tail).zipIdx.map fun edges => (edges.1, t.height edges.2) := by
  have hlen := t.length_heights
  apply List.ext_getElem
  · rw [Steps.bins, List.length_zip, hlen]
    simp [steps]
  · intro i hi hi'
    simp [Steps.bins, steps]

/-- The density that an integral puts together for itself is the one that values are read from. -/
theorem area_eq (lo hi : K) : t.area lo hi = t.steps.area lo hi := by
  rw [Steps.area, bins_eq, List.map_map]
  refine congrArg Scalar.sum (List.map_congr_left fun edges _ => ?_)
  rw [Function.comp_apply, height, fraction_eq_getD]

theorem fraction_eq_getElem {bin : Nat} (h : bin < (t.fractions ++ [t.lastFraction]).length) :
    t.fraction bin = (t.fractions ++ [t.lastFraction])[bin] := by
  rw [fraction_eq_getD, List.getElem_append]
  split
  · rename_i hlt
    rw [List.getD_eq_getElem _ _ hlt]
  · rename_i hge
    rw [List.getD_eq_default _ _ (Nat.le_of_not_lt hge), List.getElem_singleton]

end Heights

end Thresholds
end LifetimeEfficiency
