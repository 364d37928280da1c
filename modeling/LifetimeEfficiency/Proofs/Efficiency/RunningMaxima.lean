import LifetimeEfficiency.Proofs.Bracket
import LifetimeEfficiency.Proofs.Efficiency.Constructed
import LifetimeEfficiency.Proofs.Extended
/-!
# Running maxima

A limit closes the open bin if it lies inside the range and above every limit that closed a bin before. The check looks at the
last of them only, which is enough because those that were kept increase. Undefined and infinite limits are refused like all
others that do not lie inside.
-/
namespace LifetimeEfficiency

section Checks

variable {K α : Type} [Scalar K]

/-- The limit lies inside the range and above all that are kept. -/
def Rises (low high : K) (kept : List (K × α)) (limit : K) : Prop :=
  (low < limit ∧ limit < high) ∧ ∀ k ∈ kept, k.1 < limit

instance (low high : K) (kept : List (K × α)) (limit : K) : Decidable (Rises low high kept limit) :=
  inferInstanceAs (Decidable (_ ∧ _))

/-- The calls that rise above all that were kept before them. -/
def runningMaxima (low high : K) (calls : List (K × α)) : List (K × α) :=
  calls.foldl (fun kept call => if Rises low high kept call.1 then kept ++ [call] else kept) []

theorem runningMaxima_concat (low high : K) (calls : List (K × α)) (call : K × α) :
    runningMaxima low high (calls ++ [call]) =
      if Rises low high (runningMaxima low high calls) call.1 then runningMaxima low high calls ++ [call]
      else runningMaxima low high calls := by
  rw [runningMaxima, List.foldl_append]
  rfl

theorem sublist_runningMaxima (low high : K) (calls : List (K × α)) : (runningMaxima low high calls).Sublist calls := by
  induction calls using List.reverseRecOn with
  | nil => exact List.Sublist.slnil
  | append_singleton calls call ih =>
    rw [runningMaxima_concat]
    split
    · exact ih.append (List.Sublist.refl [call])
    · exact ih.trans (List.sublist_append_left calls [call])

namespace Thresholds

variable {low high limit : K} {closed : List (K × α)} {fraction : α}

omit [Scalar K] in
theorem previous_cases (low : K) (closed : List (K × α)) : (closed = [] ∧ (closed.map Prod.fst).getLastD low = low) ∨
    ∃ before last, closed = before ++ [last] ∧ (closed.map Prod.fst).getLastD low = last.1 := by
  rcases List.eq_nil_or_concat closed with rfl | ⟨before, last, rfl⟩
  · exact .inl ⟨rfl, rfl⟩
  · exact .inr ⟨before, last, by simp, by simp⟩

theorem previous_lt_iff [Scalar.Ordered K] (hsorted : (ofClosed low high closed).boundaries.Pairwise (· < ·))
    (hlow : low < limit) : (closed.map Prod.fst).getLastD low < limit ↔ ∀ k ∈ closed, k.1 < limit := by
  rcases previous_cases low closed with ⟨hnil, hprevious⟩ | ⟨before, last, hconcat, hprevious⟩
  · simp [hnil, hlow]
  · have hbefore : ∀ k ∈ before, k.1 < last.1 := by
      rw [ofClosed, hconcat, List.map_append, List.cons_append, List.pairwise_cons, List.append_assoc,
        List.pairwise_append] at hsorted
      intro k hk
      exact hsorted.2.2.2 _ (List.mem_map_of_mem hk) _ List.mem_cons_self
    rw [hprevious, hconcat]
    constructor
    · intro hlast k hk
      rcases List.mem_append.mp hk with hk | hk
      · exact Scalar.Ordered.lt_trans (hbefore k hk) hlast
      · obtain rfl := List.mem_singleton.mp hk
        exact hlast
    · exact fun hall => hall last (List.mem_append_right _ (List.mem_singleton_self last))

theorem closePair_of_outside (h : ¬ (low < limit ∧ limit < high)) :
    closePair low high closed limit fraction = .error (.thresholdOutsideRange limit low high) := by
  apply if_pos
  rw [not_and_or] at h
  simpa using h

theorem closePair_of_outOfOrder [Scalar.Ordered K] (hsorted : (ofClosed low high closed).boundaries.Pairwise (· < ·))
    (hrange : low < limit ∧ limit < high) (h : ¬ Rises low high closed limit) :
    closePair low high closed limit fraction =
      .error (.thresholdOutOfOrder limit ((closed.map Prod.fst).getLastD low)) := by
  have hprevious : ¬ (closed.map Prod.fst).getLastD low < limit :=
    mt (previous_lt_iff hsorted hrange.1).mp fun hall => h ⟨hrange, hall⟩
  simp only [closePair, hrange, hprevious, decide_true, decide_false, Bool.and_self, Bool.not_true, Bool.not_false]
  rfl

theorem closePair_of_rises [Scalar.Ordered K] (hsorted : (ofClosed low high closed).boundaries.Pairwise (· < ·))
    (h : Rises low high closed limit) : closePair low high closed limit fraction = .ok (closed ++ [(limit, fraction)]) := by
  have hprevious := (previous_lt_iff hsorted h.1.1).mpr h.2
  simp only [closePair, h.1, hprevious, decide_true, Bool.and_self, Bool.not_true]
  rfl

end Thresholds

namespace Efficiency

def closeEach (e : Efficiency K α) (calls : List (K × α)) : Efficiency K α :=
  calls.foldl (fun e call => e.close call.1 call.2) e

theorem closeEach_concat (e : Efficiency K α) (calls : List (K × α)) (call : K × α) :
    e.closeEach (calls ++ [call]) = (e.closeEach calls).close call.1 call.2 := by
  rw [closeEach, List.foldl_append]
  rfl

/-- What becomes of one more limit, after those that were kept. -/
structure Judges (e : Efficiency K α) (low high : K) (kept : List (K × α)) (limit : K) (fraction : α) : Prop where
  accepted : Rises low high kept limit →
    e.addThreshold? limit fraction = some (.ok
      ⟨e.name, .threshold ⟨low :: kept.map Prod.fst ++ [limit, high], kept.map Prod.snd ++ [fraction]⟩⟩)
  outside : ¬ (low < limit ∧ limit < high) →
    e.addThreshold? limit fraction = some (.error (.thresholdOutsideRange limit low high))
  outOfOrder : low < limit → limit < high → ¬ Rises low high kept limit →
    ∃ last, kept.getLast? = some last ∧
      e.addThreshold? limit fraction = some (.error (.thresholdOutOfOrder limit last.1))
  refused : ¬ Rises low high kept limit → e.close limit fraction = e

open Thresholds (ofClosed closePair)

theorem addThreshold?_ofClosed (name : String) (low high : K) (closed : List (K × α)) (limit : K) (fraction : α) :
    (⟨name, .threshold (ofClosed low high closed)⟩ : Efficiency K α).addThreshold? limit fraction =
      some ((closePair low high closed limit fraction).map fun closed' => ⟨name, .threshold (ofClosed low high closed')⟩) := by
  simp only [addThreshold?, Thresholds.close_ofClosed]
  cases closePair low high closed limit fraction <;> rfl

theorem judges [Scalar.Ordered K] (name : String) {low high : K} {kept : List (K × α)}
    (hsorted : (ofClosed low high kept).boundaries.Pairwise (· < ·)) (limit : K) (fraction : α) :
    (⟨name, .threshold (ofClosed low high kept)⟩ : Efficiency K α).Judges low high kept limit fraction := by
  have hadd := addThreshold?_ofClosed name low high kept limit fraction
  constructor
  · intro h
    rw [hadd, Thresholds.closePair_of_rises hsorted h]
    simp [ofClosed, Except.map]
  · intro h
    rw [hadd, Thresholds.closePair_of_outside h]
    rfl
  · intro hlow hhigh h
    rcases Thresholds.previous_cases low kept with ⟨hnil, -⟩ | ⟨before, last, hconcat, hprevious⟩
    · refine absurd ⟨⟨hlow, hhigh⟩, ?_⟩ h
      rw [hnil]
      exact List.forall_mem_nil _
    · refine ⟨last, ?_, ?_⟩
      · rw [hconcat, List.getLast?_concat]
      · rw [hadd, Thresholds.closePair_of_outOfOrder hsorted ⟨hlow, hhigh⟩ h, hprevious]
        rfl
  · intro h
    rw [close, hadd]
    by_cases hrange : low < limit ∧ limit < high
    · rw [Thresholds.closePair_of_outOfOrder hsorted hrange h]
      rfl
    · rw [Thresholds.closePair_of_outside hrange]
      rfl

/-- Of any calls the running maxima are kept, and the boundaries increase. -/
theorem closeEach_eq [Scalar.Ordered K] (name : String) {low high : K} (hlt : low < high) (calls : List (K × α)) :
    closeEach ⟨name, .threshold ⟨[low, high], []⟩⟩ calls =
        ⟨name, .threshold (ofClosed low high (runningMaxima low high calls))⟩ ∧
      (ofClosed low high (runningMaxima low high calls)).boundaries.Pairwise (· < ·) := by
  -- from the end, since the last call is judged by all that the calls before it have kept
  induction calls using List.reverseRecOn with
  | nil => exact ⟨rfl, (Thresholds.laid_ofRange (α := α) hlt).sorted⟩
  | append_singleton calls call ih =>
    obtain ⟨hrun, hsorted⟩ := ih
    rw [closeEach_concat, hrun, runningMaxima_concat]
    by_cases h : Rises low high (runningMaxima low high calls) call.1
    · have hlast := (Thresholds.previous_lt_iff hsorted h.1.1).mpr h.2
      rw [if_pos h, close, addThreshold?_ofClosed, Thresholds.closePair_of_rises hsorted h]
      exact ⟨rfl, Thresholds.sorted_ofClosed_concat call.2 hsorted hlast h.1.2⟩
    · rw [if_neg h]
      exact ⟨(judges name hsorted call.1 call.2).refused h, hsorted⟩

end Efficiency

end Checks

/-! Readings that look at every position they use and at every number they divide by. -/

section Readings

variable {K : Type} [Scalar K]

inductive Fault
  | position (i : Nat)
  | division

def Fault.item (xs : List K) (i : Nat) : Except Fault K :=
  match xs[i]? with
  | some x => .ok x
  | none => .error (.position i)

def Fault.quotient (x y : K) : Except Fault K := if y == 0 then .error .division else .ok (x / y)

namespace Thresholds

def checkedHeight (t : Thresholds K K) (fraction : K) (bin : Nat) : Except Fault K := do
  let upper ← Fault.item t.boundaries (bin + 1)
  let lower ← Fault.item t.boundaries bin
  Fault.quotient fraction (upper - lower)

def checkedValue (t : Thresholds K K) (x : K) : Except Fault K := do
  let low ← Fault.item t.boundaries 0
  let high ← Fault.item t.boundaries (t.boundaries.length - 1)
  let bin := bracket t.boundaries x
  if x < low || high < x then return 0 else t.checkedHeight (t.fraction bin) bin

/-- Only bins that the range overlaps are asked for their density. -/
def checkedArea (t : Thresholds K K) (lo hi : K) : Except Fault K := do
  let last := t.lastFraction
  let parts ← (t.boundaries.zip t.boundaries.tail).zipIdx.mapM fun edges =>
    let overlap := min hi edges.1.2 - max lo edges.1.1
    if 0 < overlap then return overlap * (← t.checkedHeight (t.fractions.getD edges.2 last) edges.2) else return 0
  return Scalar.sum parts

def checkedMaximum (t : Thresholds K K) : Except Fault K := do
  let densities ← (List.range (t.boundaries.length - 1)).mapM fun bin => t.checkedHeight (t.fraction bin) bin
  return Scalar.largest (densities.map Scalar.abs)

/-- Every bin has a width, and readings that look give what those that do not look give. -/
structure Safe (t : Thresholds K K) : Prop where
  width : ∀ edges ∈ t.boundaries.zip t.boundaries.tail, 0 < edges.2 - edges.1
  value : ∀ x, t.checkedValue x = .ok (t.steps.value x)
  area : ∀ lo hi, t.checkedArea lo hi = .ok (t.area lo hi) ∧ t.area lo hi = t.steps.area lo hi
  maximum : t.checkedMaximum = .ok t.steps.maxAbs

section Widths

variable {t : Thresholds K K}
  (hwidth : ∀ edges ∈ t.boundaries.zip t.boundaries.tail, (edges.2 - edges.1 == 0) = false)

include hwidth

theorem checkedHeight_eq (fraction : K) {bin : Nat} (hbin : bin + 1 < t.boundaries.length) :
    t.checkedHeight fraction bin = .ok (fraction / (t.boundaries.getD (bin + 1) 0 - t.boundaries.getD bin 0)) := by
  have hlower : bin < t.boundaries.length := Nat.lt_of_succ_lt hbin
  have hzip : bin < (t.boundaries.zip t.boundaries.tail).length := by
    rw [List.length_zip, List.length_tail]
    omega
  have hedges : (t.boundaries.zip t.boundaries.tail)[bin] = (t.boundaries[bin], t.boundaries[bin + 1]) := by
    rw [List.getElem_zip, List.getElem_tail]
  have hne : (t.boundaries[bin + 1] - t.boundaries[bin] == 0) = false := hwidth _ (hedges ▸ List.getElem_mem hzip)
  rw [List.getD_eq_getElem _ _ hbin, List.getD_eq_getElem _ _ hlower]
  simp only [checkedHeight, Fault.item, Fault.quotient, List.getElem?_eq_getElem hbin, List.getElem?_eq_getElem hlower]
  exact if_neg (Bool.eq_false_iff.mp hne)

theorem checkedValue_eq (htwo : 2 ≤ t.boundaries.length) (x : K) : t.checkedValue x = .ok (t.steps.value x) := by
  have hfirst : t.boundaries[0]? = some t.steps.first := by
    rw [Steps.first, List.getD_eq_getElem?_getD, steps, List.getElem?_eq_getElem (by omega)]
    rfl
  have hlast : t.boundaries[t.boundaries.length - 1]? = some t.steps.last := by
    rw [Steps.last, List.getD_eq_getElem?_getD, steps, List.getElem?_eq_getElem (by omega)]
    rfl
  have hgap := bracket_lt htwo x
  have hheight : bracket t.boundaries x < t.steps.heights.length := by
    rw [length_heights]
    omega
  have hinside : t.checkedHeight (t.fraction (bracket t.boundaries x)) (bracket t.boundaries x) =
      .ok (t.steps.heights.getD (bracket t.boundaries x) 0) := by
    rw [checkedHeight_eq hwidth _ (by omega), List.getD_eq_getElem _ _ hheight, getElem_heights]
    rfl
  have hbare : t.steps.extended = false := rfl
  simp only [checkedValue, Fault.item, hfirst, hlast, Steps.value, hinside]
  by_cases hlow : x < t.steps.first
  · simp [hlow, hbare, bind, Except.bind, pure, Except.pure]
  · by_cases hhigh : t.steps.last < x
    · simp [hlow, hhigh, hbare, bind, Except.bind, pure, Except.pure]
    · simp only [hlow, hhigh, bind, Except.bind]
      rfl

theorem checkedArea_eq (lo hi : K) : t.checkedArea lo hi = .ok (t.area lo hi) := by
  have hall : ((t.boundaries.zip t.boundaries.tail).zipIdx.mapM fun edges => do
      let overlap := min hi edges.1.2 - max lo edges.1.1
      if 0 < overlap then
        return overlap * (← t.checkedHeight (t.fractions.getD edges.2 t.lastFraction) edges.2)
      else return 0 : Except Fault (List K)) =
      .ok ((t.boundaries.zip t.boundaries.tail).zipIdx.map fun edges =>
        let overlap := min hi edges.1.2 - max lo edges.1.1
        if 0 < overlap then
          overlap * (t.fractions.getD edges.2 t.lastFraction /
            (t.boundaries.getD (edges.2 + 1) 0 - t.boundaries.getD edges.2 0))
        else 0) := by
    apply mapM_eq_ok_map
    intro edges hedges
    have hbin : edges.2 + 1 < t.boundaries.length := by
      have hlt := List.snd_lt_of_mem_zipIdx hedges
      rw [List.length_zip, List.length_tail] at hlt
      omega
    dsimp only
    split
    · rw [checkedHeight_eq hwidth _ hbin]
      rfl
    · rfl
  rw [checkedArea, hall]
  rfl

theorem checkedMaximum_eq : t.checkedMaximum = .ok t.steps.maxAbs := by
  have hall : (List.range (t.boundaries.length - 1)).mapM (fun bin => t.checkedHeight (t.fraction bin) bin) =
      .ok t.steps.heights := by
    apply mapM_eq_ok_map
    intro bin hbin
    exact checkedHeight_eq hwidth _ (Nat.add_lt_of_lt_sub (List.mem_range.mp hbin))
  rw [checkedMaximum, hall]
  rfl

end Widths

end Thresholds

end Readings

section Infinities

open Extended (number)

variable {K α : Type} [Field K] [LinearOrder K] [IsStrictOrderedRing K]

theorem Thresholds.Laid.safe {t : Thresholds (Extended K) (Extended K)} (ht : t.Laid) : t.Safe := by
  have hpos : ∀ edges ∈ t.boundaries.zip t.boundaries.tail, 0 < edges.2 - edges.1 :=
    fun _ hedges => Extended.zero_lt_sub (rel_of_mem_zip_tail ht.sorted hedges)
  have hwidth : ∀ edges ∈ t.boundaries.zip t.boundaries.tail, (edges.2 - edges.1 == 0) = false :=
    fun edges hedges => Extended.beq_zero_of_pos (hpos edges hedges)
  have htwo : 2 ≤ t.boundaries.length := (Nat.le_add_left 2 _).trans_eq ht.length.symm
  exact ⟨hpos, checkedValue_eq hwidth htwo, fun lo hi => ⟨checkedArea_eq hwidth lo hi, t.area_eq lo hi⟩,
    checkedMaximum_eq hwidth⟩

/-- However often limits of any kind are added, those that close a bin are the running maxima inside the range. They stand in the
boundaries in the order of the calls, between the ends of the range, and their fractions at the same places one less. A limit
that is refused changes nothing, and no reading ever divides by zero or looks beyond the end of a list. -/
theorem Efficiency.keeps_running_maxima {name : String} {low high : Extended K} {e : Efficiency (Extended K) α}
    (h : ofRange name low high = .ok e) (calls : List (Extended K × α)) :
    let r := e.closeEach calls
    let kept := runningMaxima low high calls
    let t : Thresholds (Extended K) α := ⟨low :: kept.map Prod.fst ++ [high], kept.map Prod.snd⟩
    kept.Sublist calls ∧ r = ⟨name, .threshold t⟩ ∧ t.boundaries.Pairwise (· < ·) ∧
      t.boundaries.length = t.fractions.length + 2 ∧ t.low = low ∧ t.high = high ∧
      (∀ (i : Nat) call, kept[i]? = some call → t.boundaries[i + 1]? = some call.1 ∧ t.fractions[i]? = some call.2) ∧
      (∀ limit fraction, r.Judges low high kept limit fraction) ∧
      ∀ value, r.profile value = .steps (t.map value).steps ∧ (t.map value).Safe := by
  intro r kept t
  obtain ⟨⟨-, -, hlt⟩, rfl⟩ := ofRange_eq_ok_iff.mp h
  obtain ⟨hrun, hsorted⟩ := closeEach_eq name hlt calls
  have hlen := Thresholds.length_boundaries_ofClosed low high kept
  have hr : r = ⟨name, .threshold t⟩ := hrun
  rw [hr]
  refine ⟨sublist_runningMaxima low high calls, rfl, hsorted, hlen, Thresholds.low_ofClosed _ _ _,
    Thresholds.high_ofClosed _ _ _, fun i call hcall => Thresholds.getElem?_ofClosed low high hcall, judges name hsorted,
    ?_⟩
  intro value
  exact ⟨rfl, (Thresholds.Laid.map value ⟨hlen, hsorted⟩).safe⟩

/-- Two of six limits are kept. The fractions may be anything, and are read at an undefined time too. -/
theorem Efficiency.keeps_running_maxima_at_undefined_limits :
    let e : Efficiency (Extended ℚ) (Extended ℚ) := ⟨"steps", .threshold ⟨[number 0, number 3], []⟩⟩
    let calls : List (Extended ℚ × Extended ℚ) := [(number 1, number 5), (.undefined, number 1), (.above, number 1),
      (number 1, number 1), (number 2, .undefined), (number (1 / 2), number 1)]
    let r := e.closeEach calls
    let t : Thresholds (Extended ℚ) (Extended ℚ) := ⟨[number 0, number 1, number 2, number 3], [number 5, .undefined]⟩
    ofRange "steps" (number 0) (number 3) = .ok e ∧ r = ⟨"steps", .threshold t⟩ ∧
      r.addThreshold? .undefined (number 1) = some (.error (.thresholdOutsideRange .undefined (number 0) (number 3))) ∧
      r.addThreshold? (number (3 / 2)) (number 1) =
        some (.error (.thresholdOutOfOrder (number (3 / 2)) (number 2))) ∧
      t.checkedValue .undefined = .ok (number 5) ∧ (r.profile id).value .undefined = number 5 ∧ t.Safe := by
  intro e calls r t
  have h : ofRange "steps" (number 0) (number 3) = .ok e := rfl
  have hkept : runningMaxima (number 0) (number 3) calls = [(number 1, number 5), (number 2, .undefined)] := by
    norm_num [runningMaxima, Rises, calls]
  obtain ⟨-, hr, -, -, -, -, -, hjudges, hprofile⟩ := keeps_running_maxima h calls
  obtain ⟨hsteps, hsafe⟩ := hprofile id
  rw [hkept] at hr hjudges hsteps hsafe
  have hrises : ¬ Rises (number 0) (number 3)
      [(number 1, number 5), ((number 2, .undefined) : Extended ℚ × Extended ℚ)] (number (3 / 2)) := by
    norm_num [Rises]
  obtain ⟨last, hlast, herror⟩ := (hjudges (number (3 / 2)) (number 1)).outOfOrder (by norm_num) (by norm_num) hrises
  obtain rfl : (number 2, .undefined) = last := Option.some.inj hlast
  have hvalue : t.steps.value .undefined = number 5 := by
    have hheight : (number 5 / (number 1 - number 0) : Extended ℚ) = number 5 := by
      rw [Extended.number_sub, Extended.number_div (by norm_num)]
      norm_num
    exact hheight
  refine ⟨h, hr, (hjudges .undefined (number 1)).outside (by simp), herror, ?_, ?_, hsafe⟩
  · exact (hsafe.value _).trans (congrArg Except.ok hvalue)
  · rw [hsteps]
    exact hvalue

end Infinities

end LifetimeEfficiency
