import LifetimeEfficiency.Proofs.Exact
import LifetimeEfficiency.Proofs.Outcome
import LifetimeEfficiency.Resolution.Generation
import Mathlib.Logic.Function.Iterate
/-!
# Draws and accepted times

An attempt starts where the one before has left the source, which depends on how far that one came. What is generated is the time of
the first attempt that is accepted, with nothing drawn beyond it.
-/
namespace LifetimeEfficiency

namespace Generator

section Orbit

variable {K σ : Type}

/-- The states that follow on one another from `s` have the property at number `k` for the first time. -/
def FirstAt (P : σ → Prop) (next : σ → σ) (s : σ) (k : Nat) : Prop :=
  P (next^[k] s) ∧ ∀ j < k, ¬ P (next^[j] s)

variable {P : σ → Prop} {next : σ → σ} {s s' : σ} {k n : Nat}

theorem firstAt_zero_iff : FirstAt P next s 0 ↔ P s := by
  simp [FirstAt]

theorem firstAt_succ_iff : FirstAt P next s (k + 1) ↔ ¬ P s ∧ FirstAt P next (next s) k := by
  unfold FirstAt
  constructor
  · rintro ⟨hk, hbefore⟩
    exact ⟨hbefore 0 k.succ_pos, hk, fun j hj => hbefore (j + 1) (Nat.succ_lt_succ hj)⟩
  · rintro ⟨hs, hk, hbefore⟩
    refine ⟨hk, fun j hj => ?_⟩
    cases j with
    | zero => exact hs
    | succ j => exact hbefore j (Nat.lt_of_succ_lt_succ hj)

variable [DecidablePred P] {attempt : σ → Option K × σ} {value : σ → K} {t : K}
  (hattempt : ∀ s, attempt s = (if P s then some (value s) else none, next s))

include hattempt

/-- The first success is that of the first state with the property, and leaves the state after it. -/
theorem firstSuccess_eq_some_iff : firstSuccess attempt n s = some (t, s') ↔
    ∃ k < n, FirstAt P next s k ∧ t = value (next^[k] s) ∧ s' = next^[k + 1] s := by
  induction n generalizing s with
  | zero => simp [firstSuccess]
  | succ n ih =>
    rw [firstSuccess, hattempt]
    by_cases hs : P s
    · rw [if_pos hs]
      constructor
      · intro h
        cases h
        exact ⟨0, n.succ_pos, firstAt_zero_iff.mpr hs, rfl, rfl⟩
      · rintro ⟨k, -, hk, rfl, rfl⟩
        cases k with
        | zero => rfl
        | succ k => exact absurd hs (firstAt_succ_iff.mp hk).1
    · rw [if_neg hs]
      dsimp only
      rw [ih]
      constructor
      · rintro ⟨k, hlt, hk, rfl, rfl⟩
        exact ⟨k + 1, Nat.succ_lt_succ hlt, firstAt_succ_iff.mpr ⟨hs, hk⟩, rfl, rfl⟩
      · rintro ⟨k, hlt, hk, rfl, rfl⟩
        cases k with
        | zero => exact absurd (firstAt_zero_iff.mp hk) hs
        | succ k => exact ⟨k, Nat.lt_of_succ_lt_succ hlt, (firstAt_succ_iff.mp hk).2, rfl, rfl⟩

theorem firstSuccess_eq_none_iff :
    firstSuccess attempt n s = none ↔ ∀ k < n, ¬ P (next^[k] s) := by
  induction n generalizing s with
  | zero => simp [firstSuccess]
  | succ n ih =>
    rw [firstSuccess, hattempt]
    by_cases hs : P s
    · rw [if_pos hs]
      constructor
      · intro h
        cases h
      · intro h
        exact absurd hs (h 0 n.succ_pos)
    · rw [if_neg hs]
      dsimp only
      rw [ih]
      constructor
      · intro h k hk
        cases k with
        | zero => exact hs
        | succ k => exact h k (Nat.lt_of_succ_lt_succ hk)
      · intro h k hk
        exact h (k + 1) (Nat.succ_lt_succ hk)

variable [Scalar K]

omit hattempt in
def firstOf (attempt : σ → Option K × σ) (n : Nat) (s : σ) : Except (GenerationError K) (K × σ) :=
  match firstSuccess attempt n s with
  | some found => .ok found
  | none => .error (.attemptsExhausted n)

omit [Scalar K] in
theorem firstOf_eq_ok_iff : firstOf attempt n s = .ok (t, s') ↔
    ∃ k < n, FirstAt P next s k ∧ t = value (next^[k] s) ∧ s' = next^[k + 1] s := by
  rw [← firstSuccess_eq_some_iff hattempt, firstOf]
  cases firstSuccess attempt n s with
  | none => simp
  | some found => simp

omit [Scalar K] in
theorem firstOf_eq_error_iff {e : GenerationError K} : firstOf attempt n s = .error e ↔
    e = .attemptsExhausted n ∧ ∀ k < n, ¬ P (next^[k] s) := by
  rw [firstOf, ← firstSuccess_eq_none_iff hattempt]
  cases firstSuccess attempt n s with
  | none => simp [eq_comm]
  | some found => simp

end Orbit

section Attempts

variable {K σ : Type} [Field K] [LinearOrder K] (g : Generator K) (source : Source K σ) (s : σ)

theorem isInside_iff {lo hi t : K} : isInside lo hi t = true ↔ lo < t ∧ t < hi := by
  simp [isInside]

/-- The smeared decay time of the attempt that starts at `s`. -/
def time : K :=
  (source.decay s).1 + (g.response.offset + g.response.width * (source.normal (source.decay s).2).1)

/-- Where the two draws of a time leave the source. -/
def drawn : σ := (source.normal (source.decay s).2).2

/-- The uniform number that the time is kept or dropped by. -/
def decision : K := (source.uniform (drawn source s)).1

/-- The attempt comes as far as to draw its uniform number. -/
def IsCompared : Prop :=
  g.tmin < g.time source s ∧ g.time source s < g.tmax ∧
    g.response.profile.value (g.time source s) ≤ g.maximum

def IsAccepted : Prop :=
  g.tmin < g.time source s ∧ g.time source s < g.tmax ∧
    decision source s * g.maximum < g.response.profile.value (g.time source s) ∧
    g.response.profile.value (g.time source s) ≤ g.maximum

instance : DecidablePred (g.IsCompared source) :=
  fun _ => inferInstanceAs (Decidable (_ ∧ _ ∧ _))

instance : DecidablePred (g.IsAccepted source) :=
  fun _ => inferInstanceAs (Decidable (_ ∧ _ ∧ _ ∧ _))

def next : σ :=
  if g.IsCompared source s then (source.uniform (drawn source s)).2 else drawn source s

theorem attempt_eq : g.attempt source s =
    (if g.IsAccepted source s then some (g.time source s) else none, g.next source s) := by
  have hunfold : g.attempt source s =
      if !isInside g.tmin g.tmax (g.time source s) then (none, drawn source s)
      else if g.maximum < g.response.profile.value (g.time source s) then (none, drawn source s)
      else (if decision source s * g.maximum < g.response.profile.value (g.time source s)
        then some (g.time source s) else none, (source.uniform (drawn source s)).2) := rfl
  rw [hunfold]
  by_cases hinside : g.tmin < g.time source s ∧ g.time source s < g.tmax
  · by_cases hle : g.response.profile.value (g.time source s) ≤ g.maximum
    · simp [isInside, next, IsCompared, IsAccepted, hinside, hle, not_lt.mpr hle]
    · simp [isInside, next, IsCompared, IsAccepted, hinside, hle, not_le.mp hle]
  · -- The attempt ends with the time and draws no uniform number.
    have hcompared : ¬ g.IsCompared source s := fun h => hinside ⟨h.1, h.2.1⟩
    have haccepted : ¬ g.IsAccepted source s := fun h => hinside ⟨h.1, h.2.1⟩
    rw [if_pos (by simpa [isInside, imp_iff_not_or] using hinside), next, if_neg hcompared, if_neg haccepted]

variable {g source s}

theorem IsAccepted.of_eq_maximum [IsStrictOrderedRing K] (hpos : 0 < g.maximum) (hdecision : decision source s < 1)
    (hmin : g.tmin < g.time source s) (hmax : g.time source s < g.tmax)
    (heq : g.response.profile.value (g.time source s) = g.maximum) : g.IsAccepted source s :=
  ⟨hmin, hmax, (mul_lt_of_lt_one_left hpos hdecision).trans_eq heq.symm, heq.le⟩

theorem not_isAccepted_of_nonpos [IsStrictOrderedRing K] (hpos : 0 < g.maximum) (hdecision : 0 ≤ decision source s)
    (hnonpos : g.response.profile.value (g.time source s) ≤ 0) : ¬ g.IsAccepted source s := by
  rintro ⟨-, -, hlt, -⟩
  exact (mul_nonneg hdecision hpos.le).not_gt (hlt.trans_le hnonpos)

variable {attempts : Nat}

theorem generate_eq_ok_iff {t : K} {s' : σ} : g.generate source attempts s = .ok (t, s') ↔
    ∃ k < attempts, FirstAt (g.IsAccepted source) (g.next source) s k ∧
      t = g.time source ((g.next source)^[k] s) ∧ s' = (g.next source)^[k + 1] s :=
  firstOf_eq_ok_iff (g.attempt_eq source)

theorem generate_eq_error_iff {e : GenerationError K} : g.generate source attempts s = .error e ↔
    e = .attemptsExhausted attempts ∧ ∀ k < attempts, ¬ g.IsAccepted source ((g.next source)^[k] s) :=
  firstOf_eq_error_iff (g.attempt_eq source)

theorem ofResponse_eq_ok_iff {r : Response K} {tmin tmax : K} : ofResponse r tmin tmax = .ok g ↔
    tmin < tmax ∧ 0 < r.profile.maxValue ∧ 0 < r.width ∧ g = ⟨r, tmin, tmax, r.profile.maxValue⟩ := by
  unfold ofResponse
  by_cases hrange : tmin < tmax <;> by_cases hmaximum : 0 < r.profile.maxValue <;>
    by_cases hwidth : 0 < r.width <;> simp [isRange, isPositive, hrange, hmaximum, hwidth, eq_comm]

theorem generateMany_add (n k : Nat) : generateMany g source attempts (n + k) s = do
    let (ts, s) ← generateMany g source attempts n s
    let (us, s) ← generateMany g source attempts k s
    return (ts ++ us, s) := by
  induction n generalizing s with
  | zero =>
    rw [Nat.zero_add]
    exact (bind_pure _).symm
  | succ n ih =>
    rw [Nat.add_right_comm, generateMany, generateMany, bind_assoc]
    refine bind_congr fun found => ?_
    dsimp only
    rw [ih, bind_assoc, bind_assoc]
    refine bind_congr fun found' => ?_
    simp

def draw (r : Response K) (source : Source K σ) (s : σ) : K := r.offset + r.width * (source.normal s).1

def afterDraw (source : Source K σ) (s : σ) : σ := (source.normal s).2

def IsDrawnInside (r : Response K) (lo hi : K) (source : Source K σ) (s : σ) : Prop :=
  lo < draw r source s ∧ draw r source s < hi

instance (r : Response K) (lo hi : K) (source : Source K σ) : DecidablePred (IsDrawnInside r lo hi source) :=
  fun _ => inferInstanceAs (Decidable (_ ∧ _))

theorem resolution_eq {r : Response K} {lo hi : K} (hrange : lo < hi) (hwidth : 0 < r.width) :
    resolution r lo hi source s = firstOf (fun s =>
      (if IsDrawnInside r lo hi source s then some (draw r source s) else none, afterDraw source s))
      defaultAttempts s := by
  unfold resolution
  rw [if_neg (by simp [isRange, hrange]), if_neg (by simp [isPositive, hwidth])]
  exact congrArg (firstOf · defaultAttempts s)
    (funext fun _ => Prod.ext (if_congr isInside_iff rfl rfl) rfl)

theorem resolution_eq_ok_iff {r : Response K} {lo hi : K} (hrange : lo < hi) (hwidth : 0 < r.width)
    {t : K} {s' : σ} : resolution r lo hi source s = .ok (t, s') ↔
      ∃ k < defaultAttempts, FirstAt (IsDrawnInside r lo hi source) (afterDraw source) s k ∧
        t = draw r source ((afterDraw source)^[k] s) ∧ s' = (afterDraw source)^[k + 1] s := by
  rw [resolution_eq hrange hwidth]
  exact firstOf_eq_ok_iff (fun _ => rfl)

theorem resolution_eq_error_iff {r : Response K} {lo hi : K} (hrange : lo < hi) (hwidth : 0 < r.width)
    {e : GenerationError K} : resolution r lo hi source s = .error e ↔
      e = .attemptsExhausted defaultAttempts ∧
        ∀ k < defaultAttempts, ¬ IsDrawnInside r lo hi source ((afterDraw source)^[k] s) := by
  rw [resolution_eq hrange hwidth]
  exact firstOf_eq_error_iff (fun _ => rfl)

/-- For every source of draws a generator gives the time of the first of its attempts that is accepted, or none of them is. Times at the
maximum are always accepted and times without efficiency never. Many draws may be cut anywhere, and a draw from the resolution
alone is the first of its attempts that lies inside the range. -/
theorem generates_first_accepted [IsStrictOrderedRing K] {r : Response K} {tmin tmax : K}
    (hg : ofResponse r tmin tmax = .ok g) {source : Source K σ}
    (huniform : ∀ s, 0 ≤ (source.uniform s).1 ∧ (source.uniform s).1 < 1) :
    g = ⟨r, tmin, tmax, r.profile.maxValue⟩ ∧
    (∀ attempts s t s', g.generate source attempts s = .ok (t, s') ↔
      ∃ k < attempts, FirstAt (g.IsAccepted source) (g.next source) s k ∧
        t = g.time source ((g.next source)^[k] s) ∧ s' = (g.next source)^[k + 1] s) ∧
    (∀ attempts s e, g.generate source attempts s = .error e ↔
      e = .attemptsExhausted attempts ∧ ∀ k < attempts, ¬ g.IsAccepted source ((g.next source)^[k] s)) ∧
    (∀ s, tmin < g.time source s → g.time source s < tmax →
      r.profile.value (g.time source s) = r.profile.maxValue → g.IsAccepted source s) ∧
    (∀ s, r.profile.value (g.time source s) ≤ 0 → ¬ g.IsAccepted source s) ∧
    (∀ attempts n k s, generateMany g source attempts (n + k) s = do
      let (ts, s) ← generateMany g source attempts n s
      let (us, s) ← generateMany g source attempts k s
      return (ts ++ us, s)) ∧
    ∀ (r : Response K) (lo hi : K), lo < hi → 0 < r.width → ∀ s,
      (∀ t s', resolution r lo hi source s = .ok (t, s') ↔
        ∃ k < 1000000, FirstAt (IsDrawnInside r lo hi source) (afterDraw source) s k ∧
          t = draw r source ((afterDraw source)^[k] s) ∧ s' = (afterDraw source)^[k + 1] s) ∧
      ∀ e, resolution r lo hi source s = .error e ↔ e = .attemptsExhausted 1000000 ∧
        ∀ k < 1000000, ¬ IsDrawnInside r lo hi source ((afterDraw source)^[k] s) := by
  obtain ⟨-, hpos, -, rfl⟩ := ofResponse_eq_ok_iff.mp hg
  refine ⟨rfl, fun _ _ _ _ => generate_eq_ok_iff, fun _ _ _ => generate_eq_error_iff, ?_, ?_,
    fun _ n k _ => generateMany_add n k, ?_⟩
  · intro s hmin hmax heq
    exact .of_eq_maximum hpos (huniform _).2 hmin hmax heq
  · intro s hnonpos
    exact not_isAccepted_of_nonpos hpos (huniform _).1 hnonpos
  · intro r lo hi hrange hwidth s
    exact ⟨fun _ _ => resolution_eq_ok_iff hrange hwidth, fun _ => resolution_eq_error_iff hrange hwidth⟩

/-- Three attempts of which the first is outside the range and draws no uniform number. The second loses the comparison, and the
third is accepted at the maximum. -/
theorem generates_third_of_three :
    let r : Response ℚ := ⟨.steps ⟨[0, 1, 2], [1 / 2, 1], false⟩, 1, 0⟩
    let source : Source ℚ (List ℚ × Nat) :=
      ⟨fun s => (s.1.headD 0, s.1.tail, s.2), fun s => (0, s),
        fun s => (if s.2 = 0 then 3 / 4 else 7 / 8, s.1, s.2 + 1)⟩
    ∃ g, ofResponse r 0 2 = .ok g ∧ (∀ s, 0 ≤ (source.uniform s).1 ∧ (source.uniform s).1 < 1) ∧
      g.generate source 3 ([3, 1 / 2, 3 / 2, 1], 0) = .ok (3 / 2, [1], 2) ∧
      g.generate source 2 ([3, 1 / 2, 3 / 2, 1], 0) = .error (.attemptsExhausted 2) := by
  intro r source
  let g : Generator ℚ := ⟨r, 0, 2, 1⟩
  have hmax : r.profile.maxValue = 1 := by decide +kernel
  have hg : ofResponse r 0 2 = .ok g :=
    ofResponse_eq_ok_iff.mpr ⟨two_pos, hmax ▸ one_pos, one_pos, by rw [hmax]⟩
  have huniform : ∀ s, 0 ≤ (source.uniform s).1 ∧ (source.uniform s).1 < 1 := by
    intro s
    dsimp only [source]
    split <;> norm_num
  have hrejected : ∀ k < 2, ¬ g.IsAccepted source ((g.next source)^[k] ([3, 1 / 2, 3 / 2, 1], 0)) := by
    decide +kernel
  have haccepted : g.IsAccepted source ((g.next source)^[2] ([3, 1 / 2, 3 / 2, 1], 0)) := by
    decide +kernel
  obtain ⟨-, hok, herror, -⟩ := generates_first_accepted hg huniform
  refine ⟨g, hg, huniform, (hok _ _ _ _).mpr ⟨2, by decide, ⟨haccepted, hrejected⟩, ?_, ?_⟩,
    (herror _ _ _).mpr ⟨rfl, hrejected⟩⟩
  · decide +kernel
  · decide +kernel

end Attempts

end Generator
end LifetimeEfficiency
