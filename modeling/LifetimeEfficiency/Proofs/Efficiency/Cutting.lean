import LifetimeEfficiency.Proofs.Efficiency.Constants
import Mathlib.Data.List.InsertIdx
/-!
# Cut bins

A bin that is cut at an inner point keeps its height on both sides. Later bins move up by one, and a range that reached into
the bin reaches into both parts, but nothing that is asked of the step function changes.
-/
namespace LifetimeEfficiency

section Lists

variable {α β : Type}

theorem zip_tail_append (below : List α) (a : α) (rest : List α) :
    (below ++ a :: rest).zip (below ++ a :: rest).tail =
      below.zip (below ++ [a]).tail ++ (a :: rest).zip rest := by
  have htail : (below ++ a :: rest).tail = (below ++ [a]).tail ++ rest := by
    cases below <;> simp
  rw [htail, List.zip_append (by simp)]

theorem insertIdx_append_succ (before after : List α) (a x : α) :
    (before ++ a :: after).insertIdx (before.length + 1) x = before ++ a :: x :: after := by
  simpa using insertIdx_length_append (before ++ [a]) after x

theorem exists_append_of_getElem? {l : List α} {i : Nat} {a : α} (h : l[i]? = some a) :
    ∃ before after, l = before ++ a :: after ∧ before.length = i := by
  obtain ⟨hi, rfl⟩ := List.getElem?_eq_some_iff.mp h
  refine ⟨l.take i, l.drop (i + 1), ?_, List.length_take_of_le hi.le⟩
  rw [List.getElem_cons_drop, List.take_append_drop]

theorem getD_repeated_of_le {before after : List α} {x d : α} {i : Nat} (hi : i ≤ before.length) :
    (before ++ x :: x :: after).getD i d = (before ++ x :: after).getD i d := by
  rcases Nat.lt_or_eq_of_le hi with hlt | rfl
  · rw [List.getD_append _ _ _ _ hlt, List.getD_append _ _ _ _ hlt]
  · simp

theorem getD_repeated_succ (before after : List α) (x d : α) (i : Nat) :
    (before ++ x :: x :: after).getD (before.length + i + 1) d = (before ++ x :: after).getD (before.length + i) d := by
  rw [List.getD_append_right _ _ _ _ (by omega), List.getD_append_right _ _ _ _ (by omega)]
  simp [Nat.add_assoc]

end Lists

variable {K : Type} [Field K] [LinearOrder K]

namespace Steps

/-- One bin is cut in two at a point inside it. -/
inductive Cut : Steps K → Steps K → Prop
  | mk {below above : List K} {a x b : K} {lower upper : List K} {h : K} {extended : Bool}
      (hlen : lower.length = below.length) (hleft : a < x) (hright : x < b) :
      Cut ⟨below ++ a :: b :: above, lower ++ h :: upper, extended⟩
        ⟨below ++ a :: x :: b :: above, lower ++ h :: h :: upper, extended⟩

variable {s s' : Steps K}

theorem Cut.first_eq (hs : Cut s s') : s'.first = s.first := by
  cases hs with
  | @mk below => cases below <;> rfl

theorem Cut.last_eq (hs : Cut s s') : s'.last = s.last := by
  cases hs with
  | mk => simp [last]

theorem Cut.firstHeight_eq (hs : Cut s s') : s'.firstHeight = s.firstHeight := by
  cases hs with
  | @mk _ _ _ _ _ lower => cases lower <;> rfl

theorem Cut.lastHeight_eq (hs : Cut s s') : s'.lastHeight = s.lastHeight := by
  cases hs with
  | mk => simp [lastHeight]

theorem Cut.maxAbs_eq (hs : Cut s s') : s'.maxAbs = s.maxAbs := by
  cases hs with
  | mk => simp [maxAbs, Scalar.largest]

theorem Cut.height_eq (hs : Cut s s') (t : K) :
    s'.heights.getD (bracket s'.boundaries t) 0 = s.heights.getD (bracket s.boundaries t) 0 := by
  -- Either the points up to `t` end before the cut or inside the bin, or both lists go on behind it in the same
  -- way.
  cases hs with
  | @mk below above a x b lower upper h extended hlen hleft hright =>
    dsimp only [bracket]
    rw [List.dropLast_append_cons, List.dropLast_append_cons, List.takeWhile_append, List.takeWhile_append]
    -- only a point above all that lie below the bin gets to see the new boundary
    by_cases hall : (below.takeWhile fun p => p ≤ t).length = below.length
    · rw [if_pos hall, if_pos hall]
      by_cases ha : a ≤ t
      · by_cases hx : x ≤ t
        · have hbehind := getD_repeated_succ lower upper h 0
            ((b :: above).dropLast.takeWhile fun p => p ≤ t).length
          simpa [ha, hx, hlen, Nat.add_assoc] using hbehind
        · have hb : ¬ b ≤ t := fun hb => hx (hright.le.trans hb)
          have hrest : ((b :: above).dropLast.takeWhile fun p => p ≤ t) = [] := by
            cases above <;> simp [hb]
          simp [ha, hx, hrest, ← hlen]
      · have hinside : below.length - 1 ≤ lower.length := by omega
        simpa [ha] using getD_repeated_of_le hinside
    · rw [if_neg hall, if_neg hall]
      have hbefore := (List.takeWhile_sublist (l := below) fun p => decide (p ≤ t)).length_le
      exact getD_repeated_of_le (by omega)

omit [Field K] in
theorem Cut.extended_eq (hs : Cut s s') : s'.extended = s.extended := by
  cases hs with
  | mk => rfl

theorem Cut.value_eq (hs : Cut s s') (t : K) : s'.value t = s.value t := by
  have hheight := hs.height_eq t
  rw [← Scalar.exact_zero] at hheight
  rw [value, value, hs.first_eq, hs.last_eq, hs.firstHeight_eq, hs.lastHeight_eq, hs.extended_eq, hheight]

omit [Field K] in
theorem Cut.bins_eq (hs : Cut s s') : ∃ left right a x b h, a < x ∧ x < b ∧
    s.bins = left ++ ((a, b), h) :: right ∧ s'.bins = left ++ ((a, x), h) :: ((x, b), h) :: right := by
  cases hs with
  | @mk below above a x b lower upper h extended hlen hleft hright =>
    have hpairs : (below.zip (below ++ [a]).tail).length = lower.length := by
      simp [hlen]
    refine ⟨(below.zip (below ++ [a]).tail).zip lower, ((b :: above).zip above).zip upper, a, x, b, h, hleft, hright, ?_, ?_⟩
    · rw [bins, zip_tail_append, List.zip_append hpairs]
      rfl
    · rw [bins, zip_tail_append, List.zip_append hpairs]
      rfl

omit [Field K] in
/-- A sum to which both parts of a cut bin contribute what the whole bin did. -/
theorem Cut.sum_bins {G : Type} [AddCommMonoid G] (hs : Cut s s') {f : (K × K) × K → G}
    (hf : ∀ a x b h, a < x → x < b → f ((a, x), h) + f ((x, b), h) = f ((a, b), h)) :
    (s'.bins.map f).sum = (s.bins.map f).sum := by
  obtain ⟨left, right, a, x, b, h, hleft, hright, hbins, hbins'⟩ := hs.bins_eq
  have hcut := hf a x b h hleft hright
  rw [hbins, hbins']
  simp only [List.map_append, List.map_cons, List.sum_append, List.sum_cons]
  rw [← add_assoc (f ((a, x), h)), hcut]

theorem Cut.area_eq [IsStrictOrderedRing K] (hs : Cut s s') (lo hi : K) : s'.area lo hi = s.area lo hi := by
  rw [area, area, Scalar.sum_eq, Scalar.sum_eq]
  apply hs.sum_bins
  intro a x b h hleft hright
  have hparts := overlap_add (h * ·) hleft.le hright.le lo hi
  simpa only [Scalar.exact_zero, overlap_area_eq] using hparts

theorem Cut.integral?_eq [IsStrictOrderedRing K] (hs : Cut s s') (lo hi : K) : s'.integral? lo hi = s.integral? lo hi := by
  rw [integral?, integral?, hs.extended_eq, hs.first_eq, hs.last_eq, hs.area_eq, hs.area_eq]

theorem Cut.accepted (hs : Cut s s') (h : s.Accepted) : s'.Accepted := by
  cases hs with
  | @mk below above a x b lower upper height extended hlen hleft hright =>
    obtain ⟨⟨-, hsorted⟩, hheights⟩ := h
    refine ⟨⟨?_, ?_⟩, ?_⟩
    · simp only [Knots.size, knots, List.length_append, List.length_cons]
      omega
    · rw [knots, ← List.isChain_iff_pairwise, List.isChain_append_cons_cons] at hsorted ⊢
      exact ⟨hsorted.1, hleft, List.isChain_cons_cons.mpr ⟨hright, hsorted.2.2⟩⟩
    · simp only [List.length_append, List.length_cons] at hheights ⊢
      omega

omit [Field K] in
theorem cut_insertIdx {boundaries heights : List K} (extended : Bool) {i : Nat} {a x b h : K}
    (ha : boundaries[i]? = some a) (hb : boundaries[i + 1]? = some b) (hheight : heights[i]? = some h)
    (hleft : a < x) (hright : x < b) :
    Cut ⟨boundaries, heights, extended⟩
      ⟨boundaries.insertIdx (i + 1) x, heights.insertIdx (i + 1) h, extended⟩ := by
  obtain ⟨below, rest, rfl, rfl⟩ := exists_append_of_getElem? ha
  obtain ⟨lower, upper, rfl, hlen⟩ := exists_append_of_getElem? hheight
  cases rest with
  | nil => simp at hb
  | cons b' above =>
    obtain rfl : b' = b := by simpa using hb
    rw [insertIdx_append_succ, ← hlen, insertIdx_append_succ]
    exact .mk hlen hleft hright

end Steps

namespace Profile

/-- Nothing that can be asked of two profiles tells them apart, whatever functions the decay is smeared with. -/
structure Alike (p p' : Profile ℝ) : Prop where
  value : ∀ x, p'.value x = p.value x
  integral : ∀ lo hi, p'.integral? lo hi = p.integral? lo hi
  convolution : ∀ (s : Smearing ℝ) (c : Convolution ℝ) (umin umax : ℝ),
    p'.convolution s c umin umax = p.convolution s c umin umax
  maxValue : p'.maxValue = p.maxValue

/-- The outer segments are the same, and a segment that the cut divides adds what its parts add. -/
theorem total_of_cut {d d' : Steps ℝ} (hd : d.Cut d') (s : Smearing ℝ) (c : Convolution ℝ) (lo hi : ℝ) :
    c.total s (d'.segments lo hi) = c.total s (d.segments lo hi) := by
  apply Complex.toComplex_injective
  rw [c.toComplex_total, c.toComplex_total, Steps.segments, Steps.segments, hd.first_eq, hd.last_eq,
    hd.firstHeight_eq, hd.lastHeight_eq, hd.extended_eq]
  simp only [List.map_append, List.sum_append, List.map_map]
  congr 2
  apply hd.sum_bins
  intro a x b h hleft hright
  have hparts := overlap_add (c.primitive s (Cubic.constant h)) hleft.le hright.le lo hi
  simpa only [Function.comp_apply, Convolution.increment, ← not_le, ite_not] using hparts

theorem alike_of_cut {d d' : Steps ℝ} (hd : d.Cut d') : (steps d).Alike (steps d') where
  value := hd.value_eq
  integral := hd.integral?_eq
  convolution s c umin umax := by
    rw [convolution, convolution]
    simp only [segments, total_of_cut hd]
  maxValue := hd.maxAbs_eq

end Profile

namespace Thresholds

variable {t t' : Thresholds K K} {limit fraction : K}

theorem heights_eq (t : Thresholds K K) (ht : t.boundaries.length = t.fractions.length + 2) :
    t.steps.heights = List.zipWith (fun fraction ab => fraction / (ab.2 - ab.1)) (t.fractions ++ [t.lastFraction])
      (t.boundaries.zip t.boundaries.tail) := by
  have hlen := t.length_heights
  apply List.ext_getElem
  · simp [hlen, ht]
  · intro i hi hi'
    have hshare : i < (t.fractions ++ [t.lastFraction]).length := (lt_min_iff.mp (List.length_zipWith ▸ hi')).1
    have hlt : i + 1 < t.boundaries.length := Nat.add_lt_of_lt_sub (hlen ▸ hi)
    rw [getElem_heights, height, fraction_eq_getElem t hshare, List.getD_eq_getElem _ _ hlt,
      List.getD_eq_getElem _ _ (Nat.lt_of_succ_lt hlt)]
    simp

/-- The bins from a boundary on have their heights from the fractions that are left there. -/
theorem steps_split {below rest front back : List K} {a : K} (ht : t.boundaries.length = t.fractions.length + 2)
    (hboundaries : t.boundaries = below ++ a :: rest)
    (hfractions : t.fractions ++ [t.lastFraction] = front ++ back) (hlen : front.length = below.length) :
    t.steps = ⟨below ++ a :: rest, List.zipWith (fun fraction ab => fraction / (ab.2 - ab.1)) front
      (below.zip (below ++ [a]).tail) ++ List.zipWith (fun fraction ab => fraction / (ab.2 - ab.1)) back
        ((a :: rest).zip rest), false⟩ := by
  have hpairs : front.length = (below.zip (below ++ [a]).tail).length := by
    simp [hlen]
  have hheights := t.heights_eq ht
  rw [hboundaries, hfractions, zip_tail_append, List.zipWith_append hpairs] at hheights
  rw [← hheights, ← hboundaries]
  rfl

/-- The open bin keeps its height on both sides of the limit if the fraction is in proportion. -/
theorem cut_close (ht : t.Laid) (hclose : t.close limit fraction = .ok t')
    (hfraction : fraction = t.lastFraction * (limit - t.previous) / (t.high - t.previous)) :
    t.steps.Cut t'.steps := by
  have hlaid := ht.close hclose
  obtain ⟨⟨-, hright⟩, hleft, -⟩ := close_eq_ok_iff.mp hclose
  obtain ⟨low, high, closed, rfl⟩ := exists_ofClosed ht.length
  obtain rfl := eq_of_close hclose
  rw [previous_ofClosed] at hleft hfraction
  rw [high_ofClosed] at hright hfraction
  -- the boundaries up to the one at which the open bin begins
  have hlast : (low :: closed.map Prod.fst).getLast? = some ((closed.map Prod.fst).getLastD low) := by
    rw [List.getLast?_cons, List.getLastD_eq_getLast?]
  obtain ⟨below, hbelow⟩ := List.getLast?_eq_some_iff.mp hlast
  set a := (closed.map Prod.fst).getLastD low
  set rest := (ofClosed low high closed).lastFraction with hrest
  have hlen : (ofClosed low high closed).fractions.length = below.length := by
    simpa [ofClosed] using congrArg List.length hbelow
  have hboundaries : (ofClosed low high closed).boundaries = below ++ a :: [high] := by
    rw [ofClosed, hbelow, List.append_assoc]
    rfl
  have hboundaries' : (ofClosed low high (closed ++ [(limit, fraction)])).boundaries = below ++ a :: [limit, high] := by
    rw [ofClosed, List.map_append, ← List.cons_append, hbelow, List.append_assoc, List.append_assoc]
    rfl
  have hfractions : (ofClosed low high (closed ++ [(limit, fraction)])).fractions =
      (ofClosed low high closed).fractions ++ [fraction] := List.map_append
  have hrest' : (ofClosed low high (closed ++ [(limit, fraction)])).lastFraction = rest - fraction := by
    rw [hrest, lastFraction, lastFraction, hfractions, Scalar.sum_eq, Scalar.sum_eq, List.sum_append, List.sum_singleton]
    ring
  have hwidth : high - a ≠ 0 := sub_ne_zero.mpr (hleft.trans hright).ne'
  have hheight : fraction / (limit - a) = rest / (high - a) := by
    have hne : limit - a ≠ 0 := sub_ne_zero.mpr hleft.ne'
    rw [hfraction]
    field_simp
  have hheight' : (rest - fraction) / (high - limit) = rest / (high - a) := by
    have hne : high - limit ≠ 0 := sub_ne_zero.mpr hright.ne'
    rw [hfraction]
    field_simp
    ring
  rw [steps_split ht.length hboundaries rfl hlen, steps_split hlaid.length hboundaries' (by
    rw [hfractions, hrest', List.append_assoc]) hlen]
  simp only [List.zip_cons_cons, List.zip_nil_right, List.zipWith_cons_cons, List.zipWith_nil_left, List.singleton_append,
    hheight, hheight']
  refine .mk ?_ hleft hright
  simp [hlen]

theorem close_map {α β : Type} (f : α → β) {t t' : Thresholds K α} {fraction : α}
    (h : t.close limit fraction = .ok t') : (t.map f).close limit (f fraction) = .ok (t'.map f) := by
  obtain ⟨hrange, hprevious, rfl⟩ := close_eq_ok_iff.mp h
  exact close_eq_ok_iff.mpr ⟨hrange, hprevious, by simp [map]⟩

theorem low_le_previous {α : Type} {t : Thresholds K α} (ht : t.Laid) : t.low ≤ t.previous := by
  obtain ⟨low, high, closed, rfl⟩ := exists_ofClosed ht.length
  have hlimits := (List.pairwise_append.mp ht.sorted).1
  rw [previous_ofClosed, low_ofClosed]
  rcases List.mem_cons.mp (List.getLastD_mem_cons : (closed.map Prod.fst).getLastD low ∈ low :: closed.map Prod.fst) with
    heq | hmem
  · exact heq.ge
  · exact (List.rel_of_pairwise_cons hlimits hmem).le

end Thresholds

namespace Efficiency

variable {α : Type} {e : Efficiency ℝ α}

/-- A binned efficiency with a new boundary inside a bin, and the coefficient of the bin on both sides of it, is like the
old one at any values of the coefficients. So is a threshold efficiency with a new limit, at values that give the new bin
its part of the last fraction. -/
theorem refined_alike (he : e.Constructed) :
    (∀ boundaries heights, e.shape = .binned boundaries heights → ∀ (i : Nat) a x b h,
      boundaries[i]? = some a → boundaries[i + 1]? = some b → heights[i]? = some h → a < x → x < b →
        ∃ e', ofBins e.name (boundaries.insertIdx (i + 1) x) (heights.insertIdx (i + 1) h) = .ok e' ∧
          ∀ value, (e.profile value).Alike (e'.profile value)) ∧
    ∀ t, e.shape = .threshold t → ∀ limit fraction, t.previous < limit → limit < t.high →
      ∃ e', e.addThreshold? limit fraction = some (.ok e') ∧
        ∀ value, value fraction = (t.map value).lastFraction * (limit - t.previous) / (t.high - t.previous) →
          (e.profile value).Alike (e'.profile value) := by
  obtain ⟨name, shape⟩ := e
  constructor
  · intro boundaries heights hshape i a x b h ha hb hheight hleft hright
    cases hshape
    have hcut (value : α → ℝ) : Steps.Cut ⟨boundaries, heights.map value, true⟩
        ⟨boundaries.insertIdx (i + 1) x, (heights.insertIdx (i + 1) h).map value, true⟩ := by
      rw [List.map_insertIdx]
      exact Steps.cut_insertIdx true ha hb (by rw [List.getElem?_map, hheight]; rfl) hleft hright
    have haccepted := (hcut fun _ => 0).accepted (he.profile _)
    have hlen := haccepted.heights
    rw [List.length_map] at hlen
    refine ⟨_, ofBins_of_increasing haccepted.increasing (by dsimp only at hlen; omega), ?_⟩
    intro value
    exact Profile.alike_of_cut (hcut value)
  · intro t hshape limit fraction hleft hright
    cases hshape
    have hlow : t.low < limit := (Thresholds.low_le_previous he.accepted).trans_lt hleft
    have hclose : t.close limit fraction = .ok _ := Thresholds.close_eq_ok_iff.mpr ⟨⟨hlow, hright⟩, hleft, rfl⟩
    refine ⟨_, addThreshold?_eq_ok_iff.mpr ⟨t, _, rfl, hclose, rfl⟩, ?_⟩
    intro value hfraction
    exact Profile.alike_of_cut (Thresholds.cut_close (he.accepted.map value) (Thresholds.close_map value hclose) hfraction)

theorem refined_alike_at_last_bins :
    let bins : Efficiency ℝ ℝ := ⟨"bins", .binned [0, 1, 3] [2, -1]⟩
    let bins' : Efficiency ℝ ℝ := ⟨"bins", .binned [0, 1, 2, 3] [2, -1, -1]⟩
    let steps : Efficiency ℝ ℝ := ⟨"steps", .threshold ⟨[0, 1, 4], [1 / 2]⟩⟩
    let steps' : Efficiency ℝ ℝ := ⟨"steps", .threshold ⟨[0, 1, 2, 4], [1 / 2, 1 / 6]⟩⟩
    bins.Constructed ∧ ofBins "bins" [0, 1, 2, 3] [2, -1, -1] = .ok bins' ∧
      (bins.profile id).Alike (bins'.profile id) ∧
      steps.Constructed ∧ steps.addThreshold? 2 (1 / 6) = some (.ok steps') ∧
      (steps.profile id).Alike (steps'.profile id) := by
  intro bins bins' steps steps'
  have hbins : bins.Constructed := .ofBins (ofBins_of_increasing ⟨by decide, by norm_num⟩ rfl)
  have hbins' : ofBins "bins" [0, 1, 2, 3] [2, -1, -1] = .ok bins' :=
    ofBins_of_increasing ⟨by decide, by norm_num⟩ rfl
  obtain ⟨b, hb, hcut⟩ := (refined_alike hbins).1 _ _ rfl 1 1 2 3 (-1) rfl rfl rfl (by norm_num) (by norm_num)
  have hb' : b = bins' := Except.ok.inj (hb.symm.trans hbins')
  have hrange : ofRange "steps" 0 4 = .ok (⟨"steps", .threshold ⟨[0, 4], []⟩⟩ : Efficiency ℝ ℝ) := by
    simp [ofRange, Thresholds.ofRange]
  have hfirst : (⟨[0, 4], []⟩ : Thresholds ℝ ℝ).close 1 (1 / 2) = .ok ⟨[0, 1, 4], [1 / 2]⟩ :=
    Thresholds.close_eq_ok_iff.mpr ⟨⟨one_pos, (by norm_num : (1 : ℝ) < 4)⟩, one_pos, rfl⟩
  have hsteps : steps.Constructed :=
    .addThreshold (.ofRange hrange) (addThreshold?_eq_ok_iff.mpr ⟨_, _, rfl, hfirst, rfl⟩)
  have hsecond : (⟨[0, 1, 4], [1 / 2]⟩ : Thresholds ℝ ℝ).close 2 (1 / 6) = .ok ⟨[0, 1, 2, 4], [1 / 2, 1 / 6]⟩ :=
    Thresholds.close_eq_ok_iff.mpr ⟨⟨two_pos, (by norm_num : (2 : ℝ) < 4)⟩, one_lt_two, rfl⟩
  have hsteps' : steps.addThreshold? 2 (1 / 6) = some (.ok steps') :=
    addThreshold?_eq_ok_iff.mpr ⟨_, _, rfl, hsecond, rfl⟩
  have hrest : (⟨[0, 1, 4], [1 / 2]⟩ : Thresholds ℝ ℝ).lastFraction = 1 / 2 := by
    rw [Thresholds.lastFraction, Scalar.exact_one, Scalar.sum_eq]
    norm_num [Thresholds.fractions]
  obtain ⟨r, hr, hclosed⟩ := (refined_alike hsteps).2 _ rfl 2 (1 / 6) one_lt_two (by norm_num : (2 : ℝ) < 4)
  have hr' : r = steps' := Except.ok.inj (Option.some.inj (hr.symm.trans hsteps'))
  refine ⟨hbins, hbins', hb' ▸ hcut id, hsteps, hsteps', hr' ▸ hclosed id ?_⟩
  calc
    (1 / 6 : ℝ) = 1 / 2 * (2 - 1) / (4 - 1) := by norm_num
    _ = (⟨[0, 1, 4], [1 / 2]⟩ : Thresholds ℝ ℝ).lastFraction * (2 - 1) / (4 - 1) := by rw [hrest]

end Efficiency

end LifetimeEfficiency
