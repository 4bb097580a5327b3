import ByteTurn.MetricsRegistry

/-!
# ByteTurn.MetricsRegistry.Histograms

What the buckets of a histogram count, over every sequence of `observe` calls.

The calls before the first one with bounds find no layout, and are all counted in
the one bucket there is (`run_early`); the layout keeps that bucket as its first
one, and from then on each value is counted where it belongs (`run_later`).  So
the buckets are right exactly when the early values belong to the first bucket.
The series of `prometheus_text` adds the buckets up, and is right of the bounds it
prints exactly when no value is between a bound and what is printed of it.
-/

namespace ByteTurn

open Buckets

/-! ## calls -/

/-- A call of `observe`. -/
structure ObserveCall where
  name : Bytes
  value : Option ℚ
  bounds : List ℚ := defaultBounds
  deriving DecidableEq

/-- The registry after a sequence of calls. -/
def MetricsRegistry.observeAll (m : MetricsRegistry) (calls : List ObserveCall) : MetricsRegistry :=
  calls.foldl (fun m call => m.observe call.name call.value call.bounds) m

/-- The values that reach the histogram of a name, each with the bounds of its call. -/
def reaching (name : Bytes) (calls : List ObserveCall) : List (ℚ × List ℚ) :=
  calls.filterMap fun call =>
    if metricName call.name = metricName name then call.value.map (·, call.bounds) else none

/-- The values observed on a name. -/
def observedValues (name : Bytes) (calls : List ObserveCall) : List ℚ :=
  (reaching name calls).map (·.1)

/-- The values observed before the first call that brings bounds. -/
def earlyValues (name : Bytes) (calls : List ObserveCall) : List ℚ :=
  ((reaching name calls).takeWhile fun call => call.2 = []).map (·.1)

/-- The bounds of the first call that brings any. -/
def firstBounds (name : Bytes) (calls : List ObserveCall) : List ℚ :=
  (((reaching name calls).dropWhile fun call => call.2 = []).head?.map (·.2)).getD []

/-! ## what is claimed of a histogram -/

/-- The buckets count the values between their bounds. -/
structure Histogram.Counts (values : List ℚ) (h : Histogram) : Prop where
  length : h.bucketCounts.length = h.bounds.length + 1
  increasing : h.bounds.Pairwise (· < ·)
  buckets : ∀ (i n : Nat), h.bucketCounts[i]? = some n → n = values.countP (inBucket h.bounds i)
  total : h.bucketCounts.sum = h.count

/-- A bucket line of a name: label and cumulative count. -/
def bucketOf (name : Bytes) : PrometheusLine → Option (Option ℚ × Nat)
  | .bucket n le cumulative => if n = name then some (le, cumulative) else none
  | _ => none

/-- The bucket lines of a name. -/
def seriesOf (name : Bytes) (text : List PrometheusLine) : List (Option ℚ × Nat) :=
  text.filterMap (bucketOf name)

/-- The series of a name adds up the values up to each bound it prints. -/
structure SeriesCounts (values bounds : List ℚ) (name : Bytes) (text : List PrometheusLine) :
    Prop where
  bounds : (seriesOf name text).map (·.1) = bounds.map (fun b => some (printed b)) ++ [none]
  le : ∀ (b : ℚ) (n : Nat), (some b, n) ∈ seriesOf name text → n = values.countP (· ≤ b)
  monotone : ((seriesOf name text).map (·.2)).Pairwise (· ≤ ·)
  inf : ∀ n k : Nat, (none, n) ∈ seriesOf name text → .count name k ∈ text → n = k

/-! ## one histogram -/

namespace Histogram

/-- The values, with the bounds of their calls, observed one after the other. -/
def run (h : Histogram) (calls : List (ℚ × List ℚ)) : Histogram :=
  calls.foldl (fun h call => h.observe call.1 call.2) h

/-- A histogram that has been observed. -/
structure Laid (h : Histogram) : Prop where
  length : h.bucketCounts.length = h.bounds.length + 1
  increasing : h.bounds.Pairwise (· < ·)
  total : h.bucketCounts.sum = h.count

theorem length_resize (l : List Nat) (size : Nat) : (resize l size).length = size := by
  rw [resize, List.length_append, List.length_take, List.length_replicate]
  omega

theorem resize_of_le {l : List Nat} {size : Nat} (h : l.length ≤ size) :
    resize l size = l ++ List.replicate (size - l.length) 0 := by
  rw [resize, List.take_of_length_le h]

theorem sum_modify (l : List Nat) {i : Nat} (hi : i < l.length) :
    (l.modify i (· + 1)).sum = l.sum + 1 := by
  induction l generalizing i with
  | nil => cases hi
  | cons n l ih =>
      cases i with
      | zero => rw [List.modify_zero_cons, List.sum_cons, List.sum_cons, Nat.add_right_comm]
      | succ i =>
          rw [List.modify_succ_cons, List.sum_cons, List.sum_cons, ih (Nat.lt_of_succ_lt_succ hi),
            Nat.add_assoc]

/-- A layout keeps what has been counted. -/
theorem layout_laid {h : Histogram} (hh : h = {} ∨ Laid h) (bounds : List ℚ) :
    Laid (h.layout bounds) := by
  unfold layout
  split
  · next hnone =>
    have hlength : h.bucketCounts.length ≤ 1 ∧ h.bucketCounts.sum = h.count := by
      rcases hh with rfl | hlaid
      · exact ⟨Nat.zero_le _, rfl⟩
      · refine ⟨?_, hlaid.total⟩
        rw [hlaid.length, hnone]
        exact Nat.le_refl _
    refine ⟨length_resize _ _, sortUnique_pairwise bounds, ?_⟩
    rw [resize_of_le (hlength.1.trans (Nat.le_add_left 1 _)), List.sum_append]
    simp [hlength.2]
  · next hsome =>
    refine hh.resolve_left fun hempty => hsome ?_
    rw [hempty]

/-- By one step: whatever the bounds, a call leaves a layout and counts once. -/
theorem observe_laid {h : Histogram} (hh : h = {} ∨ Laid h) (value : ℚ) (bounds : List ℚ) :
    Laid (h.observe value bounds) := by
  have hlaid := layout_laid hh bounds
  have hplace := lowerBound_le_length (h.layout bounds).bounds value
  refine ⟨?_, hlaid.increasing, ?_⟩
  · show ((h.layout bounds).bucketCounts.modify _ _).length = _
    rw [List.length_modify, hlaid.length]
    rfl
  · show ((h.layout bounds).bucketCounts.modify _ _).sum = (h.layout bounds).count + 1
    rw [sum_modify _ (by rw [hlaid.length]; omega), hlaid.total]

/-- A sequence of calls that is not empty. -/
theorem run_laid {calls : List (ℚ × List ℚ)} (hne : calls ≠ []) : Laid (run {} calls) := by
  induction calls using List.reverseRecOn with
  | nil => exact absurd rfl hne
  | append_singleton calls call ih =>
      rw [run, List.foldl_append]
      refine observe_laid ?_ call.1 call.2
      by_cases hnil : calls = []
      · exact .inl (by rw [hnil]; rfl)
      · exact .inr (ih hnil)

/-- Calls without bounds count in the one bucket there is. -/
theorem run_early {calls : List (ℚ × List ℚ)} (hearly : ∀ call ∈ calls, call.2 = []) :
    (run {} calls).bounds = [] ∧
      (run {} calls).bucketCounts = if calls = [] then [] else [calls.length] := by
  induction calls using List.reverseRecOn with
  | nil => exact ⟨rfl, rfl⟩
  | append_singleton calls call ih =>
      obtain ⟨hbounds, hcounts⟩ := ih fun c hc => hearly c (List.mem_append_left _ hc)
      have hcall : call.2 = [] := hearly call (by simp)
      rw [run, List.foldl_append]
      show ((run {} calls).observe call.1 call.2).bounds = [] ∧ _
      have hlayout : (run {} calls).layout call.2 = { run {} calls with
          bounds := [], bucketCounts := resize (run {} calls).bucketCounts 1 } := by
        rw [layout, if_pos hbounds, hcall]
        rfl
      refine ⟨by rw [observe, hlayout], ?_⟩
      have hobserved : ((run {} calls).observe call.1 call.2).bucketCounts =
          (resize (run {} calls).bucketCounts 1).modify 0 (· + 1) := by
        rw [observe, hlayout]
        rfl
      rw [if_neg (List.append_ne_nil_of_right_ne_nil _ (List.cons_ne_nil _ _))]
      show ((run {} calls).observe call.1 call.2).bucketCounts = _
      rw [hobserved, hcounts, List.length_append]
      by_cases hnil : calls = []
      · rw [if_pos hnil, hnil]
        rfl
      · rw [if_neg hnil]
        rfl

/-- Once there are bounds, each value counts where it belongs. -/
theorem run_later {h : Histogram} (hbounds : h.bounds ≠ []) (calls : List (ℚ × List ℚ)) :
    (run h calls).bounds = h.bounds ∧ ∀ i : Nat, (run h calls).bucketCounts[i]? =
      h.bucketCounts[i]?.map (· + (calls.map (·.1)).countP fun v => lowerBound h.bounds v = i) := by
  induction calls using List.reverseRecOn with
  | nil => exact ⟨rfl, fun i => by simp [run]⟩
  | append_singleton calls call ih =>
      obtain ⟨hsame, hcounts⟩ := ih
      have hlayout : (run h calls).layout call.2 = run h calls := by
        rw [layout, if_neg (by rwa [hsame])]
      rw [run, List.foldl_append]
      show ((run h calls).observe call.1 call.2).bounds = _ ∧ ∀ i : Nat,
        ((run h calls).observe call.1 call.2).bucketCounts[i]? = _
      rw [observe, hlayout]
      refine ⟨hsame, fun i => ?_⟩
      show ((run h calls).bucketCounts.modify _ _)[i]? = _
      rw [List.getElem?_modify, hcounts, hsame, List.map_append, List.countP_append]
      cases h.bucketCounts[i]? with
      | none => split <;> rfl
      | some n =>
          by_cases hi : lowerBound h.bounds call.1 = i <;> simp [hi, Nat.add_assoc]

theorem observe_layout {h : Histogram} {bounds : List ℚ} (hne : bounds ≠ []) (value : ℚ) :
    (h.layout bounds).observe value bounds = h.observe value bounds := by
  have hagain : (h.layout bounds).layout bounds = h.layout bounds := by
    by_cases hnone : h.bounds = []
    · rw [layout, if_neg]
      rw [layout, if_pos hnone]
      exact mt sortUnique_eq_nil.mp hne
    · rw [layout, layout, if_neg hnone, if_neg hnone]
  rw [observe, observe, hagain]

/-- The layout keeps the one bucket as its first. -/
theorem layout_counts {h : Histogram} {bounds : List ℚ} {count i n : Nat} (hnone : h.bounds = [])
    (hcounts : h.bucketCounts = if count = 0 then [] else [count])
    (hn : (h.layout bounds).bucketCounts[i]? = some n) : n = if i = 0 then count else 0 := by
  have hzeros : ∀ {k j m : Nat}, (List.replicate k 0)[j]? = some m → m = 0 := fun hm =>
    List.eq_of_mem_replicate (List.mem_of_getElem? hm)
  rw [layout, if_pos hnone] at hn
  replace hn : (resize h.bucketCounts ((sortUnique bounds).length + 1))[i]? = some n := hn
  rw [hcounts] at hn
  by_cases hcount : count = 0
  · rw [if_pos hcount, resize_of_le (Nat.zero_le _)] at hn
    rw [hzeros hn, hcount, ite_self]
  · rw [if_neg hcount, resize_of_le (Nat.le_add_left 1 _)] at hn
    cases i with
    | zero => exact (Option.some.inj hn).symm
    | succ i => exact hzeros hn

/-- The buckets after a call that brought bounds: the early values are all in the first. -/
theorem run_buckets {early rest : List (ℚ × List ℚ)} {call : ℚ × List ℚ}
    (hearly : ∀ c ∈ early, c.2 = []) (hcall : call.2 ≠ []) :
    (run {} (early ++ call :: rest)).bounds = sortUnique call.2 ∧
      ∀ i n : Nat, (run {} (early ++ call :: rest)).bucketCounts[i]? = some n →
        n = (((call :: rest).map (·.1)).countP fun v => lowerBound (sortUnique call.2) v = i) +
          if i = 0 then early.length else 0 := by
  obtain ⟨hnone, hcounts⟩ := run_early hearly
  have hbounds : ((run {} early).layout call.2).bounds = sortUnique call.2 := by
    rw [layout, if_pos hnone]
  have hrun : run {} (early ++ call :: rest) =
      run ((run {} early).layout call.2) (call :: rest) := by
    rw [run, List.foldl_append, run, List.foldl_cons, List.foldl_cons, observe_layout hcall]
    rfl
  have hne : ((run {} early).layout call.2).bounds ≠ [] := by
    rw [hbounds]
    exact mt sortUnique_eq_nil.mp hcall
  obtain ⟨hsame, hlater⟩ := run_later hne (call :: rest)
  rw [hbounds] at hsame hlater
  rw [hrun]
  refine ⟨hsame, fun i n hn => ?_⟩
  rw [hlater] at hn
  obtain ⟨m, hm, rfl⟩ := Option.map_eq_some_iff.mp hn
  have hone : (run {} early).bucketCounts =
      if early.length = 0 then [] else [early.length] := by
    rw [hcounts]
    simp only [List.length_eq_zero_iff]
  rw [layout_counts hnone hone hm, Nat.add_comm]

/-- The least of the bounds is the first. -/
theorem lowerBound_eq_zero_iff {bounds : List ℚ} (hne : bounds ≠ []) (v : ℚ) :
    lowerBound (sortUnique bounds) v = 0 ↔ ∀ b ∈ bounds, v ≤ b := by
  cases hfirst : (sortUnique bounds)[0]? with
  | none =>
      have hnil := List.getElem?_eq_none_iff.mp hfirst
      exact absurd (sortUnique_eq_nil.mp (List.length_eq_zero_iff.mp (Nat.le_zero.mp hnil))) hne
  | some b =>
      obtain ⟨hmem, hleast⟩ := sortUnique_head hfirst
      rw [← Nat.le_zero, lowerBound_le_iff (sortUnique_pairwise bounds) hfirst]
      exact ⟨fun hv a ha => hv.trans (hleast a ha), fun hv => hv b hmem⟩

/-- A call brought bounds: the buckets are right when the early values belong to the first. -/
theorem counts_of_later {early rest : List (ℚ × List ℚ)} {call : ℚ × List ℚ}
    (hearly : ∀ c ∈ early, c.2 = []) (hcall : call.2 ≠ []) :
    Counts ((early ++ call :: rest).map (·.1)) (run {} (early ++ call :: rest)) ↔
      ∀ v ∈ early.map (·.1), lowerBound (sortUnique call.2) v = 0 := by
  have hlaid : Laid (run {} (early ++ call :: rest)) :=
    run_laid (List.append_ne_nil_of_right_ne_nil _ (List.cons_ne_nil _ _))
  obtain ⟨hbounds, hcounts⟩ := @run_buckets early rest call hearly hcall
  have hplace : ∀ {i : Nat}, i ≤ (sortUnique call.2).length → ∀ v,
      (inBucket (sortUnique call.2) i v = true ↔ lowerBound (sortUnique call.2) v = i) :=
    fun hi v => inBucket_iff (sortUnique_pairwise call.2) hi
  have hbucket : ∀ {i n : Nat}, (run {} (early ++ call :: rest)).bucketCounts[i]? = some n →
      i ≤ (sortUnique call.2).length := by
    intro i n hn
    obtain ⟨hi, -⟩ := List.getElem?_eq_some_iff.mp hn
    rw [hlaid.length, hbounds] at hi
    exact Nat.le_of_lt_succ hi
  -- a bucket as the claim counts it
  have hclaimed : ∀ {i : Nat}, i ≤ (sortUnique call.2).length →
      ((early ++ call :: rest).map (·.1)).countP (inBucket (sortUnique call.2) i) =
        ((early.map (·.1)).countP fun v => lowerBound (sortUnique call.2) v = i) +
          (((call :: rest).map (·.1)).countP fun v => lowerBound (sortUnique call.2) v = i) := by
    intro i hi
    rw [List.map_append, List.countP_append]
    congr 1 <;> exact List.countP_congr fun v _ => by simp [hplace hi v]
  constructor
  · intro h
    obtain ⟨n, hn⟩ : ∃ n, (run {} (early ++ call :: rest)).bucketCounts[0]? = some n :=
      ⟨_, List.getElem?_eq_getElem (by rw [hlaid.length]; exact Nat.succ_pos _)⟩
    have hright := h.buckets 0 n hn
    rw [hbounds, hclaimed (Nat.zero_le _), hcounts 0 n hn, if_pos rfl, Nat.add_comm,
      Nat.add_right_cancel_iff] at hright
    have hall := List.countP_eq_length.mp (hright.symm.trans (List.length_map _).symm)
    exact fun v hv => of_decide_eq_true (hall v hv)
  · intro h
    refine ⟨hlaid.length, hlaid.increasing, fun i n hn => ?_, hlaid.total⟩
    rw [hbounds, hclaimed (hbucket hn), hcounts i n hn, Nat.add_comm, Nat.add_right_cancel_iff]
    split
    · next hzero =>
      rw [hzero, List.countP_eq_length.mpr fun v hv => decide_eq_true (h v hv), List.length_map]
    · next hpos =>
      refine (List.countP_eq_zero.mpr fun v hv => ?_).symm
      rw [h v hv]
      simpa using Ne.symm hpos

/-- The first call that is not early brings bounds. -/
theorem dropWhile_head {calls rest : List (ℚ × List ℚ)} {call : ℚ × List ℚ}
    (h : calls.dropWhile (fun call => call.2 = []) = call :: rest) : call.2 ≠ [] := by
  have hhead := List.head?_dropWhile_not (fun call : ℚ × List ℚ => decide (call.2 = [])) calls
  rw [h] at hhead
  simpa using hhead

/-- One histogram: it counts what it claims when it has been observed and the
early values are not above any of the bounds. -/
theorem counts_iff (calls : List (ℚ × List ℚ)) :
    Counts (calls.map (·.1)) (run {} calls) ↔ calls ≠ [] ∧
      ∀ v ∈ (calls.takeWhile fun call => call.2 = []).map (·.1),
        ∀ b ∈ ((calls.dropWhile fun call => call.2 = []).head?.map (·.2)).getD [], v ≤ b := by
  by_cases hnil : calls = []
  · subst hnil
    exact ⟨fun h => absurd h.length (by decide), fun h => absurd rfl h.1⟩
  have hearly : ∀ c ∈ calls.takeWhile fun call => call.2 = [], c.2 = [] := fun c hc => by
    simpa using List.mem_takeWhile_imp hc
  have hsplit : calls.takeWhile (fun call => call.2 = []) ++
      calls.dropWhile (fun call => call.2 = []) = calls := List.takeWhile_append_dropWhile
  generalize calls.takeWhile (fun call => call.2 = []) = early at hearly hsplit ⊢
  cases hlater : calls.dropWhile fun call => call.2 = [] with
  | nil =>
      -- no call brought bounds: the one bucket counts them all
      rw [hlater, List.append_nil] at hsplit
      subst hsplit
      have hlaid := run_laid hnil
      obtain ⟨hbounds, hcounts⟩ := run_early hearly
      rw [if_neg hnil] at hcounts
      refine ⟨fun _ => ⟨hnil, fun v _ b hb => by cases hb⟩, fun _ => ?_⟩
      refine ⟨hlaid.length, hlaid.increasing, fun i n hn => ?_, hlaid.total⟩
      rw [hcounts] at hn
      cases i with
      | zero =>
          obtain rfl := Option.some.inj hn
          have hall : (early.map (·.1)).countP (inBucket [] 0) = (early.map (·.1)).length :=
            List.countP_eq_length.mpr fun v _ => rfl
          rw [hbounds, hall, List.length_map]
      | succ i => cases hn
  | cons call rest =>
      have hcall := dropWhile_head hlater
      rw [hlater] at hsplit
      subst hsplit
      rw [counts_of_later hearly hcall]
      simp only [lowerBound_eq_zero_iff hcall]
      exact ⟨fun h => ⟨hnil, h⟩, fun h => h.2⟩

/-- The bounds of a histogram are those of the first call that brings any. -/
theorem mem_bounds {calls : List (ℚ × List ℚ)} {b : ℚ} : b ∈ (run {} calls).bounds ↔
    b ∈ ((calls.dropWhile fun call => call.2 = []).head?.map (·.2)).getD [] := by
  have hearly : ∀ c ∈ calls.takeWhile fun call => call.2 = [], c.2 = [] := fun c hc => by
    simpa using List.mem_takeWhile_imp hc
  have hsplit : calls.takeWhile (fun call => call.2 = []) ++
      calls.dropWhile (fun call => call.2 = []) = calls := List.takeWhile_append_dropWhile
  generalize calls.takeWhile (fun call => call.2 = []) = early at hearly hsplit
  cases hlater : calls.dropWhile fun call => call.2 = [] with
  | nil =>
      rw [hlater, List.append_nil] at hsplit
      rw [← hsplit, (run_early hearly).1]
      rfl
  | cons call rest =>
      rw [hlater] at hsplit
      rw [← hsplit, (run_buckets hearly (dropWhile_head hlater)).1, mem_sortUnique]
      rfl

/-! ## its lines -/

/-- The label and the cumulative count of each bucket line. -/
def series (h : Histogram) : List (Option ℚ × Nat) :=
  h.bucketCounts.mapIdx fun i _ =>
    (if i = h.bounds.length then none else (h.bounds[i]?).map printed,
      (h.bucketCounts.take (i + 1)).sum)

/-- By induction on the buckets to go. -/
theorem seriesOf_bucketLines (name : Bytes) (bounds : List ℚ) (i cumulative : Nat)
    (counts : List Nat) :
    seriesOf name (bucketLines name bounds i cumulative counts) = counts.mapIdx fun k _ =>
      (if i + k = bounds.length then none else (bounds[i + k]?).map printed,
        cumulative + (counts.take (k + 1)).sum) := by
  induction counts generalizing i cumulative with
  | nil => rfl
  | cons n counts ih =>
      have hfirst : ∀ le c, bucketOf name (.bucket name le c) = some (le, c) :=
        fun _ _ => if_pos rfl
      rw [List.mapIdx_cons, bucketLines, seriesOf, List.filterMap_cons_some (hfirst _ _), ← seriesOf,
        ih]
      refine congrArg₂ _ (by simp) ?_
      simp only [List.take_succ_cons, List.sum_cons, Nat.add_assoc, Nat.add_comm 1]

theorem seriesOf_lines (name : Bytes) (h : Histogram) : seriesOf name (h.lines name) = h.series := by
  have hrest : seriesOf name [.sum name (printed h.sum), .count name h.count] = [] := rfl
  have hlines := seriesOf_bucketLines name h.bounds 0 0 h.bucketCounts
  simp only [Nat.zero_add] at hlines
  rw [lines, seriesOf, List.filterMap_append, ← seriesOf, ← seriesOf, hrest, List.append_nil, hlines,
    series]

theorem mem_bucketLines {name : Bytes} {bounds : List ℚ} {i cumulative : Nat} {counts : List Nat}
    {line : PrometheusLine} (hline : line ∈ bucketLines name bounds i cumulative counts) :
    ∃ le n, line = .bucket name le n := by
  induction counts generalizing i cumulative with
  | nil => cases hline
  | cons n counts ih =>
      rcases List.mem_cons.mp hline with rfl | hrest
      · exact ⟨_, _, rfl⟩
      · exact ih hrest

theorem mem_lines {name : Bytes} {h : Histogram} {line : PrometheusLine}
    (hline : line ∈ h.lines name) :
    (∃ le n, line = .bucket name le n) ∨ line = .sum name (printed h.sum) ∨
      line = .count name h.count := by
  rcases List.mem_append.mp hline with hbucket | hlast
  · exact .inl (mem_bucketLines hbucket)
  · simpa using Or.inr hlast

/-- The lines of another name. -/
theorem seriesOf_lines_ne {name other : Bytes} (hne : other ≠ name) (h : Histogram) :
    seriesOf name (h.lines other) = [] := by
  refine List.filterMap_eq_nil_iff.mpr fun line hline => ?_
  obtain ⟨le, n, rfl⟩ | rfl | rfl := mem_lines hline
  · exact if_neg hne
  · rfl
  · rfl

theorem mem_series_iff {h : Histogram} {le : Option ℚ} {n : Nat} :
    (le, n) ∈ h.series ↔ ∃ i < h.bucketCounts.length,
      le = (if i = h.bounds.length then none else (h.bounds[i]?).map printed) ∧
        n = (h.bucketCounts.take (i + 1)).sum := by
  rw [series, List.mem_mapIdx]
  constructor
  · rintro ⟨i, hi, hpair⟩
    obtain ⟨rfl, rfl⟩ := Prod.mk.inj hpair
    exact ⟨i, hi, rfl, rfl⟩
  · rintro ⟨i, hi, rfl, rfl⟩
    exact ⟨i, hi, rfl⟩

namespace Counts

variable {values : List ℚ} {h : Histogram}

/-- The bucket lines are those of the bounds and of `+Inf`. -/
theorem series_bounds (hcounts : Counts values h) :
    h.series.map (·.1) = h.bounds.map (fun b => some (printed b)) ++ [none] := by
  refine List.ext_getElem? fun i => ?_
  rw [Histogram.series, List.getElem?_map, List.getElem?_mapIdx]
  rcases Nat.lt_trichotomy i h.bounds.length with hlt | heq | hgt
  · have hi : i < h.bucketCounts.length := by rw [hcounts.length]; omega
    rw [List.getElem?_eq_getElem hi, List.getElem?_append_left (by simpa using hlt)]
    simp [Nat.ne_of_lt hlt, List.getElem?_eq_getElem hlt]
  · have hi : i < h.bucketCounts.length := by rw [hcounts.length]; omega
    rw [List.getElem?_eq_getElem hi, List.getElem?_append_right (by simp [heq])]
    simp [heq]
  · have hcount : h.bucketCounts[i]? = none :=
      List.getElem?_eq_none (by rw [hcounts.length]; omega)
    have hbound : (h.bounds.map (fun b => some (printed b)) ++ [none])[i]? = none :=
      List.getElem?_eq_none (by simp; omega)
    rw [hcount, hbound]
    rfl

/-- The buckets up to a bound hold the values up to it. -/
theorem cumulative (hcounts : Counts values h) {i : Nat} {b : ℚ} (hb : h.bounds[i]? = some b) :
    (h.bucketCounts.take (i + 1)).sum = values.countP (· ≤ b) := by
  have hplaces : ∀ i n : Nat, h.bucketCounts[i]? = some n →
      n = values.countP fun v => decide (lowerBound h.bounds v = i) := by
    intro i n hn
    have hi : i ≤ h.bounds.length := by
      obtain ⟨hi, -⟩ := List.getElem?_eq_some_iff.mp hn
      rw [hcounts.length] at hi
      exact Nat.le_of_lt_succ hi
    rw [hcounts.buckets i n hn]
    exact List.countP_congr fun v _ => by simp [inBucket_iff hcounts.increasing hi]
  have hi : i + 1 ≤ h.bucketCounts.length := by
    have hlt := (List.getElem?_eq_some_iff.mp hb).1
    rw [hcounts.length]
    omega
  rw [sum_take_countP hplaces hi]
  refine List.countP_congr fun v _ => ?_
  rw [decide_eq_true_eq, decide_eq_true_eq, Nat.lt_succ_iff,
    lowerBound_le_iff hcounts.increasing hb]

/-- The lines count the values up to the bounds they print exactly when no value is
between a bound and what is printed of it. -/
theorem series_le_iff (hcounts : Counts values h) :
    (∀ (b : ℚ) (n : Nat), (some b, n) ∈ h.series → n = values.countP (· ≤ b)) ↔
      ∀ b ∈ h.bounds, ∀ v ∈ values, (v ≤ printed b ↔ v ≤ b) := by
  constructor
  · intro hle b hb
    obtain ⟨i, hi⟩ := List.mem_iff_getElem?.mp hb
    have hlt := (List.getElem?_eq_some_iff.mp hi).1
    have hline : (some (printed b), (h.bucketCounts.take (i + 1)).sum) ∈ h.series := by
      refine mem_series_iff.mpr ⟨i, by rw [hcounts.length]; omega, ?_, rfl⟩
      rw [if_neg (Nat.ne_of_lt hlt), hi]
      rfl
    exact countP_le_eq_iff.mp ((hle _ _ hline).symm.trans (hcounts.cumulative hi))
  · intro hapart le n hmem
    obtain ⟨i, -, hlabel, rfl⟩ := mem_series_iff.mp hmem
    obtain ⟨b, hb, rfl⟩ : ∃ b, h.bounds[i]? = some b ∧ printed b = le := by
      split at hlabel
      · cases hlabel
      · exact Option.map_eq_some_iff.mp hlabel.symm
    rw [hcounts.cumulative hb]
    exact (countP_le_eq_iff.mpr (hapart b (List.mem_of_getElem? hb))).symm

/-- The lines do not decrease. -/
theorem series_monotone (h : Histogram) : (h.series.map (·.2)).Pairwise (· ≤ ·) := by
  rw [List.pairwise_iff_getElem]
  intro i j hi hj hij
  simp only [Histogram.series, List.getElem_map, List.getElem_mapIdx]
  exact (List.take_sublist_take_left (Nat.succ_le_succ (Nat.le_of_lt hij))).sum_le_sum
    fun _ _ => Nat.zero_le _

/-- The line of `+Inf` counts every value. -/
theorem series_inf (hcounts : Counts values h) {n : Nat} (hmem : (none, n) ∈ h.series) :
    n = h.count := by
  obtain ⟨i, hi, hle, rfl⟩ := mem_series_iff.mp hmem
  have hlast : i = h.bounds.length := by
    split at hle
    · assumption
    · have hnone := List.getElem?_eq_none_iff.mp (Option.map_eq_none_iff.mp hle.symm)
      rw [hcounts.length] at hi
      omega
  rw [List.take_of_length_le (by rw [hcounts.length, hlast]), hcounts.total]

end Counts

end Histogram

/-! ## the registry -/

namespace MetricsRegistry

theorem lookup_observe (m : MetricsRegistry) (name : Bytes) (call : ObserveCall) :
    (m.observe call.name call.value call.bounds).histograms.lookup (metricName name) =
      match if metricName call.name = metricName name then call.value else none with
      | none => m.histograms.lookup (metricName name)
      | some value => some ((m.histogram name).observe value call.bounds) := by
  unfold MetricsRegistry.observe
  cases call.value with
  | none => split <;> simp_all
  | some value =>
      by_cases hname : metricName call.name = metricName name
      · rw [if_pos hname]
        show (m.histograms.insert (metricName call.name) _).lookup (metricName name) = some _
        rw [hname, AList.lookup_insert, histogram]
      · rw [if_neg hname]
        exact AList.lookup_insert_ne (Ne.symm hname)

/-- The histogram of a name after a sequence of calls. -/
theorem lookup_observeAll (name : Bytes) (calls : List ObserveCall) :
    (observeAll {} calls).histograms.lookup (metricName name) =
      if reaching name calls = [] then none else some (Histogram.run {} (reaching name calls)) := by
  induction calls using List.reverseRecOn with
  | nil => rfl
  | append_singleton calls call ih =>
      have hhistogram : (observeAll {} calls).histogram name =
          Histogram.run {} (reaching name calls) := by
        rw [histogram, ih]
        split
        · next hnone =>
          rw [hnone]
          rfl
        · rfl
      have hlookup := lookup_observe (observeAll {} calls) name call
      rw [observeAll, List.foldl_append]
      show ((observeAll {} calls).observe _ _ _).histograms.lookup _ = _
      have hreaching : reaching name (calls ++ [call]) = reaching name calls ++
          ((if metricName call.name = metricName name then call.value else none).map
            (·, call.bounds)).toList := by
        rw [reaching, List.filterMap_append, ← reaching]
        by_cases hname : metricName call.name = metricName name
        · cases hvalue : call.value <;> simp [hname, hvalue]
        · simp [hname]
      rw [hlookup, hhistogram, hreaching]
      cases if metricName call.name = metricName name then call.value else none with
      | none =>
          rw [Option.map_none, Option.toList_none, List.append_nil]
          exact ih
      | some value =>
          rw [Option.map_some, Option.toList_some,
            if_neg (List.append_ne_nil_of_right_ne_nil _ (List.cons_ne_nil _ _)), Histogram.run,
            Histogram.run, List.foldl_append]
          rfl

/-- The series of a name in the lines of a map. -/
theorem seriesOf_flatMap {name : Bytes} {h : Histogram}
    {entries : List (Sigma fun _ : Bytes => Histogram)} (hnodup : entries.NodupKeys)
    (hmem : ⟨name, h⟩ ∈ entries) :
    seriesOf name (entries.flatMap fun e => e.2.lines e.1) = h.series := by
  induction entries with
  | nil => cases hmem
  | cons e rest ih =>
      obtain ⟨hfresh, hrest⟩ := List.nodupKeys_cons.mp hnodup
      rw [List.flatMap_cons, seriesOf, List.filterMap_append, ← seriesOf, ← seriesOf]
      rcases List.mem_cons.mp hmem with rfl | hlater
      · have hnone : seriesOf name (rest.flatMap fun e => e.2.lines e.1) = [] := by
          rw [seriesOf, List.filterMap_flatMap]
          refine List.flatMap_eq_nil_iff.mpr fun e he => ?_
          refine Histogram.seriesOf_lines_ne (fun hname => hfresh ?_) e.2
          show name ∈ rest.keys
          rw [← hname]
          exact List.mem_keys_of_mem he
        rw [hnone, List.append_nil, Histogram.seriesOf_lines]
      · have hne : e.1 ≠ name := by
          intro hname
          have hkey : name ∈ rest.keys := List.mem_keys_of_mem hlater
          exact hfresh (hname ▸ hkey)
        rw [Histogram.seriesOf_lines_ne hne, List.nil_append, ih hrest hlater]

variable {m : MetricsRegistry} {name : Bytes} {h : Histogram}

theorem sortedEntries_perm {ν : Type} (t : Table Bytes ν) : (sortedEntries t).Perm t.entries :=
  List.perm_insertionSort _ _

theorem sortedEntries_nodup {ν : Type} (t : Table Bytes ν) : (sortedEntries t).NodupKeys :=
  (List.perm_nodupKeys (sortedEntries_perm t)).mpr t.nodupKeys

theorem mem_sortedEntries {ν : Type} {t : Table Bytes ν} {v : ν} (hv : t.lookup name = some v) :
    ⟨name, v⟩ ∈ sortedEntries t :=
  (sortedEntries_perm t).mem_iff.mpr (AList.mem_lookup_iff.mp hv)

theorem seriesOf_text (hh : m.histograms.lookup name = some h) :
    seriesOf name m.prometheusText = h.series := by
  have hcounters : seriesOf name
      ((sortedEntries m.counters).map fun e => .counter e.1 e.2) = [] := by
    rw [seriesOf, List.filterMap_map]
    exact List.filterMap_eq_nil_iff.mpr fun _ _ => rfl
  rw [prometheusText, seriesOf, List.filterMap_append, ← seriesOf, ← seriesOf, hcounters,
    List.nil_append, seriesOf_flatMap (sortedEntries_nodup _) (mem_sortedEntries hh)]

theorem count_line {n : Nat} (hh : m.histograms.lookup name = some h)
    (hn : .count name n ∈ m.prometheusText) : n = h.count := by
  rcases List.mem_append.mp hn with hcounter | hline
  · obtain ⟨e, -, he⟩ := List.mem_map.mp hcounter
    cases he
  · obtain ⟨e, he, hline⟩ := List.mem_flatMap.mp hline
    obtain ⟨le, k, hbucket⟩ | hsum | hcount := Histogram.mem_lines hline
    · cases hbucket
    · cases hsum
    · obtain ⟨key, g⟩ := e
      injection hcount with hname hn
      subst hname hn
      have hsame : g = h :=
        (sortedEntries_nodup m.histograms).eq_of_mk_mem he (mem_sortedEntries hh)
      rw [hsame]

end MetricsRegistry

/-- A value without bounds, and then a smaller one with a bound between them. -/
def relaidCalls : List ObserveCall := [
  { name := lit "latency", value := some 7, bounds := [] },
  { name := lit "latency", value := some 3, bounds := [5] }]

/-- A value between two bounds that are both printed as one. -/
def closeCalls : List ObserveCall :=
  [{ name := lit "latency", value := some (1 + 1 / 2 ^ 44), bounds := [1, 1 + 1 / 2 ^ 44] }]

end ByteTurn
