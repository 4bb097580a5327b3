import Mathlib

/-!
# ByteTurn.Lib.Buckets

Counting values between strictly increasing bounds, in any linear order.

A value belongs to the first bound that is not below it (`lowerBound`), or lies
above them all.  `inBucket_iff` says the same by the two bounds around the value,
and `sum_take_countP` adds the buckets up.  `sortUnique` makes increasing bounds
of any list.

The module names no program.
-/

namespace Buckets

variable {α : Type} [LinearOrder α]

/-- Sort, and keep one of each run of equal elements. -/
def sortUnique (l : List α) : List α := (l.insertionSort (· ≤ ·)).destutter (· ≠ ·)

/-- The index of the first bound that is not below the value. -/
def lowerBound (bounds : List α) (v : α) : Nat := (bounds.takeWhile (· < v)).length

/-- The bound before is below the value, and the bound of the bucket is not. -/
def inBucket (bounds : List α) (i : Nat) (v : α) : Bool :=
  (i == 0 || (bounds[i - 1]?).all (· < v)) && (bounds[i]?).all (v ≤ ·)

/-! ## increasing bounds -/

theorem sortUnique_pairwise (l : List α) : (sortUnique l).Pairwise (· < ·) := by
  have hle : (sortUnique l).Pairwise (· ≤ ·) :=
    (List.pairwise_insertionSort (· ≤ ·) l).sublist (List.destutter_sublist _ _)
  have hne : (sortUnique l).IsChain (· ≠ ·) := List.isChain_destutter _ _
  have hlt : (sortUnique l).IsChain (· < ·) := by
    rw [List.isChain_iff_forall_rel_of_append_cons_cons] at hne ⊢
    intro a b before after hsplit
    refine lt_of_le_of_ne ?_ (hne hsplit)
    rw [hsplit] at hle
    exact (List.pairwise_cons.mp (List.pairwise_append.mp hle).2.1).1 b List.mem_cons_self
  exact hlt.pairwise

theorem sortUnique_eq_nil {l : List α} : sortUnique l = [] ↔ l = [] := by
  rw [sortUnique, List.destutter_eq_nil]
  constructor
  · intro h
    have hlength := List.length_insertionSort (· ≤ ·) l
    rw [h] at hlength
    exact List.length_eq_zero_iff.mp hlength.symm
  · rintro rfl
    rfl

/-- Equal elements are left out, and no other ones. -/
theorem mem_sortUnique {l : List α} {a : α} : a ∈ sortUnique l ↔ a ∈ l := by
  have hkept : ∀ (m : List α) (b : α), a ∈ b :: m → a ∈ m.destutter' (· ≠ ·) b := by
    intro m
    induction m with
    | nil => exact fun _ h => h
    | cons c m ih =>
        intro b h
        rw [List.destutter'_cons]
        split
        · exact (List.mem_cons.mp h).elim (fun hab => hab ▸ List.mem_cons_self)
            fun hrest => List.mem_cons_of_mem _ (ih c hrest)
        · next hbc =>
          obtain rfl : b = c := not_not.mp hbc
          exact ih b ((List.mem_cons.mp h).elim (fun hab => hab ▸ List.mem_cons_self) id)
  rw [← (List.perm_insertionSort (· ≤ ·) l).mem_iff, sortUnique]
  refine ⟨fun h => (List.destutter_sublist _ _).subset h, fun h => ?_⟩
  cases hsort : l.insertionSort (· ≤ ·) with
  | nil =>
      rw [hsort] at h
      contradiction
  | cons b m =>
      rw [hsort] at h
      rw [List.destutter_cons']
      exact hkept m b h

/-- The first element is the least one. -/
theorem sortUnique_head {l : List α} {b : α} (hb : (sortUnique l)[0]? = some b) :
    b ∈ l ∧ ∀ a ∈ l, b ≤ a := by
  have hperm := List.perm_insertionSort (· ≤ ·) l
  have hsorted := List.pairwise_insertionSort (· ≤ ·) l
  rw [sortUnique] at hb
  cases hsort : l.insertionSort (· ≤ ·) with
  | nil =>
      rw [hsort] at hb
      cases hb
  | cons a rest =>
      rw [hsort] at hb hperm hsorted
      -- the least element opens the first run
      obtain rfl : a = b := by
        have hfirst : ∀ (m : List α), (m.destutter' (· ≠ ·) a)[0]? = some a := by
          intro m
          induction m with
          | nil => rfl
          | cons c m ih =>
              rw [List.destutter'_cons]
              split
              · rfl
              · exact ih
        rw [List.destutter_cons', hfirst] at hb
        exact Option.some.inj hb
      refine ⟨hperm.mem_iff.mp List.mem_cons_self, fun c hc => ?_⟩
      rcases List.mem_cons.mp (hperm.mem_iff.mpr hc) with rfl | hrest
      · exact le_refl _
      · exact (List.pairwise_cons.mp hsorted).1 c hrest

/-! ## the bucket of a value -/

section Bounds

variable {bounds : List α} {v b : α} {i : Nat}

theorem lowerBound_le_length (bounds : List α) (v : α) : lowerBound bounds v ≤ bounds.length :=
  (List.takeWhile_sublist _).length_le

/-- The bounds below the value come first. -/
theorem lt_lowerBound_iff (h : bounds.Pairwise (· < ·)) (hi : bounds[i]? = some b) :
    i < lowerBound bounds v ↔ b < v := by
  induction bounds generalizing i with
  | nil => cases hi
  | cons c bounds ih =>
      obtain ⟨hc, hrest⟩ := List.pairwise_cons.mp h
      rw [lowerBound, List.takeWhile_cons]
      by_cases hcv : c < v
      · rw [if_pos (decide_eq_true hcv), List.length_cons]
        cases i with
        | zero =>
            obtain rfl := Option.some.inj hi
            exact ⟨fun _ => hcv, fun _ => Nat.succ_pos _⟩
        | succ i =>
            rw [Nat.add_lt_add_iff_right]
            exact ih hrest hi
      · rw [if_neg (by simpa using hcv), List.length_nil]
        refine ⟨fun hlt => absurd hlt (Nat.not_lt_zero _), fun hbv => absurd ?_ hcv⟩
        cases i with
        | zero =>
            obtain rfl := Option.some.inj hi
            exact hbv
        | succ i => exact lt_trans (hc b (List.mem_of_getElem? hi)) hbv

theorem lowerBound_le_iff (h : bounds.Pairwise (· < ·)) (hi : bounds[i]? = some b) :
    lowerBound bounds v ≤ i ↔ v ≤ b := by
  rw [← not_lt, ← not_lt, lt_lowerBound_iff h hi]

/-- A bound is the first one that is not below it. -/
theorem lowerBound_bound (h : bounds.Pairwise (· < ·)) (hi : bounds[i]? = some b) :
    lowerBound bounds b = i := by
  refine Nat.le_antisymm ((lowerBound_le_iff h hi).mpr (le_refl b)) ?_
  by_contra hlt
  obtain ⟨a, ha⟩ : ∃ a, bounds[lowerBound bounds b]? = some a := by
    have hlength := (List.getElem?_eq_some_iff.mp hi).1
    exact ⟨_, List.getElem?_eq_getElem (by omega)⟩
  have hle := (lowerBound_le_iff h ha).mp (le_refl _)
  have hbefore : a < b := by
    obtain ⟨hj, rfl⟩ := List.getElem?_eq_some_iff.mp ha
    obtain ⟨hk, rfl⟩ := List.getElem?_eq_some_iff.mp hi
    exact List.pairwise_iff_getElem.mp h _ _ hj hk (Nat.not_le.mp hlt)
  exact absurd hle (not_le.mpr hbefore)

/-- A value lies between the bounds around its place. -/
theorem inBucket_iff (h : bounds.Pairwise (· < ·)) (hi : i ≤ bounds.length) :
    inBucket bounds i v = true ↔ lowerBound bounds v = i := by
  have hupper : (bounds[i]?).all (v ≤ ·) = true ↔ lowerBound bounds v ≤ i := by
    cases hb : bounds[i]? with
    | none =>
        have hle := List.getElem?_eq_none_iff.mp hb
        exact ⟨fun _ => (lowerBound_le_length bounds v).trans hle, fun _ => rfl⟩
    | some b => simp [lowerBound_le_iff h hb]
  have hlower : (i == 0 || (bounds[i - 1]?).all (· < v)) = true ↔ i ≤ lowerBound bounds v := by
    cases i with
    | zero => simp
    | succ i =>
        obtain ⟨b, hb⟩ : ∃ b, bounds[i]? = some b := ⟨_, List.getElem?_eq_getElem (by omega)⟩
        have hplace : i < lowerBound bounds v ↔ b < v := lt_lowerBound_iff h hb
        rw [Nat.add_sub_cancel, hb, Option.all_some, Nat.succ_le_iff, hplace]
        simp
  rw [inBucket, Bool.and_eq_true, hupper, hlower]
  omega

/-- Two bounds have as many values up to them exactly when no value is between them. -/
theorem countP_le_eq_iff {values : List α} {a b : α} :
    (values.countP fun v => decide (v ≤ a)) = values.countP (fun v => decide (v ≤ b)) ↔
      ∀ v ∈ values, (v ≤ a ↔ v ≤ b) := by
  refine ⟨fun hcount => ?_, fun h => List.countP_congr fun v hv => by simpa using h v hv⟩
  wlog hab : a ≤ b generalizing a b
  · exact fun v hv => (this hcount.symm (le_of_not_ge hab) v hv).symm
  induction values with
  | nil => exact fun v hv => absurd hv List.not_mem_nil
  | cons v values ih =>
      have hmono : (values.countP fun v => decide (v ≤ a)) ≤
          values.countP fun v => decide (v ≤ b) :=
        List.countP_mono_left fun v _ hv => by simpa using le_trans (of_decide_eq_true hv) hab
      rw [List.countP_cons, List.countP_cons] at hcount
      have hhead : v ≤ a ↔ v ≤ b := by
        refine ⟨fun hva => hva.trans hab, fun hvb => ?_⟩
        by_contra hva
        rw [if_pos (decide_eq_true hvb), if_neg (by simpa using hva)] at hcount
        omega
      simp only [hhead, Nat.add_right_cancel_iff] at hcount
      exact List.forall_mem_cons.mpr ⟨hhead, ih hcount⟩

end Bounds

/-! ## adding the buckets up -/

omit [LinearOrder α] in
theorem countP_lt_add_countP_eq (place : α → Nat) (k : Nat) (values : List α) :
    (values.countP fun v => decide (place v < k)) + (values.countP fun v => decide (place v = k)) =
      values.countP fun v => decide (place v < k + 1) := by
  induction values with
  | nil => rfl
  | cons v values ih =>
      simp only [List.countP_cons, decide_eq_true_eq]
      rw [← ih]
      split <;> split <;> split <;> omega

omit [LinearOrder α] in
/-- The first buckets hold the values whose place is among them. -/
theorem sum_take_countP {counts : List Nat} {values : List α} {place : α → Nat}
    (h : ∀ i n, counts[i]? = some n → n = values.countP fun v => decide (place v = i)) {k : Nat}
    (hk : k ≤ counts.length) :
    (counts.take k).sum = values.countP fun v => decide (place v < k) := by
  induction k with
  | zero => simp
  | succ k ih =>
      have hget : counts[k]? = some counts[k] := List.getElem?_eq_getElem hk
      rw [List.take_add_one, hget, Option.toList_some, List.sum_append, ih (by omega),
        List.sum_singleton, h k _ hget]
      exact countP_lt_add_countP_eq place k values

end Buckets
