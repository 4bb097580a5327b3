import Mathlib

/-!
# ByteTurn.Lib.Table

Finite keyed tables: association lists that carry the distinctness of their
keys (`AList`), with two things a model of a mutable map needs on top of
Mathlib's API:

* `total f t` — the sum of a quantity over all entries, with its exact change
  under insertion, replacement and erasure;
* `mapValues g t` — the same update applied to every entry.

The module names no program.
-/

universe u v w

/-- A finite table from `κ` to `ν`. -/
abbrev Table (κ : Type u) (ν : Type v) := AList fun _ : κ => ν

namespace Table

variable {κ : Type u} {ν : Type v} {μ : Type w}

/-! ## sizes and sums -/

/-- Number of entries. -/
def size (t : Table κ ν) : Nat := t.entries.length

/-- The sum of `f` over the values of a table. -/
def total (f : ν → Nat) (t : Table κ ν) : Nat := (t.entries.map fun e => f e.2).sum

@[simp] theorem size_empty : size (∅ : Table κ ν) = 0 := rfl

@[simp] theorem total_empty (f : ν → Nat) : total f (∅ : Table κ ν) = 0 := rfl

/-- A table of size zero has no entry. -/
theorem eq_empty_of_size (t : Table κ ν) (h : t.size = 0) : t = ∅ :=
  AList.ext (List.length_eq_zero_iff.mp h)

theorem size_eq_total (t : Table κ ν) : t.size = total (fun _ => 1) t := by
  simp [size, total]

section Lookup

variable [DecidableEq κ] {k k' : κ} {v v' : ν} {t : Table κ ν}

/-- Erasing a present key removes exactly its summand. -/
theorem total_erase (f : ν → Nat) (h : t.lookup k = some v) :
    total f (t.erase k) + f v = total f t := by
  obtain ⟨l, hl⟩ := t
  have hmem : k ∈ l.keys := List.dlookup_isSome.mp (by rw [show l.dlookup k = some v from h]; rfl)
  obtain ⟨b, l₁, l₂, hk, rfl, herase⟩ := List.exists_of_kerase hmem
  have hb : b = v := by
    have h' : (l₁ ++ ⟨k, b⟩ :: l₂).dlookup k = some v := h
    rw [List.dlookup_append, List.dlookup_eq_none.mpr hk, List.dlookup_cons_eq] at h'
    exact Option.some.inj h'
  subst hb
  simp only [total, AList.erase, herase, List.map_append, List.map_cons, List.sum_append,
    List.sum_cons]
  omega

/-- Inserting at an absent key adds exactly the new summand. -/
theorem total_insert_of_none (f : ν → Nat) (h : t.lookup k = none) :
    total f (t.insert k v) = total f t + f v := by
  simp only [total, AList.entries_insert_of_notMem (AList.lookup_eq_none.mp h), List.map_cons,
    List.sum_cons]
  omega

/-- Inserting at a present key exchanges its summand. -/
theorem total_insert_of_some (f : ν → Nat) (h : t.lookup k = some v') :
    total f (t.insert k v) + f v' = total f t + f v := by
  have he : total f (t.insert k v) = f v + total f (t.erase k) := by
    simp [total, AList.entries_insert, AList.erase]
  have := total_erase f h
  omega

/-- A single summand is bounded by the total. -/
theorem le_total (f : ν → Nat) (h : t.lookup k = some v) : f v ≤ total f t := by
  have := total_erase f h
  omega

theorem size_erase (h : t.lookup k = some v) : size (t.erase k) + 1 = size t := by
  rw [size_eq_total, size_eq_total]
  exact total_erase (fun _ => 1) h

theorem size_insert_of_none (h : t.lookup k = none) : size (t.insert k v) = size t + 1 := by
  rw [size_eq_total, size_eq_total]
  exact total_insert_of_none (fun _ => 1) h

/-- Lookup after insertion, by cases on the key. -/
theorem lookup_insert' : (t.insert k' v).lookup k = if k = k' then some v else t.lookup k := by
  split
  · next h => subst h; exact AList.lookup_insert t
  · next h => exact AList.lookup_insert_ne h

/-- Lookup after erasure, by cases on the key. -/
theorem lookup_erase' : (t.erase k').lookup k = if k = k' then none else t.lookup k := by
  split
  · next h => subst h; exact AList.lookup_erase _ t
  · next h => exact AList.lookup_erase_ne h

/-! ### a default for absent keys -/

variable {d : ν}

theorem getD_insert : ((t.insert k' v).lookup k).getD d = if k = k' then v else (t.lookup k).getD d := by
  rw [lookup_insert']
  split <;> rfl

theorem getD_erase : ((t.erase k').lookup k).getD d = if k = k' then d else (t.lookup k).getD d := by
  rw [lookup_erase']
  split <;> rfl

/-- Inserting exchanges a summand, where the default counts for nothing. -/
theorem total_insert_getD (f : ν → Nat) (hd : f d = 0) (k : κ) (v : ν) (t : Table κ ν) :
    total f (t.insert k v) + f ((t.lookup k).getD d) = total f t + f v := by
  cases h : t.lookup k with
  | none => rw [total_insert_of_none f h, Option.getD_none, hd]; rfl
  | some v' => exact total_insert_of_some f h

theorem total_erase_getD (f : ν → Nat) (hd : f d = 0) (k : κ) (t : Table κ ν) :
    total f (t.erase k) + f ((t.lookup k).getD d) = total f t := by
  cases h : t.lookup k with
  | none =>
      have hsame : t.erase k = t := AList.ext (List.kerase_of_notMem_keys (AList.lookup_eq_none.mp h))
      rw [hsame, Option.getD_none, hd]
      rfl
  | some v => exact total_erase f h

/-- A quantity that is zero at every key sums to zero. -/
theorem total_eq_zero_of_getD (f : ν → Nat) (h : ∀ k, f ((t.lookup k).getD d) = 0) :
    total f t = 0 := by
  rw [total, List.sum_eq_zero_iff_forall_eq_nat]
  intro n hn
  obtain ⟨⟨k, v⟩, he, rfl⟩ := List.mem_map.mp hn
  have hl : t.lookup k = some v := (List.mem_dlookup_iff t.nodupKeys).mpr he
  have hk := h k
  rwa [hl] at hk

/-- A quantity that is zero at every other key sums to its value at one. -/
theorem total_eq_of_single (f : ν → Nat) (hd : f d = 0) (k : κ)
    (h : ∀ k', k' ≠ k → f ((t.lookup k').getD d) = 0) : total f t = f ((t.lookup k).getD d) := by
  have hsum := total_erase_getD f hd k t
  have hzero : total f (t.erase k) = 0 := by
    refine total_eq_zero_of_getD (d := d) f fun k' => ?_
    rw [getD_erase]
    split
    · exact hd
    · next hk => exact h k' hk
  omega

theorem getD_le_total (f : ν → Nat) (hd : f d = 0) (k : κ) (t : Table κ ν) :
    f ((t.lookup k).getD d) ≤ total f t := by
  have := total_erase_getD f hd k t
  omega

end Lookup

/-! ## one update for every entry -/

/-- Apply `g` to every value. -/
def mapValues (g : ν → μ) (t : Table κ ν) : Table κ μ where
  entries := t.entries.map fun e => ⟨e.1, g e.2⟩
  nodupKeys := by
    have h := t.nodupKeys
    simp only [List.NodupKeys, List.keys, List.map_map, Function.comp_def] at h ⊢
    exact h

private theorem dlookup_map [DecidableEq κ] (g : ν → μ) (l : List (Sigma fun _ : κ => ν)) (k : κ) :
    List.dlookup (β := fun _ => μ) k (l.map fun e => ⟨e.1, g e.2⟩) =
      (List.dlookup (β := fun _ => ν) k l).map g := by
  induction l with
  | nil => rfl
  | cons e l ih =>
      obtain ⟨k', v⟩ := e
      by_cases hk : k = k'
      · subst hk; simp
      · rw [List.map_cons, List.dlookup_cons_ne _ _ hk, List.dlookup_cons_ne _ _ hk, ih]

@[simp] theorem lookup_mapValues [DecidableEq κ] (g : ν → μ) (t : Table κ ν) (k : κ) :
    (t.mapValues g).lookup k = (t.lookup k).map g := by
  obtain ⟨l, hl⟩ := t
  have hmap : List.dlookup (β := fun _ => μ) k (l.map fun e => ⟨e.1, g e.2⟩) =
      (List.dlookup (β := fun _ => ν) k l).map g := dlookup_map g l k
  exact hmap

theorem total_mapValues (f : μ → Nat) (g : ν → μ) (t : Table κ ν) :
    total f (t.mapValues g) = total (fun v => f (g v)) t := by
  simp [total, mapValues, Function.comp_def]

theorem getD_mapValues [DecidableEq κ] (g : ν → ν) (t : Table κ ν) (k : κ) {d : ν} (hd : g d = d) :
    ((t.mapValues g).lookup k).getD d = g ((t.lookup k).getD d) := by
  rw [lookup_mapValues]
  cases t.lookup k with
  | none => exact hd.symm
  | some v => rfl

/-! ## the entries of some keys -/

/-- Keep the entries whose key satisfies `p`. -/
def filterKeys (p : κ → Bool) (t : Table κ ν) : Table κ ν where
  entries := t.entries.filter fun e => p e.1
  nodupKeys := t.nodupKeys.sublist List.filter_sublist

private theorem dlookup_filter [DecidableEq κ] (p : κ → Bool) (l : List (Sigma fun _ : κ => ν))
    (k : κ) : (l.filter fun e => p e.1).dlookup k = if p k then l.dlookup k else none := by
  induction l with
  | nil => simp
  | cons e l ih =>
      obtain ⟨k', v⟩ := e
      rw [List.filter_cons]
      by_cases hk : k = k'
      · subst hk
        by_cases hp : p k = true
        · simp only [hp, if_true, List.dlookup_cons_eq]
        · simp only [hp, if_false, Bool.false_eq_true, ih]
      · rw [List.dlookup_cons_ne _ _ hk, ← ih]
        split
        · rw [List.dlookup_cons_ne _ _ hk]
        · rfl

@[simp] theorem lookup_filterKeys [DecidableEq κ] (p : κ → Bool) (t : Table κ ν) (k : κ) :
    (t.filterKeys p).lookup k = if p k then t.lookup k else none := by
  obtain ⟨l, hl⟩ := t
  exact dlookup_filter p l k

theorem erase_eq_filterKeys [DecidableEq κ] (t : Table κ ν) (k : κ) :
    t.erase k = t.filterKeys fun k' => !decide (k' = k) := by
  refine AList.ext ?_
  obtain ⟨l, hl⟩ := t
  show l.kerase k = l.filter fun e => !decide (e.1 = k)
  induction l with
  | nil => rfl
  | cons e l ih =>
      obtain ⟨hout, hrest⟩ := List.nodupKeys_cons.mp hl
      rw [List.filter_cons]
      by_cases hk : e.1 = k
      · have hsame : (l.filter fun e => !decide (e.1 = k)) = l := by
          refine List.filter_eq_self.mpr fun e' he' => ?_
          have hne : e'.1 ≠ k := fun heq =>
            hout (List.mem_map.mpr ⟨e', he', heq.trans hk.symm⟩)
          simp [hne]
        rw [List.kerase_cons_eq hk.symm, hsame, if_neg (by simp [hk])]
      · rw [List.kerase_cons_ne (Ne.symm hk), ih hrest, if_pos (by simp [hk])]

/-- A table with the entries of two others that share no key has as many. -/
theorem size_of_split [DecidableEq κ] {t l r : Table κ ν} {p : κ → Bool}
    (h : ∀ k, t.lookup k = if p k then l.lookup k else r.lookup k)
    (hl : ∀ k, (l.lookup k).isSome = true → p k = true)
    (hr : ∀ k, (r.lookup k).isSome = true → p k = false) : t.size = l.size + r.size := by
  have hmem (u : Table κ ν) (k : κ) : k ∈ u.keys ↔ (u.lookup k).isSome = true :=
    AList.lookup_isSome.symm
  have hperm : t.keys.Perm (l.keys ++ r.keys) := by
    refine (List.perm_ext_iff_of_nodup t.keys_nodup (List.nodup_append.mpr
      ⟨l.keys_nodup, r.keys_nodup, fun a ha b hb hab => ?_⟩)).mpr fun k => ?_
    · have hleft := hl a ((hmem l a).mp ha)
      rw [hab, hr b ((hmem r b).mp hb)] at hleft
      contradiction
    · rw [List.mem_append, hmem, hmem, hmem, h]
      cases hk : p k with
      | true =>
          have hnot : ¬ (r.lookup k).isSome = true := fun hs => by
            rw [hr k hs] at hk
            contradiction
          simp [hnot]
      | false =>
          have hnot : ¬ (l.lookup k).isSome = true := fun hs => by
            rw [hl k hs] at hk
            contradiction
          simp [hnot]
  have hlength := hperm.length_eq
  simp only [List.length_append, AList.keys, List.length_map, List.keys] at hlength
  exact hlength

/-- A quantity that is zero everywhere sums to zero. -/
theorem total_eq_zero {f : ν → Nat} (h : ∀ v, f v = 0) (t : Table κ ν) : total f t = 0 := by
  simp [total, h]

end Table
