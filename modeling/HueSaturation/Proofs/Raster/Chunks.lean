import HueSaturation.Proofs.Raster.Pixels

/-!
# Flat lists and their chunks

Things that are `k` elements each stand one after the other in a flat list. The chunks of the list
are these things again, and a list whose length is a multiple of `k` is its chunks in turn.

* `getElem?_flat`    the element at a place of a flat list;
* `chunks_map`       chunks of a list with every element replaced;
* `chunks_flat`      the chunks of a flat list;
* `flat_chunks`      the flat list of chunks;
* `pairs_flat`, `flat_pairs`   the same of chunks of two.
-/

namespace HueSaturation

variable {α β : Type} {k : Nat}

theorem size_flat (f : β → Vector α k) (vs : Array β) :
    (vs.flatMap fun v => (f v).toArray).size = vs.size * k :=
  ((⟨vs, rfl⟩ : Vector β vs.size).flatMap f).size_toArray

theorem element_lt {n i c : Nat} (hi : i < n) (hc : c < k) : i * k + c < n * k := by
  calc i * k + c < i * k + k := by omega
    _ = (i + 1) * k := by rw [Nat.add_mul, Nat.one_mul]
    _ ≤ n * k := Nat.mul_le_mul_right _ hi

theorem getElem?_flat (f : β → Vector α k) (vs : Array β) {i c : Nat} (hi : i < vs.size)
    (hc : c < k) : (vs.flatMap fun v => (f v).toArray)[i * k + c]? = some (f vs[i])[c] := by
  have hflat : (vs.flatMap fun v => (f v).toArray)
      = ((⟨vs, rfl⟩ : Vector β vs.size).flatMap f).toArray := rfl
  rw [hflat, Vector.getElem?_toArray, Vector.getElem?_eq_getElem (element_lt hi hc),
    Vector.getElem_flatMap]
  simp only [Size.place_row hc, Size.place_column hc]
  rfl

theorem getElem_chunks {xs : Array α} {i c : Nat} (hi : i < (chunks k xs).size) (hc : c < k) :
    xs[i * k + c]? = some (chunks k xs)[i][c] := by
  rw [size_chunks] at hi
  rw [Array.getElem?_eq_getElem (place_lt_of_lt_div hi hc)]
  simp only [chunks, Array.getElem_ofFn, Vector.getElem_ofFn]

theorem mem_of_mem_chunks {xs : Array α} {px : Vector α k} (h : px ∈ chunks k xs) {c : Nat}
    (hc : c < k) : px[c] ∈ xs := by
  obtain ⟨i, hi, rfl⟩ := Array.getElem_of_mem h
  exact Array.mem_of_getElem? (getElem_chunks hi hc)

theorem chunks_map (f : α → β) (xs : Array α) :
    chunks k (xs.map f) = (chunks k xs).map (Vector.map f) := by
  refine Array.ext (by simp) fun i hi _ => Vector.ext fun c hc => ?_
  have helement := getElem_chunks hi hc
  have hi' : i < (chunks k xs).size := by simpa using hi
  rw [Array.getElem?_map, getElem_chunks hi' hc] at helement
  rw [← Option.some.inj helement, Array.getElem_map, Vector.getElem_map]

theorem chunks_flat (hk : 0 < k) (f : β → Vector α k) (vs : Array β) :
    chunks k (vs.flatMap fun v => (f v).toArray) = vs.map f := by
  have hsize : (chunks k (vs.flatMap fun v => (f v).toArray)).size = vs.size := by
    rw [size_chunks, size_flat, Nat.mul_div_cancel _ hk]
  refine Array.ext (by rw [hsize, Array.size_map]) fun i hi _ => Vector.ext fun c hc => ?_
  have helement := getElem?_flat f vs (hsize ▸ hi) hc
  rw [getElem_chunks hi hc] at helement
  rw [Option.some.inj helement, Array.getElem_map]

theorem pairs_map (f : α → β) (xs : Array α) :
    pairs (xs.map f) = (pairs xs).map (Prod.map f f) := by
  simp [pairs, chunks_map]

theorem mem_of_mem_pairs {xs : Array α} {p : α × α} (h : p ∈ pairs xs) : p.1 ∈ xs ∧ p.2 ∈ xs := by
  obtain ⟨v, hv, rfl⟩ := Array.mem_map.1 h
  exact ⟨mem_of_mem_chunks hv _, mem_of_mem_chunks hv _⟩

theorem pairs_flat (f g : β → α) (vs : Array β) :
    pairs (vs.flatMap fun v => #[f v, g v]) = vs.map fun v => (f v, g v) := by
  have hchunks := chunks_flat (by decide : 0 < 2) (fun v => #v[f v, g v]) vs
  have hchunks' : chunks 2 (vs.flatMap fun v => #[f v, g v]) = _ := hchunks
  rw [pairs, hchunks', Array.map_map]
  rfl

theorem flat_chunks {n : Nat} {xs : Array α} (hk : 0 < k) (h : xs.size = n * k) :
    (chunks k xs).flatMap Vector.toArray = xs := by
  have hsize : (chunks k xs).size = n := by
    rw [size_chunks, h, Nat.mul_div_cancel _ hk]
  have hflat : ((chunks k xs).flatMap Vector.toArray).size = n * k := by
    rw [← hsize]
    exact size_flat id _
  -- a place is the `j % k`-th one in the chunk of number `j / k`
  refine Array.ext_getElem? fun j => ?_
  by_cases hj : j < n * k
  · have hi : j / k < (chunks k xs).size := by
      rw [hsize]
      exact Nat.div_lt_of_lt_mul (Nat.mul_comm n k ▸ hj)
    have hc : j % k < k := Nat.mod_lt _ hk
    have helement := getElem?_flat id (chunks k xs) hi hc
    rw [id_eq, ← getElem_chunks hi hc, Nat.div_add_mod'] at helement
    exact helement
  · rw [Array.getElem?_eq_none (by omega), Array.getElem?_eq_none (by omega)]

theorem flat_pairs {n : Nat} {xs : Array α} (h : xs.size = n * 2) :
    ((pairs xs).flatMap fun p => #[p.1, p.2]) = xs := by
  have hpair : ∀ v : Vector α 2, #[v[0], v[1]] = v.toArray := by
    intro v
    refine congrArg Vector.toArray (?_ : #v[v[0], v[1]] = v)
    refine Vector.ext fun i hi => ?_
    obtain rfl | rfl : i = 0 ∨ i = 1 := by omega
    · rfl
    · rfl
  rw [pairs, Array.flatMap_map]
  simp only [hpair]
  exact flat_chunks (by decide) h

end HueSaturation
