namespace ChipEight

def chunks {α : Type} (size : Nat) : List α → List (List α)
  | [] => []
  | a :: rest => (a :: rest.take (size - 1)) :: chunks size (rest.drop (size - 1))
  termination_by xs => xs.length
  decreasing_by simp only [List.length_drop, List.length_cons]; omega

theorem flatten_chunks {α : Type} (size : Nat) (xs : List α) : (chunks size xs).flatten = xs := by
  induction xs using chunks.induct size with
  | case1 => rw [chunks, List.flatten_nil]
  | case2 a rest ih =>
    rw [chunks, List.flatten_cons, ih, List.cons_append, List.take_append_drop]

theorem ne_nil_of_mem_chunks {α : Type} {size : Nat} {xs chunk : List α}
    (h : chunk ∈ chunks size xs) : chunk ≠ [] := by
  induction xs using chunks.induct size with
  | case1 => simp [chunks] at h
  | case2 a rest ih =>
    rw [chunks, List.mem_cons] at h
    rcases h with rfl | h
    · exact List.cons_ne_nil _ _
    · exact ih h

theorem chunks_of_ne_nil {α : Type} {size : Nat} (hsize : 0 < size) {xs : List α} (h : xs ≠ []) :
    chunks size xs = xs.take size :: chunks size (xs.drop size) := by
  obtain ⟨k, rfl⟩ := Nat.exists_eq_add_of_lt hsize
  cases xs with
  | nil => exact absurd rfl h
  | cons a rest =>
    rw [chunks]
    simp

theorem chunks_ne_nil {α : Type} {size : Nat} (hsize : 0 < size) {xs : List α} (h : xs ≠ []) :
    chunks size xs ≠ [] := by
  rw [chunks_of_ne_nil hsize h]
  exact List.cons_ne_nil _ _

theorem length_chunks {α : Type} {size : Nat} (hsize : 0 < size) (xs : List α) :
    (chunks size xs).length = (xs.length + size - 1) / size := by
  induction xs using chunks.induct size with
  | case1 =>
    rw [chunks, List.length_nil, List.length_nil, Nat.div_eq_of_lt]
    omega
  | case2 a rest ih =>
    have hcount : (a :: rest).length + size - 1 = rest.length + size := by
      rw [List.length_cons]
      omega
    rw [chunks, List.length_cons, ih, hcount, Nat.add_div_right _ hsize, List.length_drop]
    rcases Nat.lt_or_ge rest.length size with hshort | hlong
    · rw [Nat.div_eq_of_lt hshort, Nat.div_eq_of_lt]
      omega
    · have hdropped : rest.length - (size - 1) + size - 1 = rest.length := by omega
      rw [hdropped]

theorem chunks_append {α : Type} {size : Nat} (hsize : 0 < size) {xs : List α}
    (h : size ∣ xs.length) (ys : List α) :
    chunks size (xs ++ ys) = chunks size xs ++ chunks size ys := by
  obtain ⟨count, hcount⟩ := h
  induction count generalizing xs with
  | zero =>
    obtain rfl := List.length_eq_zero_iff.1 hcount
    rw [chunks, List.nil_append, List.nil_append]
  | succ count ih =>
    have hle : size ≤ xs.length := by
      rw [hcount]
      exact Nat.le_mul_of_pos_right size (Nat.succ_pos count)
    have hne : xs ≠ [] := List.ne_nil_of_length_pos (Nat.lt_of_lt_of_le hsize hle)
    have hrest : (xs.drop size).length = size * count := by
      rw [List.length_drop, hcount, Nat.mul_succ, Nat.add_sub_cancel]
    have happend : xs ++ ys ≠ [] := List.append_ne_nil_of_left_ne_nil hne ys
    rw [chunks_of_ne_nil hsize hne, chunks_of_ne_nil hsize happend,
      List.take_append_of_le_length hle, List.drop_append_of_le_length hle, ih hrest,
      List.cons_append]

end ChipEight
