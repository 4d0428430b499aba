import ChipEight.Memory

namespace ChipEight

namespace Memory

variable {m : Memory} {a : Nat} {data : List UInt8}

theorem read_congr {m' : Memory} (h : m.get a = m'.get a) : m.read a = m'.read a := by
  rw [read, read, h]

theorem word_of_lt (m : Memory) (h : a + 1 < memorySize) :
    m.word a = .ok (.ofBytes (m.get a) (m.get (a + 1))) := by
  rw [word, m.read_of_lt (Nat.lt_of_succ_lt h)]
  simp [m.read_of_lt h, bind, Except.bind, pure, Except.pure]

theorem word_of_le (m : Memory) (h : memorySize ≤ a + 1) :
    m.word a = .error (.outOfRange (max a memorySize) memorySize) := by
  rw [word]
  rcases Nat.lt_or_ge a memorySize with ha | ha
  · have last : max a memorySize = a + 1 := by omega
    rw [m.read_of_lt ha, last]
    simp [m.read_of_le h, bind, Except.bind]
  · rw [m.read_of_le ha, Nat.max_eq_left ha]
    rfl

theorem getElem?_window (m : Memory) (a n r : Nat) (row : UInt8) :
    (m.window a n)[r]? = some row ↔ r < min n (room a) ∧ m.get (a + r) = row := by
  have hlen : (m.window a n).length = min n (room a) := by
    rw [length_window, room]
    omega
  rw [List.getElem?_eq_some_iff, ← hlen]
  constructor
  · rintro ⟨hr, hrow⟩
    exact ⟨hr, (getElem_window hr).symm.trans hrow⟩
  · rintro ⟨hr, hrow⟩
    exact ⟨hr, (getElem_window hr).trans hrow⟩

theorem window_zero (m : Memory) (a : Nat) : m.window a 0 = [] := by
  rw [← List.length_eq_zero_iff, length_window]
  omega

theorem window_of_le (h : memorySize ≤ a) (n : Nat) : m.window a n = [] := by
  rw [← List.length_eq_zero_iff, length_window]
  omega

theorem window_succ (h : a < memorySize) (n : Nat) :
    m.window a (n + 1) = m.get a :: m.window (a + 1) n := by
  refine List.ext_getElem ?_ fun i hwindow _ => ?_
  · rw [List.length_cons, length_window, length_window]
    omega
  · rw [getElem_window]
    cases i with
    | zero => rfl
    | succ i => rw [List.getElem_cons_succ, getElem_window, Nat.add_right_comm, Nat.add_assoc]

theorem get_store_add {i : Nat} (hi : i < data.length) (h : a + i < memorySize) :
    (m.store a data).get (a + i) = data[i] := by
  have hin : a ≤ a + i ∧ a + i < a + data.length ∧ a + i < memorySize := by omega
  rw [get_store, if_pos hin, Nat.add_sub_cancel_left, List.getD_eq_getElem?_getD,
    List.getElem?_eq_getElem hi, Option.getD_some]

theorem window_store (h : a + data.length ≤ memorySize) :
    (m.store a data).window a data.length = data := by
  have hlength : ((m.store a data).window a data.length).length = data.length := by
    rw [length_window]
    omega
  refine List.ext_getElem hlength fun i hwindow hi => ?_
  rw [getElem_window, get_store_add hi (by omega)]

theorem range_store (h : a + data.length ≤ memorySize) :
    (m.store a data).range a data.length = .ok data := by
  rw [range, if_pos h, window_store h]

theorem word_store {i : Nat} (h : a + data.length ≤ memorySize) (hi : i + 1 < data.length) :
    (m.store a data).word (a + i) = .ok (.ofBytes data[i] data[i + 1]) := by
  have hlast : a + i + 1 < memorySize := by omega
  rw [word_of_lt _ hlast, get_store_add (Nat.lt_of_succ_lt hi) (by omega), Nat.add_assoc,
    get_store_add hi hlast]

def reads (m : Memory) (a n : Nat) : List (Except Fault UInt8) :=
  (List.range n).map fun i => m.read (a + i)

theorem map_ok_window_eq (m : Memory) (a n : Nat) :
    (m.window a n).map .ok = m.reads a (min (a + n) memorySize - a) := by
  have hlength := m.length_window a n
  refine List.ext_getElem (by simp [reads, hlength]) fun i hwindow hreads => ?_
  have hi : i < min (a + n) memorySize - a := by simpa [reads] using hreads
  simp [reads, getElem_window, m.read_of_lt (show a + i < memorySize by omega)]

theorem map_ok_window {n : Nat} (h : a + n ≤ memorySize) :
    (m.window a n).map .ok = m.reads a n := by
  rw [map_ok_window_eq, Nat.min_eq_left h, Nat.add_sub_cancel_left]

theorem window_add (m : Memory) (a n k : Nat) :
    m.window a (n + k) = m.window a n ++ m.window (a + n) k := by
  refine List.ext_getElem ?_ fun i hwhole happended => ?_
  · rw [List.length_append, length_window, length_window, length_window]
    omega
  · rw [getElem_window, List.getElem_append]
    rw [length_window] at hwhole
    split
    · rw [getElem_window]
    · next hout =>
      rw [length_window] at hout
      rw [getElem_window, length_window]
      congr 1
      omega

theorem toNat_add_ofNat {offset : UInt16} {n : Nat} (h : offset.toNat + n < UInt16.size) :
    (offset + .ofNat n).toNat = offset.toNat + n := by
  rw [UInt16.toNat_add, UInt16.toNat_ofNat', Nat.add_mod_mod]
  exact Nat.mod_eq_of_lt h

def checkedSum (a n : UInt64) : Option UInt64 :=
  if a + n < a then none else some (a + n)

theorem checkedSum_of_lt {a n : UInt64} (h : a.toNat + n.toNat < UInt64.size) :
    checkedSum a n = some (a + n) ∧ (a + n).toNat = a.toNat + n.toNat := by
  have hsum : (a + n).toNat = a.toNat + n.toNat :=
    (UInt64.toNat_add a n).trans (Nat.mod_eq_of_lt h)
  have hnot : ¬a + n < a := by
    rw [UInt64.lt_iff_toNat_lt, hsum]
    omega
  exact ⟨if_neg hnot, hsum⟩

theorem checkedSum_of_le {a n : UInt64} (h : UInt64.size ≤ a.toNat + n.toNat) :
    checkedSum a n = none := by
  have ha := a.toNat_lt_size
  have hn := n.toNat_lt_size
  have hsum : (a + n).toNat = a.toNat + n.toNat - UInt64.size :=
    (UInt64.toNat_add a n).trans ((Nat.mod_eq_sub_mod h).trans (Nat.mod_eq_of_lt (by omega)))
  have hless : a + n < a := by
    rw [UInt64.lt_iff_toNat_lt, hsum]
    omega
  exact if_pos hless

def checkedWriteFrom (m : Memory) (a written : UInt64) :
    List UInt8 → Option (Memory × Except Fault Nat)
  | [] => some (m, .ok written.toNat)
  | byte :: rest =>
    match checkedSum a written with
    | none => none
    | some c =>
      match m.write c.toNat byte with
      | .ok m => m.checkedWriteFrom a (written + 1) rest
      | .error _ => some (m, .error (.partialWrite c.toNat written.toNat))

theorem checkedWriteFrom_eq (m : Memory) {a written : UInt64}
    (h : a.toNat + written.toNat < UInt64.size) (data : List UInt8) :
    m.checkedWriteFrom a written data = some (m.writeFrom a.toNat written.toNat data) := by
  induction data generalizing m written with
  | nil => rfl
  | cons byte rest ih =>
    obtain ⟨hsum, hc⟩ := checkedSum_of_lt h
    rw [checkedWriteFrom, hsum]
    -- The write goes on from inside of the memory only, where the next sum cannot overflow.
    rcases Nat.lt_or_ge (a.toNat + written.toNat) memorySize with hin | hout
    · have hsize : memorySize < UInt64.size := by decide
      have hnext : (written + 1).toNat = written.toNat + 1 :=
        (checkedSum_of_lt (n := 1) (by simp only [UInt64.toNat_one]; omega)).2
      have hroom : a.toNat + (written + 1).toNat < UInt64.size := by omega
      simp only [hc, m.write_of_lt hin]
      rw [ih _ hroom, hnext, writeFrom_cons_of_lt m hin]
    · simp only [hc, m.write_of_le hout]
      rw [writeFrom_cons_of_le m hout]

def checkedRange (m : Memory) (a n : UInt64) : Except Fault (List UInt8) :=
  match (checkedSum a n).filter (·.toNat ≤ memorySize) with
  | some stop => .ok (m.bytes.extract a.toNat stop.toNat).toList
  | none =>
    let stop := (checkedSum a n).getD (.ofNat lastAddress)
    .error (.outOfRange (stop.toNat - 1) memorySize)

theorem checkedRange_eq (m : Memory) (a n : UInt64) :
    m.checkedRange a n = m.range a.toNat n.toNat := by
  rw [checkedRange, range]
  rcases Nat.lt_or_ge (a.toNat + n.toNat) UInt64.size with h | h
  · obtain ⟨hsum, hstop⟩ := checkedSum_of_lt h
    have hmin : min (a.toNat + n.toNat) lastAddress = a.toNat + n.toNat :=
      Nat.min_eq_left (Nat.le_sub_one_of_lt h)
    rw [hsum, hmin, ← hstop]
    by_cases hfits : (a + n).toNat ≤ memorySize
    · rw [Option.filter_some_pos (by simpa using hfits), if_pos hfits, window, ← hstop]
    · rw [Option.filter_some_neg (by simpa using hfits), if_neg hfits, Option.getD_some]
  · have hfits : ¬a.toNat + n.toNat ≤ memorySize :=
      Nat.not_le.2 (Nat.lt_of_lt_of_le (by decide) h)
    have hmin : min (a.toNat + n.toNat) lastAddress = lastAddress :=
      Nat.min_eq_right (Nat.le_trans (Nat.sub_le _ _) h)
    rw [checkedSum_of_le h, if_neg hfits, hmin]
    rfl

theorem outcome_writeAll (m : Memory) (a : Nat) (data : List UInt8) :
    (m.writeAll a data).2 =
      if data = [] ∨ a + data.length ≤ memorySize then .ok data.length
      else .error (.partialWrite (max a memorySize) (memorySize - a)) := by
  have hfits : data.length ≤ room a ↔ data = [] ∨ a + data.length ≤ memorySize := by
    rw [room, ← List.length_eq_zero_iff]
    omega
  rw [writeAll_eq]
  simp only [hfits]
  rfl

theorem fits_of_writeAll (h : (m.writeAll a data).2 = .ok data.length) (hdata : data ≠ []) :
    a + data.length ≤ memorySize := by
  rw [outcome_writeAll] at h
  split at h
  · next hfits => exact hfits.resolve_left hdata
  · cases h

theorem memory_writeAll (m : Memory) (a : Nat) (data : List UInt8) :
    (m.writeAll a data).1 = m.store a data :=
  congrArg Prod.fst (m.writeAll_eq a data)

theorem read_store_of_lt {i : Nat} (hi : i < data.length) (h : i < memorySize - a) :
    (m.store a data).read (a + i) = .ok data[i] := by
  have hin : a + i < memorySize := by omega
  rw [read_of_lt _ hin, get_store_add hi hin]

theorem read_store_of_out {c : Nat} (h : c < a ∨ a + min data.length (memorySize - a) ≤ c) :
    (m.store a data).read c = m.read c := by
  refine read_congr ?_
  rw [get_store, if_neg (by omega)]

theorem range_of_le {n : Nat} (h : a + n ≤ memorySize) :
    ∃ bytes, m.range a n = .ok bytes ∧ bytes.map .ok = m.reads a n :=
  ⟨m.window a n, if_pos h, map_ok_window h⟩

theorem range_of_lt {n : Nat} (h : memorySize < a + n) :
    m.range a n = .error (.outOfRange (min (a + n) lastAddress - 1) memorySize) :=
  if_neg (Nat.not_le.2 h)

theorem bulk_access_exact (m : Memory) (a : UInt64) :
    (∀ data : List UInt8,
      let written := m.writeAll a.toNat data
      m.checkedWriteFrom a 0 data = some written ∧
      written.2 =
        (if data = [] ∨ a.toNat + data.length ≤ memorySize then .ok data.length
        else .error (.partialWrite (max a.toNat memorySize) (memorySize - a.toNat))) ∧
      (∀ i (hi : i < data.length), i < memorySize - a.toNat →
        written.1.read (a.toNat + i) = .ok data[i]) ∧
      (∀ c, c < a.toNat ∨ a.toNat + min data.length (memorySize - a.toNat) ≤ c →
        written.1.read c = m.read c) ∧
      (written.2 = .ok data.length → data ≠ [] →
        written.1.range a.toNat data.length = .ok data ∧
        ∀ i (hi : i + 1 < data.length),
          written.1.word (a.toNat + i) = .ok (.ofBytes data[i] data[i + 1]))) ∧
    ∀ n : UInt64,
      m.checkedRange a n = m.range a.toNat n.toNat ∧
      (a.toNat + n.toNat ≤ memorySize →
        ∃ bytes, m.range a.toNat n.toNat = .ok bytes ∧
          bytes.map .ok = m.reads a.toNat n.toNat) ∧
      (memorySize < a.toNat + n.toNat →
        m.range a.toNat n.toNat =
          .error (.outOfRange (min (a.toNat + n.toNat) lastAddress - 1) memorySize)) := by
  refine ⟨fun data => ⟨?_, m.outcome_writeAll _ data, ?_⟩,
    fun n => ⟨m.checkedRange_eq a n, range_of_le, range_of_lt⟩⟩
  · have hstart : a.toNat + UInt64.toNat 0 < UInt64.size := a.toNat_lt_size
    exact m.checkedWriteFrom_eq hstart data
  · rw [memory_writeAll]
    refine ⟨fun _ hi h => read_store_of_lt hi h, fun _ h => read_store_of_out h, ?_⟩
    intro hok hdata
    have hfits := fits_of_writeAll hok hdata
    exact ⟨range_store hfits, fun _ hi => word_store hfits hi⟩

theorem bulk_access_exact_ends :
    let written := blank.writeAll 0xFFE [1, 2, 3]
    written.2 = .error (.partialWrite 0x1000 2) ∧ written.1.read 0xFFF = .ok 2 ∧
      blank.range lastAddress 2 = .error (.outOfRange (lastAddress - 1) memorySize) := by
  intro written
  obtain ⟨_, houtcome, hkept, _⟩ := (bulk_access_exact blank 0xFFE).1 [1, 2, 3]
  obtain ⟨_, _, hover⟩ := (bulk_access_exact blank (.ofNat lastAddress)).2 2
  exact ⟨houtcome.trans (if_neg (by decide)), hkept 1 (by decide) (by decide), hover (by decide)⟩

end Memory

end ChipEight
