import ChipEight.Proofs.Screen.Sprite
import Mathlib.Algebra.Ring.Parity
import Mathlib.Data.List.DropRight
import Mathlib.Data.Nat.Bits

namespace ChipEight

namespace Screen

inductive Command where
  | clear
  | reset
  | flip (x y : Nat) (bit : Bool)
  | flipByte (x y : Nat) (byte : UInt8)
  | decay (amount : UInt8)
  deriving DecidableEq, Repr

def Command.wipes : Command → Bool
  | clear | reset => true
  | flip .. | flipByte .. | decay _ => false

def Command.hits : Command → List (Nat × Nat)
  | flip x y bit => if bit then [(x, y)] else []
  | flipByte x y byte =>
    ((List.range 8).filter fun c => byte.toNat.testBit (7 - c)).map fun c => (x + c, y)
  | clear | reset | decay _ => []

def apply (s : Screen) : Command → Screen
  | .clear => s.clear
  | .reset => s.reset
  | .flip x y bit => (s.flip x y bit).1
  | .flipByte x y byte => (s.flipByte x y byte).1
  | .decay amount => s.decay amount

def reply (s : Screen) : Command → Bool
  | .flip x y bit => (s.flip x y bit).2
  | .flipByte x y byte => (s.flipByte x y byte).2
  | .clear | .reset | .decay _ => false

def after (s : Screen) (history : List Command) : Screen :=
  history.foldl apply s

instance (x y x' y' : Nat) : Decidable (sameCell x y x' y') :=
  inferInstanceAs (Decidable (_ ∧ _))

def hitCount (cells : List (Nat × Nat)) (x y : Nat) : Nat :=
  cells.countP fun cell => sameCell cell.1 cell.2 x y

variable {s t : Screen}

@[simp]
theorem hitCount_nil (x y : Nat) : hitCount [] x y = 0 := rfl

theorem hitCount_append (cells cells' : List (Nat × Nat)) (x y : Nat) :
    hitCount (cells ++ cells') x y = hitCount cells x y + hitCount cells' x y :=
  List.countP_append

def rowCells (x y : Nat) : List Bool → List (Nat × Nat)
  | [] => []
  | bit :: bits => (if bit then [(x, y)] else []) ++ rowCells (x + 1) y bits

theorem rowCells_map (lit : Nat → Bool) (x y n : Nat) :
    rowCells x y ((List.range n).map lit) =
      ((List.range n).filter lit).map fun c => (x + c, y) := by
  induction n generalizing lit x with
  | zero => rfl
  | succ n ih =>
    have hrest : ((List.range n).map Nat.succ).filter lit =
        ((List.range n).filter fun c => lit (c + 1)).map Nat.succ := List.filter_map
    have hshift : (fun c => (x + 1 + c, y)) = (fun c => (x + c, y)) ∘ Nat.succ := by
      funext c
      exact congrArg (·, y) (Nat.succ_add_eq_add_succ x c)
    have htail := ih (fun c => lit (c + 1)) (x + 1)
    rw [List.range_succ_eq_map, List.map_cons, List.map_map, rowCells, List.filter_cons, hrest]
    rw [hshift, ← List.map_map] at htail
    cases lit 0 with
    | true => exact congrArg ((x, y) :: ·) htail
    | false => exact htail

theorem hits_flipByte (x y : Nat) (byte : UInt8) :
    (Command.flipByte x y byte).hits = rowCells x y (bits byte) :=
  (rowCells_map (fun c => byte.toNat.testBit (7 - c)) x y 8).symm

theorem pixel_flip_eq (s : Screen) (x y : Nat) (bit : Bool) (x' y' : Nat) :
    (s.flip x y bit).1.pixel x' y' =
      (s.pixel x' y' ^^ (hitCount (if bit then [(x, y)] else []) x' y').bodd) := by
  rw [pixel_flip]
  change (if sameCell x y x' y' then _ else _) = _
  by_cases hc : sameCell x y x' y'
  · rw [if_pos hc]
    cases bit <;> simp [hitCount, hc]
  · rw [if_neg hc]
    cases bit <;> simp [hitCount, hc]

theorem pixel_flipRow (s : Screen) (x y : Nat) (bits : List Bool) (x' y' : Nat) :
    (s.flipRow x y bits).1.pixel x' y' =
      (s.pixel x' y' ^^ (hitCount (rowCells x y bits) x' y').bodd) := by
  induction bits generalizing s x with
  | nil => simp [flipRow, rowCells]
  | cons bit bits ih =>
    rw [rowCells, hitCount_append, Nat.bodd_add, ← Bool.xor_assoc, ← pixel_flip_eq, flipRow]
    exact ih (s.flip x y bit).1 (x + 1)

theorem pixel_apply (s : Screen) {c : Command} (hc : c.wipes = false) (x y : Nat) :
    (s.apply c).pixel x y = (s.pixel x y ^^ (hitCount c.hits x y).bodd) := by
  cases c with
  | clear | reset => cases hc
  | flip x' y' bit => exact s.pixel_flip_eq x' y' bit x y
  | flipByte x' y' byte =>
    rw [hits_flipByte]
    exact s.pixel_flipRow x' y' (bits byte) x y
  | decay amount =>
    rw [Command.hits, hitCount_nil, Nat.bodd_zero, Bool.xor_false]
    rfl

theorem apply_of_wipes (s : Screen) {c : Command} (hc : c.wipes = true) : s.apply c = blank := by
  cases c with
  | clear | reset => rfl
  | flip | flipByte | decay => cases hc

theorem pixel_after (s : Screen) {history : List Command} (hh : ∀ c ∈ history, c.wipes = false)
    (x y : Nat) :
    (s.after history).pixel x y =
      (s.pixel x y ^^ (hitCount (history.flatMap Command.hits) x y).bodd) := by
  induction history generalizing s with
  | nil => simp [after]
  | cons c history ih =>
    obtain ⟨hc, hrest⟩ := List.forall_mem_cons.1 hh
    rw [List.flatMap_cons, hitCount_append, Nat.bodd_add, ← Bool.xor_assoc, ← s.pixel_apply hc]
    exact ih (s.apply c) hrest

theorem pixel_after_congr (h : ∀ x y, s.pixel x y = t.pixel x y) (history : List Command)
    (x y : Nat) : (s.after history).pixel x y = (t.after history).pixel x y := by
  induction history generalizing s t with
  | nil => exact h x y
  | cons c history ih =>
    refine ih (s := s.apply c) (t := t.apply c) fun x' y' => ?_
    cases hc : c.wipes with
    | true => rw [apply_of_wipes s hc, apply_of_wipes t hc]
    | false => rw [pixel_apply s hc, pixel_apply t hc, h]

def recent (history : List Command) : List Command :=
  history.rtakeWhile fun c => !c.wipes

theorem wipes_of_mem_recent {history : List Command} {c : Command} (hc : c ∈ recent history) :
    c.wipes = false := by
  simpa using List.mem_rtakeWhile_imp hc

theorem blank_after_rdropWhile (history : List Command) :
    blank.after (history.rdropWhile fun c => !c.wipes) = blank := by
  -- what is left of the recent commands is nothing, or ends with a command that wipes
  rcases List.eq_nil_or_concat' (history.rdropWhile fun c => !c.wipes) with
    hnil | ⟨earlier, c, hend⟩
  · rw [hnil]
    rfl
  · have hlast : ¬(!c.wipes) = true := by
      have := List.rdropWhile_last_not (fun c : Command => !c.wipes) history (by simp [hend])
      simpa [hend] using this
    rw [hend, after, List.foldl_concat]
    exact apply_of_wipes _ (by simpa using hlast)

theorem after_recent (history : List Command) :
    blank.after (recent history) = blank.after history := by
  have hsplit : history.rdropWhile (fun c => !c.wipes) ++ recent history = history :=
    List.rdropWhile_append_rtakeWhile
  conv_rhs => rw [← hsplit]
  rw [after, after, List.foldl_append]
  exact (congrArg (after · (recent history)) (blank_after_rdropWhile history)).symm

theorem pixel_after_blank (history : List Command) (x y : Nat) :
    (blank.after history).pixel x y =
      (hitCount ((recent history).flatMap Command.hits) x y).bodd := by
  have hblank : blank.pixel x y = false := Grid.get_fill false x y
  rw [← after_recent, pixel_after blank (fun _ hc => wipes_of_mem_recent hc), hblank,
    Bool.false_xor]

theorem reply_iff (s : Screen) (c : Command) :
    s.reply c = true ↔ ∃ cell ∈ c.hits, s.pixel cell.1 cell.2 = true := by
  cases c with
  | clear | reset | decay => simp [reply, Command.hits]
  | flip x y bit =>
    have hoff : (s.flip x y bit).2 = (s.pixel x y && bit) := rfl
    cases bit <;> simp [reply, hoff, Command.hits]
  | flipByte x y byte =>
    rw [reply, (drawn_flipByte s x y byte).off]
    simp only [Command.hits, List.mem_map, List.mem_filter, List.mem_range]
    constructor
    · rintro ⟨x', y', ⟨c, hbit, hcell⟩, hon⟩
      exact ⟨_, ⟨c, (getElem?_bits byte c).1 hbit, rfl⟩, (pixel_congr s hcell).trans hon⟩
    · rintro ⟨_, ⟨c, hbit, rfl⟩, hon⟩
      exact ⟨x + c, y, ⟨c, (getElem?_bits byte c).2 hbit, rfl, rfl⟩, hon⟩

theorem pixels_are_parities (history : List Command) :
    (∀ x y, (blank.after history).pixel x y = true ↔
      Odd (hitCount ((recent history).flatMap Command.hits) x y)) ∧
    (∀ flips flips' later : List Command, flips.Perm flips' → (∀ c ∈ flips, c.wipes = false) →
      ∀ x y, (blank.after (history ++ flips ++ later)).pixel x y =
        (blank.after (history ++ flips' ++ later)).pixel x y) ∧
    ∀ c, (blank.after history).reply c = true ↔
      ∃ cell ∈ c.hits, (blank.after history).pixel cell.1 cell.2 = true := by
  refine ⟨fun x y => ?_, fun flips flips' later hperm hh x y => ?_, (blank.after history).reply_iff⟩
  · rw [pixel_after_blank, Nat.odd_iff, Nat.mod_two_of_bodd]
    cases (hitCount ((recent history).flatMap Command.hits) x y).bodd <;> simp
  · have hh' : ∀ c ∈ flips', c.wipes = false := fun c hc => hh c (hperm.mem_iff.2 hc)
    simp only [after, List.foldl_append]
    refine pixel_after_congr (fun x' y' => ?_) later x y
    have hcount : hitCount (flips.flatMap Command.hits) x' y' =
        hitCount (flips'.flatMap Command.hits) x' y' := (hperm.flatMap_right _).countP_eq _
    exact (pixel_after _ hh x' y').trans (hcount ▸ (pixel_after _ hh' x' y').symm)

end Screen

end ChipEight
