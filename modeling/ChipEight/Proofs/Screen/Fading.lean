import ChipEight.Proofs.Screen.Parity

namespace ChipEight

namespace Screen

def Command.dims : Command → Nat
  | decay amount => amount.toNat
  | clear | reset | flip .. | flipByte .. => 0

def dimming (commands : List Command) : Nat :=
  (commands.map Command.dims).sum

def SwitchesOff (s : Screen) (c : Command) (x y : Nat) : Prop :=
  s.pixel x y = true ∧ (s.apply c).pixel x y = false

def GoesOff (s : Screen) (commands : List Command) (x y : Nat) : Prop :=
  ∃ earlier c later, commands = earlier ++ c :: later ∧ (s.after earlier).SwitchesOff c x y

variable {s t : Screen} {c : Command} {x y : Nat}

theorem Drawn.switchesOff_iff {lit : Nat → Nat → Prop} {off : Bool} (h : Drawn lit s t off) :
    s.pixel x y = true ∧ t.pixel x y = false ↔ lit x y ∧ s.pixel x y = true := by
  rw [← h.pixel x y, and_comm (a := t.pixel x y ≠ _)]
  refine and_congr_right fun hs => ?_
  rw [hs, ne_eq, Bool.not_eq_true]

theorem fadeLevel_apply_of_switchesOff (hc : c.wipes = false) (hoff : s.SwitchesOff c x y) :
    (s.apply c).fadeLevel x y = fullFade := by
  cases c with
  | clear | reset => cases hc
  | flip x' y' bit =>
    have hdrawn := drawn_flip s x' y' bit
    obtain ⟨hlit, hon⟩ := hdrawn.switchesOff_iff.1 hoff
    exact hdrawn.faded x y hlit hon
  | flipByte x' y' byte =>
    have hdrawn := drawn_flipByte s x' y' byte
    obtain ⟨hlit, hon⟩ := hdrawn.switchesOff_iff.1 hoff
    exact hdrawn.faded x y hlit hon
  | decay amount => exact absurd (hoff.1.symm.trans hoff.2) nofun

theorem toNat_fadeLevel_apply (hc : c.wipes = false) (hoff : ¬s.SwitchesOff c x y) :
    ((s.apply c).fadeLevel x y).toNat = (s.fadeLevel x y).toNat - c.dims := by
  cases c with
  | clear | reset => cases hc
  | flip x' y' bit =>
    have hdrawn := drawn_flip s x' y' bit
    exact congrArg UInt8.toNat (hdrawn.kept x y (mt hdrawn.switchesOff_iff.2 hoff))
  | flipByte x' y' byte =>
    have hdrawn := drawn_flipByte s x' y' byte
    exact congrArg UInt8.toNat (hdrawn.kept x y (mt hdrawn.switchesOff_iff.2 hoff))
  | decay amount =>
    rw [fadeLevel, apply, decay, Grid.get_map, toNat_countDown]
    rfl

theorem goesOff_cons_iff (s : Screen) (c : Command) (rest : List Command) :
    s.GoesOff (c :: rest) x y ↔ s.SwitchesOff c x y ∨ (s.apply c).GoesOff rest x y := by
  constructor
  · rintro ⟨earlier, c', later, hsplit, hoff⟩
    cases earlier with
    | nil =>
      obtain ⟨rfl, rfl⟩ := List.cons.inj hsplit
      exact .inl hoff
    | cons first earlier =>
      obtain ⟨rfl, rfl⟩ := List.cons.inj hsplit
      exact .inr ⟨earlier, c', later, rfl, hoff⟩
  · rintro (hoff | ⟨earlier, c', later, rfl, hoff⟩)
    · exact ⟨[], c, rest, rfl, hoff⟩
    · exact ⟨c :: earlier, c', later, rfl, hoff⟩

theorem toNat_fadeLevel_after {commands : List Command}
    (hcommands : ∀ c ∈ commands, c.wipes = false) (hoff : ¬s.GoesOff commands x y) :
    ((s.after commands).fadeLevel x y).toNat =
      (s.fadeLevel x y).toNat - dimming commands := by
  induction commands generalizing s with
  | nil => rfl
  | cons c rest ih =>
    obtain ⟨hc, hrest⟩ := List.forall_mem_cons.1 hcommands
    obtain ⟨hkept, hlater⟩ := not_or.1 (mt (goesOff_cons_iff s c rest).2 hoff)
    calc ((s.after (c :: rest)).fadeLevel x y).toNat
        = ((s.apply c).fadeLevel x y).toNat - dimming rest := ih hrest hlater
      _ = (s.fadeLevel x y).toNat - c.dims - dimming rest := by
        rw [toNat_fadeLevel_apply hc hkept]
      _ = (s.fadeLevel x y).toNat - dimming (c :: rest) := Nat.sub_sub _ _ _

theorem GoesOff.exists_last {commands : List Command} (h : s.GoesOff commands x y) :
    ∃ earlier c later, commands = earlier ++ c :: later ∧
      (s.after earlier).SwitchesOff c x y ∧
      ¬(s.after (earlier ++ [c])).GoesOff later x y := by
  induction commands generalizing s with
  | nil =>
    obtain ⟨earlier, c, later, hsplit, _⟩ := h
    exact absurd hsplit.symm (List.append_ne_nil_of_right_ne_nil earlier nofun)
  | cons c rest ih =>
    by_cases hrest : (s.apply c).GoesOff rest x y
    · obtain ⟨earlier, c', later, rfl, hlast⟩ := ih hrest
      exact ⟨c :: earlier, c', later, rfl, hlast⟩
    · have hoff := ((goesOff_cons_iff s c rest).1 h).resolve_right hrest
      exact ⟨[], c, rest, rfl, hoff, hrest⟩

theorem not_switchesOff_of_off (hoff : s.pixel x y = false) : ¬s.SwitchesOff c x y :=
  fun h => absurd (hoff.symm.trans h.1) nofun

theorem not_switchesOff_of_missed (hc : c.wipes = false) (hmiss : hitCount c.hits x y = 0) :
    ¬s.SwitchesOff c x y := by
  rintro ⟨hon, hoff⟩
  rw [pixel_apply s hc, hmiss, Nat.bodd_zero, Bool.xor_false] at hoff
  exact absurd (hon.symm.trans hoff) nofun

theorem fades_follow_history (history : List Command) (x y : Nat) :
    let s := blank.after history
    (¬blank.GoesOff (recent history) x y → s.fadeLevel x y = 0) ∧
    (blank.GoesOff (recent history) x y → ∃ earlier c later,
      recent history = earlier ++ c :: later ∧ (blank.after earlier).SwitchesOff c x y ∧
      ¬(blank.after (earlier ++ [c])).GoesOff later x y ∧
      (s.fadeLevel x y).toNat = 255 - dimming later) ∧
    ∀ c, c.wipes = false → c.dims = 0 → s.pixel x y = false ∨ hitCount c.hits x y = 0 →
      (s.apply c).fadeLevel x y = s.fadeLevel x y := by
  intro s
  have hs : s = blank.after (recent history) := (after_recent history).symm
  refine ⟨fun hoff => ?_, fun hoff => ?_, fun c hc hdims hcalm => ?_⟩
  · have hlevel := toNat_fadeLevel_after (fun _ hc => wipes_of_mem_recent hc) hoff
    have hblank : blank.fadeLevel x y = 0 := Grid.get_fill 0 x y
    rw [hblank, UInt8.toNat_zero, Nat.zero_sub] at hlevel
    rw [hs]
    exact UInt8.toNat_inj.1 hlevel
  · obtain ⟨earlier, c, later, hsplit, hc, hlater⟩ := hoff.exists_last
    have hwipes : ∀ c' ∈ c :: later, c'.wipes = false := fun c' hmem =>
      wipes_of_mem_recent (hsplit ▸ List.mem_append_right earlier hmem)
    obtain ⟨hwipe, hrest⟩ := List.forall_mem_cons.1 hwipes
    have hfull : (blank.after (earlier ++ [c])).fadeLevel x y = fullFade := by
      rw [after, List.foldl_concat]
      exact fadeLevel_apply_of_switchesOff hwipe hc
    have hend : s = (blank.after (earlier ++ [c])).after later := by
      rw [hs, hsplit, after, after, after, ← List.foldl_append, List.append_assoc,
        List.singleton_append]
    refine ⟨earlier, c, later, hsplit, hc, hlater, ?_⟩
    rw [hend, toNat_fadeLevel_after hrest hlater, hfull]
    rfl
  · have hkept : ¬s.SwitchesOff c x y :=
      hcalm.elim not_switchesOff_of_off (not_switchesOff_of_missed hc)
    have hlevel := toNat_fadeLevel_apply hc hkept
    rw [hdims, Nat.sub_zero] at hlevel
    exact UInt8.toNat_inj.1 hlevel

end Screen

end ChipEight
