import ChipEight.Proofs.Board.Executions

namespace ChipEight

def returnsDue : List (UInt16 × Instruction) → Nat
  | [] => 0
  | (_, i) :: later =>
    match i with
    | .call _ => returnsDue later - 1
    | .ret => returnsDue later + 1
    | _ => returnsDue later

def openCalls : List (UInt16 × Instruction) → List UInt16
  | [] => []
  | (pc, i) :: later =>
    match i with
    -- The first of the returns due after a call is the one that takes it back.
    | .call _ => if returnsDue later = 0 then (pc + 2) :: openCalls later else openCalls later
    | _ => openCalls later

theorem openCalls_call (pc : UInt16) (nnn : Location) (later : List (UInt16 × Instruction)) :
    openCalls ((pc, .call nnn) :: later) =
      (if returnsDue later = 0 then [pc + 2] else []) ++ openCalls later := by
  change (if _ then _ else _) = _
  split <;> rfl

theorem take_concat_sub (as : List UInt16) (a : UInt16) (due : Nat) :
    (as ++ [a]).take ((as ++ [a]).length - due) =
      as.take (as.length - (due - 1)) ++ if due = 0 then [a] else [] := by
  rw [List.length_append, List.length_singleton]
  cases due with
  | zero => simp [List.take_of_length_le]
  | succ due =>
    rw [Nat.add_sub_add_right, List.take_append_of_le_length (Nat.sub_le _ _),
      if_neg (Nat.succ_ne_zero due), List.append_nil, Nat.add_sub_cancel]

theorem take_dropLast_sub (as : List UInt16) (due : Nat) :
    as.dropLast.take (as.dropLast.length - due) = as.take (as.length - (due + 1)) := by
  rw [List.length_dropLast, List.dropLast_eq_take, List.take_take]
  congr 1
  omega

namespace CallStack

theorem length_addresses (s : CallStack) : s.addresses.length = s.depth :=
  List.length_reverse

theorem take_slots (s : CallStack) : s.slots.take s.depth = s.addresses := by
  rw [slots, List.rightpad, ← length_addresses, List.take_left]

theorem eq_of_frames {s t : CallStack} (h : s.frames = t.frames) : s = t := by
  obtain ⟨frames, _⟩ := s
  obtain ⟨frames', _⟩ := t
  cases h
  rfl

theorem slot_of_depth_le {s : CallStack} {n : Nat} (h : s.depth ≤ n) (hn : n < stackSize) :
    s.slot n = .ok 0 := by
  have hnone : s.addresses.length ≤ n := by rwa [length_addresses]
  rw [slot, if_pos hn, List.getD_eq_default _ _ hnone]

end CallStack

namespace Board

variable {b : Board} {c : Command} {i : Instruction} {base : List UInt16}

theorem stack_apply_of_none (hc : c.resets = false) (hn : b.executed c = none) :
    (b.apply c).cpu.stack = b.cpu.stack := by
  cases c with
  | reset | resetCpu => cases hc
  | step =>
    rcases step_of_executed_none hn with ⟨x, hwait⟩ | ⟨f, hf⟩
    · rw [apply, step_of_awaiting hwait]
    · exact (controlAgrees_step_of_error hf).2.2
  | key e => exact (b.controlAgrees_handleKey e).2.2
  | keyOnCpu k => exact (b.controlAgrees_pressOnCpu k).2.2
  | setRegister x value => exact (b.controlAgrees_writeRegister x value).2.2
  | _ => rfl

theorem frames_apply_of_some (hi : b.executed c = some i) :
    (b.apply c).cpu.stack.frames = i.framesAfter b := by
  obtain ⟨rfl, hrun, hfetch, notice, hok⟩ := executed_eq_some_iff.1 hi
  exact (flow_step_of_ok hrun hfetch hok).2.2

theorem ret_of_executed (hi : b.executed c = some .ret) :
    b.cpu.stack.frames = (b.apply c).cpu.pc :: (b.apply c).cpu.stack.frames := by
  obtain ⟨rfl, hrun, hfetch, notice, hok⟩ := executed_eq_some_iff.1 hi
  obtain ⟨_, htarget, hframes⟩ := flow_step_of_ok hrun hfetch hok
  obtain ⟨a, ha, hpc⟩ := Option.map_eq_some_iff.1 htarget
  obtain ⟨rest, hrest⟩ := List.head?_eq_some_iff.1 ha
  obtain rfl := UInt16.toNat_inj.1 hpc
  have htail : b.step.board.cpu.stack.frames = b.cpu.stack.frames.tail := hframes
  rw [apply, htail, hrest, List.tail_cons]

theorem addresses_after (b : Board) {history : List Command}
    (hh : ∀ c ∈ history, c.resets = false) :
    (b.after history).cpu.stack.addresses =
      b.cpu.stack.addresses.take
        (b.cpu.stack.addresses.length - returnsDue (b.executions history)) ++
      openCalls (b.executions history) := by
  induction history generalizing b with
  | nil => exact ((List.append_nil _).trans List.take_length).symm
  | cons c history ih =>
    obtain ⟨hc, hrest⟩ := List.forall_mem_cons.1 hh
    have hlater : (b.after (c :: history)).cpu.stack.addresses = _ := ih (b.apply c) hrest
    cases hi : b.executed c with
    | none =>
      rw [executions_cons_of_none hi, hlater, stack_apply_of_none hc hi]
    | some i =>
      have hframes := frames_apply_of_some hi
      rw [executions_cons_of_some hi, hlater]
      cases i with
      | call nnn =>
        have hpushed : (b.apply c).cpu.stack.addresses =
            b.cpu.stack.addresses ++ [b.cpu.pc + 2] :=
          (congrArg List.reverse hframes).trans List.reverse_cons
        rw [hpushed, take_concat_sub, List.append_assoc, openCalls_call]
        rfl
      | ret =>
        have hpopped : (b.apply c).cpu.stack.addresses = b.cpu.stack.addresses.dropLast :=
          (congrArg List.reverse hframes).trans List.dropLast_reverse.symm
        rw [hpopped, take_dropLast_sub]
        rfl
      | _ =>
        have hkept : (b.apply c).cpu.stack.addresses = b.cpu.stack.addresses :=
          congrArg List.reverse hframes
        rw [hkept]
        rfl

theorem suffix_frames_apply (hc : c.resets = false) (hbase : base <:+ b.cpu.stack.frames)
    (hdepth : base.length ≤ (b.apply c).cpu.stack.depth) :
    base <:+ (b.apply c).cpu.stack.frames := by
  cases hi : b.executed c with
  | none => rwa [stack_apply_of_none hc hi]
  | some i =>
    have hframes := frames_apply_of_some hi
    cases i with
    | call nnn =>
      rw [hframes]
      exact hbase.trans (List.suffix_cons _ _)
    | ret =>
      rw [ret_of_executed hi, List.suffix_cons_iff] at hbase
      rcases hbase with rfl | hbase
      · exact absurd hdepth (Nat.not_succ_le_self _)
      · exact hbase
    | _ =>
      rw [hframes]
      exact hbase

theorem suffix_frames_after {history : List Command} (hh : ∀ c ∈ history, c.resets = false)
    (hbase : base <:+ b.cpu.stack.frames)
    (hdepth : ∀ k ≤ history.length, base.length ≤ (b.after (history.take k)).cpu.stack.depth) :
    base <:+ (b.after history).cpu.stack.frames := by
  induction history generalizing b with
  | nil => exact hbase
  | cons c history ih =>
    obtain ⟨hc, hrest⟩ := List.forall_mem_cons.1 hh
    have hfirst := hdepth 1 (Nat.succ_le_succ (Nat.zero_le _))
    refine ih (b := b.apply c) hrest (suffix_frames_apply hc hbase hfirst) fun k hk => ?_
    exact hdepth (k + 1) (Nat.succ_le_succ hk)

theorem ret_of_depth_lt {n : Nat} (hbefore : n < b.cpu.stack.depth)
    (hafter : b.step.board.cpu.stack.depth ≤ n) : b.executed .step = some .ret := by
  have hdepth {frames : List UInt16} (hframes : (b.apply .step).cpu.stack.frames = frames) :
      frames.length ≤ n := hframes ▸ hafter
  cases hi : b.executed .step with
  | none =>
    have hkept := stack_apply_of_none (c := .step) rfl hi
    exact absurd (hdepth (congrArg CallStack.frames hkept)) (Nat.not_le.2 hbefore)
  | some i =>
    have hlen := hdepth (frames_apply_of_some hi)
    cases i with
    | ret => rfl
    | call nnn => exact absurd (Nat.le_of_succ_le hlen) (Nat.not_le.2 hbefore)
    | _ => exact absurd hlen (Nat.not_le.2 hbefore)

theorem return_to_caller {nnn : Location} (hrun : b.cpu.mode = .running)
    (hi : b.Fetches (.call nnn)) (hroom : b.cpu.stack.depth < stackSize)
    {history : List Command} (hh : ∀ c ∈ history, c.resets = false)
    (habove : ∀ k ≤ history.length,
      b.cpu.stack.depth < (b.step.board.after (history.take k)).cpu.stack.depth)
    (hback : (b.step.board.after history).step.board.cpu.stack.depth ≤ b.cpu.stack.depth) :
    (b.step.board.after history).executed .step = some .ret ∧
      (b.step.board.after history).step.board.cpu.pc = b.cpu.pc + 2 ∧
      (b.step.board.after history).step.board.cpu.stack = b.cpu.stack := by
  have hcall : b.executed .step = some (.call nnn) := by
    refine executed_of_not_faults hrun hi fun f hf => ?_
    cases hf with
    | call hfull => exact absurd hroom (Nat.not_lt.2 (Nat.le_of_eq hfull.symm))
  have hpushed : b.step.board.cpu.stack.frames = (b.cpu.pc + 2) :: b.cpu.stack.frames :=
    frames_apply_of_some hcall
  have hstart : (b.cpu.pc + 2) :: b.cpu.stack.frames <:+ b.step.board.cpu.stack.frames :=
    hpushed ▸ List.suffix_rfl
  have hbase := suffix_frames_after hh hstart habove
  have hlast : b.cpu.stack.depth < (b.step.board.after history).cpu.stack.depth := by
    have := habove history.length le_rfl
    rwa [List.take_length] at this
  have hret := ret_of_depth_lt hlast hback
  have hpopped := ret_of_executed hret
  -- the return leaves no more than the caller had, so nothing lies above its return address
  have hlen : (b.step.board.after history).cpu.stack.frames.length ≤
      ((b.cpu.pc + 2) :: b.cpu.stack.frames).length := by
    rw [hpopped, List.length_cons, List.length_cons]
    exact Nat.succ_le_succ hback
  have hwhole := (hbase.eq_of_length_le hlen).trans hpopped
  obtain ⟨hpc, hframes⟩ := List.cons.inj hwhole
  exact ⟨hret, hpc.symm, CallStack.eq_of_frames hframes.symm⟩

theorem calls_return_in_order {nnn : Location} (hrun : b.cpu.mode = .running)
    (hi : b.Fetches (.call nnn)) (hroom : b.cpu.stack.depth < stackSize)
    {history : List Command} (hh : ∀ c ∈ history, c.resets = false) :
    let called := b.step.board
    let later := called.after history
    let trace := b.executions (.step :: history)
    ((∀ k ≤ history.length, b.cpu.stack.depth < (called.after (history.take k)).cpu.stack.depth) →
      later.step.board.cpu.stack.depth ≤ b.cpu.stack.depth →
      later.executed .step = some .ret ∧
        later.step.board.cpu.pc.toNat = b.cpu.pc.toNat + 2 ∧
        later.step.board.cpu.stack = b.cpu.stack) ∧
    later.cpu.stack.addresses =
      b.cpu.stack.addresses.take (b.cpu.stack.depth - returnsDue trace) ++ openCalls trace ∧
    ∀ n, later.cpu.stack.depth ≤ n → n ≤ 15 → later.cpu.stack.slot n = .ok 0 := by
  intro called later trace
  refine ⟨fun habove hback => ?_, ?_, fun n hn hlt => ?_⟩
  · obtain ⟨hret, hpc, hstack⟩ := return_to_caller hrun hi hroom hh habove hback
    refine ⟨hret, ?_, hstack⟩
    rw [hpc]
    exact Advance.toNat_next hi.inside
  · have hkeep : ∀ c ∈ Command.step :: history, c.resets = false :=
      List.forall_mem_cons.2 ⟨rfl, hh⟩
    have haddresses := addresses_after b hkeep
    rwa [CallStack.length_addresses] at haddresses
  · exact CallStack.slot_of_depth_le hn (Nat.lt_succ_of_le hlt)

theorem calls_return_in_order_nested :
    let b := loaded [0x22, 0x04, 0x12, 0x02, 0x22, 0x08, 0x00, 0xEE, 0x00, 0xEE]
    let history : List Command := [.step, .tick, .step]
    let later := b.step.board.after history
    (b.cpu.mode = .running ∧ b.Fetches (.call 0x204) ∧ b.cpu.stack.depth < stackSize ∧
      ∀ c ∈ history, c.resets = false) ∧
      later.executed .step = some .ret ∧ later.step.board.cpu.pc.toNat = 0x202 ∧
      later.step.board.cpu.stack = b.cpu.stack ∧ later.cpu.stack.addresses = [0x202] := by
  intro b history later
  have hi : b.Fetches (.call 0x204) := fetches_loaded rfl
  have hh : ∀ c ∈ history, c.resets = false := by simp [history, Command.resets]
  obtain ⟨habove, hback, htrace⟩ :
      (∀ k ≤ 3, 0 < (b.step.board.after (history.take k)).cpu.stack.depth) ∧
        later.step.board.cpu.stack.depth ≤ 0 ∧
        openCalls (b.executions (.step :: history)) = [0x202] := by
    decide +kernel
  obtain ⟨hreturn, haddresses, _⟩ := calls_return_in_order rfl hi (by decide) hh
  obtain ⟨hret, hpc, hstack⟩ := hreturn habove hback
  have hempty : b.cpu.stack.addresses = [] := rfl
  refine ⟨⟨rfl, hi, by decide, hh⟩, hret, hpc, hstack, ?_⟩
  rw [haddresses, htrace, hempty, List.take_nil, List.nil_append]

end Board

end ChipEight
