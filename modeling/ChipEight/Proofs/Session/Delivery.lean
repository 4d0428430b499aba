import ChipEight.Proofs.Board.Keys
import ChipEight.Proofs.Session.Console

namespace ChipEight

namespace Board

theorem handleAll_filter (b : Board) (es : List KeyEvent) :
    b.handleAll es = b.handleAll (es.filter (·.key ≤ 15)) := by
  induction es generalizing b with
  | nil => rfl
  | cons e es ih =>
    rcases Nat.lt_or_ge 15 e.key with he | he
    · have hrest : (e :: es).filter (·.key ≤ 15) = es.filter (·.key ≤ 15) :=
        List.filter_cons_of_neg (by simpa using he)
      rw [hrest, ← ih b]
      exact congrArg (handleAll · es) (b.handleKey_of_noKey he)
    · have hrest : (e :: es).filter (·.key ≤ 15) = e :: es.filter (·.key ≤ 15) :=
        List.filter_cons_of_pos (by simpa using he)
      rw [hrest]
      exact ih _

end Board

namespace Run

variable {σ : Type} {h : Host σ} {r : Run (σ × Journal)}

def Balanced (r : Run (σ × Journal)) : Prop :=
  r.journal.handed ++ r.session.queue = r.journal.sent

@[simp]
theorem queue_attempt (h : Host σ) (r : Run (σ × Journal)) :
    (r.attempt h.journaled).1.session.queue = r.session.queue := by
  rw [attempt_eq]
  rfl

@[simp]
theorem queue_stopped (r : Run (σ × Journal)) : r.stopped.session.queue = r.session.queue := by
  unfold stopped
  split <;> rfl

theorem Balanced.ready (hr : r.Balanced) (hprompt : r.Prompt) :
    (r.ready h.journaled).journal.handed = r.journal.sent ∧
      (r.ready h.journaled).journal.sent =
        r.journal.sent ++ (r.ready h.journaled).session.queue := by
  rw [hprompt.journal_ready]
  exact ⟨hr, rfl⟩

theorem Balanced.pass (hr : r.Balanced) (hprompt : r.Prompt) :
    (r.pass h.journaled).1.Balanced := by
  cases hb : r.barrier with
  | some halt =>
    rw [pass_of_barrier hb]
    simpa [Balanced] using hr
  | none =>
    obtain ⟨hhanded, hsent⟩ := hr.ready (h := h) hprompt
    rw [pass_of_clear hb]
    simp [Balanced, hhanded, hsent]

theorem Balanced.proceed (hr : r.Balanced) (hprompt : r.Prompt) (n : Nat) :
    (∀ p ∈ r.passes h.journaled n, p.Prompt ∧ p.Balanced) ∧
      (r.proceed h.journaled n).1.Prompt ∧ (r.proceed h.journaled n).1.Balanced :=
  proceed_invariant (fun _ hp => ⟨hp.1.pass _, hp.2.pass hp.1⟩)
    (fun _ hp => hp.1.elapse_eq.symm ▸ hp) n ⟨hprompt, hr⟩

end Run

namespace Console

variable {σ : Type} {h : Host σ} {c : Console σ}

structure InOrder (c : Console σ) : Prop where
  pace : c.session.pace.Unthrottled
  balanced : c.journal.handed ++ c.session.queue = c.journal.sent

theorem InOrder.prompt (hc : c.InOrder) : (c.launch h).Prompt :=
  (Run.prompt_start hc.pace c.board (c.own, c.journal)).of_eq rfl rfl rfl rfl

theorem InOrder.launch (hc : c.InOrder) : (c.launch h).Balanced := by
  rw [Run.Balanced, journal_launch]
  exact hc.balanced

theorem InOrder.apply (hc : c.InOrder) (call : HostCall σ) : (c.apply h call).InOrder := by
  cases call with
  | run =>
    obtain ⟨_, hprompt, hbalanced⟩ := hc.launch.proceed (h := h) hc.prompt c.session.allowance
    exact ⟨hprompt.pace, hbalanced⟩
  | send e =>
    refine ⟨hc.pace, ?_⟩
    have hbalanced := congrArg (· ++ [e]) hc.balanced
    simp only [List.append_assoc] at hbalanced
    exact hbalanced
  | addBreakpoint pc =>
    simp only [Console.apply, Session.addBreakpoint]
    split <;> exact ⟨hc.pace, hc.balanced⟩
  | interrupt | removeBreakpoint pc | changeBoard change | changeOwn change =>
    exact ⟨hc.pace, hc.balanced⟩

theorem inOrder_opening (limit : Option UInt64) (b : Board) (own : σ) :
    (opening (.unthrottledTo limit) b own).InOrder :=
  ⟨Pace.unthrottled_unthrottledTo limit, rfl⟩

theorem key_events_in_order (h : Host σ) (limit : Option UInt64) (b : Board) (own : σ)
    (calls : List (HostCall σ)) :
    let c := (opening (.unthrottledTo limit) b own).after h calls
    c.journal.handed ++ c.session.queue = c.journal.sent ∧
      ((c.passes h).head? = some (c.launch h) ∧ (c.launch h).session = c.session ∧
        (c.launch h).board = c.board ∧ (c.launch h).journal = c.journal ∧
        (c.passes h).IsChain (Run.GoesOn h.journaled) ∧
        ∃ last, (c.passes h).getLast? = some last ∧
          c.session.run h.journaled c.board (c.own, c.journal) =
            Run.conclude (last.pass h.journaled)) ∧
      (∀ p ∈ c.passes h,
        p.journal.handed ++ p.session.queue = p.journal.sent ∧
          (∀ halt, p.barrier = some halt →
            (p.pass h.journaled).2 = some halt ∧
              (p.pass h.journaled).1.session.queue = p.session.queue ∧
              (p.pass h.journaled).1.journal = p.journal) ∧
          (p.barrier = none →
            let q := p.ready h.journaled
            p.pass h.journaled = q.attempt h.journaled ∧
              q.board = (p.board.handleAll p.session.queue).tick.1 ∧
              q.journal.handed = p.journal.sent ∧
              q.journal.sent = p.journal.sent ++ q.session.queue)) ∧
      ∀ (b : Board) (es : List KeyEvent),
        (∀ e, 15 < e.key → (b.handleKey e).board = b) ∧
          b.handleAll es = b.handleAll (es.filter (·.key ≤ 15)) := by
  intro c
  have hc : c.InOrder :=
    after_invariant (fun _ call hc => hc.apply call) (inOrder_opening limit b own) calls
  have hpasses : (c.passes h).IsChain (Run.GoesOn h.journaled) :=
    Run.isChain_passes h.journaled _ (c.launch h)
  refine ⟨hc.balanced, ⟨c.head?_passes h, rfl, rfl, c.journal_launch h, hpasses,
    c.exists_last_pass h⟩, fun p hp => ?_, fun b es => ⟨fun e he => b.handleKey_of_noKey he,
    b.handleAll_filter es⟩⟩
  obtain ⟨hprompt, hbalanced⟩ := (hc.launch.proceed (h := h) hc.prompt _).1 p hp
  refine ⟨hbalanced, fun halt hb => ?_, fun hb => ?_⟩
  · rw [Run.pass_of_barrier hb]
    exact ⟨rfl, p.queue_stopped, p.journal_stopped⟩
  · obtain ⟨hhanded, hsent⟩ := hbalanced.ready (h := h) hprompt
    exact ⟨Run.pass_of_clear hb, hprompt.board_ready, hhanded, hsent⟩

theorem key_events_in_order_interrupted :
    let shown (n : Nat) : List Signal :=
      if n = 0 then [.key ⟨20, true⟩, .key ⟨5, true⟩] else [.key ⟨5, false⟩, .interrupt]
    let h := Host.calling fun n _ => (n + 1, shown n)
    let b := Board.loaded [0xF1, 0x0A, 0x60, 0x07]
    let c := (opening (.unthrottledTo none) b 0).after h [.send ⟨3, true⟩]
    let ended := c.session.run h.journaled c.board (c.own, c.journal)
    (c.passes h).map (·.session.queue) = [[⟨3, true⟩], [⟨20, true⟩, ⟨5, true⟩], [⟨5, false⟩]] ∧
      ended.2 = .interrupted ∧ ended.1.session.queue = [⟨5, false⟩] ∧
      ended.1.journal.handed = [⟨3, true⟩, ⟨20, true⟩, ⟨5, true⟩] := by
  intro shown h b c ended
  obtain ⟨_, ⟨_, _, _, _, _, last, hlast, hend⟩, hpasses, _⟩ :=
    key_events_in_order h none b 0 [.send ⟨3, true⟩]
  have hqueues : (c.passes h).map (·.session.queue) =
      [[⟨3, true⟩], [⟨20, true⟩, ⟨5, true⟩], [⟨5, false⟩]] := by
    decide +kernel
  have hstate : (c.passes h).getLast?.map
      (fun p => (p.barrier, p.session.queue, p.journal.handed)) =
        some (some .interrupted, [⟨5, false⟩], [⟨3, true⟩, ⟨20, true⟩, ⟨5, true⟩]) := by
    decide +kernel
  rw [hlast] at hstate
  obtain ⟨hbarrier, hrest⟩ := Prod.mk.inj (Option.some.inj hstate)
  obtain ⟨hqueue, hhanded⟩ := Prod.mk.inj hrest
  obtain ⟨_, hstopped, _⟩ := hpasses last (List.mem_of_getLast? hlast)
  obtain ⟨hhalt, hkept, hjournal⟩ := hstopped .interrupted hbarrier
  have hended : ended = ((last.pass h.journaled).1, .interrupted) :=
    hend.trans (Run.conclude_of_halt hhalt)
  rw [hended]
  exact ⟨hqueues, rfl, hkept.trans hqueue, (congrArg Journal.handed hjournal).trans hhanded⟩

end Console

end ChipEight
