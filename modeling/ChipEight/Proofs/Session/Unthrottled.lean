import ChipEight.Proofs.Session.Passes

namespace ChipEight

structure Pace.Unthrottled (p : Pace) : Prop where
  cpu : p.cpu = 0
  timer : p.timer = 0
  refresh : p.refresh = 0

def Pace.unthrottledTo (limit : Option UInt64) : Pace :=
  { Pace.unthrottled with limit }

theorem Pace.unthrottled_unthrottledTo (limit : Option UInt64) :
    (Pace.unthrottledTo limit).Unthrottled :=
  ⟨rfl, rfl, rfl⟩

namespace Run

variable {σ : Type} {h : Host σ} {r : Run σ}

structure Prompt (r : Run σ) : Prop where
  pace : r.session.pace.Unthrottled
  now : r.now = 0
  timer : r.timer = .ofRate 0
  display : r.display = .ofRate 0

theorem Prompt.of_eq {r' : Run σ} (hr : r.Prompt) (hs : r'.session.pace = r.session.pace)
    (hn : r'.now = r.now) (ht : r'.timer = r.timer) (hd : r'.display = r.display) : r'.Prompt :=
  ⟨hs ▸ hr.pace, hn ▸ hr.now, ht ▸ hr.timer, hd ▸ hr.display⟩

theorem Prompt.countTimers_eq (hr : r.Prompt) :
    r.countTimers h = (r.withBoard r.board.tick.1).report h r.board.tick.2 := by
  have hdue : r.timer.due r.now = true := by rw [hr.timer]; rfl
  have hnext : r.timer.advance r.now = r.timer := by rw [hr.timer]; rfl
  simp only [countTimers, hdue, hnext, if_true]
  rfl

theorem Prompt.present_eq (hr : r.Prompt) :
    r.present h =
      { r with
        surroundings := (h.refresh r.surroundings r.board.screen).1
        session := (h.refresh r.surroundings r.board.screen).2.foldl Session.heed r.session } := by
  have hdue : r.display.due r.now = true := by rw [hr.display]; rfl
  have hnext : r.display.advance r.now = r.display := by rw [hr.display]; rfl
  simp only [present, hdue, hnext, if_true]

def overheard (h : Host σ) (r : Run σ) : σ :=
  (r.board.notedAll r.session.queue ++ (r.board.handleAll r.session.queue).tick.2).foldl h.hear
    r.surroundings

theorem Prompt.ready_eq (hr : r.Prompt) :
    r.ready h =
      let board := (r.board.handleAll r.session.queue).tick.1
      let shown := h.refresh (r.overheard h) board.screen
      { r with
        session := shown.2.foldl Session.heed { r.session with queue := [] }
        board
        surroundings := shown.1 } := by
  have hdelivered : (r.deliverAll h).Prompt := by
    rw [deliverAll_eq]
    exact hr.of_eq rfl rfl rfl rfl
  have hcounted : ((r.deliverAll h).countTimers h).Prompt := by
    rw [hdelivered.countTimers_eq]
    exact hdelivered.of_eq rfl rfl rfl rfl
  rw [ready, hcounted.present_eq, hdelivered.countTimers_eq, deliverAll_eq]
  simp only [report, withBoard, overheard, List.foldl_append]

theorem Prompt.board_ready (hr : r.Prompt) :
    (r.ready h).board = (r.board.handleAll r.session.queue).tick.1 := by
  rw [hr.ready_eq]

theorem Prompt.ready (hr : r.Prompt) (h : Host σ) : (r.ready h).Prompt := by
  rw [hr.ready_eq]
  refine hr.of_eq ?_ rfl rfl rfl
  simp only [Session.foldl_heed]

theorem Prompt.attempt (hr : r.Prompt) (h : Host σ) : (r.attempt h).1.Prompt := by
  rw [attempt_eq]
  exact hr.of_eq rfl rfl rfl rfl

theorem Prompt.stopped (hr : r.Prompt) : r.stopped.Prompt := by
  unfold Run.stopped
  split
  · exact hr.of_eq rfl rfl rfl rfl
  · exact hr

theorem Prompt.pass (hr : r.Prompt) (h : Host σ) : (r.pass h).1.Prompt := by
  cases hb : r.barrier with
  | some halt =>
    rw [pass_of_barrier hb]
    exact hr.stopped
  | none =>
    rw [pass_of_clear hb]
    exact (hr.ready h).attempt h

theorem Prompt.elapse_eq (hr : r.Prompt) : r.elapse = r := by
  have hinterval : Cadence.intervalOf r.session.pace.cpu = none := by rw [hr.pace.cpu]; rfl
  rw [elapse, hinterval]
  rfl

theorem prompt_start {s : Session} (hs : s.pace.Unthrottled) (b : Board) (own : σ) :
    (s.start b own).Prompt :=
  ⟨hs, rfl, congrArg Cadence.ofRate hs.timer, congrArg Cadence.ofRate hs.refresh⟩

theorem Prompt.start_eq (hr : r.Prompt) : r.session.start r.board r.surroundings = r := by
  obtain ⟨session, board, surroundings, now, timer, display⟩ := r
  obtain ⟨hpace, hnow, htimer, hdisplay⟩ := hr
  simp only at hpace hnow htimer hdisplay
  simp only [Session.start, hpace.timer, hpace.refresh, hnow, htimer, hdisplay]

theorem Prompt.proceed (hr : r.Prompt) (h : Host σ) (n : Nat) :
    (∀ p ∈ r.passes h n, p.Prompt) ∧ (r.proceed h n).1.Prompt :=
  proceed_invariant (fun _ hp => hp.pass h) (fun _ hp => hp.elapse_eq.symm ▸ hp) n hr

end Run

end ChipEight
