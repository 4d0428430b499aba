import ChipEight.Board.Execution

namespace ChipEight

namespace Effect

def finish (e : Effect) : Reply Notice :=
  match e.outcome with
  | .ok (advance, notice) =>
    let cpu := { e.board.cpu with pc := advance.apply e.board.cpu.pc }
    { board := { e.board with cpu }, outcome := .ok notice, log := e.log }
  | .error f => { board := e.board, outcome := .error f, log := e.log }

end Effect

namespace Board

def perform (b : Board) (w : Word) : Reply Notice :=
  match Instruction.decode w with
  | none =>
    { board := b.setBroken true
      outcome := .error (.undecodable w)
      log := [.undecodable b.cpu.pc w] }
  | some i =>
    let reply := (b.execute i).finish
    { reply with log := .executing b.cpu.pc w i :: reply.log }

def step (b : Board) : Reply Notice :=
  match b.cpu.mode with
  | .awaitingKey _ => { board := b, outcome := .ok .wait }
  | .running =>
    match b.memory.word b.cpu.pc.toNat with
    | .error f => { board := b, outcome := .error f }
    | .ok w => b.perform w

end Board

end ChipEight
