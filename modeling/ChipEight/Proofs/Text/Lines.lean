import Mathlib.Data.List.Basic

namespace ChipEight

abbrev Line := List Char

def linesOf (text : String) : List Line :=
  text.toList.splitOn '\n'

def joinLines (lines : List String) : String :=
  String.join (lines.map (· ++ "\n"))

theorem joinLines_append (xs ys : List String) :
    joinLines (xs ++ ys) = joinLines xs ++ joinLines ys := by
  simp [joinLines]

theorem linesOf_joinLines {lines : List String} {last : String}
    (hlines : ∀ line ∈ lines, '\n' ∉ line.toList) (hlast : '\n' ∉ last.toList) :
    linesOf (joinLines lines ++ last) = lines.map String.toList ++ [last.toList] := by
  induction lines with
  | nil =>
    rw [joinLines, List.map_nil, String.join_nil, String.empty_append]
    exact List.splitOn_eq_singleton hlast
  | cons line lines ih =>
    obtain ⟨hline, hlines⟩ := List.forall_mem_cons.1 hlines
    have hcut : (joinLines (line :: lines) ++ last).toList =
        line.toList ++ '\n' :: (joinLines lines ++ last).toList := by
      simp [joinLines]
    rw [linesOf, hcut, List.splitOn_append_cons_self_of_not_mem hline]
    exact congrArg (line.toList :: ·) (ih hlines)

theorem linesOf_joinLines_whole {lines : List String}
    (hlines : ∀ line ∈ lines, '\n' ∉ line.toList) :
    linesOf (joinLines lines) = lines.map String.toList ++ [[]] := by
  have hlast : '\n' ∉ "".toList := by decide
  have hcut := linesOf_joinLines hlines hlast
  rwa [String.append_empty] at hcut

def tokens (line : Line) : List Line :=
  (line.splitOn ' ').filter (· ≠ [])

structure IsToken (token : Line) : Prop where
  ne_nil : token ≠ []
  not_blank : ' ' ∉ token

variable {token : Line}

theorem tokens_blank (line : Line) : tokens (' ' :: line) = tokens line := by
  have hcut : (' ' :: line).splitOn ' ' = [] :: line.splitOn ' ' :=
    List.splitOn_append_cons_self_of_not_mem List.not_mem_nil line
  rw [tokens, hcut]
  rfl

theorem tokens_blanks (n : Nat) (line : Line) :
    tokens (List.replicate n ' ' ++ line) = tokens line := by
  induction n with
  | zero => rfl
  | succ n ih => rw [List.replicate_succ, List.cons_append, tokens_blank, ih]

theorem IsToken.tokens_append (h : IsToken token) (line : Line) :
    tokens (token ++ ' ' :: line) = token :: tokens line := by
  have hcut : (token ++ ' ' :: line).splitOn ' ' = token :: line.splitOn ' ' :=
    List.splitOn_append_cons_self_of_not_mem h.not_blank line
  simp [tokens, hcut, h.ne_nil]

theorem IsToken.tokens_eq (h : IsToken token) : tokens token = [token] := by
  have hwhole : token.splitOn ' ' = [token] := List.splitOn_eq_singleton h.not_blank
  simp [tokens, hwhole, h.ne_nil]

theorem tokens_intercalate {ts : List Line} (h : ∀ t ∈ ts, IsToken t) :
    tokens ([' '].intercalate ts) = ts := by
  induction ts with
  | nil => rfl
  | cons t ts ih =>
    obtain ⟨ht, hts⟩ := List.forall_mem_cons.1 h
    cases ts with
    | nil => rw [List.intercalate_singleton, ht.tokens_eq]
    | cons t' ts =>
      rw [List.intercalate_cons_cons, List.append_assoc, List.singleton_append, ht.tokens_append,
        ih hts]

theorem mapM_map_of_reads {α β : Type} {write : α → β} {read : β → Option α} {xs : List α}
    (h : ∀ a ∈ xs, read (write a) = some a) : (xs.map write).mapM read = some xs := by
  induction xs with
  | nil => rfl
  | cons a xs ih =>
    obtain ⟨ha, hxs⟩ := List.forall_mem_cons.1 h
    rw [List.map_cons, List.mapM_cons, ha, ih hxs]
    rfl

end ChipEight
