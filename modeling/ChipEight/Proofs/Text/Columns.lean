import ChipEight.Proofs.Text.Lines

namespace ChipEight

def columns (line : Line) : List Line :=
  line.splitOn '\t'

def Inline (c : Char) : Prop :=
  c ≠ '\t' ∧ c ≠ '\n'

instance (c : Char) : Decidable (Inline c) :=
  inferInstanceAs (Decidable (_ ∧ _))

variable {P : Char → Prop} {separator column : Line} {pieces : List Line}

theorem inline_of_all (h : column.all (fun c => Inline c) = true) : ∀ c ∈ column, Inline c :=
  fun c hc => of_decide_eq_true (List.all_eq_true.1 h c hc)

theorem tab_not_mem (h : ∀ c ∈ column, Inline c) : '\t' ∉ column :=
  fun hc => (h _ hc).1 rfl

theorem newline_not_mem (h : ∀ c ∈ column, Inline c) : '\n' ∉ column :=
  fun hc => (h _ hc).2 rfl

theorem columns_append (h : ∀ c ∈ column, Inline c) (line : Line) :
    columns (column ++ '\t' :: line) = column :: columns line :=
  List.splitOn_append_cons_self_of_not_mem (tab_not_mem h) line

theorem columns_eq (h : ∀ c ∈ column, Inline c) : columns column = [column] :=
  List.splitOn_eq_singleton (tab_not_mem h)

theorem forall_mem_intercalate (hseparator : ∀ c ∈ separator, P c)
    (h : ∀ piece ∈ pieces, ∀ c ∈ piece, P c) : ∀ c ∈ separator.intercalate pieces, P c := by
  induction pieces with
  | nil => exact nofun
  | cons piece pieces ih =>
    obtain ⟨hpiece, hpieces⟩ := List.forall_mem_cons.1 h
    cases pieces with
    | nil => rwa [List.intercalate_singleton]
    | cons piece' pieces =>
      rw [List.intercalate_cons_cons]
      exact List.forall_mem_append.2 ⟨List.forall_mem_append.2 ⟨hpiece, hseparator⟩, ih hpieces⟩

theorem intercalate_append_separator {α : Type} {separator : List α} {pieces : List (List α)}
    (hne : pieces ≠ []) :
    separator.intercalate pieces ++ separator = pieces.flatMap (· ++ separator) := by
  induction pieces with
  | nil => exact absurd rfl hne
  | cons piece pieces ih =>
    cases pieces with
    | nil => rw [List.intercalate_singleton, List.flatMap_singleton]
    | cons piece' pieces =>
      rw [List.intercalate_cons_cons, List.append_assoc, ih (List.cons_ne_nil _ _)]
      rfl

def EndsIn (P : Char → Prop) (line : Line) : Prop :=
  ∃ c, line.getLast? = some c ∧ P c

theorem EndsIn.append {line : Line} (h : EndsIn P line) (front : Line) :
    EndsIn P (front ++ line) := by
  obtain ⟨c, hlast, hc⟩ := h
  exact ⟨c, by rw [List.getLast?_append, hlast, Option.some_or], hc⟩

theorem endsIn_of_forall {line : Line} (hne : line ≠ []) (h : ∀ c ∈ line, P c) : EndsIn P line :=
  ⟨line.getLast hne, List.getLast?_eq_some_getLast hne, h _ (List.getLast_mem hne)⟩

theorem endsIn_intercalate (hne : pieces ≠ []) (h : ∀ piece ∈ pieces, EndsIn P piece) :
    EndsIn P (separator.intercalate pieces) := by
  induction pieces with
  | nil => exact absurd rfl hne
  | cons piece pieces ih =>
    obtain ⟨hpiece, hpieces⟩ := List.forall_mem_cons.1 h
    cases pieces with
    | nil => rwa [List.intercalate_singleton]
    | cons piece' pieces =>
      rw [List.intercalate_cons_cons]
      exact (ih (List.cons_ne_nil _ _) hpieces).append _

theorem tokens_append (front line : Line) :
    tokens (front ++ ' ' :: line) = tokens front ++ tokens line := by
  rw [tokens, List.splitOn_append_cons_self, List.filter_append]
  rfl

theorem tokens_intercalate_blanks (pieces : List Line) :
    tokens ([' ', ' '].intercalate pieces) = pieces.flatMap tokens := by
  induction pieces with
  | nil => rfl
  | cons piece pieces ih =>
    cases pieces with
    | nil => rw [List.intercalate_singleton, List.flatMap_singleton]
    | cons piece' pieces =>
      have hcut : [' ', ' '].intercalate (piece :: piece' :: pieces) =
          piece ++ ' ' :: ' ' :: [' ', ' '].intercalate (piece' :: pieces) := by
        rw [List.intercalate_cons_cons, List.append_assoc]
        rfl
      rw [hcut, tokens_append, tokens_blank, ih]
      exact List.flatMap_cons.symm

end ChipEight
