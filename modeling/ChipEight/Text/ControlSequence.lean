namespace ChipEight.ControlSequence

inductive Place where
  | text
  | escape
  | escapeIntermediate
  | parameters
  | deviceEntry
  | deviceParameters
  | deviceIntermediate
  | deviceData
  | command
  | string
  deriving DecidableEq, Repr

def escapeCharacter : Char := '\x1b'

def isCancel (c : Char) : Bool :=
  c = '\x18' || c = '\x1a'

def hasTerminator (c : Char) : Bool :=
  (String.utf8EncodeChar c).any (· == 0x9C)

def isIntermediate (c : Char) : Bool :=
  ' ' ≤ c && c ≤ '/'

def isParameter (c : Char) : Bool :=
  '0' ≤ c && c ≤ '?'

def isFinal (c : Char) : Bool :=
  '@' ≤ c && c ≤ '~'

def isWhite (c : Char) : Bool :=
  c = '\t' || c = '\n' || c = '\x0c' || c = '\r'

def isShown (c : Char) : Bool :=
  isWhite c || ' ' ≤ c && c ≠ '\x7f'

namespace Place

def afterEscape (c : Char) : Place :=
  match c with
  | '[' => parameters
  | ']' => command
  | 'P' => deviceEntry
  | 'X' | '^' | '_' => string
  | _ =>
    if isIntermediate c then escapeIntermediate
    else if isParameter c || isFinal c then text
    else escape

def next (p : Place) (c : Char) : Place :=
  if c = escapeCharacter then escape
  else if isCancel c then text
  else match p with
    | text => text
    | escape => afterEscape c
    | escapeIntermediate => if isParameter c || isFinal c then text else escapeIntermediate
    | parameters => if isFinal c then text else parameters
    | deviceEntry =>
      if isFinal c then deviceData
      else if isIntermediate c then deviceIntermediate
      else if isParameter c then deviceParameters
      else deviceEntry
    | deviceParameters =>
      if isFinal c || '<' ≤ c && c ≤ '?' then deviceData
      else if isIntermediate c then deviceIntermediate
      else deviceParameters
    | deviceIntermediate =>
      if isFinal c || isParameter c then deviceData else deviceIntermediate
    | deviceData => if hasTerminator c then text else deviceData
    | command => if c = '\x07' then text else command
    | string => if hasTerminator c then text else string

def shows (p : Place) (c : Char) : Bool :=
  match p with
  | text => isShown c
  | escape | escapeIntermediate | parameters => isWhite c
  | _ => false

def passes (p : Place) (showing : Bool) (c : Char) : Bool :=
  bif showing then isShown c else p.shows c

def behind (p : Place) (c : Char) : Place :=
  if c < '\x80' then p else text

end Place

-- Once a character is shown all are, up to the next control character.
def stripFrom (p : Place) (showing : Bool) : List Char → List Char
  | [] => []
  | c :: rest =>
    if p.passes showing c then c :: stripFrom (p.behind c) true rest
    else stripFrom (p.next c) false rest

def strip (text : String) : String :=
  String.ofList (stripFrom .text false text.toList)

theorem isShown_of_shows {p : Place} {c : Char} (h : p.shows c = true) : isShown c = true := by
  cases p <;> simp_all [Place.shows, isShown]

theorem isShown_of_passes {p : Place} {showing : Bool} {c : Char}
    (h : p.passes showing c = true) : isShown c = true := by
  cases showing with
  | false => exact isShown_of_shows h
  | true => exact h

theorem isShown_of_mem_stripFrom {p : Place} {showing : Bool} {cs : List Char} {c : Char}
    (h : c ∈ stripFrom p showing cs) : isShown c = true := by
  induction cs generalizing p showing with
  | nil => exact absurd h List.not_mem_nil
  | cons d rest ih =>
    rw [stripFrom] at h
    split at h
    · next hd =>
      rcases List.mem_cons.1 h with rfl | h
      · exact isShown_of_passes hd
      · exact ih h
    · exact ih h

theorem stripFrom_of_isShown {cs : List Char} (h : ∀ c ∈ cs, isShown c = true) :
    ∀ {p : Place}, stripFrom p true cs = cs := by
  induction cs with
  | nil => intro p; rfl
  | cons d rest ih =>
    intro p
    have hd : p.passes true d = true := h d List.mem_cons_self
    rw [stripFrom, if_pos hd, ih fun c hc => h c (List.mem_cons_of_mem d hc)]

end ChipEight.ControlSequence
