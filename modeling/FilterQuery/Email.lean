namespace FilterQuery

/-!
# Email addresses

An address is accepted by one walk along its characters.  The walk keeps only
where it is: before or inside a piece of the local part, before or inside a label
of the domain, or behind a hyphen of a label.  Within the domain it also keeps
whether a dot has been passed, because a domain has at least two labels.

Nothing is looked up.  Addresses are the common ASCII form without quoting,
comments or addresses in brackets.
-/

namespace Email

/-- The characters of the local part, apart from the dot. -/
def isLocalChar (c : Char) : Bool :=
  c.isAlphanum || "!#$%&'*+/=?^_\u0060\x7b|\x7d~-".toList.contains c

/-- Where the walk along an address is. -/
inductive Position where
  /-- A piece of the local part has to begin. -/
  | pieceStart
  /-- Inside a piece of the local part. -/
  | piece
  /-- A label of the domain has to begin. -/
  | labelStart (dotted : Bool)
  /-- Inside a label, behind a letter or a digit. -/
  | label (dotted : Bool)
  /-- Inside a label, behind a hyphen. -/
  | hyphen (dotted : Bool)
  deriving DecidableEq, Repr

namespace Position

/-- Walk over one character, if the address may go on with it. -/
def step : Position → Char → Option Position
  | pieceStart, c => if isLocalChar c then some piece else none
  | piece, c =>
    if isLocalChar c then some piece
    else if c = '.' then some pieceStart
    else if c = '@' then some (labelStart false)
    else none
  | labelStart dotted, c => if c.isAlphanum then some (label dotted) else none
  | label dotted, c =>
    if c.isAlphanum then some (label dotted)
    else if c = '-' then some (hyphen dotted)
    else if c = '.' then some (labelStart true)
    else none
  | hyphen dotted, c =>
    if c.isAlphanum then some (label dotted)
    else if c = '-' then some (hyphen dotted)
    else none

/-- Whether the address may end here: inside a label that is not the first. -/
def isEnd : Position → Bool
  | label dotted => dotted
  | _ => false

end Position

/-- Whether a text is an address. -/
def isAddress (text : List Char) : Bool :=
  match text.foldlM Position.step .pieceStart with
  | some position => position.isEnd
  | none => false

end Email

end FilterQuery
