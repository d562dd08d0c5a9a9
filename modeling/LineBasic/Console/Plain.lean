import LineBasic.Text.Basic

/-!
# Plain text

A message may quote what somebody typed, and that must not give orders to a
terminal. The plain form of a text leaves out its escape sequences and all
control characters but tab, line feed, form feed and carriage return. Such a
character inside a sequence suspends it: what follows is shown, until another
control character takes the sequence up again or a character beyond ASCII ends
it. Main statement: `ofText_eq_self`, by which plain text stays as it is.
-/

namespace LineBasic

namespace Plain

/-- How far into an escape sequence a scan is. -/
inductive Sequence where
  | escape
  /-- Behind the escape character and further marks. -/
  | marked
  /-- A control sequence, which a letter or a similar sign ends. -/
  | control
  /-- A command to the operating system, which the bell ends. -/
  | command
  /-- The start of a device string, where anything may come. -/
  | device
  /-- The parameters of a device string. -/
  | parameters
  /-- Marks behind the parameters of a device string. -/
  | markedDevice
  /-- A string, which the string terminator ends. -/
  | string
  deriving DecidableEq, Repr

/-- What a scan does with the next character: shows it, or counts it to a sequence. -/
inductive Mode where
  | shown (suspended : Option Sequence)
  | hidden (s : Sequence)
  deriving DecidableEq, Repr

/-- The control characters that are shown. -/
def isSpacing (c : Char) : Bool := c == '\t' || c == '\n' || c == '\x0c' || c == '\r'

/-- The printing characters of ASCII, the space included. -/
def isPrinting (c : Char) : Bool := ' ' ≤ c && c ≤ '~'

/-- The two control characters that break a sequence off. -/
def isCancel (c : Char) : Bool := c == '\x18' || c == '\x1a'

namespace Sequence

/-- Whether spacing is shown although it stands inside the sequence. -/
def yields : Sequence → Bool
  | escape | marked | control => true
  | command | device | parameters | markedDevice | string => false

/-- The sequence behind one more character, unless that ends it. -/
def after (c : Char) : Sequence → Option Sequence
  | escape =>
    if ' ' ≤ c ∧ c ≤ '/' then some marked
    else if c = '[' then some control
    else if c = ']' then some command
    else if c = 'P' then some device
    else if c = 'X' ∨ c = '^' ∨ c = '_' then some string
    else if isPrinting c then none
    else some escape
  | marked => if '0' ≤ c ∧ c ≤ '~' then none else some marked
  | control => if '@' ≤ c ∧ c ≤ '~' then none else some control
  | command => if c = '\x07' then none else some command
  | device =>
    if ' ' ≤ c ∧ c ≤ '/' then some markedDevice
    else if '0' ≤ c ∧ c ≤ '?' then some parameters
    else if isPrinting c then some string
    else some device
  -- a private parameter is accepted in the first place only; elsewhere the string is void
  | parameters =>
    if ' ' ≤ c ∧ c ≤ '/' then some markedDevice
    else if '<' ≤ c ∧ c ≤ '~' then some string
    else some parameters
  | markedDevice => if '0' ≤ c ∧ c ≤ '~' then some string else some markedDevice
  -- the terminator is a single byte, wherever in an encoded character it stands
  | string => if 0x9C ∈ String.utf8EncodeChar c then none else some string

end Sequence

/-- The mode behind one more character, and whether that character is shown. -/
def Mode.next (c : Char) : Mode → Mode × Bool
  | shown suspended =>
    if c = '\x1b' then (hidden .escape, false)
    else if isPrinting c || isSpacing c then (shown suspended, true)
    else if '\x7f' < c then (shown none, true)
    else if isCancel c then (shown none, false)
    else ((suspended.map hidden).getD (shown none), false)
  | hidden s =>
    if c = '\x1b' then (hidden .escape, false)
    else if isCancel c then (shown none, false)
    else if s.yields && isSpacing c then (shown (some s), true)
    else (((s.after c).map hidden).getD (shown none), false)

/-- What is shown of a text by a scan in this mode. -/
def scan (m : Mode) : Text → Text
  | [] => []
  | c :: t => if (m.next c).2 then c :: scan (m.next c).1 t else scan (m.next c).1 t

/-- The plain form of a text. -/
def ofText (t : Text) : Text := scan (.shown none) t

/-- A character that every plain text may have. -/
def isPlain (c : Char) : Bool := isPrinting c || isSpacing c || '\x7f' < c

theorem next_shown_of_isPlain {c : Char} (h : isPlain c = true) :
    Mode.next c (.shown none) = (.shown none, true) := by
  have escape : c ≠ '\x1b' := by
    rintro rfl
    exact absurd h (by decide)
  rw [isPlain, Bool.or_eq_true, decide_eq_true_eq] at h
  rw [Mode.next, if_neg escape]
  split
  · rfl
  · next hs => rw [if_pos (h.resolve_left hs)]

/-- A text without control characters stays as it is. -/
theorem ofText_eq_self {t : Text} (h : ∀ c ∈ t, isPlain c = true) : ofText t = t := by
  rw [ofText]
  induction t with
  | nil => rfl
  | cons c t ih =>
    rw [scan, next_shown_of_isPlain (h c List.mem_cons_self), if_pos rfl,
      ih fun d hd => h d (List.mem_cons_of_mem c hd)]

end Plain

end LineBasic
