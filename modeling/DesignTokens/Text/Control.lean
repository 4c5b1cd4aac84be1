/-!
# Control sequences

What a terminal would not show of a text is left out: control characters, and sequences that begin
with an escape. A sequence is a single command, a command with parameters behind `[`, or a string
that goes on to its terminator. Only those control characters that are white space are shown.

The main statement is that a text without control characters is shown as it is.
-/

namespace DesignTokens.Text

/-- Where in a control sequence a text stands. -/
inductive ControlState where
  /-- In none. -/
  | outside
  /-- Behind an escape. -/
  | escape
  /-- Behind an escape and other characters that go before a command. -/
  | escapeMiddle
  /-- In a command with parameters. -/
  | command
  /-- At the start of a device string. -/
  | deviceStart
  /-- In the parameters of a device string. -/
  | deviceParameters
  /-- Behind the parameters of a device string. -/
  | deviceMiddle
  /-- In a string that ends with the byte `9C` or a new sequence. -/
  | payload
  /-- In a string that ends with a bell or a new sequence. -/
  | title
deriving DecidableEq, Repr

namespace ControlState

/-- Where a text stands behind a single character that leads out of an escape or further into it. -/
def behindEscape (n : Nat) : ControlState :=
  if n < 0x20 ∨ 0x7F ≤ n then escape
  else if n < 0x30 then escapeMiddle
  else if n = 0x50 then deviceStart
  else if n = 0x5B then command
  else if n = 0x5D then title
  else if n = 0x58 ∨ n = 0x5E ∨ n = 0x5F then payload
  else outside

/-- Where a text stands behind one more character. Cancel, substitute and escape count everywhere. -/
def next (k : ControlState) (c : Char) : ControlState :=
  let n := c.toNat
  let letter := 0x40 ≤ n ∧ n < 0x7F
  if n = 0x18 ∨ n = 0x1A then outside
  else if n = 0x1B then escape
  else match k with
    | outside => outside
    | escape => behindEscape n
    | escapeMiddle => if 0x30 ≤ n ∧ n < 0x7F then outside else escapeMiddle
    | command => if letter then outside else command
    | deviceStart =>
      if letter then payload
      else if 0x30 ≤ n ∧ n < 0x40 then deviceParameters
      else if 0x20 ≤ n ∧ n < 0x30 then deviceMiddle
      else deviceStart
    | deviceParameters =>
      if letter ∨ (0x3C ≤ n ∧ n < 0x40) then payload
      else if 0x20 ≤ n ∧ n < 0x30 then deviceMiddle
      else deviceParameters
    | deviceMiddle => if 0x30 ≤ n ∧ n < 0x7F then payload else deviceMiddle
    | payload => if 0x9C ∈ String.utf8EncodeChar c then outside else payload
    | title => if n = 0x07 then outside else title

/-- Whether a control character is white space. -/
def isBlankControl (c : Char) : Bool :=
  c = '\t' || c = '\n' || c = '\x0c' || c = '\r'

/-- Whether a character is shown where a text stands. Strings hide even white space. -/
def shows (k : ControlState) (c : Char) : Bool :=
  match k with
  | outside => isBlankControl c || (0x20 ≤ c.toNat && c.toNat ≠ 0x7F)
  | escape | escapeMiddle | command => isBlankControl c
  | _ => false

end ControlState

/-- What is shown of a text that stands in a sequence, behind what is already shown in reverse.
White space inside a sequence is shown, and with it what follows up to the next control character;
there the sequence goes on, unless a character outside ASCII has ended it. -/
def visibleFrom : ControlState → Bool → List Char → List Char → List Char
  | _, _, [], shown => shown.reverse
  | k, showing, c :: rest, shown =>
    if (if showing then ControlState.outside else k).shows c then
      visibleFrom (if c.toNat < 0x80 then k else .outside) true rest (c :: shown)
    else visibleFrom (k.next c) false rest shown

/-- What a terminal shows of a text. -/
def visible (s : String) : String :=
  String.ofList (visibleFrom .outside false s.toList [])

theorem visibleFrom_outside {s : List Char} (h : ∀ c ∈ s, ControlState.outside.shows c = true)
    (showing : Bool) (shown : List Char) :
    visibleFrom .outside showing s shown = shown.reverse ++ s := by
  induction s generalizing showing shown with
  | nil => simp [visibleFrom]
  | cons c rest ih =>
    have hc : ControlState.outside.shows c = true := h c (List.mem_cons_self ..)
    have hrest : ∀ d ∈ rest, ControlState.outside.shows d = true :=
      fun d hd => h d (List.mem_cons_of_mem _ hd)
    simp only [visibleFrom, ite_self, hc, if_true, ih hrest, List.reverse_cons, List.append_assoc,
      List.singleton_append]

/-- A text without control characters is shown as it is. -/
theorem visible_eq_self {s : String}
    (h : ∀ c ∈ s.toList, ControlState.outside.shows c = true) : visible s = s := by
  simp [visible, visibleFrom_outside h]

end DesignTokens.Text
