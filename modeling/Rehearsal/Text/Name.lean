/-! Names of characters: of those of Basic Latin and of its first supplement, and of the control
characters that have one. Capital and small letters are not told apart in a name. -/

namespace Rehearsal.Text
set_option autoImplicit false

/-- Names of neighbours, each row with the code point of its first one. -/
def nameRows : List (Nat × List String) := [
  (0x20, [
    "SPACE", "EXCLAMATION MARK", "QUOTATION MARK", "NUMBER SIGN", "DOLLAR SIGN", "PERCENT SIGN",
    "AMPERSAND", "APOSTROPHE", "LEFT PARENTHESIS", "RIGHT PARENTHESIS", "ASTERISK", "PLUS SIGN",
    "COMMA", "HYPHEN-MINUS", "FULL STOP", "SOLIDUS", "DIGIT ZERO", "DIGIT ONE", "DIGIT TWO",
    "DIGIT THREE", "DIGIT FOUR", "DIGIT FIVE", "DIGIT SIX", "DIGIT SEVEN", "DIGIT EIGHT",
    "DIGIT NINE", "COLON", "SEMICOLON", "LESS-THAN SIGN", "EQUALS SIGN", "GREATER-THAN SIGN",
    "QUESTION MARK", "COMMERCIAL AT"]),
  (0x5B, [
    "LEFT SQUARE BRACKET", "REVERSE SOLIDUS", "RIGHT SQUARE BRACKET", "CIRCUMFLEX ACCENT",
    "LOW LINE", "GRAVE ACCENT"]),
  (0x7B, [
    "LEFT CURLY BRACKET", "VERTICAL LINE", "RIGHT CURLY BRACKET", "TILDE"]),
  (0xA0, [
    "NO-BREAK SPACE", "INVERTED EXCLAMATION MARK", "CENT SIGN", "POUND SIGN", "CURRENCY SIGN",
    "YEN SIGN", "BROKEN BAR", "SECTION SIGN", "DIAERESIS", "COPYRIGHT SIGN",
    "FEMININE ORDINAL INDICATOR", "LEFT-POINTING DOUBLE ANGLE QUOTATION MARK", "NOT SIGN",
    "SOFT HYPHEN", "REGISTERED SIGN", "MACRON", "DEGREE SIGN", "PLUS-MINUS SIGN",
    "SUPERSCRIPT TWO", "SUPERSCRIPT THREE", "ACUTE ACCENT", "MICRO SIGN", "PILCROW SIGN",
    "MIDDLE DOT", "CEDILLA", "SUPERSCRIPT ONE", "MASCULINE ORDINAL INDICATOR",
    "RIGHT-POINTING DOUBLE ANGLE QUOTATION MARK", "VULGAR FRACTION ONE QUARTER",
    "VULGAR FRACTION ONE HALF", "VULGAR FRACTION THREE QUARTERS", "INVERTED QUESTION MARK"])]

/-- Letters of the supplement that come capital and small; the place without one is no letter's. -/
def pairedLetters : List String := [
  "A WITH GRAVE", "A WITH ACUTE", "A WITH CIRCUMFLEX", "A WITH TILDE", "A WITH DIAERESIS",
  "A WITH RING ABOVE", "AE", "C WITH CEDILLA", "E WITH GRAVE", "E WITH ACUTE",
  "E WITH CIRCUMFLEX", "E WITH DIAERESIS", "I WITH GRAVE", "I WITH ACUTE", "I WITH CIRCUMFLEX",
  "I WITH DIAERESIS", "ETH", "N WITH TILDE", "O WITH GRAVE", "O WITH ACUTE", "O WITH CIRCUMFLEX",
  "O WITH TILDE", "O WITH DIAERESIS", "", "O WITH STROKE", "U WITH GRAVE", "U WITH ACUTE",
  "U WITH CIRCUMFLEX", "U WITH DIAERESIS", "Y WITH ACUTE", "THORN"]

/-- Names that stand alone: the rest of the supplement, control characters and short names. -/
def singleNames : List (Nat × List String) := [
  (0, ["NULL", "NUL"]),
  (1, ["START OF HEADING", "SOH"]),
  (2, ["START OF TEXT", "STX"]),
  (3, ["END OF TEXT", "ETX"]),
  (4, ["END OF TRANSMISSION", "EOT"]),
  (5, ["ENQUIRY", "ENQ"]),
  (6, ["ACKNOWLEDGE", "ACK"]),
  (7, ["ALERT", "BEL"]),
  (8, ["BACKSPACE", "BS"]),
  (9, ["CHARACTER TABULATION", "HORIZONTAL TABULATION", "HT", "TAB"]),
  (10, ["LINE FEED", "NEW LINE", "END OF LINE", "LF", "NL", "EOL"]),
  (11, ["LINE TABULATION", "VERTICAL TABULATION", "VT"]),
  (12, ["FORM FEED", "FF"]),
  (13, ["CARRIAGE RETURN", "CR"]),
  (14, ["SHIFT OUT", "LOCKING-SHIFT ONE", "SO"]),
  (15, ["SHIFT IN", "LOCKING-SHIFT ZERO", "SI"]),
  (16, ["DATA LINK ESCAPE", "DLE"]),
  (17, ["DEVICE CONTROL ONE", "DC1"]),
  (18, ["DEVICE CONTROL TWO", "DC2"]),
  (19, ["DEVICE CONTROL THREE", "DC3"]),
  (20, ["DEVICE CONTROL FOUR", "DC4"]),
  (21, ["NEGATIVE ACKNOWLEDGE", "NAK"]),
  (22, ["SYNCHRONOUS IDLE", "SYN"]),
  (23, ["END OF TRANSMISSION BLOCK", "ETB"]),
  (24, ["CANCEL", "CAN"]),
  (25, ["END OF MEDIUM", "EOM"]),
  (26, ["SUBSTITUTE", "SUB"]),
  (27, ["ESCAPE", "ESC"]),
  (28, ["INFORMATION SEPARATOR FOUR", "FILE SEPARATOR", "FS"]),
  (29, ["INFORMATION SEPARATOR THREE", "GROUP SEPARATOR", "GS"]),
  (30, ["INFORMATION SEPARATOR TWO", "RECORD SEPARATOR", "RS"]),
  (31, ["INFORMATION SEPARATOR ONE", "UNIT SEPARATOR", "US"]),
  (32, ["SP"]),
  (127, ["DELETE", "DEL"]),
  (133, ["NEXT LINE", "NEL"]),
  (160, ["NBSP"]),
  (173, ["SHY"]),
  (0xD7, ["MULTIPLICATION SIGN"]),
  (0xDF, ["LATIN SMALL LETTER SHARP S"]),
  (0xF7, ["DIVISION SIGN"]),
  (0xFF, ["LATIN SMALL LETTER Y WITH DIAERESIS"])]

/-- A row spelt out: every name with its code point. -/
def numbered (first : Nat) (names : List String) : List (String × Nat) :=
  names.zip (List.range' first names.length)

def alphabet : List String := (List.range' 65 26).map fun n => (Char.ofNat n).toString

def letterNames : List (String × Nat) :=
  numbered 0x41 (alphabet.map ("LATIN CAPITAL LETTER " ++ ·)) ++
    numbered 0x61 (alphabet.map ("LATIN SMALL LETTER " ++ ·)) ++
    (numbered 0xC0 pairedLetters).filterMap (fun (n, c) =>
      if n.isEmpty then none else some ("LATIN CAPITAL LETTER " ++ n, c)) ++
    (numbered 0xE0 pairedLetters).filterMap (fun (n, c) =>
      if n.isEmpty then none else some ("LATIN SMALL LETTER " ++ n, c))

/-- Every known name with the code point of its character. -/
def characterNames : List (String × Nat) :=
  nameRows.flatMap (fun (first, names) => numbered first names) ++ letterNames ++
    singleNames.flatMap (fun (c, names) => names.map (·, c))

def characterNamed? (name : String) : Option Nat :=
  characterNames.lookup (String.ofList (name.toList.map Char.toUpper))

end Rehearsal.Text
