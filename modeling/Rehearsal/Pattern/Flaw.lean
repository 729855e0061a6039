import Rehearsal.Number.Reading

/-! What can be wrong with a pattern, and how it is reported. -/

namespace Rehearsal.Pattern
set_option autoImplicit false
open Rehearsal.Text

inductive Flaw where
  | danglingBackslash
  | incompleteEscape (escape : String)
  | badEscape (escape : String)
  | octalTooLarge (escape : String)
  | missingBrace
  | unknownCharacterName (name : String)
  | missingName (what : String)
  | unterminatedName (terminator : String)
  | badNameCharacter (name : String)
  | unknownName (name : String)
  | nameTaken (name : String) (id first : Nat)
  | openGroup
  | sameLookBehind
  | noSuchGroup (id : Nat)
  | badGroupNumber
  | unterminatedSet
  | badRange (low high : String)
  | leastAboveMost
  | nothingToRepeat
  | multipleRepeat
  | unexpectedEnd
  | unknownExtension (text : String)
  | unterminatedComment
  | unterminatedGroup
  | tooManyBranches
  | globalFlagsLate
  | localeFlag
  | alphabetClash
  | missingFlagsEnd
  | unknownFlag
  | missingFlag
  | missingColon
  | turnsOnGlobal
  | turnsOffGlobal
  | turnsOffAlphabet
  | onAndOff
  | unbalanced
  | tooFarBehind
  | variableLookBehind
  | templateOperator (name : String)
deriving DecidableEq, Repr

def Flaw.text : Flaw → String
  | danglingBackslash => "bad escape (end of pattern)"
  | incompleteEscape e => "incomplete escape " ++ e
  | badEscape e => "bad escape " ++ e
  | octalTooLarge e => "octal escape value " ++ e ++ " outside of range 0-0o377"
  | missingBrace => "missing \x7b"
  | unknownCharacterName n => "undefined character name " ++ quoted n
  | missingName what => "missing " ++ what
  | unterminatedName t => "missing " ++ t ++ ", unterminated name"
  | badNameCharacter n => "bad character in group name " ++ quoted n
  | unknownName n => "unknown group name " ++ quoted n
  | nameTaken n id first =>
    "redefinition of group name " ++ quoted n ++ " as group " ++ toString id ++ "; was group " ++
      toString first
  | openGroup => "cannot refer to an open group"
  | sameLookBehind => "cannot refer to group defined in the same lookbehind subpattern"
  | noSuchGroup id => "invalid group reference " ++ toString id
  | badGroupNumber => "bad group number"
  | unterminatedSet => "unterminated character set"
  | badRange low high => "bad character range " ++ low ++ "-" ++ high
  | leastAboveMost => "min repeat greater than max repeat"
  | nothingToRepeat => "nothing to repeat"
  | multipleRepeat => "multiple repeat"
  | unexpectedEnd => "unexpected end of pattern"
  | unknownExtension t => "unknown extension " ++ t
  | unterminatedComment => "missing ), unterminated comment"
  | unterminatedGroup => "missing ), unterminated subpattern"
  | tooManyBranches => "conditional backref with more than two branches"
  | globalFlagsLate => "global flags not at the start of the expression"
  | localeFlag => "bad inline flags: cannot use 'L' flag with a str pattern"
  | alphabetClash => "bad inline flags: flags 'a', 'u' and 'L' are incompatible"
  | missingFlagsEnd => "missing -, : or )"
  | unknownFlag => "unknown flag"
  | missingFlag => "missing flag"
  | missingColon => "missing :"
  | turnsOnGlobal => "bad inline flags: cannot turn on global flag"
  | turnsOffGlobal => "bad inline flags: cannot turn off global flag"
  | turnsOffAlphabet => "bad inline flags: cannot turn off flags 'a', 'u' and 'L'"
  | onAndOff => "bad inline flags: flag turned on and off"
  | unbalanced => "unbalanced parenthesis"
  | tooFarBehind => "looks too much behind"
  | variableLookBehind => "look-behind requires fixed-width pattern"
  | templateOperator name => "internal: unsupported template operator " ++ name

inductive PatternError where
  /-- A flaw, with the index of the character where it shows. -/
  | malformed (flaw : Flaw) (position : Option Nat)
  | repetitionTooLarge
  | alphabets
  | number (e : Number.NumberError)
deriving DecidableEq, Repr

/-- Line and column of an index, both from 1. -/
def lineColumn (cs : List Char) (position : Nat) : Nat × Nat :=
  let before := cs.take position
  (before.count '\n' + 1, (before.reverse.takeWhile (· != '\n')).length + 1)

/-- Is it a flaw of the pattern? A number out of bounds and a clash of alphabets are reported
otherwise. -/
def PatternError.isMalformed : PatternError → Bool
  | malformed .. => true
  | _ => false

def PatternError.message (pattern : String) : PatternError → String
  | malformed flaw none => flaw.text
  | malformed flaw (some position) =>
    let cs := pattern.toList
    let place := flaw.text ++ " at position " ++ toString position
    if cs.contains '\n' then
      let (line, column) := lineColumn cs position
      place ++ " (line " ++ toString line ++ ", column " ++ toString column ++ ")"
    else place
  | repetitionTooLarge => "the repetition number is too large"
  | alphabets => "ASCII and UNICODE flags are incompatible"
  | number e => e.message

end Rehearsal.Pattern
