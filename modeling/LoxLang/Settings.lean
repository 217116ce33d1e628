import LoxLang.Text.Json

/-!
# Settings

The settings of a run and the faults a settings file can have. A fault falls in one of three
categories: the file ends too early, it is not JSON, or it is JSON of another form.
-/

namespace LoxLang

structure Settings where
  /-- At most this many calls can be in progress. -/
  maxCallDepth : Nat := 1024
  deriving DecidableEq, Repr

/-- A value that stands where another kind of value is wanted. -/
inductive Misfit
  | null
  | bool (b : Bool)
  | natural (n : Nat)
  | negative (n : Nat)
  | number (x : Float)
  | string (s : String)
  | array
  | object

def Misfit.noun : Misfit → String
  | null => "null"
  | bool b => "boolean `" ++ (if b then "true" else "false") ++ "`"
  | natural n => "integer `" ++ digitsOf n ++ "`"
  | negative n => "integer `-" ++ digitsOf n ++ "`"
  | number x => "floating point `" ++ Document.numberFormat.write x ++ "`"
  | string s => "string " ++ Document.quote s
  | array => "sequence"
  | object => "map"

/-- What a value is wanted for. -/
inductive Wanted
  | settings
  | count

def Wanted.noun : Wanted → String
  | settings => "struct InterpreterConfig"
  | count => "usize"

inductive SettingsFault
  | endInArray | endInObject | endInString | endInValue
  | expectedColon | expectedObjectEnd | expectedWord | expectedValue
  | badEscape | badNumber | numberOutOfRange | controlCharacter
  | keyNotString | loneSurrogate | unfinishedSurrogate | trailingComma | trailingText
  | wrongType (found : Misfit) (wanted : Wanted)
  | negativeCount (n : Nat)
  | unknownKey (key : String)
  | repeatedKey

inductive SettingsFaultCategory
  | endsEarly | notJson | wrongForm
  deriving DecidableEq, Repr

namespace SettingsFault

/-- The only key of a settings object. -/
def knownKey : String := "max_call_depth"

def category : SettingsFault → SettingsFaultCategory
  | endInArray | endInObject | endInString | endInValue => .endsEarly
  | wrongType _ _ | negativeCount _ | unknownKey _ | repeatedKey => .wrongForm
  | _ => .notJson

def message : SettingsFault → String
  | endInArray => "EOF while parsing a list"
  | endInObject => "EOF while parsing an object"
  | endInString => "EOF while parsing a string"
  | endInValue => "EOF while parsing a value"
  | expectedColon => "expected `:`"
  | expectedObjectEnd => "expected `,` or `\x7d`"
  | expectedWord => "expected ident"
  | expectedValue => "expected value"
  | badEscape => "invalid escape"
  | badNumber => "invalid number"
  | numberOutOfRange => "number out of range"
  | controlCharacter => "control character (\\u0000-\\u001F) found while parsing a string"
  | keyNotString => "key must be a string"
  | loneSurrogate => "lone leading surrogate in hex escape"
  | unfinishedSurrogate => "unexpected end of hex escape"
  | trailingComma => "trailing comma"
  | trailingText => "trailing characters"
  | wrongType found wanted => "invalid type: " ++ found.noun ++ ", expected " ++ wanted.noun
  | negativeCount n =>
    "invalid value: " ++ (Misfit.negative n).noun ++ ", expected " ++ Wanted.count.noun
  | unknownKey key => "unknown field `" ++ key ++ "`, expected `" ++ knownKey ++ "`"
  | repeatedKey => "duplicate field `" ++ knownKey ++ "`"

end SettingsFault

/-- A fault and how much of the text was read before it: a line, and bytes of that line. -/
structure SettingsError where
  fault : SettingsFault
  line : Nat
  column : Nat

def SettingsError.message (e : SettingsError) : String :=
  e.fault.message ++ " at line " ++ digitsOf e.line ++ " column " ++ digitsOf e.column

end LoxLang
