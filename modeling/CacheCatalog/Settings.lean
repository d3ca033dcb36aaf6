import CacheCatalog.Extent
import CacheCatalog.Settings.Pairs
import CacheCatalog.Text.Characters
import CacheCatalog.Text.Numeral

/-!
The settings of a connection and the strings that give them. A string is taken apart as a whole
before any of its values is read; the last pair for a setting wins, but every pair has to be
readable. Decimal sizes are checked when all pairs are in.
-/
namespace CacheCatalog

structure Settings where
  driver : Option String := none
  host : String := "127.0.0.1"
  port : Nat := 10800
  schema : String := "PUBLIC"
  /-- The length of texts that declare none; 0 leaves it open. -/
  stringLength : Nat := 65535
  bytesLength : Nat := 65535
  precision : Nat := 38
  scale : Int := 18
  logLevel : Option String := none
  logFile : Option String := none
  deriving DecidableEq, Repr

inductive SettingKey where
  | driver
  | address
  | schema
  | stringLength
  | bytesLength
  | precision
  | scale
  | logLevel
  | logFile
  deriving DecidableEq, Repr

inductive SettingChange where
  | schema (name : String)
  | address (host : String) (port : Nat)
  | stringLength (length : Nat)
  | bytesLength (length : Nat)
  | decimal (precision : Nat) (scale : Int)
  | log (level file : Option String)
  deriving DecidableEq, Repr

namespace SettingKey

def spellings : List (String × SettingKey) :=
  [("DRIVER", driver), ("ADDRESS", address), ("SERVER", address), ("SCHEMA", schema),
    ("MAX_STRING_LENGTH", stringLength), ("MAX_BINARY_LENGTH", bytesLength),
    ("DECIMAL_PRECISION", precision), ("DECIMAL_SCALE", scale), ("LOG_LEVEL", logLevel),
    ("LOG_FILE", logFile)]

def ofName? (name : String) : Option SettingKey :=
  (spellings.find? fun s => Text.sameName name s.1).map Prod.snd

end SettingKey

namespace Settings

def defaultPort : Nat := 10800

def limits (s : Settings) : Limits where
  stringLength := if s.stringLength = 0 then none else some s.stringLength
  bytesLength := if s.bytesLength = 0 then none else some s.bytesLength
  precision := s.precision
  scale := s.scale

def address (s : Settings) : String := s!"{s.host}:{s.port}"

def logsNothing (s : Settings) : Bool := s.logLevel.any fun level => Text.sameName level "off"

def checkDecimal (precision : Nat) (scale : Int) : Except SettingFault Unit :=
  if precision = 0 ∨ maxPrecision < precision then .error (.precision precision)
  else if scale < 0 ∨ precision < scale then .error (.scale precision scale)
  else .ok ()

def withDecimal (s : Settings) (precision : Nat) (scale : Int) : Except Error Settings :=
  match checkDecimal precision scale with
  | .ok () => .ok { s with precision, scale }
  | .error fault => .error (.setting fault)

def apply (s : Settings) : SettingChange → Except Error Settings
  | .schema schema => .ok { s with schema }
  | .address host port => .ok { s with host, port }
  | .stringLength stringLength => .ok { s with stringLength }
  | .bytesLength bytesLength => .ok { s with bytesLength }
  | .decimal precision scale => s.withDecimal precision scale
  | .log logLevel logFile => .ok { s with logLevel, logFile }

def changed (s : Settings) (change : SettingChange) : Settings :=
  match s.apply change with
  | .ok s => s
  | .error _ => s

/-- A host and a port, which the last colon divides. -/
def readAddress (value : String) : Except SettingFault (String × Nat) :=
  let cs := Text.trim value.toList
  let port := (cs.reverse.takeWhile (· != ':')).reverse
  match cs.reverse.dropWhile (· != ':') with
  | [] => if cs.isEmpty then .error .emptyAddress else .ok (String.ofList cs, defaultPort)
  | _ :: host =>
    match Text.word? 16 port with
    | some n => .ok (String.ofList host.reverse, n)
    | none => .error (.port (String.ofList port))

def readNumber {α : Type} (read : List Char → Option α) (key value : String) :
    Except SettingFault α :=
  match read (Text.trim value.toList) with
  | some n => .ok n
  | none => .error (.number key value)

def set (s : Settings) (pair : String × String) : Except SettingFault Settings :=
  let (key, value) := pair
  match SettingKey.ofName? key with
  | none => .ok s
  | some .driver => .ok { s with driver := some value }
  | some .address => (readAddress value).map fun (host, port) => { s with host, port }
  | some .schema => .ok { s with schema := value }
  | some .stringLength =>
    (readNumber (Text.word? 32) key value).map fun n => { s with stringLength := n }
  | some .bytesLength =>
    (readNumber (Text.word? 32) key value).map fun n => { s with bytesLength := n }
  | some .precision => (readNumber (Text.word? 16) key value).map fun n => { s with precision := n }
  | some .scale => (readNumber (Text.signedWord? 16) key value).map fun n => { s with scale := n }
  | some .logLevel => .ok { s with logLevel := some value }
  | some .logFile => .ok { s with logFile := some value }

def setAll (s : Settings) : List (String × String) → Except SettingFault Settings
  | [] => .ok s
  | pair :: rest =>
    match s.set pair with
    | .ok s => setAll s rest
    | .error fault => .error fault

def read (text : String) : Except SettingFault Settings := do
  let settings ← setAll {} (← pairs text.toList)
  checkDecimal settings.precision settings.scale
  return settings

def parse (text : String) : Except Error Settings := (read text).mapError .setting

end Settings
end CacheCatalog
