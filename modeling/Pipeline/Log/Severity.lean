namespace Pipeline.Log

inductive Severity where
  | debug
  | info
  | warning
  | error
  | critical
deriving DecidableEq

namespace Severity

def number : Severity → Nat
  | debug => 10
  | info => 20
  | warning => 30
  | error => 40
  | critical => 50

def label : Severity → String
  | debug => "debug"
  | info => "info"
  | warning => "warning"
  | error => "error"
  | critical => "critical"

def ofCall? (name : String) : Option Severity :=
  match name with
  | "debug" => some debug
  | "info" => some info
  | "warning" | "warn" => some warning
  | "error" | "exception" => some error
  | "critical" | "fatal" => some critical
  | _ => none

end Severity

/-- What a name in capitals stands for: a threshold, or something that is none. -/
inductive Threshold where
  | number (n : Nat)
  | text (s : String)
  | other (literal : String)
deriving DecidableEq

def stylesLiteral : String :=
  "\x7b'%': (<class 'logging.PercentStyle'>, '%(levelname)s:%(name)s:%(message)s'), " ++
    "'\x7b': (<class 'logging.StrFormatStyle'>, " ++
    "'\x7blevelname\x7d:\x7bname\x7d:\x7bmessage\x7d'), " ++
    "'$': (<class 'logging.StringTemplateStyle'>, " ++
    "'$\x7blevelname\x7d:$\x7bname\x7d:$\x7bmessage\x7d')\x7d"

/-- Names that look like thresholds include a text layout and a table of layouts. -/
def Threshold.ofName? (name : String) : Option Threshold :=
  match name with
  | "NOTSET" => some (.number 0)
  | "DEBUG" => some (.number 10)
  | "INFO" => some (.number 20)
  | "WARNING" | "WARN" => some (.number 30)
  | "ERROR" => some (.number 40)
  | "CRITICAL" | "FATAL" => some (.number 50)
  | "BASIC_FORMAT" => some (.text "%(levelname)s:%(name)s:%(message)s")
  | "_STYLES" => some (.other stylesLiteral)
  | _ => none

end Pipeline.Log
