/-! # The rule

The library has one rule: an if statement that only throws when a token is cancelled. -/

namespace CancellationLint

/-- How loudly the rule speaks up. -/
inductive Severity where
  | error
  | warning
  | info
  | hidden
  deriving DecidableEq, Repr, Inhabited

def Severity.name : Severity → String
  | .error => "error"
  | .warning => "warning"
  | .info => "info"
  | .hidden => "hidden"

def Severity.ofName? (name : String) : Option Severity :=
  [.error, .warning, .info, .hidden].find? fun severity => severity.name = name

structure Rule where
  id : String
  title : String
  message : String
  description : String
  category : String
  severity : Severity
  enabled : Bool
  deriving Repr

/-- Severity and enabling hold unless settings say otherwise. -/
def Rule.useThrowIfCancelled : Rule where
  id := "UseThrowIfCancellationRequested"
  title := "Use ThrowIfCancellationRequested"
  message := "Replace if statement with ThrowIfCancellationRequested()"
  description :=
    "An if statement that only throws when a CancellationToken reports cancellation " ++
      "can be replaced by a call to CancellationToken.ThrowIfCancellationRequested()."
  category := "Naming"
  severity := .warning
  enabled := true

/-- The simple name of the type that the receiver must have. -/
def tokenType : String := "CancellationToken"

/-- The method that is called instead. -/
def throwMethod : String := "ThrowIfCancellationRequested"

/-- The title under which the fix is offered. -/
def fixTitle : String := "Use ThrowIfCancellationRequested()"

end CancellationLint
