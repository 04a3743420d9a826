/-!
# Errors

One cause per constructor. The wording of each is in the `message` of its type; `Error.message` puts the
part of the library that reports it in front.
-/

namespace PolicyAnalysis

inductive PolicyError where
  | unknownType (name : String)
  | unknownBoolean (name : String)
  | unknownRole (name : String)
  | unknownUser (name : String)
  | unknownClass (name : String)
  | unknownSensitivity (name : String)
  | unknownCategory (name : String)
  | unknownInitialSid (number : UInt32)
  | duplicateSymbol (name : String)
  | unsupportedRule (keyword : String)
  | portsOutOfOrder (low high : UInt16)
  | pkeysOutOfOrder (low high : UInt16)
  | badNetwork (text : String)
  | badExpression (text : String)
  | tooManyBooleans (count max : Nat)
deriving DecidableEq

inductive PermissionMapError where
  | unmappedClass (name : String)
  | unmappedPermission (objectClass perm : String)
  | weightOutOfRange (weight : Int)
  | unknownDirection (text : String)
deriving DecidableEq

inductive AnalysisError where
  | minWeightOutOfRange (weight : Int)
  | maxLengthTooSmall (length : Int)
deriving DecidableEq

inductive SettingsError where
  | unreadable
  | badValue (key reason : String)
deriving DecidableEq

/-- An error with the part of the library that it comes from. -/
inductive Error where
  | policy (e : PolicyError)
  | permissionMap (e : PermissionMapError)
  | analysis (e : AnalysisError)
  | settings (e : SettingsError)
deriving DecidableEq

instance : Coe PolicyError Error := ⟨.policy⟩

instance : Coe PermissionMapError Error := ⟨.permissionMap⟩

instance : Coe AnalysisError Error := ⟨.analysis⟩

instance : Coe SettingsError Error := ⟨.settings⟩

instance : MonadLift (Except PolicyError) (Except Error) := ⟨Except.mapError .policy⟩

instance : MonadLift (Except PermissionMapError) (Except Error) := ⟨Except.mapError .permissionMap⟩

def hexText (n : Nat) : String :=
  "0x" ++ String.ofList (Nat.toDigits 16 n)

def PolicyError.message : PolicyError → String
  | unknownType name => "Invalid type or attribute: " ++ name
  | unknownBoolean name => "Invalid boolean: " ++ name
  | unknownRole name => "Invalid role: " ++ name
  | unknownUser name => "Invalid user: " ++ name
  | unknownClass name => "Invalid object class: " ++ name
  | unknownSensitivity name => "Invalid sensitivity: " ++ name
  | unknownCategory name => "Invalid category: " ++ name
  | unknownInitialSid number => "Unknown initial SID number: " ++ toString number.toNat
  | duplicateSymbol name => "Duplicate symbol: " ++ name
  | unsupportedRule keyword => "Rule type " ++ keyword ++ " does not support this operation"
  | portsOutOfOrder low high =>
    "Invalid port range: " ++ toString low.toNat ++ "-" ++ toString high.toNat
  | pkeysOutOfOrder low high =>
    "Invalid pkey range: " ++ hexText low.toNat ++ "-" ++ hexText high.toNat
  | badNetwork text => "Invalid network: " ++ text
  | badExpression text => "Invalid conditional expression: " ++ text
  | tooManyBooleans count max =>
    "Conditional expression uses " ++ toString count ++ " booleans, at most " ++ toString max ++
      " are supported"

def PermissionMapError.message : PermissionMapError → String
  | unmappedClass name => "Class is not mapped: " ++ name
  | unmappedPermission objectClass perm => "Permission is not mapped: " ++ objectClass ++ ":" ++ perm
  | weightOutOfRange weight => "Weight must be 1-10, got " ++ toString weight
  | unknownDirection text => "Invalid information flow direction: " ++ text

def AnalysisError.message : AnalysisError → String
  | minWeightOutOfRange weight => "Min weight must be 1-10, got " ++ toString weight
  | maxLengthTooSmall length => "Max path length must be at least 1, got " ++ toString length

def SettingsError.message : SettingsError → String
  | unreadable => "Failed to parse configuration"
  | badValue key reason => "Invalid configuration value for " ++ key ++ ": " ++ reason

def Error.message : Error → String
  | policy e => "Policy error: " ++ e.message
  | permissionMap e => "Permission map error: " ++ e.message
  | analysis e => "Analysis error: " ++ e.message
  | settings e => "Configuration error: " ++ e.message

end PolicyAnalysis
