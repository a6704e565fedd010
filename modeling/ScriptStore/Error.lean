import ScriptStore.Text.Ascii

/-!
# Errors

An error is a cause. The causes come in five kinds, which callers tell apart, and
`Error.message` is the only place that words them.

* `ArgumentFault`, `CommandFault`, `ScriptFault`, `LifecycleFault` — the causes of four kinds; a
  wrong type is the fifth and has no more to say.
* `Error.isCommandError` — whether the error comes from the command dispatcher.

This is the enumeration `Error`; the texts are those of every place that makes one.
-/

namespace ScriptStore

/-- Why the arguments of an operation are refused. -/
inductive ArgumentFault where
  | nilArgument
  | containerArgument
  | tooFewArguments (name : String) (keys given : Nat)
  | zeroInterval
  | zeroTimeout
  | other (text : String)
  deriving DecidableEq, Repr

/-- Why a command is refused. -/
inductive CommandFault where
  | unknown (name : String)
  | wrongArity (name : String)
  | malformed
  | notAnInteger
  | notAFloat
  | overflow
  | decrementOverflow
  | invalidExpiry (command : String)
  | invalidClientName
  | clientArity (subcommand : String)
  | unsupportedClient (subcommand : String)
  | unknownCustom (name : String)
  | nothingToCall (function : String)
  | unsuitableArgument
  | unexpectedReply (command reply : String)
  | other (text : String)
  deriving DecidableEq, Repr

/-- Why a script has no reply. -/
inductive ScriptFault where
  | doesNotCompile (name detail : String)
  | uncaught (text : String)
  | replyTooDeep
  deriving DecidableEq, Repr

/-- Why scripting cannot be used. -/
inductive LifecycleFault where
  | disposed
  | other (text : String)
  deriving DecidableEq, Repr

inductive Error where
  | invalidArgument (fault : ArgumentFault)
  | command (fault : CommandFault)
  | wrongType
  | script (fault : ScriptFault)
  | lifecycle (fault : LifecycleFault)
  deriving DecidableEq, Repr

def ArgumentFault.message : ArgumentFault → String
  | .nilArgument => "nil is not a valid argument"
  | .containerArgument => "arguments must be strings or numbers"
  | .tooFewArguments name keys given =>
    "'" ++ name ++ "' expects at least " ++ toString keys ++ " key(s), got " ++
      toString given ++ " argument(s)"
  | .zeroInterval => "hook_instruction_interval must be > 0"
  | .zeroTimeout => "script_timeout must be > 0"
  | .other text => text

def CommandFault.message : CommandFault → String
  | .unknown name => "ERR unknown command '" ++ name ++ "'"
  | .wrongArity name => "ERR wrong number of arguments for '" ++ asciiLower name ++ "' command"
  | .malformed => "ERR syntax error"
  | .notAnInteger => "ERR value is not an integer or out of range"
  | .notAFloat => "ERR value is not a valid float"
  | .overflow => "ERR increment or decrement would overflow"
  | .decrementOverflow => "ERR decrement would overflow"
  | .invalidExpiry command => "ERR invalid expire time in '" ++ command ++ "' command"
  | .invalidClientName =>
    "ERR Client names cannot contain spaces, newlines or special characters."
  | .clientArity subcommand =>
    "ERR wrong number of arguments for 'client|" ++ subcommand ++ "' command"
  | .unsupportedClient subcommand => "ERR unsupported CLIENT subcommand '" ++ subcommand ++ "'"
  | .unknownCustom name => "ERR unknown custom command '" ++ name ++ "'"
  | .nothingToCall function =>
    "ERR Please specify at least one argument for redis." ++ function ++ "()"
  | .unsuitableArgument => "ERR Lua redis() command arguments must be strings or integers"
  | .unexpectedReply command reply => "ERR unexpected reply to " ++ command ++ ": " ++ reply
  | .other text => text

def ScriptFault.message : ScriptFault → String
  | .doesNotCompile name detail => "failed to compile '" ++ name ++ "': " ++ detail
  | .uncaught text => text
  | .replyTooDeep => "reply table nested too deeply"

def LifecycleFault.message : LifecycleFault → String
  | .disposed => "script runtime has been disposed"
  | .other text => text

/-- The text of an error. Every kind but a refused command announces itself. -/
def Error.message : Error → String
  | .invalidArgument fault => "Invalid argument: " ++ fault.message
  | .command fault => fault.message
  | .wrongType => "WRONGTYPE Operation against a key holding the wrong kind of value"
  | .script fault => "Script error: " ++ fault.message
  | .lifecycle fault => "Lifecycle error: " ++ fault.message

def Error.isCommandError : Error → Bool
  | .command _ | .wrongType => true
  | _ => false

end ScriptStore
