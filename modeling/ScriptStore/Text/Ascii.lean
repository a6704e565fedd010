/-!
# Letters in either case

Names of commands and options count in either case of their ASCII letters; other letters have one
form only.

* `asciiLower`, `asciiUpper` — a text with its ASCII letters in one case.
-/

namespace ScriptStore

def asciiLower (s : String) : String := String.ofList (s.toList.map Char.toLower)

def asciiUpper (s : String) : String := String.ofList (s.toList.map Char.toUpper)

example : asciiUpper "pıng É" = "PıNG É" := by decide

end ScriptStore
