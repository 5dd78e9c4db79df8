/-!
# Defects

A failure that the scripting language does not know about. It arises below the
language, in arithmetic or in a host, and no handler in a script sees it: it
ends the whole step.
-/

namespace Parlance

/-- A failure that no handler in a script sees. -/
inductive Defect where
  /-- A whole number is too large for a binary64 number. -/
  | overflow
  /-- A host function was called with the wrong number or kind of arguments. -/
  | badArguments
  /-- A value is outside the domain of an operation. -/
  | badValue
  /-- A host does not provide the operation. -/
  | notProvided
  /-- There is no host to call. -/
  | noHost
  /-- A file does not hold text. -/
  | notText
  /-- A header has a character that is no byte. -/
  | notLatin
  /-- The file system refuses a question about a file. -/
  | fileSystem
  /-- An address on the network cannot be used. -/
  | badAddress
  /-- Something has no end: a value that contains itself, or a loop that was
      cut off. -/
  | endless
deriving DecidableEq

end Parlance
