/-!
# The catalogue of operations

The operations a target can ask its host for, with the numbers and names that debuggers use. A call
may carry any number; those outside the catalogue are for the host to refuse.
-/
namespace Semihosting

/-- An operation with a number of its own. -/
inductive Operation where
  | openFile
  | closeFile
  | writeCharacter
  | writeString
  | write
  | read
  | readCharacter
  | isError
  | isTerminal
  | seek
  | fileLength
  | temporaryName
  | removeFile
  | renameFile
  | clock
  | time
  | shell
  | errorNumber
  | commandLine
  | heapInfo
  | exit
  | exitExtended
  | elapsed
  | tickFrequency
  deriving DecidableEq, Repr

namespace Operation

def number : Operation → UInt32
  | openFile => 0x01
  | closeFile => 0x02
  | writeCharacter => 0x03
  | writeString => 0x04
  | write => 0x05
  | read => 0x06
  | readCharacter => 0x07
  | isError => 0x08
  | isTerminal => 0x09
  | seek => 0x0A
  | fileLength => 0x0C
  | temporaryName => 0x0D
  | removeFile => 0x0E
  | renameFile => 0x0F
  | clock => 0x10
  | time => 0x11
  | shell => 0x12
  | errorNumber => 0x13
  | commandLine => 0x15
  | heapInfo => 0x16
  | exit => 0x18
  | exitExtended => 0x20
  | elapsed => 0x30
  | tickFrequency => 0x31

def name : Operation → String
  | openFile => "SYS_OPEN"
  | closeFile => "SYS_CLOSE"
  | writeCharacter => "SYS_WRITEC"
  | writeString => "SYS_WRITE0"
  | write => "SYS_WRITE"
  | read => "SYS_READ"
  | readCharacter => "SYS_READC"
  | isError => "SYS_ISERROR"
  | isTerminal => "SYS_ISTTY"
  | seek => "SYS_SEEK"
  | fileLength => "SYS_FLEN"
  | temporaryName => "SYS_TMPNAM"
  | removeFile => "SYS_REMOVE"
  | renameFile => "SYS_RENAME"
  | clock => "SYS_CLOCK"
  | time => "SYS_TIME"
  | shell => "SYS_SYSTEM"
  | errorNumber => "SYS_ERRNO"
  | commandLine => "SYS_GET_CMDLINE"
  | heapInfo => "SYS_HEAPINFO"
  | exit => "SYS_EXIT"
  | exitExtended => "SYS_EXIT_EXTENDED"
  | elapsed => "SYS_ELAPSED"
  | tickFrequency => "SYS_TICKFREQ"

/-- Every operation, in the order of the numbers. -/
def all : List Operation :=
  [openFile, closeFile, writeCharacter, writeString, write, read, readCharacter, isError,
    isTerminal, seek, fileLength, temporaryName, removeFile, renameFile, clock, time, shell,
    errorNumber, commandLine, heapInfo, exit, exitExtended, elapsed, tickFrequency]

def ofNumber? (number : UInt32) : Option Operation :=
  all.find? fun operation => operation.number = number

/-- What is said about a number outside the catalogue. -/
def unknownMessage (number : UInt32) : String :=
  "unrecognised semihosting opcode 0x" ++ String.ofList (Nat.toDigits 16 number.toNat)

end Operation

end Semihosting
