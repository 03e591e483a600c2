import OpenRecovery.Bootloader
import Mathlib

/-!
# The arguments of the recovery tool

`get_args` of `recovery.c` takes the arguments from the command line, from the
bootloader message or from the command file, and writes them back into the
message.
-/

namespace OpenRecovery

open Effects Mtd

def maxLineLength : Nat := 4096

def maxArgs : Nat := 100

/-! ## Tokens -/

/-- One call of `strtok`.  `passed` is the part of the buffer before the place
where the search starts; the delimiter after the token is overwritten. -/
def strtok (isDelim : UInt8 → Bool) (passed rest : Bytes) : Option (Bytes × Bytes × Bytes) :=
  let skipped := rest.takeWhile isDelim
  let start := rest.dropWhile isDelim
  let token := start.takeWhile fun byte => !isDelim byte && byte != 0
  if token = [] then none
  else
    match start.drop token.length with
    | [] => some (token, passed ++ (skipped ++ token), [])
    | stop :: tail =>
        if isDelim stop then some (token, passed ++ (skipped ++ (token ++ [0])), tail)
        else some (token, passed ++ (skipped ++ token), stop :: tail)

/-- At most `count` further tokens, and the buffer they leave. -/
def strtokLoop (isDelim : UInt8 → Bool) : (count : Nat) → (passed rest : Bytes) →
    List Bytes × Bytes
  | 0, passed, rest => ([], passed ++ rest)
  | count + 1, passed, rest =>
      match strtok isDelim passed rest with
      | none => ([], passed ++ rest)
      | some (token, passed, rest) =>
          let (tokens, buffer) := strtokLoop isDelim count passed rest
          (token :: tokens, buffer)

def newline : UInt8 := 10

def carriageReturn : UInt8 := 13

def isNewline (byte : UInt8) : Bool :=
  byte = newline

def isLineEnd (byte : UInt8) : Bool :=
  byte = carriageReturn ∨ byte = newline

/-! ## The command file -/

/-- What `fgets` takes from the data at the current place of a file. -/
def fgets (data : Bytes) : Bytes :=
  let window := data.take (maxLineLength - 1)
  window.take ((window.takeWhile (· ≠ newline)).length + 1)

/-- The loop of `get_cmd_file_args`.  Without a token a null pointer is
duplicated. -/
def readArgs (path : CString) : (count offset : Nat) → Checked (List Bytes)
  | 0, _ => pure []
  | count + 1, offset => do
      match ← call (.read path offset (maxLineLength - 1)) with
      | none => pure []
      | some data =>
          let line := fgets data
          if line = [] then pure []
          else
            match strtok isLineEnd [] (line ++ [0]) with
            | none => throw .outOfBounds
            | some (arg, _, _) => do
                let args ← readArgs path count (offset + line.length)
                pure (arg :: args)

section Args

variable (build : Build)

/-- `COMMAND_FILE`. -/
def commandFile : CString :=
  if build.lite then "CACHE:recovery/command".toList else "CACHE:openrecovery/command".toList

def pathMax : Nat := 4096

/-- `fopen_root_path` for reading. -/
def fopenRootPath (rootPath : CString) : Checked (Option CString) := do
  if (← ensureRootPathMounted build rootPath) ≠ 0 then pure none
  else
    match translateRootPath build rootPath pathMax with
    | none => pure none
    | some path => do
        if ← call (.openRead path) then pure (some path) else pure none

/-- `get_cmd_file_args`. -/
def getCmdFileArgs (argv : List Bytes) : Checked (List Bytes) := do
  match ← fopenRootPath build (commandFile build) with
  | none => pure argv
  | some path => do
      let args ← readArgs path (maxArgs - 1) 0
      pure (argv.take 1 ++ args)

/-! ## The bootloader message -/

/-- The arguments in a message, if it begins as it should, and the field as the
search leaves it. -/
def bootArguments (recovery : List.Vector UInt8 1024) :
    Option (List Bytes) × List.Vector UInt8 1024 :=
  let buffer := recovery.toList.take 1023 ++ [0]
  match strtok isNewline [] buffer with
  | none => (none, fieldOf 1024 buffer)
  | some (first, passed, rest) =>
      if first = ascii "recovery" then
        let (args, buffer) := strtokLoop isNewline (maxArgs - 1) passed rest
        (some (first :: args), fieldOf 1024 buffer)
      else (none, fieldOf 1024 (passed ++ rest))

/-- Look for arguments in the message if there are none yet. -/
def takeBootArguments (argv : List Bytes) (boot : BootloaderMessage) :
    List Bytes × BootloaderMessage :=
  if argv.length ≤ 1 then
    match bootArguments boot.recovery with
    | (some args, recovery) => (args, { boot with recovery := recovery })
    | (none, recovery) => (argv, { boot with recovery := recovery })
  else (argv, boot)

/-- Look for arguments in the command file if there are none yet. -/
def takeFileArguments (argv : List Bytes) : Checked (List Bytes) :=
  if argv.length ≤ 1 then getCmdFileArgs build argv else pure argv

/-- The field `recovery` for a list of arguments. -/
def joinArguments (recovery : List.Vector UInt8 1024) (args : List Bytes) :
    List.Vector UInt8 1024 :=
  args.foldl (fun field arg => strlcat (strlcat field arg 1024) (ascii "\n") 1024)
    (strlcpy recovery (ascii "recovery\n") 1024)

/-- `get_args`; `argv` starts with the name of the program. -/
def getArgs (argv : List Bytes) : Checked (List Bytes) := do
  let (_, boot) ← getBootloaderMessage build .zero
  let (argv, boot) := takeBootArguments argv boot
  let argv ← takeFileArguments build argv
  let _ ← setBootloaderMessage build
    { boot with
      command := strlcpy boot.command (ascii "boot-recovery") 32
      recovery := joinArguments boot.recovery (argv.drop 1) }
  pure argv

end Args

end OpenRecovery
