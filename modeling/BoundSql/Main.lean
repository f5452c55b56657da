import BoundSql.Command
import BoundSql.Settings.Flow
import Std.Time.DateTime.Timestamp

/-!
The command on a machine: it reads the environment and the settings file, opens the log file, and
writes what the run leaves. Every decision is the command's.
-/

namespace BoundSql

open Text

def bytesOf (s : String) : Text := s.toUTF8.toList

def write (stream : IO.FS.Stream) (t : Text) : IO Unit := do
  stream.write ⟨t.toArray⟩
  stream.flush

def environment (name default : String) : IO String := do
  match ← IO.getEnv name with
  | some value => return if value.isEmpty then default else value
  | none => return default

def contents? (path : String) : IO (Option Text) := do
  try
    return some (← IO.FS.readBinFile path).toList
  catch _ => return none

def directoryOf (path : String) : String :=
  String.ofList (path.toList.reverse.dropWhile (· != '/')).reverse

def openLog? (path : String) : IO (Option IO.FS.Handle) := do
  try
    unless (directoryOf path).isEmpty do IO.FS.createDirAll (directoryOf path)
    return some (← IO.FS.Handle.mk path .append)
  catch _ => return none

def wallClock : IO Instant := do
  let now ← Std.Time.Timestamp.now
  return ⟨Int64.ofInt now.toNanosecondsSinceUnixEpoch.val⟩

def perform (words : List Text) : IO UInt32 := do
  let path ← environment "SQLEXPLAIN_CONFIG" "config/sqlexplain.yaml"
  let found : Command.Surroundings :=
    { dialect := .flow
      settingsPath := bytesOf path
      settingsFile := ← contents? path
      opens := fun _ => true
      home := Zone.ofRule (bytesOf (← environment "TZ" "UTC0"))
      caller := ascii "command line" }
  let began ← IO.monoNanosNow
  let wanted := (Command.session found words).toOption.map fun s => s.logger.settings.logPath
  let log ← match wanted with
    | none => pure none
    | some t => openLog? ((String.fromUTF8? ⟨t.toArray⟩).getD "")
  let result := Command.run { found with opens := fun _ => log.isSome } words
    ((← IO.monoNanosNow) - began) (← wallClock)
  write (← IO.getStdout) result.stdout
  write (← IO.getStderr) result.stderr
  for record in result.records do
    let line := record.written found.home (← wallClock)
    write (← IO.getStdout) line
    if let some handle := log then
      handle.write ⟨line.toArray⟩
      handle.flush
  return result.exitCode.toUInt32

end BoundSql

def main (args : List String) : IO UInt32 :=
  BoundSql.perform (args.map BoundSql.bytesOf)
