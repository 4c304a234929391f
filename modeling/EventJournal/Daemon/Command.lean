import EventJournal.Daemon.Config

/-!
# The command line

The daemon reads its settings before it looks at its arguments. Without arguments it
serves until it is interrupted; the commands on a database are for a build that has one.
-/

namespace EventJournal

/-- What a command line comes to. -/
inductive Command
  /-- The program ends. -/
  | ends (status : Nat) (output errors : String)
  /-- The daemon serves with these settings. -/
  | serves (config : DaemonConfig)

namespace Command

/-- The program ends with a failure. -/
def fails (text : String) : Command := ends 1 "" ("Error: " ++ text ++ "\n")

/-- What the arguments come to, without the name of the program, under the given
environment variables. -/
def ofArguments (lookup : String → Option String) (arguments : List String) : Command :=
  match DaemonConfig.read lookup with
  | .error fault => fails (DaemonError.config fault).message
  | .ok config =>
    match arguments with
    | "db" :: _ => fails "db commands require the `postgres` feature"
    | _ => serves config

end Command

end EventJournal
