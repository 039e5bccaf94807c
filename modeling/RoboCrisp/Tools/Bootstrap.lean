import Mathlib.Data.List.DropRight
import RoboCrisp.Tools.OptionParser.Words

namespace RoboCrisp.Tools.Bootstrap

open RoboCrisp.Scan

-- An option that takes an argument has to be given one.
def new_option (short_name : Option Text) (long_name : Text) (argument_description : Option Text)
    (handler : Nat) : ProgramOption where
  short_name := short_name
  long_name := some long_name
  argument_description := argument_description
  argument_optional := false
  handler := handler
  named := .inr rfl

-- A script's way through its arguments, from the values of its variables and to them. A block that
-- ends the process leaves none, and neither does an error.
def handle {σ ε : Type} (block : σ → Effect → Option σ) (start : σ)
    (run : Option (Outcome Effect ε Text)) : Option (σ × List Text) := do
  let outcome ← run
  let values ← outcome.effects.foldlM block start
  match outcome.raised with
  | .ok () => some (values, outcome.arguments)
  | .error _ => none

def DAEMON : Text := ['-', '-', 'd', 'a', 'e', 'm', 'o', 'n']

def STDIO : Text := ['s', 't', 'd', 'i', 'o']

def STDIO_OPTION : Text :=
  ['-', '-', 't', 'r', 'a', 'n', 's', 'p', 'o', 'r', 't', '=', 's', 't', 'd', 'i', 'o']

-- tools/bin/crisp-bootstrap

inductive Mode
  | client
  | server
  | list_programs
  deriving DecidableEq

structure Settings where
  mode : Mode
  transport : Text
  remote_only : Bool
  config_files : List Text
  noact : Bool

namespace Settings

def initial : Settings where
  mode := .client
  transport := STDIO
  remote_only := false
  config_files := []
  noact := false

-- An option that takes an argument is never received without one.
def block (s : Settings) : Effect → Option Settings
  | .warning _ => some s
  | .received option argument =>
      match option.handler with
      | 0 => none
      | 1 => some { s with config_files := s.config_files ++ argument.toList }
      | 2 => some { s with transport := argument.getD s.transport }
      | 3 => some { s with mode := .server }
      | 4 => some { s with mode := .list_programs }
      | 5 => some { s with remote_only := true }
      | _ => some { s with noact := true }

end Settings

def help : ProgramOption := new_option (some ['h']) ['h', 'e', 'l', 'p'] none 0

def config : ProgramOption :=
  new_option (some ['c']) ['c', 'o', 'n', 'f', 'i', 'g'] (some ['[', 'M', 'O', 'D', 'E', ':', ']', 'F', 'I', 'L', 'E']) 1

def transport : ProgramOption :=
  new_option (some ['t']) ['t', 'r', 'a', 'n', 's', 'p', 'o', 'r', 't']
    (some ['T', 'R', 'A', 'N', 'S', 'P', 'O', 'R', 'T']) 2

def daemon : ProgramOption := new_option (some ['d']) ['d', 'a', 'e', 'm', 'o', 'n'] none 3

def list_programs : ProgramOption :=
  new_option none ['l', 'i', 's', 't', '-', 'p', 'r', 'o', 'g', 'r', 'a', 'm', 's'] none 4

def remote : ProgramOption := new_option (some ['r']) ['r', 'e', 'm', 'o', 't', 'e'] none 5

def dry_run : ProgramOption := new_option (some ['n']) ['d', 'r', 'y', '-', 'r', 'u', 'n'] none 6

-- The values of the hash, in its order.
def Options : List ProgramOption := [help, config, transport, daemon, list_programs, remote, dry_run]

-- Up to the separation of the transport: the settings, and what is left in ARGV.
def crisp_bootstrap (ARGV : List Text) : Option (Settings × List Text) :=
  handle Settings.block Settings.initial (Ruby.handle_options (ARGV.length + 1) Options ARGV)

-- s.split(c, 2)
def split_once (s : Text) (c : Char) : List Text :=
  if s = [] then []
  else match s.idxOf? c with
    | none => [s]
    | some i => [s.take i, s.drop (i + 1)]

-- s.split(c), which has no empty strings at its end.
def split (s : Text) (c : Char) : List Text := (s.splitOn c).rdropWhile (· = [])

-- The transport, and its arguments if there is a colon behind it. An empty string has no transport
-- in it, and nil can't be interned.
def separate (transport : Text) : Option (Text × Option (List Text)) :=
  match split_once transport ':' with
  | [] => none
  | transport :: rest => some (transport, rest.head?.map (split · ','))

-- The scripts in lib/crisp/bootstrap.
inductive TransportFile
  | unix_transport
  | bluetooth_transport
  deriving DecidableEq

def UNIX : Text := ['u', 'n', 'i', 'x']

def BLUETOOTH : Text := ['b', 'l', 'u', 'e', 't', 'o', 'o', 't', 'h']

def transport_file (transport : Text) : Option TransportFile :=
  if transport = UNIX then some .unix_transport
  else if transport = BLUETOOTH then some .bluetooth_transport
  else none

def REMOTE : Text := ['-', '-', 'r', 'e', 'm', 'o', 't', 'e']

def CONFIG : Text := ['-', '-', 'c', 'o', 'n', 'f', 'i', 'g', '=']

-- Which script takes the place of the process, and with what arguments.
def exec_transport (s : Settings) (transport : Text) (transport_args : Option (List Text))
    (ARGV : List Text) : Option (TransportFile × List Text) :=
  if transport = STDIO then none
  else
    (transport_file transport).map fun file =>
      (file, (if s.mode = .server then [DAEMON] else []) ++
        (transport_args.getD [] ++
          (TERMINATOR :: ((if s.remote_only then [REMOTE] else []) ++
            (s.config_files.map (CONFIG ++ ·) ++ ARGV)))))

-- A client or a server that is told to use another transport than its own streams.
def exec (s : Settings) (ARGV : List Text) : Option (TransportFile × List Text) := do
  let (transport, transport_args) ← separate s.transport
  exec_transport s transport transport_args ARGV

namespace Transport

-- The options of both transports. Python's lambda for --help doesn't take the argument that it is
-- called with, which is an error and no exit.
def help : ProgramOption := new_option (some ['h']) ['h', 'e', 'l', 'p'] none 0

def daemon : ProgramOption := new_option (some ['d']) ['d', 'a', 'e', 'm', 'o', 'n'] none 1

def block (daemon_mode : Bool) : Effect → Option Bool
  | .warning _ => some daemon_mode
  | .received option _ =>
      match option.handler with
      | 0 => none
      | _ => some true

end Transport

namespace UnixTransport

-- lib/crisp/bootstrap/unix-transport

def Options : List ProgramOption := [Transport.help, Transport.daemon]

-- The socket file that it opens, and the arguments of the crisp-bootstrap that it starts on it.
structure Launch where
  daemon_mode : Bool
  path : Text
  child_args : List Text

-- In front of the first "--", and behind it.
def separate_args (ARGV : List Text) : List Text × List Text :=
  match ARGV.idxOf? TERMINATOR with
  | some idx => (ARGV.take idx, ARGV.drop (idx + 1))
  | none => (ARGV, [])

-- UNIXServer.open(*transport_args) and UNIXSocket.new(*transport_args), which take one argument and
-- raise on any other number. `opens` is what the system says to the path.
def open_socket (opens : Text → Bool) : List Text → Option Text
  | [path] => if opens path then some path else none
  | _ => none

-- A socket to listen on is another matter for the system than one to connect with.
def unix_transport (opens : Bool → Text → Bool) (ARGV : List Text) : Option Launch := do
  let (daemon_mode, ARGV) ← handle Transport.block false (Ruby.handle_options (ARGV.length + 1) Options ARGV)
  let (transport_args, subprocess_args) := separate_args ARGV
  if transport_args.length < 1 then none
  else do
    let path ← open_socket (opens daemon_mode) transport_args
    some
      { daemon_mode, path,
        child_args := (if daemon_mode then [DAEMON] else []) ++ STDIO_OPTION :: subprocess_args }

end UnixTransport

namespace BluetoothTransport

-- lib/crisp/bootstrap/bluetooth-transport

def options : List ProgramOption := [Transport.daemon, Transport.help]

structure Launch where
  daemon_mode : Bool
  bdaddr : Option Text
  child_args : List Text

-- os.execl(*proc): what follows the path is the new process' argv[0], which a script never sees.
def execl (proc : List Text) : List Text := proc.drop 1

-- The first argument, if it has a colon where an address has one. There is always a first one, at
-- least the "--".
def take_bdaddr (args : List Text) : Option (Option Text × List Text) := do
  let arg ← args.head?
  if Python.find arg ':' = 2 then some (some arg, args.drop 1) else some (none, args)

def bluetooth_transport (argv : List Text) : Option Launch := do
  let (daemon_mode, args) ← handle Transport.block false (Python.handle_options (argv.length + 1) options argv [])
  let (bdaddr, args) ← take_bdaddr args
  let args := args.filter (· ≠ TERMINATOR)
  some
    { daemon_mode, bdaddr,
      child_args := if daemon_mode then STDIO_OPTION :: DAEMON :: args else execl (STDIO_OPTION :: args) }

end BluetoothTransport

end RoboCrisp.Tools.Bootstrap
