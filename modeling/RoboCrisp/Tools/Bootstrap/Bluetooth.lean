import RoboCrisp.Tools.Bootstrap.Forwarding

namespace RoboCrisp.Tools.Bootstrap.BluetoothTransport

open RoboCrisp.Scan

def check : Text → Option Text → Call Effect Python.PythonError (Option Nat) :=
  Python.check_option (option_map ProgramOption.short_name options)
    (option_map ProgramOption.long_name options) []

theorem reads : Reads check (option_map ProgramOption.long_name options) := Python.reads _ _

theorem takes_daemon : Takes check [.received Transport.daemon none] DAEMON :=
  reads.takes_flag _ Transport.daemon (by decide) (by decide) rfl rfl

variable {s : Settings} {argv rest kept left : List Text}

def child_args (daemon_mode : Bool) (args : List Text) : List Text :=
  if daemon_mode then STDIO_OPTION :: DAEMON :: args else args

-- A client is not told which transport to use, and uses the right one by default.
theorem crisp_bootstrap_child (hargv : crisp_bootstrap argv = some (s, rest))
    (hmode : s.mode ≠ .list_programs) :
    crisp_bootstrap (child_args (decide (s.mode = .server)) (subprocess_args s rest)) =
      some (s.forwarded, rest) := by
  cases hmode' : s.mode with
  | list_programs => exact absurd hmode' hmode
  | client =>
      refine crisp_bootstrap_forwarded hargv [] [] (fun h => h) ?_
      rw [hmode']
      rfl
  | server =>
      refine crisp_bootstrap_forwarded hargv [STDIO_OPTION, DAEMON]
        [.received transport (some STDIO), .received Bootstrap.daemon none]
        (fun h => .take [_] takes_transport (.take [_] Bootstrap.takes_daemon h)) ?_
      rw [hmode']
      rfl

end RoboCrisp.Tools.Bootstrap.BluetoothTransport
