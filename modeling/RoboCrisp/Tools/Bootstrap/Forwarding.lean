import RoboCrisp.Tools.Bootstrap

namespace RoboCrisp.Tools.Bootstrap

open RoboCrisp.Scan

section Handle

variable {σ ε : Type} {block : σ → Effect → Option σ} {start values : σ}
  {check : Text → Option Text → Call Effect ε (Option Nat)} {argv rest : List Text}

theorem handle_eq_some_iff :
    handle block start (loop check (argv.length + 1) argv 0) = some (values, rest) ↔
      ∃ effects kept left, Scanned check argv effects (.ok ()) kept left ∧
        effects.foldlM block start = some values ∧ rest = kept ++ left := by
  constructor
  · intro h
    obtain ⟨outcome, hloop, h⟩ := Option.bind_eq_some_iff.mp h
    obtain ⟨values', hfold, h⟩ := Option.bind_eq_some_iff.mp h
    obtain ⟨kept, left, hscanned, harguments⟩ := exists_scanned_of_loop hloop
    cases hraised : outcome.raised with
    | error e =>
        rw [hraised] at h
        contradiction
    | ok u =>
        rw [hraised] at h hscanned
        obtain ⟨rfl, rfl⟩ := Prod.mk.inj (Option.some.inj h)
        exact ⟨_, kept, left, hscanned, hfold, harguments⟩
  · rintro ⟨effects, kept, left, hscanned, hfold, rfl⟩
    simp only [handle, hscanned.loop_eq, Option.bind_eq_bind, Option.bind_some, hfold]

end Handle

def check : Text → Option Text → Call Effect Ruby.RuntimeError (Option Nat) :=
  Ruby.check_option (option_map ProgramOption.short_name Options)
    (option_map ProgramOption.long_name Options)

theorem reads : Reads check (option_map ProgramOption.long_name Options) := Ruby.reads _ _

theorem crisp_bootstrap_eq_some_iff {argv rest : List Text} {s : Settings} :
    crisp_bootstrap argv = some (s, rest) ↔
      ∃ effects kept left, Scanned check argv effects (.ok ()) kept left ∧
        effects.foldlM Settings.block Settings.initial = some s ∧ rest = kept ++ left :=
  handle_eq_some_iff

theorem takes_daemon : Takes check [.received daemon none] DAEMON :=
  reads.takes_flag _ daemon (by decide) (by decide) rfl rfl

theorem takes_transport : Takes check [.received transport (some STDIO)] STDIO_OPTION :=
  reads.takes_assignment ['t', 'r', 'a', 'n', 's', 'p', 'o', 'r', 't'] transport STDIO (by decide) rfl rfl

theorem takes_remote : Takes check [.received remote none] REMOTE :=
  reads.takes_flag _ remote (by decide) (by decide) rfl rfl

theorem takes_config (file : Text) : Takes check [.received config (some file)] (CONFIG ++ file) :=
  reads.takes_assignment ['c', 'o', 'n', 'f', 'i', 'g'] config file (by decide) rfl rfl

variable {s : Settings} {rest kept left : List Text}

-- What exec_transport puts behind the "--".
def subprocess_args (s : Settings) (rest : List Text) : List Text :=
  (if s.remote_only then [REMOTE] else []) ++ (s.config_files.map (CONFIG ++ ·) ++ rest)

def subprocess_effects (s : Settings) : List Effect :=
  (if s.remote_only then [.received remote none] else []) ++
    s.config_files.flatMap fun file => [.received config (some file)]

theorem scanned_subprocess_args (h : Scanned check rest [] (.ok ()) kept left) :
    Scanned check (subprocess_args s rest) (subprocess_effects s) (.ok ()) kept left := by
  have hconfig : Scanned check (s.config_files.map (CONFIG ++ ·) ++ rest)
      (s.config_files.flatMap fun file => [.received config (some file)]) (.ok ()) kept left := by
    have htakes := h.takes (CONFIG ++ ·) (fun file => [.received config (some file)])
      fun file (_ : file ∈ s.config_files) => takes_config file
    rwa [List.append_nil] at htakes
  unfold subprocess_args subprocess_effects
  split
  · exact .take _ takes_remote hconfig
  · exact hconfig

theorem foldlM_config (files : List Text) (s : Settings) :
    (files.flatMap fun file => [Effect.received config (some file)]).foldlM Settings.block s =
      some { s with config_files := s.config_files ++ files } := by
  induction files generalizing s with
  | nil =>
      rw [List.append_nil]
      rfl
  | cons file files ih =>
      have hblock : s.block (.received config (some file)) =
          some { s with config_files := s.config_files ++ [file] } := rfl
      rw [List.flatMap_cons, List.singleton_append, List.foldlM_cons, hblock]
      simp only [Option.bind_eq_bind, Option.bind_some, ih, List.append_assoc, List.singleton_append]

theorem foldlM_subprocess_effects {start : Settings} (hremote : start.remote_only = false)
    (hconfig : start.config_files = []) :
    (subprocess_effects s).foldlM Settings.block start =
      some { start with remote_only := s.remote_only, config_files := s.config_files } := by
  rw [subprocess_effects, List.foldlM_append]
  cases h : s.remote_only with
  | false =>
      simp only [Bool.false_eq_true, if_false, List.foldlM_nil]
      rw [pure_bind, foldlM_config, hconfig, List.nil_append, ← hremote]
  | true =>
      have hblock : start.block (.received remote none) = some { start with remote_only := true } := rfl
      simp only [if_true, List.foldlM_cons, List.foldlM_nil, hblock]
      simp only [Option.bind_eq_bind, Option.bind_some, foldlM_config, hconfig]
      rfl

-- The settings of the process that a transport starts.
def Settings.forwarded (s : Settings) : Settings := { s with transport := STDIO, noact := false }

-- With the settings that are sent, and behind an option or two that a transport puts in front.
theorem crisp_bootstrap_forwarded {argv : List Text} (hargv : crisp_bootstrap argv = some (s, rest))
    (front : List Text) (taken : List Effect)
    (hfront : ∀ {args effects kept left}, Scanned check args effects (.ok ()) kept left →
      Scanned check (front ++ args) (taken ++ effects) (.ok ()) kept left)
    (htaken : taken.foldlM Settings.block Settings.initial =
      some { Settings.initial with mode := s.mode }) :
    crisp_bootstrap (front ++ subprocess_args s rest) = some (s.forwarded, rest) := by
  obtain ⟨effects, kept, left, hscanned, -, rfl⟩ := crisp_bootstrap_eq_some_iff.mp hargv
  have hagain : Scanned check (kept ++ left) [] (.ok ()) kept left :=
    scanned_of_ends (hscanned.passes_kept reads.local_check) (hscanned.ends_left reads.local_check)
  refine crisp_bootstrap_eq_some_iff.mpr
    ⟨_, kept, left, hfront (scanned_subprocess_args hagain), ?_, rfl⟩
  rw [List.foldlM_append, htaken]
  exact foldlM_subprocess_effects rfl rfl

section Command

variable {ε : Type} {check : Text → Option Text → Call Effect ε (Option Nat)} {map : OptionMap}
  {argv transport_args : List Text} {effects : List Effect}

def daemon_effects (s : Settings) : List Effect :=
  if s.mode = .server then [.received Transport.daemon none] else []

theorem foldlM_daemon_effects (s : Settings) :
    (daemon_effects s).foldlM Transport.block false = some (decide (s.mode = .server)) := by
  unfold daemon_effects
  split
  · rename_i hmode
    rw [hmode]
    rfl
  · rename_i hmode
    rw [decide_eq_false hmode]
    rfl

def command (s : Settings) (transport_args rest : List Text) : List Text :=
  (if s.mode = .server then [DAEMON] else []) ++
    (transport_args ++ TERMINATOR :: subprocess_args s rest)

theorem exec_eq {transport : Text} {transport_args : Option (List Text)} {file : TransportFile}
    (htransport : separate s.transport = some (transport, transport_args))
    (hfile : transport_file transport = some file) :
    exec s rest = some (file, command s (transport_args.getD []) rest) := by
  have hstdio : transport ≠ STDIO := by
    rintro rfl
    contradiction
  simp only [exec, htransport, Option.bind_eq_bind, Option.bind_some, exec_transport, if_neg hstdio,
    hfile]
  rfl

theorem scanned_command (rest : List Text) (hreads : Reads check map)
    (hdaemon : Takes check [.received Transport.daemon none] DAEMON)
    (hoperands : ∀ arg ∈ transport_args, Operand arg) :
    Scanned check (command s transport_args rest) (daemon_effects s) (.ok ()) transport_args
      (TERMINATOR :: subprocess_args s rest) := by
  have hstopped : Scanned check (TERMINATOR :: subprocess_args s rest) [] (.ok ()) []
      (TERMINATOR :: subprocess_args s rest) := .stopped ((hreads.stops_iff _).mpr rfl)
  have hpassed := hstopped.passes fun arg hmem => (hreads.passes_iff arg).mpr (hoperands arg hmem)
  rw [List.append_nil] at hpassed
  unfold command daemon_effects
  split
  · exact .take _ hdaemon hpassed
  · exact hpassed

end Command

namespace UnixTransport

def check : Text → Option Text → Call Effect Ruby.RuntimeError (Option Nat) :=
  Ruby.check_option (option_map ProgramOption.short_name Options)
    (option_map ProgramOption.long_name Options)

theorem reads : Reads check (option_map ProgramOption.long_name Options) := Ruby.reads _ _

theorem takes_daemon : Takes check [.received Transport.daemon none] DAEMON :=
  reads.takes_flag _ Transport.daemon (by decide) (by decide) rfl rfl

-- What the parser has left ends at the "--" that separates.
theorem separate_args_eq {kept left : List Text} (h : (∀ arg ∈ kept, Operand arg) ∧
    (left = [] ∨ ∃ rest, left = TERMINATOR :: rest)) :
    separate_args (kept ++ left) = (kept, left.drop 1) := by
  obtain ⟨hkept, hleft⟩ := h
  have hnone : kept.idxOf? TERMINATOR = none :=
    List.idxOf?_eq_none_iff.mpr fun hmem => (hkept _ hmem).2 rfl
  rcases hleft with rfl | ⟨rest, rfl⟩
  · rw [separate_args, List.append_nil, hnone]
    rfl
  · have hindex : (kept ++ TERMINATOR :: rest).idxOf? TERMINATOR = some kept.length := by
      rw [List.idxOf?, List.findIdx?_append, ← List.idxOf?, hnone]
      simp [List.idxOf?_cons]
    rw [separate_args, hindex]
    simp

theorem open_socket_eq_some_iff {opens : Text → Bool} {transport_args : List Text} {path : Text} :
    open_socket opens transport_args = some path ↔ transport_args = [path] ∧ opens path = true := by
  constructor
  · intro h
    unfold open_socket at h
    split at h
    · split at h
      · rename_i hopens
        obtain rfl := Option.some.inj h
        exact ⟨rfl, hopens⟩
      · contradiction
    · contradiction
  · rintro ⟨rfl, hopens⟩
    rw [open_socket, if_pos hopens]

theorem unix_transport_eq_some_iff {opens : Bool → Text → Bool} {argv : List Text} {launch : Launch} :
    unix_transport opens argv = some launch ↔
      ∃ effects left daemon_mode path, Scanned check argv effects (.ok ()) [path] left ∧
        effects.foldlM Transport.block false = some daemon_mode ∧ opens daemon_mode path = true ∧
        launch = ⟨daemon_mode, path,
          (if daemon_mode then [DAEMON] else []) ++ STDIO_OPTION :: left.drop 1⟩ := by
  have hseparate : ∀ {effects kept left}, Scanned check argv effects (.ok ()) kept left →
      separate_args (kept ++ left) = (kept, left.drop 1) := fun h => separate_args_eq (reads.operands h)
  constructor
  · intro h
    obtain ⟨⟨daemon_mode, ARGV⟩, hhandle, h⟩ := Option.bind_eq_some_iff.mp h
    obtain ⟨effects, kept, left, hscanned, hfold, rfl⟩ := handle_eq_some_iff.mp hhandle
    simp only [hseparate hscanned] at h
    split at h
    · contradiction
    · obtain ⟨path, hopen, hlaunch⟩ := Option.bind_eq_some_iff.mp h
      obtain ⟨rfl, hopens⟩ := open_socket_eq_some_iff.mp hopen
      exact ⟨effects, left, daemon_mode, path, hscanned, hfold, hopens, (Option.some.inj hlaunch).symm⟩
  · rintro ⟨effects, left, daemon_mode, path, hscanned, hfold, hopens, rfl⟩
    have hhandle : handle Transport.block false (Ruby.handle_options (argv.length + 1) Options argv) =
        some (daemon_mode, [path] ++ left) :=
      handle_eq_some_iff.mpr ⟨effects, [path], left, hscanned, hfold, rfl⟩
    have hopen := open_socket_eq_some_iff.mpr ⟨rfl, hopens⟩
    have hlength : ¬[path].length < 1 := by simp
    simp only [unix_transport, hhandle, Option.bind_eq_bind, Option.bind_some, hseparate hscanned,
      if_neg hlength, hopen]

theorem crisp_bootstrap_child {argv : List Text} (hargv : crisp_bootstrap argv = some (s, rest))
    (hmode : s.mode ≠ .list_programs) :
    crisp_bootstrap ((if decide (s.mode = .server) then [DAEMON] else []) ++
      STDIO_OPTION :: subprocess_args s rest) = some (s.forwarded, rest) := by
  cases hmode' : s.mode with
  | list_programs => exact absurd hmode' hmode
  | client =>
      refine crisp_bootstrap_forwarded hargv [STDIO_OPTION] [.received transport (some STDIO)]
        (fun h => .take _ takes_transport h) ?_
      rw [hmode']
      rfl
  | server =>
      refine crisp_bootstrap_forwarded hargv [DAEMON, STDIO_OPTION]
        [.received Bootstrap.daemon none, .received transport (some STDIO)]
        (fun h => .take [_] Bootstrap.takes_daemon (.take [_] takes_transport h)) ?_
      rw [hmode']
      rfl

-- The process at the end of a UNIX socket takes over all that the first one was told but --dry-run,
-- unless the transport doesn't have the one argument, there is something to parse in it, or it leads
-- to no socket.
theorem unix_forwards_iff (opens : Bool → Text → Bool) {argv rest : List Text} {s : Settings}
    {transport_args : Option (List Text)} (hargv : crisp_bootstrap argv = some (s, rest))
    (hmode : s.mode ≠ .list_programs) (htransport : separate s.transport = some (UNIX, transport_args)) :
    (∃ command launch, exec s rest = some (.unix_transport, command) ∧
      unix_transport opens command = some launch ∧ launch.daemon_mode = decide (s.mode = .server) ∧
      transport_args.getD [] = [launch.path] ∧
      crisp_bootstrap launch.child_args = some (s.forwarded, rest)) ↔
    ∃ path, transport_args.getD [] = [path] ∧ Operand path ∧
      opens (decide (s.mode = .server)) path = true := by
  constructor
  · rintro ⟨command, launch, -, hlaunch, hdaemon, hargs, -⟩
    obtain ⟨effects, left, daemon_mode, path, hscanned, -, hopens, rfl⟩ :=
      unix_transport_eq_some_iff.mp hlaunch
    obtain rfl : daemon_mode = decide (s.mode = .server) := hdaemon
    exact ⟨path, hargs, (reads.operands hscanned).1 path List.mem_cons_self, hopens⟩
  · rintro ⟨path, hargs, hoperand, hopens⟩
    have hoperands : ∀ arg ∈ [path], Operand arg := by simpa using hoperand
    have hcommand : unix_transport opens (command s (transport_args.getD []) rest) =
        some ⟨decide (s.mode = .server), path, (if decide (s.mode = .server) then [DAEMON] else []) ++
          STDIO_OPTION :: subprocess_args s rest⟩ := by
      rw [hargs]
      exact unix_transport_eq_some_iff.mpr ⟨_, _, _, path, scanned_command _ reads takes_daemon hoperands,
        foldlM_daemon_effects s, hopens, rfl⟩
    exact ⟨_, _, exec_eq htransport rfl, hcommand, rfl, hargs, crisp_bootstrap_child hargv hmode⟩

-- crisp-bootstrap -t unix:/s -n p -- -x
def dry_run_arguments : List Text :=
  [['-', 't'], UNIX ++ [':', '/', 's'], ['-', 'n'], ['p'], TERMINATOR, ['-', 'x']]

def dry_run_settings : Settings where
  mode := .client
  transport := UNIX ++ [':', '/', 's']
  remote_only := false
  config_files := []
  noact := true

-- Someone listens at /s and nowhere else.
def listening (daemon_mode : Bool) (path : Text) : Bool := !daemon_mode && decide (path = ['/', 's'])

theorem unix_forwards_dry_run : ∃ command launch,
    exec dry_run_settings [['p'], TERMINATOR, ['-', 'x']] = some (.unix_transport, command) ∧
    unix_transport listening command = some launch ∧ launch.daemon_mode = false ∧
    [['/', 's']] = [launch.path] ∧
    crisp_bootstrap launch.child_args =
      some (dry_run_settings.forwarded, [['p'], TERMINATOR, ['-', 'x']]) := by
  have hargv : crisp_bootstrap dry_run_arguments =
      some (dry_run_settings, [['p'], TERMINATOR, ['-', 'x']]) := rfl
  have htransport : separate dry_run_settings.transport = some (UNIX, some [['/', 's']]) := rfl
  have hoperand : Operand ['/', 's'] := ⟨fun h => absurd h.1 (by decide), by decide⟩
  exact (unix_forwards_iff listening hargv (by decide) htransport).mpr ⟨_, rfl, hoperand, by decide⟩

end UnixTransport

end RoboCrisp.Tools.Bootstrap
