import FilteringResolver.Heap.DnsServer
import FilteringResolver.Main

/-!
# `main.c` with its memory

The process from its first allocation to its exit status. A signal that arrives while the server
runs clears `server_running` and is part of a `Pass`; one that arrives after `main` has installed
its handlers and before `run_server` installs its own, while `init_udp_server` opens the socket,
runs `signal_handler`. A signal before that ends the process on the spot, with no exit status; one
that interrupts the clean-up of `main` or the handler itself is left out.
-/

namespace FilteringResolver.Heap

open Ownership

/-! ## The configuration -/

/-- The block of `g_config`. -/
def ServerConfig.block (config : ServerConfig) : Kind × Nat := (.block, config.addr)

def initConfig : Mem (Option ServerConfig) := do
  match ← mallocOf () with
  | none => pure none
  | some config => pure (some
    { addr := config.addr, upstreamServer := none, localPort := dnsDefaultPort,
      filterFile := none, verbose := false, filterRoot := none })

/-- What frees a configuration, at the end of `main` and in its signal handler. -/
def freeConfig (config : ServerConfig) : Mem Unit := do
  use config.block
  match config.filterRoot with
  | none => pure ()
  | some root => filterNodeFree root
  free config.upstreamServer
  free config.filterFile
  release config.block

/-- `signal_handler`, which ends the process with the status 0. -/
def signalHandler (config : Option ServerConfig) : Mem Nat := do
  match config with
  | none => pure ()
  | some config => freeConfig config
  pure 0

/-! ## The arguments -/

/-- The configuration and the two flags of `parse_arguments`. -/
structure Arguments where
  config : ServerConfig
  hasServer : Bool
  hasFilter : Bool

def parseOption (env : Environment) (s : Arguments) (opt : Arg) : Mem (Option Int × Arguments) :=
  match opt with
  | .key .server optarg =>
    if s.hasServer then pure (some (-1), s)
    else if optarg = [] then pure (some (-1), s)
    else do
      use s.config.block
      match ← mallocOf (CStr.ofBuffer optarg) with
      | none => pure (some (-1), { s with config := { s.config with upstreamServer := none } })
      | some server =>
        pure (none,
          { s with config := { s.config with upstreamServer := some server }, hasServer := true })
  | .key .port optarg =>
    if optarg = [] then pure (some (-1), s)
    else
      let (port, endptr) := strtol optarg
      if endptr ≠ [] then pure (some (-1), s)
      else if port ≤ 0 ∨ 65535 < port then pure (some (-1), s)
      else do
        use s.config.block
        let s := { s with config := { s.config with localPort := port.toNat.toUInt16 } }
        if port < 1024 ∧ env.root = false then pure (some (-1), s)
        else pure (none, s)
  | .key .filter optarg =>
    if s.hasFilter then pure (some (-1), s)
    else if optarg = [] then pure (some (-1), s)
    else do
      use s.config.block
      match ← mallocOf (CStr.ofBuffer optarg) with
      | none => pure (some (-1), { s with config := { s.config with filterFile := none } })
      | some file =>
        pure (none,
          { s with config := { s.config with filterFile := some file }, hasFilter := true })
  | .flag .verbose => do
    use s.config.block
    pure (none, { s with config := { s.config with verbose := true } })
  | .flag .help => pure (some 1, s)
  | .invalid _ => pure (some (-1), s)

def parseOptions (env : Environment) (s : Arguments) : List Arg → Mem (Option Int × Arguments)
  | [] => pure (none, s)
  | opt :: opts => do
    match ← parseOption env s opt with
    | (none, s) => parseOptions env s opts
    | r => pure r

def parseArguments (env : Environment) (argv : List CStr) (config : ServerConfig) :
    Mem (Int × ServerConfig) := do
  let (opts, operands) := (getoptOptions env).scan none (argv.map (·.bytes))
  match ← parseOptions env ⟨config, false, false⟩ opts with
  | (some ret, s) => pure (ret, s.config)
  | (none, s) =>
    if operands ≠ [] then pure (-1, s.config)
    else if s.hasServer = false then pure (-1, s.config)
    else if s.hasFilter = false then pure (-1, s.config)
    else pure (0, s.config)

/-! ## The process -/

/-- What the process meets: the files that can be opened, a signal while `main`'s handlers are
installed, by the number of system calls that `init_udp_server` makes before it, and what the server
meets. -/
structure Process extends Environment where
  fopen : CStr → Option Bytes
  signal : Option Nat
  server : ServerHost
  queryBuffer : QueryBuffer
  passes : List Pass

/-- `load_filter_file(config->filter_file, ...)`. -/
def loadConfigured (env : Process) (config : ServerConfig) :
    Mem (Option (FilterNode × LoadCounts)) :=
  match config.filterFile with
  | none => pure none
  | some file => do
    let filename ← load file
    loadFilterFile (env.fopen filename)

/-- Whether a signal runs the handler of `main`, and whether the socket of the server is open then;
`init_udp_server` may be through before the signal arrives. -/
def Process.interrupted (env : Process) (port : UInt16) : Option Bool :=
  env.signal.bind fun calls => (env.server.opening port)[calls]?

/-- The exit status, or `none` while the process runs, and the passes of its server. -/
def main (env : Process) (argv : List CStr) : Mem ServerRun := do
  match ← initConfig with
  | none => pure ⟨some errMemory, []⟩
  | some config =>
    let (ret, config) ← parseArguments env.toEnvironment argv config
    if ret ≠ 0 then
      if 0 < ret then
        -- only the configuration goes: the strings stay
        release config.block
        pure ⟨some errSuccess, []⟩
      else
        use config.block
        free config.upstreamServer
        free config.filterFile
        release config.block
        pure ⟨some errInvalidArgs, []⟩
    else
      use config.block
      match ← loadConfigured env config with
      | none =>
        free config.upstreamServer
        free config.filterFile
        release config.block
        pure ⟨some errFilterFile, []⟩
      | some (root, _) =>
        let config := { config with filterRoot := some root }
        match env.interrupted config.localPort with
        | some isOpen =>
          -- the handler knows nothing of the socket
          let _ ← initUdpServerCut isOpen
          let status ← signalHandler (some config)
          pure ⟨some status, []⟩
        | none =>
          let run ← runServer (some config) env.server env.queryBuffer env.passes
          match run.ret with
          | none => pure run
          | some _ =>
            freeConfig config
            pure run

end FilteringResolver.Heap
