import FilteringResolver.Filter
import FilteringResolver.Lib.Getopt

/-!
# `main.c`

The command line: `getopt` with the option string `"s:p:f:vh"`, the port number and
`parse_arguments`, without the memory of the configuration. What the process finds around it is
the `Environment`.
-/

namespace FilteringResolver

open Getopt

/-- `POSIXLY_CORRECT` is not set, so that `getopt` permutes, and `geteuid()` is 0. -/
structure Environment where
  permute : Bool
  root : Bool

inductive Flag where
  | verbose
  | help
  deriving DecidableEq

inductive Key where
  | server
  | port
  | filter
  deriving DecidableEq

abbrev Arg := Opt UInt8 Flag Key

/-- The option string `"s:p:f:vh"`. -/
def optstring (c : UInt8) : Option (Flag ⊕ Key) :=
  if c = 0x73 then some (.inr .server)
  else if c = 0x70 then some (.inr .port)
  else if c = 0x66 then some (.inr .filter)
  else if c = 0x76 then some (.inl .verbose)
  else if c = 0x68 then some (.inl .help)
  else none

def getoptOptions (env : Environment) : Options UInt8 Flag Key where
  dash := 0x2D
  find := optstring
  find_dash := by decide
  permute := env.permute

/-! ## Numbers -/

def isdigit (c : UInt8) : Bool := 0x30 ≤ c && c ≤ 0x39

/-- The number that digits are. -/
def decimal (digits : Bytes) : Nat := digits.foldl (fun n c => 10 * n + (c.toNat - 0x30)) 0

def longMax : Int := 9223372036854775807
def longMin : Int := -9223372036854775808

/-- The sign of a number, and what follows it. -/
def strtolSign : Bytes → Bool × Bytes
  | [] => (false, [])
  | c :: t => if c = 0x2D then (true, t) else if c = 0x2B then (false, t) else (false, c :: t)

/-- `strtol(s, &endptr, 10)` and what `endptr` points to. -/
def strtol (s : Bytes) : Int × Bytes :=
  let (negative, t) := strtolSign (s.dropWhile isspace)
  let digits := t.takeWhile isdigit
  if digits = [] then (0, s)
  else
    let n : Int := if negative then -decimal digits else decimal digits
    (if n < longMin then longMin else if longMax < n then longMax else n, t.dropWhile isdigit)

/-! ## The arguments -/

/-- What `parse_arguments` knows: the fields of `server_config_t` it sets, and its two flags. -/
structure Arguments where
  upstreamServer : Option CStr
  localPort : UInt16
  filterFile : Option CStr
  verbose : Bool
  hasServer : Bool
  hasFilter : Bool
  deriving DecidableEq

/-- The configuration that `init_config` sets up. -/
def Arguments.init : Arguments := ⟨none, dnsDefaultPort, none, false, false, false⟩

/-- One pass of `while ((opt = getopt(...)) != -1)`: the value it returns, or `none` where the
loop goes on. -/
def parseOption (env : Environment) (s : Arguments) (opt : Arg) (a : Allocs) :
    Option Int × Arguments × Allocs :=
  match opt with
  | .key .server optarg =>
    if s.hasServer then (some (-1), s, a)
    else if optarg = [] then (some (-1), s, a)
    else
      match strdup (.ofBuffer optarg) a with
      | (none, a) => (some (-1), { s with upstreamServer := none }, a)
      | (some server, a) => (none, { s with upstreamServer := some server, hasServer := true }, a)
  | .key .port optarg =>
    if optarg = [] then (some (-1), s, a)
    else
      let (port, endptr) := strtol optarg
      if endptr ≠ [] then (some (-1), s, a)
      else if port ≤ 0 ∨ 65535 < port then (some (-1), s, a)
      else
        let s := { s with localPort := port.toNat.toUInt16 }
        if port < 1024 ∧ env.root = false then (some (-1), s, a)
        else (none, s, a)
  | .key .filter optarg =>
    if s.hasFilter then (some (-1), s, a)
    else if optarg = [] then (some (-1), s, a)
    else
      match strdup (.ofBuffer optarg) a with
      | (none, a) => (some (-1), { s with filterFile := none }, a)
      | (some file, a) => (none, { s with filterFile := some file, hasFilter := true }, a)
  | .flag .verbose => (none, { s with verbose := true }, a)
  | .flag .help => (some 1, s, a)
  | .invalid _ => (some (-1), s, a)

/-- The loop over the options that `getopt` reports. -/
def parseOptions (env : Environment) (s : Arguments) : List Arg → Allocs →
    Option Int × Arguments × Allocs
  | [], a => (none, s, a)
  | opt :: opts, a =>
    match parseOption env s opt a with
    | (none, s, a) => parseOptions env s opts a
    | r => r

/-- The arguments are those behind `argv[0]`. -/
def parseArguments (env : Environment) (argv : List CStr) (a : Allocs) :
    Int × Arguments × Allocs :=
  let (opts, operands) := (getoptOptions env).scan none (argv.map (·.bytes))
  match parseOptions env .init opts a with
  | (some ret, s, a) => (ret, s, a)
  | (none, s, a) =>
    if operands ≠ [] then (-1, s, a)
    else if s.hasServer = false then (-1, s, a)
    else if s.hasFilter = false then (-1, s, a)
    else (0, s, a)

end FilteringResolver
