import FilteringResolver.Main

/-!
# The command line

Which numbers `-p` takes (`strtol_port_iff`), what one option does to the arguments (`Takes`), and
from these the command lines that `parse_arguments` accepts, in every spelling that `getopt`
reads (`parseArguments_iff`).
-/

namespace FilteringResolver

open Getopt

/-! ## Port numbers -/

/-- A port number as `-p` takes it: digits, behind blanks and a plus sign if there are any. -/
def PortNumeral (text : Bytes) (port : Nat) : Prop :=
  ∃ blanks plus digits : Bytes, text = blanks ++ plus ++ digits ∧ (∀ c ∈ blanks, isspace c = true) ∧
    (plus = [] ∨ plus = [0x2B]) ∧ digits ≠ [] ∧ (∀ c ∈ digits, isdigit c = true) ∧
    decimal digits = port ∧ 0 < port ∧ port ≤ 65535

theorem isdigit_iff {c : UInt8} : isdigit c = true ↔ 0x30 ≤ c.toNat ∧ c.toNat ≤ 0x39 := by
  simp [isdigit, UInt8.le_iff_toNat_le]

theorem isspace_of_isdigit {c : UInt8} (h : isdigit c = true) : isspace c = false := by
  have hc := isdigit_iff.1 h
  have hne : c ≠ 0x20 := by
    rintro rfl
    exact absurd hc.1 (by decide)
  simp only [isspace, Bool.or_eq_false_iff, Bool.and_eq_false_iff, decide_eq_false_iff_not,
    UInt8.le_iff_toNat_le, beq_eq_false_iff_ne]
  exact ⟨hne, .inr fun hle => absurd (Nat.le_trans hc.1 hle) (by decide)⟩

theorem strtolSign_of_isdigit {c : UInt8} (h : isdigit c = true) (cs : Bytes) :
    strtolSign (c :: cs) = (false, c :: cs) := by
  have hc := (isdigit_iff.1 h).1
  have hminus : c ≠ 0x2D := by
    rintro rfl
    exact absurd hc (by decide)
  have hplus : c ≠ 0x2B := by
    rintro rfl
    exact absurd hc (by decide)
  rw [strtolSign, if_neg hminus, if_neg hplus]

theorem strtolSign_plus {s t : Bytes} (h : strtolSign s = (false, t)) :
    ∃ plus, (plus = [] ∨ plus = [0x2B]) ∧ s = plus ++ t := by
  cases s with
  | nil =>
    cases h
    exact ⟨[], .inl rfl, rfl⟩
  | cons c cs =>
    rw [strtolSign] at h
    split at h
    · cases h
    · split at h
      · next hplus =>
        cases h
        exact ⟨[0x2B], .inr rfl, by rw [hplus, List.singleton_append]⟩
      · cases h
        exact ⟨[], .inl rfl, rfl⟩

/-- What `strtol` makes of a numeral that is the whole string. -/
theorem strtol_of_digits {blanks plus digits : Bytes} (hblanks : ∀ c ∈ blanks, isspace c = true)
    (hplus : plus = [] ∨ plus = [0x2B]) (hne : digits ≠ [])
    (hdigits : ∀ c ∈ digits, isdigit c = true) :
    strtol (blanks ++ plus ++ digits) =
      (if longMax < decimal digits then longMax else decimal digits, []) := by
  obtain ⟨c, cs, rfl⟩ := List.exists_cons_of_ne_nil hne
  have hc := hdigits c List.mem_cons_self
  have htake : (c :: cs).takeWhile isdigit = c :: cs := List.takeWhile_eq_self_iff.2 hdigits
  have hdrop : (c :: cs).dropWhile isdigit = [] := List.dropWhile_eq_nil_iff.2 hdigits
  have hsign : strtolSign ((plus ++ c :: cs).dropWhile isspace) = (false, c :: cs) := by
    rcases hplus with rfl | rfl
    · rw [List.nil_append, List.dropWhile_cons_of_neg (by simp [isspace_of_isdigit hc]),
        strtolSign_of_isdigit hc]
    · rfl
  rw [strtol, List.append_assoc, List.dropWhile_append_of_pos hblanks, hsign]
  have hmin : ¬(decimal (c :: cs) : Int) < longMin := by
    rw [longMin]
    omega
  simp only [htake, hdrop, hne, if_false, Bool.false_eq_true, hmin]

/-- What a string is that `strtol` reads to its end as a positive number. -/
theorem digits_of_strtol {text : Bytes} {n : Nat} (h : strtol text = ((n : Int), []))
    (hpos : 0 < n) (hlt : n ≤ 65535) : PortNumeral text n := by
  unfold strtol at h
  rcases hsign : strtolSign (text.dropWhile isspace) with ⟨negative, t⟩
  rw [hsign] at h
  dsimp only at h
  split at h
  · obtain rfl : n = 0 := by
      have := congrArg Prod.fst h
      simp only at this
      omega
    exact absurd hpos (Nat.lt_irrefl 0)
  next hdigits =>
  obtain ⟨hn, hend⟩ := Prod.mk.inj h
  have hall : ∀ c ∈ t, isdigit c = true := List.dropWhile_eq_nil_iff.1 hend
  rw [List.takeWhile_eq_self_iff.2 hall] at hdigits hn
  simp only [longMin, longMax] at hn
  cases negative with
  | true =>
    simp only [if_true] at hn
    split at hn
    · omega
    · split at hn <;> omega
  | false =>
    simp only [Bool.false_eq_true, if_false] at hn
    have hval : decimal t = n := by
      split at hn
      · omega
      · split at hn <;> omega
    obtain ⟨plus, hplus, htext⟩ := strtolSign_plus hsign
    refine ⟨text.takeWhile isspace, plus, t, ?_, fun c hc => List.mem_takeWhile_imp hc, hplus,
      hdigits, hall, hval, hpos, hlt⟩
    rw [List.append_assoc, ← htext, List.takeWhile_append_dropWhile]

/-- **The numbers `-p` takes** are the numerals of 1 to 65535. -/
theorem strtol_port_iff {text : Bytes} {n : Nat} :
    strtol text = ((n : Int), []) ∧ 0 < n ∧ n ≤ 65535 ↔ PortNumeral text n := by
  constructor
  · rintro ⟨h, hpos, hle⟩
    exact digits_of_strtol h hpos hle
  · rintro ⟨blanks, plus, digits, rfl, hblanks, hplus, hne, hdigits, hval, hpos, hle⟩
    refine ⟨?_, hpos, hle⟩
    have hlong : ¬longMax < (n : Int) := by
      rw [longMax]
      omega
    rw [strtol_of_digits hblanks hplus hne hdigits, hval, if_neg hlong]

/-! ## One option -/

variable {env : Environment} {s s' : Arguments} {a a' : Allocs}

/-- What an option does where the loop goes on after it. -/
inductive Takes (env : Environment) (s : Arguments) (a : Allocs) :
    Arg → Arguments → Allocs → Prop where
  | server {text : Bytes} (first : s.hasServer = false) (ne : text ≠ []) (alloc : a.head = true) :
      Takes env s a (.key .server text)
        { s with upstreamServer := some (.ofBuffer text), hasServer := true } a.tail
  | filter {text : Bytes} (first : s.hasFilter = false) (ne : text ≠ []) (alloc : a.head = true) :
      Takes env s a (.key .filter text)
        { s with filterFile := some (.ofBuffer text), hasFilter := true } a.tail
  | port {text : Bytes} {n : Nat} (numeral : PortNumeral text n)
      (root : n < 1024 → env.root = true) :
      Takes env s a (.key .port text) { s with localPort := n.toUInt16 } a
  | verbose : Takes env s a (.flag .verbose) { s with verbose := true } a

theorem PortNumeral.ne_nil {text : Bytes} {n : Nat} (h : PortNumeral text n) : text ≠ [] := by
  obtain ⟨blanks, plus, digits, rfl, -, -, hne, -⟩ := h
  simp [hne]

theorem Takes.parse {opt : Arg} (h : Takes env s a opt s' a') :
    parseOption env s opt a = (none, s', a') := by
  cases h with
  | server first ne alloc => simp [parseOption, first, ne, strdup, alloc]
  | filter first ne alloc => simp [parseOption, first, ne, strdup, alloc]
  | verbose => rfl
  | @port text n numeral root =>
    obtain ⟨hnum, hpos, hle⟩ := strtol_port_iff.2 numeral
    have hrange : ¬((n : Int) ≤ 0 ∨ 65535 < (n : Int)) := by omega
    have hroot : ¬((n : Int) < 1024 ∧ env.root = false) := by
      rintro ⟨hlt, hno⟩
      rw [root (by omega)] at hno
      cases hno
    simp only [parseOption, if_neg numeral.ne_nil, hnum, if_neg hrange, if_neg hroot, ne_eq,
      not_true, if_false, Int.toNat_natCast]

theorem parseOption_takes {opt : Arg} (h : parseOption env s opt a = (none, s', a')) :
    Takes env s a opt s' a' := by
  cases opt with
  | flag f =>
    cases f with
    | verbose =>
      cases h
      exact .verbose
    | help => cases h
  | invalid c => cases h
  | key k text =>
    cases k with
    | server =>
      rw [parseOption] at h
      split at h <;> [cases h; skip]
      next hfirst =>
      split at h <;> [cases h; skip]
      next hne =>
      cases halloc : a.head with
      | false =>
        simp only [strdup, halloc, Bool.false_eq_true, if_false] at h
        cases h
      | true =>
        simp only [strdup, halloc, if_true] at h
        cases h
        exact .server (eq_false_of_ne_true hfirst) hne halloc
    | filter =>
      rw [parseOption] at h
      split at h <;> [cases h; skip]
      next hfirst =>
      split at h <;> [cases h; skip]
      next hne =>
      cases halloc : a.head with
      | false =>
        simp only [strdup, halloc, Bool.false_eq_true, if_false] at h
        cases h
      | true =>
        simp only [strdup, halloc, if_true] at h
        cases h
        exact .filter (eq_false_of_ne_true hfirst) hne halloc
    | port =>
      rw [parseOption] at h
      split at h <;> [cases h; skip]
      rcases hnum : strtol text with ⟨port, endptr⟩
      rw [hnum] at h
      dsimp only at h
      split at h <;> [cases h; skip]
      next hend =>
      split at h <;> [cases h; skip]
      next hrange =>
      split at h <;> [cases h; skip]
      next hroot =>
      cases h
      obtain ⟨n, rfl⟩ := Int.eq_ofNat_of_zero_le (show 0 ≤ port by omega)
      have hnumeral : PortNumeral text n :=
        strtol_port_iff.1 ⟨by rw [hnum, not_not.1 hend], by omega, by omega⟩
      refine .port hnumeral fun hlt => ?_
      simpa [show (n : Int) < 1024 by omega] using hroot

/-- An option that ends the loop returns 1 for `-h` and `-1` for everything else. -/
theorem parseOption_ret {opt : Arg} {ret : Int} (h : parseOption env s opt a = (some ret, s', a')) :
    opt = .flag .help ∧ ret = 1 ∨ opt ≠ .flag .help ∧ ret = -1 := by
  cases opt with
  | flag f =>
    cases f with
    | verbose => cases h
    | help =>
      cases h
      exact .inl ⟨rfl, rfl⟩
  | invalid c =>
    cases h
    exact .inr ⟨by rintro ⟨⟩, rfl⟩
  | key k text =>
    refine .inr ⟨by rintro ⟨⟩, ?_⟩
    cases k with
    | server =>
      rw [parseOption, strdup] at h
      cases halloc : a.head <;> simp only [halloc] at h <;> grind
    | filter =>
      rw [parseOption, strdup] at h
      cases halloc : a.head <;> simp only [halloc] at h <;> grind
    | port =>
      rw [parseOption] at h
      grind

/-! ## All options -/

/-- The argument of an option `k`. -/
def optarg? (k : Key) : Arg → Option Bytes
  | .key k' text => if k' = k then some text else none
  | .flag _ => none
  | .invalid _ => none

/-- The arguments of the options `k`, in order. -/
def optargs (k : Key) (opts : List Arg) : List Bytes := opts.filterMap (optarg? k)

@[simp] theorem optargs_nil (k : Key) : optargs k [] = [] := rfl

@[simp] theorem optargs_append (k : Key) (opts opts' : List Arg) :
    optargs k (opts ++ opts') = optargs k opts ++ optargs k opts' := List.filterMap_append

@[simp] theorem optargs_key (k : Key) (text : Bytes) : optargs k [.key k text] = [text] := by
  simp [optargs, optarg?]

theorem optargs_other {k k' : Key} (h : k' ≠ k) (text : Bytes) :
    optargs k [.key k' text] = [] := by
  simp [optargs, optarg?, h]

@[simp] theorem optargs_flag (k : Key) (f : Flag) : optargs k [.flag f] = [] := rfl

@[simp] theorem optargs_invalid (k : Key) (c : UInt8) : optargs k [.invalid c] = [] := rfl

/-- An option with a string is given at most once, and not with an empty string. -/
structure Once (texts : List Bytes) : Prop where
  length : texts.length ≤ 1
  ne : [] ∉ texts

theorem once_nil : Once [] := ⟨Nat.zero_le 1, List.not_mem_nil⟩

theorem once_append {texts : List Bytes} {text : Bytes} :
    Once (texts ++ [text]) ↔ Once texts ∧ texts = [] ∧ text ≠ [] := by
  constructor
  · rintro ⟨hlen, hne⟩
    rw [List.length_append, List.length_singleton] at hlen
    obtain rfl := List.length_eq_zero_iff.1 (show texts.length = 0 by omega)
    exact ⟨once_nil, rfl, by rintro rfl; exact hne List.mem_cons_self⟩
  · rintro ⟨-, rfl, hne⟩
    exact ⟨Nat.le_refl 1, by simpa using hne.symm⟩

/-- No option ends the loop, unless an allocation fails. -/
@[mk_iff]
structure Acceptable (env : Environment) (opts : List Arg) : Prop where
  valid : Options.Valid opts
  noHelp : Opt.flag Flag.help ∉ opts
  server : Once (optargs .server opts)
  filter : Once (optargs .filter opts)
  ports : ∀ text ∈ optargs .port opts, ∃ n, PortNumeral text n ∧ (n < 1024 → env.root = true)

/-- What the options give. -/
def argumentsOf (opts : List Arg) : Arguments where
  upstreamServer := (optargs .server opts).head?.map .ofBuffer
  localPort := (optargs .port opts).getLast?.elim dnsDefaultPort fun text =>
    (decimal (text.filter isdigit)).toUInt16
  filterFile := (optargs .filter opts).head?.map .ofBuffer
  verbose := decide (Opt.flag Flag.verbose ∈ opts)
  hasServer := (optargs .server opts).length != 0
  hasFilter := (optargs .filter opts).length != 0

/-- The next `n` allocations succeed. -/
def Taken (n : Nat) (a a' : Allocs) : Prop := (∀ i < n, a.get i = true) ∧ a' = a.drop n

theorem taken_succ {n : Nat} :
    Taken (n + 1) a a' ↔ ∃ a₁, Taken n a a₁ ∧ a₁.head = true ∧ a' = a₁.tail := by
  constructor
  · rintro ⟨hget, rfl⟩
    exact ⟨a.drop n, ⟨fun i hi => hget i (by omega), rfl⟩, by simpa using hget n (by omega),
      by rw [Stream'.tail_eq_drop, Stream'.drop_drop]⟩
  · rintro ⟨_, ⟨hget, rfl⟩, hhead, rfl⟩
    refine ⟨fun i hi => ?_, by rw [Stream'.tail_eq_drop, Stream'.drop_drop]⟩
    rcases Nat.lt_succ_iff_lt_or_eq.1 hi with hlt | rfl
    · exact hget i hlt
    · simpa using hhead

theorem PortNumeral.filter {text : Bytes} {n : Nat} (h : PortNumeral text n) :
    decimal (text.filter isdigit) = n := by
  obtain ⟨blanks, plus, digits, rfl, hblanks, hplus, -, hdigits, hval, -⟩ := h
  have hblank : blanks.filter isdigit = [] := List.filter_eq_nil_iff.2 fun c hc hd => by
    have hspace := hblanks c hc
    rw [isspace_of_isdigit hd] at hspace
    cases hspace
  have hsign : plus.filter isdigit = [] := by
    rcases hplus with rfl | rfl <;> rfl
  rw [List.filter_append, List.filter_append, hblank, hsign, List.filter_eq_self.2 hdigits]
  exact hval

theorem parseOptions_append (opts : List Arg) (opt : Arg) :
    parseOptions env s (opts ++ [opt]) a = (none, s', a') ↔
      ∃ s₁ a₁, parseOptions env s opts a = (none, s₁, a₁) ∧
        parseOption env s₁ opt a₁ = (none, s', a') := by
  induction opts generalizing s a with
  | nil =>
    have hone : parseOptions env s [opt] a = parseOption env s opt a := by
      rw [parseOptions]
      rcases parseOption env s opt a with ⟨_ | ret, s₁, a₁⟩ <;> rfl
    rw [List.nil_append, hone]
    constructor
    · exact fun h => ⟨s, a, rfl, h⟩
    · rintro ⟨_, _, ⟨⟩, h⟩
      exact h
  | cons opt' opts ih =>
    rw [List.cons_append, parseOptions, parseOptions]
    rcases parseOption env s opt' a with ⟨_ | ret, s₁, a₁⟩
    · exact ih
    · simp

section

variable {opts : List Arg} {text : Bytes}

theorem acceptable_server : Acceptable env (opts ++ [.key .server text]) ↔
    Acceptable env opts ∧ optargs .server opts = [] ∧ text ≠ [] := by
  simp [acceptable_iff, Options.valid_append, Options.valid_cons, optargs_other, once_append]
  tauto

theorem acceptable_filter : Acceptable env (opts ++ [.key .filter text]) ↔
    Acceptable env opts ∧ optargs .filter opts = [] ∧ text ≠ [] := by
  simp [acceptable_iff, Options.valid_append, Options.valid_cons, optargs_other, once_append]
  tauto

theorem acceptable_port : Acceptable env (opts ++ [.key .port text]) ↔
    Acceptable env opts ∧ ∃ n, PortNumeral text n ∧ (n < 1024 → env.root = true) := by
  simp [acceptable_iff, Options.valid_append, Options.valid_cons, optargs_other, or_imp,
    forall_and, and_assoc]

theorem acceptable_verbose :
    Acceptable env (opts ++ [.flag .verbose]) ↔ Acceptable env opts := by
  simp [acceptable_iff, Options.valid_append, Options.valid_cons]

theorem not_acceptable_help : ¬Acceptable env (opts ++ [.flag .help]) := fun h =>
  h.noHelp (by simp)

theorem not_acceptable_invalid {c : UInt8} : ¬Acceptable env (opts ++ [.invalid c]) := fun h =>
  h.valid c (by simp)

end

/-- The strings that options copy. -/
def copies (opts : List Arg) : Nat := (optargs .server opts).length + (optargs .filter opts).length

section

variable {opts : List Arg} {opt : Arg} {text : Bytes} {a₁ : Allocs}

theorem argumentsOf_server (h : optargs .server opts = []) :
    argumentsOf (opts ++ [.key .server text]) =
      { argumentsOf opts with upstreamServer := some (.ofBuffer text), hasServer := true } := by
  simp [argumentsOf, optargs_other, h]

theorem argumentsOf_filter (h : optargs .filter opts = []) :
    argumentsOf (opts ++ [.key .filter text]) =
      { argumentsOf opts with filterFile := some (.ofBuffer text), hasFilter := true } := by
  simp [argumentsOf, optargs_other, h]

theorem argumentsOf_port {n : Nat} (h : PortNumeral text n) :
    argumentsOf (opts ++ [.key .port text]) =
      { argumentsOf opts with localPort := n.toUInt16 } := by
  simp [argumentsOf, optargs_other, h.filter]

theorem argumentsOf_verbose :
    argumentsOf (opts ++ [.flag .verbose]) = { argumentsOf opts with verbose := true } := by
  simp [argumentsOf]

theorem copies_server : copies (opts ++ [.key .server text]) = copies opts + 1 := by
  simp [copies, optargs_other, Nat.add_right_comm]

theorem copies_filter : copies (opts ++ [.key .filter text]) = copies opts + 1 := by
  simp [copies, optargs_other, Nat.add_assoc]

theorem copies_port : copies (opts ++ [.key .port text]) = copies opts := by
  simp [copies, optargs_other]

theorem copies_verbose : copies (opts ++ [.flag .verbose]) = copies opts := by
  simp [copies]

/-- The loop goes on after one more option, and the arguments are still those of the options. -/
theorem Takes.append (h : Takes env (argumentsOf opts) a₁ opt s' a') (hopts : Acceptable env opts)
    (halloc : Taken (copies opts) a a₁) :
    Acceptable env (opts ++ [opt]) ∧ s' = argumentsOf (opts ++ [opt]) ∧
      Taken (copies (opts ++ [opt])) a a' := by
  cases h with
  | server first ne alloc =>
    have hnone : optargs .server opts = [] := by simpa [argumentsOf] using first
    rw [argumentsOf_server hnone, copies_server, taken_succ]
    exact ⟨acceptable_server.2 ⟨hopts, hnone, ne⟩, rfl, a₁, halloc, alloc, rfl⟩
  | filter first ne alloc =>
    have hnone : optargs .filter opts = [] := by simpa [argumentsOf] using first
    rw [argumentsOf_filter hnone, copies_filter, taken_succ]
    exact ⟨acceptable_filter.2 ⟨hopts, hnone, ne⟩, rfl, a₁, halloc, alloc, rfl⟩
  | port numeral root =>
    rw [argumentsOf_port numeral, copies_port]
    exact ⟨acceptable_port.2 ⟨hopts, _, numeral, root⟩, rfl, halloc⟩
  | verbose =>
    rw [argumentsOf_verbose, copies_verbose]
    exact ⟨acceptable_verbose.2 hopts, rfl, halloc⟩

theorem Acceptable.takes (h : Acceptable env (opts ++ [opt]))
    (halloc : Taken (copies (opts ++ [opt])) a a') :
    Acceptable env opts ∧ ∃ a₁, Taken (copies opts) a a₁ ∧
      Takes env (argumentsOf opts) a₁ opt (argumentsOf (opts ++ [opt])) a' := by
  cases opt with
  | flag f =>
    cases f with
    | verbose =>
      rw [copies_verbose] at halloc
      rw [argumentsOf_verbose]
      exact ⟨acceptable_verbose.1 h, a', halloc, .verbose⟩
    | help => exact absurd h not_acceptable_help
  | invalid c => exact absurd h not_acceptable_invalid
  | key k text =>
    cases k with
    | server =>
      obtain ⟨hopts, hnone, hne⟩ := acceptable_server.1 h
      rw [copies_server, taken_succ] at halloc
      obtain ⟨a₁, htaken, hhead, rfl⟩ := halloc
      rw [argumentsOf_server hnone]
      exact ⟨hopts, a₁, htaken, .server (by simp [argumentsOf, hnone]) hne hhead⟩
    | filter =>
      obtain ⟨hopts, hnone, hne⟩ := acceptable_filter.1 h
      rw [copies_filter, taken_succ] at halloc
      obtain ⟨a₁, htaken, hhead, rfl⟩ := halloc
      rw [argumentsOf_filter hnone]
      exact ⟨hopts, a₁, htaken, .filter (by simp [argumentsOf, hnone]) hne hhead⟩
    | port =>
      obtain ⟨hopts, n, numeral, root⟩ := acceptable_port.1 h
      rw [copies_port] at halloc
      rw [argumentsOf_port numeral]
      exact ⟨hopts, a', halloc, .port numeral root⟩

end

/-- **The loop goes on to the last option** exactly when no option ends it and the strings can be
allocated; the arguments are then those the options give. -/
theorem parseOptions_none_iff {opts : List Arg} :
    parseOptions env .init opts a = (none, s, a') ↔
      Acceptable env opts ∧ s = argumentsOf opts ∧ Taken (copies opts) a a' := by
  induction opts using List.reverseRecOn generalizing s a' with
  | nil =>
    constructor
    · rintro ⟨⟩
      exact ⟨⟨Options.valid_nil, List.not_mem_nil, once_nil, once_nil, by simp⟩, rfl,
        fun i hi => absurd hi (Nat.not_lt_zero i), rfl⟩
    · rintro ⟨-, rfl, -, rfl⟩
      rfl
  | append_singleton opts opt ih =>
    rw [parseOptions_append]
    constructor
    · rintro ⟨s₁, a₁, hopts, hopt⟩
      obtain ⟨hacc, rfl, halloc⟩ := ih.1 hopts
      exact (parseOption_takes hopt).append hacc halloc
    · rintro ⟨hacc, rfl, halloc⟩
      obtain ⟨hacc', a₁, halloc', htakes⟩ := hacc.takes halloc
      exact ⟨_, a₁, ih.2 ⟨hacc', rfl, halloc'⟩, htakes.parse⟩

/-! ## The command line -/

/-- What a command line asks for. -/
structure CommandLine where
  server : CStr
  port : UInt16
  filter : CStr
  verbose : Bool

namespace CommandLine

def arguments (line : CommandLine) : Arguments :=
  ⟨some line.server, line.port, some line.filter, line.verbose, true, true⟩

/-- The options ask for `line`: one server and one filter file, neither of them empty, port
numbers that may be used, the last of which counts, and no help. -/
structure Means (env : Environment) (opts : List Arg) (line : CommandLine) : Prop where
  server : optargs .server opts = [line.server.bytes]
  server_ne : line.server.bytes ≠ []
  filter : optargs .filter opts = [line.filter.bytes]
  filter_ne : line.filter.bytes ≠ []
  ports : ∀ text ∈ optargs .port opts, ∃ n, PortNumeral text n ∧ (n < 1024 → env.root = true)
  default : optargs .port opts = [] → line.port = dnsDefaultPort
  port : ∀ text, (optargs .port opts).getLast? = some text → PortNumeral text line.port.toNat
  verbose : line.verbose = true ↔ Opt.flag Flag.verbose ∈ opts
  noHelp : Opt.flag Flag.help ∉ opts

end CommandLine

theorem Once.eq_singleton {texts : List Bytes} (h : Once texts) (hlen : texts.length ≠ 0) :
    ∃ text, texts = [text] ∧ text ≠ [] := by
  obtain ⟨text, rfl⟩ := List.length_eq_one_iff.1
    (Nat.le_antisymm h.length (Nat.pos_of_ne_zero hlen))
  exact ⟨text, rfl, by rintro rfl; exact h.ne List.mem_cons_self⟩

theorem Once.length_head? {texts : List Bytes} (h : Once texts) :
    texts.head?.toList.length = texts.length := by
  obtain ⟨hlen, -⟩ := h
  cases texts with
  | nil => rfl
  | cons text texts =>
    obtain rfl := List.length_eq_zero_iff.1 (show texts.length = 0 by simpa using hlen)
    rfl

theorem PortNumeral.lt {text : Bytes} {n : Nat} (h : PortNumeral text n) : n < 65536 := by
  obtain ⟨blanks, plus, digits, -, -, -, -, -, -, -, hle⟩ := h
  omega

theorem CStr.ofBuffer_bytes (s : CStr) : CStr.ofBuffer s.bytes = s :=
  CStr.ext_bytes (CStr.ofBuffer_of_nul_free s.nul_free)

theorem CommandLine.Means.arguments_eq {opts : List Arg} {line : CommandLine}
    (h : line.Means env opts) : argumentsOf opts = line.arguments := by
  have hport : (argumentsOf opts).localPort = line.port := by
    cases hlast : (optargs .port opts).getLast? with
    | none =>
      rw [h.default (List.getLast?_eq_none_iff.1 hlast)]
      simp [argumentsOf, hlast]
    | some text =>
      simp [argumentsOf, hlast, (h.port text hlast).filter]
  have hverbose : (argumentsOf opts).verbose = line.verbose := by
    rw [Bool.eq_iff_iff, h.verbose]
    simp [argumentsOf]
  rw [CommandLine.arguments, ← hport, ← hverbose]
  simp [argumentsOf, h.server, h.filter, CStr.ofBuffer_bytes]

theorem CommandLine.Means.acceptable {opts : List Arg} {line : CommandLine}
    (h : line.Means env opts) (hv : Options.Valid opts) : Acceptable env opts where
  valid := hv
  noHelp := h.noHelp
  server := by
    rw [h.server]
    exact ⟨Nat.le_refl 1, by simpa using h.server_ne.symm⟩
  filter := by
    rw [h.filter]
    exact ⟨Nat.le_refl 1, by simpa using h.filter_ne.symm⟩
  ports := h.ports

/-- Options whose arguments hold no NUL and that give a server and a filter file ask for a command
line. -/
theorem Acceptable.means {opts : List Arg} (h : Acceptable env opts)
    (hnul : ∀ k, ∀ text ∈ optargs k opts, 0 ∉ text) (hserver : (argumentsOf opts).hasServer = true)
    (hfilter : (argumentsOf opts).hasFilter = true) : ∃ line, CommandLine.Means env opts line := by
  obtain ⟨server, hs, hsne⟩ := h.server.eq_singleton (by simpa [argumentsOf] using hserver)
  obtain ⟨filter, hf, hfne⟩ := h.filter.eq_singleton (by simpa [argumentsOf] using hfilter)
  refine ⟨⟨⟨server, hnul .server server (by simp [hs])⟩, (argumentsOf opts).localPort,
    ⟨filter, hnul .filter filter (by simp [hf])⟩, (argumentsOf opts).verbose⟩, hs, hsne, hf, hfne,
    h.ports, fun hnone => by simp [argumentsOf, hnone], fun text htext => ?_, by simp [argumentsOf],
    h.noHelp⟩
  obtain ⟨n, numeral, -⟩ := h.ports text (List.mem_of_getLast? htext)
  have hport : (argumentsOf opts).localPort = n.toUInt16 := by
    simp [argumentsOf, htext, numeral.filter]
  have htoNat : n.toUInt16.toNat = n := UInt16.toNat_ofNat_of_lt' numeral.lt
  rw [hport, htoNat]
  exact numeral

theorem means_copies {opts : List Arg} {line : CommandLine} (h : line.Means env opts) :
    copies opts = 2 := by
  rw [copies, h.server, h.filter, List.length_singleton, List.length_singleton]

/-- An option that ends the loop is the first one that does. -/
theorem parseOptions_some_iff {opts : List Arg} {ret : Int} :
    parseOptions env s opts a = (some ret, s', a') ↔
      ∃ before opt behind s₁ a₁, opts = before ++ opt :: behind ∧
        parseOptions env s before a = (none, s₁, a₁) ∧
        parseOption env s₁ opt a₁ = (some ret, s', a') := by
  induction opts generalizing s a with
  | nil => simp [parseOptions]
  | cons opt opts ih =>
    rw [parseOptions]
    rcases hopt : parseOption env s opt a with ⟨_ | ret', s₁, a₁⟩
    · dsimp only
      rw [ih]
      constructor
      · rintro ⟨before, opt', behind, s₂, a₂, rfl, hbefore, hret⟩
        exact ⟨opt :: before, opt', behind, s₂, a₂, rfl, by rw [parseOptions, hopt]; exact hbefore,
          hret⟩
      · rintro ⟨before, opt', behind, s₂, a₂, hopts, hbefore, hret⟩
        cases before with
        | nil =>
          cases hopts
          cases hbefore
          rw [hopt] at hret
          cases hret
        | cons opt'' before =>
          cases hopts
          rw [parseOptions, hopt] at hbefore
          exact ⟨before, opt', behind, s₂, a₂, rfl, hbefore, hret⟩
    · dsimp only
      constructor
      · intro h
        exact ⟨[], opt, opts, s, a, rfl, rfl, hopt.trans h⟩
      · rintro ⟨before, opt', behind, s₂, a₂, hopts, hbefore, hret⟩
        cases before with
        | nil =>
          cases hopts
          cases hbefore
          rw [← hret, hopt]
        | cons opt'' before =>
          cases hopts
          rw [parseOptions, hopt] at hbefore
          cases hbefore

theorem parseOptions_ret {opts : List Arg} {ret : Int}
    (h : parseOptions env s opts a = (some ret, s', a')) : ret = -1 ∨ ret = 1 := by
  obtain ⟨before, opt, behind, s₁, a₁, -, -, hopt⟩ := parseOptions_some_iff.1 h
  rcases parseOption_ret hopt with ⟨-, hret⟩ | ⟨-, hret⟩
  · exact .inr hret
  · exact .inl hret

theorem mem_of_mem_optargs {opts : List Arg} {k : Key} {text : Bytes} (h : text ∈ optargs k opts) :
    Opt.key k text ∈ opts := by
  obtain ⟨opt, hopt, htext⟩ := List.mem_filterMap.1 h
  cases opt with
  | flag f => cases htext
  | invalid c => cases htext
  | key k' text' =>
    rw [optarg?] at htext
    split at htext
    · next hk =>
      cases htext
      rwa [hk] at hopt
    · cases htext

/-- No argument of an option holds a NUL. -/
theorem optargs_nul_free {argv : List CStr} {opts : List Arg} {operands : List Bytes}
    (h : (getoptOptions env).Spells (argv.map (·.bytes)) opts operands) (k : Key) :
    ∀ text ∈ optargs k opts, 0 ∉ text := by
  intro text htext hnul
  obtain ⟨arg, harg, hmem⟩ := h.mem (mem_of_mem_optargs htext) 0 hnul
  obtain ⟨s, -, rfl⟩ := List.mem_map.1 harg
  exact s.nul_free hmem

section

variable {argv : List CStr}

theorem parseArguments_zero (h : parseArguments env argv a = (0, s, a')) :
    Taken 2 a a' ∧ ∃ line : CommandLine, s = line.arguments ∧
      ∃ opts, (getoptOptions env).Spells (argv.map (·.bytes)) opts [] ∧ line.Means env opts := by
  rcases hscan : (getoptOptions env).scan none (argv.map (·.bytes)) with ⟨opts, operands⟩
  rw [parseArguments, hscan] at h
  rcases hopts : parseOptions env .init opts a with ⟨_ | ret, s₁, a₁⟩
  · simp only [hopts] at h
    split at h <;> [cases h; skip]
    next hoperands =>
    split at h <;> [cases h; skip]
    next hserver =>
    split at h <;> [cases h; skip]
    next hfilter =>
    cases h
    obtain rfl := not_not.1 hoperands
    obtain ⟨hacc, rfl, halloc⟩ := parseOptions_none_iff.1 hopts
    have hspells := Options.scan_eq_iff.1 ⟨hscan, hacc.valid⟩
    obtain ⟨line, hline⟩ := hacc.means (optargs_nul_free hspells) (by simpa using hserver)
      (by simpa using hfilter)
    rw [means_copies hline] at halloc
    exact ⟨halloc, line, hline.arguments_eq, opts, hspells, hline⟩
  · simp only [hopts] at h
    cases h
    rcases parseOptions_ret hopts with hret | hret <;> cases hret

theorem parseArguments_of_means {line : CommandLine} {opts : List Arg}
    (hspells : (getoptOptions env).Spells (argv.map (·.bytes)) opts [])
    (hline : line.Means env opts) (halloc : Taken 2 a a') :
    parseArguments env argv a = (0, line.arguments, a') := by
  obtain ⟨hscan, hv⟩ := Options.scan_eq_iff.2 hspells
  rw [← means_copies hline] at halloc
  have hopts := parseOptions_none_iff.2 ⟨hline.acceptable hv, hline.arguments_eq.symm, halloc⟩
  rw [parseArguments, hscan]
  simp only [hopts]
  rfl

end

/-- **`parse_arguments` returns 0** exactly for the command lines that ask for something and whose
two strings can be allocated, and has then read what they ask for. -/
theorem parseArguments_iff (env : Environment) (argv : List CStr) (a : Allocs) (s : Arguments)
    (a' : Allocs) :
    parseArguments env argv a = (0, s, a') ↔
      Taken 2 a a' ∧ ∃ line : CommandLine, s = line.arguments ∧
        ∃ opts, (getoptOptions env).Spells (argv.map (·.bytes)) opts [] ∧ line.Means env opts := by
  constructor
  · exact parseArguments_zero
  · rintro ⟨halloc, line, rfl, opts, hspells, hline⟩
    exact parseArguments_of_means hspells hline halloc

/-- A call for help: the options before `-h` have been taken. -/
theorem parseArguments_help {argv : List CStr} (h : parseArguments env argv a = (1, s, a')) :
    ∃ before behind, ((getoptOptions env).scan none (argv.map (·.bytes))).1 =
        before ++ .flag .help :: behind ∧
      Acceptable env before ∧ s = argumentsOf before ∧ Taken (copies before) a a' := by
  rcases hscan : (getoptOptions env).scan none (argv.map (·.bytes)) with ⟨opts, operands⟩
  rw [parseArguments, hscan] at h
  rcases hopts : parseOptions env .init opts a with ⟨_ | ret, s₁, a₁⟩
  · simp only [hopts] at h
    split at h <;> [cases h; skip]
    split at h <;> [cases h; skip]
    split at h <;> cases h
  · simp only [hopts] at h
    cases h
    obtain ⟨before, opt, behind, s₂, a₂, rfl, hbefore, hopt⟩ := parseOptions_some_iff.1 hopts
    rcases parseOption_ret hopt with ⟨rfl, -⟩ | ⟨-, hret⟩
    · cases hopt
      exact ⟨before, behind, by rw [hscan], parseOptions_none_iff.1 hbefore⟩
    · cases hret

/-- **`parse_arguments` returns 1** exactly when `-h` is the first option that ends the loop; the
strings given before it have been copied. -/
theorem parseArguments_help_iff (env : Environment) (argv : List CStr) (a : Allocs) (s : Arguments)
    (a' : Allocs) :
    parseArguments env argv a = (1, s, a') ↔
      ∃ before behind, ((getoptOptions env).scan none (argv.map (·.bytes))).1 =
          before ++ .flag .help :: behind ∧
        Acceptable env before ∧ s = argumentsOf before ∧ Taken (copies before) a a' := by
  constructor
  · exact parseArguments_help
  · rintro ⟨before, behind, hopts, hacc, rfl, halloc⟩
    have hbefore := parseOptions_none_iff.2 ⟨hacc, rfl, halloc⟩
    have hhelp := parseOptions_some_iff.2 ⟨before, .flag .help, behind, _, _, hopts, hbefore, rfl⟩
    rw [parseArguments]
    simp only [hhelp]

/-- Nothing but `-1`, 0 and 1 is returned. -/
theorem parseArguments_ret {argv : List CStr} {ret : Int}
    (h : parseArguments env argv a = (ret, s, a')) : ret = -1 ∨ ret = 0 ∨ ret = 1 := by
  rcases hscan : (getoptOptions env).scan none (argv.map (·.bytes)) with ⟨opts, operands⟩
  rw [parseArguments, hscan] at h
  rcases hopts : parseOptions env .init opts a with ⟨_ | ret', s₁, a₁⟩
  · simp only [hopts] at h
    split at h <;> [(cases h; exact .inl rfl); skip]
    split at h <;> [(cases h; exact .inl rfl); skip]
    split at h <;> cases h
    · exact .inl rfl
    · exact .inr (.inl rfl)
  · simp only [hopts] at h
    cases h
    exact (parseOptions_ret hopts).imp_right .inr

end FilteringResolver
