import FilteringResolver.Heap.Main
import FilteringResolver.Verify.CommandLine
import FilteringResolver.Verify.HeapServer

/-!
# The memory of the process

`Outcome` lists how a run of `main` can end, with its status, the passes of its server and what
stays behind. Every run takes one of them (`main_outcome`), so a process that has returned has
released everything, except after `-h`, where the strings given before it stay, and after a signal
that came while the socket of the server was open and `run_server` had not installed its handlers,
where the socket stays.
-/

namespace FilteringResolver.Heap

open Ownership Getopt

variable {own rest : Resources} {a : Allocs} {env : Environment}

/-! ## The arguments -/

/-- The strings of a configuration. -/
def ServerConfig.strings (config : ServerConfig) : Resources :=
  blockOf config.upstreamServer + blockOf config.filterFile

/-- The arguments without their addresses. -/
def Arguments.val (s : Arguments) : FilteringResolver.Arguments :=
  ⟨s.config.upstreamServer.map (·.val), s.config.localPort, s.config.filterFile.map (·.val),
    s.config.verbose, s.hasServer, s.hasFilter⟩

/-- The flags tell which strings are there, so no string is overwritten. -/
structure Arguments.Flagged (s : Arguments) : Prop where
  server : s.config.upstreamServer.isSome = s.hasServer
  filter : s.config.filterFile.isSome = s.hasFilter

/-- The configuration stays in its block, and no filter is loaded. -/
structure ServerConfig.Unloaded (config : ServerConfig) (addr : Nat) : Prop where
  addr : config.addr = addr
  root : config.filterRoot = none

theorem parseOption_owning {s : Arguments} {opt : Arg} {addr : Nat} (hs : s.Flagged)
    (hcfg : s.config.Unloaded addr) (hlive : (Kind.block, addr) ∈ rest)
    (hown : own = rest + s.config.strings)
    {post : Option Int × Arguments → Allocs → Resources → Prop}
    (h : ∀ r s' a', FilteringResolver.parseOption env s.val opt a = (r, s'.val, a') →
      (r = none → s'.Flagged) → s'.config.Unloaded addr →
      post (r, s') a' (rest + s'.config.strings)) :
    Owning own a (parseOption env s opt) post := by
  have hmem : s.config.block ∈ own := by
    rw [hown, ServerConfig.block, hcfg.addr]
    exact Multiset.mem_add.2 (.inl hlive)
  have hstop : ∀ r, FilteringResolver.parseOption env s.val opt a = (some r, s.val, a) →
      post (some r, s) a own := fun r hr => by
    rw [hown]
    exact h (some r) s a hr (by rintro ⟨⟩) hcfg
  cases opt with
  | flag f =>
    cases f with
    | verbose =>
      refine .bind (.use hmem (.pure ?_))
      rw [hown]
      exact h none _ a rfl (fun _ => ⟨hs.server, hs.filter⟩) ⟨hcfg.addr, hcfg.root⟩
    | help => exact .pure (hstop 1 rfl)
  | invalid c => exact .pure (hstop (-1) rfl)
  | key k optarg =>
    cases k with
    | server =>
      have hpure := FilteringResolver.parseOption.eq_1 env s.val a optarg
      rw [parseOption]
      split
      · next hdup => exact .pure (hstop (-1) (hpure.trans (if_pos hdup)))
      next hdup =>
      have hpure := hpure.trans (if_neg hdup)
      split
      · next hempty => exact .pure (hstop (-1) (hpure.trans (if_pos hempty)))
      next hempty =>
      have hpure := hpure.trans (if_neg hempty)
      have hnull : s.config.upstreamServer = none := by
        simpa [hdup] using hs.server
      rw [ServerConfig.strings, hnull, blockOf_none, zero_add] at hown
      refine .bind (.use hmem (.bind (mallocOf_owning (fun a' hm => ?_) fun a' p hm => ?_)))
      · rw [strdup_of_malloc hm] at hpure
        have hp := h (some (-1)) { s with config := { s.config with upstreamServer := none } } a'
          hpure (by rintro ⟨⟩) ⟨hcfg.addr, hcfg.root⟩
        rw [ServerConfig.strings, blockOf_none, zero_add, ← hown] at hp
        exact .pure hp
      · rw [strdup_of_malloc hm] at hpure
        have hp := h none { s with
            config := { s.config with upstreamServer := some ⟨p, .ofBuffer optarg⟩ }
            hasServer := true } a'
          hpure (fun _ => ⟨rfl, hs.filter⟩) ⟨hcfg.addr, hcfg.root⟩
        rw [ServerConfig.strings, blockOf_some, add_comm {_}, ← add_assoc, ← hown] at hp
        exact .pure hp
    | filter =>
      have hpure := FilteringResolver.parseOption.eq_3 env s.val a optarg
      rw [parseOption]
      split
      · next hdup => exact .pure (hstop (-1) (hpure.trans (if_pos hdup)))
      next hdup =>
      have hpure := hpure.trans (if_neg hdup)
      split
      · next hempty => exact .pure (hstop (-1) (hpure.trans (if_pos hempty)))
      next hempty =>
      have hpure := hpure.trans (if_neg hempty)
      have hnull : s.config.filterFile = none := by
        simpa [hdup] using hs.filter
      rw [ServerConfig.strings, hnull, blockOf_none, add_zero] at hown
      refine .bind (.use hmem (.bind (mallocOf_owning (fun a' hm => ?_) fun a' p hm => ?_)))
      · rw [strdup_of_malloc hm] at hpure
        have hp := h (some (-1)) { s with config := { s.config with filterFile := none } } a'
          hpure (by rintro ⟨⟩) ⟨hcfg.addr, hcfg.root⟩
        rw [ServerConfig.strings, blockOf_none, add_zero, ← hown] at hp
        exact .pure hp
      · rw [strdup_of_malloc hm] at hpure
        have hp := h none { s with
            config := { s.config with filterFile := some ⟨p, .ofBuffer optarg⟩ }
            hasFilter := true } a'
          hpure (fun _ => ⟨hs.server, rfl⟩) ⟨hcfg.addr, hcfg.root⟩
        rw [ServerConfig.strings, blockOf_some, ← add_assoc, ← hown] at hp
        exact .pure hp
    | port =>
      have hpure := FilteringResolver.parseOption.eq_2 env s.val a optarg
      rw [parseOption]
      split
      · next hempty => exact .pure (hstop (-1) (hpure.trans (if_pos hempty)))
      next hempty =>
      have hpure := hpure.trans (if_neg hempty)
      rcases hnum : strtol optarg with ⟨port, endptr⟩
      rw [hnum] at hpure
      dsimp only at hpure ⊢
      split
      · next hend => exact .pure (hstop (-1) (hpure.trans (if_pos hend)))
      next hend =>
      rw [if_neg hend] at hpure
      split
      · next hrange => exact .pure (hstop (-1) (hpure.trans (if_pos hrange)))
      next hrange =>
      rw [if_neg hrange] at hpure
      refine .bind (.use hmem ?_)
      rw [hown]
      split
      · next hroot =>
        exact .pure (h (some (-1)) _ a (hpure.trans (if_pos hroot)) (by rintro ⟨⟩)
          ⟨hcfg.addr, hcfg.root⟩)
      · next hroot =>
        exact .pure (h none _ a (hpure.trans (if_neg hroot)) (fun _ => ⟨hs.server, hs.filter⟩)
          ⟨hcfg.addr, hcfg.root⟩)

/-- The loop over the options keeps the strings that the configuration has. -/
theorem parseOptions_owning {s : Arguments} {opts : List Arg} {addr : Nat} (hs : s.Flagged)
    (hcfg : s.config.Unloaded addr) (hlive : (Kind.block, addr) ∈ rest)
    (hown : own = rest + s.config.strings)
    {post : Option Int × Arguments → Allocs → Resources → Prop}
    (h : ∀ r s' a', FilteringResolver.parseOptions env s.val opts a = (r, s'.val, a') →
      (r = none → s'.Flagged) → s'.config.Unloaded addr →
      post (r, s') a' (rest + s'.config.strings)) :
    Owning own a (parseOptions env s opts) post := by
  induction opts generalizing own s a with
  | nil =>
    rw [hown]
    exact .pure (h none s a rfl (fun _ => hs) hcfg)
  | cons opt opts ih =>
    refine .bind (parseOption_owning hs hcfg hlive hown fun r s' a' hr hs' hcfg' => ?_)
    rw [FilteringResolver.parseOptions, hr] at h
    cases r with
    | none => exact ih (hs' rfl) hcfg' rfl h
    | some ret => exact .pure (h (some ret) s' a' rfl hs' hcfg')

/-- A call that returns 0 leaves a server and a filter file. -/
def ServerConfig.Complete (config : ServerConfig) : Prop :=
  config.upstreamServer.isSome = true ∧ config.filterFile.isSome = true

theorem parseArguments_owning {config : ServerConfig} {argv : List CStr} {addr : Nat}
    (hinit : Arguments.val ⟨config, false, false⟩ = .init) (hcfg : config.Unloaded addr)
    (hlive : (Kind.block, addr) ∈ own) {post : Int × ServerConfig → Allocs → Resources → Prop}
    (h : ∀ ret s a', FilteringResolver.parseArguments env argv a = (ret, Arguments.val s, a') →
      s.config.Unloaded addr → (ret = 0 → s.config.Complete) →
      post (ret, s.config) a' (own + s.config.strings)) :
    Owning own a (parseArguments env argv config) post := by
  have hserver : config.upstreamServer = none := by
    simpa [Arguments.val, Arguments.init] using congrArg (·.upstreamServer) hinit
  have hfilter : config.filterFile = none := by
    simpa [Arguments.val, Arguments.init] using congrArg (·.filterFile) hinit
  have hpure := FilteringResolver.parseArguments.eq_1 env argv a
  rcases hscan : (getoptOptions env).scan none (argv.map (·.bytes)) with ⟨opts, operands⟩
  rw [hscan] at hpure
  unfold parseArguments
  rw [hscan]
  refine .bind (parseOptions_owning ⟨by rw [hserver]; rfl, by rw [hfilter]; rfl⟩ hcfg hlive
    (by simp [ServerConfig.strings, hserver, hfilter]) fun r s a' hr hs hcfg' => ?_)
  rw [hinit] at hr
  dsimp only at hpure
  rw [hr] at hpure
  cases r with
  | some ret =>
    refine .pure (h ret s a' hpure hcfg' ?_)
    rintro rfl
    rcases parseOptions_ret hr with hret | hret <;> cases hret
  | none =>
    dsimp only at hpure ⊢
    split
    · next hoperand => exact .pure (h (-1) s a' (hpure.trans (if_pos hoperand)) hcfg' (by simp))
    next hoperand =>
    have hpure := hpure.trans (if_neg hoperand)
    split
    · next hno => exact .pure (h (-1) s a' (hpure.trans (if_pos hno)) hcfg' (by simp))
    next hno =>
    have hpure := hpure.trans (if_neg hno)
    split
    · next hno' => exact .pure (h (-1) s a' (hpure.trans (if_pos hno')) hcfg' (by simp))
    · next hno' =>
      refine .pure (h 0 s a' (hpure.trans (if_neg hno')) hcfg' fun _ => ⟨?_, ?_⟩)
      · simpa [(hs rfl).server] using hno
      · simpa [(hs rfl).filter] using hno'

/-! ## The process -/

section

variable {env : Process} {argv : List CStr}

/-- What `main` has when it starts the server: the server to ask, the trie, the port. -/
structure Configured (env : Process) (argv : List CStr) (a : Allocs)
    (c : FilteringResolver.ServerConfig) (port : UInt16) : Prop where
  parse : ∃ args a₁ file a₂, FilteringResolver.parseArguments env.toEnvironment argv (malloc a).2 =
      (0, args, a₁) ∧ args.upstreamServer = some c.upstreamServer ∧ args.localPort = port ∧
    args.filterFile = some file ∧
    FilteringResolver.loadFilterFile (env.fopen file) a₁ = (some c.filterRoot, a₂)

/-- How a run of `main` ends, and what it leaves. -/
inductive Outcome (env : Process) (argv : List CStr) (a : Allocs) :
    ServerRun → Resources → Prop where
  | noMemory (alloc : (malloc a).1 = false) : Outcome env argv a ⟨some errMemory, []⟩ 0
  | help {ret : Int} {s : Arguments} {a' : Allocs} (pos : 0 < ret)
      (parse : FilteringResolver.parseArguments env.toEnvironment argv (malloc a).2 =
        (ret, s.val, a')) : Outcome env argv a ⟨some errSuccess, []⟩ s.config.strings
  | rejected {ret : Int} {args : FilteringResolver.Arguments} {a' : Allocs} (neg : ret < 0)
      (parse : FilteringResolver.parseArguments env.toEnvironment argv (malloc a).2 =
        (ret, args, a')) : Outcome env argv a ⟨some errInvalidArgs, []⟩ 0
  | noFilter {args : FilteringResolver.Arguments} {a' : Allocs}
      (parse : FilteringResolver.parseArguments env.toEnvironment argv (malloc a).2 = (0, args, a'))
      (load : (FilteringResolver.loadFilterFile (args.filterFile.bind env.fopen) a').1 = none) :
      Outcome env argv a ⟨some errFilterFile, []⟩ 0
  | interrupted {c : FilteringResolver.ServerConfig} {port : UInt16}
      (configured : Configured env argv a c port) (signal : env.interrupted port = some false) :
      Outcome env argv a ⟨some errSuccess, []⟩ 0
  | abandoned {c : FilteringResolver.ServerConfig} {port : UInt16} {sockfd : Nat}
      (configured : Configured env argv a c port) (signal : env.interrupted port = some true) :
      Outcome env argv a ⟨some errSuccess, []⟩ {(.socket, sockfd)}
  | unopened {c : FilteringResolver.ServerConfig} {port : UInt16}
      (configured : Configured env argv a c port) (signal : env.interrupted port = none)
      (listens : env.server.listens port = false) :
      Outcome env argv a ⟨some errSocketCreate, []⟩ 0
  | ended {c : FilteringResolver.ServerConfig} {port : UInt16} {results : List PassResult}
      (configured : Configured env argv a c port) (signal : env.interrupted port = none)
      (listens : env.server.listens port = true)
      (passes : Passes c env.queryBuffer env.passes results)
      (ended : ∃ r ∈ results, r.goesOn = false) : Outcome env argv a ⟨some errSuccess, results⟩ 0
  | running {config : ServerConfig} {c : FilteringResolver.ServerConfig} {port : UInt16}
      {sockfd : Nat} {results : List PassResult} (configured : Configured env argv a c port)
      (signal : env.interrupted port = none) (listens : env.server.listens port = true)
      (passes : Passes c env.queryBuffer env.passes results)
      (going : ∀ r ∈ results, r.goesOn = true) (holds : config.Holds c) :
      Outcome env argv a ⟨none, results⟩ (config.blocks + {(.socket, sockfd)})

theorem initConfig_owning {post : Option ServerConfig → Allocs → Resources → Prop}
    (null : ∀ a', malloc a = (false, a') → post none a' own)
    (made : ∀ a' addr, malloc a = (true, a') →
      post (some ⟨addr, none, dnsDefaultPort, none, false, none⟩) a' (own + {(.block, addr)})) :
    Owning own a initConfig post :=
  .bind (mallocOf_owning (fun a' hm => .pure (null a' hm))
    fun a' addr hm => .pure (made a' addr hm))

/-- The strings and the block of a configuration go. -/
theorem freeStrings_owning {config : ServerConfig} {status : Nat}
    (hown : own = rest + {config.block} + config.strings)
    {post : ServerRun → Allocs → Resources → Prop} (h : post ⟨some status, []⟩ a rest) :
    Owning own a (do
      free config.upstreamServer
      free config.filterFile
      release config.block
      pure (ServerRun.mk (some status) [])) post := by
  have hown' : own = rest + {config.block} + blockOf config.filterFile +
      blockOf config.upstreamServer := by
    rw [hown, ServerConfig.strings]
    abel
  exact .bind (free_owning hown' (.bind (free_owning rfl (.bind (.release rfl (.pure h))))))

/-- The end of `main` and its signal handler release all of a configuration. -/
theorem freeConfig_owning {config : ServerConfig} {root : FilterNode}
    (hroot : config.filterRoot = some root) (halloc : root.Allocated)
    (hown : own = rest + config.blocks) {post : Unit → Allocs → Resources → Prop}
    (h : post () a rest) : Owning own a (freeConfig config) post := by
  have hown' : own = rest + {config.block} + blockOf config.filterFile +
      blockOf config.upstreamServer + root.blocks := by
    rw [hown, ServerConfig.blocks, hroot, ServerConfig.block]
    dsimp only [Option.elim]
    abel
  refine .bind (.use (by simp [hown']) ?_)
  rw [hroot]
  refine .bind (filterNodeFree_owning root halloc hown' ?_)
  exact .bind (free_owning rfl (.bind (free_owning rfl (.release rfl h))))

theorem loadConfigured_owning {config : ServerConfig} (hle : config.strings ≤ own)
    {post : Option (FilterNode × LoadCounts) → Allocs → Resources → Prop}
    (failed : ∀ a', FilteringResolver.loadFilterFile
        ((config.filterFile.map (·.val)).bind env.fopen) a = (none, a') → post none a' own)
    (loaded : ∀ a' root counts, FilteringResolver.loadFilterFile
        ((config.filterFile.map (·.val)).bind env.fopen) a = (some root.val, a') →
      root.Allocated → post (some (root, counts)) a' (own + root.blocks)) :
    Owning own a (loadConfigured env config) post := by
  unfold loadConfigured
  cases hfile : config.filterFile with
  | none =>
    rw [hfile] at failed
    exact .pure (failed a rfl)
  | some file =>
    rw [hfile] at failed loaded
    have hmem : file.block ∈ own := Multiset.mem_of_le hle (by
      simp [ServerConfig.strings, hfile])
    refine .bind (load_owning hmem (loadFilterFile_owning failed ?_))
    intro a' octets root counts calls _ hload _ halloc
    exact loaded a' root counts hload halloc

/-- **Every run of `main` ends in one of these ways**, and is never stuck. -/
theorem main_owning : Owning own a (main env argv) fun run _ own' =>
    ∃ left, own' = own + left ∧ Outcome env argv a run left := by
  refine .bind (initConfig_owning (fun a₁ hm => ?_) fun a₁ addr hm => ?_)
  · exact .pure ⟨0, (add_zero own).symm, .noMemory (by rw [hm])⟩
  refine .bind (parseArguments_owning rfl ⟨rfl, rfl⟩ (by simp)
    fun ret s a₂ hparse hcfg hcomplete => ?_)
  rw [← show (malloc a).2 = a₁ by rw [hm]] at hparse
  have hblock : s.config.block = (Kind.block, addr) := by rw [ServerConfig.block, hcfg.addr]
  rw [← hblock]
  dsimp only
  split
  · split
    · next hpos =>
      refine .bind (.release (add_right_comm _ _ _) (.pure ⟨s.config.strings, rfl, ?_⟩))
      exact .help hpos hparse
    · next hne hpos =>
      refine .bind (.use (by simp) (freeStrings_owning rfl ?_))
      exact ⟨0, (add_zero own).symm, .rejected (by omega) hparse⟩
  next hzero =>
  obtain rfl := not_not.1 hzero
  refine .bind (.use (by simp) (.bind (loadConfigured_owning (Multiset.le_add_left _ _)
    (fun a₃ hload => ?_) fun a₃ root counts hload halloc => ?_)))
  · refine freeStrings_owning rfl ⟨0, (add_zero own).symm, .noFilter hparse ?_⟩
    exact congrArg Prod.fst hload
  obtain ⟨⟨upstream, hupstream⟩, ⟨file, hfile⟩⟩ := (hcomplete rfl).imp Option.isSome_iff_exists.1
    Option.isSome_iff_exists.1
  have hconfigured : Configured env argv a ⟨upstream.val, root.val⟩ s.config.localPort :=
    ⟨s.val, a₂, file.val, a₃, hparse, by simp [Arguments.val, hupstream], rfl,
      by simp [Arguments.val, hfile], by simpa [hfile] using hload⟩
  have hholds : ServerConfig.Holds { s.config with filterRoot := some root }
      ⟨upstream.val, root.val⟩ := ⟨⟨upstream, hupstream, rfl⟩, ⟨root, rfl, rfl, halloc⟩⟩
  have hown : own + {s.config.block} + s.config.strings + root.blocks =
      own + ServerConfig.blocks { s.config with filterRoot := some root } := by
    rw [ServerConfig.blocks, ServerConfig.strings, ServerConfig.block]
    dsimp only [Option.elim]
    abel
  rw [hown]
  dsimp only
  split
  · next isOpen hsignal =>
    refine .bind (initUdpServerCut_owning (fun hclosed => ?_) fun sockfd hopen => ?_)
    · refine .bind (.bind (freeConfig_owning rfl halloc rfl (.pure (.pure ?_))))
      exact ⟨0, (add_zero own).symm, .interrupted hconfigured (hclosed ▸ hsignal)⟩
    · refine .bind (.bind (freeConfig_owning rfl halloc (add_right_comm _ _ _) (.pure (.pure ?_))))
      exact ⟨_, rfl, .abandoned hconfigured (hopen ▸ hsignal)⟩
  next hsignal =>
  refine .bind (runServer_owning hholds (Multiset.le_add_left _ _) (fun hlisten => ?_)
    (fun results hlisten hpasses hended => ?_) fun results sockfd hlisten hpasses hgoing => ?_)
  · refine .bind (freeConfig_owning rfl halloc rfl (.pure ?_))
    exact ⟨0, (add_zero own).symm, .unopened hconfigured hsignal hlisten⟩
  · refine .bind (freeConfig_owning rfl halloc rfl (.pure ?_))
    exact ⟨0, (add_zero own).symm, .ended hconfigured hsignal hlisten hpasses hended⟩
  · refine .pure ⟨_, add_assoc _ _ _, ?_⟩
    exact .running hconfigured hsignal hlisten hpasses hgoing hholds

/-- **How the process ends**: a run of `main` never reads or frees what is gone, and ends in one of
the ways of `Outcome`, with the exit status and the memory listed there. -/
theorem main_outcome (env : Process) (argv : List CStr) (a : Allocs) (l : Ledger Kind) :
    ∃ run a' l' left, main env argv a l = some ((run, a'), l') ∧ l'.live = l.live + left ∧
      Outcome env argv a run left := by
  obtain ⟨run, a', l', hrun, left, hlive, houtcome⟩ := main_owning.run
  exact ⟨run, a', l', left, hrun, hlive, houtcome⟩

theorem card_blockOf {α : Type} (p : Option (Ptr α)) : (blockOf p).card = p.toList.length := by
  cases p <;> simp

/-- The strings that stay after `-h`. -/
theorem card_strings {s : Arguments} {before : List Arg} {env : Environment}
    (hacc : Acceptable env before) (hs : s.val = argumentsOf before) :
    s.config.strings.card = copies before := by
  have hserver := congrArg (·.upstreamServer.toList.length) hs
  have hfilter := congrArg (·.filterFile.toList.length) hs
  simp only [Arguments.val, argumentsOf, Option.toList_map, List.length_map] at hserver hfilter
  rw [ServerConfig.strings, Multiset.card_add, card_blockOf, card_blockOf, hserver, hfilter,
    hacc.server.length_head?, hacc.filter.length_head?, copies]

/-- **What the process leaves**: once it has an exit status, everything it has acquired is
released, except after `-h`: the strings given before it stay; and after a signal that finds the
socket of the server open and the handlers of `main` installed: the socket stays. -/
theorem main_released (env : Process) (argv : List CStr) (a : Allocs) (l : Ledger Kind) :
    ∃ run a' l', main env argv a l = some ((run, a'), l') ∧
      ∀ status, run.ret = some status → l'.live = l.live ∨
        (status = errSuccess ∧ ∃ before behind left,
          ((getoptOptions env.toEnvironment).scan none (argv.map (·.bytes))).1 =
            before ++ .flag .help :: behind ∧
          l'.live = l.live + left ∧ left.card = copies before) ∨
        status = errSuccess ∧ ∃ port sockfd, env.interrupted port = some true ∧
          l'.live = l.live + {(.socket, sockfd)} := by
  obtain ⟨run, a', l', hrun, left, hlive, houtcome⟩ :=
    main_owning.run
  refine ⟨run, a', l', hrun, fun status hstatus => ?_⟩
  cases houtcome with
  | noMemory | rejected | noFilter | interrupted | unopened | ended =>
    exact .inl (by rw [hlive, add_zero])
  | @help ret s a₁ pos parse =>
    cases hstatus
    obtain rfl : ret = 1 := by
      rcases parseArguments_ret parse with rfl | rfl | rfl
      · cases pos
      · cases pos
      · rfl
    obtain ⟨before, behind, hopts, hacc, hs, -⟩ := parseArguments_help parse
    exact .inr (.inl ⟨rfl, before, behind, _, hopts, hlive, card_strings hacc hs⟩)
  | abandoned configured signal =>
    cases hstatus
    exact .inr (.inr ⟨rfl, _, _, signal, hlive⟩)
  | running => cases hstatus

end

end FilteringResolver.Heap
