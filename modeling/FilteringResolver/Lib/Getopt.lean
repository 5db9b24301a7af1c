import Mathlib.Data.List.Basic

/-!
# Scanning a command line

`getopt` over the elements of a command line, with options over any characters: flags and options
with an argument, the argument joined to its letter or in the next element, clusters of letters
behind one dash, operands among the options or only behind them, and two dashes for the end of
the options.

`scan` is what the calls of `getopt` report until it returns `-1`, and the operands it leaves.
`Spells` is the grammar of command lines, and `scan_eq_iff` says that the scanner reads it: the
command lines in which every option is known and has its argument are those the grammar spells.
-/

namespace Getopt

/-- What a call reports: a flag, an option with its argument, or a letter that is no option or
lacks its argument. -/
inductive Opt (χ φ κ : Type) where
  | flag (f : φ)
  | key (k : κ) (optarg : List χ)
  | invalid (c : χ)
  deriving DecidableEq

/-- The letters of the options, and whether options may come after an operand. -/
structure Options (χ φ κ : Type) where
  dash : χ
  find : χ → Option (φ ⊕ κ)
  find_dash : find dash = none
  permute : Bool

namespace Options

variable {χ φ κ : Type} (o : Options χ φ κ)

/-- The options of the letters of an element, and the one that takes the next element. -/
def cluster : List χ → List (Opt χ φ κ) × Option (κ × χ)
  | [] => ([], none)
  | c :: cs =>
    match o.find c with
    | none =>
      let (opts, next) := cluster cs
      (.invalid c :: opts, next)
    | some (.inl f) =>
      let (opts, next) := cluster cs
      (.flag f :: opts, next)
    | some (.inr k) =>
      match cs with
      | [] => ([], some (k, c))
      | c' :: cs => ([.key k (c' :: cs)], none)

variable [DecidableEq χ]

/-- The letters of an element, or `none` for an operand; a lone dash is an operand. -/
def letters : List χ → Option (List χ)
  | d :: c :: cs => if d = o.dash then some (c :: cs) else none
  | _ => none

/-- The options of the elements, the first of which belongs to the option that waits for its
argument, and the operands. -/
def scan : Option (κ × χ) → List (List χ) → List (Opt χ φ κ) × List (List χ)
  | none, [] => ([], [])
  | some (_, c), [] => ([.invalid c], [])
  | some (k, _), arg :: args =>
    let (opts, operands) := scan none args
    (.key k arg :: opts, operands)
  | none, arg :: args =>
    if arg = [o.dash, o.dash] then ([], args)
    else
      match o.letters arg with
      | some cs =>
        let (opts, next) := o.cluster cs
        let (opts', operands) := scan next args
        (opts ++ opts', operands)
      | none =>
        if o.permute then
          let (opts, operands) := scan none args
          (opts, arg :: operands)
        else ([], arg :: args)

/-! ## The grammar -/

/-- `Cluster cs taken opts`: the letters `cs` of an element spell the options `opts`, the last of
which takes the elements `taken`, at most one. -/
inductive Cluster : List χ → List (List χ) → List (Opt χ φ κ) → Prop where
  | nil : Cluster [] [] []
  | flag {c : χ} {f : φ} {cs : List χ} {taken : List (List χ)} {opts : List (Opt χ φ κ)}
      (find : o.find c = some (.inl f)) (rest : Cluster cs taken opts) :
      Cluster (c :: cs) taken (.flag f :: opts)
  | joined {c : χ} {k : κ} {optarg : List χ} (find : o.find c = some (.inr k))
      (ne : optarg ≠ []) : Cluster (c :: optarg) [] [.key k optarg]
  | apart {c : χ} {k : κ} {optarg : List χ} (find : o.find c = some (.inr k)) :
      Cluster [c] [optarg] [.key k optarg]

/-- `Spells args opts operands`: a command line, the options it gives and its operands. -/
inductive Spells : List (List χ) → List (Opt χ φ κ) → List (List χ) → Prop where
  | nil : Spells [] [] []
  | ended {args : List (List χ)} : Spells ([o.dash, o.dash] :: args) [] args
  | options {cs : List χ} {taken args operands : List (List χ)} {opts opts' : List (Opt χ φ κ)}
      (ne : cs ≠ []) (cluster : o.Cluster cs taken opts) (rest : Spells args opts' operands) :
      Spells ((o.dash :: cs) :: (taken ++ args)) (opts ++ opts') operands
  | operand {arg : List χ} {args operands : List (List χ)} {opts : List (Opt χ φ κ)}
      (permute : o.permute = true) (operand : o.letters arg = none)
      (rest : Spells args opts operands) : Spells (arg :: args) opts (arg :: operands)
  | stopped {arg : List χ} {args : List (List χ)} (permute : o.permute = false)
      (operand : o.letters arg = none) : Spells (arg :: args) [] (arg :: args)

/-- Every option is known and has its argument. -/
def Valid (opts : List (Opt χ φ κ)) : Prop := ∀ c, Opt.invalid c ∉ opts

omit [DecidableEq χ] in
@[simp] theorem valid_nil : Valid ([] : List (Opt χ φ κ)) := fun _ => List.not_mem_nil

omit [DecidableEq χ] in
theorem valid_cons {opt : Opt χ φ κ} {opts : List (Opt χ φ κ)} :
    Valid (opt :: opts) ↔ (∀ c, opt ≠ .invalid c) ∧ Valid opts := by
  simp only [Valid, List.mem_cons, not_or, forall_and, ne_eq, eq_comm]

omit [DecidableEq χ] in
theorem valid_append {opts opts' : List (Opt χ φ κ)} :
    Valid (opts ++ opts') ↔ Valid opts ∧ Valid opts' := by
  simp only [Valid, List.mem_append, not_or, forall_and]

variable {o : Options χ φ κ}

theorem letters_eq_some {arg cs : List χ} (h : o.letters arg = some cs) :
    arg = o.dash :: cs ∧ cs ≠ [] := by
  unfold letters at h
  split at h
  · split at h <;> cases h
    next hd => exact ⟨by rw [hd], List.cons_ne_nil _ _⟩
  · cases h

theorem letters_dash {cs : List χ} (h : cs ≠ []) : o.letters (o.dash :: cs) = some cs := by
  cases cs with
  | nil => exact absurd rfl h
  | cons c cs => exact if_pos rfl

/-! ## Clusters -/

omit [DecidableEq χ]

/-- The options that the letters give once the last one has its argument. -/
theorem cluster_spells {cs : List χ} {opts : List (Opt χ φ κ)} {next : Option (κ × χ)}
    (h : o.cluster cs = (opts, next)) (hv : Valid opts) :
    (next = none → o.Cluster cs [] opts) ∧
      ∀ k c, next = some (k, c) → ∀ optarg, o.Cluster cs [optarg] (opts ++ [.key k optarg]) := by
  induction cs generalizing opts with
  | nil =>
    cases h
    exact ⟨fun _ => .nil, by rintro k c ⟨⟩⟩
  | cons c cs ih =>
    unfold cluster at h
    cases hfind : o.find c with
    | none =>
      rw [hfind] at h
      cases h
      exact absurd rfl ((valid_cons.1 hv).1 c)
    | some e =>
      rw [hfind] at h
      cases e with
      | inl f =>
        rcases hcs : o.cluster cs with ⟨opts', next'⟩
        rw [hcs] at h
        cases h
        obtain ⟨hnone, hsome⟩ := ih hcs (valid_cons.1 hv).2
        exact ⟨fun hn => .flag hfind (hnone hn), fun k c hn optarg =>
          .flag hfind (hsome k c hn optarg)⟩
      | inr k =>
        cases cs with
        | nil =>
          cases h
          refine ⟨by rintro ⟨⟩, ?_⟩
          rintro k c ⟨⟩ optarg
          exact .apart hfind
        | cons c' cs =>
          cases h
          exact ⟨fun _ => .joined hfind (List.cons_ne_nil _ _), by rintro k c ⟨⟩⟩

/-- The scanner reads a cluster back. -/
theorem Cluster.cluster_eq {cs : List χ} {taken : List (List χ)} {opts : List (Opt χ φ κ)}
    (h : o.Cluster cs taken opts) :
    taken = [] ∧ o.cluster cs = (opts, none) ∨
      ∃ opts' k c optarg, taken = [optarg] ∧ opts = opts' ++ [.key k optarg] ∧
        o.cluster cs = (opts', some (k, c)) := by
  induction h with
  | nil => exact .inl ⟨rfl, rfl⟩
  | @flag c f cs taken opts find rest ih =>
    rcases ih with ⟨htaken, hcs⟩ | ⟨opts', k, c', optarg, htaken, rfl, hcs⟩
    · exact .inl ⟨htaken, by rw [cluster, find]; dsimp only; rw [hcs]⟩
    · refine .inr ⟨.flag f :: opts', k, c', optarg, htaken, rfl, ?_⟩
      rw [cluster, find]
      dsimp only
      rw [hcs]
  | @joined c k optarg find ne =>
    cases optarg with
    | nil => exact absurd rfl ne
    | cons c' cs => exact .inl ⟨rfl, by rw [cluster, find]⟩
  | @apart c k optarg find =>
    exact .inr ⟨[], k, c, optarg, rfl, rfl, by rw [cluster, find]⟩

theorem Cluster.valid {cs : List χ} {taken : List (List χ)} {opts : List (Opt χ φ κ)}
    (h : o.Cluster cs taken opts) : Valid opts := by
  induction h with
  | nil => exact valid_nil
  | flag find rest ih => exact valid_cons.2 ⟨by rintro c ⟨⟩, ih⟩
  | joined find ne => exact valid_cons.2 ⟨by rintro c ⟨⟩, valid_nil⟩
  | apart find => exact valid_cons.2 ⟨by rintro c ⟨⟩, valid_nil⟩

/-- Two dashes spell no cluster. -/
theorem Cluster.ne_end {cs : List χ} {taken : List (List χ)} {opts : List (Opt χ φ κ)}
    (h : o.Cluster cs taken opts) : o.dash :: cs ≠ [o.dash, o.dash] := by
  have hfind := o.find_dash
  intro heq
  obtain rfl := (List.cons.inj heq).2
  cases h with
  | flag find rest =>
    rw [hfind] at find
    cases find
  | joined find ne => exact ne rfl
  | apart find =>
    rw [hfind] at find
    cases find

theorem Cluster.mem {cs optarg : List χ} {taken : List (List χ)} {opts : List (Opt χ φ κ)} {k : κ}
    (h : o.Cluster cs taken opts) (hmem : .key k optarg ∈ opts) :
    optarg ∈ taken ∨ ∀ c ∈ optarg, c ∈ cs := by
  induction h with
  | nil => cases hmem
  | flag find rest ih =>
    rcases ih (by simpa using hmem) with htaken | hcs
    · exact .inl htaken
    · exact .inr fun c hc => List.mem_cons_of_mem _ (hcs c hc)
  | joined find ne =>
    cases List.mem_singleton.1 hmem
    exact .inr fun c hc => List.mem_cons_of_mem _ hc
  | apart find =>
    cases List.mem_singleton.1 hmem
    exact .inl List.mem_cons_self

/-! ## Command lines -/

variable [DecidableEq χ]

/-- What the scanner reports is spelt by what it has read. -/
theorem scan_spells {args operands : List (List χ)} {opts : List (Opt χ φ κ)}
    {next : Option (κ × χ)} (h : o.scan next args = (opts, operands)) (hv : Valid opts) :
    (next = none → o.Spells args opts operands) ∧
      ∀ k c, next = some (k, c) → ∃ optarg args' opts', args = optarg :: args' ∧
        opts = .key k optarg :: opts' ∧ o.Spells args' opts' operands := by
  induction args generalizing next opts operands with
  | nil =>
    cases next with
    | none =>
      cases h
      exact ⟨fun _ => .nil, by rintro k c ⟨⟩⟩
    | some kc =>
      cases h
      exact absurd rfl ((valid_cons.1 hv).1 kc.2)
  | cons arg args ih =>
    cases next with
    | some kc =>
      refine ⟨by rintro ⟨⟩, ?_⟩
      rintro k c ⟨⟩
      rcases hscan : o.scan none args with ⟨opts', operands'⟩
      rw [scan, hscan] at h
      cases h
      exact ⟨arg, args, opts', rfl, rfl, (ih hscan (valid_cons.1 hv).2).1 rfl⟩
    | none =>
      refine ⟨fun _ => ?_, by rintro k c ⟨⟩⟩
      rw [scan] at h
      by_cases hend : arg = [o.dash, o.dash]
      · rw [if_pos hend] at h
        cases h
        rw [hend]
        exact .ended
      rw [if_neg hend] at h
      cases hletters : o.letters arg with
      | none =>
        rw [hletters] at h
        cases hpermute : o.permute with
        | true =>
          rcases hscan : o.scan none args with ⟨opts', operands'⟩
          simp only [hpermute, hscan, if_true] at h
          cases h
          exact .operand hpermute hletters ((ih hscan hv).1 rfl)
        | false =>
          simp only [hpermute, Bool.false_eq_true, if_false] at h
          cases h
          exact .stopped hpermute hletters
      | some cs =>
        obtain ⟨rfl, hne⟩ := letters_eq_some hletters
        rcases hcs : o.cluster cs with ⟨opts₁, next⟩
        rcases hscan : o.scan next args with ⟨opts₂, operands'⟩
        simp only [hletters, hcs, hscan] at h
        cases h
        obtain ⟨hv₁, hv₂⟩ := valid_append.1 hv
        obtain ⟨hnone, hsome⟩ := cluster_spells hcs hv₁
        cases next with
        | none => exact .options hne (hnone rfl) ((ih hscan hv₂).1 rfl)
        | some kc =>
          -- the last letter takes the element behind it
          obtain ⟨optarg, args', opts', rfl, rfl, hrest⟩ := (ih hscan hv₂).2 kc.1 kc.2 rfl
          have hspells := Spells.options hne (hsome kc.1 kc.2 rfl optarg) hrest
          rwa [List.append_assoc] at hspells

theorem Spells.scan_eq {args operands : List (List χ)} {opts : List (Opt χ φ κ)}
    (h : o.Spells args opts operands) : o.scan none args = (opts, operands) := by
  induction h with
  | nil => rfl
  | ended => rw [scan, if_pos rfl]
  | @options cs taken args operands opts opts' ne cluster rest ih =>
    rcases cluster.cluster_eq with ⟨rfl, hcs⟩ | ⟨opts₁, k, c, optarg, rfl, rfl, hcs⟩
    · rw [scan, if_neg cluster.ne_end, letters_dash ne]
      simp only [hcs, List.nil_append, ih]
    · rw [scan, if_neg cluster.ne_end, letters_dash ne]
      simp only [hcs, List.singleton_append, scan, ih, List.append_assoc]
  | @operand arg args operands opts permute operand rest ih =>
    have hend : arg ≠ [o.dash, o.dash] := by
      rintro rfl
      rw [letters_dash (List.cons_ne_nil _ _)] at operand
      cases operand
    rw [scan, if_neg hend, operand]
    simp only [permute, if_true, ih]
  | @stopped arg args permute operand =>
    have hend : arg ≠ [o.dash, o.dash] := by
      rintro rfl
      rw [letters_dash (List.cons_ne_nil _ _)] at operand
      cases operand
    rw [scan, if_neg hend, operand]
    simp only [permute, Bool.false_eq_true, if_false]

theorem Spells.valid {args operands : List (List χ)} {opts : List (Opt χ φ κ)}
    (h : o.Spells args opts operands) : Valid opts := by
  induction h with
  | nil | ended | stopped => exact valid_nil
  | options ne cluster rest ih => exact valid_append.2 ⟨cluster.valid, ih⟩
  | operand permute operand rest ih => exact ih

/-- The characters of an argument of an option come from the command line. -/
theorem Spells.mem {args operands : List (List χ)} {opts : List (Opt χ φ κ)} {k : κ}
    {optarg : List χ} (h : o.Spells args opts operands) (hmem : .key k optarg ∈ opts) :
    ∀ c ∈ optarg, ∃ arg ∈ args, c ∈ arg := by
  induction h with
  | nil | ended | stopped => cases hmem
  | options ne cluster rest ih =>
    intro c hc
    rcases List.mem_append.1 hmem with hmem | hmem
    · rcases cluster.mem hmem with htaken | hcs
      · exact ⟨optarg, List.mem_cons_of_mem _ (List.mem_append_left _ htaken), hc⟩
      · exact ⟨_, List.mem_cons_self, List.mem_cons_of_mem _ (hcs c hc)⟩
    · obtain ⟨arg, harg, hcarg⟩ := ih hmem c hc
      exact ⟨arg, List.mem_cons_of_mem _ (List.mem_append_right _ harg), hcarg⟩
  | operand permute operand rest ih =>
    intro c hc
    obtain ⟨arg, harg, hcarg⟩ := ih hmem c hc
    exact ⟨arg, List.mem_cons_of_mem _ harg, hcarg⟩

/-- **The scanner reads the grammar.** -/
theorem scan_eq_iff {args operands : List (List χ)} {opts : List (Opt χ φ κ)} :
    o.scan none args = (opts, operands) ∧ Valid opts ↔ o.Spells args opts operands :=
  ⟨fun h => (scan_spells h.1 h.2).1 rfl, fun h => ⟨h.scan_eq, h.valid⟩⟩

end Options

end Getopt
