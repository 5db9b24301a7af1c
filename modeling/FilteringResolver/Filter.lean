import Mathlib.Data.List.DropRight
import FilteringResolver.Dns
import FilteringResolver.Lib.Lines
import FilteringResolver.Lib.Loop

/-!
# `filter.c`

Name normalisation, the label splitter, the trie of blocked suffixes and the loader of the filter
file. A pointer to a child is its index in the parent's children, so that the walk of
`filter_add_domain` can write to the nodes it passes; `childrenCapacity` is the size of the
children array, its length the count. A file is its octets.
-/

namespace FilteringResolver

open Loops

/-! ## Normalisation -/

/-- `isspace` in the C locale. -/
def isspace (c : UInt8) : Bool := c == 0x20 || (0x09 ≤ c && c ≤ 0x0D)

/-- `tolower` in the C locale. -/
def tolower (c : UInt8) : UInt8 := if 0x41 ≤ c ∧ c ≤ 0x5A then c + 0x20 else c

/-- `while (*domain && i < len - 1)` with `cap = len - 1`: what is left of `domain`, and
`normalized[0 .. i)`. -/
def copyLower (cap : Nat) : Bytes → Bytes → Bytes × Bytes
  | [], normalized => ([], normalized)
  | c :: domain, normalized =>
    if normalized.length < cap then
      if isspace c then copyLower cap domain normalized
      else copyLower cap domain (normalized ++ [tolower c])
    else (c :: domain, normalized)

/-- The scan for a leading dot or two dots in a row. -/
def hasEmptyLabel (s : Bytes) : Bool :=
  (List.range s.length).any fun j =>
    s.getD j 0 == dot && (j == 0 || (j + 1 < s.length && s.getD (j + 1) 0 == dot))

def normalizeDomain (domain : CStr) (len : Nat) : Option CStr :=
  if len = 0 then none
  else
    let domain := domain.bytes.dropWhile isspace
    if domain = [] then none
    else
      let (domain, normalized) := copyLower (len - 1) domain []
      if domain ≠ [] ∧ len - 1 ≤ normalized.length then none
      else
        let normalized := normalized.rdropWhile (· == dot)
        if normalized = [] then none
        else if hasEmptyLabel normalized then none
        else some (.ofBuffer normalized)

/-! ## Labels -/

/-- `while (start > domain && *(start - 1) != '.') start--;` -/
def scanStart (domain : Bytes) : Nat → Nat
  | 0 => 0
  | start + 1 => if domain.getD start 0 ≠ dot then scanStart domain start else start + 1

/-- The locals of `split_domain_labels`: `labels` holds the slots filled so far. -/
structure SplitState where
  endPos : Nat
  labels : List CStr
  allocs : Allocs

/-- One pass of `while (end > domain)`. -/
def splitStep (domain : Bytes) (s : SplitState) :
    SplitState ⊕ (Option (List CStr) × Allocs) :=
  if 0 < s.endPos then
    let start := scanStart domain (s.endPos - 1)
    let labelLen := s.endPos - start
    if labelLen = 0 then .inr (none, s.allocs)
    else if dnsMaxLabelLen < labelLen then .inr (none, s.allocs)
    else
      match malloc s.allocs with
      | (false, a) => .inr (none, a)
      | (true, a) =>
        let labels := s.labels ++ [.ofBuffer ((domain.drop start).take labelLen)]
        if 0 < start then .inl ⟨start - 1, labels, a⟩
        else .inr (some labels, a)
  else .inr (some s.labels, s.allocs)

theorem scanStart_le (domain : Bytes) (start : Nat) : scanStart domain start ≤ start := by
  induction start with
  | zero => exact Nat.le_refl 0
  | succ start ih =>
    rw [scanStart]
    split
    · exact Nat.le_succ_of_le ih
    · exact Nat.le_refl _

theorem splitStep_decreases {domain : Bytes} {s t : SplitState}
    (h : splitStep domain s = .inl t) : t.endPos < s.endPos := by
  unfold splitStep at h
  dsimp only at h
  split at h <;> [skip; cases h]
  split at h <;> [cases h; skip]
  split at h <;> [cases h; skip]
  split at h <;> [cases h; skip]
  split at h <;> cases h
  have := scanStart_le domain (s.endPos - 1)
  dsimp only
  omega

def splitLoop (domain : Bytes) : Loop SplitState (Option (List CStr) × Allocs) where
  step := splitStep domain
  measure := fun s => s.endPos
  decreases := splitStep_decreases

/-- The array of labels, one slot for each dot and one more; a slot the scan did not fill is
`NULL`. -/
def splitDomainLabels (domain : CStr) (a : Allocs) : Option (List (Option CStr)) × Allocs :=
  let labelCount := domain.bytes.count dot + 1
  match malloc a with
  | (false, a) => (none, a)
  | (true, a) =>
    match (splitLoop domain.bytes).run ⟨domain.bytes.length, [], a⟩ with
    | (none, a) => (none, a)
    | (some labels, a) =>
      (some (labels.map some ++ List.replicate (labelCount - labels.length) none), a)

/-! ## The trie -/

def initialChildrenCapacity : Nat := 4

structure FilterNode where
  label : Option CStr
  children : List FilterNode
  childrenCapacity : Nat
  isBlocked : Bool

namespace FilterNode

def empty : FilterNode := ⟨none, [], 0, false⟩

/-- `*node->children[i]`. -/
def child (node : FilterNode) (i : Nat) : FilterNode := node.children.getD i empty

/-- The node after a write through `node->children[i]`. -/
def setChild (node : FilterNode) (i : Nat) (c : FilterNode) : FilterNode :=
  { node with children := node.children.set i c }

end FilterNode

def filterNodeCreate (a : Allocs) : Option FilterNode × Allocs :=
  match malloc a with
  | (false, a) => (none, a)
  | (true, a) => (some .empty, a)

/-- The first child that carries the label. -/
def findChild (node : FilterNode) (label : Option CStr) : Option Nat :=
  match label with
  | none => none
  | some label => node.children.findIdx? fun c => c.label == some label

/-- The parent with the child at the end of its children, or `none` when the children array
could not grow. -/
def addChild (parent child : FilterNode) (a : Allocs) : Option FilterNode × Allocs :=
  if parent.childrenCapacity ≤ parent.children.length then
    let newCapacity :=
      if parent.childrenCapacity = 0 then initialChildrenCapacity else parent.childrenCapacity * 2
    match malloc a with
    | (false, a) => (none, a)
    | (true, a) =>
      (some { parent with
        children := parent.children ++ [child], childrenCapacity := newCapacity }, a)
  else (some { parent with children := parent.children ++ [child] }, a)

/-- The child created for a label that `find_child` did not find, linked to `current`. -/
def newChild (current : FilterNode) (label : Option CStr) (a : Allocs) :
    Ret × FilterNode × Allocs :=
  match filterNodeCreate a with
  | (none, a) => (.failure, current, a)
  | (some child, a) =>
    match label with
    | none => (.undefined, current, a)  -- `strdup(NULL)`
    | some label =>
      match strdup label a with
      | (none, a) => (.failure, current, a)
      | (some label, a) =>
        match addChild current { child with label := some label } a with
        | (none, a) => (.failure, current, a)
        | (some current, a) => (.success, current, a)

/-- The loop of `filter_add_domain` from `current` on, and the marking of the last node. The
node comes back with every change made below it, also when the call fails. -/
def addLabels : List (Option CStr) → FilterNode → Allocs → Ret × FilterNode × Allocs
  | [], current, a => (.success, { current with isBlocked := true }, a)
  | label :: labels, current, a =>
    match findChild current label with
    | some i =>
      let (ret, child, a) := addLabels labels (current.child i) a
      (ret, current.setChild i child, a)
    | none =>
      match newChild current label a with
      | (.success, current, a) =>
        let i := current.children.length - 1
        let (ret, child, a) := addLabels labels (current.child i) a
        (ret, current.setChild i child, a)
      | (ret, current, a) => (ret, current, a)

def filterAddDomain (root : FilterNode) (domain : CStr) (a : Allocs) :
    Ret × FilterNode × Allocs :=
  match normalizeDomain domain (dnsMaxNameLen + 1) with
  | none => (.failure, root, a)
  | some normalized =>
    match splitDomainLabels normalized a with
    | (none, a) => (.failure, root, a)
    | (some labels, a) => addLabels labels root a

/-- The loop of `is_domain_blocked` from `current` on. -/
def walkLabels : List (Option CStr) → FilterNode → Bool
  | [], _ => false
  | label :: labels, current =>
    match findChild current label with
    | none => false
    | some i =>
      let child := current.child i
      if child.isBlocked then true else walkLabels labels child

def isDomainBlocked (root : FilterNode) (domain : CStr) (a : Allocs) : Bool × Allocs :=
  match normalizeDomain domain (dnsMaxNameLen + 1) with
  | none => (false, a)
  | some normalized =>
    match splitDomainLabels normalized a with
    | (none, a) => (false, a)
    | (some labels, a) => (walkLabels labels root, a)

/-! ## Statistics -/

/-- `filter_stats_t`. -/
structure FilterStats where
  totalDomains : Nat
  totalNodes : Nat
  maxDepth : Nat
  deriving DecidableEq

mutual

def countStatsRecursive : FilterNode → Nat → FilterStats → FilterStats
  | ⟨_, children, _, isBlocked⟩, depth, stats =>
    let stats := { stats with totalNodes := stats.totalNodes + 1 }
    let stats :=
      if isBlocked then { stats with totalDomains := stats.totalDomains + 1 } else stats
    let stats := if stats.maxDepth < depth then { stats with maxDepth := depth } else stats
    countStatsChildren children (depth + 1) stats

/-- The loop over the children of a node. -/
def countStatsChildren : List FilterNode → Nat → FilterStats → FilterStats
  | [], _, stats => stats
  | child :: children, depth, stats =>
    countStatsChildren children depth (countStatsRecursive child depth stats)

end

/-- The numbers that `filter_print_stats` prints, or `none` where it prints nothing; a root that
is `NULL` is `none`. -/
def filterPrintStats (root : Option FilterNode) (verbose : Bool) : Option FilterStats :=
  if verbose = false then none
  else root.map fun root => countStatsChildren root.children 1 ⟨0, 0, 0⟩

/-! ## The filter file -/

def newline : UInt8 := 0x0A
def carriageReturn : UInt8 := 0x0D
/-- The character `'#'`. -/
def hash : UInt8 := 0x23

/-- `sizeof(line)`. -/
def lineSize : Nat := dnsMaxNameLen * 2

/-- `fgets`: what it stores before the NUL and what is left of the file, or `none` for `NULL` at
the end of the file. -/
def fgets (size : Nat) (file : Bytes) : Option (Bytes × Bytes) :=
  if file = [] then none else some (Lines.readLine newline (size - 1) file)

/-- The domain on a line, or `none` where the loop goes on with the next line: on a line that is
blank or a comment. -/
def lineDomain (line : Bytes) : Option CStr :=
  let line := (CStr.ofBuffer line).bytes.rdropWhile fun c => c == newline || c == carriageReturn
  if line = [] then none
  else
    let domain := line.dropWhile isspace
    if domain = [] then none
    else if domain.head? = some hash then none
    else some (.ofBuffer domain)

/-- The locals of `load_filter_file`: the rest of the file and the trie so far. -/
structure LoadState where
  file : Bytes
  root : FilterNode
  allocs : Allocs

/-- One pass of `while (fgets(line, sizeof(line), file) != NULL)`. -/
def loadStep (s : LoadState) : LoadState ⊕ (FilterNode × Allocs) :=
  match fgets lineSize s.file with
  | none => .inr (s.root, s.allocs)
  | some (line, file) =>
    match lineDomain line with
    | none => .inl { s with file }
    | some domain =>
      -- a domain that is refused leaves a warning at most
      let (_, root, a) := filterAddDomain s.root domain s.allocs
      .inl { file, root, allocs := a }

theorem loadStep_decreases {s t : LoadState} (h : loadStep s = .inl t) :
    t.file.length < s.file.length := by
  unfold loadStep fgets at h
  by_cases hfile : s.file = []
  · rw [if_pos hfile] at h
    cases h
  · have hlt := Lines.length_readLine_lt newline (n := lineSize - 1) (by decide) hfile
    rw [if_neg hfile] at h
    dsimp only at h
    split at h <;> cases h <;> exact hlt

def loadLoop : Loop LoadState (FilterNode × Allocs) where
  step := loadStep
  measure := fun s => s.file.length
  decreases := loadStep_decreases

/-- The root of the trie, or `none` for `NULL`: for a file that cannot be opened (`none`) and a
root that cannot be allocated. -/
def loadFilterFile (file : Option Bytes) (a : Allocs) : Option FilterNode × Allocs :=
  match file with
  | none => (none, a)
  | some file =>
    match filterNodeCreate a with
    | (none, a) => (none, a)
    | (some root, a) =>
      let (root, a) := loadLoop.run { file, root, allocs := a }
      (some root, a)

end FilteringResolver
