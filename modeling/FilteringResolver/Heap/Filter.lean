import FilteringResolver.Filter
import FilteringResolver.Heap.Memory

/-!
# `filter.c` with its memory

The trie with the addresses of its nodes, labels and children arrays, and every function of
`filter.c` that allocates, frees or follows pointers. As in `Filter`, a pointer to a child is its
index in the parent's children.
-/

namespace FilteringResolver.Heap

open Ownership

/-! ## The trie -/

/-- The capacity of a children array. -/
def capacityOf (array : Option (Ptr Nat)) : Nat := array.elim 0 (·.val)

/-- `filter_node_t` at the address `addr`. `array` is the pair `children, children_capacity`; the
capacity of `NULL` is 0. -/
structure FilterNode where
  addr : Nat
  label : Option (Ptr CStr)
  array : Option (Ptr Nat)
  children : List FilterNode
  isBlocked : Bool

namespace FilterNode

def block (node : FilterNode) : Kind × Nat := (.block, node.addr)

/-- `node->children_capacity`. -/
def childrenCapacity (node : FilterNode) : Nat := capacityOf node.array

/-- `*node->children[i]`. -/
def child (node : FilterNode) (i : Nat) : FilterNode :=
  node.children.getD i ⟨0, none, none, [], false⟩

/-- The node after a write through `node->children[i]`. -/
def setChild (node : FilterNode) (i : Nat) (c : FilterNode) : FilterNode :=
  { node with children := node.children.set i c }

end FilterNode

/-- An access to the entry `i` of a children array. -/
def useArray (array : Option (Ptr Nat)) (i : Nat) : Mem Unit :=
  match array with
  | none => stuck
  | some array => if i < array.val then use array.block else stuck

def filterNodeCreate : Mem (Option FilterNode) := do
  match ← mallocOf () with
  | none => pure none
  | some node => pure (some ⟨node.addr, none, none, [], false⟩)

mutual

def filterNodeFree : FilterNode → Mem Unit
  | ⟨addr, label, array, children, _⟩ => do
    use (.block, addr)
    freeChildren array 0 children
    free label
    free array
    release (.block, addr)

/-- The loop over the children of a node from the index `i` on. -/
def freeChildren (array : Option (Ptr Nat)) : Nat → List FilterNode → Mem Unit
  | _, [] => pure ()
  | i, child :: children => do
    useArray array i
    filterNodeFree child
    freeChildren array (i + 1) children

end

/-! ## Labels -/

/-- The array of labels that `split_domain_labels` allocates. -/
abbrev Labels := Ptr (List (Option (Ptr CStr)))

/-- The loop that frees the labels of an array. -/
def freeLabels (array : Nat) : List (Option (Ptr CStr)) → Mem Unit
  | [] => pure ()
  | label :: labels => do
    use (.block, array)
    free label
    freeLabels array labels

/-- The cleanup of `filter_add_domain` and `is_domain_blocked`. -/
def cleanupLabels (labels : Labels) : Mem Unit := do
  freeLabels labels.addr labels.val
  release labels.block

/-- `while (end > domain)` over an array of `labelCount` slots, with the labels so far; every
failure frees them. -/
def splitLabels (domain : Bytes) (array labelCount endPos : Nat) (labels : List (Ptr CStr)) :
    Mem (Option (List (Ptr CStr))) :=
  if 0 < endPos then
    let start := scanStart domain (endPos - 1)
    let labelLen := endPos - start
    if labelLen = 0 then do
      cleanupLabels ⟨array, labels.map some⟩
      pure none
    else if dnsMaxLabelLen < labelLen then do
      cleanupLabels ⟨array, labels.map some⟩
      pure none
    else if labelCount ≤ labels.length then stuck  -- a slot behind the array
    else do
      use (.block, array)
      match ← mallocOf (CStr.ofBuffer ((domain.drop start).take labelLen)) with
      | none =>
        cleanupLabels ⟨array, labels.map some⟩
        pure none
      | some label =>
        if 0 < start then splitLabels domain array labelCount (start - 1) (labels ++ [label])
        else pure (some (labels ++ [label]))
  else pure (some labels)
termination_by endPos
decreasing_by
  have := scanStart_le domain (endPos - 1)
  omega

def splitDomainLabels (domain : CStr) : Mem (Option Labels) := do
  let labelCount := domain.bytes.count dot + 1
  match ← mallocOf () with
  | none => pure none
  | some array =>
    match ← splitLabels domain.bytes array.addr labelCount domain.bytes.length [] with
    | none => pure none
    | some labels =>
      pure (some ⟨array.addr,
        labels.map some ++ List.replicate (labelCount - labels.length) none⟩)

/-! ## Children -/

/-- The loop over the children of `node` from the index `i` on. -/
def findChildFrom (node : FilterNode) (label : Ptr CStr) : Nat → List FilterNode →
    Mem (Option Nat)
  | _, [] => do
    use node.block
    pure none
  | i, child :: children => do
    use node.block
    useArray node.array i
    use child.block
    match child.label with
    | none => findChildFrom node label (i + 1) children
    | some childLabel =>
      let s ← load childLabel
      let t ← load label
      if s = t then pure (some i) else findChildFrom node label (i + 1) children

def findChild (node : FilterNode) : Option (Ptr CStr) → Mem (Option Nat)
  | none => pure none
  | some label => findChildFrom node label 0 node.children

/-- `realloc` moves the children array to a new block. -/
def addChild (parent child : FilterNode) : Mem (Option FilterNode) := do
  use parent.block
  if parent.childrenCapacity ≤ parent.children.length then
    let newCapacity :=
      if parent.childrenCapacity = 0 then initialChildrenCapacity else parent.childrenCapacity * 2
    match ← mallocOf newCapacity with
    | none => pure none
    | some newChildren =>
      free parent.array
      useArray (some newChildren) parent.children.length
      pure (some { parent with
        array := some newChildren, children := parent.children ++ [child] })
  else
    useArray parent.array parent.children.length
    pure (some { parent with children := parent.children ++ [child] })

/-! ## Adding a domain -/

/-- The child created for a label that `find_child` did not find, linked to `current`; `none` is
the `return -1` after its cleanup. -/
def newChild (labels : Labels) (current : FilterNode) (label : Option (Ptr CStr)) :
    Mem (Option FilterNode) := do
  match ← filterNodeCreate with
  | none =>
    cleanupLabels labels
    pure none
  | some child =>
    match label with
    | none => stuck  -- `strdup(NULL)`
    | some label =>
      let text ← load label
      match ← mallocOf text with
      | none =>
        filterNodeFree child
        cleanupLabels labels
        pure none
      | some copy =>
        match ← addChild current { child with label := some copy } with
        | none =>
          filterNodeFree { child with label := some copy }
          cleanupLabels labels
          pure none
        | some current => pure (some current)

/-- The loop of `filter_add_domain` from `current` on, the marking of the last node and the
cleanup. -/
def addLabels (labels : Labels) : List (Option (Ptr CStr)) → FilterNode → Mem (Ret × FilterNode)
  | [], current => do
    use current.block
    cleanupLabels labels
    pure (.success, { current with isBlocked := true })
  | label :: rest, current => do
    use labels.block
    match ← findChild current label with
    | some i =>
      let (ret, child) ← addLabels labels rest (current.child i)
      pure (ret, current.setChild i child)
    | none =>
      match ← newChild labels current label with
      | none => pure (.failure, current)
      | some current =>
        let i := current.children.length - 1
        let (ret, child) ← addLabels labels rest (current.child i)
        pure (ret, current.setChild i child)

def filterAddDomain (root : FilterNode) (domain : CStr) : Mem (Ret × FilterNode) :=
  match normalizeDomain domain (dnsMaxNameLen + 1) with
  | none => pure (.failure, root)
  | some normalized => do
    match ← splitDomainLabels normalized with
    | none => pure (.failure, root)
    | some labels => addLabels labels labels.val root

/-! ## Looking a name up -/

/-- The loop of `is_domain_blocked` from `current` on. -/
def walkLabels (labels : Labels) : List (Option (Ptr CStr)) → FilterNode → Mem Bool
  | [], _ => pure false
  | label :: rest, current => do
    use labels.block
    match ← findChild current label with
    | none => pure false
    | some i =>
      use (current.child i).block
      if (current.child i).isBlocked then pure true
      else walkLabels labels rest (current.child i)

def isDomainBlocked (root : FilterNode) (domain : CStr) : Mem Bool :=
  match normalizeDomain domain (dnsMaxNameLen + 1) with
  | none => pure false
  | some normalized => do
    match ← splitDomainLabels normalized with
    | none => pure false
    | some labels =>
      let isBlocked ← walkLabels labels labels.val root
      cleanupLabels labels
      pure isBlocked

/-! ## The filter file -/

/-- The counters of `load_filter_file`. -/
structure LoadCounts where
  lineNum : Nat
  domainsLoaded : Nat
  linesIgnored : Nat
  deriving DecidableEq

/-- The line starts with `'#'` behind its whitespace. -/
def isComment (line : Bytes) : Bool :=
  let line := (CStr.ofBuffer line).bytes.rdropWhile fun c => c == newline || c == carriageReturn
  (line.dropWhile isspace).head? == some hash

theorem fgets_length {size : Nat} {file line rest : Bytes} (hsize : 1 < size)
    (h : fgets size file = some (line, rest)) : rest.length < file.length := by
  unfold fgets at h
  split at h <;> [cases h; skip]
  next hfile =>
    have hlt := Lines.length_readLine_lt newline (n := size - 1) (by omega) hfile
    rw [Option.some.inj h] at hlt
    exact hlt

/-- `while (fgets(line, sizeof(line), file) != NULL)`. -/
def loadLines (stream : Nat) (file : Bytes) (root : FilterNode) (counts : LoadCounts) :
    Mem (FilterNode × LoadCounts) := do
  use (.file, stream)
  match _h : fgets lineSize file with
  | none => pure (root, counts)
  | some (line, rest) =>
    let counts := { counts with lineNum := counts.lineNum + 1 }
    match lineDomain line with
    | none =>
      if isComment line then
        loadLines stream rest root { counts with linesIgnored := counts.linesIgnored + 1 }
      else loadLines stream rest root counts
    | some domain =>
      let (ret, root) ← filterAddDomain root domain
      if ret = .success then
        loadLines stream rest root { counts with domainsLoaded := counts.domainsLoaded + 1 }
      else loadLines stream rest root { counts with linesIgnored := counts.linesIgnored + 1 }
termination_by file.length
decreasing_by all_goals exact fgets_length (by decide) _h

/-- The root of the trie and the counters, or `none` for `NULL`: for a file that cannot be opened
(`none`) and a root that cannot be allocated. -/
def loadFilterFile (file : Option Bytes) : Mem (Option (FilterNode × LoadCounts)) :=
  match file with
  | none => pure none
  | some file => do
    let stream ← acquire .file
    match ← filterNodeCreate with
    | none =>
      release (.file, stream)
      pure none
    | some root =>
      let loaded ← loadLines stream file root ⟨0, 0, 0⟩
      release (.file, stream)
      pure (some loaded)

/-! ## The wrapper -/

/-- `filter_t` at the address `addr`. -/
structure Filter where
  addr : Nat
  root : Option FilterNode

def filterInit : Mem (Option Filter) := do
  match ← mallocOf () with
  | none => pure none
  | some filter =>
    match ← filterNodeCreate with
    | none =>
      release filter.block
      pure none
    | some root => pure (some ⟨filter.addr, some root⟩)

def filterFree (filter : Filter) : Mem Unit := do
  use (.block, filter.addr)
  match filter.root with
  | none => pure ()
  | some root => filterNodeFree root
  release (.block, filter.addr)

def filterInsert (filter : Filter) (domain : CStr) : Mem (Ret × Filter) := do
  use (.block, filter.addr)
  match filter.root with
  | none => pure (.failure, filter)
  | some root =>
    let (ret, root) ← filterAddDomain root domain
    pure (ret, { filter with root := some root })

def filterLookup (filter : Filter) (domain : CStr) : Mem Bool := do
  use (.block, filter.addr)
  match filter.root with
  | none => pure false
  | some root => isDomainBlocked root domain

end FilteringResolver.Heap
