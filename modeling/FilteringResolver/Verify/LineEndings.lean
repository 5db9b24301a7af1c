import FilteringResolver.Verify.Pieces

/-!
# Ends of line

Lines that fit the buffer have the same entries with LF and with CRLF behind them. With CR the
loader sees no lines at all but one text, which it cuts where the buffer is full. Lines and reads
are then cut into the same pieces (`pieceEntries_crParts`), and the filter is the same when neither
are harmed by it (`loadFilterFile_endings_iff`), which for a file that fits the buffer leaves next
to nothing but files of one line.
-/

namespace FilteringResolver

open Separated UpperSets

/-- Lines written to a file, each with the given end of line. -/
def written (eol : Bytes) (lines : List Bytes) : Bytes := lines.flatMap fun line => line ++ eol

/-- Octets of a text line: no end of line and no NUL. -/
def TextLine (line : Bytes) : Prop := newline ∉ line ∧ carriageReturn ∉ line ∧ 0 ∉ line

theorem TextLine.last {line : Bytes} (h : TextLine line) :
    line.getLast? ≠ some carriageReturn :=
  fun hlast => h.2.1 (List.mem_of_getLast? hlast)

/-! ## LF and CRLF -/

/-- Lines that fit the buffer with ends that close on LF are read with their own entries. -/
theorem entries_written {lines : List Bytes} (hplain : ∀ line ∈ lines, TextLine line)
    {ends : Bytes} (hends : ∀ c ∈ ends, c = carriageReturn)
    (hfit : ∀ line ∈ lines, line.length + ends.length + 1 < lineSize) :
    (fileReads (written (ends ++ [newline]) lines)).filterMap lineEntry =
      lines.filterMap wholeEntry := by
  have hno : ∀ l ∈ lines.map (· ++ ends), newline ∉ l := by
    intro l hl hmem
    obtain ⟨line, hline, rfl⟩ := List.mem_map.1 hl
    rcases List.mem_append.1 hmem with h | h
    · exact (hplain line hline).1 h
    · exact absurd (hends _ h) (by decide)
  have hshort : ∀ l ∈ lines.map (· ++ ends), l.length < lineSize - 1 := by
    intro l hl
    obtain ⟨line, hline, rfl⟩ := List.mem_map.1 hl
    have := hfit line hline
    rw [List.length_append]
    omega
  have hwritten : written (ends ++ [newline]) lines =
      (lines.map (· ++ ends)).flatMap fun l => l ++ [newline] := by
    simp [written, List.flatMap_map]
  rw [fileReads, hwritten, Lines.reads_flatMap hno hshort, List.map_map, List.filterMap_map]
  apply List.filterMap_congr
  intro line hline
  obtain ⟨hnewline, -, h0⟩ := hplain line hline
  have heol : ∀ c ∈ ends ++ [newline], isEol c = true := by
    intro c hc
    rcases List.mem_append.1 hc with hc | hc
    · rw [hends c hc]
      rfl
    · rw [List.mem_singleton.1 hc]
      rfl
  have hentry := lineEntry_append h0 hnewline (hplain line hline).last heol
  rw [← List.append_assoc] at hentry
  exact hentry

/-! ## CR -/

theorem mem_written {eol : Bytes} {lines : List Bytes} {c : UInt8} (h : c ∈ written eol lines) :
    c ∈ eol ∨ ∃ line ∈ lines, c ∈ line := by
  obtain ⟨line, hline, hc⟩ := List.mem_flatMap.1 h
  rcases List.mem_append.1 hc with hc | hc
  · exact Or.inr ⟨line, hline, hc⟩
  · exact Or.inl hc

/-- The lines with CR behind them, cut where the buffer is full. -/
def crParts (lines : List Bytes) : List (List Bytes) :=
  Lines.parts carriageReturn (lineSize - 1) (lineSize - 1) lines

/-- What the loader reads of the lines with CR behind them, cut behind the CRs. -/
def crReads (lines : List Bytes) : List (List Bytes) :=
  (fileReads (written [carriageReturn] lines)).map (Lines.lines carriageReturn)

theorem flatten_crReads (lines : List Bytes) :
    (crReads lines).map List.flatten = fileReads (written [carriageReturn] lines) := by
  rw [crReads, List.map_map]
  exact List.map_id'' (fun read => Lines.flatten_lines read) _

section

variable {lines : List Bytes} (hplain : ∀ line ∈ lines, TextLine line)
include hplain

theorem newline_notMem_written : newline ∉ written [carriageReturn] lines := by
  intro h
  rcases mem_written h with h | ⟨line, hline, h⟩
  · exact absurd h (by decide)
  · exact (hplain line hline).1 h

theorem nul_notMem_written : 0 ∉ written [carriageReturn] lines := by
  intro h
  rcases mem_written h with h | ⟨line, hline, h⟩
  · exact absurd h (by decide)
  · exact (hplain line hline).2.2 h

/-- A line with CR behind it has the entry of the line. -/
theorem filterMap_crLines : (lines.map fun line => line ++ [carriageReturn]).filterMap lineEntry =
    lines.filterMap wholeEntry := by
  rw [List.filterMap_map]
  refine List.filterMap_congr fun line hline => ?_
  obtain ⟨hnewline, -, h0⟩ := hplain line hline
  exact lineEntry_append h0 hnewline (hplain line hline).last (by simp [isEol])

theorem wholeEntries_crParts : (crParts lines).flatMap wholeEntries =
    lines.filterMap wholeEntry := by
  rw [flatMap_wholeEntries, crParts, Lines.map_flatten_parts, filterMap_crLines hplain]

theorem nul_notMem_crParts : ∀ pieces ∈ crParts lines, 0 ∉ pieces.flatten := by
  intro pieces hpieces h
  have hmem := List.mem_map_of_mem (f := List.flatten) hpieces
  rw [crParts, Lines.map_flatten_parts] at hmem
  obtain ⟨line, hline, hflat⟩ := List.mem_map.1 hmem
  rw [← hflat] at h
  exact nul_notMem_written hplain (List.mem_flatMap.2 ⟨line, hline, h⟩)

theorem nul_notMem_crReads : ∀ pieces ∈ crReads lines, 0 ∉ pieces.flatten := by
  intro pieces hpieces h
  have hmem := List.mem_map_of_mem (f := List.flatten) hpieces
  rw [flatten_crReads] at hmem
  have hsub := (List.sublist_flatten_of_mem hmem).subset h
  rw [flatten_fileReads] at hsub
  exact nul_notMem_written hplain hsub

/-- Lines and reads are cut into the same pieces. -/
theorem pieceEntries_crParts (hfit : ∀ line ∈ lines, line.length < lineSize - 1) :
    (crParts lines).flatMap pieceEntries = (crReads lines).flatMap pieceEntries := by
  have hparts := Lines.flatten_parts_reads (by decide) (fun line hline => (hplain line hline).2.1)
    (newline_notMem_written hplain) hfit
  rw [flatMap_pieceEntries, flatMap_pieceEntries, crParts, hparts, List.flatMap_def]
  rfl

end

/-- Where no line is cut, the lines are the pieces. -/
theorem entries_of_uncut {groups : List (List Bytes)} (h : ∀ pieces ∈ groups, pieces.length = 1) :
    groups.flatMap wholeEntries = groups.flatMap pieceEntries := by
  refine List.flatMap_congr fun pieces hpieces => ?_
  obtain ⟨piece, rfl⟩ := List.length_eq_one_iff.1 (h pieces hpieces)
  rw [wholeEntries, pieceEntries, List.flatten_singleton]
  cases h : lineEntry piece <;> simp [h]

/-- Lines that fit the buffer all together are one read. -/
theorem fileReads_joined {lines : List Bytes} (hplain : ∀ line ∈ lines, TextLine line)
    (hshort : (written [carriageReturn] lines).length < lineSize) :
    (fileReads (written [carriageReturn] lines)).filterMap lineEntry =
      wholeEntries (lines.map fun line => line ++ [carriageReturn]) := by
  rw [wholeEntries, ← List.flatMap_def]
  change _ = (lineEntry (written [carriageReturn] lines)).toList
  by_cases hne : written [carriageReturn] lines = []
  · rw [hne]
    rfl
  · rw [fileReads, Lines.reads_of_not_mem (newline_notMem_written hplain) hne
      (Nat.le_sub_one_of_lt hshort)]
    cases h : lineEntry (written [carriageReturn] lines) <;> simp [h]

/-! ## The three files -/

/-- **Ends of line**: lines that fit the buffer block the same names with LF and with CRLF behind
them. With CR they do if neither what the buffer does to the lines nor what the loader does by
running lines together does any harm; and in no other case if the buffer cuts no line and the reads
have nothing to do with one another, or if the lines are one read. -/
theorem loadFilterFile_endings_iff (lines : List Bytes) (hplain : ∀ line ∈ lines, TextLine line)
    (hfit : ∀ line ∈ lines, line.length + 2 < lineSize) :
    ∃ lf crlf cr,
      loadFilterFile (some (written [newline] lines)) .ok = (some lf, .ok) ∧
      loadFilterFile (some (written [carriageReturn, newline] lines)) .ok = (some crlf, .ok) ∧
      loadFilterFile (some (written [carriageReturn] lines)) .ok = (some cr, .ok) ∧
      SameNames lf crlf ∧
      ((∀ pieces ∈ crParts lines, Unharmed pieces) → (∀ pieces ∈ crReads lines, Unharmed pieces) →
        SameNames lf crlf ∧ SameNames lf cr) ∧
      ((∀ pieces ∈ crParts lines, pieces.length = 1) →
        Independent (· <:+ ·) (crReads lines) wholeEntries pieceEntries →
        (SameNames lf crlf ∧ SameNames lf cr ↔ ∀ pieces ∈ crReads lines, Unharmed pieces)) ∧
      ((written [carriageReturn] lines).length < lineSize →
        (SameNames lf crlf ∧ SameNames lf cr ↔
          Unharmed (lines.map fun line => line ++ [carriageReturn]))) := by
  have hlf := @entries_written lines hplain [] (by simp)
    fun line hline => Nat.lt_of_succ_lt (hfit line hline)
  have hcrlf := @entries_written lines hplain [carriageReturn] (by simp) hfit
  rw [List.nil_append] at hlf
  rw [List.singleton_append] at hcrlf
  have hsame : SameNames
      (filterOf ((fileReads (written [newline] lines)).filterMap lineDomain))
      (filterOf ((fileReads (written [carriageReturn, newline] lines)).filterMap lineDomain)) := by
    rw [sameNames_filterOf, filterMap_lineEntry, filterMap_lineEntry, hlf, hcrlf]
    exact Same.refl _
  have hcr : SameNames (filterOf ((fileReads (written [newline] lines)).filterMap lineDomain))
      (filterOf ((fileReads (written [carriageReturn] lines)).filterMap lineDomain)) ↔
        Same (· <:+ ·) ((crParts lines).flatMap wholeEntries)
          ((crReads lines).flatMap wholeEntries) := by
    rw [sameNames_filterOf, filterMap_lineEntry, filterMap_lineEntry, hlf,
      wholeEntries_crParts hplain, flatMap_wholeEntries (crReads lines), flatten_crReads]
    rfl
  have hpieces := pieceEntries_crParts hplain fun line hline => by
    have := hfit line hline
    omega
  refine ⟨_, _, _, loadFilterFile_eq _, loadFilterFile_eq _, loadFilterFile_eq _, hsame, ?_, ?_, ?_⟩
  · intro hparts hreads
    have hcut := same_of_unharmed (nul_notMem_crParts hplain) hparts
    have hjoined := same_of_unharmed (nul_notMem_crReads hplain) hreads
    exact ⟨hsame, hcr.2 (hcut.trans (hpieces ▸ hjoined.symm))⟩
  · intro huncut hindependent
    rw [and_iff_right hsame, hcr, entries_of_uncut huncut, hpieces,
      ← same_iff_unharmed (nul_notMem_crReads hplain) hindependent]
    exact ⟨Same.symm, Same.symm⟩
  · intro hshort
    have h0 : 0 ∉ (lines.map fun line => line ++ [carriageReturn]).flatten := by
      rw [← List.flatMap_def]
      exact nul_notMem_written hplain
    rw [and_iff_right hsame, hcr, wholeEntries_crParts hplain, flatMap_wholeEntries,
      flatten_crReads, fileReads_joined hplain hshort, ← filterMap_crLines hplain,
      ← unharmed_iff h0]
    exact ⟨Same.symm, Same.symm⟩

/-- Three lines of which the second, a blank one, ends with CR where the buffer is full: the third
one is read by itself. -/
theorem loadFilterFile_endings_boundary :
    let lines : List Bytes := [[97], List.replicate 506 32, [98]]
    (fileReads (written [carriageReturn] lines)).map List.length = [509, 2] ∧
      ∃ lf crlf cr, loadFilterFile (some (written [newline] lines)) .ok = (some lf, .ok) ∧
        loadFilterFile (some (written [carriageReturn, newline] lines)) .ok = (some crlf, .ok) ∧
        loadFilterFile (some (written [carriageReturn] lines)) .ok = (some cr, .ok) ∧
        SameNames lf crlf ∧ SameNames lf cr := by
  intro lines
  have hplain : ∀ line ∈ lines, TextLine line := by
    unfold TextLine
    decide +kernel
  have hfit : ∀ line ∈ lines, line.length + 2 < lineSize := by decide +kernel
  have hparts : ∀ pieces ∈ crParts lines, Unharmed pieces := by decide +kernel
  have hreads : ∀ pieces ∈ crReads lines, Unharmed pieces := by decide +kernel
  obtain ⟨lf, crlf, cr, hlf, hcrlf, hcr, -, henough, -⟩ :=
    loadFilterFile_endings_iff lines hplain hfit
  exact ⟨by decide +kernel, lf, crlf, cr, hlf, hcrlf, hcr, henough hparts hreads⟩

/-- The lines `a` and `b` are two names with LF and the one name `ab` with CR. -/
theorem loadFilterFile_cr :
    ∃ lf cr, loadFilterFile (some (written [newline] [[97], [98]])) .ok = (some lf, .ok) ∧
      loadFilterFile (some (written [carriageReturn] [[97], [98]])) .ok = (some cr, .ok) ∧
      (isDomainBlocked lf (.ofBuffer [97]) .ok).1 = true ∧
      (isDomainBlocked cr (.ofBuffer [97]) .ok).1 = false ∧
      (isDomainBlocked lf (.ofBuffer [97, 98]) .ok).1 = false ∧
      (isDomainBlocked cr (.ofBuffer [97, 98]) .ok).1 = true := by
  refine ⟨_, _, loadFilterFile_eq _, loadFilterFile_eq _, ?_⟩
  decide

end FilteringResolver
