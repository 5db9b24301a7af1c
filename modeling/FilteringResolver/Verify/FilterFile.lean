import FilteringResolver.Verify.Verdicts

/-!
# The filter file

`load_filter_file` adds the domain of every read of the file (`loadFilterFile_eq`); `lineEntry` is
what a read leaves in the filter. A line with its end has the entry of the line without
(`lineEntry_append`), so a line that fits the buffer is loaded as the line it is.
-/

namespace FilteringResolver

open Loops Separated

/-! ## The reads of a file -/

/-- What the successive calls of `fgets` store. -/
def fileReads (file : Bytes) : List Bytes := Lines.reads newline (lineSize - 1) file

theorem loadLoop_run (file : Bytes) (root : FilterNode) :
    loadLoop.run ⟨file, root, .ok⟩ =
      ((addDomains root (((fileReads file).filterMap lineDomain).map fun d => (d, .ok))).1,
        .ok) := by
  induction hn : file.length using Nat.strongRecOn generalizing file root with
  | _ n ih =>
    have hsize : 0 < lineSize - 1 := by decide
    by_cases hfile : file = []
    · subst hfile
      exact Loop.run_exit _ rfl
    · have hlt := Lines.length_readLine_lt newline hsize hfile
      rw [hn] at hlt
      rw [fileReads, Lines.reads_eq hsize hfile, List.filterMap_cons, ← fileReads]
      cases hd : lineDomain (Lines.readLine newline (lineSize - 1) file).1 with
      | none =>
        have hstep : loadLoop.step ⟨file, root, .ok⟩ =
            .inl ⟨(Lines.readLine newline (lineSize - 1) file).2, root, .ok⟩ := by
          simp only [loadLoop, loadStep, fgets, if_neg hfile, hd]
        rw [Loop.run_next _ hstep, ih _ hlt _ _ rfl]
      | some domain =>
        have hok := (filterAddDomain_ok root domain).1
        rcases hadd : filterAddDomain root domain .ok with ⟨ret, root', a'⟩
        rw [hadd] at hok
        obtain rfl : a' = .ok := hok
        have hstep : loadLoop.step ⟨file, root, .ok⟩ =
            .inl ⟨(Lines.readLine newline (lineSize - 1) file).2, root', .ok⟩ := by
          simp only [loadLoop, loadStep, fgets, if_neg hfile, hd, hadd]
        rw [Loop.run_next _ hstep, ih _ hlt _ _ rfl]
        simp only [List.map_cons, addDomains, hadd]

/-- **The loader** builds the filter of the domains of its reads. -/
theorem loadFilterFile_eq (file : Bytes) :
    loadFilterFile (some file) .ok =
      (some (filterOf ((fileReads file).filterMap lineDomain)), .ok) := by
  have hrun := loadLoop_run file .empty
  simp only [loadFilterFile, filterNodeCreate, malloc_ok, hrun]
  rfl

/-! ## The entry of a read -/

/-- The labels a read adds to the filter. -/
def lineEntry (line : Bytes) : Option (List CStr) := (lineDomain line).bind entryOf

theorem filterMap_lineEntry (reads : List Bytes) :
    (reads.filterMap lineDomain).filterMap entryOf = reads.filterMap lineEntry := by
  rw [List.filterMap_filterMap]
  rfl

/-- `line[len - 1] == '\n' || line[len - 1] == '\r'`. -/
def isEol (c : UInt8) : Bool := c == newline || c == carriageReturn

theorem isspace_of_isEol {c : UInt8} (h : isEol c = true) : isspace c = true := by
  rw [isEol, Bool.or_eq_true, beq_iff_eq, beq_iff_eq] at h
  rcases h with rfl | rfl <;> rfl

/-- The whitespace behind a text does not show in its first other character. -/
theorem head?_dropWhile_append {s t : Bytes} (h : ∀ c ∈ t, isspace c = true) :
    ((s ++ t).dropWhile isspace).head? = (s.dropWhile isspace).head? := by
  rw [List.dropWhile_append]
  split
  · next hs => rw [List.isEmpty_iff.1 hs, List.dropWhile_eq_nil_iff.2 h]
  · next hs =>
    obtain ⟨c, rest, hcons⟩ := List.exists_cons_of_ne_nil (mt List.isEmpty_iff.2 hs)
    rw [hcons]
    rfl

/-- A read is its text and the ends of line behind it, which are whitespace. -/
theorem exists_eol (line : Bytes) :
    ∃ eol, line = line.rdropWhile isEol ++ eol ∧ ∀ c ∈ eol, isspace c = true := by
  refine ⟨line.rtakeWhile isEol, List.rdropWhile_append_rtakeWhile.symm, fun c hc => ?_⟩
  exact isspace_of_isEol (List.mem_rtakeWhile_imp hc)

theorem lineDomain_of_nul_free {line : Bytes} (h0 : 0 ∉ line) :
    lineDomain line =
      let domain := (line.rdropWhile isEol).dropWhile isspace
      if domain = [] then none
      else if domain.head? = some hash then none
      else some (.ofBuffer domain) := by
  have hline :
      (CStr.ofBuffer line).bytes.rdropWhile (fun c => c == newline || c == carriageReturn) =
        line.rdropWhile isEol := by
    rw [CStr.ofBuffer_of_nul_free h0]
    rfl
  rw [lineDomain, hline]
  dsimp only
  by_cases hempty : line.rdropWhile isEol = []
  · rw [if_pos hempty, hempty]
    rfl
  · rw [if_neg hempty]

/-- The entry of the domain on a text that is neither blank nor a comment. -/
theorem bind_entryOf_eq_some {text : Bytes} {domain : CStr}
    (hfits : Fits domain.bytes ↔ Fits text) (hclean : clean domain.bytes = clean text)
    {e : List CStr} :
    (if text.dropWhile isspace = [] then none
      else if (text.dropWhile isspace).head? = some hash then none
      else some domain).bind entryOf = some e ↔
    (text.dropWhile isspace).head? ≠ some hash ∧ Fits text ∧ ∃ m : CStr,
      m.bytes = (clean text).rdropWhile (· == dot) ∧ NoEmptyPiece dot m.bytes ∧
        ShortLabels m ∧ e = labels m := by
  by_cases hblank : text.dropWhile isspace = []
  · rw [if_pos hblank, dropWhile_isspace_eq_nil.1 hblank]
    refine iff_of_false (by simp) ?_
    rintro ⟨-, -, m, hm, hpieces, -⟩
    rw [hm] at hpieces
    exact hpieces (by simp)
  · rw [if_neg hblank]
    by_cases hcomment : (text.dropWhile isspace).head? = some hash
    · simp [hcomment]
    · rw [if_neg hcomment, Option.bind_some, entryOf_eq_some]
      simp only [normalName_iff, hfits, hclean]
      constructor
      · rintro ⟨m, ⟨hfits, hm, hpieces⟩, hshort, rfl⟩
        exact ⟨hcomment, hfits, m, hm, hpieces, hshort, rfl⟩
      · rintro ⟨-, hfits, m, hm, hpieces, hshort, rfl⟩
        exact ⟨m, ⟨hfits, hm, hpieces⟩, hshort, rfl⟩

/-- **The entry of a read**: the labels of what is left of it when its ends of line, its
whitespace and its trailing dots are dropped, unless it is a comment. -/
theorem lineEntry_eq_some {line : Bytes} (h0 : 0 ∉ line) {e : List CStr} :
    lineEntry line = some e ↔ (line.dropWhile isspace).head? ≠ some hash ∧
      Fits (line.rdropWhile isEol) ∧ ∃ m : CStr,
        m.bytes = (clean line).rdropWhile (· == dot) ∧ NoEmptyPiece dot m.bytes ∧
          ShortLabels m ∧ e = labels m := by
  obtain ⟨eol, hline, heol⟩ := exists_eol line
  have hhead : ((line.rdropWhile isEol).dropWhile isspace).head? =
      (line.dropWhile isspace).head? := by
    conv => rhs; rw [hline, head?_dropWhile_append heol]
  have hclean : clean (line.rdropWhile isEol) = clean line := by
    conv => rhs; rw [hline, clean_append, clean_eq_nil.2 heol, List.append_nil]
  have h0' : 0 ∉ (line.rdropWhile isEol).dropWhile isspace := fun h =>
    h0 ((List.rdropWhile_prefix _ _).subset ((List.dropWhile_suffix _).subset h))
  have hbytes := CStr.ofBuffer_of_nul_free h0'
  rw [lineEntry, lineDomain_of_nul_free h0, ← hhead, ← hclean]
  apply bind_entryOf_eq_some
  · rw [hbytes, fits_dropWhile]
  · rw [hbytes, clean_dropWhile]

/-! ## Physical lines -/

/-- The lines of a file, without their ends. -/
def physicalLines (file : Bytes) : List Bytes :=
  (Lines.lines newline file).map fun line => line.rdropWhile (· == newline)

/-- The domain on a physical line: the whole line, unless it is blank or a comment. -/
def wholeLine (line : Bytes) : Option CStr :=
  let text := line.dropWhile isspace
  if text = [] then none
  else if text.head? = some hash then none
  else some (.ofBuffer line)

/-- The labels a physical line stands for. -/
def wholeEntry (line : Bytes) : Option (List CStr) := (wholeLine line).bind entryOf

theorem filterMap_wholeEntry (texts : List Bytes) :
    (texts.filterMap wholeLine).filterMap entryOf = texts.filterMap wholeEntry := by
  rw [List.filterMap_filterMap]
  rfl

theorem wholeEntry_eq_some {line : Bytes} (h0 : 0 ∉ line) {e : List CStr} :
    wholeEntry line = some e ↔ (line.dropWhile isspace).head? ≠ some hash ∧
      Fits line ∧ ∃ m : CStr, m.bytes = (clean line).rdropWhile (· == dot) ∧
        NoEmptyPiece dot m.bytes ∧ ShortLabels m ∧ e = labels m := by
  have hbytes := CStr.ofBuffer_of_nul_free h0
  exact bind_entryOf_eq_some (by rw [hbytes]) (by rw [hbytes])

/-- A text that does not end in an end of line keeps all of itself. -/
theorem rdropWhile_isEol_eq_self {text : Bytes} (hnewline : newline ∉ text)
    (hlast : text.getLast? ≠ some carriageReturn) : text.rdropWhile isEol = text := by
  rw [List.rdropWhile_eq_self_iff]
  intro hne h
  rw [isEol, Bool.or_eq_true, beq_iff_eq, beq_iff_eq] at h
  rcases h with h | h
  · exact hnewline (h ▸ List.getLast_mem hne)
  · exact hlast (by rw [List.getLast?_eq_some_getLast hne, h])

/-- A line with nothing but ends of line behind its text has the entry of the text. -/
theorem lineEntry_append {text eol : Bytes} (h0 : 0 ∉ text) (hnewline : newline ∉ text)
    (hlast : text.getLast? ≠ some carriageReturn) (heol : ∀ c ∈ eol, isEol c = true) :
    lineEntry (text ++ eol) = wholeEntry text := by
  have hspace : ∀ c ∈ eol, isspace c = true := fun c hc => isspace_of_isEol (heol c hc)
  have h0' : 0 ∉ text ++ eol := by
    intro h
    rcases List.mem_append.1 h with h | h
    · exact h0 h
    · exact absurd (heol 0 h) (by decide)
  apply Option.ext
  intro e
  rw [lineEntry_eq_some h0', wholeEntry_eq_some h0, head?_dropWhile_append hspace,
    rdropWhile_append_of_all text heol, rdropWhile_isEol_eq_self hnewline hlast, clean_append,
    clean_eq_nil.2 hspace, List.append_nil]

/-- What a physical line looks like, with its end and without. -/
theorem mem_physicalLines {file line : Bytes} (h : line ∈ Lines.lines newline file) :
    line ≠ [] ∧ line ⊆ file ∧ newline ∉ line.rdropWhile (· == newline) ∧
      ∃ eol, line = line.rdropWhile (· == newline) ++ eol ∧ ∀ c ∈ eol, isEol c = true := by
  obtain ⟨hne, hsub, text, htext, hline⟩ := Lines.mem_lines h
  have hself : text.rdropWhile (· == newline) = text := by
    rw [List.rdropWhile_eq_self_iff]
    intro hne' hc
    exact htext (beq_iff_eq.1 hc ▸ List.getLast_mem hne')
  rcases hline with rfl | rfl
  · exact ⟨hne, hsub, by rwa [hself], [], by rw [hself, List.append_nil], by simp⟩
  · have hdrop : (text ++ [newline]).rdropWhile (· == newline) = text := by
      rw [rdropWhile_append_of_all text (t := [newline]) (by simp), hself]
    exact ⟨hne, hsub, by rwa [hdrop], [newline], by rw [hdrop], by simp [isEol]⟩

end FilteringResolver
