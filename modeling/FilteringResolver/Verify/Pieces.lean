import FilteringResolver.Lib.UpperSets
import FilteringResolver.Verify.FilterFile

/-!
# Lines cut in pieces

Where `fgets` cuts a line, the loader takes each piece for a line of its own. That does no harm in
two cases (`Unharmed`, `unharmed_iff`): neither the line nor a piece of it has an entry, or the
line has one and there is nothing but dots and whitespace behind the first piece that is not blank.
A file whose long lines are all unharmed is loaded line by line, and if its lines have nothing to do
with one another, only such a file is (`loadFilterFile_lines_iff`).
-/

namespace FilteringResolver

open Separated UpperSets

/-! ## Blank pieces -/

/-- A text with nothing on it. -/
def blank (text : Bytes) : Bool := text.all isspace

theorem blank_iff {text : Bytes} : blank text = true ↔ clean text = [] := by
  rw [blank, List.all_eq_true, clean_eq_nil]

theorem clean_flatten (pieces : List Bytes) : clean pieces.flatten = pieces.flatMap clean := by
  induction pieces with
  | nil => rfl
  | cons piece pieces ih => rw [List.flatten_cons, clean_append, ih, List.flatMap_cons]

theorem clean_flatMap_eq_nil {pieces : List Bytes} :
    pieces.flatMap clean = [] ↔ ∀ piece ∈ pieces, blank piece = true := by
  simp only [List.flatMap_eq_nil_iff, blank_iff]

theorem isspace_of_blank {pieces : List Bytes} (h : ∀ piece ∈ pieces, blank piece = true) :
    ∀ c ∈ pieces.flatten, isspace c = true := by
  rw [← clean_eq_nil, clean_flatten]
  exact clean_flatMap_eq_nil.2 h

/-- The pieces behind the first one that is not blank. -/
def laterPieces (pieces : List Bytes) : List Bytes := (pieces.dropWhile blank).tail

theorem laterPieces_append {pre post : List Bytes} {piece : Bytes}
    (hpre : ∀ p ∈ pre, blank p = true) (hpiece : blank piece = false) :
    laterPieces (pre ++ piece :: post) = post := by
  rw [laterPieces, List.dropWhile_append_of_pos hpre, List.dropWhile_cons_of_neg (by simp [hpiece])]
  rfl

/-- Blank pieces only, or blank pieces and a first one that is not. -/
theorem blank_or_split (pieces : List Bytes) :
    (∀ piece ∈ pieces, blank piece = true) ∨ ∃ pre piece post, pieces = pre ++ piece :: post ∧
      (∀ p ∈ pre, blank p = true) ∧ blank piece = false := by
  have hpre : ∀ p ∈ pieces.takeWhile blank, blank p = true := fun p => List.mem_takeWhile_imp
  have hsplit := (List.takeWhile_append_dropWhile (p := blank) (l := pieces)).symm
  cases hrest : pieces.dropWhile blank with
  | nil =>
    rw [hrest, List.append_nil] at hsplit
    rw [hsplit]
    exact Or.inl hpre
  | cons piece post =>
    rw [hrest] at hsplit
    have hpiece := List.head?_dropWhile_not blank pieces
    rw [hrest] at hpiece
    exact Or.inr ⟨_, piece, post, hsplit, hpre, by simpa using hpiece⟩

/-- Only dots are left of dots and whitespace. -/
theorem clean_dots {text : Bytes} (h : ∀ c ∈ text, isspace c = true ∨ c = dot) :
    ∀ c ∈ clean text, (c == dot) = true := by
  intro c hc
  obtain ⟨c, hmem, rfl⟩ := List.mem_map.1 hc
  obtain ⟨htext, hspace⟩ := List.mem_filter.1 hmem
  rcases h c htext with h | rfl
  · simp [h] at hspace
  · rfl

/-- Dots and whitespace make no entry. -/
theorem lineEntry_of_dots {text : Bytes} (h0 : 0 ∉ text)
    (h : ∀ c ∈ text, isspace c = true ∨ c = dot) : lineEntry text = none := by
  rw [Option.eq_none_iff_forall_ne_some]
  intro e he
  obtain ⟨-, -, m, hm, hpieces, -⟩ := (lineEntry_eq_some h0).1 he
  rw [hm, List.rdropWhile_eq_nil_iff.2 (clean_dots h)] at hpieces
  exact hpieces (by simp)

/-! ## What cutting does to the entry -/

/-- Cutting a text into these pieces does no harm. -/
def Unharmed (pieces : List Bytes) : Prop :=
  (lineEntry pieces.flatten = none ∧ ∀ piece ∈ pieces, lineEntry piece = none) ∨
    ((lineEntry pieces.flatten).isSome ∧
      ∀ piece ∈ laterPieces pieces, ∀ c ∈ piece, isspace c = true ∨ c = dot)

instance (pieces : List Bytes) : Decidable (Unharmed pieces) :=
  inferInstanceAs (Decidable (_ ∨ _))

/-- The entry of the text as a whole. -/
def wholeEntries (pieces : List Bytes) : List (List CStr) := (lineEntry pieces.flatten).toList

/-- The entries of its pieces. -/
def pieceEntries (pieces : List Bytes) : List (List CStr) := pieces.filterMap lineEntry

/-- A text in one piece is not cut. -/
theorem unharmed_singleton (text : Bytes) : Unharmed [text] := by
  have hflat : [text].flatten = text := List.flatten_singleton
  rw [Unharmed, hflat]
  cases hentry : lineEntry text with
  | none => exact Or.inl ⟨rfl, by simpa using hentry⟩
  | some e =>
    refine Or.inr ⟨rfl, fun piece hpiece => ?_⟩
    unfold laterPieces at hpiece
    cases hblank : blank text <;> simp [hblank] at hpiece

section

variable {pieces : List Bytes} (h0 : 0 ∉ pieces.flatten)
include h0

/-- When the whole has the entry of one of the pieces, the later pieces add dots at most. -/
theorem laterPieces_of_entry {piece : Bytes} {e : List CStr} (hpiece : piece ∈ pieces)
    (hentry : lineEntry piece = some e) (hwhole : lineEntry pieces.flatten = some e) :
    ∀ p ∈ laterPieces pieces, ∀ c ∈ p, isspace c = true ∨ c = dot := by
  have h0' : 0 ∉ piece := fun h => h0 (List.mem_flatten.2 ⟨piece, hpiece, h⟩)
  obtain ⟨-, -, m, hm, hlabels, -, rfl⟩ := (lineEntry_eq_some h0').1 hentry
  obtain ⟨-, -, m', hm', -, -, hsame⟩ := (lineEntry_eq_some h0).1 hwhole
  obtain rfl := labels_injective hsame
  obtain ⟨pre, post, rfl⟩ := List.append_of_mem hpiece
  have hkept : (clean piece).rdropWhile (· == dot) ≠ [] := by
    intro h
    rw [← hm] at h
    exact hlabels (by simp [h])
  rw [clean_flatten, List.flatMap_append, List.flatMap_cons, ← List.append_assoc, hm] at hm'
  obtain ⟨hpre, hpost⟩ := extension_of_rdropWhile_eq hkept hm'.symm
  have hblank : blank piece = false := by
    rw [← Bool.not_eq_true, blank_iff]
    intro h
    exact hkept (by rw [h]; rfl)
  rw [laterPieces_append (clean_flatMap_eq_nil.1 hpre) hblank]
  intro p hp c hc
  by_cases hspace : isspace c = true
  · exact Or.inl hspace
  · right
    have hmem : tolower c ∈ post.flatMap clean := by
      refine List.mem_flatMap.2 ⟨p, hp, List.mem_map_of_mem (List.mem_filter.2 ⟨hc, ?_⟩)⟩
      simpa using hspace
    exact tolower_eq_dot.1 (beq_iff_eq.1 (hpost _ hmem))

/-- The entry of the whole is the entry of its first piece that is not blank, when the later pieces
add dots at most. -/
theorem lineEntry_firstPiece {pre post : List Bytes} {piece : Bytes} {e : List CStr}
    (hpieces : pieces = pre ++ piece :: post) (hpre : ∀ p ∈ pre, blank p = true)
    (hpiece : blank piece = false) (hlater : ∀ p ∈ post, ∀ c ∈ p, isspace c = true ∨ c = dot)
    (hwhole : lineEntry pieces.flatten = some e) : lineEntry piece = some e := by
  obtain ⟨hhead, hfits, m, hm, hlabels, hshort, rfl⟩ := (lineEntry_eq_some h0).1 hwhole
  have h0' : 0 ∉ piece := fun h => h0 (List.mem_flatten.2 ⟨piece, by simp [hpieces], h⟩)
  have hflat : pieces.flatten = pre.flatten ++ (piece ++ post.flatten) := by simp [hpieces]
  -- nothing but whitespace stands in front of the piece, and only dots behind it
  have hspaces := isspace_of_blank hpre
  have hdots : ∀ c ∈ post.flatMap clean, (c == dot) = true := by
    intro c hc
    obtain ⟨p, hp, hc⟩ := List.mem_flatMap.1 hc
    exact clean_dots (hlater p hp) c hc
  have hne : piece.dropWhile isspace ≠ [] := by
    rw [Ne, dropWhile_isspace_eq_nil, ← blank_iff, hpiece]
    decide
  have hkeeps : piece.rdropWhile isEol ≠ [] := by
    intro h
    refine hne (List.dropWhile_eq_nil_iff.2 fun c hc => ?_)
    exact isspace_of_isEol (List.rdropWhile_eq_nil_iff.1 h c hc)
  refine (lineEntry_eq_some h0').2 ⟨?_, ?_, m, ?_, hlabels, hshort, rfl⟩
  · rwa [hflat, List.dropWhile_append_of_pos hspaces, List.dropWhile_append,
      if_neg (mt List.isEmpty_iff.1 hne), List.head?_append_of_ne_nil _ hne] at hhead
  · -- the whole keeps what the piece keeps without its ends of line
    have hstart : ∃ rest, pieces.flatten.rdropWhile isEol =
        pre.flatten ++ piece.rdropWhile isEol ++ rest := by
      rw [hflat, ← List.append_assoc, rdropWhile_append]
      split
      · exact ⟨[], by rw [rdropWhile_append, if_neg hkeeps, List.append_nil]⟩
      · refine ⟨piece.rtakeWhile isEol ++ post.flatten.rdropWhile isEol, ?_⟩
        rw [List.append_assoc, List.append_assoc, ← List.append_assoc (piece.rdropWhile isEol),
          List.rdropWhile_append_rtakeWhile]
    obtain ⟨rest, hrest⟩ := hstart
    rw [hrest] at hfits
    have hfits := hfits.of_append
    unfold Fits at hfits ⊢
    rwa [List.dropWhile_append_of_pos hspaces] at hfits
  · rwa [clean_flatten, hpieces, List.flatMap_append, List.flatMap_cons,
      clean_flatMap_eq_nil.2 hpre, List.nil_append, rdropWhile_append_of_all _ hdots] at hm

/-- When the whole has an entry and the later pieces add dots at most, it is the only entry of a
piece. -/
theorem pieceEntries_of_laterPieces {e : List CStr} (hwhole : lineEntry pieces.flatten = some e)
    (hlater : ∀ p ∈ laterPieces pieces, ∀ c ∈ p, isspace c = true ∨ c = dot) :
    pieceEntries pieces = [e] := by
  rcases blank_or_split pieces with hblank | ⟨pre, piece, post, hpieces, hpre, hpiece⟩
  · -- no piece has anything on it, and neither has the whole
    obtain ⟨-, -, m, hm, hlabels, -⟩ := (lineEntry_eq_some h0).1 hwhole
    rw [clean_flatten, clean_flatMap_eq_nil.2 hblank] at hm
    exact absurd (by simp [hm]) hlabels
  · rw [hpieces, laterPieces_append hpre hpiece] at hlater
    have hentry := lineEntry_firstPiece h0 hpieces hpre hpiece hlater hwhole
    have hnone : ∀ p ∈ pieces, (∀ c ∈ p, isspace c = true ∨ c = dot) → lineEntry p = none :=
      fun p hp => lineEntry_of_dots fun h => h0 (List.mem_flatten.2 ⟨p, hp, h⟩)
    have hnonePre : ∀ p ∈ pre, lineEntry p = none := fun p hp =>
      hnone p (hpieces ▸ List.mem_append_left _ hp)
        fun c hc => Or.inl (List.all_eq_true.1 (hpre p hp) c hc)
    have hnonePost : ∀ p ∈ post, lineEntry p = none := fun p hp =>
      hnone p (hpieces ▸ List.mem_append_right _ (List.mem_cons_of_mem _ hp)) (hlater p hp)
    rw [pieceEntries, hpieces, List.filterMap_append, List.filterMap_cons, hentry,
      List.filterMap_eq_nil_iff.2 hnonePre, List.filterMap_eq_nil_iff.2 hnonePost]
    rfl

/-- **Cutting a text** leaves the names it blocks as they are exactly when it does no harm. -/
theorem unharmed_iff :
    Same (· <:+ ·) (wholeEntries pieces) (pieceEntries pieces) ↔ Unharmed pieces := by
  unfold wholeEntries Unharmed
  cases hwhole : lineEntry pieces.flatten with
  | none =>
    constructor
    · rintro ⟨-, hpieces⟩
      refine Or.inl ⟨rfl, fun piece hpiece => ?_⟩
      rw [Option.eq_none_iff_forall_ne_some]
      intro e he
      obtain ⟨e', hmem, -⟩ := hpieces e (List.mem_filterMap.2 ⟨piece, hpiece, he⟩)
      cases hmem
    · rintro (⟨-, hnone⟩ | ⟨h, -⟩)
      · rw [pieceEntries, List.filterMap_eq_nil_iff.2 hnone]
        exact Same.refl []
      · cases h
  | some e =>
    constructor
    · rintro ⟨hcovered, hcovers⟩
      obtain ⟨e', he', hsuffix⟩ := hcovered e List.mem_cons_self
      obtain ⟨piece, hpiece, hentry⟩ := List.mem_filterMap.1 he'
      obtain ⟨e'', he'', hsuffix'⟩ := hcovers e' he'
      obtain rfl := List.mem_singleton.1 he''
      obtain rfl : e' = e'' := hsuffix.eq_of_length (Nat.le_antisymm hsuffix.length_le
        hsuffix'.length_le)
      exact Or.inr ⟨rfl, laterPieces_of_entry h0 hpiece hentry hwhole⟩
    · rintro (⟨h, -⟩ | ⟨-, hlater⟩)
      · cases h
      · rw [pieceEntries_of_laterPieces h0 hwhole hlater]
        exact Same.refl [e]

end

/-! ## Texts that are cut -/

theorem flatMap_wholeEntries (groups : List (List Bytes)) :
    groups.flatMap wholeEntries = (groups.map List.flatten).filterMap lineEntry := by
  rw [List.filterMap_eq_flatMap_toList, List.flatMap_map]
  rfl

theorem flatMap_pieceEntries (groups : List (List Bytes)) :
    groups.flatMap pieceEntries = groups.flatten.filterMap lineEntry := by
  rw [List.filterMap_flatten]
  exact List.flatMap_def

section

variable {groups : List (List Bytes)} (h0 : ∀ pieces ∈ groups, 0 ∉ pieces.flatten)
include h0

/-- Texts that are cut without harm block the names of their pieces. -/
theorem same_of_unharmed (h : ∀ pieces ∈ groups, Unharmed pieces) :
    Same (· <:+ ·) (groups.flatMap wholeEntries) (groups.flatMap pieceEntries) :=
  Same.flatMap fun pieces hpieces => (unharmed_iff (h0 pieces hpieces)).2 (h pieces hpieces)

/-- No entry of one text, or of a piece of it, ends with an entry of another: then no text makes
up for what is done to another. -/
theorem same_iff_unharmed (h : Independent (· <:+ ·) groups wholeEntries pieceEntries) :
    Same (· <:+ ·) (groups.flatMap wholeEntries) (groups.flatMap pieceEntries) ↔
      ∀ pieces ∈ groups, Unharmed pieces := by
  rw [same_flatMap_iff h]
  exact forall₂_congr fun pieces hpieces => unharmed_iff (h0 pieces hpieces)

end

/-! ## Long lines -/

/-- The pieces in which the loader reads the lines of a file. -/
def cutLines (file : Bytes) : List (List Bytes) :=
  (Lines.lines newline file).map (Lines.chunks (lineSize - 1))

theorem flatten_cutLines (file : Bytes) : (cutLines file).map List.flatten =
    Lines.lines newline file := by
  have hsize : 0 < lineSize - 1 := by decide
  rw [cutLines, List.map_map]
  exact List.map_id'' (fun line => Lines.flatten_chunks hsize line) _

theorem fileReads_eq_flatten (file : Bytes) : fileReads file = (cutLines file).flatten := rfl

theorem flatten_fileReads (file : Bytes) : (fileReads file).flatten = file := by
  rw [fileReads_eq_flatten, List.flatten_flatten, flatten_cutLines, Lines.flatten_lines]

/-- The lines with their ends have the entries of the physical lines. -/
theorem filterMap_lines {file : Bytes} (h0 : 0 ∉ file)
    (hends : ∀ line ∈ physicalLines file, line.getLast? ≠ some carriageReturn) :
    (Lines.lines newline file).filterMap lineEntry =
      (physicalLines file).filterMap wholeEntry := by
  rw [physicalLines, List.filterMap_map]
  refine List.filterMap_congr fun line hline => ?_
  obtain ⟨-, hsub, hnewline, eol, heq, heol⟩ := mem_physicalLines hline
  have h0' : 0 ∉ line.rdropWhile (· == newline) := fun h =>
    h0 (hsub ((List.rdropWhile_prefix _ _).subset h))
  have hentry := lineEntry_append h0' hnewline (hends _ (List.mem_map_of_mem hline)) heol
  rwa [← heq] at hentry

/-- Only a line that does not fit the buffer is cut. -/
theorem unharmed_cutLines_iff (file : Bytes) : (∀ pieces ∈ cutLines file, Unharmed pieces) ↔
    ∀ line ∈ Lines.lines newline file, lineSize ≤ line.length →
      Unharmed (Lines.chunks (lineSize - 1) line) := by
  constructor
  · intro h line hline _
    exact h _ (List.mem_map_of_mem hline)
  · intro h pieces hpieces
    obtain ⟨line, hline, rfl⟩ := List.mem_map.1 hpieces
    rcases Nat.lt_or_ge line.length lineSize with hlt | hge
    · rw [Lines.chunks_of_length_le (Lines.mem_lines hline).1 (Nat.le_sub_one_of_lt hlt)]
      exact unharmed_singleton line
    · exact h line hline hge

/-- **Lines and reads**: for a file without NULs whose lines end in LF only, the loader builds a
filter of the same names as adding every line in turn if the lines that do not fit the buffer are
cut without harm, and in no other case if no two lines have to do with one another. -/
theorem loadFilterFile_lines_iff (file : Bytes) (h0 : 0 ∉ file)
    (hends : ∀ line ∈ physicalLines file, line.getLast? ≠ some carriageReturn) :
    ∃ root, loadFilterFile (some file) .ok = (some root, .ok) ∧
      ((∀ line ∈ Lines.lines newline file, lineSize ≤ line.length →
          Unharmed (Lines.chunks (lineSize - 1) line)) →
        SameNames root (filterOf ((physicalLines file).filterMap wholeLine))) ∧
      (Independent (· <:+ ·) (cutLines file) wholeEntries pieceEntries →
        (SameNames root (filterOf ((physicalLines file).filterMap wholeLine)) ↔
          ∀ line ∈ Lines.lines newline file, lineSize ≤ line.length →
            Unharmed (Lines.chunks (lineSize - 1) line))) := by
  refine ⟨_, loadFilterFile_eq file, ?_⟩
  have h0' : ∀ pieces ∈ cutLines file, 0 ∉ pieces.flatten := by
    intro pieces hpieces h
    have hline := List.mem_map_of_mem (f := List.flatten) hpieces
    rw [flatten_cutLines] at hline
    exact h0 ((Lines.mem_lines hline).2.1 h)
  have hsame : SameNames (filterOf ((fileReads file).filterMap lineDomain))
      (filterOf ((physicalLines file).filterMap wholeLine)) ↔
        Same (· <:+ ·) ((cutLines file).flatMap wholeEntries)
          ((cutLines file).flatMap pieceEntries) := by
    rw [sameNames_filterOf, filterMap_lineEntry, filterMap_wholeEntry, ← filterMap_lines h0 hends,
      flatMap_wholeEntries, flatten_cutLines, flatMap_pieceEntries, fileReads_eq_flatten]
    exact And.comm
  rw [hsame, ← unharmed_cutLines_iff]
  exact ⟨same_of_unharmed h0', same_iff_unharmed h0'⟩

/-- A line that fills the buffer, a comment that does not fit it and whose tail is too long for a
label, and a line of one name. -/
theorem loadFilterFile_lines_long_comment :
    let file : Bytes := 97 :: List.replicate 507 32 ++ [10] ++
      (hash :: List.replicate 600 120 ++ [10]) ++ [98, 46, 99, 10]
    (Lines.lines newline file).map List.length = [509, 602, 4] ∧
      ∃ root, loadFilterFile (some file) .ok = (some root, .ok) ∧
        SameNames root (filterOf ((physicalLines file).filterMap wholeLine)) := by
  intro file
  have h0 : 0 ∉ file := by decide +kernel
  have hends : ∀ line ∈ physicalLines file, line.getLast? ≠ some carriageReturn := by
    decide +kernel
  have hlong : ∀ line ∈ Lines.lines newline file, lineSize ≤ line.length →
      Unharmed (Lines.chunks (lineSize - 1) line) := by decide +kernel
  obtain ⟨root, hload, henough, -⟩ := loadFilterFile_lines_iff file h0 hends
  exact ⟨by decide +kernel, root, hload, henough hlong⟩

/-- A comment of 509 characters in front of `a` fills the buffer, and `a` is added. -/
theorem loadFilterFile_comment_tail :
    let file := hash :: List.replicate 508 120 ++ [97, 10]
    physicalLines file = [hash :: List.replicate 508 120 ++ [97]] ∧
      (physicalLines file).filterMap wholeLine = [] ∧
      ∃ root, loadFilterFile (some file) .ok = (some root, .ok) ∧
        (isDomainBlocked root (.ofBuffer [97]) .ok).1 = true := by
  intro file
  refine ⟨by decide +kernel, by decide +kernel, _, loadFilterFile_eq file, ?_⟩
  rw [show (fileReads file).filterMap lineDomain = [.ofBuffer [97]] by decide +kernel]
  decide

end FilteringResolver
