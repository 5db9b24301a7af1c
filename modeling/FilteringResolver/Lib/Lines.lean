import Mathlib.Data.List.Basic

/-!
# Lines read through a bounded buffer

`lines` cuts a text behind each terminator. A reader with a buffer of `n` characters takes at
most `n` at a time and stops behind a terminator (`readLine`); what it takes until the text is
used up are the `reads`, the lines cut into chunks of `n` (`reads_eq`). Lines that fit the buffer
are the reads themselves (`reads_flatMap`); lines that end in something else than the reader looks
for are cut into `parts`.
-/

namespace Lines

variable {α : Type*}

/-! ## Chunks -/

/-- The pieces of length `n` of a text, the last one possibly shorter. -/
def chunks (n : Nat) (s : List α) : List (List α) :=
  (List.range ((s.length + n - 1) / n)).map fun i => (s.drop (i * n)).take n

theorem chunks_cons {n : Nat} (hn : 0 < n) {s : List α} (hs : s ≠ []) :
    chunks n s = s.take n :: chunks n (s.drop n) := by
  have hpos : 0 < s.length := List.length_pos_iff.2 hs
  have hcount : (s.length + n - 1) / n = (s.length - n + n - 1) / n + 1 := by
    by_cases h : n ≤ s.length
    · rw [show s.length + n - 1 = (s.length - n + n - 1) + n by omega, Nat.add_div_right _ hn]
    · rw [show s.length + n - 1 = (s.length - 1) + n by omega, Nat.add_div_right _ hn,
        Nat.div_eq_of_lt (by omega), Nat.div_eq_of_lt (by omega)]
  rw [chunks, chunks, hcount, List.range_succ_eq_map, List.map_cons, List.map_map, List.length_drop]
  congr 1
  · simp
  · apply List.map_congr_left
    intro i _
    rw [Function.comp_apply, Nat.succ_mul, Nat.add_comm, List.drop_drop]

@[simp] theorem chunks_nil {n : Nat} (hn : 0 < n) : chunks n ([] : List α) = [] := by
  rw [chunks, List.length_nil, Nat.div_eq_of_lt (by omega)]
  rfl

/-- A text that fits is one piece. -/
theorem chunks_of_length_le {n : Nat} {s : List α} (hs : s ≠ []) (hle : s.length ≤ n) :
    chunks n s = [s] := by
  have hn : 0 < n := Nat.lt_of_lt_of_le (List.length_pos_iff.2 hs) hle
  rw [chunks_cons hn hs, List.take_of_length_le hle, List.drop_of_length_le hle, chunks_nil hn]

/-- The pieces are all of the text. -/
theorem flatten_chunks {n : Nat} (hn : 0 < n) (s : List α) : (chunks n s).flatten = s := by
  induction hlen : s.length using Nat.strongRecOn generalizing s with
  | _ k ih =>
    by_cases hs : s = []
    · rw [hs, chunks_nil hn]
      rfl
    · have hlt : (s.drop n).length < k := by
        have := List.length_pos_iff.2 hs
        rw [List.length_drop]
        omega
      rw [chunks_cons hn hs, List.flatten_cons, ih _ hlt _ rfl, List.take_append_drop]

variable [DecidableEq α] (term : α)

/-! ## Lines -/

/-- The lines of a text, each with its terminator; what follows the last terminator is a line
without one. -/
def lines : List α → List (List α)
  | [] => []
  | c :: s =>
    if c = term then [c] :: lines s
    else
      match lines s with
      | [] => [[c]]
      | l :: ls => (c :: l) :: ls

variable {term}

/-- The first line of a text that has a terminator. -/
theorem lines_append {l : List α} (h : term ∉ l) (s : List α) :
    lines term (l ++ term :: s) = (l ++ [term]) :: lines term s := by
  induction l with
  | nil => simp [lines]
  | cons c l ih =>
    have hc : c ≠ term := fun e => h (e ▸ List.mem_cons_self)
    rw [List.cons_append, lines, if_neg hc, ih fun hm => h (List.mem_cons_of_mem c hm)]
    rfl

theorem lines_line_append {l : List α} (h : term ∉ l) (s : List α) :
    lines term (l ++ [term] ++ s) = (l ++ [term]) :: lines term s := by
  rw [List.append_assoc]
  exact lines_append h s

theorem lines_of_not_mem {l : List α} (h : term ∉ l) (hne : l ≠ []) : lines term l = [l] := by
  induction l with
  | nil => exact absurd rfl hne
  | cons c l ih =>
    have hc : c ≠ term := fun e => h (e ▸ List.mem_cons_self)
    rw [lines, if_neg hc]
    by_cases hl : l = []
    · subst hl
      rfl
    · rw [ih (fun hm => h (List.mem_cons_of_mem c hm)) hl]

/-- Texts that each carry a terminator are the lines of their concatenation. -/
theorem lines_flatMap {ls : List (List α)} (h : ∀ l ∈ ls, term ∉ l) :
    lines term (ls.flatMap fun l => l ++ [term]) = ls.map fun l => l ++ [term] := by
  induction ls with
  | nil => rfl
  | cons l ls ih =>
    rw [List.flatMap_cons, List.append_assoc, List.singleton_append,
      lines_append (h l List.mem_cons_self), ih fun m hm => h m (List.mem_cons_of_mem l hm)]
    rfl

variable (term) in
/-- A text without terminator, or a first line and the rest. -/
theorem eq_or_first (s : List α) :
    term ∉ s ∨ ∃ l rest, term ∉ l ∧ s = l ++ term :: rest := by
  by_cases h : term ∈ s
  · obtain ⟨l, rest, hs, hl⟩ := List.eq_append_cons_of_mem h
    exact Or.inr ⟨l, rest, hl, hs⟩
  · exact Or.inl h

/-- What a line of a text looks like. -/
theorem mem_lines {s l : List α} (h : l ∈ lines term s) :
    l ≠ [] ∧ l ⊆ s ∧ ∃ text, term ∉ text ∧ (l = text ∨ l = text ++ [term]) := by
  induction hn : s.length using Nat.strongRecOn generalizing s with
  | _ n ih =>
    rcases eq_or_first term s with hs | ⟨first, rest, hfirst, rfl⟩
    · by_cases hne : s = []
      · subst hne
        cases h
      · rw [lines_of_not_mem hs hne, List.mem_singleton] at h
        subst h
        exact ⟨hne, fun _ => id, l, hs, Or.inl rfl⟩
    · rw [lines_append hfirst] at h
      rcases List.mem_cons.1 h with rfl | h
      · refine ⟨by simp, fun c hc => ?_, first, hfirst, Or.inr rfl⟩
        rcases List.mem_append.1 hc with hc | hc
        · exact List.mem_append_left _ hc
        · exact List.mem_append_right _ (List.mem_cons.2 (Or.inl (List.mem_singleton.1 hc)))
      · have hlt : rest.length < n := by
          rw [← hn, List.length_append, List.length_cons]
          omega
        obtain ⟨hne, hsub, htext⟩ := ih rest.length hlt h rfl
        exact ⟨hne, fun c hc => List.mem_append_right _ (List.mem_cons_of_mem _ (hsub hc)), htext⟩

theorem flatten_lines (s : List α) : (lines term s).flatten = s := by
  induction s with
  | nil => rfl
  | cons c s ih =>
    rw [lines]
    split
    · rw [List.flatten_cons, ih]
      rfl
    · split
      · next h =>
        rw [h] at ih
        rw [← ih]
        rfl
      · next l ls h =>
        rw [h] at ih
        rw [← ih]
        rfl

/-! ## Reads -/

variable (term)

/-- At most `n` characters, up to and with the first terminator, and what is left. -/
def readLine : Nat → List α → List α × List α
  | 0, s => ([], s)
  | _ + 1, [] => ([], [])
  | n + 1, c :: s => if c = term then ([c], s) else (c :: (readLine n s).1, (readLine n s).2)

/-- Everything a reader with a buffer of `n` characters reads, read by read. -/
def reads (n : Nat) (s : List α) : List (List α) := (lines term s).flatMap (chunks n)

variable {term}

theorem length_readLine_le (n : Nat) (s : List α) : (readLine term n s).2.length ≤ s.length := by
  induction n generalizing s with
  | zero => exact Nat.le_refl _
  | succ n ih =>
    cases s with
    | nil => exact Nat.le_refl _
    | cons c s =>
      rw [readLine]
      split
      · exact Nat.le_succ _
      · exact Nat.le_succ_of_le (ih s)

variable (term) in
theorem length_readLine_lt {n : Nat} (hn : 0 < n) {s : List α} (hs : s ≠ []) :
    (readLine term n s).2.length < s.length := by
  obtain ⟨n, rfl⟩ := Nat.exists_eq_succ_of_ne_zero (Nat.ne_of_gt hn)
  obtain ⟨c, s, rfl⟩ := List.exists_cons_of_ne_nil hs
  rw [readLine]
  split
  · exact Nat.lt_succ_self _
  · exact Nat.lt_succ_of_le (length_readLine_le n s)

/-- A read within a line takes as much as fits. -/
theorem readLine_within {n : Nat} {l : List α} (h : term ∉ l) (hn : n ≤ l.length) (s : List α) :
    readLine term n (l ++ s) = (l.take n, l.drop n ++ s) := by
  induction l generalizing n with
  | nil =>
    obtain rfl : n = 0 := Nat.le_zero.1 hn
    rfl
  | cons c l ih =>
    cases n with
    | zero => rfl
    | succ n =>
      have hc : c ≠ term := fun e => h (e ▸ List.mem_cons_self)
      rw [List.cons_append, readLine, if_neg hc,
        ih (fun hm => h (List.mem_cons_of_mem c hm)) (Nat.le_of_succ_le_succ hn)]
      rfl

/-- A line that fits is read with its terminator. -/
theorem readLine_whole {n : Nat} {l : List α} (h : term ∉ l) (hn : l.length < n) (s : List α) :
    readLine term n (l ++ term :: s) = (l ++ [term], s) := by
  induction l generalizing n with
  | nil =>
    cases n with
    | zero => cases hn
    | succ n => simp [readLine]
  | cons c l ih =>
    cases n with
    | zero => cases hn
    | succ n =>
      have hc : c ≠ term := fun e => h (e ▸ List.mem_cons_self)
      rw [List.cons_append, readLine, if_neg hc,
        ih (fun hm => h (List.mem_cons_of_mem c hm)) (Nat.lt_of_succ_lt_succ hn)]
      rfl

/-- The end of the text ends a read. -/
theorem readLine_end {n : Nat} {l : List α} (h : term ∉ l) (hn : l.length ≤ n) :
    readLine term n l = (l, []) := by
  induction l generalizing n with
  | nil => cases n <;> rfl
  | cons c l ih =>
    cases n with
    | zero => cases hn
    | succ n =>
      have hc : c ≠ term := fun e => h (e ▸ List.mem_cons_self)
      rw [readLine, if_neg hc,
        ih (fun hm => h (List.mem_cons_of_mem c hm)) (Nat.le_of_succ_le_succ hn)]

@[simp] theorem reads_nil (n : Nat) : reads term n [] = [] := rfl

/-- **Reading on**: the reads of a text are its first one and those of what that one leaves. -/
theorem reads_eq {n : Nat} (hn : 0 < n) {s : List α} (hs : s ≠ []) :
    reads term n s = (readLine term n s).1 :: reads term n (readLine term n s).2 := by
  unfold reads
  rcases eq_or_first term s with hterm | ⟨l, rest, hl, rfl⟩
  · rw [lines_of_not_mem hterm hs, List.flatMap_singleton]
    by_cases hle : s.length ≤ n
    · rw [readLine_end hterm hle, chunks_of_length_le hs hle]
      rfl
    · have hread := readLine_within hterm (Nat.le_of_not_le hle) []
      rw [List.append_nil, List.append_nil] at hread
      have hrest : s.drop n ≠ [] := fun h => hle (List.drop_eq_nil_iff.1 h)
      rw [hread, lines_of_not_mem (fun hm => hterm (List.mem_of_mem_drop hm)) hrest,
        List.flatMap_singleton, chunks_cons hn hs]
  · rw [lines_append hl, List.flatMap_cons]
    by_cases hle : l.length < n
    · rw [readLine_whole hl hle, chunks_of_length_le (by simp) (by simp; omega)]
      rfl
    · have hge := Nat.le_of_not_lt hle
      rw [readLine_within hl hge, lines_append fun hm => hl (List.mem_of_mem_drop hm),
        List.flatMap_cons, chunks_cons hn (by simp), List.take_append_of_le_length hge,
        List.drop_append_of_le_length hge]
      rfl

/-- Lines that fit the buffer with their terminators are the reads. -/
theorem reads_flatMap {n : Nat} {ls : List (List α)} (h : ∀ l ∈ ls, term ∉ l)
    (hfit : ∀ l ∈ ls, l.length < n) :
    reads term n (ls.flatMap fun l => l ++ [term]) = ls.map fun l => l ++ [term] := by
  rw [reads, lines_flatMap h]
  induction ls with
  | nil => rfl
  | cons l ls ih =>
    have hone : chunks n (l ++ [term]) = [l ++ [term]] := by
      apply chunks_of_length_le (by simp)
      rw [List.length_append, List.length_singleton]
      exact hfit l List.mem_cons_self
    rw [List.map_cons, List.flatMap_cons, hone, ih (fun m hm => h m (List.mem_cons_of_mem l hm))
      (fun m hm => hfit m (List.mem_cons_of_mem l hm))]
    rfl

/-! ## Other terminators

A reader that stops at one terminator cuts lines that end in another one wherever its buffer is
full. What it reads, cut behind the other terminator, and those lines, cut where the buffer is
full, come to the same parts (`flatten_parts_reads`). -/

variable (term) in
/-- Lines with their terminators, cut in two parts where the buffer is full; `room` is what it has
left. -/
def parts (n : Nat) : Nat → List (List α) → List (List (List α))
  | _, [] => []
  | room, l :: ls =>
    let text := l ++ [term]
    if text.length < room then [text] :: parts n (room - text.length) ls
    else if text.length = room then [text] :: parts n n ls
    else [text.take room, text.drop room] :: parts n (n - (text.length - room)) ls

omit [DecidableEq α] in
theorem map_flatten_parts (n room : Nat) (ls : List (List α)) :
    (parts term n room ls).map List.flatten = ls.map fun l => l ++ [term] := by
  induction ls generalizing room with
  | nil => rfl
  | cons l ls ih =>
    rw [parts]
    split
    · simp [ih]
    · split <;> simp [ih, List.take_append_drop]

theorem flatMap_lines_chunks {n : Nat} (hn : 0 < n) (s : List α) :
    (chunks n s).flatMap (lines term) =
      lines term (s.take n) ++ (chunks n (s.drop n)).flatMap (lines term) := by
  by_cases hs : s = []
  · simp [hs, lines, chunks_nil hn]
  · rw [chunks_cons hn hs, List.flatMap_cons]

/-- The parts are what the room and the chunks behind it are cut into. -/
theorem flatten_parts {n room : Nat} (hpos : 0 < room) (hroom : room ≤ n) {ls : List (List α)}
    (hterm : ∀ l ∈ ls, term ∉ l) (hfit : ∀ l ∈ ls, l.length < n) :
    (parts term n room ls).flatten =
      lines term ((ls.flatMap fun l => l ++ [term]).take room) ++
        (chunks n ((ls.flatMap fun l => l ++ [term]).drop room)).flatMap (lines term) := by
  have hn : 0 < n := Nat.lt_of_lt_of_le hpos hroom
  induction ls generalizing room with
  | nil => simp [parts, lines, chunks_nil hn]
  | cons l ls ih =>
    have hl : term ∉ l := hterm l List.mem_cons_self
    have hlt : l.length < n := hfit l List.mem_cons_self
    have ih := fun {room} hpos hroom => @ih room hpos hroom
      (fun m hm => hterm m (List.mem_cons_of_mem l hm))
      fun m hm => hfit m (List.mem_cons_of_mem l hm)
    have hlen : (l ++ [term]).length = l.length + 1 := by simp
    rw [List.flatMap_cons]
    generalize ls.flatMap (fun l => l ++ [term]) = rest at ih ⊢
    rw [parts]
    split
    · next hlt =>
      -- there is room for the line and for more
      rw [List.flatten_cons, ih (by omega) (by omega), List.take_append,
        List.take_of_length_le (Nat.le_of_lt hlt), List.drop_append,
        List.drop_eq_nil_of_le (Nat.le_of_lt hlt), List.nil_append, lines_line_append hl]
      rfl
    · split
      · next heq =>
        -- the line uses up the room
        have htake : (l ++ [term] ++ rest).take room = l ++ [term] := by
          rw [← heq, List.take_left]
        have hdrop : (l ++ [term] ++ rest).drop room = rest := by
          rw [← heq, List.drop_left]
        have hone := lines_line_append hl []
        rw [List.append_nil] at hone
        rw [List.flatten_cons, ih hn (Nat.le_refl n), htake, hdrop, ← flatMap_lines_chunks hn, hone]
        rfl
      · have hroomLe : room ≤ l.length := by omega
        have hfirst : (l ++ [term]).take room = l.take room := List.take_append_of_le_length hroomLe
        have hsecond : (l ++ [term]).drop room = l.drop room ++ [term] :=
          List.drop_append_of_le_length hroomLe
        have htake : (l ++ [term] ++ rest).take room = l.take room := by
          rw [List.append_assoc, List.take_append_of_le_length hroomLe]
        have hdrop : (l ++ [term] ++ rest).drop room = l.drop room ++ [term] ++ rest := by
          rw [List.append_assoc, List.drop_append_of_le_length hroomLe, List.append_assoc]
        have hcut : term ∉ l.drop room := fun h => hl (List.mem_of_mem_drop h)
        have hkept : term ∉ l.take room := fun h => hl (List.mem_of_mem_take h)
        have hne : l.take room ≠ [] := by
          rw [Ne, List.take_eq_nil_iff, not_or]
          exact ⟨Nat.ne_of_gt hpos, by rintro rfl; simp at hroomLe; omega⟩
        have hlen' : (l.drop room ++ [term]).length = (l ++ [term]).length - room := by
          rw [← hsecond, List.length_drop]
        have hle : (l.drop room ++ [term]).length ≤ n := by omega
        -- the rest of the line is in front of the next chunk
        rw [List.flatten_cons, ih (by omega) (Nat.sub_le _ _), hfirst, hsecond, htake, hdrop,
          flatMap_lines_chunks hn (l.drop room ++ [term] ++ rest), List.take_append,
          List.take_of_length_le hle, List.drop_append, List.drop_eq_nil_of_le hle, List.nil_append,
          lines_line_append hcut, hlen', lines_of_not_mem hkept hne]
        rfl

/-- A text without terminators is read in chunks. -/
theorem reads_eq_chunks {n : Nat} (hn : 0 < n) {s : List α} (h : term ∉ s) :
    reads term n s = chunks n s := by
  by_cases hs : s = []
  · rw [hs, chunks_nil hn]
    rfl
  · rw [reads, lines_of_not_mem h hs, List.flatMap_singleton]

/-- **Cut in either order**: the parts are what the reads are cut into. -/
theorem flatten_parts_reads {other : α} {n : Nat} (hn : 0 < n) {ls : List (List α)}
    (hterm : ∀ l ∈ ls, term ∉ l) (hother : other ∉ ls.flatMap fun l => l ++ [term])
    (hfit : ∀ l ∈ ls, l.length < n) : (parts term n n ls).flatten =
      (reads other n (ls.flatMap fun l => l ++ [term])).flatMap (lines term) := by
  rw [flatten_parts hn (Nat.le_refl n) hterm hfit, reads_eq_chunks hn hother,
    ← flatMap_lines_chunks hn]

/-- A text that fits the buffer and has no terminator is one read. -/
theorem reads_of_not_mem {n : Nat} {s : List α} (h : term ∉ s) (hne : s ≠ [])
    (hfit : s.length ≤ n) : reads term n s = [s] := by
  rw [reads, lines_of_not_mem h hne, List.flatMap_singleton, chunks_of_length_le hne hfit]

end Lines
