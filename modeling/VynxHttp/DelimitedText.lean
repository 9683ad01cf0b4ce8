import Mathlib.Data.List.Infix
import Mathlib.Tactic.Common

/-!
# Text cut at a two-symbol delimiter

A delimiter is a pair of different symbols, as CR LF is.  `findDelim` is the
position of its first occurrence; `cutBlock` cuts a text into the lines before
the first empty line and what follows that line.  The main fact is that a
block of lines has one reading only: writing delimiter-free lines and cutting
the text again gives the lines back (`cutBlock_encodeBlock`), and nothing else
is ever cut out (`cutBlock_lines`).  `cutLines` cuts a text which is still
coming in into its complete lines and the unfinished one.
-/

namespace VynxHttp.DelimitedText

variable {α : Type*} {a b : α}

def Free (a b : α) (text : List α) : Prop := ¬ [a, b] <:+: text

instance [DecidableEq α] (a b : α) (text : List α) :
    Decidable (Free a b text) :=
  inferInstanceAs (Decidable (¬ [a, b] <:+: text))

@[simp] theorem free_nil : Free a b [] := by
  simp [Free]

theorem Free.tail {x : α} {text : List α}
    (hfree : Free a b (x :: text)) : Free a b text :=
  fun hinside => hfree (hinside.trans (List.suffix_cons x text).isInfix)

theorem Free.of_part {text sub : List α}
    (hfree : Free a b text) (hsub : sub <:+: text) : Free a b sub :=
  fun hinside => hfree (hinside.trans hsub)

theorem free_of_notMem_left {text : List α} (hmem : a ∉ text) :
    Free a b text :=
  fun hinside => hmem (hinside.subset (by simp))

theorem free_cons_cons {x y : α} {text : List α} :
    Free a b (x :: y :: text) ↔
      ¬ (x = a ∧ y = b) ∧ Free a b (y :: text) := by
  unfold Free
  rw [List.infix_cons_iff, not_or]
  simp only [List.cons_prefix_cons, List.nil_prefix, and_true]
  rw [eq_comm (a := a), eq_comm (a := b)]

@[simp] theorem free_singleton {x : α} : Free a b [x] := by
  intro hinside
  have hlength := hinside.length_le
  simp at hlength

/-- A symbol of neither kind separates two delimiter-free texts. -/
theorem Free.append_cons {x : α} {first second : List α}
    (hxa : x ≠ a) (hxb : x ≠ b) (hfirst : Free a b first)
    (hsecond : Free a b second) : Free a b (first ++ x :: second) := by
  induction first with
  | nil =>
      cases second with
      | nil => exact free_singleton
      | cons y second =>
          exact free_cons_cons.mpr ⟨fun h => hxa h.1, hsecond⟩
  | cons z first ih =>
      have htail := ih hfirst.tail
      cases first with
      | nil => exact free_cons_cons.mpr ⟨fun h => hxb h.2, htail⟩
      | cons y first =>
          exact free_cons_cons.mpr ⟨(free_cons_cons.mp hfirst).1, htail⟩

def encodeLines (a b : α) (lines : List (List α)) : List α :=
  lines.flatMap fun line => line ++ [a, b]

@[simp] theorem encodeLines_nil :
    encodeLines a b ([] : List (List α)) = [] := rfl

@[simp] theorem encodeLines_cons
    (line : List α) (lines : List (List α)) :
    encodeLines a b (line :: lines) =
      line ++ a :: b :: encodeLines a b lines := by
  simp [encodeLines]

/-- The lines, an empty line, and the text which follows it. -/
def encodeBlock (a b : α) (lines : List (List α)) (rest : List α) : List α :=
  encodeLines a b lines ++ a :: b :: rest

/-! ## The first delimiter -/

variable [DecidableEq α]

def findDelim (a b : α) : List α → Option ℕ
  | x :: y :: rest =>
      if x = a ∧ y = b then some 0
      else (findDelim a b (y :: rest)).map (· + 1)
  | _ => none

theorem findDelim_eq_none_iff {text : List α} :
    findDelim a b text = none ↔ Free a b text := by
  induction text with
  | nil => simp [findDelim]
  | cons x text ih =>
      cases text with
      | nil => simp [findDelim]
      | cons y rest =>
          rw [free_cons_cons, ← ih, findDelim]
          by_cases hhit : x = a ∧ y = b <;> simp [hhit]

/-- The first delimiter after a delimiter-free line is the one which ends the
line. -/
theorem findDelim_append (hab : a ≠ b) {line : List α}
    (hfree : Free a b line) (rest : List α) :
    findDelim a b (line ++ a :: b :: rest) = some line.length := by
  induction line with
  | nil => simp [findDelim]
  | cons x line ih =>
      have htail := ih hfree.tail
      cases line with
      | nil =>
          have hmiss : ¬ (x = a ∧ a = b) := fun h => hab h.2
          simp only [List.nil_append] at htail
          simp [findDelim, hmiss]
      | cons y line =>
          have hmiss := (free_cons_cons.mp hfree).1
          simp only [List.cons_append] at htail ⊢
          simp [findDelim, hmiss, htail]

theorem findDelim_lt {text : List α} {i : ℕ}
    (hfind : findDelim a b text = some i) : i + 2 ≤ text.length := by
  induction text generalizing i with
  | nil => simp [findDelim] at hfind
  | cons x text ih =>
      cases text with
      | nil => simp [findDelim] at hfind
      | cons y rest =>
          rw [findDelim] at hfind
          split at hfind
          next =>
            simp only [Option.some.injEq] at hfind
            simp [← hfind]
          next =>
            obtain ⟨j, hj, rfl⟩ := Option.map_eq_some_iff.mp hfind
            have := ih hj
            simp only [List.length_cons] at this ⊢
            omega

theorem findDelim_spec {text : List α} {i : ℕ}
    (hfind : findDelim a b text = some i) :
    text = text.take i ++ a :: b :: text.drop (i + 2) ∧
      Free a b (text.take i) := by
  induction text generalizing i with
  | nil => simp [findDelim] at hfind
  | cons x text ih =>
      cases text with
      | nil => simp [findDelim] at hfind
      | cons y rest =>
          rw [findDelim] at hfind
          split at hfind
          next hhit =>
            simp only [Option.some.injEq] at hfind
            subst hfind
            simp [hhit.1, hhit.2]
          next hmiss =>
            obtain ⟨j, hj, rfl⟩ := Option.map_eq_some_iff.mp hfind
            obtain ⟨hsplit, hfree⟩ := ih hj
            refine ⟨by
              rw [List.take_succ_cons, List.drop_succ_cons,
                List.cons_append, ← hsplit], ?_⟩
            cases j with
            | zero => simp
            | succ j =>
                rw [List.take_succ_cons] at hfree ⊢
                rw [List.take_succ_cons]
                exact free_cons_cons.mpr ⟨hmiss, hfree⟩

/-- A text which stops before the delimiter of its first line is complete has
no delimiter. -/
theorem free_of_prefix_line {line rest text more : List α}
    (hab : a ≠ b) (hfree : Free a b line)
    (hsplit : text ++ more = line ++ a :: b :: rest)
    (hshort : text.length < line.length + 2) : Free a b text := by
  rw [← findDelim_eq_none_iff]
  cases hfind : findDelim a b text with
  | none => rfl
  | some i =>
      exfalso
      have hlong := findDelim_lt hfind
      obtain ⟨htext, hfreeTake⟩ := findDelim_spec hfind
      have hfirst : findDelim a b (text ++ more) = some i := by
        have hi : (text.take i).length = i :=
          List.length_take_of_le (by omega)
        rw [htext, List.append_assoc, List.cons_append, List.cons_append,
          findDelim_append hab hfreeTake, hi]
      rw [hsplit, findDelim_append hab hfree] at hfirst
      simp only [Option.some.injEq] at hfirst
      omega

omit [DecidableEq α] in
/-- A text which reaches past the delimiter of its first line starts with that
line. -/
theorem exists_rest_of_long {line rest text more : List α}
    (hsplit : text ++ more = line ++ a :: b :: rest)
    (hlong : line.length + 2 ≤ text.length) :
    ∃ tail, text = line ++ a :: b :: tail ∧ tail ++ more = rest := by
  have hline : line ++ [a, b] <+: text ++ more := by
    rw [hsplit]
    exact ⟨rest, by simp⟩
  obtain ⟨tail, htail⟩ :=
    List.prefix_of_prefix_length_le hline (List.prefix_append text more)
      (by simpa using hlong)
  have htext : text = line ++ a :: b :: tail := by simp [← htail]
  refine ⟨tail, htext, ?_⟩
  rw [htext] at hsplit
  simpa using hsplit

/-- The first delimiter of a text which goes on from a delimiter-free one ends
after that one. -/
theorem lt_of_findDelim_append {text more : List α} {i : ℕ}
    (hfree : Free a b text) (hfind : findDelim a b (text ++ more) = some i) :
    text.length < i + 2 := by
  by_contra hlong
  obtain ⟨hsplit, _⟩ := findDelim_spec hfind
  have hlength := findDelim_lt hfind
  have hline : ((text ++ more).take i).length = i :=
    List.length_take_of_le (by omega)
  obtain ⟨tail, htext, _⟩ := exists_rest_of_long hsplit (by omega)
  rw [htext] at hfree
  exact hfree ⟨(text ++ more).take i, tail, by simp⟩

/-! ## Blocks of lines -/

/-- The lines of a text up to its first empty line, and the text after that
line.  The second argument carries the symbols of the current line, last one
first. -/
def cutBlockFrom (a b : α) :
    List α → List α → Option (List (List α) × List α)
  | line, x :: y :: rest =>
      if x = a ∧ y = b then
        if line = [] then some ([], rest)
        else
          (cutBlockFrom a b [] rest).map fun block =>
            (line.reverse :: block.1, block.2)
      else cutBlockFrom a b (x :: line) (y :: rest)
  | _, _ => none

def cutBlock (a b : α) (text : List α) :
    Option (List (List α) × List α) :=
  cutBlockFrom a b [] text

theorem cutBlockFrom_line (hab : a ≠ b) {line : List α} (read : List α)
    (hfree : Free a b line) (rest : List α) :
    cutBlockFrom a b read (line ++ a :: b :: rest) =
      if line.reverse ++ read = [] then some ([], rest)
      else
        (cutBlockFrom a b [] rest).map fun block =>
          ((line.reverse ++ read).reverse :: block.1, block.2) := by
  induction line generalizing read with
  | nil =>
      rw [List.nil_append, cutBlockFrom, if_pos ⟨rfl, rfl⟩]
      by_cases hread : read = [] <;> simp [hread]
  | cons x line ih =>
      have htail := ih (x :: read) hfree.tail
      have hmiss : cutBlockFrom a b read (x :: line ++ a :: b :: rest) =
          cutBlockFrom a b (x :: read) (line ++ a :: b :: rest) := by
        cases line with
        | nil =>
            have hx : ¬ (x = a ∧ a = b) := fun h => hab h.2
            simp [cutBlockFrom, hx]
        | cons y line =>
            have hx := (free_cons_cons.mp hfree).1
            simp [cutBlockFrom, hx]
      rw [hmiss, htail]
      simp

/-- A block of non-empty delimiter-free lines is cut into exactly these
lines. -/
theorem cutBlock_encodeBlock (hab : a ≠ b) {lines : List (List α)}
    (hlines : ∀ line ∈ lines, line ≠ [] ∧ Free a b line)
    (rest : List α) :
    cutBlock a b (encodeBlock a b lines rest) = some (lines, rest) := by
  unfold cutBlock encodeBlock
  induction lines with
  | nil => simp [cutBlockFrom]
  | cons line lines ih =>
      obtain ⟨hne, hfree⟩ := hlines line (by simp)
      have htail := ih fun other hmem => hlines other (by simp [hmem])
      rw [encodeLines_cons, List.append_assoc, List.cons_append,
        List.cons_append, cutBlockFrom_line hab [] hfree, htail]
      simp [hne]

theorem cutBlockFrom_lines {text read : List α}
    {lines : List (List α)} {rest : List α}
    (hread : ∀ x ∈ text.head?, Free a b ((x :: read).reverse))
    (hcut : cutBlockFrom a b read text = some (lines, rest)) :
    ∀ line ∈ lines, line ≠ [] ∧ Free a b line := by
  induction read, text using cutBlockFrom.induct a b
    generalizing lines rest with
  | case1 x y tail hhit =>
      rw [cutBlockFrom, if_pos hhit, if_pos rfl] at hcut
      simp only [Option.some.injEq, Prod.mk.injEq] at hcut
      simp [← hcut.1]
  | case2 line x y tail hhit hne ih =>
      rw [cutBlockFrom, if_pos hhit, if_neg hne] at hcut
      obtain ⟨⟨lines', rest'⟩, htail, hpair⟩ :=
        Option.map_eq_some_iff.mp hcut
      simp only [Prod.mk.injEq] at hpair
      obtain ⟨rfl, rfl⟩ := hpair
      have hfree : Free a b line.reverse := by
        have hall := hread x (by simp)
        rw [List.reverse_cons] at hall
        exact hall.of_part (List.prefix_append _ _).isInfix
      have hrest := ih (by simp) htail
      intro other hmem
      rcases List.mem_cons.mp hmem with rfl | hmem
      · exact ⟨by simpa using hne, hfree⟩
      · exact hrest other hmem
  | case3 line x y tail hmiss ih =>
      rw [cutBlockFrom, if_neg hmiss] at hcut
      refine ih ?_ hcut
      intro z hz
      simp only [List.head?_cons, Option.mem_def, Option.some.injEq] at hz
      subst hz
      have hall := hread x (by simp)
      intro hinside
      rw [List.reverse_cons, List.infix_concat_iff] at hinside
      rcases hinside with hsuffix | hinner
      · rw [List.reverse_cons, List.append_assoc] at hsuffix
        have hlast : [x, y] <:+ line.reverse ++ ([x] ++ [y]) :=
          List.suffix_append _ _
        have heq : [a, b] = [x, y] :=
          (List.suffix_of_suffix_length_le hsuffix hlast (by simp)).eq_of_length
            (by simp)
        simp only [List.cons.injEq, and_true] at heq
        exact hmiss ⟨heq.1.symm, heq.2.symm⟩
      · exact hall hinner
  | case4 line text hshort =>
      rw [cutBlockFrom] at hcut
      · simp at hcut
      · exact hshort

/-- Whatever the text, the lines cut out of it are not empty and do not
contain the delimiter. -/
theorem cutBlock_lines {text : List α}
    {lines : List (List α)} {rest : List α}
    (hcut : cutBlock a b text = some (lines, rest)) :
    ∀ line ∈ lines, line ≠ [] ∧ Free a b line :=
  cutBlockFrom_lines (by simp) hcut

/-- Exactly the blocks of non-empty delimiter-free lines are read back. -/
theorem cutBlock_encodeBlock_iff (hab : a ≠ b) (lines : List (List α))
    (rest : List α) :
    cutBlock a b (encodeBlock a b lines rest) = some (lines, rest) ↔
      ∀ line ∈ lines, line ≠ [] ∧ Free a b line :=
  ⟨cutBlock_lines, fun hlines => cutBlock_encodeBlock hab hlines rest⟩

/-! ## All lines of a text -/

/-- The complete lines of a text and the unfinished line after them.  The
second argument carries the symbols of the current line, last one first. -/
def cutLinesFrom (a b : α) : List α → List α → List (List α) × List α
  | line, x :: y :: rest =>
      if x = a ∧ y = b then
        let cut := cutLinesFrom a b [] rest
        (line.reverse :: cut.1, cut.2)
      else cutLinesFrom a b (x :: line) (y :: rest)
  | line, rest => ([], line.reverse ++ rest)

def cutLines (a b : α) (text : List α) : List (List α) × List α :=
  cutLinesFrom a b [] text

theorem cutLinesFrom_free {text : List α} (read : List α)
    (hfree : Free a b text) :
    cutLinesFrom a b read text = ([], read.reverse ++ text) := by
  induction text generalizing read with
  | nil => simp [cutLinesFrom]
  | cons x text ih =>
      cases text with
      | nil => simp [cutLinesFrom]
      | cons y rest =>
          have hmiss := (free_cons_cons.mp hfree).1
          rw [cutLinesFrom, if_neg hmiss, ih (x :: read) hfree.tail]
          simp

theorem cutLinesFrom_line (hab : a ≠ b) {line : List α} (read : List α)
    (hfree : Free a b line) (rest : List α) :
    cutLinesFrom a b read (line ++ a :: b :: rest) =
      ((read.reverse ++ line) :: (cutLines a b rest).1,
        (cutLines a b rest).2) := by
  induction line generalizing read with
  | nil => simp [cutLinesFrom, cutLines]
  | cons x line ih =>
      have htail := ih (x :: read) hfree.tail
      have hmiss : cutLinesFrom a b read (x :: line ++ a :: b :: rest) =
          cutLinesFrom a b (x :: read) (line ++ a :: b :: rest) := by
        cases line with
        | nil =>
            have hx : ¬ (x = a ∧ a = b) := fun h => hab h.2
            simp [cutLinesFrom, hx]
        | cons y line =>
            have hx := (free_cons_cons.mp hfree).1
            simp [cutLinesFrom, hx]
      rw [hmiss, htail]
      simp

theorem cutLines_free {text : List α} (hfree : Free a b text) :
    cutLines a b text = ([], text) :=
  cutLinesFrom_free [] hfree

theorem cutLines_line (hab : a ≠ b) {line : List α}
    (hfree : Free a b line) (rest : List α) :
    cutLines a b (line ++ a :: b :: rest) =
      (line :: (cutLines a b rest).1, (cutLines a b rest).2) :=
  cutLinesFrom_line hab [] hfree rest

/-- The rule for texts: one without a delimiter, or a line with its delimiter
before another text. -/
theorem lines_induction {P : List α → Prop}
    (hfree : ∀ text, Free a b text → P text)
    (hline : ∀ line rest, Free a b line → P rest →
      P (line ++ a :: b :: rest)) (text : List α) : P text := by
  induction hlength : text.length using Nat.strongRecOn
    generalizing text with
  | _ n ih =>
      cases hfind : findDelim a b text with
      | none => exact hfree text (findDelim_eq_none_iff.mp hfind)
      | some i =>
          obtain ⟨hsplit, hinitial⟩ := findDelim_spec hfind
          have hlt := findDelim_lt hfind
          rw [hsplit]
          apply hline _ _ hinitial
          apply ih (text.drop (i + 2)).length _ _ rfl
          rw [List.length_drop]
          omega

/-- What comes later goes on from the unfinished line. -/
theorem cutLines_append (hab : a ≠ b) (text more : List α) :
    cutLines a b (text ++ more) =
      ((cutLines a b text).1 ++
          (cutLines a b ((cutLines a b text).2 ++ more)).1,
        (cutLines a b ((cutLines a b text).2 ++ more)).2) := by
  induction text using lines_induction (a := a) (b := b) with
  | hfree text hfree => simp [cutLines_free hfree]
  | hline line rest hfree ih =>
      rw [List.append_assoc, List.cons_append, List.cons_append,
        cutLines_line hab hfree, cutLines_line hab hfree, ih]
      rfl

theorem cutLines_encodeLines (hab : a ≠ b) {lines : List (List α)}
    (hlines : ∀ line ∈ lines, Free a b line) (rest : List α) :
    cutLines a b (encodeLines a b lines ++ rest) =
      (lines ++ (cutLines a b rest).1, (cutLines a b rest).2) := by
  induction lines with
  | nil => rfl
  | cons line lines ih =>
      have htail := ih fun other hmem =>
        hlines other (List.mem_cons_of_mem _ hmem)
      rw [encodeLines_cons, List.append_assoc, List.cons_append,
        List.cons_append,
        cutLines_line hab (hlines line (List.mem_cons_self ..)), htail]
      rfl

/-! ## Joining -/

/-- All pieces of a text, the unfinished one included. -/
def pieces (a b : α) (text : List α) : List (List α) :=
  (cutLines a b text).1 ++ [(cutLines a b text).2]

/-- Delimiter-free texts are read back when they are joined. -/
theorem pieces_intercalate (hab : a ≠ b) {texts : List (List α)}
    (hne : texts ≠ []) (hfree : ∀ text ∈ texts, Free a b text) :
    pieces a b ([a, b].intercalate texts) = texts := by
  induction texts with
  | nil => exact absurd rfl hne
  | cons text texts ih =>
      have htext := hfree text (List.mem_cons_self ..)
      cases texts with
      | nil =>
          rw [List.intercalate_singleton, pieces, cutLines_free htext]
          rfl
      | cons next rest =>
          have htail := ih (List.cons_ne_nil _ _) fun other hmem =>
            hfree other (List.mem_cons_of_mem _ hmem)
          rw [List.intercalate_cons_cons, List.append_assoc,
            List.cons_append, List.cons_append, List.nil_append, pieces,
            cutLines_line hab htext, List.cons_append]
          exact congrArg (text :: ·) htail

end VynxHttp.DelimitedText
