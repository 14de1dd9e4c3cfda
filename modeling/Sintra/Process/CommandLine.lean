import Mathlib

/-!
# Command lines of spawned processes

On Windows the arguments of a child are joined to one string, which the C runtime of the child takes
apart again. `buildCommandLine` is the code's writer. `parseCommandLine` is the documented reader: in
`argv[0]` quotes only delimit; elsewhere `2n` backslashes before a quote stand for `n`, and `2n + 1` for
`n` and a literal quote, blanks outside quotes separate, and in a quoted part a pair of quotes is one.
-/

namespace Sintra.Process

open Option

/-- A blank separates arguments. -/
def isBlank (c : Char) : Bool := c = ' ' || c = '\t'

/-- Source: `utility.h`, `build_command_line`, `needs_quoting` -/
def needsQuoting (ws : List Char) : Bool := ws.isEmpty || ws.any isBlank

/-- The loop over the characters, with its counter `backslashes`.
Source: `utility.h`, `build_command_line` -/
def escape (quoting : Bool) : ℕ → List Char → List Char
  | backslashes, [] => List.replicate (if quoting then 2 * backslashes else backslashes) '\\'
  | backslashes, c :: ws =>
    if c = '\\' then
      escape quoting (backslashes + 1) ws
    else
      List.replicate (if c = '"' then 2 * backslashes + 1 else backslashes) '\\' ++
        c :: escape quoting 0 ws

/-- The text of an argument between its quotes, where it needs them. -/
def quote (quoting : Bool) (text : List Char) : List Char :=
  if quoting then '"' :: (text ++ ['"']) else text

/-- Source: `utility.h`, `build_command_line` -/
def buildCommandLine : List (List Char) → List Char
  | [] => []
  | program :: argv =>
    quote (needsQuoting program) program ++
      argv.flatMap fun ws => ' ' :: quote (needsQuoting ws) (escape (needsQuoting ws) 0 ws)

/-- Where the reader is: outside the quotes, inside them, or right behind a quote that may be the first
of a pair. -/
inductive Quoting
  | outside
  | inside
  | behind
  deriving DecidableEq

/-- Past a character that is no quote, a quoted part that was left is left for good. -/
def Quoting.past : Quoting → Quoting
  | inside => inside
  | _ => outside

/-- The arguments after the program: `arg` is the part read of the current one, `none` between two of
them, and `backslashes` those read after it, whose meaning depends on the next character. -/
def parseArgs (arg : Option (List Char)) (quoting : Quoting) (backslashes : ℕ) :
    List Char → List (List Char)
  | [] => (arg.map (· ++ List.replicate backslashes '\\')).toList
  | c :: cs =>
    if c = '\\' then
      parseArgs (some (arg.getD [])) quoting.past (backslashes + 1) cs
    else if c = '"' then
      let read := arg.getD [] ++ List.replicate (backslashes / 2) '\\'
      if backslashes % 2 = 1 then
        parseArgs (some (read ++ ['"'])) quoting 0 cs
      else
        match quoting with
        | .outside => parseArgs (some read) .inside 0 cs
        | .inside => parseArgs (some read) .behind 0 cs
        | .behind => parseArgs (some (read ++ ['"'])) .inside 0 cs
    else if isBlank c && quoting.past = .outside then
      (arg.map (· ++ List.replicate backslashes '\\')).toList ++ parseArgs none .outside 0 cs
    else
      parseArgs (some (arg.getD [] ++ List.replicate backslashes '\\' ++ [c])) quoting.past 0 cs

/-- The program name and what follows it. -/
def parseProgram : Bool → List Char → List Char × List Char
  | _, [] => ([], [])
  | quoted, c :: cs =>
    if c = '"' then
      parseProgram (!quoted) cs
    else if isBlank c && !quoted then
      ([], cs)
    else
      (c :: (parseProgram quoted cs).1, (parseProgram quoted cs).2)

def parseCommandLine (cmdline : List Char) : List (List Char) :=
  (parseProgram false cmdline).1 :: parseArgs none .outside 0 (parseProgram false cmdline).2

/-! ### One argument -/

/-- What follows an argument: the end of the line, or the blank before the next one. -/
inductive Follows : List Char → Prop
  | done : Follows []
  | more (rest : List Char) : Follows (' ' :: rest)

variable {a rest w : List Char} {q : Quoting}

theorem parseArgs_replicate (h : q.past = q) (n backslashes : ℕ) :
    parseArgs (some a) q backslashes (List.replicate n '\\' ++ rest) =
      parseArgs (some a) q (backslashes + n) rest := by
  induction n generalizing backslashes with
  | zero => rfl
  | succ n ih =>
    rw [List.replicate_succ, List.cons_append, parseArgs, if_pos rfl, h, getD_some, ih]
    congr 1
    omega

/-- An argument ends where a blank or the end follows. -/
theorem parseArgs_follows (hrest : Follows rest) (h : q ≠ .inside) (backslashes : ℕ) :
    parseArgs (some a) q backslashes rest =
      (a ++ List.replicate backslashes '\\') :: parseArgs none .outside 0 rest := by
  cases hrest <;> cases q <;> simp_all [parseArgs, isBlank, Quoting.past]

/-- The closing quote takes the backslashes in pairs. -/
theorem parseArgs_close (hrest : Follows rest) (n : ℕ) :
    parseArgs (some a) .inside (2 * n) ('"' :: rest) =
      (a ++ List.replicate n '\\') :: parseArgs none .outside 0 rest := by
  have hend := parseArgs_follows (a := a ++ List.replicate n '\\') (q := .behind) hrest nofun 0
  simpa [parseArgs] using hend

/-- The written form of an argument is read back. The induction is on the argument; `backslashes` have
been counted by the writer and not yet written. -/
theorem parseArgs_escape (quoted : Bool) (hrest : Follows rest) (backslashes : ℕ)
    (hw : quoted = false → ∀ c ∈ w, ¬ isBlank c) :
    parseArgs (some a) (if quoted then .inside else .outside) 0
        (escape quoted backslashes w ++ ((if quoted then ['"'] else []) ++ rest)) =
      (a ++ List.replicate backslashes '\\' ++ w) :: parseArgs none .outside 0 rest := by
  have hpast : Quoting.past (if quoted then .inside else .outside) =
      if quoted then .inside else .outside := by
    cases quoted <;> rfl
  induction w generalizing a backslashes with
  | nil =>
    rw [escape, parseArgs_replicate hpast, List.append_nil, Nat.zero_add]
    cases quoted with
    | false => exact parseArgs_follows (q := .outside) hrest nofun backslashes
    | true => exact parseArgs_close hrest backslashes
  | cons c w ih =>
    have hw' : quoted = false → ∀ c ∈ w, ¬ isBlank c :=
      fun hq c hc => hw hq c (List.mem_cons_of_mem _ hc)
    rw [escape]
    by_cases hslash : c = '\\'
    · rw [if_pos hslash, ih (backslashes + 1) hw', hslash]
      simp [List.replicate_succ']
    rw [if_neg hslash, List.append_assoc, parseArgs_replicate hpast, List.cons_append, parseArgs,
      if_neg hslash, hpast]
    by_cases hquote : c = '"'
    · -- an odd number of backslashes, half of which are the argument's own
      have hodd : (0 + (2 * backslashes + 1)) % 2 = 1 := by omega
      have hhalf : (0 + (2 * backslashes + 1)) / 2 = backslashes := by omega
      simp only [hquote, if_true, hodd, hhalf, getD_some]
      rw [ih 0 hw']
      simp
    · have hblank : ¬ (isBlank c && (if quoted then Quoting.inside else .outside) = .outside) := by
        cases quoted with
        | true => simp
        | false => simpa using hw rfl c List.mem_cons_self
      rw [if_neg hquote, if_neg hquote, if_neg hblank, Nat.zero_add, getD_some, ih 0 hw']
      simp

/-- What is written without quotes does not start with a blank. -/
theorem escape_start (hw : ∀ c ∈ w, ¬ isBlank c) (backslashes : ℕ) (h : w ≠ [] ∨ 0 < backslashes) :
    ∃ c text, escape false backslashes w = c :: text ∧ ¬ isBlank c := by
  induction w generalizing backslashes with
  | nil =>
    obtain ⟨n, rfl⟩ := Nat.exists_eq_add_one.mpr (h.resolve_left (· rfl))
    exact ⟨'\\', List.replicate n '\\', rfl, by decide⟩
  | cons c w ih =>
    rw [escape]
    split
    · exact ih (fun c hc => hw c (List.mem_cons_of_mem _ hc)) _ (Or.inr (Nat.succ_pos _))
    · cases (if c = '"' then 2 * backslashes + 1 else backslashes) with
      | zero => exact ⟨c, _, rfl, hw c List.mem_cons_self⟩
      | succ n => exact ⟨'\\', _, rfl, by decide⟩

/-- One argument of the line, after its blank. -/
theorem parseArgs_quote (hrest : Follows rest) :
    parseArgs none .outside 0
        (' ' :: (quote (needsQuoting w) (escape (needsQuoting w) 0 w) ++ rest)) =
      w :: parseArgs none .outside 0 rest := by
  have hskip (cs : List Char) :
      parseArgs none .outside 0 (' ' :: cs) = parseArgs none .outside 0 cs := by
    simp [parseArgs, isBlank, Quoting.past]
  have hread := parseArgs_escape (a := []) (w := w) (needsQuoting w) hrest 0
  rw [hskip]
  cases hq : needsQuoting w with
  | true =>
    rw [hq] at hread
    simpa [quote, parseArgs] using hread nofun
  | false =>
    rw [hq] at hread
    simp only [needsQuoting, Bool.or_eq_false_iff, List.isEmpty_eq_false_iff, List.any_eq_false] at hq
    obtain ⟨c, text, htext, hc⟩ := escape_start hq.2 0 (Or.inl hq.1)
    have hstart (cs : List Char) :
        parseArgs none .outside 0 (c :: cs) = parseArgs (some []) .outside 0 (c :: cs) := by
      simp [parseArgs, hc]
    have hread := hread fun _ => hq.2
    rw [htext] at hread
    rw [quote, if_neg Bool.false_ne_true, htext, List.cons_append, hstart]
    simpa using hread

/-! ### The whole line -/

theorem parseProgram_append {program : List Char} (quoted : Bool)
    (h : ∀ c ∈ program, c ≠ '"' ∧ (quoted = false → ¬ isBlank c)) :
    parseProgram quoted (program ++ rest) =
      (program ++ (parseProgram quoted rest).1, (parseProgram quoted rest).2) := by
  induction program with
  | nil => rfl
  | cons c program ih =>
    obtain ⟨hquote, hblank⟩ := h c List.mem_cons_self
    have hread : ¬ (isBlank c && !quoted) := by
      cases quoted with
      | true => simp
      | false => simpa using hblank rfl
    rw [List.cons_append, parseProgram, if_neg hquote, if_neg hread,
      ih fun c hc => h c (List.mem_cons_of_mem _ hc)]
    rfl

/-- The program name is read back, and the blank behind it with it. -/
theorem parseProgram_quote {program : List Char} (h : '"' ∉ program) :
    parseProgram false (quote (needsQuoting program) program ++ rest) =
      (program ++ (parseProgram false rest).1, (parseProgram false rest).2) := by
  have hne (c : Char) (hc : c ∈ program) : c ≠ '"' := fun hq => h (hq ▸ hc)
  cases hq : needsQuoting program with
  | true =>
    have hopen : parseProgram false (quote true program ++ rest) =
        parseProgram true (program ++ '"' :: rest) := by
      simp [quote, parseProgram]
    rw [hopen, parseProgram_append true fun c hc => ⟨hne c hc, nofun⟩]
    simp [parseProgram]
  | false =>
    simp only [needsQuoting, Bool.or_eq_false_iff, List.any_eq_false] at hq
    exact parseProgram_append false fun c hc => ⟨hne c hc, fun _ => hq.2 c hc⟩

theorem follows_arguments (argv : List (List Char)) :
    Follows (argv.flatMap fun w => ' ' :: quote (needsQuoting w) (escape (needsQuoting w) 0 w)) := by
  cases argv with
  | nil => exact .done
  | cons => exact .more _

theorem parseArgs_arguments (argv : List (List Char)) :
    parseArgs none .outside 0
        (argv.flatMap fun w => ' ' :: quote (needsQuoting w) (escape (needsQuoting w) 0 w)) =
      argv := by
  induction argv with
  | nil => rfl
  | cons w argv ih =>
    rw [List.flatMap_cons, List.cons_append, parseArgs_quote (follows_arguments argv), ih]

/-- The program name ends at the blank before the first argument, or at the end. -/
theorem parseProgram_follows (hrest : Follows rest) :
    (parseProgram false rest).1 = [] ∧
      parseArgs none .outside 0 (parseProgram false rest).2 = parseArgs none .outside 0 rest := by
  cases hrest <;> simp [parseProgram, parseArgs, isBlank, Quoting.past]

/-- The child gets the arguments it was started with. -/
theorem parse_buildCommandLine (program : List Char) (argv : List (List Char)) (h : '"' ∉ program) :
    parseCommandLine (buildCommandLine (program :: argv)) = program :: argv := by
  obtain ⟨hname, hargs⟩ := parseProgram_follows (follows_arguments argv)
  rw [parseCommandLine, buildCommandLine, parseProgram_quote h, hname, hargs, parseArgs_arguments,
    List.append_nil]

/-- A path with a blank, an empty argument, and one that ends in a backslash after a quote. -/
theorem parse_buildCommandLine_path :
    '"' ∉ "C:\\a b".toList ∧
      parseCommandLine (buildCommandLine ["C:\\a b".toList, [], "x\" y\\".toList]) =
        ["C:\\a b".toList, [], "x\" y\\".toList] :=
  ⟨by decide, parse_buildCommandLine _ _ (by decide)⟩

end Sintra.Process
