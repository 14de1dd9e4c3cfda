import Mathlib

/-!
# The text of a cleanup domain

A private directory names the boot and the namespaces in which the process ids recorded there have a
meaning. `contents` writes this domain and `parse` reads it back, line by line (`getline`). The numbers go
through `stoull`, which also takes blanks, signs and leading zeros; the reader undoes that by writing the
number again.

Sources without a file name are in `process_utils.h`.
-/

namespace Sintra.Ipc.Cleanup

/-- Source: `Process_metadata_state` -/
inductive MetadataState
  | unknown
  | absent
  | valid
  deriving DecidableEq

/-- Source: `process_namespace_t` -/
structure ProcessNamespace where
  state : MetadataState
  device : UInt64
  inode : UInt64
  deriving DecidableEq

/-- Source: `Cleanup_domain` -/
structure CleanupDomain where
  bootId : List Char
  pid : ProcessNamespace
  time : ProcessNamespace
  deriving DecidableEq

/-! ### Writing -/

/-- `std::to_string` -/
def toText (n : UInt64) : List Char := Nat.toDigits 10 n.toNat

/-- Source: `private_cleanup_domain_contents`, `namespace_value` -/
def namespaceValue (value : ProcessNamespace) : List Char :=
  if value.state = .absent then "absent".toList else toText value.device ++ ':' :: toText value.inode

/-- The first line, and how the others begin. -/
def versionLine : List Char := "sintra-cleanup-domain=1".toList
def bootKey : List Char := "boot=".toList
def pidKey : List Char := "pid=".toList
def timeKey : List Char := "time=".toList

/-- Source: `private_cleanup_domain_contents` -/
def contents (domain : CleanupDomain) : List Char :=
  versionLine ++ '\n' :: bootKey ++ domain.bootId ++ '\n' :: pidKey ++ namespaceValue domain.pid ++
    '\n' :: timeKey ++ namespaceValue domain.time ++ ['\n']

/-! ### Reading -/

/-- `std::getline`: a line and what follows it, or nothing at the end of the input. -/
def getline (input : List Char) : Option (List Char × List Char) :=
  if input = [] then none
  else some (input.takeWhile (· != '\n'), (input.dropWhile (· != '\n')).tail)

/-- `std::isspace` -/
def isSpace (c : Char) : Bool := c = ' ' || (9 ≤ c.toNat && c.toNat ≤ 13)

/-- `std::isxdigit` -/
def isXDigit (c : Char) : Bool :=
  c.isDigit || ('a' ≤ c && c ≤ 'f') || ('A' ≤ c && c ≤ 'F')

/-- `std::stoull`: the value and the number of characters taken, or nothing where it throws. -/
def stoull (text : List Char) : Option (UInt64 × ℕ) :=
  let signed := text.dropWhile isSpace
  let unsigned := if signed.head? = some '-' ∨ signed.head? = some '+' then signed.tail else signed
  let digits := unsigned.takeWhile Char.isDigit
  let value := Nat.ofDigitChars 10 digits 0
  if digits = [] ∨ 2 ^ 64 ≤ value then none
  else
    some (if signed.head? = some '-' then -UInt64.ofNat value else UInt64.ofNat value,
      text.length - unsigned.length + digits.length)

/-- Source: `parse_private_cleanup_domain`, `parse_namespace` -/
def parseNamespace (text : List Char) : Option ProcessNamespace :=
  if text = "absent".toList then some ⟨.absent, 0, 0⟩
  else
    let separator := text.idxOf ':'
    if separator = text.length ∨ ':' ∈ text.drop (separator + 1) then none
    else do
      let (device, first) ← stoull (text.take separator)
      let (inode, second) ← stoull (text.drop (separator + 1))
      if first ≠ separator ∨ second ≠ text.length - separator - 1 ∨ device = 0 ∨ inode = 0 then none
      else if toText device ++ ':' :: toText inode ≠ text then none
      else some ⟨.valid, device, inode⟩

/-- The loop over the characters of a boot id. -/
def uuidShape (bootId : List Char) : Bool :=
  bootId.zipIdx.all fun (c, i) =>
    if i = 8 ∨ i = 13 ∨ i = 18 ∨ i = 23 then c = '-' else isXDigit c

/-- A line that begins with `key`, without it. -/
def getField (key input : List Char) : Option (List Char × List Char) := do
  let (line, rest) ← getline input
  guard (key <+: line)
  return (line.drop key.length, rest)

/-- Source: `parse_private_cleanup_domain` -/
def parse (contents : List Char) : Option CleanupDomain := do
  let (version, input) ← getline contents
  guard (version = versionLine)
  let (bootId, input) ← getField bootKey input
  let (pid, input) ← getField pidKey input
  let (time, input) ← getField timeKey input
  guard (getline input = none)
  let parsedPid ← parseNamespace pid
  let parsedTime ← parseNamespace time
  -- the line of the boot id has 41 characters
  guard (bootId.length = 36)
  guard (uuidShape bootId)
  return ⟨bootId, parsedPid, parsedTime⟩

/-! ### Namespaces -/

/-- A namespace that is absent has no device and no inode, one that is valid has both. -/
def ProcessNamespace.Valid (value : ProcessNamespace) : Prop :=
  value = ⟨.absent, 0, 0⟩ ∨ value.state = .valid ∧ value.device ≠ 0 ∧ value.inode ≠ 0

variable {n : UInt64} {c : Char} {text : List Char} {value : ProcessNamespace}

theorem isDigit_of_mem_toText (h : c ∈ toText n) : c.isDigit = true :=
  Nat.isDigit_of_mem_toDigits (by decide) (by decide) h

theorem not_mem_toText (hc : c.isDigit = false) : c ∉ toText n := by
  intro h
  rw [isDigit_of_mem_toText h] at hc
  cases hc

theorem not_isSpace (hc : c.isDigit = true) : ¬isSpace c = true := by
  have h48 : 48 ≤ c.toNat := by
    simp only [Char.isDigit, ge_iff_le, Bool.and_eq_true, decide_eq_true_eq] at hc
    exact hc.1
  intro hspace
  simp only [isSpace, Bool.or_eq_true, Bool.and_eq_true, decide_eq_true_eq] at hspace
  rcases hspace with rfl | hspace
  · cases hc
  · omega

/-- A written number is read in full: it starts with a digit, and all of it are digits. -/
theorem stoull_toText (n : UInt64) : stoull (toText n) = some (n, (toText n).length) := by
  have hdigits : (toText n).takeWhile Char.isDigit = toText n :=
    List.takeWhile_eq_self_iff.2 fun c => isDigit_of_mem_toText
  have hvalue : Nat.ofDigitChars 10 (toText n) 0 = n.toNat :=
    Nat.ofDigitChars_toDigits (by decide) (by decide)
  have hsigned : (toText n).dropWhile isSpace = toText n := by
    refine List.dropWhile_eq_self_iff.2 fun hpos => ?_
    exact not_isSpace (isDigit_of_mem_toText (List.getElem_mem hpos))
  have hminus : (toText n).head? ≠ some '-' :=
    fun h => not_mem_toText (by decide) (List.mem_of_head? h)
  have hplus : (toText n).head? ≠ some '+' :=
    fun h => not_mem_toText (by decide) (List.mem_of_head? h)
  have hne : toText n ≠ [] := Nat.toDigits_ne_nil
  have hlt : ¬2 ^ 64 ≤ n.toNat := Nat.not_le.2 n.toNat_lt
  simp only [stoull, hsigned, hminus, hplus, hdigits, hvalue, hne, hlt, or_self, ↓reduceIte,
    UInt64.ofNat_toNat, Nat.sub_self, Nat.zero_add]

/-- Two written numbers are taken apart at the only colon. -/
theorem parseNamespace_pair {device inode : UInt64} (hdevice : device ≠ 0) (hinode : inode ≠ 0) :
    parseNamespace (toText device ++ ':' :: toText inode) = some ⟨.valid, device, inode⟩ := by
  have hcolon : ∀ m, ':' ∉ toText m := fun m => not_mem_toText (by decide)
  have habsent : toText device ++ ':' :: toText inode ≠ "absent".toList := by
    intro h
    have hmem : ':' ∈ "absent".toList := h ▸ List.mem_append_right _ List.mem_cons_self
    exact absurd hmem (by decide)
  have hseparator : (toText device ++ ':' :: toText inode).idxOf ':' = (toText device).length := by
    rw [List.idxOf_append_of_notMem (hcolon _), List.idxOf_cons_self, Nat.add_zero]
  rw [parseNamespace, if_neg habsent]
  simp [hseparator, hcolon, stoull_toText, hdevice, hinode]

/-- **Namespaces.** -/
theorem parseNamespace_eq_some :
    parseNamespace text = some value ↔ value.Valid ∧ text = namespaceValue value := by
  constructor
  · intro h
    simp only [parseNamespace] at h
    split_ifs at h with habsent
    · cases h
      exact ⟨.inl rfl, habsent⟩
    · obtain ⟨⟨device, first⟩, -, h⟩ := Option.bind_eq_some_iff.1 h
      obtain ⟨⟨inode, second⟩, -, h⟩ := Option.bind_eq_some_iff.1 h
      split_ifs at h with hbad hsame
      cases h
      simp only [not_or, not_not] at hbad hsame
      exact ⟨.inr ⟨rfl, hbad.2.2⟩, hsame.symm⟩
  · obtain ⟨state, device, inode⟩ := value
    rintro ⟨habsent | ⟨rfl, hdevice, hinode⟩, rfl⟩
    · cases habsent
      rfl
    · exact parseNamespace_pair hdevice hinode

/-! ### Lines -/

variable {line input rest t : List Char} {d : CleanupDomain}

theorem getline_eq_none : getline input = none ↔ input = [] := by
  simp [getline]

theorem bne_of_not_mem (hline : '\n' ∉ line) : ∀ c ∈ line, (c != '\n') = true :=
  fun _ hc => bne_iff_ne.2 (ne_of_mem_of_not_mem hc hline)

theorem getline_newline (hline : '\n' ∉ line) : getline (line ++ '\n' :: rest) = some (line, rest) := by
  rw [getline, if_neg (by simp), List.takeWhile_append_of_pos (bne_of_not_mem hline),
    List.dropWhile_append_of_pos (bne_of_not_mem hline)]
  simp

theorem getline_last (hline : '\n' ∉ line) (hne : line ≠ []) : getline line = some (line, []) := by
  rw [getline, if_neg hne, List.takeWhile_eq_self_iff.2 (bne_of_not_mem hline),
    List.dropWhile_eq_nil_iff.2 (bne_of_not_mem hline), List.tail_nil]

/-- A line ends with a newline or with the input. -/
theorem of_getline (h : getline input = some (line, rest)) :
    input = line ++ '\n' :: rest ∨ input = line ∧ rest = [] := by
  simp only [getline] at h
  split_ifs at h
  cases h
  have hsplit := input.takeWhile_append_dropWhile (p := (· != '\n'))
  cases hrest : input.dropWhile (· != '\n') with
  | nil =>
    rw [hrest, List.append_nil] at hsplit
    exact .inr ⟨hsplit.symm, rfl⟩
  | cons c cs =>
    have hc := List.head?_dropWhile_not (· != '\n') input
    rw [hrest, List.head?_cons] at hc
    obtain rfl : c = '\n' := by simpa using hc
    rw [hrest] at hsplit
    exact .inl hsplit.symm

/-- A line that another one follows ends with a newline. -/
theorem of_getline_more {next : List Char × List Char} (h : getline input = some (line, rest))
    (hnext : getline rest = some next) : input = line ++ '\n' :: rest := by
  refine (of_getline h).resolve_right ?_
  rintro ⟨-, rfl⟩
  cases hnext

theorem getField_eq_some {key : List Char} :
    getField key input = some (text, rest) ↔ getline input = some (key ++ text, rest) := by
  simp only [getField, Option.bind_eq_bind, Option.bind_eq_some_iff, Option.guard_eq_some', Prod.exists,
    exists_const]
  constructor
  · rintro ⟨_, _, h, ⟨text, rfl⟩, heq⟩
    rw [List.drop_left] at heq
    cases heq
    exact h
  · intro h
    exact ⟨_, _, h, ⟨_, rfl⟩, by rw [List.drop_left]; rfl⟩

/-! ### Domains -/

/-- The boot id has the shape of a UUID. -/
structure CleanupDomain.Valid (d : CleanupDomain) : Prop where
  length : d.bootId.length = 36
  shape : uuidShape d.bootId = true
  pid : d.pid.Valid
  time : d.time.Valid

/-- The lines of a domain, the last of which goes on with `rest`. -/
def lines (d : CleanupDomain) (rest : List Char) : List Char :=
  versionLine ++ '\n' :: (bootKey ++ d.bootId ++ '\n' ::
    (pidKey ++ namespaceValue d.pid ++ '\n' :: (timeKey ++ namespaceValue d.time ++ rest)))

theorem contents_eq (d : CleanupDomain) : contents d = lines d ['\n'] := by
  simp only [contents, lines, List.append_assoc, List.cons_append]

theorem not_mem_namespaceValue (value : ProcessNamespace) : '\n' ∉ namespaceValue value := by
  have hnone : ∀ m, '\n' ∉ toText m := fun m => not_mem_toText (by decide)
  unfold namespaceValue
  split_ifs
  · decide
  · simp [hnone]

theorem not_mem_bootId (h : uuidShape text = true) : '\n' ∉ text := by
  intro hmem
  obtain ⟨i, hi⟩ := List.mem_iff_getElem?.1 hmem
  have hall := List.all_eq_true.1 h ('\n', i) (by simpa [List.mem_zipIdx_iff_getElem?] using hi)
  revert hall
  dsimp only
  split_ifs <;> decide

theorem not_mem_line (key : List Char) (hkey : '\n' ∉ key) (htext : '\n' ∉ text) :
    '\n' ∉ key ++ text := by
  simp [hkey, htext]

/-- **Domains.** A domain is read from its lines, with or without the last newline. -/
theorem parse_eq_some :
    parse t = some d ↔ d.Valid ∧ ∃ rest, (rest = [] ∨ rest = ['\n']) ∧ t = lines d rest := by
  simp only [parse, Option.bind_eq_bind, Option.bind_eq_some_iff, Option.guard_eq_some', Prod.exists,
    exists_const, getline_eq_none, getField_eq_some, parseNamespace_eq_some]
  constructor
  · rintro ⟨_, i₁, h₁, rfl, boot, i₂, h₂, _, i₃, h₃, _, _, h₄, rfl, pid, ⟨hpid, rfl⟩, time, ⟨htime, rfl⟩,
      hlength, hshape, hd⟩
    cases hd
    refine ⟨⟨hlength, hshape, hpid, htime⟩, ?_⟩
    rw [of_getline_more h₁ h₂, of_getline_more h₂ h₃, of_getline_more h₃ h₄]
    rcases of_getline h₄ with rfl | ⟨rfl, -⟩
    · exact ⟨['\n'], .inr rfl, rfl⟩
    · exact ⟨[], .inl rfl, by rw [lines, List.append_nil]⟩
  · rintro ⟨hd, rest, hrest, rfl⟩
    have hversion : '\n' ∉ versionLine := by decide
    have hboot := not_mem_line bootKey (by decide) (not_mem_bootId hd.shape)
    have hpid := not_mem_line pidKey (by decide) (not_mem_namespaceValue d.pid)
    have htime := not_mem_line timeKey (by decide) (not_mem_namespaceValue d.time)
    have hlast : getline (timeKey ++ namespaceValue d.time ++ rest) =
        some (timeKey ++ namespaceValue d.time, []) := by
      rcases hrest with rfl | rfl
      · rw [List.append_nil]
        exact getline_last htime nofun
      · exact getline_newline htime
    exact ⟨_, _, getline_newline hversion, rfl, _, _, getline_newline hboot, _, _, getline_newline hpid, _, _,
      hlast, rfl, d.pid, ⟨hd.pid, rfl⟩, d.time, ⟨hd.time, rfl⟩, hd.length, hd.shape, rfl⟩

/-! ### Texts -/

theorem lines_eq (d : CleanupDomain) (rest : List Char) : lines d rest = lines d [] ++ rest := by
  simp only [lines, List.append_assoc, List.cons_append, List.nil_append]

/-- The last line does not end with a newline of its own. -/
theorem lines_ne (d : CleanupDomain) (x : List Char) : lines d [] ≠ x ++ ['\n'] := by
  intro h
  have hline := not_mem_line timeKey (by decide) (not_mem_namespaceValue d.time)
  have hsplit : lines d [] = versionLine ++ '\n' :: (bootKey ++ d.bootId ++ '\n' ::
      (pidKey ++ namespaceValue d.pid ++ ['\n'])) ++ (timeKey ++ namespaceValue d.time) := by
    simp [lines]
  have hlast := congrArg List.getLast? (hsplit.symm.trans h)
  have hne : timeKey ++ namespaceValue d.time ≠ [] := nofun
  rw [List.getLast?_append_of_ne_nil _ hne, List.getLast?_concat] at hlast
  exact hline (List.mem_of_getLast? hlast)

/-- A newline more at the end of an accepted text does not change the domain. -/
theorem domain_eq_of_newline {d' : CleanupDomain} (h : parse t = some d)
    (h' : parse (t ++ ['\n']) = some d') : d' = d := by
  obtain ⟨hd, rest, hrest, rfl⟩ := parse_eq_some.1 h
  rcases hrest with rfl | rfl
  · rw [← lines_eq, parse_eq_some.2 ⟨hd, _, .inr rfl, rfl⟩] at h'
    exact (Option.some.inj h').symm
  · obtain ⟨-, rest, hrest, heq⟩ := parse_eq_some.1 h'
    rcases hrest with rfl | rfl
    · exact absurd heq.symm (lines_ne d' _)
    · rw [lines_eq d', List.append_cancel_right_eq, lines_eq d] at heq
      exact absurd heq.symm (lines_ne d' _)

/-- The texts are equal, or one of them has a newline more at its end. -/
def SameText (a b : List Char) : Prop := a = b ∨ a ++ ['\n'] = b ∨ b ++ ['\n'] = a

/-- **Cleanup domains.** A valid domain is read back from the text written for it. A text that is read is,
up to one final newline, the text written for the domain, and two such texts denote the same domain if and
only if they are the same up to that newline. -/
theorem cleanup_domain_encoding :
    (∀ d : CleanupDomain, d.Valid → parse (contents d) = some d) ∧
    (∀ t d, parse t = some d → d.Valid ∧ (t = contents d ∨ t ++ ['\n'] = contents d)) ∧
    ∀ t t' d d', parse t = some d → parse t' = some d' → (d = d' ↔ SameText t t') := by
  refine ⟨?_, ?_, ?_⟩
  · intro d hd
    rw [contents_eq]
    exact parse_eq_some.2 ⟨hd, _, .inr rfl, rfl⟩
  · intro t d h
    obtain ⟨hd, rest, hrest, rfl⟩ := parse_eq_some.1 h
    rw [contents_eq]
    rcases hrest with rfl | rfl
    · exact ⟨hd, .inr (lines_eq d _).symm⟩
    · exact ⟨hd, .inl rfl⟩
  · intro t t' d d' h h'
    constructor
    · rintro rfl
      obtain ⟨-, rest, hrest, rfl⟩ := parse_eq_some.1 h
      obtain ⟨-, rest', hrest', rfl⟩ := parse_eq_some.1 h'
      rcases hrest with rfl | rfl <;> rcases hrest' with rfl | rfl
      · exact .inl rfl
      · exact .inr (.inl (lines_eq d _).symm)
      · exact .inr (.inr (lines_eq d _).symm)
      · exact .inl rfl
    · rintro (rfl | rfl | rfl)
      · exact Option.mem_unique h h'
      · exact (domain_eq_of_newline h h').symm
      · exact domain_eq_of_newline h' h

/-- A domain without a time namespace. -/
def oldKernel : CleanupDomain where
  bootId := "8a0e7ad1-53c1-4c5e-9f4b-0d2f6a1b7c33".toList
  pid := ⟨.valid, 4, 4026531836⟩
  time := ⟨.absent, 0, 0⟩

theorem cleanup_domain_encoding_oldKernel : parse (contents oldKernel) = some oldKernel :=
  cleanup_domain_encoding.1 oldKernel ⟨by decide, by decide, .inr ⟨rfl, by decide, by decide⟩, .inl rfl⟩

end Sintra.Ipc.Cleanup
