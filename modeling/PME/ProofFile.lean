import Mathlib.Data.List.TakeWhile
import Mathlib.Tactic

namespace PME

namespace ProofFile

/-- The messages of `parse_proof`, each with the number of the line. -/
inductive ParseError
  | lineTooLong (lineno : ℕ)
  | tooManyLiterals (lineno : ℕ)
  | invalidToken (token : List Char) (lineno : ℕ)
deriving DecidableEq

/-- The buffers of `parse_proof`. -/
def lineSize : ℕ := 1024

def maxLiterals : ℕ := 256

section Save

/-- `printf` with `%u`. -/
def digits (lit : UInt32) : List Char := Nat.toDigits 10 lit.toNat

def saveClause : List UInt32 → List Char
  | [] => []
  | [lit] => digits lit
  | lit :: lits => digits lit ++ ' ' :: saveClause lits

def saveProof (proof : List (List UInt32)) : List Char :=
  proof.flatMap fun cls ↦ saveClause cls ++ ['\n']

end Save

section Parse

def fgets : ℕ → List Char → List Char × List Char
  | 0, file => ([], file)
  | _ + 1, [] => ([], [])
  | n + 1, c :: file =>
    if c = '\n' then ([c], file)
    else (c :: (fgets n file).1, (fgets n file).2)

def strtok (line : List Char) : List (List Char) :=
  (line.splitOnP (· == ' ')).filter fun token ↦ !token.isEmpty

def isSpace (c : Char) : Bool := c == ' ' || decide ('\t' ≤ c ∧ c ≤ '\r')

def atol (token : List Char) : ℤ :=
  match token.dropWhile isSpace with
  | '-' :: token => -(Nat.ofDigitChars 10 (token.takeWhile Char.isDigit) 0 : ℤ)
  | '+' :: token => Nat.ofDigitChars 10 (token.takeWhile Char.isDigit) 0
  | token => Nat.ofDigitChars 10 (token.takeWhile Char.isDigit) 0

def parseTokens (lineno : ℕ) : ℕ → List (List Char) → Except ParseError (List UInt32)
  | _, [] => return []
  | n, token :: tokens => do
    if n ≥ maxLiterals then throw (.tooManyLiterals lineno)
    let aigID := UInt32.ofInt (atol token)
    if aigID = 0 then throw (.invalidToken token lineno)
    return aigID :: (← parseTokens lineno (n + 1) tokens)

def parseLine (lineno : ℕ) (line : List Char) : Except ParseError (List UInt32) := do
  let line := line.takeWhile (· != '\x00')
  if line.getLast? ≠ some '\n' then throw (.lineTooLong lineno)
  parseTokens lineno 0 (strtok line.dropLast)

def parseLines : ℕ → ℕ → List Char → Except ParseError (List (List UInt32))
  | 0, _, _ => return []
  | n + 1, lineno, file => do
    if file.isEmpty then return []
    let (line, file) := fgets (lineSize - 1) file
    let cls ← parseLine (lineno + 1) line
    return cls :: (← parseLines n (lineno + 1) file)

def parseProof (file : List Char) : Except ParseError (List (List UInt32)) :=
  parseLines file.length 0 file

end Parse

structure Readable (cls : List UInt32) : Prop where
  literals : cls.length ≤ maxLiterals
  line : (saveClause cls).length + 1 < lineSize
  nonzero : 0 ∉ cls

variable {cls : List UInt32} {lit : UInt32} {lineno : ℕ} {proof : List (List UInt32)}

theorem isDigit_digits {c : Char} (hc : c ∈ digits lit) : c.isDigit = true :=
  Nat.isDigit_of_mem_toDigits (by decide) le_rfl hc

theorem ne_of_isDigit {c d : Char} (hc : c.isDigit = true) (hd : d.isDigit = false) : c ≠ d := by
  intro h
  rw [h, hd] at hc
  exact Bool.false_ne_true hc

theorem mem_saveClause {c : Char} (hc : c ∈ saveClause cls) : c.isDigit = true ∨ c = ' ' := by
  induction cls with
  | nil => exact absurd hc List.not_mem_nil
  | cons lit lits ih =>
    cases lits with
    | nil => exact .inl (isDigit_digits hc)
    | cons lit' lits =>
      obtain hc | hc := List.mem_append.mp hc
      · exact .inl (isDigit_digits hc)
      · cases List.mem_cons.mp hc with
        | inl heq => exact .inr heq
        | inr hc => exact ih hc

theorem not_mem_saveClause {c : Char} (hc : c.isDigit = false) (hspace : c ≠ ' ') :
    c ∉ saveClause cls := by
  intro hmem
  cases mem_saveClause hmem with
  | inl hdigit => exact ne_of_isDigit hdigit hc rfl
  | inr heq => exact hspace heq

theorem atol_digits : atol (digits lit) = lit.toNat := by
  have hvalue : Nat.ofDigitChars 10 ((digits lit).takeWhile Char.isDigit) 0 = lit.toNat := by
    rw [List.takeWhile_eq_self_iff.mpr fun c hc ↦ isDigit_digits hc]
    exact Nat.ofDigitChars_ten_toDigits
  cases hl : digits lit with
  | nil => exact absurd hl Nat.toDigits_ne_nil
  | cons c token =>
    have hc : c.isDigit = true := isDigit_digits (hl ▸ List.mem_cons_self)
    have hdrop : (c :: token).dropWhile isSpace = c :: token := by
      refine List.dropWhile_cons_of_neg fun hspace ↦ ?_
      rw [isSpace, Bool.or_eq_true, beq_iff_eq, decide_eq_true_iff] at hspace
      cases hspace with
      | inl heq => exact ne_of_isDigit hc rfl heq
      | inr hrange =>
        simp only [Char.isDigit, Bool.and_eq_true, decide_eq_true_iff] at hc
        have hlow : 48 ≤ c.val.toNat := UInt32.le_iff_toNat_le.mp hc.1
        have hhigh : c.val.toNat ≤ 13 := UInt32.le_iff_toNat_le.mp hrange.2
        omega
    have hminus : c ≠ '-' := ne_of_isDigit hc rfl
    have hplus : c ≠ '+' := ne_of_isDigit hc rfl
    rw [hl] at hvalue
    unfold atol
    rw [hdrop]
    split
    · next heq => exact absurd (List.cons.inj heq).1 hminus
    · next heq => exact absurd (List.cons.inj heq).1 hplus
    · rw [hvalue]

theorem ofInt_atol_digits : UInt32.ofInt (atol (digits lit)) = lit := by
  have hlt : lit.toNat < 4294967296 := lit.toNat_lt
  have hmod : ((lit.toNat : ℤ) % 4294967296).toNat = lit.toNat := by omega
  rw [atol_digits, UInt32.ofInt]
  exact (congrArg _ hmod).trans UInt32.ofNat_toNat

theorem strtok_saveClause : strtok (saveClause cls) = cls.map digits := by
  have hno : ∀ lit, ∀ c ∈ digits lit, (c == ' ') = false := fun lit c hc ↦
    beq_false_of_ne (ne_of_isDigit (isDigit_digits hc) rfl)
  have hkeep : ∀ lit, (!(digits lit).isEmpty) = true := fun lit ↦ by
    rw [Bool.not_eq_true', List.isEmpty_eq_false_iff]
    exact Nat.toDigits_ne_nil
  induction cls with
  | nil => rfl
  | cons lit lits ih =>
    cases lits with
    | nil =>
      rw [strtok, saveClause, List.splitOnP_eq_singleton (hno lit), List.filter_singleton, hkeep]
      rfl
    | cons lit' lits =>
      have hsplit : strtok (saveClause (lit :: lit' :: lits)) =
          digits lit :: strtok (saveClause (lit' :: lits)) := by
        change ((digits lit ++ ' ' :: saveClause (lit' :: lits)).splitOnP (· == ' ')).filter _ = _
        rw [List.splitOnP_append_cons_of_forall_mem (hno lit) _ rfl, List.filter_cons, hkeep,
          if_pos rfl]
        rfl
      rw [hsplit, ih]
      rfl

theorem parseTokens_cons (n : ℕ) (lits : List UInt32) :
    parseTokens lineno n ((lit :: lits).map digits) =
      if n ≥ maxLiterals then .error (.tooManyLiterals lineno)
      else if lit = 0 then .error (.invalidToken (digits lit) lineno)
      else (parseTokens lineno (n + 1) (lits.map digits)).map (lit :: ·) := by
  rw [List.map_cons, parseTokens, ofInt_atol_digits]
  by_cases hn : n ≥ maxLiterals
  · rw [if_pos hn, if_pos hn]
    rfl
  · rw [if_neg hn, if_neg hn]
    by_cases hlit : lit = 0
    · rw [if_pos hlit]
      simp only [hlit, if_true]
      rfl
    · rw [if_neg hlit]
      simp only [hlit, if_false]
      cases parseTokens lineno (n + 1) (lits.map digits) with
      | ok lits' => rfl
      | error e => rfl

def ReadsBack {α : Type} (fits : Prop) (value : α) (read : Except ParseError α) : Prop :=
  fits ∧ read = .ok value ∨ ¬ fits ∧ ∃ e, read = .error e

theorem ReadsBack.cons {α : Type} {fits fits' : Prop} {a : α} {l : List α}
    {read : Except ParseError (List α)} (h : ReadsBack fits l read) (hfits : fits' ↔ fits) :
    ReadsBack fits' (a :: l) (read.map (a :: ·)) := by
  obtain ⟨hyes, rfl⟩ | ⟨hno, e, rfl⟩ := h
  · exact .inl ⟨hfits.mpr hyes, rfl⟩
  · exact .inr ⟨mt hfits.mp hno, e, rfl⟩

/-- The literals of a line are read back as long as there is room, and none is zero. -/
theorem parseTokens_digits {n : ℕ} (hn : n ≤ maxLiterals) :
    ReadsBack (n + cls.length ≤ maxLiterals ∧ 0 ∉ cls) cls
      (parseTokens lineno n (cls.map digits)) := by
  induction cls generalizing n with
  | nil => exact .inl ⟨⟨hn, List.not_mem_nil⟩, rfl⟩
  | cons lit lits ih =>
    rw [parseTokens_cons]
    by_cases hfull : n ≥ maxLiterals
    · rw [if_pos hfull]
      refine .inr ⟨fun h ↦ ?_, _, rfl⟩
      have hlen := h.1
      rw [List.length_cons] at hlen
      omega
    · rw [if_neg hfull]
      by_cases hlit : lit = 0
      · rw [if_pos hlit]
        exact .inr ⟨fun h ↦ h.2 (hlit ▸ List.mem_cons_self), _, rfl⟩
      · rw [if_neg hlit]
        refine (ih (Nat.lt_of_not_ge hfull)).cons ?_
        rw [List.length_cons, List.mem_cons, not_or, Nat.succ_add_eq_add_succ]
        exact and_congr_right fun _ ↦ ⟨And.right, fun h ↦ ⟨Ne.symm hlit, h⟩⟩

theorem fgets_line {n : ℕ} {line file : List Char} (hline : '\n' ∉ line) (hn : line.length < n) :
    fgets n (line ++ '\n' :: file) = (line ++ ['\n'], file) := by
  induction line generalizing n with
  | nil =>
    obtain ⟨n, rfl⟩ : ∃ k, n = k + 1 := ⟨n - 1, by omega⟩
    rfl
  | cons c line ih =>
    obtain ⟨n, rfl⟩ : ∃ k, n = k + 1 := ⟨n - 1, by omega⟩
    have hc : c ≠ '\n' := fun h ↦ hline (h ▸ List.mem_cons_self)
    have hrest := ih (fun h ↦ hline (List.mem_cons_of_mem c h)) (Nat.lt_of_succ_lt_succ hn)
    rw [List.cons_append, fgets, if_neg hc, hrest]
    rfl

theorem fgets_long {n : ℕ} {line : List Char} (file : List Char) (hline : '\n' ∉ line)
    (hn : n ≤ line.length) :
    (fgets n (line ++ file)).1 = line.take n := by
  induction line generalizing n with
  | nil =>
    obtain rfl : n = 0 := Nat.le_zero.mp hn
    rfl
  | cons c line ih =>
    cases n with
    | zero => rfl
    | succ n =>
      have hc : c ≠ '\n' := fun h ↦ hline (h ▸ List.mem_cons_self)
      have hrest := ih (fun h ↦ hline (List.mem_cons_of_mem c h)) (Nat.le_of_succ_le_succ hn)
      rw [List.cons_append, fgets, if_neg hc, hrest, List.take_succ_cons]

theorem not_mem_newline : '\n' ∉ saveClause cls := not_mem_saveClause rfl (by decide)

theorem parseLine_saved (lineno : ℕ) (cls : List UInt32) : ReadsBack (cls.length ≤ maxLiterals ∧ 0 ∉ cls) cls
    (parseLine lineno (saveClause cls ++ ['\n'])) := by
  have hnull : (saveClause cls ++ ['\n']).takeWhile (· != '\x00') = saveClause cls ++ ['\n'] := by
    refine List.takeWhile_eq_self_iff.mpr fun c hc ↦ bne_iff_ne.mpr ?_
    intro heq
    cases List.mem_append.mp (heq ▸ hc) with
    | inl hc => exact not_mem_saveClause rfl (by decide) hc
    | inr hc => exact absurd (List.mem_singleton.mp hc) (by decide)
  have hread : parseLine lineno (saveClause cls ++ ['\n']) =
      parseTokens lineno 0 (cls.map digits) := by
    unfold parseLine
    rw [hnull]
    dsimp only
    rw [List.getLast?_append_cons, List.dropLast_concat, strtok_saveClause]
    exact if_neg (absurd rfl)
  rw [hread, ← Nat.zero_add cls.length]
  exact parseTokens_digits (Nat.zero_le _)

theorem parseLines_cons {n : ℕ} {file : List Char} :
    parseLines (n + 1) lineno (saveClause cls ++ '\n' :: file) =
      if (saveClause cls).length + 1 < lineSize then
        parseLine (lineno + 1) (saveClause cls ++ ['\n']) >>= fun cls' ↦
          (parseLines n (lineno + 1) file).map (cls' :: ·)
      else .error (.lineTooLong (lineno + 1)) := by
  have hempty : (saveClause cls ++ '\n' :: file).isEmpty = false := by
    rw [List.isEmpty_eq_false_iff]
    exact List.append_ne_nil_of_right_ne_nil _ (List.cons_ne_nil _ _)
  rw [parseLines, hempty, if_neg Bool.false_ne_true]
  by_cases hfits : (saveClause cls).length + 1 < lineSize
  · rw [if_pos hfits, fgets_line not_mem_newline (Nat.lt_sub_of_add_lt hfits)]
    rfl
  · have hle : lineSize - 1 ≤ (saveClause cls).length := by omega
    have hread := fgets_long ('\n' :: file) not_mem_newline hle
    have hlast : (((saveClause cls).take (lineSize - 1)).takeWhile (· != '\x00')).getLast? ≠
        some '\n' := by
      intro h
      have hmem := (List.takeWhile_prefix _).subset (List.mem_of_getLast? h)
      exact not_mem_newline (List.mem_of_mem_take hmem)
    rw [if_neg hfits]
    generalize fgets (lineSize - 1) (saveClause cls ++ '\n' :: file) = p at hread ⊢
    obtain ⟨line, rest⟩ := p
    dsimp only at hread ⊢
    rw [hread, parseLine, if_pos hlast]
    rfl

theorem saveProof_cons : saveProof (cls :: proof) = saveClause cls ++ '\n' :: saveProof proof :=
  (List.flatMap_cons ..).trans (List.append_assoc _ _ _)

theorem parseLines_saved (lineno : ℕ) (proof : List (List UInt32)) {n : ℕ}
    (hn : (saveProof proof).length ≤ n) :
    ReadsBack (∀ cls ∈ proof, Readable cls) proof (parseLines n lineno (saveProof proof)) := by
  induction proof generalizing n lineno with
  | nil =>
    refine .inl ⟨fun _ hc ↦ absurd hc List.not_mem_nil, ?_⟩
    cases n with
    | zero => rfl
    | succ n => rfl
  | cons cls proof ih =>
    rw [saveProof_cons, List.length_append, List.length_cons] at hn
    obtain ⟨n, rfl⟩ : ∃ k, n = k + 1 := ⟨n - 1, by omega⟩
    have hrest := ih (lineno + 1) (by omega : (saveProof proof).length ≤ n)
    rw [saveProof_cons, parseLines_cons]
    split
    · next hline =>
      obtain ⟨hfits, heq⟩ | ⟨hno, e, heq⟩ := parseLine_saved (lineno + 1) cls
      · rw [heq]
        refine hrest.cons ?_
        rw [List.forall_mem_cons]
        exact ⟨And.right, fun h ↦ ⟨⟨hfits.1, hline, hfits.2⟩, h⟩⟩
      · rw [heq]
        refine .inr ⟨fun h ↦ hno ?_, e, rfl⟩
        have hcls := h cls List.mem_cons_self
        exact ⟨hcls.literals, hcls.nonzero⟩
    · next hline => exact .inr ⟨fun h ↦ hline (h cls List.mem_cons_self).line, _, rfl⟩

/-- The round trip works exactly for clauses that fit. Any other proof is refused, so that nothing
is read that was not saved. -/
theorem parse_saved (proof : List (List UInt32)) :
    (parseProof (saveProof proof) = .ok proof ↔ ∀ cls ∈ proof, Readable cls) ∧
      (¬ (∀ cls ∈ proof, Readable cls) → ∃ e, parseProof (saveProof proof) = .error e) := by
  obtain ⟨hfits, heq⟩ | ⟨hno, e, heq⟩ := parseLines_saved 0 proof le_rfl
  · exact ⟨⟨fun _ ↦ hfits, fun _ ↦ heq⟩, absurd hfits⟩
  · exact ⟨⟨fun h ↦ (nomatch h.symm.trans heq), fun h ↦ absurd h hno⟩, fun _ ↦ ⟨e, heq⟩⟩

/-- A clause of one literal more than the buffer holds. -/
theorem parse_saved_fails : ¬ ∀ proof, parseProof (saveProof proof) = .ok proof := by
  intro h
  obtain ⟨hfits, -⟩ | ⟨-, e, heq⟩ :=
    parseLines_saved 0 [List.replicate 257 2] le_rfl
  · have hlen := (hfits _ (List.mem_singleton_self _)).literals
    rw [List.length_replicate] at hlen
    exact absurd hlen (by decide)
  · have hok := h [List.replicate 257 2]
    rw [parseProof, heq] at hok
    exact nomatch hok

end ProofFile

end PME
