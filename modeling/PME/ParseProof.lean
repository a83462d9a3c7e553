import PME.ID
import PME.ProofFile
import PME.Lib.Outcome

namespace PME.ParseProof

open Outcome ProofFile

/-- A line that is neither empty nor a clause nor the heading ends `parseproof`. -/
inductive Failure
  | assertion
  | exception
  | badLine (lineno : ℕ) (line : List Char)
deriving DecidableEq

abbrev Result := Except Failure

def ensure (b : Bool) : Result Unit := if b then .ok () else .error .assertion

structure Symbol where
  lit : ℕ
  name : Option (List Char)

structure AIG where
  inputs : List Symbol
  latches : List Symbol

def defaultName (namePrefix : List Char) (index : ℕ) : List Char :=
  namePrefix ++ Nat.toDigits 10 index

def nameOf (namePrefix : List Char) (index : ℕ) (sym : Symbol) : List Char :=
  match sym.name with
  | some name => name
  | none => defaultName namePrefix index

structure Names where
  nameToID : List Char → ℕ
  idToName : ℕ → Option (List Char)

def noNames : Names := ⟨fun _ ↦ 0, fun _ ↦ none⟩

/-- The loop of `parse_symbols`, from symbol `i` on. Where a caller passes a null pointer, nothing
reads that map. -/
def parseSymbols (namePrefix : List Char) : ℕ → List Symbol → Names → Result Names
  | _, [], names => return names
  | i, sym :: syms, names => do
    ensure (sym.lit % 2 == 0)
    let name := nameOf namePrefix i sym
    ensure (!name.isEmpty)
    parseSymbols namePrefix (i + 1) syms
      ⟨Function.update names.nameToID name sym.lit,
        Function.update names.idToName sym.lit (some name)⟩

/-- The lines that `std::getline` reads. -/
def getlines : List Char → List (List Char)
  | [] => []
  | c :: file =>
    if c = '\n' then [] :: getlines file
    else
      match getlines file with
      | [] => [[c]]
      | line :: lines => (c :: line) :: lines

/-- `iss >> disjunct` for an `unsigned`, and what is left. -/
def readUnsigned (s : List Char) : Option (ℕ × List Char) :=
  let (neg, s) := match s.dropWhile isSpace with
    | '-' :: s => (true, s)
    | '+' :: s => (false, s)
    | s => (false, s)
  let digits := s.takeWhile Char.isDigit
  let value := Nat.ofDigitChars 10 digits 0
  if digits.isEmpty ∨ 2 ^ 32 ≤ value then none
  else some (if neg then (2 ^ 32 - value) % 2 ^ 32 else value, s.dropWhile Char.isDigit)

def readLiterals : ℕ → List Char → List ℕ
  | 0, _ => []
  | n + 1, s =>
    match readUnsigned s with
    | some (lit, s) => lit :: readLiterals n s
    | none => []

def pmeClause (line : List Char) : List ℕ := readLiterals line.length line

def pmeClauses (file : List Char) : List (List ℕ) := (getlines file).map pmeClause

def nameLiteral (names : Names) (disjunct : ℕ) : Result (List Char) :=
  match names.idToName (disjunct - disjunct % 2) with
  | some str => return if disjunct % 2 = 1 then '!' :: str else str
  | none => throw .exception

def parsePME (aig : AIG) (file : List Char) : Result (List (List (List Char))) := do
  let names ← parseSymbols ['l'] 0 aig.latches noNames
  (pmeClauses file).mapM fun cls ↦ cls.mapM (nameLiteral names)

def printClause (i : ℕ) (cls : List (List Char)) : List Char :=
  ['C', 'l', 'a', 'u', 's', 'e', ' '] ++ Nat.toDigits 10 i ++ [':', ' '] ++ cls.flatMap (· ++ [' '])

/-- What `main` prints. The loop counts clauses by an `unsigned`, and never ends when there are too
many. -/
def printPME (pp : List (List (List Char))) : Option (List Char) :=
  if pp.length < 2 ^ 32 then some (pp.zipIdx.flatMap fun p ↦ printClause p.2 p.1 ++ ['\n']) else none

def tokens (line : List Char) : List (List Char) :=
  (line.splitOnP isSpace).filter fun token ↦ !token.isEmpty

/-- `none` is a line that is skipped because a name is unmapped. -/
def parseDisjuncts (names : Names) : List (List Char) → Result (Option (List ℕ))
  | [] => return some []
  | disjunct :: disjuncts => do
    let neg := disjunct.head? == some '!'
    ensure (!neg || disjunct.length > 1)
    let id := names.nameToID (if neg then disjunct.tail else disjunct)
    if id = 0 then return none
    let cls ← parseDisjuncts names disjuncts
    return cls.map ((if neg then negate id else id) :: ·)

def ignorable : List Char := "One-step Inductive Strengthening of Property (in CNF):".toList

def removeFromLine : List Char := "Clause".toList

/-- Where the text after the colon begins. `npos + 2` is 1. -/
def clauseStart (line : List Char) : ℕ := if ':' ∈ line then line.idxOf ':' + 2 else 1

/-- The lines of a proof from line `lineno + 1` on. -/
def parseLines (names : Names) : ℕ → List (List Char) → Result (List (List ℕ))
  | _, [] => return []
  | lineno, line :: lines => do
    let cls ← (if removeFromLine.isPrefixOf line then do
        ensure (clauseStart line ≤ line.length)
        parseDisjuncts names (tokens (line.drop (clauseStart line)))
      else if line ≠ [] ∧ line ≠ ignorable then throw (.badLine (lineno + 1) line)
      else return none)
    return cls.toList ++ (← parseLines names (lineno + 1) lines)

def parseProof (aig : AIG) (file : List Char) : Result (List (List ℕ)) := do
  let names ← parseSymbols ['i'] 0 aig.inputs noNames
  let names ← parseSymbols ['l'] 0 aig.latches names
  parseLines names 0 (getlines file)

/-- The clauses of a `.pme` file, printed by name and read back, if the printing ends. -/
def convertBack (aig : AIG) (file : List Char) : Result (Option (List (List ℕ))) := do
  let pp ← parsePME aig file
  match printPME pp with
  | none => return none
  | some text => return some (← parseProof aig text)

structure AIG.WellFormed (aig : AIG) : Prop where
  isVar : ∀ sym ∈ aig.inputs ++ aig.latches, sym.lit % 2 = 0 ∧ sym.lit ≠ 0 ∧ sym.name ≠ some []
  distinct : (aig.latches.map Symbol.lit).Nodup

structure Plain (name : List Char) : Prop where
  nonempty : name ≠ []
  noSpace : ∀ c ∈ name, isSpace c = false
  noNegation : name.head? ≠ some '!'

structure Entered (namePrefix : List Char) (i : ℕ) (syms : List Symbol) (names names' : Names) :
    Prop where
  last : ∀ name, (∃ (j : ℕ) (sym : Symbol), syms[j]? = some sym ∧ nameOf namePrefix (i + j) sym = name ∧
      names'.nameToID name = sym.lit ∧ ∀ (j' : ℕ) (sym' : Symbol), j < j' → syms[j']? = some sym' →
        nameOf namePrefix (i + j') sym' ≠ name) ∨
    (∀ (j : ℕ) (sym : Symbol), syms[j]? = some sym → nameOf namePrefix (i + j) sym ≠ name) ∧
      names'.nameToID name = names.nameToID name
  named : (syms.map Symbol.lit).Nodup → ∀ (j : ℕ) (sym : Symbol), syms[j]? = some sym →
    names'.idToName sym.lit = some (nameOf namePrefix (i + j) sym)
  kept : ∀ lit ∉ syms.map Symbol.lit, names'.idToName lit = names.idToName lit

variable {aig : AIG} {file line : List Char} {names names' : Names} {namePrefix : List Char}
  {fail : Failure → Prop} {i lit : ℕ} {sym : Symbol} {syms : List Symbol} {cls : List ℕ}

theorem parseSymbols_meets (h : ∀ sym ∈ syms, sym.lit % 2 = 0 ∧ sym.lit ≠ 0 ∧ sym.name ≠ some [])
    (hpre : namePrefix ≠ []) (i : ℕ) (names : Names) :
    Meets (Entered namePrefix i syms names) fail (parseSymbols namePrefix i syms names) := by
  induction syms generalizing i names with
  | nil => exact ⟨fun name ↦ .inr ⟨nofun, rfl⟩, nofun, fun _ _ ↦ rfl⟩
  | cons sym syms ih =>
    obtain ⟨⟨heven, -, hname⟩, hsyms⟩ := List.forall_mem_cons.mp h
    have hne : nameOf namePrefix i sym ≠ [] := by
      rw [nameOf]
      cases hn : sym.name with
      | some name => exact fun heq ↦ hname (hn.trans (congrArg some heq))
      | none => exact List.append_ne_nil_of_left_ne_nil hpre _
    have hcheck : (!(nameOf namePrefix i sym).isEmpty) = true := by
      rw [Bool.not_eq_true', List.isEmpty_eq_false_iff]
      exact hne
    unfold parseSymbols
    rw [heven]
    dsimp only
    rw [hcheck]
    refine (ih hsyms (i + 1) _).imp fun names' hn ↦ ?_
    have hshift : ∀ j, i + 1 + j = i + (j + 1) := fun j ↦ by omega
    refine ⟨fun name ↦ ?_, fun hnodup j sym' hj ↦ ?_, fun lit hlit ↦ ?_⟩
    · obtain ⟨j, sym', hj, hname', hid, hlater⟩ | ⟨hno, hid⟩ := hn.last name
      · refine .inl ⟨j + 1, sym', hj, hshift j ▸ hname', hid, fun j' sym'' hlt hj' ↦ ?_⟩
        obtain ⟨k, rfl⟩ : ∃ k, j' = k + 1 := ⟨j' - 1, by omega⟩
        exact hshift k ▸ hlater k sym'' (by omega) hj'
      · by_cases heq : nameOf namePrefix i sym = name
        · refine .inl ⟨0, sym, rfl, heq, ?_, fun j' sym'' hlt hj' ↦ ?_⟩
          · rw [hid, ← heq]
            exact Function.update_self ..
          · obtain ⟨k, rfl⟩ : ∃ k, j' = k + 1 := ⟨j' - 1, by omega⟩
            exact hshift k ▸ hno k sym'' hj'
        · refine .inr ⟨fun j sym'' hj ↦ ?_, ?_⟩
          · cases j with
            | zero =>
              cases Option.some_inj.mp hj
              exact heq
            | succ k => exact hshift k ▸ hno k sym'' hj
          · rw [hid]
            exact Function.update_of_ne (Ne.symm heq) ..
    · rw [List.map_cons] at hnodup
      obtain ⟨hnew, hnodup⟩ := List.nodup_cons.mp hnodup
      cases j with
      | zero =>
        cases Option.some_inj.mp hj
        rw [hn.kept _ hnew]
        exact Function.update_self ..
      | succ k => exact hshift k ▸ hn.named hnodup k sym' hj
    · rw [List.map_cons, List.mem_cons, not_or] at hlit
      rw [hn.kept lit hlit.2]
      exact Function.update_of_ne hlit.1 ..

theorem getlines_cons {line : List Char} (h : '\n' ∉ line) (file : List Char) :
    getlines (line ++ '\n' :: file) = line :: getlines file := by
  induction line with
  | nil => rfl
  | cons c line ih =>
    have hc : c ≠ '\n' := fun heq ↦ h (heq ▸ List.mem_cons_self)
    rw [List.cons_append, getlines, if_neg hc, ih fun hmem ↦ h (List.mem_cons_of_mem c hmem)]

theorem getlines_printed {lines : List (List Char)} (h : ∀ line ∈ lines, '\n' ∉ line) :
    getlines (lines.flatMap (· ++ ['\n'])) = lines := by
  induction lines with
  | nil => rfl
  | cons line lines ih =>
    obtain ⟨hline, hlines⟩ := List.forall_mem_cons.mp h
    rw [List.flatMap_cons, List.append_assoc]
    exact (getlines_cons hline _).trans (congrArg _ (ih hlines))

theorem tokens_printed {strs : List (List Char)} (h : ∀ str ∈ strs, str ≠ [] ∧ ∀ c ∈ str, isSpace c = false) :
    tokens (strs.flatMap (· ++ [' '])) = strs := by
  induction strs with
  | nil => rfl
  | cons str strs ih =>
    obtain ⟨⟨hne, hspace⟩, hstrs⟩ := List.forall_mem_cons.mp h
    have hkeep : (!str.isEmpty) = true := by
      rw [Bool.not_eq_true', List.isEmpty_eq_false_iff]
      exact hne
    have hsplit : tokens (str ++ ' ' :: strs.flatMap (· ++ [' '])) = str :: tokens (strs.flatMap (· ++ [' '])) := by
      rw [tokens, List.splitOnP_append_cons_of_forall_mem hspace _ rfl, List.filter_cons, hkeep, if_pos rfl]
      rfl
    rw [List.flatMap_cons, List.append_assoc]
    exact hsplit.trans (congrArg _ (ih hstrs))

def spell (names : Names) (lit : ℕ) : List Char :=
  match names.idToName (lit - lit % 2) with
  | some str => if lit % 2 = 1 then '!' :: str else str
  | none => []

def readBack (names names' : Names) (lit : ℕ) : ℕ :=
  match names.idToName (lit - lit % 2) with
  | some str => if lit % 2 = 1 then negate (names'.nameToID str) else names'.nameToID str
  | none => 0

def Spelled (names names' : Names) (lit : ℕ) : Prop :=
  ∃ str, names.idToName (lit - lit % 2) = some str ∧ Plain str ∧ names'.nameToID str ≠ 0

theorem nameLiteral_eq (h : Spelled names names' lit) : nameLiteral names lit = .ok (spell names lit) := by
  obtain ⟨str, hstr, -⟩ := h
  rw [nameLiteral, spell, hstr]
  rfl

theorem Spelled.token (h : Spelled names names' lit) :
    spell names lit ≠ [] ∧ ∀ c ∈ spell names lit, isSpace c = false := by
  obtain ⟨str, hstr, hplain, -⟩ := h
  rw [spell, hstr]
  dsimp only
  split_ifs with hneg
  · exact ⟨List.cons_ne_nil _ _, List.forall_mem_cons.mpr ⟨rfl, hplain.noSpace⟩⟩
  · exact ⟨hplain.nonempty, hplain.noSpace⟩

theorem parseDisjuncts_spelled (h : ∀ lit ∈ cls, Spelled names names' lit) :
    parseDisjuncts names' (cls.map (spell names)) = .ok (some (cls.map (readBack names names'))) := by
  induction cls with
  | nil => rfl
  | cons lit cls ih =>
    obtain ⟨⟨str, hstr, hplain, hid⟩, hcls⟩ := List.forall_mem_cons.mp h
    have hread : ∀ neg : Bool, spell names lit = (if neg then '!' :: str else str) →
        readBack names names' lit = (if neg then negate (names'.nameToID str) else names'.nameToID str) →
        parseDisjuncts names' ((lit :: cls).map (spell names)) =
          .ok (some ((lit :: cls).map (readBack names names'))) := by
      intro neg hspell hback
      have hhead : ((spell names lit).head? == some '!') = neg := by
        rw [hspell]
        cases neg with
        | true => rfl
        | false => exact beq_false_of_ne hplain.noNegation
      have hlen : (!neg || decide ((spell names lit).length > 1)) = true := by
        rw [hspell]
        cases neg with
        | true => simpa using List.length_pos_iff.mpr hplain.nonempty
        | false => rfl
      have hname : (if neg then (spell names lit).tail else spell names lit) = str := by
        rw [hspell]
        cases neg with
        | true => rfl
        | false => rfl
      rw [List.map_cons, parseDisjuncts]
      dsimp only
      rw [hhead, hlen, hname, if_neg hid, ih hcls, List.map_cons, hback]
      rfl
    by_cases hneg : lit % 2 = 1
    · refine hread true ?_ ?_
      · rw [spell, hstr, if_pos rfl]
        exact if_pos hneg
      · rw [readBack, hstr, if_pos rfl]
        exact if_pos hneg
    · refine hread false ?_ ?_
      · rw [spell, hstr, if_neg Bool.false_ne_true]
        exact if_neg hneg
      · rw [readBack, hstr, if_neg Bool.false_ne_true]
        exact if_neg hneg

theorem drop_printClause (i : ℕ) (strs : List (List Char)) :
    removeFromLine.isPrefixOf (printClause i strs) = true ∧
      clauseStart (printClause i strs) ≤ (printClause i strs).length ∧
      (printClause i strs).drop (clauseStart (printClause i strs)) = strs.flatMap (· ++ [' ']) := by
  have hcolon : ':' ∉ ['C', 'l', 'a', 'u', 's', 'e', ' '] ++ Nat.toDigits 10 i := by
    intro hmem
    cases List.mem_append.mp hmem with
    | inl hmem => exact absurd hmem (by decide)
    | inr hmem =>
      have hdigit := Nat.isDigit_of_mem_toDigits (by decide) le_rfl hmem
      exact absurd hdigit (by decide)
  have happ : printClause i strs = (['C', 'l', 'a', 'u', 's', 'e', ' '] ++ Nat.toDigits 10 i) ++
      ':' :: ' ' :: strs.flatMap (· ++ [' ']) := by
    rw [printClause]
    simp
  obtain ⟨head, hhead⟩ : ∃ head, ['C', 'l', 'a', 'u', 's', 'e', ' '] ++ Nat.toDigits 10 i = head := ⟨_, rfl⟩
  rw [hhead] at hcolon
  have hline : printClause i strs = head ++ ':' :: ' ' :: strs.flatMap (· ++ [' ']) := hhead ▸ happ
  have hidx : (printClause i strs).idxOf ':' = head.length := by
    rw [hline, List.idxOf_append_of_notMem hcolon, List.idxOf_cons_self, Nat.add_zero]
  have hstart : clauseStart (printClause i strs) = head.length + 2 := by
    rw [clauseStart, hidx, if_pos]
    rw [hline]
    exact List.mem_append_right _ List.mem_cons_self
  refine ⟨rfl, ?_, ?_⟩
  · rw [hstart, hline, List.length_append, List.length_cons, List.length_cons]
    omega
  · rw [hstart, hline, ← List.drop_drop, List.drop_left]
    rfl

theorem parseLines_printed {clauses : List (List ℕ)} (h : ∀ cls ∈ clauses, ∀ lit ∈ cls, Spelled names names' lit)
    (lineno m : ℕ) : parseLines names' lineno
      (((clauses.map (List.map (spell names))).zipIdx m).map fun p ↦ printClause p.2 p.1) =
      .ok (clauses.map (List.map (readBack names names'))) := by
  induction clauses generalizing lineno m with
  | nil => rfl
  | cons cls clauses ih =>
    obtain ⟨hcls, hclauses⟩ := List.forall_mem_cons.mp h
    obtain ⟨hpre, hstart, hdrop⟩ := drop_printClause m (cls.map (spell names))
    have htokens : tokens ((cls.map (spell names)).flatMap (· ++ [' '])) = cls.map (spell names) := by
      refine tokens_printed fun str hstr ↦ ?_
      obtain ⟨lit, hl, rfl⟩ := List.mem_map.mp hstr
      exact (hcls lit hl).token
    rw [List.map_cons, List.zipIdx_cons, List.map_cons, parseLines, if_pos hpre, hdrop, htokens,
      decide_eq_true hstart, parseDisjuncts_spelled hcls, ih hclauses]
    rfl

theorem newline_not_mem_printClause (i : ℕ) {strs : List (List Char)} (h : ∀ str ∈ strs, '\n' ∉ str) :
    '\n' ∉ printClause i strs := by
  have hdigits : '\n' ∉ Nat.toDigits 10 i := fun hmem ↦
    absurd (Nat.isDigit_of_mem_toDigits (by decide) le_rfl hmem) (by decide)
  have hstrs : '\n' ∉ strs.flatMap (· ++ [' ']) := by
    intro hmem
    obtain ⟨str, hstr, hin⟩ := List.mem_flatMap.mp hmem
    cases List.mem_append.mp hin with
    | inl hin => exact h str hstr hin
    | inr hin => exact absurd hin (by decide)
  rw [printClause]
  simp [hdigits, hstrs]

theorem getlines_printPME {clauses : List (List ℕ)} (h : ∀ cls ∈ clauses, ∀ lit ∈ cls, Spelled names names' lit) :
    getlines ((clauses.map (List.map (spell names))).zipIdx.flatMap fun p ↦ printClause p.2 p.1 ++ ['\n']) =
      (clauses.map (List.map (spell names))).zipIdx.map fun p ↦ printClause p.2 p.1 := by
  have hlines : ∀ line ∈ (clauses.map (List.map (spell names))).zipIdx.map fun p ↦ printClause p.2 p.1,
      '\n' ∉ line := by
    intro line hline
    obtain ⟨p, hp, rfl⟩ := List.mem_map.mp hline
    obtain ⟨cls, hcls, hp⟩ := List.mem_map.mp (List.fst_mem_of_mem_zipIdx hp)
    refine newline_not_mem_printClause _ fun str hstr ↦ ?_
    rw [← hp] at hstr
    obtain ⟨lit, hl, rfl⟩ := List.mem_map.mp hstr
    intro hmem
    exact absurd ((h cls hcls lit hl).token.2 _ hmem) (by decide)
  have hread := getlines_printed hlines
  rw [List.flatMap_map] at hread
  exact hread

theorem mapM_eq_map {α β : Type} {f : α → Result β} {g : α → β} {l : List α} (h : ∀ a ∈ l, f a = .ok (g a)) :
    l.mapM f = .ok (l.map g) := by
  induction l with
  | nil => rfl
  | cons a l ih =>
    obtain ⟨ha, hl⟩ := List.forall_mem_cons.mp h
    rw [List.mapM_cons, ha, ih hl]
    rfl

theorem plain_nameOf (hne : sym.name ≠ some []) (h : ∀ name, sym.name = some name →
    (∀ c ∈ name, isSpace c = false) ∧ name.head? ≠ some '!') (i : ℕ) : Plain (nameOf ['l'] i sym) := by
  cases hname : sym.name with
  | some name =>
    obtain ⟨hspace, hneg⟩ := h name hname
    have hself : nameOf ['l'] i sym = name := by rw [nameOf, hname]
    rw [hself]
    exact ⟨fun heq ↦ hne (hname.trans (congrArg some heq)), hspace, hneg⟩
  | none =>
    have hself : nameOf ['l'] i sym = 'l' :: Nat.toDigits 10 i := by
      rw [nameOf, hname]
      rfl
    rw [hself]
    refine ⟨List.cons_ne_nil _ _, List.forall_mem_cons.mpr ⟨rfl, fun c hc ↦ ?_⟩, nofun⟩
    have hdigit := Nat.isDigit_of_mem_toDigits (by decide) le_rfl hc
    rw [← Bool.not_eq_true]
    intro hspace
    rw [isSpace, Bool.or_eq_true, beq_iff_eq, decide_eq_true_iff] at hspace
    cases hspace with
    | inl heq => exact ne_of_isDigit hdigit rfl heq
    | inr hrange =>
      simp only [Char.isDigit, Bool.and_eq_true, decide_eq_true_iff] at hdigit
      have hlow : 48 ≤ c.val.toNat := UInt32.le_iff_toNat_le.mp hdigit.1
      have hhigh : c.val.toNat ≤ 13 := UInt32.le_iff_toNat_le.mp hrange.2
      omega

theorem convertBack_eq (hwf : aig.WellFormed)
    (hplain : ∀ sym ∈ aig.latches, ∀ name, sym.name = some name →
      (∀ c ∈ name, isSpace c = false) ∧ name.head? ≠ some '!')
    (hlits : ∀ cls ∈ pmeClauses file, ∀ lit ∈ cls, ∃ sym ∈ aig.latches, lit - lit % 2 = sym.lit) :
    ∃ names inputs names', Entered ['l'] 0 aig.latches noNames names ∧
      Entered ['l'] 0 aig.latches inputs names' ∧
      (∀ cls ∈ pmeClauses file, ∀ lit ∈ cls, Spelled names names' lit) ∧
      convertBack aig file = .ok (if (pmeClauses file).length < 2 ^ 32
        then some ((pmeClauses file).map (List.map (readBack names names'))) else none) := by
  have hlatches : ∀ sym ∈ aig.latches, sym.lit % 2 = 0 ∧ sym.lit ≠ 0 ∧ sym.name ≠ some [] :=
    fun sym hs ↦ hwf.isVar sym (List.mem_append_right _ hs)
  have hinputs : ∀ sym ∈ aig.inputs, sym.lit % 2 = 0 ∧ sym.lit ≠ 0 ∧ sym.name ≠ some [] :=
    fun sym hs ↦ hwf.isVar sym (List.mem_append_left _ hs)
  have hnever : ∀ {post : Names → Prop} {x : Result Names}, Meets post (fun _ ↦ False) x →
      ∃ names, x = .ok names ∧ post names := fun h ↦ h.exists_ok
  obtain ⟨names, hnames, hentered⟩ :=
    hnever (parseSymbols_meets hlatches (List.cons_ne_nil 'l' []) 0 noNames)
  obtain ⟨inputs, hparsed, -⟩ := hnever (parseSymbols_meets hinputs (List.cons_ne_nil 'i' []) 0 noNames)
  obtain ⟨names', hnames', hentered'⟩ :=
    hnever (parseSymbols_meets hlatches (List.cons_ne_nil 'l' []) 0 inputs)
  have hspelled : ∀ cls ∈ pmeClauses file, ∀ lit ∈ cls, Spelled names names' lit := by
    intro cls hcls lit hl
    obtain ⟨sym, hsym, heq⟩ := hlits cls hcls lit hl
    obtain ⟨j, hj⟩ := List.mem_iff_getElem?.mp hsym
    refine ⟨nameOf ['l'] (0 + j) sym, ?_, plain_nameOf (hlatches sym hsym).2.2 (hplain sym hsym) _, ?_⟩
    · rw [heq]
      exact hentered.named hwf.distinct j sym hj
    · obtain ⟨k, sym', hk, -, hid, -⟩ | ⟨hno, -⟩ := hentered'.last (nameOf ['l'] (0 + j) sym)
      · rw [hid]
        exact (hlatches sym' (List.mem_iff_getElem?.mpr ⟨k, hk⟩)).2.1
      · exact absurd rfl (hno j sym hj)
  refine ⟨names, inputs, names', hentered, hentered', hspelled, ?_⟩
  have hparse : parsePME aig file = .ok ((pmeClauses file).map (List.map (spell names))) := by
    rw [parsePME, hnames, ok_bind]
    refine mapM_eq_map fun cls hcls ↦ ?_
    exact mapM_eq_map fun lit hl ↦ nameLiteral_eq (hspelled cls hcls lit hl)
  rw [convertBack, hparse, ok_bind, printPME, List.length_map]
  by_cases hfew : (pmeClauses file).length < 2 ^ 32
  · rw [if_pos hfew, if_pos hfew]
    dsimp only
    rw [parseProof, hparsed, ok_bind, hnames', ok_bind, getlines_printPME hspelled,
      parseLines_printed hspelled]
    rfl
  · rw [if_neg hfew, if_neg hfew]
    rfl

theorem readBack_eq_iff {inputs : Names} {j : ℕ} (hwf : aig.WellFormed)
    (h : Entered ['l'] 0 aig.latches noNames names) (h' : Entered ['l'] 0 aig.latches inputs names')
    (hj : aig.latches[j]? = some sym) (hlit : lit - lit % 2 = sym.lit) :
    readBack names names' lit = lit ↔ ∀ (j' : ℕ) (sym' : Symbol), j < j' →
      aig.latches[j']? = some sym' → nameOf ['l'] j sym ≠ nameOf ['l'] j' sym' := by
  have hname := h.named hwf.distinct j sym hj
  rw [Nat.zero_add] at hname
  have hback : readBack names names' lit = lit ↔ names'.nameToID (nameOf ['l'] j sym) = sym.lit := by
    have heven := (hwf.isVar sym (List.mem_append_right _ (List.mem_iff_getElem?.mpr ⟨j, hj⟩))).1
    rw [readBack, hlit, hname]
    dsimp only
    split_ifs with hneg
    · rw [← negate_injective.eq_iff, negate_negate, negate_eq lit]
      constructor
      · intro heq
        rw [heq, if_neg (by omega)]
        omega
      · intro heq
        rw [heq, if_neg (by omega)]
        omega
    · constructor
      · intro heq
        omega
      · intro heq
        omega
  rw [hback]
  obtain ⟨k, sym', hk, hsame, hid, hlater⟩ | ⟨hno, -⟩ := h'.last (nameOf ['l'] j sym)
  · rw [hid]
    rw [Nat.zero_add] at hsame
    constructor
    · intro heq j' sym'' hlt hj'
      have hjk : k = j := by
        have hlt : k < (aig.latches.map Symbol.lit).length := by
          rw [List.length_map]
          exact (List.getElem?_eq_some_iff.mp hk).1
        refine (List.getElem?_inj hlt hwf.distinct).mp ?_
        rw [List.getElem?_map, List.getElem?_map, hk, hj, Option.map_some, Option.map_some, heq]
      subst hjk
      have hne := hlater j' sym'' hlt hj'
      rw [Nat.zero_add] at hne
      exact hne.symm
    · intro hall
      obtain hlt | rfl | hlt := Nat.lt_trichotomy j k
      · exact absurd hsame.symm (hall k sym' hlt hk)
      · rw [Option.some_inj.mp (hk.symm.trans hj)]
      · have hne := hlater j sym hlt hj
        rw [Nat.zero_add] at hne
        exact absurd rfl hne
  · have hne := hno j sym hj
    rw [Nat.zero_add] at hne
    exact absurd rfl hne

theorem map_eq_self_iff {α : Type} {f : α → α} {l : List α} : l.map f = l ↔ ∀ a ∈ l, f a = a := by
  have h := @List.map_inj_left _ _ l f id
  rwa [List.map_id] at h

/-- The file comes back exactly when the printing ends, and no latch that the file mentions has the
name of a later one. Two explicit names are different, so that one of the two is a default name. -/
theorem convertBack_iff (hwf : aig.WellFormed)
    (hplain : ∀ sym ∈ aig.latches, ∀ name, sym.name = some name →
      (∀ c ∈ name, isSpace c = false) ∧ name.head? ≠ some '!')
    (hlits : ∀ cls ∈ pmeClauses file, ∀ lit ∈ cls, ∃ sym ∈ aig.latches, lit - lit % 2 = sym.lit) :
    convertBack aig file = .ok (some (pmeClauses file)) ↔ (pmeClauses file).length < 2 ^ 32 ∧
      ∀ (j j' : ℕ) (sym sym' : Symbol), j < j' → aig.latches[j]? = some sym →
        aig.latches[j']? = some sym' →
        (∃ cls ∈ pmeClauses file, ∃ lit ∈ cls, lit - lit % 2 = sym.lit) →
        nameOf ['l'] j sym ≠ nameOf ['l'] j' sym' := by
  obtain ⟨names, inputs, names', hentered, hentered', -, heq⟩ := convertBack_eq hwf hplain hlits
  rw [heq]
  by_cases hfew : (pmeClauses file).length < 2 ^ 32
  · rw [if_pos hfew]
    have hall : (pmeClauses file).map (List.map (readBack names names')) = pmeClauses file ↔
        ∀ cls ∈ pmeClauses file, ∀ lit ∈ cls, readBack names names' lit = lit := by
      rw [map_eq_self_iff]
      exact forall₂_congr fun cls _ ↦ map_eq_self_iff
    have hok : (Except.ok (some ((pmeClauses file).map (List.map (readBack names names')))) : Result _) =
        .ok (some (pmeClauses file)) ↔
          (pmeClauses file).map (List.map (readBack names names')) = pmeClauses file := by
      rw [Except.ok.injEq, Option.some_inj]
    rw [hok, hall]
    constructor
    · intro hback
      refine ⟨hfew, fun j j' sym sym' hlt hj hj' hin ↦ ?_⟩
      obtain ⟨cls, hcls, lit, hl, hlit⟩ := hin
      exact (readBack_eq_iff hwf hentered hentered' hj hlit).mp (hback cls hcls lit hl) j' sym' hlt hj'
    · rintro ⟨-, hdiff⟩ cls hcls lit hl
      obtain ⟨sym, hsym, hlit⟩ := hlits cls hcls lit hl
      obtain ⟨j, hj⟩ := List.mem_iff_getElem?.mp hsym
      refine (readBack_eq_iff hwf hentered hentered' hj hlit).mpr fun j' sym' hlt hj' ↦ ?_
      exact hdiff j j' sym sym' hlt hj hj' ⟨cls, hcls, lit, hl, hlit⟩
  · rw [if_neg hfew]
    exact ⟨nofun, fun h ↦ absurd h.1 hfew⟩

def sharedName : AIG := ⟨[], [⟨2, none⟩, ⟨4, some ['l', '0']⟩]⟩

theorem sharedName_wellFormed : sharedName.WellFormed := ⟨by decide, by decide⟩

theorem sharedName_plain : ∀ sym ∈ sharedName.latches, ∀ name, sym.name = some name →
    (∀ c ∈ name, isSpace c = false) ∧ name.head? ≠ some '!' := by
  intro sym hsym name hname
  rcases List.mem_pair.mp hsym with rfl | rfl
  · exact nomatch hname
  · cases hname
    refine ⟨fun c hc ↦ ?_, fun hhead ↦ absurd (Option.some.inj hhead) (by decide)⟩
    rcases List.mem_pair.mp hc with rfl | rfl <;> rfl

/-- A file about the second latch only comes back. -/
theorem convertBack_iff_second : convertBack sharedName ['4', ' ', '5', '\n'] =
    .ok (some (pmeClauses ['4', ' ', '5', '\n'])) := by
  refine (convertBack_iff sharedName_wellFormed sharedName_plain (by decide)).mpr ⟨by decide, ?_⟩
  intro j j' sym sym' hlt hj hj' hin
  have hj'lt : j' < 2 := (List.getElem?_eq_some_iff.mp hj').1
  obtain rfl : j = 0 := by omega
  cases Option.some_inj.mp hj
  exact absurd hin (by decide)

/-- A clause of the first latch comes back as one of the second. -/
theorem convertBack_fails : ¬ ∀ (aig : AIG) (file : List Char), aig.WellFormed →
    (aig.latches.filterMap Symbol.name).Nodup → (∀ sym ∈ aig.latches, ∀ name, sym.name = some name →
      (∀ c ∈ name, isSpace c = false) ∧ name.head? ≠ some '!') →
    (∀ cls ∈ pmeClauses file, ∀ lit ∈ cls, ∃ sym ∈ aig.latches, lit - lit % 2 = sym.lit) →
    convertBack aig file = .ok (some (pmeClauses file)) := by
  intro h
  have hback := h sharedName ['2', '\n'] sharedName_wellFormed (by decide) sharedName_plain (by decide)
  have hother : convertBack sharedName ['2', '\n'] = .ok (some [[4]]) := rfl
  exact absurd (hother.symm.trans hback) (by decide)

end PME.ParseProof
