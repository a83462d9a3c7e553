import Mathlib.Data.Nat.Bitwise
import Mathlib.Tactic

namespace PME

/-- The code's IDs are `uint64_t`. No operation below leaves the 64-bit range on the
arguments its assertions admit, so an ID is a plain number. -/
abbrev Clause := List ℕ
abbrev Cube := List ℕ
abbrev ClauseVec := List Clause

def primeBits : ℕ := 16
def primeShift : ℕ := 64 - primeBits
def maxPrimes : ℕ := 2 ^ primeBits - 1

def negate (id : ℕ) : ℕ := id ^^^ 1

def idNull : ℕ := 0
def idFalse : ℕ := 2
def idTrue : ℕ := negate idFalse
def maxId : ℕ := (2 ^ 64 - 1) >>> primeBits
def idIncr : ℕ := 2
def minId : ℕ := idFalse + idIncr
def unprimeMask : ℕ := maxId
def primesMask : ℕ := (2 ^ 64 - 1) ^^^ unprimeMask

def unprime (id : ℕ) : ℕ := id &&& unprimeMask

/-- The constants are below `minId` and are never primed. -/
def prime (id : ℕ) (n : ℕ) : ℕ := if id < minId then id else id ||| (n <<< primeShift)

def nprimes (id : ℕ) : ℕ := (id &&& primesMask) >>> primeShift

def isNegated (id : ℕ) : Bool := id &&& 1 != 0

def strip (id : ℕ) : ℕ := if isNegated id then negate id else id

def negateVec (vec : List ℕ) : List ℕ := vec.map negate

def primeClause (cls : Clause) (n : ℕ) : Clause := cls.map (prime · n)

def unprimeClause (cls : Clause) : Clause := cls.map unprime

def primeClauses (vec : ClauseVec) (n : ℕ) : ClauseVec := vec.map (primeClause · n)

def primeVec (vec : List ℕ) (n : ℕ) : List ℕ := primeClause vec n

theorem isNegated_iff (id : ℕ) : isNegated id = true ↔ id % 2 = 1 := by
  simp only [isNegated, Nat.and_one_is_mod, bne_iff_ne, ne_eq]
  omega

theorem isNegated_eq_false (id : ℕ) : isNegated id = false ↔ id % 2 = 0 := by
  rw [← Bool.not_eq_true, isNegated_iff]
  omega

theorem negate_eq (id : ℕ) : negate id = if id % 2 = 0 then id + 1 else id - 1 := by
  split
  · exact Nat.xor_one_of_even (Nat.even_iff.mpr ‹_›)
  · exact Nat.xor_one_of_odd (Nat.odd_iff.mpr (by omega))

theorem strip_eq (id : ℕ) : strip id = id - id % 2 := by
  unfold strip
  split
  · have h := (isNegated_iff id).mp ‹_›
    rw [negate_eq, if_neg (by omega)]
    omega
  · have h := mt (isNegated_iff id).mpr ‹_›
    omega

@[simp] theorem negate_negate (id : ℕ) : negate (negate id) = id := by
  simp [negate]

@[simp] theorem strip_negate (id : ℕ) : strip (negate id) = strip id := by
  rw [strip_eq, strip_eq, negate_eq]
  split <;> omega

@[simp] theorem strip_strip (id : ℕ) : strip (strip id) = strip id := by
  simp only [strip_eq]
  omega

@[simp] theorem isNegated_negate (id : ℕ) : isNegated (negate id) = !isNegated id := by
  rw [Bool.eq_iff_iff]
  simp only [Bool.not_eq_true', isNegated_iff, isNegated_eq_false, negate_eq]
  split <;> omega

@[simp] theorem isNegated_strip (id : ℕ) : isNegated (strip id) = false := by
  rw [isNegated_eq_false, strip_eq]
  omega

theorem negate_injective : Function.Injective negate := by
  intro a b h
  rw [← negate_negate a, h, negate_negate]

theorem strip_of_even {id : ℕ} (h : id % 2 = 0) : strip id = id := by
  rw [strip_eq]
  omega

theorem strip_le (id : ℕ) : strip id ≤ id := by
  rw [strip_eq]
  omega

theorem eq_of_strip {a b : ℕ} (hs : strip a = strip b) (hn : isNegated a = isNegated b) :
    a = b := by
  have h : a % 2 = b % 2 := by
    cases ha : isNegated a with
    | true =>
      rw [(isNegated_iff a).mp ha, (isNegated_iff b).mp (hn ▸ ha)]
    | false =>
      rw [(isNegated_eq_false a).mp ha, (isNegated_eq_false b).mp (hn ▸ ha)]
  rw [strip_eq, strip_eq] at hs
  omega

theorem idTrue_eq : idTrue = 3 := rfl
theorem minId_eq : minId = 4 := rfl
theorem maxId_eq : maxId = 2 ^ 48 - 1 := rfl
theorem primeShift_eq : primeShift = 48 := rfl
@[simp] theorem strip_idTrue : strip idTrue = idFalse := rfl

theorem prime_eq {id : ℕ} (h : id ≤ maxId) (n : ℕ) :
    prime id n = if id < minId then id else id + n * 2 ^ 48 := by
  unfold prime
  split
  · rfl
  · rw [maxId_eq] at h
    rw [Nat.or_comm, primeShift_eq, ← Nat.shiftLeft_add_eq_or_of_lt (by omega), Nat.shiftLeft_eq]
    omega

theorem prime_of_lt {id : ℕ} (h : id < minId) (n : ℕ) : prime id n = id := by
  rw [prime, if_pos h]

theorem prime_of_ge {id : ℕ} (hmin : minId ≤ id) (hmax : id ≤ maxId) (n : ℕ) :
    prime id n = id + n * 2 ^ 48 := by
  rw [prime_eq hmax, if_neg (by omega)]

@[simp] theorem prime_idFalse (n : ℕ) : prime idFalse n = idFalse := prime_of_lt (by decide) n

@[simp] theorem prime_idTrue (n : ℕ) : prime idTrue n = idTrue := prime_of_lt (by decide) n

theorem prime_zero {id : ℕ} (h : id ≤ maxId) : prime id 0 = id := by
  rw [prime_eq h]
  split <;> omega

theorem isNegated_prime {id : ℕ} (h : id ≤ maxId) (n : ℕ) :
    isNegated (prime id n) = isNegated id := by
  rw [Bool.eq_iff_iff, isNegated_iff, isNegated_iff, prime_eq h]
  split <;> omega

theorem strip_prime {id : ℕ} (h : id ≤ maxId) (n : ℕ) :
    strip (prime id n) = prime (strip id) n := by
  rw [prime_eq h, prime_eq ((strip_le id).trans h), strip_eq, strip_eq, minId_eq]
  by_cases hc : id < 4
  · rw [if_pos hc, if_pos (by omega)]
  · rw [if_neg hc, if_neg (by omega)]
    omega

theorem negate_le {id : ℕ} (h : id ≤ maxId) : negate id ≤ maxId := by
  simp only [maxId_eq, negate_eq] at *
  split <;> omega

theorem prime_negate {id : ℕ} (h : id ≤ maxId) (n : ℕ) :
    prime (negate id) n = negate (prime id n) := by
  refine eq_of_strip ?_ ?_
  · rw [strip_prime (negate_le h), strip_negate, strip_negate, strip_prime h]
  · rw [isNegated_prime (negate_le h), isNegated_negate, isNegated_negate, isNegated_prime h]

/-- Different signals, or one signal at different times, have different primed IDs. -/
theorem prime_injective {a b : ℕ} {n m : ℕ} (ha : minId ≤ a) (ha' : a ≤ maxId)
    (hb : minId ≤ b) (hb' : b ≤ maxId) (h : prime a n = prime b m) : a = b ∧ n = m := by
  rw [prime_of_ge ha ha', prime_of_ge hb hb'] at h
  rw [maxId_eq] at ha' hb'
  omega

theorem unprime_eq (id : ℕ) : unprime id = id % 2 ^ 48 :=
  Nat.and_two_pow_sub_one_eq_mod id 48

theorem unprime_prime {id : ℕ} (h : id ≤ maxId) (n : ℕ) : unprime (prime id n) = id := by
  rw [unprime_eq, prime_eq h]
  rw [maxId_eq] at h
  split <;> omega

theorem nprimes_eq {id : ℕ} (h : id < 2 ^ 64) : nprimes id = id / 2 ^ 48 := by
  unfold nprimes
  rw [primeShift_eq, Nat.shiftRight_eq_div_pow]
  have hm : primesMask = (2 ^ 16 - 1) <<< 48 := by decide
  rw [hm]
  apply Nat.eq_of_testBit_eq
  intro i
  rw [Nat.testBit_div_two_pow, Nat.testBit_div_two_pow, Nat.testBit_and, Nat.testBit_shiftLeft,
    Nat.testBit_two_pow_sub_one]
  by_cases hi : i < 16
  · simp [show i + 48 ≥ 48 by omega, hi]
  · have hz : id.testBit (i + 48) = false :=
      Nat.testBit_lt_two_pow (h.trans_le (Nat.pow_le_pow_right (by omega) (by omega)))
    simp [hz]

theorem nprimes_prime {id : ℕ} (hmin : minId ≤ id) (hmax : id ≤ maxId) {n : ℕ}
    (hn : n ≤ maxPrimes) : nprimes (prime id n) = n := by
  have hm : maxPrimes = 65535 := rfl
  rw [prime_of_ge hmin hmax, nprimes_eq] <;> simp only [maxId_eq] at hmax <;> omega

section Words

variable {id n a b m : ℕ} {cls : Clause}

theorem maxPrimes_eq : maxPrimes = 65535 := rfl

/-- What `prime` shifts in stays in the word. -/
theorem prime_lt (hmax : id ≤ maxId) (hn : n ≤ maxPrimes) : prime id n < 2 ^ 64 := by
  have hm := maxPrimes_eq
  rw [maxId_eq] at hmax
  rw [prime_eq (by rw [maxId_eq]; exact hmax)]
  split <;> omega

/-- On words, `prime` is computed as in the source: nothing is shifted out. -/
theorem toNat_prime (w k : BitVec 64) (hk : k.toNat ≤ maxPrimes) :
    (if w < 4 then w else w ||| k <<< 48).toNat = prime w.toNat k.toNat := by
  have hw : w < 4 ↔ w.toNat < minId := BitVec.lt_def
  have hshift : (k <<< 48).toNat = k.toNat <<< primeShift := by
    have hm := maxPrimes_eq
    rw [BitVec.toNat_shiftLeft, primeShift_eq, Nat.shiftLeft_eq]
    omega
  unfold prime
  by_cases h : w < 4
  · rw [if_pos h, if_pos (hw.mp h)]
  · rw [if_neg h, if_neg (mt hw.mpr h), BitVec.toNat_or, hshift]

def IsUnprimed (id : ℕ) : Prop := id = idFalse ∨ id = idTrue ∨ minId ≤ id ∧ id ≤ maxId

theorem IsUnprimed.le (h : IsUnprimed id) : id ≤ maxId := by
  obtain rfl | rfl | hsig := h
  · decide
  · decide
  · exact hsig.2

theorem IsUnprimed.const_or (h : IsUnprimed id) : strip id = idFalse ∨ minId ≤ strip id := by
  obtain rfl | rfl | hsig := h
  · exact .inl rfl
  · exact .inl rfl
  · right
    have hge := hsig.1
    rw [strip_eq, minId_eq] at *
    omega

theorem unprimeClause_primeClause (h : ∀ lit ∈ cls, IsUnprimed lit) (n : ℕ) :
    unprimeClause (primeClause cls n) = cls := by
  rw [unprimeClause, primeClause, List.map_map]
  calc cls.map (unprime ∘ (prime · n))
    _ = cls.map id := List.map_congr_left fun lit hl ↦ unprime_prime (h lit hl).le n
    _ = cls := List.map_id cls

/-- The variable of a primed literal tells the variable it is a copy of, and, unless this is the
constant, the frame. -/
theorem strip_prime_inj (ha : IsUnprimed a) (hb : IsUnprimed b)
    (h : strip (prime a n) = strip (prime b m)) :
    strip a = strip b ∧ (strip a = idFalse ∨ n = m) := by
  rw [strip_prime ha.le, strip_prime hb.le] at h
  have hle := (strip_le a).trans ha.le
  have hle' := (strip_le b).trans hb.le
  have heq := congrArg unprime h
  rw [unprime_prime hle, unprime_prime hle'] at heq
  refine ⟨heq, ha.const_or.imp_right fun hge ↦ ?_⟩
  exact (prime_injective hge hle (heq ▸ hge) hle' h).2

/-- Priming packs an ID and a frame into one word and loses neither; unpriming takes the ID
out again, of one literal or of a clause. -/
theorem prime_encodes :
    (∀ a b n m, minId ≤ a → a ≤ maxId → minId ≤ b → b ≤ maxId → n ≤ maxPrimes → m ≤ maxPrimes →
      prime a n = prime b m → a = b ∧ n = m) ∧
    (∀ id n, minId ≤ id → id ≤ maxId → n ≤ maxPrimes →
      prime id n < 2 ^ 64 ∧ nprimes (prime id n) = n ∧ unprime (prime id n) = id ∧
      prime (negate id) n = negate (prime id n) ∧ prime (strip id) n = strip (prime id n)) ∧
    (∀ id n, id = idTrue ∨ id = idFalse → prime id n = id ∧ unprime id = id) ∧
    (∀ (cls : Clause) n, (∀ lit ∈ cls, IsUnprimed lit) → n ≤ maxPrimes →
      unprimeClause (primeClause cls n) = cls ∧
      ∀ pcls, pcls = primeClause cls n → primeClause (unprimeClause pcls) n = pcls) ∧
    (∀ (c d : Clause) n m, (∀ lit ∈ c, IsUnprimed lit) → (∀ lit ∈ d, IsUnprimed lit) →
      n ≤ maxPrimes → m ≤ maxPrimes → ∀ a ∈ c, ∀ b ∈ d,
      strip (prime a n) = strip (prime b m) →
        strip a = strip b ∧ (strip a = idFalse ∨ n = m)) := by
  refine ⟨fun a b n m ha ha' hb hb' _ _ h ↦ prime_injective ha ha' hb hb' h, ?_, ?_, ?_, ?_⟩
  · intro id n hmin hmax hn
    exact ⟨prime_lt hmax hn, nprimes_prime hmin hmax hn, unprime_prime hmax n,
      prime_negate hmax n, (strip_prime hmax n).symm⟩
  · intro id n hconst
    cases hconst with
    | inl heq => exact heq ▸ ⟨prime_idTrue n, rfl⟩
    | inr heq => exact heq ▸ ⟨prime_idFalse n, rfl⟩
  · intro cls n hcls _
    have hinv := unprimeClause_primeClause hcls n
    exact ⟨hinv, fun pcls heq ↦ by rw [heq, hinv]⟩
  · intro c d n m hc hd _ _ a ha b hb h
    exact strip_prime_inj (hc a ha) (hd b hb) h

theorem prime_encodes_last : unprime (prime maxId 65535) = maxId ∧
    nprimes (prime maxId 65535) = 65535 ∧
    unprimeClause (primeClause [idTrue, minId, maxId] 65535) = [idTrue, minId, maxId] := by
  have hlit := prime_encodes.2.1 maxId 65535 (by decide) le_rfl le_rfl
  have hcls := prime_encodes.2.2.2.1 [idTrue, minId, maxId] 65535 ?_ le_rfl
  · exact ⟨hlit.2.2.1, hlit.2.1, hcls.1⟩
  · intro lit hl
    simp only [List.mem_cons, List.not_mem_nil, or_false] at hl
    obtain rfl | rfl | rfl := hl
    · exact .inr (.inl rfl)
    · exact .inr (.inr ⟨le_rfl, by decide⟩)
    · exact .inr (.inr ⟨by decide, le_rfl⟩)

end Words

end PME
