import Mathlib.Data.List.Basic
import Mathlib.Data.Nat.Bitwise
import Strace.Words

/-! `next_set_bit`, by which a decoder goes from one set bit of an array to the next. -/
namespace Strace
open List

def scanByte (curByte : UInt8) (sizeBits curBit bit : Nat) : Nat ⊕ Option Nat :=
  if curByte.toNat.testBit bit then .inr (some curBit)
  else if sizeBits ≤ curBit + 1 then .inr none
  else if 8 ≤ bit + 1 then .inl (curBit + 1)
  else scanByte curByte sizeBits (curBit + 1) (bit + 1)
termination_by 8 - bit

variable {curByte : UInt8} {sizeBits curBit bit i : Nat}

theorem scanByte_inl {next : Nat} (on : scanByte curByte sizeBits curBit bit = .inl next) :
    curBit < next := by
  fun_induction scanByte curByte sizeBits curBit bit with
  | case1 => cases on
  | case2 => cases on
  | case3 curBit bit =>
    grind
  | case4 curBit bit clear more inByte ih =>
    exact Nat.lt_of_succ_lt (ih on)

theorem scanByte_inr (more : curBit < sizeBits)
    (found : scanByte curByte sizeBits curBit bit = .inr (some i)) : curBit ≤ i ∧ i < sizeBits := by
  fun_induction scanByte curByte sizeBits curBit bit with
  | case1 =>
    grind
  | case2 => cases found
  | case3 => cases found
  | case4 curBit bit clear notDone inByte ih =>
    have later := ih (by omega) found
    omega

def nextSetBitFrom (array : List UInt8) (posXorMask sizeBits pos curBit : Nat) :
    Option (Option Nat) :=
  if sizeBits ≤ curBit then some none
  else
    match array[pos ^^^ posXorMask]? with
    | none => none
    | some curByte =>
      if curByte = 0 then
        nextSetBitFrom array posXorMask sizeBits (pos + 1) ((curBit + 8) / 8 * 8)
      else
        match on : scanByte curByte sizeBits curBit (curBit % 8) with
        | .inl next => nextSetBitFrom array posXorMask sizeBits (pos + 1) next
        | .inr result => some result
termination_by sizeBits - curBit
decreasing_by
  · omega
  · have := scanByte_inl on
    omega

def nextSetBit (array : List UInt8) (posXorMask curBit sizeBits : Nat) : Option (Option Nat) :=
  nextSetBitFrom array posXorMask sizeBits (curBit / 8) curBit

theorem nextSetBit_mem {array : List UInt8} {posXorMask : Nat}
    (found : nextSetBit array posXorMask curBit sizeBits = some (some i)) :
    curBit ≤ i ∧ i < sizeBits := by
  rw [nextSetBit] at found
  generalize curBit / 8 = pos at found
  fun_induction nextSetBitFrom array posXorMask sizeBits pos curBit with
  | case1 => cases found
  | case2 => cases found
  | case3 pos curBit more there ih =>
    have later := ih found
    omega
  | case4 pos curBit more curByte there nonzero next on ih =>
    have later := ih found
    have := scanByte_inl on
    omega
  | case5 pos curBit more curByte there nonzero result on =>
    cases found
    exact scanByte_inr (Nat.lt_of_not_le more) on

/-- `pos_xor_mask`: in a big-endian word the byte of the lowest bits is the last one. -/
def posXorMask (littleEndian : Bool) (wordsize : Nat) : Nat :=
  if littleEndian then 0 else wordsize - 1

theorem xor_wordMask_div {wordsize : Nat} (word : wordsize = 4 ∨ wordsize = 8)
    (littleEndian : Bool) (pos : Nat) :
    (pos ^^^ posXorMask littleEndian wordsize) / wordsize = pos / wordsize := by
  have power : ∃ bits, wordsize = 2 ^ bits := by
    rcases word with rfl | rfl
    · exact ⟨2, rfl⟩
    · exact ⟨3, rfl⟩
  obtain ⟨bits, power⟩ := power
  have inside : posXorMask littleEndian wordsize / wordsize = 0 := by
    rcases word with rfl | rfl <;> cases littleEndian <;> rfl
  rw [power] at inside ⊢
  rw [Nat.xor_div_two_pow, inside, Nat.xor_zero]

def bitOf (byte : Nat → UInt8) (i : Nat) : Bool := (byte (i / 8)).toNat.testBit (i % 8)

/-- The set bits from one on. -/
def bitsFrom (byte : Nat → UInt8) (curBit sizeBits : Nat) : List Nat :=
  (List.range' curBit (sizeBits - curBit)).filter (bitOf byte)

section
variable {byte : Nat → UInt8} {curBit sizeBits : Nat} {i posXorMask : Nat} {array : List UInt8}

theorem mem_bitsFrom :
    i ∈ bitsFrom byte curBit sizeBits ↔ curBit ≤ i ∧ i < sizeBits ∧ bitOf byte i = true := by
  rw [bitsFrom, mem_filter, mem_range'_1, ← and_assoc]
  refine and_congr_left fun _ => ?_
  omega

theorem bitsFrom_end (done : sizeBits ≤ curBit) : bitsFrom byte curBit sizeBits = [] := by
  simp [bitsFrom, Nat.sub_eq_zero_of_le done]

theorem bitsFrom_step (more : curBit < sizeBits) :
    bitsFrom byte curBit sizeBits =
      (if bitOf byte curBit then [curBit] else []) ++ bitsFrom byte (curBit + 1) sizeBits := by
  have count : sizeBits - curBit = sizeBits - (curBit + 1) + 1 := by omega
  rw [bitsFrom, count, range'_succ, filter_cons]
  split <;> rfl

theorem bitsFrom_set (more : curBit < sizeBits) (set : bitOf byte curBit = true) :
    bitsFrom byte curBit sizeBits = curBit :: bitsFrom byte (curBit + 1) sizeBits := by
  rw [bitsFrom_step more, if_pos set]
  rfl

theorem bitsFrom_clear (clear : bitOf byte curBit = false) :
    bitsFrom byte curBit sizeBits = bitsFrom byte (curBit + 1) sizeBits := by
  by_cases more : curBit < sizeBits
  · simp [bitsFrom_step more, clear]
  · rw [bitsFrom_end (by omega), bitsFrom_end (by omega)]

theorem bitsFrom_skip {next : Nat} (le : curBit ≤ next)
    (clear : ∀ i, curBit ≤ i → i < next → bitOf byte i = false) :
    bitsFrom byte curBit sizeBits = bitsFrom byte next sizeBits := by
  induction le with
  | refl => rfl
  | @step next le ih =>
    rw [ih fun i low high => clear i low (Nat.lt_succ_of_lt high)]
    exact bitsFrom_clear (clear next le (Nat.lt_succ_self next))

theorem length_bitsFrom_le {sizeBits' : Nat} (le : sizeBits ≤ sizeBits') :
    (bitsFrom byte 0 sizeBits).length ≤ (bitsFrom byte 0 sizeBits').length := by
  obtain ⟨more, rfl⟩ := Nat.exists_eq_add_of_le le
  rw [bitsFrom, bitsFrom, Nat.sub_zero, Nat.sub_zero, ← range'_append_1, filter_append,
    length_append]
  exact Nat.le_add_right _ _

theorem bitsFrom_of_head (head : (bitsFrom byte curBit sizeBits).head? = some i) :
    bitsFrom byte curBit sizeBits = i :: bitsFrom byte (i + 1) sizeBits := by
  generalize left : sizeBits - curBit = n
  induction n generalizing curBit with
  | zero =>
    grind [bitsFrom_end]
  | succ n ih =>
    cases set : bitOf byte curBit with
    | true =>
      rw [bitsFrom_set (by omega) set] at head ⊢
      cases head
      rfl
    | false =>
      rw [bitsFrom_clear set] at head ⊢
      exact ih head (by omega)

theorem scanByte_spec (byte : Nat → UInt8) {bit : Nat} (place : curBit % 8 = bit)
    (more : curBit < sizeBits) :
    match scanByte (byte (curBit / 8)) sizeBits curBit bit with
    | .inl next => next % 8 = 0 ∧ next / 8 = curBit / 8 + 1 ∧
        bitsFrom byte curBit sizeBits = bitsFrom byte next sizeBits
    | .inr result => result = (bitsFrom byte curBit sizeBits).head? := by
  generalize here : byte (curBit / 8) = curByte
  have bit_eq : bitOf byte curBit = curByte.toNat.testBit bit := by rw [bitOf, here, place]
  fun_induction scanByte curByte sizeBits curBit bit with
  | case1 curBit bit set => rw [bitsFrom_set more (bit_eq.trans set), head?_cons]
  | case2 curBit bit clear done =>
    rw [bitsFrom_clear (bit_eq.trans (Bool.of_not_eq_true clear)), bitsFrom_end done]
    rfl
  | case3 curBit bit clear notDone last =>
    refine ⟨by omega, by omega, ?_⟩
    exact bitsFrom_clear (bit_eq.trans (Bool.of_not_eq_true clear))
  | case4 curBit bit clear notDone inByte ih =>
    have next : (curBit + 1) / 8 = curBit / 8 := by omega
    have place' : (curBit + 1) % 8 = bit + 1 := by omega
    have here' : byte ((curBit + 1) / 8) = curByte := by rw [next, here]
    have spec := ih place' (by omega) here' (by rw [bitOf, here', place'])
    rw [next] at spec
    rw [bitsFrom_clear (bit_eq.trans (Bool.of_not_eq_true clear))]
    exact spec

theorem nextSetBitFrom_eq
    (inside : ∀ pos, pos * 8 < sizeBits → array[pos ^^^ posXorMask]? = some (byte pos)) :
    nextSetBitFrom array posXorMask sizeBits (curBit / 8) curBit =
      some (bitsFrom byte curBit sizeBits).head? := by
  generalize at_byte : curBit / 8 = pos
  fun_induction nextSetBitFrom array posXorMask sizeBits pos curBit with
  | case1 pos curBit done =>
    rw [bitsFrom_end done]
    rfl
  | case2 pos curBit more outside =>
    rw [inside pos (by omega)] at outside
    cases outside
  | case3 pos curBit more there ih =>
    rw [inside pos (by omega)] at there
    have clear : ∀ i, curBit ≤ i → i < (curBit + 8) / 8 * 8 → bitOf byte i = false := by
      intro i low high
      have same : i / 8 = pos := by omega
      rw [bitOf, same, Option.some.inj there]
      exact Nat.zero_testBit _
    rw [bitsFrom_skip (by omega) clear]
    exact ih (by omega)
  | case4 pos curBit more curByte there nonzero next on ih =>
    rw [inside pos (by omega)] at there
    have spec := scanByte_spec byte rfl (Nat.lt_of_not_le more)
    rw [at_byte, Option.some.inj there, on] at spec
    obtain ⟨start, after, same⟩ := spec
    rw [same]
    exact ih after
  | case5 pos curBit more curByte there nonzero result on =>
    rw [inside pos (by omega)] at there
    have spec := scanByte_spec byte rfl (Nat.lt_of_not_le more)
    rw [at_byte, Option.some.inj there, on] at spec
    exact congrArg some spec

theorem nextSetBit_eq
    (inside : ∀ pos, pos * 8 < sizeBits → array[pos ^^^ posXorMask]? = some (byte pos)) :
    nextSetBit array posXorMask curBit sizeBits =
      some (bitsFrom byte curBit sizeBits).head? :=
  nextSetBitFrom_eq inside

end

/-! ## Bits of native words -/

/-- The bytes of an array in the order of their bits. -/
def walkedBy (posXorMask : Nat) (byte : Nat → UInt8) (pos : Nat) : UInt8 :=
  byte (pos ^^^ posXorMask)

theorem nextSetBit_words {wordsize size sizeBits : Nat} (word : wordsize = 4 ∨ wordsize = 8)
    (littleEndian : Bool) (byte : Nat → UInt8) (curBit : Nat)
    (whole : size = ((sizeBits + 7) / 8 + wordsize - 1) / wordsize * wordsize) :
    nextSetBit ((List.range size).map byte) (posXorMask littleEndian wordsize) curBit sizeBits =
      some (bitsFrom (walkedBy (posXorMask littleEndian wordsize) byte) curBit sizeBits).head? := by
  apply nextSetBit_eq
  intro pos inside
  have block := xor_wordMask_div word littleEndian pos
  have there : pos ^^^ posXorMask littleEndian wordsize < size := by
    rcases word with rfl | rfl <;> omega
  rw [getElem?_map, getElem?_range there]
  rfl

def nextSetBitInt (array : List UInt8) (posXorMask curBit sizeBits : Nat) : Option Int :=
  (nextSetBit array posXorMask curBit sizeBits).map fun
    | none => -1
    | some i => (BitVec.ofNat 32 i).toInt

def wordBit (littleEndian : Bool) (wordsize : Nat) (array : List UInt8) (i : Nat) : Bool :=
  let word := (array.drop (i / (8 * wordsize) * wordsize)).take wordsize
  (Words.fromBytes (!littleEndian) word).testBit (i % (8 * wordsize))

theorem testBit_fromBytes (bytes : List UInt8) (i : Nat) :
    (Words.fromBytes false bytes).testBit i = (bytes.getD (i / 8) 0).toNat.testBit (i % 8) := by
  induction bytes generalizing i with
  | nil => simp [Words.fromBytes]
  | cons byte rest ih =>
    have low : Words.fromBytes false (byte :: rest) =
        2 ^ 8 * Words.fromBytes false rest + byte.toNat := by
      simp [Words.fromBytes, Nat.mul_comm]
    rw [low, Nat.testBit_two_pow_mul_add _ byte.toNat_lt]
    split
    · next inByte => rw [Nat.div_eq_of_lt inByte, Nat.mod_eq_of_lt inByte, getD_cons_zero]
    · next later =>
      have next : i / 8 = (i - 8) / 8 + 1 := by omega
      rw [ih, next, getD_cons_succ, show (i - 8) % 8 = i % 8 by omega]

theorem xor_wordMask {wordsize : Nat} (word : wordsize = 4 ∨ wordsize = 8) (n : Nat) {k : Nat}
    (inWord : k < wordsize) :
    (n * wordsize + k) ^^^ (wordsize - 1) = n * wordsize + (wordsize - 1 - k) := by
  have upper := xor_wordMask_div word false (n * wordsize + k)
  have lower : ((n * wordsize + k) ^^^ (wordsize - 1)) % wordsize = wordsize - 1 - k := by
    have mod : (n * wordsize + k) % wordsize = k := by
      rw [Nat.mul_add_mod_self_right, Nat.mod_eq_of_lt inWord]
    have flipped : ∀ k < 4, k ^^^ 3 = 3 - k := by decide
    have flipped' : ∀ k < 8, k ^^^ 7 = 7 - k := by decide
    rcases word with rfl | rfl
    · exact (Nat.xor_mod_two_pow (n := 2)).trans ((congrArg (· ^^^ 3) mod).trans (flipped k inWord))
    · exact (Nat.xor_mod_two_pow (n := 3)).trans
        ((congrArg (· ^^^ 7) mod).trans (flipped' k inWord))
  rcases word with rfl | rfl <;>
  simp only [posXorMask, Bool.false_eq_true, if_false] at upper lower ⊢ <;> omega

section
variable {wordsize : Nat} (word : wordsize = 4 ∨ wordsize = 8) (littleEndian : Bool)
include word

theorem bitOf_walked (array : List UInt8) {i : Nat}
    (whole : i / (8 * wordsize) * wordsize + wordsize ≤ array.length) :
    bitOf (fun pos => array.getD (pos ^^^ posXorMask littleEndian wordsize) 0) i =
      wordBit littleEndian wordsize array i := by
  have place : i / 8 = i / (8 * wordsize) * wordsize + i % (8 * wordsize) / 8 := by
    rcases word with rfl | rfl <;> omega
  have inWord : i % (8 * wordsize) / 8 < wordsize := by rcases word with rfl | rfl <;> omega
  have bit : i % (8 * wordsize) % 8 = i % 8 := by rcases word with rfl | rfl <;> omega
  cases littleEndian with
  | true =>
    simp only [bitOf, posXorMask, wordBit, if_true, Nat.xor_zero, Bool.not_true, testBit_fromBytes,
      bit]
    rw [getD_eq_getElem?_getD, getD_eq_getElem?_getD, getElem?_take_of_lt inWord,
      getElem?_drop, ← place]
  | false =>
    have reversed (l : List UInt8) : Words.fromBytes true l = Words.fromBytes false l.reverse := by
      simp [Words.fromBytes]
    simp only [bitOf, posXorMask, wordBit, Bool.false_eq_true, if_false, Bool.not_false, reversed,
      testBit_fromBytes, bit]
    rw [place, xor_wordMask word _ inWord, getD_eq_getElem?_getD, getD_eq_getElem?_getD,
      getElem?_reverse (by simp; omega), getElem?_take_of_lt (by simp; omega),
      getElem?_drop]
    congr 4
    simp
    omega

/-- The least set bit from one on, in the bytes up to the end of the last word that are there. -/
theorem next_set_bit_least (array : List UInt8) (curBit sizeBits : Nat) (small : sizeBits < 2 ^ 31)
    (holds : (sizeBits + 8 * wordsize - 1) / (8 * wordsize) * wordsize ≤ array.length) :
    ∃ result, nextSetBitInt array (posXorMask littleEndian wordsize) curBit sizeBits =
        some result ∧
      ((result = -1 ∧ ∀ i, curBit ≤ i → i < sizeBits →
        wordBit littleEndian wordsize array i = false) ∨
        ∃ least : Nat, result = least ∧ curBit ≤ least ∧ least < sizeBits ∧
          wordBit littleEndian wordsize array least = true ∧
          ∀ i, curBit ≤ i → i < least → wordBit littleEndian wordsize array i = false) := by
  have inside (pos : Nat) (within : pos * 8 < sizeBits) :
      array[pos ^^^ posXorMask littleEndian wordsize]? =
        some (array.getD (pos ^^^ posXorMask littleEndian wordsize) 0) := by
    have sameWord := xor_wordMask_div word littleEndian pos
    generalize pos ^^^ posXorMask littleEndian wordsize = spot at sameWord ⊢
    have there : spot < array.length := by rcases word with rfl | rfl <;> omega
    simp [there]
  have bit {i : Nat} (within : i < sizeBits) := bitOf_walked word littleEndian
    array (i := i) (by rcases word with rfl | rfl <;> omega)
  rw [nextSetBitInt, nextSetBit_eq inside]
  cases head : (bitsFrom _ curBit sizeBits).head? with
  | none =>
    refine ⟨-1, rfl, .inl ⟨rfl, fun i start within => ?_⟩⟩
    rw [List.head?_eq_none_iff] at head
    have clear : i ∉ bitsFrom _ curBit sizeBits := head ▸ List.not_mem_nil
    rw [← bit within]
    simpa [mem_bitsFrom, start, within] using clear
  | some least =>
    have cons := bitsFrom_of_head head
    have found := cons ▸ List.mem_cons_self
    obtain ⟨start, within, set⟩ := mem_bitsFrom.mp found
    refine ⟨least, ?_, .inr ⟨least, rfl, start, within, bit within ▸ set, fun i low high => ?_⟩⟩
    · simp only [Option.map_some, Option.some.injEq]
      rw [BitVec.toInt_eq_toNat_of_lt] <;> rw [BitVec.toNat_ofNat] <;> omega
    · rw [← bit (Nat.lt_trans high within), ← Bool.not_eq_true]
      intro set'
      have mem := mem_bitsFrom.mpr ⟨low, Nat.lt_trans high within, set'⟩
      rw [cons, List.mem_cons, mem_bitsFrom] at mem
      omega

end

/-- The second byte of a big-endian word of four, in a bitmap of one word. -/
theorem next_set_bit_least_big :
    ∃ result, nextSetBitInt [0, 2, 0, 1] 3 1 20 = some result ∧
      ((result = -1 ∧ ∀ i, 1 ≤ i → i < 20 → wordBit false 4 [0, 2, 0, 1] i = false) ∨
        ∃ least : Nat, result = least ∧ 1 ≤ least ∧ least < 20 ∧
          wordBit false 4 [0, 2, 0, 1] least = true ∧
          ∀ i, 1 ≤ i → i < least → wordBit false 4 [0, 2, 0, 1] i = false) :=
  next_set_bit_least (.inl rfl) false [0, 2, 0, 1] 1 20 (by decide) (by decide)

end Strace
