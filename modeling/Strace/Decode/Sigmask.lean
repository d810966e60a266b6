import Mathlib.Algebra.Order.BigOperators.Group.List
import Mathlib.Algebra.Order.Ring.Nat
import Mathlib.Data.List.Nodup
import Strace.Common
import Strace.Decode.NextSetBit
import Strace.Xlat.Flags

/-! `sprintsigmask_n` of `signal.c`: the signals of a mask, or those that it leaves out. The
machine is little-endian and has 64 signals. -/
namespace Strace.Sigmask
open List

open Buffers
open Xlat (Verbosity)

def nsigBytes : Nat := 8

def sizeofOutstr : Nat := 128 + 8 * (nsigBytes * 8 * 2 / 3)

/-! ## Names -/

def signalent : List String :=
  ["0", "SIGHUP", "SIGINT", "SIGQUIT", "SIGILL", "SIGTRAP", "SIGABRT", "SIGBUS", "SIGFPE",
    "SIGKILL", "SIGUSR1", "SIGSEGV", "SIGUSR2", "SIGPIPE", "SIGALRM", "SIGTERM", "SIGSTKFLT",
    "SIGCHLD", "SIGCONT", "SIGSTOP", "SIGTSTP", "SIGTTIN", "SIGTTOU", "SIGURG", "SIGXCPU",
    "SIGXFSZ", "SIGVTALRM", "SIGPROF", "SIGWINCH", "SIGIO", "SIGPWR", "SIGSYS", "SIGRTMIN"]

def asmSigrtmin : Nat := 32
def asmSigrtmax : Nat := 64

def sigName (i : Nat) : Option (List Char) :=
  match signalent[i]? with
  | some name => some (name.toList.drop 3)
  | none =>
    if asmSigrtmin ≤ i ∧ i ≤ asmSigrtmax then some ("RT_".toList ++ Xlat.decimal (i - asmSigrtmin))
    else none

/-! ## Writing the list -/

section

variable (verbosity : Verbosity)

def signalPieces (i : Nat) : List (List Char) :=
  (if verbosity ≠ .abbreviated then [Xlat.decimal i] else []) ++
  (if verbosity = .verbose then [" /* ".toList] else []) ++
  (if verbosity ≠ .raw then
    match sigName i with
    | some name => [name]
    | none => if verbosity ≠ .abbreviated then [Xlat.decimal i] else []
  else []) ++
  if verbosity = .verbose then [" */".toList] else []

def listSignals (array : List UInt8) (sizeBits i : Nat) (sep : Char) (s : Buffer Char) :
    Option (Char × Buffer Char) :=
  match _found : nextSetBit array 0 i sizeBits with
  | none => none
  | some none => some (sep, s)
  | some (some i) =>
    match (s.put sep).bind (·.appendAll (signalPieces verbosity (i + 1))) with
    | none => none
    | some s => listSignals array sizeBits (i + 1) ' ' s
termination_by sizeBits - i
decreasing_by
  have := nextSetBit_mem _found
  omega

def closeList (sep : Char) (s : Buffer Char) : Option (Buffer Char) :=
  (if sep = '[' then s.put sep else some s).bind fun s => (s.put ']').bind Buffer.terminate

end

/-! ## Masks -/

/-- The bytes of a word. -/
def wordBytes (w : UInt32) : List UInt8 :=
  [w.toUInt8, (w >>> 8).toUInt8, (w >>> 16).toUInt8, (w >>> 24).toUInt8]

structure Mask where
  bytes : Nat
  words : List UInt32
  limit : bytes ≤ nsigBytes
  length : words.length = (bytes + 3) / 4
  cleared : ∀ i, 8 * bytes ≤ i → arrayBit words i = false

namespace Mask

variable (m : Mask)

/-- The length in words. -/
def size : Nat := (min m.bytes nsigBytes + 3) / 4

/-- Whether 2/3 or more of the bits are set. -/
def inverted : Bool := decide (m.size * (4 * 8) * 2 / 3 ≤ popcount32 (m.words.take m.size))

/-- The words that are walked through. -/
def shown : List UInt32 :=
  if m.inverted then (m.words.take m.size).map (~~~ ·) else m.words

def sprintsigmaskN (verbosity : Verbosity) (pre : CString) (outstr : List Char) :
    Option (Buffer Char) :=
  ((Buffer.append ⟨[], outstr⟩ pre).bind fun s =>
    if m.inverted then s.put '~' else some s).bind fun s =>
    (listSignals verbosity (m.shown.flatMap wordBytes)
      (m.size * (4 * 8)) 0 '[' s).bind fun (sep, s) =>
      closeList sep s

end Mask

/-! ## The bits of a mask -/

section

variable {words : List UInt32}

variable {i k : Nat}

theorem bit_of_le (beyond : 32 * words.length ≤ i) : arrayBit words i = false := by
  rw [arrayBit, getD_eq_default _ _ (by omega)]
  exact Nat.zero_testBit _

theorem testBit_byte (w : UInt32) {j : Nat} (inWord : k < 4) (inByte : j < 8) :
    ((w >>> UInt32.ofNat (8 * k)).toUInt8).toNat.testBit j = w.toNat.testBit (8 * k + j) := by
  have shift : (UInt32.ofNat (8 * k)).toNat % 32 = 8 * k := by
    rw [UInt32.toNat_ofNat']
    omega
  rw [UInt32.toNat_toUInt8, UInt32.toNat_shiftRight, shift, Nat.testBit_mod_two_pow]
  simp [inByte]

theorem getD_wordBytes (w : UInt32) (inWord : k < 4) (rest : List UInt8) :
    (wordBytes w ++ rest).getD k 0 = (w >>> UInt32.ofNat (8 * k)).toUInt8 := by
  match k, inWord with
  | 0, _ => simp [wordBytes]
  | 1, _ => rfl
  | 2, _ => rfl
  | 3, _ => rfl

theorem bitOf_wordBytes (words : List UInt32) (i : Nat) :
    bitOf ((words.flatMap wordBytes).getD · 0) i = arrayBit words i := by
  induction words generalizing i with
  | nil => simp [bitOf, arrayBit]
  | cons w words ih =>
    rw [arrayBit_cons, bitOf, flatMap_cons]
    split
    · rw [getD_wordBytes w (by omega), testBit_byte w (by omega) (by omega)]
      congr 1
      omega
    · rw [← ih (i - 32), getD_append_right _ _ _ _ (by simp [wordBytes]; omega)]
      have byte : i / 8 - (wordBytes w).length = (i - 32) / 8 := by
        grind [wordBytes]
      rw [byte]
      congr 1
      omega

theorem length_flatMap_wordBytes (words : List UInt32) :
    (words.flatMap wordBytes).length = 4 * words.length := by
  induction words with
  | nil => rfl
  | cons w words ih =>
    rw [flatMap_cons, length_append]
    simp only [wordBytes, length_cons, length_nil]
    omega

theorem bit_map_not (inside : i < 32 * words.length) :
    arrayBit (words.map (~~~ ·)) i = !arrayBit words i := by
  induction words generalizing i with
  | nil => cases inside
  | cons w words ih =>
    rw [map_cons, arrayBit_cons, arrayBit_cons]
    split
    · next first =>
      have complement : UInt32.size - 1 - w.toNat = 2 ^ 32 - (w.toNat + 1) := by
        simp
      rw [UInt32.toNat_not, complement, Nat.testBit_two_pow_sub_succ w.toNat_lt]
      simp [first]
    · grind

end

/-! ## What is written -/

section

variable (verbosity : Verbosity)

def shownName (i : Nat) : List Char :=
  (sigName i).getD (if verbosity = .abbreviated then [] else Xlat.decimal i)

/-- The text for signal `i`. -/
def entry (i : Nat) : List Char :=
  match verbosity with
  | .abbreviated => shownName verbosity i
  | .raw => Xlat.decimal i
  | .verbose => Xlat.decimal i ++ " /* ".toList ++ shownName verbosity i ++ " */".toList
  | .default => Xlat.decimal i ++ shownName verbosity i

theorem flatten_signalPieces (i : Nat) :
    (signalPieces verbosity i).flatten = entry verbosity i := by
  unfold signalPieces entry shownName
  cases verbosity <;> cases sigName i <;> simp

def listText : Char → List Nat → List Char
  | sep, [] => (if sep = '[' then [sep] else []) ++ [']']
  | sep, i :: rest => [sep] ++ entry verbosity i ++ listText ' ' rest

variable {verbosity} {array : List UInt8} {byte : Nat → UInt8} {sizeBits i size : Nat} {sep : Char}
  {s : Buffer Char} {written : List Char}

theorem closeList_ends (holds : s.Holds size written) :
    Buffer.Ends size (written ++ listText verbosity sep []) (closeList sep s) := by
  have bracket : Buffer.Writes size (written ++ if sep = '[' then [sep] else [])
      (if sep = '[' then s.put sep else some s) := by
    split
    · exact holds.put_writes sep
    · simpa using .holds holds
  rw [listText, ← append_assoc]
  refine bracket.ends fun s held => ?_
  have closed : Buffer.Ends size (written ++ (if sep = '[' then [sep] else []) ++ [']'] ++ [])
      ((s.put ']').bind Buffer.terminate) := by
    refine (held.put_writes ']').ends fun s held => ?_
    rw [append_nil]
    exact held.terminate_ends
  rwa [append_nil] at closed

theorem signal_writes (verbosity : Verbosity) (holds : s.Holds size written) (sep : Char)
    (i : Nat) :
    Buffer.Writes size (written ++ [sep] ++ entry verbosity i)
      ((s.put sep).bind (·.appendAll (signalPieces verbosity i))) :=
  flatten_signalPieces verbosity i ▸
    (holds.put_writes sep).bind fun _ held => held.appendAll_writes (signalPieces verbosity i)

theorem listSignals_ends (verbosity : Verbosity) (i : Nat) (sep : Char)
    (inside : ∀ pos, pos * 8 < sizeBits → array[pos ^^^ 0]? = some (byte pos))
    (holds : s.Holds size written) :
    Buffer.Ends size (written ++ listText verbosity sep ((bitsFrom byte i sizeBits).map (· + 1)))
      ((listSignals verbosity array sizeBits i sep s).bind fun (sep, s) => closeList sep s) := by
  fun_induction listSignals verbosity array sizeBits i sep s generalizing written with
  | case1 i sep s outside =>
    grind [nextSetBit_eq]
  | case2 i sep s last =>
    rw [nextSetBit_eq inside, Option.some.injEq, head?_eq_none_iff] at last
    rw [last]
    exact closeList_ends holds
  | case3 i sep s next found none =>
    have head := Option.some.inj ((nextSetBit_eq inside).symm.trans found)
    have one := signal_writes verbosity holds sep (next + 1)
    rw [none] at one
    cases one with
    | full small =>
      rw [bitsFrom_of_head head, map_cons, listText, ← append_assoc, ← append_assoc]
      refine .full ?_
      rw [length_append]
      omega
  | case4 i sep s next found s' some ih =>
    have head := Option.some.inj ((nextSetBit_eq inside).symm.trans found)
    have one := signal_writes verbosity holds sep (next + 1)
    rw [some] at one
    cases one with
    | holds held =>
      rw [bitsFrom_of_head head, map_cons, listText, ← append_assoc, ← append_assoc]
      exact ih held

end

namespace Mask

variable (m : Mask)

/-- The signals that are listed. -/
def listed : List Nat := ((List.range (m.size * (4 * 8))).filter (arrayBit m.shown)).map (· + 1)

def text (verbosity : Verbosity) (pre : List Char) : List Char :=
  pre ++ (if m.inverted then ['~'] else []) ++ listText verbosity '[' m.listed

theorem size_eq : m.size = m.words.length := by
  rw [size, Nat.min_eq_left m.limit, m.length]

theorem size_le : m.size ≤ 2 := by
  unfold size nsigBytes at *
  omega

theorem take_size : m.words.take m.size = m.words := take_of_length_le (by rw [size_eq])

theorem length_shown : m.shown.length = m.size := by
  unfold shown
  split
  · rw [length_map, take_size, size_eq]
  · exact m.size_eq.symm

theorem bit_shown {i : Nat} (inside : i < 32 * m.size) :
    arrayBit m.shown i = (arrayBit m.words i ^^ m.inverted) := by
  unfold shown
  split
  · next flipped =>
    rw [take_size, bit_map_not (by rwa [← size_eq]), flipped, Bool.xor_true]
  · next same => rw [Bool.eq_false_iff.mpr same, Bool.xor_false]

theorem shown_bytes {pos : Nat} (inside : pos * 8 < m.size * (4 * 8)) :
    (m.shown.flatMap wordBytes)[pos ^^^ 0]? = some ((m.shown.flatMap wordBytes).getD pos 0) := by
  have length : (m.shown.flatMap wordBytes).length = 4 * m.size := by
    rw [length_flatMap_wordBytes, length_shown]
  rw [Nat.xor_zero, getElem?_eq_getElem (by omega), getD_eq_getElem _ _ (by omega)]

theorem sprintsigmaskN_ends (verbosity : Verbosity) (pre : CString) {outstr : List Char}
    (whole : outstr.length = sizeofOutstr) :
    Buffer.Ends sizeofOutstr (m.text verbosity pre) (m.sprintsigmaskN verbosity pre outstr) := by
  have start : Buffer.Holds ⟨[], outstr⟩ sizeofOutstr [] := ⟨rfl, by simpa using whole⟩
  have bits : bitsFrom ((m.shown.flatMap wordBytes).getD · 0) 0 (m.size * (4 * 8)) =
      (List.range (m.size * (4 * 8))).filter (arrayBit m.shown) := by
    rw [range_eq_range']
    exact filter_congr fun i _ => bitOf_wordBytes m.shown i
  have tilde : Buffer.Writes sizeofOutstr ([] ++ pre.val ++ if m.inverted then ['~'] else [])
      ((Buffer.append ⟨[], outstr⟩ pre).bind fun s =>
        if m.inverted then s.put '~' else some s) := by
    refine (start.append_writes pre.val).bind fun s held => ?_
    split
    · exact held.put_writes '~'
    · simpa using .holds held
  have list := tilde.ends fun s held => listSignals_ends verbosity 0 '['
    (fun _ inside => m.shown_bytes inside) held
  rw [bits] at list
  exact list

/-! ## What is shown -/

/-- A signal of the mask. -/
def Has (sig : Nat) : Prop := 0 < sig ∧ arrayBit m.words (sig - 1) = true

end Mask

structure Shows (m : Mask) (verbosity : Verbosity) (pre text : List Char) (complement : Bool)
    (signals : List Nat) : Prop where
  text_eq : text = pre ++ (if complement then ['~'] else []) ++ listText verbosity '[' signals
  ascending : signals.Pairwise (· < ·)
  valid : ∀ sig ∈ signals, 0 < sig ∧ sig ≤ 32 * m.size
  exact : ∀ sig, 0 < sig → sig ≤ 32 * m.size → (m.Has sig ↔ (sig ∈ signals ↔ complement = false))

theorem Mask.shows (m : Mask) (verbosity : Verbosity) (pre : List Char) :
    Shows m verbosity pre (m.text verbosity pre) m.inverted m.listed where
  text_eq := rfl
  ascending := by
    rw [Mask.listed, pairwise_map]
    exact (pairwise_lt_range.filter _).imp fun less => Nat.succ_lt_succ less
  valid := by
    intro sig member
    obtain ⟨i, kept, rfl⟩ := mem_map.mp member
    have := mem_range.mp (mem_filter.mp kept).1
    omega
  exact := by
    intro sig positive inside
    obtain ⟨i, rfl⟩ := Nat.exists_eq_succ_of_ne_zero (Nat.ne_of_gt positive)
    have member : i + 1 ∈ m.listed ↔ arrayBit m.shown i = true := by
      simp only [Mask.listed, mem_map, mem_filter]
      constructor
      · simp
      · grind
    rw [member, m.bit_shown inside, Mask.Has]
    cases m.inverted <;> simp

/-! ## Lengths -/

variable {sig : Nat}

theorem sigName_eq (valid : sig ≤ 64) :
    ∃ name, sigName sig = some name ∧ name.length ≤ 6 ∧ nul ∉ name := by
  have checked : ∀ sig ≤ 64, (sigName sig).any
      (fun name => decide (name.length ≤ 6) && name.all (· ≠ nul)) = true := by
    decide +kernel
  obtain ⟨name, eq, good⟩ := (Option.any_eq_true _ _).mp (checked sig valid)
  rw [Bool.and_eq_true, decide_eq_true_iff, all_eq_true] at good
  exact ⟨name, eq, good.1, fun mem => absurd rfl (of_decide_eq_true (good.2 nul mem))⟩

theorem sigName_injective {a b : Nat} (validA : 0 < a ∧ a ≤ 64) (validB : 0 < b ∧ b ≤ 64)
    (same : sigName a = sigName b) : a = b := by
  have code : ((List.range' 1 64).map fun sig => ((sigName sig).getD []).foldl
      (fun n c => 256 * n + c.toNat) 0).Nodup := by
    decide +kernel
  refine inj_on_of_nodup_map code (mem_range'_1.mpr ?_) (mem_range'_1.mpr ?_)
    (congrArg (fun name => (name.getD []).foldl (fun n c => 256 * n + c.toNat) 0) same)
  · omega
  · omega

/-- A separator and `%u /* NAME */`. -/
def verboseLength (sig : Nat) : Nat :=
  (Xlat.decimal sig).length + ((sigName sig).getD []).length + 8

theorem length_decimal_le (valid : sig ≤ 64) : (Xlat.decimal sig).length ≤ 2 :=
  (Nat.length_toDigits_le_iff (by decide) (by decide)).mpr (by omega)

theorem shownName_eq (verbosity : Verbosity) (valid : sig ≤ 64) :
    shownName verbosity sig = (sigName sig).getD [] := by
  obtain ⟨name, eq, -⟩ := sigName_eq valid
  rw [shownName, eq]
  rfl

theorem length_entry_verbose (valid : sig ≤ 64) :
    1 + (entry .verbose sig).length = verboseLength sig := by
  have before : " /* ".toList.length = 4 := rfl
  have after : " */".toList.length = 3 := rfl
  rw [entry, shownName_eq _ valid, verboseLength]
  simp only [length_append]
  omega

theorem length_entry_le {verbosity : Verbosity} (short : verbosity ≠ .verbose)
    (proper : verbosity ≠ .default) (valid : sig ≤ 64) :
    1 + (entry verbosity sig).length ≤ 7 := by
  obtain ⟨name, eq, short_name, -⟩ := sigName_eq valid
  have number := length_decimal_le valid
  cases verbosity with
  | default => exact absurd rfl proper
  | raw =>
    rw [entry]
    omega
  | abbreviated =>
    rw [entry, shownName_eq _ valid, eq, Option.getD_some]
    omega
  | verbose => exact absurd rfl short

theorem length_listText (verbosity : Verbosity) (signals : List Nat) :
    (listText verbosity '[' signals).length =
      (signals.map fun sig => 1 + (entry verbosity sig).length).sum +
        if signals = [] then 2 else 1 := by
  have later : ∀ signals, (listText verbosity ' ' signals).length =
      (signals.map fun sig => 1 + (entry verbosity sig).length).sum + 1 := by
    intro signals
    induction signals with
    | nil => rfl
    | cons sig rest ih =>
      rw [listText, length_append, length_append, map_cons, sum_cons,
        length_singleton]
      omega
  cases signals with
  | nil => rfl
  | cons sig rest =>
    rw [listText, length_append, length_append, later, map_cons, sum_cons,
      length_singleton, if_neg (cons_ne_nil sig rest)]
    omega

theorem nul_not_mem_entry (verbosity : Verbosity) (valid : sig ≤ 64) :
    nul ∉ entry verbosity sig := by
  have number : nul ∉ Xlat.decimal sig := nul_not_mem_toDigits (by decide) (by decide) sig
  obtain ⟨name, eq, -, plain⟩ := sigName_eq valid
  have before : nul ∉ " /* ".toList := by decide
  unfold entry
  rw [shownName_eq verbosity valid, eq]
  cases verbosity with
  | default => exact mem_append.not.mpr (not_or.mpr ⟨number, plain⟩)
  | raw => exact number
  | abbreviated => exact plain
  | verbose =>
    grind

theorem nul_not_mem_listText (verbosity : Verbosity) {sep : Char} (plain : sep ≠ nul)
    {signals : List Nat} (valid : ∀ sig ∈ signals, sig ≤ 64) :
    nul ∉ listText verbosity sep signals := by
  induction signals generalizing sep with
  | nil =>
    have close : nul ∉ [']'] := by decide
    rw [listText, mem_append, not_or]
    refine ⟨?_, close⟩
    split
    · simpa using plain.symm
    · exact not_mem_nil
  | cons sig rest ih =>
    obtain ⟨first, later⟩ := forall_mem_cons.mp valid
    rw [listText, mem_append, mem_append, not_or, not_or]
    exact ⟨⟨by simpa using plain.symm, nul_not_mem_entry verbosity first⟩, ih (by decide) later⟩

namespace Mask

variable (m : Mask)

theorem length_listed_le : m.listed.length ≤ 41 := by
  have length : m.listed.length = (List.range (32 * m.size)).countP (arrayBit m.shown) := by
    rw [listed, length_map, countP_eq_length_filter, Nat.mul_comm]
  have shown : (List.range (32 * m.size)).countP (arrayBit m.shown) =
      (List.range (32 * m.size)).countP fun i => arrayBit m.words i ^^ m.inverted := by
    apply countP_congr
    intro i mem
    rw [m.bit_shown (mem_range.mp mem)]
  have count : popcount32 (m.words.take m.size) =
      (List.range (32 * m.size)).countP (arrayBit m.words) := by
    rw [take_size, popcount32_eq, ← size_eq]
  have size := m.size_le
  rw [length, shown]
  cases flipped : m.inverted with
  | false =>
    have few := of_decide_eq_false flipped
    have same : (fun i => arrayBit m.words i ^^ false) = arrayBit m.words := funext fun _ =>
      Bool.xor_false _
    rw [same]
    omega
  | true =>
    have many := of_decide_eq_true flipped
    have total := length_eq_countP_add_countP (arrayBit m.words) (l := List.range (32 * m.size))
    simp only [Bool.xor_true, Bool.not_eq_true, Bool.decide_eq_false, length_range] at total ⊢
    omega

def Fits (pre : List Char) : Prop :=
  pre.length + (if m.inverted then 1 else 0) + (m.listed.map verboseLength).sum +
    (if m.listed = [] then 2 else 1) < sizeofOutstr

instance (pre : List Char) : Decidable (m.Fits pre) := Nat.decLt _ _

theorem listed_le : ∀ sig ∈ m.listed, sig ≤ 64 := by
  intro sig mem
  have := ((m.shows .raw []).valid sig mem).2
  have := m.size_le
  omega

theorem nul_not_mem_text (verbosity : Verbosity) (pre : CString) :
    nul ∉ m.text verbosity pre := by
  have tilde : nul ∉ if m.inverted then ['~'] else [] := by
    split <;> decide
  simp only [text, mem_append, not_or]
  exact ⟨⟨pre.property, tilde⟩, nul_not_mem_listText verbosity (by decide) m.listed_le⟩

theorem length_text (verbosity : Verbosity) (pre : List Char) :
    (m.text verbosity pre).length = pre.length + (if m.inverted then 1 else 0) +
      (m.listed.map fun sig => 1 + (entry verbosity sig).length).sum +
      (if m.listed = [] then 2 else 1) := by
  rw [text, length_append, length_append, length_listText, ← Nat.add_assoc]
  split <;> rfl

theorem length_text_lt_iff {verbosity : Verbosity} (proper : verbosity ≠ .default)
    {pre : List Char} (short : pre.length ≤ 16) :
    (m.text verbosity pre).length < sizeofOutstr ↔ verbosity ≠ .verbose ∨ m.Fits pre := by
  have valid := m.listed_le
  rw [length_text]
  by_cases verbose : verbosity = .verbose
  · have lengths : m.listed.map (fun sig => 1 + (entry verbosity sig).length) =
        m.listed.map verboseLength :=
      map_congr_left fun sig mem => by rw [verbose, length_entry_verbose (valid sig mem)]
    rw [lengths]
    simp only [verbose, ne_eq, not_true_eq_false, false_or, Fits]
  · have sum : (m.listed.map fun sig => 1 + (entry verbosity sig).length).sum ≤
        m.listed.length * 7 := by
      have each := sum_le_card_nsmul (m.listed.map fun sig => 1 + (entry verbosity sig).length) 7
        (forall_mem_map.mpr fun sig mem => length_entry_le verbose proper (valid sig mem))
      rwa [length_map] at each
    have few := m.length_listed_le
    refine iff_of_true ?_ (.inl verbose)
    unfold sizeofOutstr nsigBytes
    split <;> split <;> omega

end Mask

/-- The signals have different names, and the buffer is sized for these: it is large enough for
every mask in the other styles, and in the verbose style exactly if numbers, names and comment
signs have room. -/
theorem sprintsigmask_n_shows_iff (m : Mask) (verbosity : Verbosity)
    (proper : verbosity ≠ .default) (pre : CString) (short : pre.val.length ≤ 16)
    (outstr : List Char) (whole : outstr.length = sizeofOutstr) :
    (∀ a b, 0 < a ∧ a ≤ 64 → 0 < b ∧ b ≤ 64 → sigName a = sigName b → a = b) ∧
    ((∃ b, m.sprintsigmaskN verbosity pre outstr = some b ∧
        ∃ complement signals, Shows m verbosity pre b.contents complement signals) ↔
      verbosity ≠ .verbose ∨ m.Fits pre) := by
  refine ⟨fun a b => sigName_injective, ?_⟩
  rw [← m.length_text_lt_iff proper short]
  have ends := m.sprintsigmaskN_ends verbosity pre whole
  constructor
  · rintro ⟨b, eq, -⟩
    rw [eq] at ends
    cases ends with
    | ended _ _ room => exact room
  · intro room
    generalize m.sprintsigmaskN verbosity pre outstr = result at ends
    cases ends with
    | full small => omega
    | @ended b holds ended _ =>
      refine ⟨b, rfl, m.inverted, m.listed, ?_⟩
      rw [holds.contents ended (m.nul_not_mem_text verbosity pre)]
      exact m.shows verbosity pre

/-- A mask of eight bytes. -/
def Mask.ofWords (low high : UInt32) : Mask where
  bytes := 8
  words := [low, high]
  limit := Nat.le_refl 8
  length := rfl
  cleared := fun _ beyond => bit_of_le beyond

theorem sprintsigmask_n_shows_hup_int :
    ∃ b, (Mask.ofWords 3 0).sprintsigmaskN .verbose ⟨[], List.not_mem_nil⟩
        (List.replicate sizeofOutstr nul) = some b ∧
      ∃ complement signals, Shows (Mask.ofWords 3 0) .verbose [] b.contents complement signals :=
  (sprintsigmask_n_shows_iff (Mask.ofWords 3 0) .verbose (by decide) ⟨[], List.not_mem_nil⟩
    (by decide) _ List.length_replicate).2.mpr (.inr (by decide +kernel))

/-- With numbers and names there is no room for the signals from 1 to 41. -/
theorem sprintsigmask_n_overflows :
    (Mask.ofWords 0xffffffff 0x1ff).sprintsigmaskN .verbose ⟨[], List.not_mem_nil⟩
      (List.replicate sizeofOutstr nul) = none := by
  have ends := (Mask.ofWords 0xffffffff 0x1ff).sprintsigmaskN_ends .verbose
    ⟨[], List.not_mem_nil⟩ (List.length_replicate (a := nul))
  generalize (Mask.ofWords 0xffffffff 0x1ff).sprintsigmaskN .verbose ⟨[], List.not_mem_nil⟩
    (List.replicate sizeofOutstr nul) = result at ends
  cases ends with
  | full => rfl
  | ended _ _ room =>
    have fits := (Mask.length_text_lt_iff _ (by decide) (by decide)).mp room
    exact absurd (fits.resolve_left (not_not.mpr rfl)) (by decide +kernel)

end Strace.Sigmask
