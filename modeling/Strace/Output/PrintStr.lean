import Mathlib.Data.List.GetD
import Mathlib.Data.Nat.Find
import Strace.Output.PrintQuoted
import Strace.Ucopy.Umove
import Strace.Words

/-! `printstr_ex` of `util.c`, with the two buffers that it keeps from call to call. An
access outside a buffer leaves no result. -/
namespace Strace
open List Option

open Escapes (ch)

/-! ## `string_quote` on a buffer -/

section

variable (buf : List UInt8) (eol : Nat) (xstyle : HexstrOpts) (escapeChars : Option (List UInt8))

def needsHexIn : (left i : Nat) → Option Bool
  | 0, _ => some false
  | left + 1, i => do
    let c ← buf[i]?
    if c.toNat = eol then some false
    else if c.toNat > 0x7e then some true
    else if c.toNat < 0x20 ∧ 5 ≤ (c.toNat + 2 ^ 32 - 9) % 2 ^ 32 then some true
    else needsHexIn left (i + 1)

def hexLoopIn : (left i : Nat) → Option (List UInt8 × Bool)
  | 0, _ => some ([], false)
  | left + 1, i => do
    let c ← buf[i]?
    if c.toNat = eol then some ([], true)
    else
      let (text, ended) ← hexLoopIn left (i + 1)
      some (ch '\\' :: ch 'x' :: sprintByteHex c ++ text, ended)

def lookAhead (size i : Nat) : Option (Option UInt8) :=
  if i + 1 < size then (buf[i + 1]?).map some else some none

def quoteLoopIn (size : Nat) (omitTrailing0 : Bool) : (left i : Nat) → Option (List UInt8 × Bool)
  | 0, _ => some ([], false)
  | left + 1, i => do
    let c ← buf[i]?
    if c.toNat = eol then some ([], true)
    else if i = size - 1 ∧ omitTrailing0 ∧ c = 0 then some ([], true)
    else
      let next ← lookAhead buf size i
      let digitFollows := next.any fun d => ch '0' ≤ d ∧ d ≤ ch '7'
      let (text, ended) ← quoteLoopIn size omitTrailing0 left (i + 1)
      some (quoteChar xstyle escapeChars c digitFollows ++ text, ended)

end

/-- Whether the text is hexadecimal. -/
def usesHexIn (buf : List UInt8) (eol : Nat) (size : Nat) : (xstyle : HexstrOpts) → Option Bool
  | .all => some true
  | .nonAscii => needsHexIn buf eol size 0
  | _ => some false

def quoteTextIn (buf : List UInt8) (eol : Nat) (xstyle : HexstrOpts)
    (escapeChars : Option (List UInt8)) (size : Nat) (omitTrailing0 : Bool) :
    Option (List UInt8 × Bool) := do
  let usehex ← usesHexIn buf eol size xstyle
  if usehex then hexLoopIn buf eol size 0
  else quoteLoopIn buf eol xstyle escapeChars size omitTrailing0 size 0

variable (xflag : HexstrOpts)

def stringQuoteIn (buf : List UInt8) (outstrSize size : Nat) (style : UInt32)
    (escapeChars : Option (List UInt8)) : Option (List UInt8 × Nat) := do
  let (text, ascizEnded) ← quoteTextIn buf (endOfLine style) (hexStyle xflag style) escapeChars
    size (style &&& quoteOmitTrailing0 ≠ 0)
  let outstr := openingDelimiter style ++ text ++ closingDelimiter style
  if outstr.length + 1 > outstrSize then none
  else if ascizEnded then some (outstr, 0)
  else if style &&& quote0Terminated ≠ 0 then do
    let c ← buf[size]?
    some (outstr, if c = 0 then 0 else 1)
  else some (outstr, 1)

/-! ## `printstr_ex` -/

structure Fetched where
  stored : List UInt8
  rc : Int

structure PrintStrCall where
  addr : Nat
  len : Nat
  style : UInt32
  umovestr : (size : Nat) → Fetched
  umoven : (size : Nat) → Fetched

structure StrBuffers where
  str : List UInt8
  outstrSize : Nat

inductive PrintedStr where
  | null
  | addr
  | quoted (outstr : List UInt8) (ellipsis : Bool)
  deriving DecidableEq, Repr

def copyTo (buf stored : List UInt8) : Option (List UInt8) :=
  if stored.length ≤ buf.length then some (stored ++ buf.drop stored.length) else none

/-- `buf[i] = b` -/
def setByte (buf : List UInt8) (i : Nat) (b : UInt8) : Option (List UInt8) :=
  if i < buf.length then some (buf.set i b) else none

section

variable (xflag : HexstrOpts) (maxStrlen : Nat) (uninitialised : Nat → UInt8)

def allocBuffers : StrBuffers :=
  { str := (List.range ((maxStrlen + 1) % 2 ^ 32)).map uninitialised
    outstrSize := (4 * maxStrlen + 3) % 2 ^ 32 }

/-- One byte more than is printed. -/
def fetchSize (len : Nat) : Nat :=
  let size := (maxStrlen + 1) % 2 ^ 32
  if size > len then len else size

def plantSentinel (str : List UInt8) (size : Nat) : Option (List UInt8) :=
  if size > maxStrlen then some str else setByte str size 0xff

def printedSize (len size : Nat) (style : UInt32) : Nat :=
  let size := if size > maxStrlen then maxStrlen else size
  if style &&& (quote0Terminated ||| quoteExpectTrailing0) =
      quote0Terminated ||| quoteExpectTrailing0 ∧ size = len ∧ size ≠ 0 then size - 1 else size

def appendsEllipsis (len : Nat) (style : UInt32) (unterminated : Nat) : Bool :=
  decide (unterminated ≠ 0 ∧ len ≠ 0 ∧
    (style &&& (quote0Terminated ||| quoteExpectTrailing0) ≠ 0 ∨ len > maxStrlen))

def PrintStrCall.fetched (call : PrintStrCall) : Fetched :=
  let size := fetchSize maxStrlen call.len
  if call.style &&& quote0Terminated ≠ 0 then call.umovestr size else call.umoven size

def printstrEx (bufs : Option StrBuffers) (call : PrintStrCall) :
    Option (Option StrBuffers × PrintedStr × Int) :=
  if call.addr = 0 then some (bufs, .null, -1)
  else do
    let bufs := bufs.getD (allocBuffers maxStrlen uninitialised)
    let fetched := call.fetched maxStrlen
    let str ← copyTo bufs.str fetched.stored
    if fetched.rc < 0 then some (some { bufs with str }, .addr, fetched.rc)
    else
      let size := fetchSize maxStrlen call.len
      let str ← plantSentinel maxStrlen str size
      let (outstr, unterminated) ← stringQuoteIn xflag str bufs.outstrSize
        (printedSize maxStrlen call.len size call.style) call.style none
      some (some { bufs with str },
        .quoted outstr (appendsEllipsis maxStrlen call.len call.style unterminated), fetched.rc)

/-- The buffers after some calls. -/
def printAll (bufs : Option StrBuffers) : List PrintStrCall → Option (Option StrBuffers)
  | [] => some bufs
  | call :: rest => do
    let (bufs, _) ← printstrEx xflag maxStrlen uninitialised bufs call
    printAll bufs rest

end

/-! ## Quoting from a buffer -/

section

variable {buf : List UInt8} {eol : Nat} {xstyle : HexstrOpts} {escapeChars : Option (List UInt8)}
  {i left size : Nat} {omitTrailing0 : Bool}

theorem getElem?_inside (inside : i < buf.length) : buf[i]? = some (buf.getD i 0) := by
  rw [getD_eq_getElem?_getD, getElem?_eq_getElem inside, getD_some]

theorem needsHexIn_eq (inside : i + left ≤ buf.length) :
    needsHexIn buf eol left i = some (needsHex (buf.getD · 0) eol left i) := by
  induction left generalizing i with
  | zero => rfl
  | succ left ih =>
    unfold needsHexIn needsHex
    rw [getElem?_inside (by omega), ih (by omega)]
    simp only [bind_eq_bind, bind_some, apply_ite some]

theorem hexLoopIn_eq (inside : i + left ≤ buf.length) :
    hexLoopIn buf eol left i = some (hexLoop (buf.getD · 0) eol left i) := by
  induction left generalizing i with
  | zero => rfl
  | succ left ih =>
    unfold hexLoopIn hexLoop
    rw [getElem?_inside (by omega), ih (by omega)]
    simp only [bind_eq_bind, bind_some, apply_ite some]

theorem lookAhead_eq (inside : size ≤ buf.length) :
    (lookAhead buf size i).map (Option.any fun d => ch '0' ≤ d ∧ d ≤ ch '7') =
      some (decide (i + 1 < size ∧ ch '0' ≤ buf.getD (i + 1) 0 ∧ buf.getD (i + 1) 0 ≤ ch '7')) := by
  unfold lookAhead
  by_cases next : i + 1 < size
  · grind
  · simp [next]

theorem quoteLoopIn_eq (fits : size ≤ buf.length) (inside : i + left ≤ size) :
    quoteLoopIn buf eol xstyle escapeChars size omitTrailing0 left i =
      some (quoteLoop (buf.getD · 0) eol xstyle escapeChars size omitTrailing0 left i) := by
  induction left generalizing i with
  | zero => rfl
  | succ left ih =>
    obtain ⟨next, ahead, digit⟩ := map_eq_some_iff.mp (lookAhead_eq fits)
    unfold quoteLoopIn quoteLoop
    rw [getElem?_inside (by omega), ih (by omega), ahead]
    simp only [bind_eq_bind, bind_some, apply_ite some, digit]

theorem quoteTextIn_eq (fits : size ≤ buf.length) :
    quoteTextIn buf eol xstyle escapeChars size omitTrailing0 =
      some (quoteText (buf.getD · 0) eol xstyle escapeChars size omitTrailing0) := by
  have hex : usesHexIn buf eol size xstyle = some (usesHex (buf.getD · 0) eol size xstyle) := by
    cases xstyle with
    | nonAscii => exact needsHexIn_eq (by omega)
    | none | all | nonAsciiChars => rfl
  unfold quoteTextIn quoteText
  rw [hex, hexLoopIn_eq (by omega), quoteLoopIn_eq fits (by omega)]
  simp only [bind_eq_bind, bind_some, apply_ite some]

theorem stringQuoteIn_eq {outstrSize : Nat} {style : UInt32}
    (inside : size < buf.length) (room : 4 * size + (delimitersSize style).toNat ≤ outstrSize) :
    stringQuoteIn xflag buf outstrSize size style escapeChars =
      some (stringQuote xflag (buf.getD · 0) size style escapeChars) := by
  have fits := (stringQuote_length xflag (buf.getD · 0) size style escapeChars).2
  rw [stringQuote_eq] at fits ⊢
  unfold stringQuoteIn
  rw [quoteTextIn_eq (by omega)]
  dsimp only at fits ⊢
  rw [bind_eq_bind, bind_some, if_neg (by omega)]
  split
  · rfl
  · grind

end

/-! ## Whether the string ended -/

section

variable {ustr : Nat → UInt8} {eol : Nat} {xstyle : HexstrOpts} {escapeChars : Option (List UInt8)}

theorem hexLoop_ended (left i : Nat) :
    (hexLoop ustr eol left i).2 = true ↔ ∃ k < left, (ustr (i + k)).toNat = eol := by
  induction left generalizing i with
  | zero => simp [hexLoop]
  | succ left ih =>
    rw [Nat.exists_lt_succ_left, hexLoop]
    split
    · next ends => simp [ends]
    · next other => simp [ih, other, Nat.add_assoc, Nat.add_comm 1]

theorem quoteLoop_ended (size left i : Nat) :
    (quoteLoop ustr eol xstyle escapeChars size false left i).2 = true ↔
      ∃ k < left, (ustr (i + k)).toNat = eol := by
  induction left generalizing i with
  | zero => simp [quoteLoop]
  | succ left ih =>
    rw [Nat.exists_lt_succ_left, quoteLoop]
    split
    · next ends => simp [ends]
    · next other => simp [ih, other, Nat.add_assoc, Nat.add_comm 1]

theorem stringQuote_ended (size : Nat) {style : UInt32}
    (keeps : style &&& quote0Terminated ≠ 0 ∨ style &&& quoteOmitTrailing0 = 0) :
    (stringQuote xflag ustr size style escapeChars).2 = 0 ↔
      style &&& quote0Terminated ≠ 0 ∧ ∃ k < size + 1, ustr k = 0 := by
  have ended : (quoteText ustr (endOfLine style) (hexStyle xflag style) escapeChars size
      false).2 = true ↔ ∃ k < size, (ustr k).toNat = endOfLine style := by
    unfold quoteText
    split
    · simp [hexLoop_ended]
    · simp [quoteLoop_ended]
  rw [stringQuote_eq, quoteText_keeps _ _ _ _ keeps]
  by_cases terminated : style &&& quote0Terminated ≠ 0
  · have zero (k : Nat) : (ustr k).toNat = endOfLine style ↔ ustr k = 0 := by
      rw [endOfLine, if_pos terminated, ← UInt8.toNat_inj]
      rfl
    simp only [zero] at ended
    rw [Nat.exists_lt_succ_right, ← ended]
    split
    · next ends => simp [ends, terminated]
    · next goesOn => simp [goesOn]
  · have never (k : Nat) : (ustr k).toNat ≠ endOfLine style := by
      rw [endOfLine, if_neg terminated]
      exact Nat.ne_of_lt (ustr k).toNat_lt
    rw [if_neg (by simp [ended, never])]
    simp [terminated]

end

/-! ## The buffers over a sequence of calls -/

structure StrBuffers.Ready (maxStrlen : Nat) (bufs : StrBuffers) : Prop where
  str : bufs.str.length = maxStrlen + 1
  outstr : bufs.outstrSize = 4 * maxStrlen + 3

def PrintStrCall.Bounded (call : PrintStrCall) : Prop :=
  ∀ size, (call.umovestr size).stored.length ≤ size ∧ (call.umoven size).stored.length ≤ size

section

variable {xflag : HexstrOpts} {maxStrlen : Nat} {uninitialised : Nat → UInt8}

theorem fetchSize_eq (small : maxStrlen ≤ (2 ^ 32 - 1) / 4) (len : Nat) :
    fetchSize maxStrlen len = min len (maxStrlen + 1) := by
  unfold fetchSize
  dsimp only
  split <;> omega

theorem allocBuffers_ready (small : maxStrlen ≤ (2 ^ 32 - 1) / 4) :
    (allocBuffers maxStrlen uninitialised).Ready maxStrlen := by
  unfold allocBuffers
  constructor
  · rw [length_map, length_range, Nat.mod_eq_of_lt (by omega)]
  · exact Nat.mod_eq_of_lt (by omega)

theorem plantSentinel_eq {str : List UInt8} (size : Nat) (length : str.length = maxStrlen + 1) :
    ∃ planted, plantSentinel maxStrlen str size = some planted ∧ planted.length = maxStrlen + 1 ∧
      (∀ k < size, planted.getD k 0 = str.getD k 0) ∧
      (size ≤ maxStrlen → planted.getD size 0 = 0xff) := by
  unfold plantSentinel setByte
  split
  · exact ⟨str, rfl, length, fun _ _ => rfl, fun _ => by omega⟩
  · rw [if_pos (by omega)]
    refine ⟨_, rfl, ?_, fun k before => ?_, fun _ => ?_⟩
    · rw [length_set, length]
    · rw [getD_eq_getElem?_getD, getElem?_set_ne (by omega), ← getD_eq_getElem?_getD]
    · rw [getD_eq_getElem?_getD, getElem?_set_self (by omega), getD_some]

theorem copyTo_eq {buf stored : List UInt8} (fits : stored.length ≤ buf.length) :
    ∃ copied, copyTo buf stored = some copied ∧ copied.length = buf.length ∧
      ∀ k < stored.length, copied.getD k 0 = stored.getD k 0 := by
  unfold copyTo
  rw [if_pos fits]
  refine ⟨_, rfl, ?_, fun k inside => getD_append _ _ _ _ inside⟩
  rw [length_append, length_drop]
  omega

variable (maxStrlen) in
theorem printedSize_le (len size : Nat) (style : UInt32) :
    printedSize maxStrlen len size style ≤ maxStrlen := by
  unfold printedSize
  dsimp only
  split <;> split <;> omega

variable {call : PrintStrCall} {bufs : Option StrBuffers}

variable (maxStrlen) in
theorem PrintStrCall.Bounded.fetched (bounded : call.Bounded) :
    (call.fetched maxStrlen).stored.length ≤ fetchSize maxStrlen call.len := by
  unfold PrintStrCall.fetched
  split
  · exact (bounded _).1
  · exact (bounded _).2

variable (xflag uninitialised) in
theorem printstrEx_spec (small : maxStrlen ≤ (2 ^ 32 - 1) / 4)
    (ready : ∀ b ∈ bufs, b.Ready maxStrlen) (bounded : call.Bounded)
    (noComment : call.style &&& quoteEmitComment = 0) :
    ∃ bufs' printed rc, printstrEx xflag maxStrlen uninitialised bufs call =
      some (bufs', printed, rc) ∧
      (∀ b ∈ bufs', b.Ready maxStrlen) ∧
      (call.addr ≠ 0 → 0 ≤ (call.fetched maxStrlen).rc → ∃ ustr : Nat → UInt8,
        (∀ k < (call.fetched maxStrlen).stored.length,
          ustr k = (call.fetched maxStrlen).stored.getD k 0) ∧
        (fetchSize maxStrlen call.len ≤ maxStrlen → ustr (fetchSize maxStrlen call.len) = 0xff) ∧
        let quoted := stringQuote xflag ustr
          (printedSize maxStrlen call.len (fetchSize maxStrlen call.len) call.style) call.style none
        printed = .quoted quoted.1 (appendsEllipsis maxStrlen call.len call.style quoted.2)) := by
  unfold printstrEx
  by_cases null : call.addr = 0
  · rw [if_pos null]
    exact ⟨_, _, _, rfl, ready, fun nonnull => absurd null nonnull⟩
  · rw [if_neg null]
    have used : (bufs.getD (allocBuffers maxStrlen uninitialised)).Ready maxStrlen := by
      cases bufs with
      | none => exact allocBuffers_ready small
      | some b => exact ready b rfl
    have fetched := bounded.fetched maxStrlen
    have size := fetchSize_eq small call.len
    generalize bufs.getD (allocBuffers maxStrlen uninitialised) = b at used
    have fits : (call.fetched maxStrlen).stored.length ≤ b.str.length := by
      rw [used.str]
      omega
    obtain ⟨str, copies, length, copied⟩ := copyTo_eq fits
    dsimp only
    rw [copies, bind_eq_bind, bind_some]
    by_cases failed : (call.fetched maxStrlen).rc < 0
    · rw [if_pos failed]
      refine ⟨_, _, _, rfl, ?_, fun _ succeeded => absurd failed (Int.not_lt.mpr succeeded)⟩
      rintro _ ⟨⟩
      exact ⟨length.trans used.str, used.outstr⟩
    · obtain ⟨planted, plants, length', before, sentinel⟩ := plantSentinel_eq
        (fetchSize maxStrlen call.len) (length.trans used.str)
      have least := printedSize_le maxStrlen call.len (fetchSize maxStrlen call.len)
        call.style
      have delimiters := delimitersSize_toNat call.style
      rw [if_neg (not_not.mpr noComment)] at delimiters
      have room : 4 * printedSize maxStrlen call.len (fetchSize maxStrlen call.len) call.style +
          (delimitersSize call.style).toNat ≤ b.outstrSize := by
        rw [used.outstr]
        split at delimiters <;> omega
      rw [if_neg failed, plants, bind_some, stringQuoteIn_eq xflag (by omega) room]
      refine ⟨_, _, _, rfl, ?_, fun _ _ => ⟨(planted.getD · 0), ?_, sentinel, rfl⟩⟩
      · rintro _ ⟨⟩
        exact ⟨length', used.outstr⟩
      · grind

variable (xflag uninitialised) in
theorem printAll_ready (small : maxStrlen ≤ (2 ^ 32 - 1) / 4) {calls : List PrintStrCall}
    (bounded : ∀ call ∈ calls, call.Bounded)
    (noComment : ∀ call ∈ calls, call.style &&& quoteEmitComment = 0)
    (ready : ∀ b ∈ bufs, b.Ready maxStrlen) :
    ∃ bufs', printAll xflag maxStrlen uninitialised bufs calls = some bufs' ∧
      ∀ b ∈ bufs', b.Ready maxStrlen := by
  induction calls generalizing bufs with
  | nil => exact ⟨bufs, rfl, ready⟩
  | cons call rest ih =>
    rw [forall_mem_cons] at bounded noComment
    obtain ⟨bufs', printed, rc, prints, ready', -⟩ :=
      printstrEx_spec xflag uninitialised small ready bounded.1 noComment.1
    unfold printAll
    rw [prints]
    exact ih bounded.2 noComment.2 ready'

end

/-! ## Strings of the tracee -/

def AgreeToZero (ustr memory : Nat → UInt8) (n : Nat) : Prop :=
  ∀ k < n, (∀ i < k, memory i ≠ 0) → ustr k = memory k

section

variable {ustr memory : Nat → UInt8} {n : Nat}

theorem AgreeToZero.exists_zero (agree : AgreeToZero ustr memory n) :
    (∃ k < n, ustr k = 0) ↔ ∃ k < n, memory k = 0 := by
  constructor
  · rintro ⟨k, below, zero⟩
    by_cases first : ∀ i < k, memory i ≠ 0
    · exact ⟨k, below, by rw [← agree k below first, zero]⟩
    · simp only [not_forall, not_not] at first
      obtain ⟨i, before, zero'⟩ := first
      exact ⟨i, by omega, zero'⟩
  · intro found
    obtain ⟨below, zero⟩ := Nat.find_spec found
    refine ⟨Nat.find found, below, ?_⟩
    rw [agree _ below, zero]
    intro i before zero'
    exact Nat.find_min found before ⟨by omega, zero'⟩

theorem bytesFrom_agree {left i : Nat}
    (agree : ∀ k < left, (∀ j < k, memory (i + j) ≠ 0) → ustr (i + k) = memory (i + k)) :
    bytesFrom ustr 0 left i = bytesFrom memory 0 left i := by
  induction left generalizing i with
  | zero => rfl
  | succ left ih =>
    have first : ustr i = memory i := agree 0 (Nat.succ_pos left) (by simp)
    unfold bytesFrom
    rw [first]
    split
    · rfl
    · next other =>
      rw [ih]
      intro k below nonzero
      rw [Nat.add_assoc, Nat.add_comm 1]
      refine agree (k + 1) (by omega) fun j before => ?_
      cases j with
      | zero =>
        intro zero
        exact other (by rw [Nat.add_zero] at zero; rw [zero]; rfl)
      | succ j =>
        have := nonzero j (by omega)
        rwa [Nat.add_assoc, Nat.add_comm 1] at this

theorem AgreeToZero.quotedBytes {m : Nat} {style : UInt32} (agree : AgreeToZero ustr memory n)
    (terminated : style &&& quote0Terminated ≠ 0) (within : m ≤ n) :
    quotedBytes ustr m style = quotedBytes memory m style := by
  rw [← bytesFrom_endOfLine, ← bytesFrom_endOfLine, endOfLine, if_pos terminated]
  refine bytesFrom_agree fun k below nonzero => ?_
  simp only [Nat.zero_add] at nonzero ⊢
  exact agree k (by omega) nonzero

end

/-- What `umoven` should store and return. -/
def UmovenContract (g : Geometry) (mem : Memory) (readable : Nat → Bool) (addr size : Nat)
    (fetched : Fetched) : Prop :=
  fetched.stored.length ≤ size ∧
    if ∀ j < size, readable (g.pageStart ((addr + j) % g.space)) = true then
      fetched.rc = 0 ∧ fetched.stored = mem.bytes g addr size
    else fetched.rc < 0

structure PrintStrCall.Meets (g : Geometry) (mem : Memory) (readable : Nat → Bool)
    (call : PrintStrCall) : Prop where
  umovestr : ∀ size, Contract g mem readable call.addr size (call.umovestr size).stored
    (call.umovestr size).rc
  umoven : ∀ size, UmovenContract g mem readable call.addr size (call.umoven size)

variable {g : Geometry} {mem : Memory} {readable : Nat → Bool} {addr len : Nat}

theorem PrintStrCall.Meets.bounded {call : PrintStrCall} (meets : call.Meets g mem readable) :
    call.Bounded :=
  fun size => ⟨(meets.umovestr size).1, (meets.umoven size).1⟩

theorem scan_nul_zero {j : Nat} (found : scan g mem readable addr len = .nul j) :
    mem ((addr + j) % g.space) = 0 := by
  induction len generalizing addr j with
  | zero => cases found
  | succ len ih =>
    unfold scan at found
    split at found
    · cases found
    split at found
    · next zero =>
      cases found
      exact zero
    cases later : scan g mem readable (addr + 1) len <;> rw [later] at found <;> cases found
    rw [← Nat.add_assoc]
    exact ih later

theorem bytes_getD {k : Nat} (below : k < len) :
    (mem.bytes g addr len).getD k 0 = mem ((addr + k) % g.space) := by
  rw [getD_eq_getElem _ _ (by rwa [Memory.length_bytes])]
  simp [Memory.bytes]

section

variable {g : Geometry} {mem : Memory} {readable : Nat → Bool} {addr size : Nat}
  {stored : List UInt8} {rc : Int}

theorem Contract.succeeds (contract : Contract g mem readable addr size stored rc)
    (able : ∀ j, scan g mem readable addr size ≠ .stuck j) : 0 ≤ rc := by
  obtain ⟨-, contract⟩ := contract
  cases result : scan g mem readable addr size with
  | nul j =>
    rw [result] at contract
    omega
  | full =>
    grind
  | stuck j => exact absurd result (able j)

theorem Contract.agree (contract : Contract g mem readable addr size stored rc)
    (able : ∀ j, scan g mem readable addr size ≠ .stuck j) {ustr : Nat → UInt8}
    (starts : ∀ k < stored.length, ustr k = stored.getD k 0) :
    AgreeToZero ustr (fun j => mem ((addr + j) % g.space)) size := by
  obtain ⟨-, contract⟩ := contract
  intro k below nonzero
  cases result : scan g mem readable addr size with
  | nul j =>
    rw [result] at contract
    obtain ⟨-, bytes⟩ := contract
    have upTo : k < j + 1 := by
      by_contra after
      exact nonzero j (by omega) (scan_nul_zero result)
    have inside : k < stored.length := by
      have := congrArg List.length bytes
      rw [length_take, Memory.length_bytes] at this
      omega
    have taken : stored.getD k 0 = (stored.take (j + 1)).getD k 0 := by
      rw [getD_eq_getElem?_getD, getD_eq_getElem?_getD, getElem?_take_of_lt upTo]
    rw [starts k inside, taken, bytes, bytes_getD upTo]
  | full =>
    rw [result] at contract
    obtain ⟨-, rfl⟩ := contract
    rw [starts k (by rwa [Memory.length_bytes]), bytes_getD below]
  | stuck j => exact absurd result (able j)

end

def PrintedStr.Shows (printed : PrintedStr) (style : UInt32) (bytes : List UInt8)
    (ellipsis : Prop) : Prop :=
  ∃ text more, printed = .quoted (openingDelimiter style ++ text ++ closingDelimiter style) more ∧
    SpellsAll none bytes text ∧ (more = true ↔ ellipsis)

theorem printedSize_eq (maxStrlen len : Nat) {style : UInt32}
    (plain : style &&& quoteExpectTrailing0 = 0) :
    printedSize maxStrlen len (min len (maxStrlen + 1)) style = min len maxStrlen := by
  have other : style &&& (quote0Terminated ||| quoteExpectTrailing0) ≠
      quote0Terminated ||| quoteExpectTrailing0 := by
    intro both
    have expects := congrArg (· &&& quoteExpectTrailing0) both
    simp only [UInt32.and_assoc] at expects
    exact absurd (plain.symm.trans expects) (by decide)
  unfold printedSize
  rw [if_neg fun both => other both.1]
  split <;> omega

theorem exists_zero_fetched {maxStrlen : Nat} {ustr : Nat → UInt8}
    (sentinel : min len (maxStrlen + 1) ≤ maxStrlen → ustr (min len (maxStrlen + 1)) = 0xff) :
    (∃ k < min len maxStrlen + 1, ustr k = 0) ↔ ∃ k < min len (maxStrlen + 1), ustr k = 0 := by
  by_cases long : maxStrlen < len
  · rw [show min len maxStrlen + 1 = min len (maxStrlen + 1) by omega]
  · have size : min len (maxStrlen + 1) = min len maxStrlen := by omega
    rw [size] at sentinel ⊢
    rw [Nat.exists_lt_succ_right, sentinel (by omega)]
    simp

section

variable (xflag : HexstrOpts) {maxStrlen len : Nat} {style : UInt32} {ustr memory : Nat → UInt8}

theorem shows_terminated (terminated : style &&& quote0Terminated ≠ 0)
    (agree : AgreeToZero ustr memory (min len (maxStrlen + 1)))
    (sentinel : min len (maxStrlen + 1) ≤ maxStrlen → ustr (min len (maxStrlen + 1)) = 0xff) :
    let quoted := stringQuote xflag ustr (min len maxStrlen) style none
    (PrintedStr.quoted quoted.1 (appendsEllipsis maxStrlen len style quoted.2)).Shows style
      (((List.range (min len maxStrlen)).map memory).takeWhile (· != 0))
      (0 < len ∧ ∀ k < min len (maxStrlen + 1), memory k ≠ 0) := by
  intro quoted
  obtain ⟨text, eq, spells⟩ :=
    stringQuote_spells xflag ustr (min len maxStrlen) style none (.inl terminated)
  refine ⟨text, _, by rw [← eq], ?_, ?_⟩
  · rw [agree.quotedBytes terminated (by omega), quotedBytes, if_pos terminated] at spells
    exact spells
  · have ended : quoted.2 = 0 ↔ _ := stringQuote_ended xflag (min len maxStrlen) (.inl terminated)
    rw [exists_zero_fetched sentinel, agree.exists_zero] at ended
    have asciz : style &&& (quote0Terminated ||| quoteExpectTrailing0) ≠ 0 :=
      (Words.and_or_ne_zero ..).mpr (.inl terminated)
    unfold appendsEllipsis
    rw [decide_eq_true_iff, ne_eq, ended]
    simp only [terminated, asciz, not_and, ne_eq, not_false_eq_true, true_and, true_or, and_true,
      not_exists, Nat.pos_iff_ne_zero]
    exact and_comm

theorem shows_counted (counted : style &&& quote0Terminated = 0)
    (plain : style &&& quoteExpectTrailing0 = 0) (keeps : style &&& quoteOmitTrailing0 = 0)
    (same : ∀ k < min len (maxStrlen + 1), ustr k = memory k) :
    let quoted := stringQuote xflag ustr (min len maxStrlen) style none
    (PrintedStr.quoted quoted.1 (appendsEllipsis maxStrlen len style quoted.2)).Shows style
      ((List.range (min len maxStrlen)).map memory) (maxStrlen < len) := by
  intro quoted
  obtain ⟨text, eq, spells⟩ :=
    stringQuote_spells xflag ustr (min len maxStrlen) style none (.inr keeps)
  refine ⟨text, _, by rw [← eq], ?_, ?_⟩
  · rw [quotedBytes, if_neg (not_not.mpr counted)] at spells
    rwa [map_congr_left fun k below => same k (by rw [mem_range] at below; omega)] at spells
  · have ended : quoted.2 = 0 ↔ _ := stringQuote_ended xflag (min len maxStrlen) (.inr keeps)
    have neither : style &&& (quote0Terminated ||| quoteExpectTrailing0) = 0 := by
      by_contra other
      rcases (Words.and_or_ne_zero ..).mp other with asciz | asciz
      · exact asciz counted
      · exact asciz plain
    unfold appendsEllipsis
    rw [decide_eq_true_iff, ne_eq, ended]
    simp only [counted, neither, ne_eq, not_true_eq_false, false_and, not_false_eq_true, true_and,
      false_or]
    omega

end

/-- Calls stay in the static buffers, whatever was printed before. A string that zero
ends is cut if there is no zero byte among the fetched ones, and another string if it is
longer than `max_strlen`. -/
theorem printstr_ex_shows (xflag : HexstrOpts) {maxStrlen : Nat}
    (small : maxStrlen ≤ (2 ^ 32 - 1) / 4) (uninitialised : Nat → UInt8) (g : Geometry)
    {earlier : List PrintStrCall}
    (earlierMeet : ∀ call ∈ earlier, ∃ mem readable, call.Meets g mem readable)
    (earlierPlain : ∀ call ∈ earlier, call.style &&& quoteEmitComment = 0) {call : PrintStrCall}
    {mem : Memory} {readable : Nat → Bool} (meets : call.Meets g mem readable)
    (noComment : call.style &&& quoteEmitComment = 0) :
    ∃ bufs, printAll xflag maxStrlen uninitialised none earlier = some bufs ∧
    ∃ bufs' printed rc,
      printstrEx xflag maxStrlen uninitialised bufs call = some (bufs', printed, rc) ∧
      (call.addr ≠ 0 → call.style &&& quoteExpectTrailing0 = 0 →
        (call.style &&& quote0Terminated ≠ 0 →
          (∀ j, scan g mem readable call.addr (min call.len (maxStrlen + 1)) ≠ .stuck j) →
          printed.Shows call.style
            ((mem.bytes g call.addr (min call.len maxStrlen)).takeWhile (· != 0))
            (0 < call.len ∧ 0 ∉ mem.bytes g call.addr (min call.len (maxStrlen + 1)))) ∧
        (call.style &&& quote0Terminated = 0 → call.style &&& quoteOmitTrailing0 = 0 →
          (∀ j < min call.len (maxStrlen + 1),
            readable (g.pageStart ((call.addr + j) % g.space)) = true) →
          printed.Shows call.style (mem.bytes g call.addr (min call.len maxStrlen))
            (maxStrlen < call.len))) := by
  obtain ⟨bufs, prints, ready⟩ := printAll_ready xflag uninitialised small
    (fun call mem => (earlierMeet call mem).choose_spec.choose_spec.bounded) earlierPlain
    (show ∀ b ∈ (none : Option StrBuffers), b.Ready maxStrlen from nofun)
  obtain ⟨bufs', printed, rc, prints', -, quotes⟩ :=
    printstrEx_spec xflag uninitialised small ready meets.bounded noComment
  refine ⟨bufs, prints, bufs', printed, rc, prints', fun nonnull plain => ?_⟩
  rw [fetchSize_eq small, printedSize_eq maxStrlen call.len plain, PrintStrCall.fetched,
    fetchSize_eq small] at quotes
  constructor
  · intro terminated able
    have contract := meets.umovestr (min call.len (maxStrlen + 1))
    rw [if_pos terminated] at quotes
    obtain ⟨ustr, starts, sentinel, rfl⟩ := quotes nonnull (contract.succeeds able)
    have noZero : 0 ∉ mem.bytes g call.addr (min call.len (maxStrlen + 1)) ↔
        ∀ k < min call.len (maxStrlen + 1), mem ((call.addr + k) % g.space) ≠ 0 := by
      simp [Memory.bytes]
    rw [noZero]
    exact shows_terminated xflag terminated (contract.agree able starts) sentinel
  · intro counted keeps able
    obtain ⟨-, contract⟩ := meets.umoven (min call.len (maxStrlen + 1))
    rw [if_pos able] at contract
    rw [if_neg (not_not.mpr counted), contract.2, Memory.length_bytes] at quotes
    obtain ⟨ustr, starts, -, rfl⟩ := quotes nonnull (Int.le_of_eq contract.1.symm)
    exact shows_counted xflag counted plain keeps fun k below =>
      (starts k below).trans (bytes_getD below)

def PrintStrCall.exact (g : Geometry) (mem : Memory) (addr len : Nat) (style : UInt32) :
    PrintStrCall where
  addr
  len
  style
  umovestr size :=
    match scan g mem (fun _ => true) addr size with
    | .nul j => ⟨mem.bytes g addr (j + 1), j + 1⟩
    | .full => ⟨mem.bytes g addr size, 0⟩
    | .stuck _ => ⟨[], -1⟩
  umoven size := ⟨mem.bytes g addr size, 0⟩

theorem PrintStrCall.exact_meets (g : Geometry) (mem : Memory) (addr len : Nat) (style : UInt32) :
    (PrintStrCall.exact g mem addr len style).Meets g mem fun _ => true := by
  refine ⟨fun size => ?_, fun size => ⟨(Memory.length_bytes ..).le, ?_⟩⟩
  · unfold Contract PrintStrCall.exact
    dsimp only
    cases result : scan g mem (fun _ => true) addr size with
    | nul j =>
      refine ⟨?_, rfl, ?_⟩
      · rw [Memory.length_bytes]
        exact scan_nul_lt result
      · rw [bytes_take, Nat.min_self]
    | full => exact ⟨(Memory.length_bytes ..).le, rfl, rfl⟩
    | stuck j => exact ⟨Nat.zero_le _, show (-1 : Int) < 0 by decide⟩
  · rw [if_pos fun _ _ => rfl]
    exact ⟨rfl, rfl⟩

/-- The string of five characters is cut after three of them, also when three of its
bytes have been printed before. -/
theorem printstr_ex_shows_three_characters :
    ∃ bufs, printAll .none 3 (fun _ => 0) none [.exact x8664 fiveCharacters 0x1000 3 0] =
      some bufs ∧
    ∃ bufs' printed rc,
      printstrEx .none 3 (fun _ => 0) bufs
        (.exact x8664 fiveCharacters 0x1000 16 quote0Terminated) = some (bufs', printed, rc) ∧
      printed.Shows quote0Terminated
        ((fiveCharacters.bytes x8664 0x1000 3).takeWhile (· != 0))
        (0 < 16 ∧ 0 ∉ fiveCharacters.bytes x8664 0x1000 4) := by
  obtain ⟨bufs, prints, bufs', printed, rc, prints', result⟩ :=
    printstr_ex_shows .none (show 3 ≤ (2 ^ 32 - 1) / 4 by decide) (fun _ => 0) x8664
      (List.forall_mem_singleton.mpr
        ⟨_, _, PrintStrCall.exact_meets x8664 fiveCharacters 0x1000 3 0⟩)
      (List.forall_mem_singleton.mpr rfl)
      (PrintStrCall.exact_meets x8664 fiveCharacters 0x1000 16 quote0Terminated) rfl
  have found : scan x8664 fiveCharacters (fun _ => true) 0x1000 4 = .full := by decide
  refine ⟨bufs, prints, bufs', printed, rc, prints', (result (by decide) rfl).1 (by decide) ?_⟩
  intro j stuck
  cases found.symm.trans stuck

end Strace
