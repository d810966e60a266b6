import Strace.Qualify.BasicFilters
import Strace.Qualify.When
import Strace.Summary.Timespec
import Mathlib.Data.List.Basic

/-! `filter_qualify.c`, `retval.c`, `delay.c` and `poke.c`: the expression of an
`-e inject=` or `-e fault=` option. -/
namespace Strace
open List

open Summary (Timespec)

structure InjectTables extends FilterTables where
  errnoent : List (Option (List Char))
  signame : Nat → Option (List Char)
  nsigBytes : Nat
  enosys : Nat
  /-- The width of `kernel_ulong_t` -/
  kernelLongBits : Nat
  /-- `strtoull` with base 0: the value, the end pointer, and whether `errno` is set -/
  strtoull : List Char → Nat × List Char × Bool
  /-- `sscanf` with `%2hhx` -/
  sscanfHex : List Char → Option UInt8
  /-- `parse_ts` of `util.c`, which uses floating-point numbers -/
  parseTs : List Char → Option Timespec
  /-- The 16 bits that an injected syscall is stored in are enough for it. -/
  tables_short : ∀ p, (nsyscallVec p).toNat ≤ 2 ^ 16

structure DelayData where
  tsEnter : Timespec := ⟨0, 0⟩
  tsExit : Timespec := ⟨0, 0⟩
  deriving DecidableEq, Repr

structure PokePayload where
  isEnter : Bool
  argNo : Nat
  data : List UInt8
  deriving DecidableEq, Repr

structure Arenas where
  retvalVec : List Int := []
  delayDataVec : List DelayData := []
  pokeDataVecSize : Nat := 0
  deriving DecidableEq, Repr

structure InjectParse where
  fopts : InjectOpts
  pdata : Nat → UInt16
  arenas : Arenas
  /-- The list at `poke_idx`, which belongs to this expression alone -/
  poke : List PokePayload := []

inductive Refusal where
  | invalid
  | fatal (f : Fatal)
  deriving DecidableEq, Repr

variable (t : InjectTables)

/-! ## Allocating indices -/

def retvalNew (rval : Int) (a : Arenas) : Except Refusal (UInt16 × Arenas) :=
  let idx := a.retvalVec.length.toUInt16
  if idx.toNat < a.retvalVec.length then
    .error (.fatal (.die "retval_new: retval index overflow"))
  else .ok (idx, { a with retvalVec := a.retvalVec ++ [rval] })

def allocDelayData (a : Arenas) : Except Refusal (UInt16 × Arenas) :=
  let rval := a.delayDataVec.length.toUInt16
  if rval.toNat < a.delayDataVec.length then
    .error (.fatal (.die "alloc_delay_data: delay index overflow"))
  else .ok (rval, { a with delayDataVec := a.delayDataVec ++ [{}] })

def fillDelayData (delayIdx : UInt16) (val : Timespec) (isenter : Bool) (a : Arenas) :
    Except Refusal Arenas :=
  match a.delayDataVec[delayIdx.toNat]? with
  | none => .error (.fatal (.die "fill_delay_data: delay_idx >= delay_data_vec_size"))
  | some data =>
    let data := if isenter then { data with tsEnter := val } else { data with tsExit := val }
    .ok { a with delayDataVec := a.delayDataVec.set delayIdx.toNat data }

def allocPokeData (a : Arenas) : Except Refusal (UInt16 × Arenas) :=
  let rval := a.pokeDataVecSize.toUInt16
  if rval.toNat < a.pokeDataVecSize then
    .error (.fatal (.die "alloc_poke_data: poke index overflow"))
  else .ok (rval, { a with pokeDataVecSize := a.pokeDataVecSize + 1 })

/-! ## The tokens -/

variable (d : InjectData)

def InjectData.delays (isenter : Bool) : Bool :=
  if isenter then d.delayEnter else d.delayExit

def InjectData.setDelays (isenter : Bool) : InjectData :=
  if isenter then { d with delayEnter := true } else { d with delayExit := true }

def InjectData.pokes (isenter : Bool) : Bool :=
  if isenter then d.pokeEnter else d.pokeExit

def InjectData.setPokes (isenter : Bool) : InjectData :=
  if isenter then { d with pokeEnter := true } else { d with pokeExit := true }

def strtokAll (delim : Char) (s : List Char) : List (List Char) :=
  (s.splitOn delim).filter (· ≠ [])

def strcasecmp (s s' : List Char) : Bool := s.map Char.toLower == s'.map Char.toLower

def strStripPrefix (str : List Char) (start : String) : Option (List Char) :=
  str.dropPrefix? start.toList

def stripSig : List Char → Option (List Char)
  | a :: b :: c :: rest => if strcasecmp [a, b, c] ['S', 'I', 'G'] then some rest else none
  | _ => none

def sigstrToUint (s : List Char) : Option Nat :=
  if s.head?.any Char.isDigit then stringToUintUpto s 255
  else
    let s := (stripSig s).getD s
    (List.range' 1 255).find? fun i => ((t.signame i).bind stripSig).any (strcasecmp · s)

def findErrnoByName (name : List Char) : Option Nat :=
  (List.range' 1 (t.errnoent.length - 1)).find? fun i =>
    (t.errnoent[i]?.join).any (strcasecmp name ·)

def InjectParse.delayIndex (s : InjectParse) : Except Refusal (UInt16 × Arenas) :=
  if s.fopts.data.delayIdx = 0xffff then allocDelayData s.arenas
  else .ok (s.fopts.data.delayIdx, s.arenas)

def parseDelayToken (input : List Char) (isenter : Bool) (s : InjectParse) :
    Except Refusal InjectParse :=
  if s.fopts.data.delays isenter then .error .invalid
  else
    match t.parseTs input with
    | none => .error .invalid
    | some tsval => do
      let (delayIdx, arenas) ← s.delayIndex
      let arenas ← fillDelayData delayIdx tsval isenter arenas
      .ok { s with arenas, fopts.data := { s.fopts.data with delayIdx }.setDelays isenter }

/-- The bytes of a payload, two digits each. -/
def parsePokeBytes (val : List Char) : Option (List UInt8) :=
  (List.range (val.length / 2)).mapM fun i => t.sscanfHex (val.drop (2 * i))

/-- One token of a list of payloads. -/
def parsePoke (isenter : Bool) (token : List Char) : Option PokePayload :=
  match strStripPrefix token "@arg" with
  | some (digit :: '=' :: val) =>
    if '1' ≤ digit ∧ digit ≤ '7' ∧ val ≠ [] ∧ val.length % 2 = 0 ∧ val.length ≤ 2048 then
      (parsePokeBytes t val).map
        ({ isEnter := isenter, argNo := digit.toNat - '0'.toNat, data := · })
    else none
  | _ => none

def pokeAdd (pokes : List PokePayload) (poke : PokePayload) : Option (List PokePayload) :=
  if pokes.any fun i => i.isEnter = poke.isEnter ∧ i.argNo = poke.argNo then none
  else some (poke :: pokes)

def InjectParse.pokeIndex (s : InjectParse) :
    Except Refusal (UInt16 × Arenas × List PokePayload) :=
  if s.fopts.data.pokeIdx = 0xffff then
    (allocPokeData s.arenas).map fun (pokeIdx, arenas) => (pokeIdx, arenas, [])
  else .ok (s.fopts.data.pokeIdx, s.arenas, s.poke)

/-- The loop of `parse_poke_token`. -/
def parsePokes (isenter : Bool) (pokes : List PokePayload) (input : List Char) :
    Except Refusal (List PokePayload) :=
  match (strtokAll ',' input).foldlM
    (fun pokes token => (parsePoke t isenter token).bind (pokeAdd pokes)) pokes with
  | none => .error .invalid
  | some pokes => .ok pokes

def parsePokeToken (input : List Char) (isenter : Bool) (s : InjectParse) :
    Except Refusal InjectParse :=
  if s.fopts.data.pokes isenter then .error .invalid
  else if input = [] then .error .invalid
  else do
    let (pokeIdx, arenas, poke) ← s.pokeIndex
    let poke ← parsePokes t isenter poke input
    .ok { s with arenas, poke, fopts.data := { s.fopts.data with pokeIdx }.setPokes isenter }

def syscallRound (val : List Char) (pdata : Nat → UInt16) (p : Nat) :
    Except Refusal (Nat → UInt16) :=
  match scnoByName t.toFilterTables val p 0 with
  | none => .error .invalid
  | some scno =>
    -- Only syscalls without side effects may be injected.
    if (t.sysentVec p scno).sysFlags &&& tracePure = 0 then .error .invalid
    else .ok (Function.update pdata p scno.toUInt16)

def parseSyscallToken (val : List Char) (s : InjectParse) : Except Refusal InjectParse :=
  if s.fopts.data.syscall then .error .invalid
  else do
    let pdata ← (List.range t.supportedPersonalities).foldlM (syscallRound t val) s.pdata
    .ok { s with pdata, fopts.data.syscall := true }

def parseErrorToken (val : List Char) (s : InjectParse) : Except Refusal InjectParse :=
  if s.fopts.data.error || s.fopts.data.retval then .error .invalid
  else
    match (stringToUintUpto val maxErrnoValue).or (findErrnoByName t val) with
    | none => .error .invalid
    | some intval =>
      if intval < 1 then .error .invalid
      else do
        let (rvalIdx, arenas) ← retvalNew intval s.arenas
        .ok { s with arenas, fopts.data := { s.fopts.data with rvalIdx, error := true } }

def kernelLong (n : Nat) : Int :=
  if n < 2 ^ (t.kernelLongBits - 1) then n else n - 2 ^ t.kernelLongBits

def parseRetvalToken (val : List Char) (s : InjectParse) : Except Refusal InjectParse :=
  if s.fopts.data.error || s.fopts.data.retval then .error .invalid
  else
    let (ullval, endp, errno) := t.strtoull val
    if endp = val ∨ endp ≠ [] ∨ 2 ^ t.kernelLongBits ≤ ullval ∨
        (ullval = 0 ∨ ullval = 2 ^ 64 - 1) ∧ errno then .error .invalid
    else do
      let (rvalIdx, arenas) ← retvalNew (kernelLong t ullval) s.arenas
      .ok { s with arenas, fopts.data := { s.fopts.data with rvalIdx, retval := true } }

def parseSignalToken (val : List Char) (s : InjectParse) : Except Refusal InjectParse :=
  if s.fopts.data.signal then .error .invalid
  else
    match sigstrToUint t val with
    | none => .error .invalid
    | some intval =>
      if intval < 1 ∨ t.nsigBytes * 8 < intval then .error .invalid
      else
        .ok { s with fopts.data := { s.fopts.data with signo := intval.toUInt8, signal := true } }

def parseWhenToken (val : List Char) (s : InjectParse) : Except Refusal InjectParse :=
  match parseWhen val s.fopts with
  | none => .error .invalid
  | some fopts => .ok { s with fopts }

structure InjectToken where
  start : String
  inFault : Bool
  parse : List Char → InjectParse → Except Refusal InjectParse

def injectTokens : List InjectToken :=
  [⟨"when=", true, parseWhenToken⟩,
   ⟨"syscall=", true, parseSyscallToken t⟩,
   ⟨"error=", true, parseErrorToken t⟩,
   ⟨"retval=", false, parseRetvalToken t⟩,
   ⟨"signal=", false, parseSignalToken t⟩,
   ⟨"poke_enter=", false, (parsePokeToken t · true)⟩,
   ⟨"poke_exit=", false, (parsePokeToken t · false)⟩,
   ⟨"delay_enter=", false, (parseDelayToken t · true)⟩,
   ⟨"delay_exit=", false, (parseDelayToken t · false)⟩]

/-- The first kind of token that fits. -/
def parseToken (token : List Char) (faultTokensOnly : Bool) (s : InjectParse) :
    List InjectToken → Except Refusal InjectParse
  | [] => .error .invalid
  | kind :: kinds =>
    if faultTokensOnly && !kind.inFault then parseToken token faultTokensOnly s kinds
    else
      match strStripPrefix token kind.start with
      | some val => kind.parse val s
      | none => parseToken token faultTokensOnly s kinds

def parseInjectToken (faultTokensOnly : Bool) (s : InjectParse) (token : List Char) :
    Except Refusal InjectParse :=
  parseToken token faultTokensOnly s (injectTokens t)

/-! ## An option -/

/-- An `-e inject=` or `-e fault=` option. -/
structure InjectOption where
  faultTokensOnly : Bool
  str : List Char
  deriving DecidableEq, Repr

namespace InjectOption

variable (o : InjectOption)

def description : String :=
  if o.faultTokensOnly then "fault argument" else "inject argument"

def invalid : Fatal :=
  .die ("invalid " ++ o.description ++ " '" ++ String.ofList o.str ++ "'")

/-- The specification of the syscalls. -/
def name : List Char := o.str.takeWhile (· != ':')

def tokens : List (List Char) :=
  if o.name = [] then [] else strtokAll ':' (o.str.dropWhile (· != ':'))

end InjectOption

def parseInjectExpression (o : InjectOption) (s : InjectParse) :
    Except Refusal (List Char × InjectParse) := do
  let s ← o.tokens.foldlM (parseInjectToken t o.faultTokensOnly) s
  return (o.name, s)

def InjectData.actionFlags : Bool :=
  d.signal || d.error || d.retval || d.delayEnter || d.delayExit || d.pokeEnter || d.pokeExit

def defaultInjectOpts : InjectOpts where
  first := 1
  last := injectLastInf
  step := 1
  data := { delayIdx := 0xffff, pokeIdx := 0xffff }

/-- An option once it is parsed. -/
structure Injection where
  tmpSet : NumberSets
  opts : InjectOpts
  pdata : Nat → UInt16

def parseInjection (o : InjectOption) (arenas : Arenas) : Except Fatal (Injection × Arenas) :=
  match parseInjectExpression t o { fopts := defaultInjectOpts, pdata := fun _ => 0, arenas } with
  | .error .invalid => .error o.invalid
  | .error (.fatal f) => .error f
  | .ok (name, s) =>
    match qualifySyscallTokens t.toFilterTables name fun _ => {} with
    | .error f => .error f
    | .ok tmpSet =>
      if s.fopts.data.actionFlags then .ok (⟨tmpSet, s.fopts, s.pdata⟩, s.arenas)
      else if o.faultTokensOnly then
        match retvalNew t.enosys s.arenas with
        | .error .invalid => .error o.invalid
        | .error (.fatal f) => .error f
        | .ok (rvalIdx, arenas) =>
          let data := { s.fopts.data with rvalIdx, error := true }
          .ok (⟨tmpSet, { s.fopts with data }, s.pdata⟩, arenas)
      else .error o.invalid

/-! ## The injected syscall -/

structure KeepsSyscall (s s' : InjectParse) : Prop where
  pdata : s'.pdata = s.pdata
  flag : s'.fopts.data.syscall = s.fopts.data.syscall

section
variable {t : InjectTables} {val token : List Char} {s s' : InjectParse}

theorem Except.of_bind_eq_ok {ε α β : Type} {x : Except ε α} {f : α → Except ε β} {b : β}
    (done : x >>= f = .ok b) : ∃ a, x = .ok a ∧ f a = .ok b := by
  cases x with
  | error e => cases done
  | ok a => exact ⟨a, rfl, done⟩

variable {isenter faultTokensOnly : Bool} {p : Nat} {o : InjectOption} {a a' : Arenas}
  {inj : Injection}

theorem parseDelayToken_keeps (parsed : parseDelayToken t val isenter s = .ok s') :
    KeepsSyscall s s' := by
  unfold parseDelayToken at parsed
  split at parsed
  · cases parsed
  · split at parsed
    · cases parsed
    · obtain ⟨⟨delayIdx, arenas⟩, -, parsed⟩ := Except.of_bind_eq_ok parsed
      obtain ⟨arenas, -, parsed⟩ := Except.of_bind_eq_ok parsed
      obtain rfl := Except.ok.inj parsed
      cases isenter <;> exact ⟨rfl, rfl⟩

theorem parsePokeToken_keeps (parsed : parsePokeToken t val isenter s = .ok s') :
    KeepsSyscall s s' := by
  unfold parsePokeToken at parsed
  split at parsed
  · cases parsed
  · split at parsed
    · cases parsed
    · obtain ⟨⟨pokeIdx, arenas, poke⟩, -, parsed⟩ := Except.of_bind_eq_ok parsed
      obtain ⟨poke, -, parsed⟩ := Except.of_bind_eq_ok parsed
      obtain rfl := Except.ok.inj parsed
      cases isenter <;> exact ⟨rfl, rfl⟩

theorem parseErrorToken_keeps (parsed : parseErrorToken t val s = .ok s') : KeepsSyscall s s' := by
  unfold parseErrorToken at parsed
  split at parsed
  · cases parsed
  · split at parsed
    · cases parsed
    · split at parsed
      · cases parsed
      · obtain ⟨⟨rvalIdx, arenas⟩, -, parsed⟩ := Except.of_bind_eq_ok parsed
        obtain rfl := Except.ok.inj parsed
        exact ⟨rfl, rfl⟩

theorem parseRetvalToken_keeps (parsed : parseRetvalToken t val s = .ok s') :
    KeepsSyscall s s' := by
  unfold parseRetvalToken at parsed
  split at parsed
  · cases parsed
  · dsimp only at parsed
    split at parsed
    · cases parsed
    · obtain ⟨⟨rvalIdx, arenas⟩, -, parsed⟩ := Except.of_bind_eq_ok parsed
      obtain rfl := Except.ok.inj parsed
      exact ⟨rfl, rfl⟩

theorem parseSignalToken_keeps (parsed : parseSignalToken t val s = .ok s') :
    KeepsSyscall s s' := by
  unfold parseSignalToken at parsed
  split at parsed
  · cases parsed
  · split at parsed
    · cases parsed
    · split at parsed
      · cases parsed
      · obtain rfl := Except.ok.inj parsed
        exact ⟨rfl, rfl⟩

theorem parseWhenToken_keeps (parsed : parseWhenToken val s = .ok s') : KeepsSyscall s s' := by
  unfold parseWhenToken at parsed
  split at parsed
  · cases parsed
  · next fopts found =>
    obtain ⟨e, -, rfl⟩ := WhenExpr.parseWhen_spelled found
    obtain rfl := Except.ok.inj parsed
    exact ⟨rfl, rfl⟩

def Numbered (t : InjectTables) (val : List Char) (ps : List Nat) (pdata : Nat → UInt16) : Prop :=
  ∀ p ∈ ps, ∃ scno, scnoByName t.toFilterTables val p 0 = some scno ∧ (pdata p).toNat = scno

theorem scnoByName_lt {scno : Nat} (found : scnoByName t.toFilterTables val p 0 = some scno) :
    scno < 2 ^ 16 := by
  unfold scnoByName at found
  split at found
  · cases found
  · obtain ⟨-, low⟩ := mem_range'_1.mp (mem_of_find?_eq_some found)
    have short := t.tables_short p
    unfold FilterTables.nsyscalls at low
    omega

theorem syscallRounds_numbered {done todo : List Nat} {pdata pdata' : Nat → UInt16}
    (before : Numbered t val done pdata)
    (parsed : todo.foldlM (syscallRound t val) pdata = .ok pdata') :
    Numbered t val (done ++ todo) pdata' := by
  induction todo generalizing done pdata with
  | nil =>
    obtain rfl := Except.ok.inj parsed
    rwa [append_nil]
  | cons p todo ih =>
    obtain ⟨next, round, parsed⟩ := Except.of_bind_eq_ok parsed
    have after : Numbered t val (done ++ [p]) next := by
      unfold syscallRound at round
      split at round
      · cases round
      · next scno found =>
        split at round
        · cases round
        · obtain rfl := Except.ok.inj round
          have same := WhenExpr.toNat_toUInt16 (Nat.le_of_lt_succ (scnoByName_lt found))
          intro q mem
          by_cases eq : q = p
          · grind
          · rw [Function.update_of_ne eq]
            exact before q (by simpa [eq] using mem)
    simpa using ih after parsed

/-- The one `syscall=` token that was taken. -/
structure Injects (t : InjectTables) (val : List Char) (s : InjectParse) : Prop where
  flag : s.fopts.data.syscall = true
  numbered : Numbered t val (List.range t.supportedPersonalities) s.pdata

theorem parseSyscallToken_injects (parsed : parseSyscallToken t val s = .ok s') :
    s.fopts.data.syscall = false ∧ Injects t val s' := by
  unfold parseSyscallToken at parsed
  split at parsed
  · cases parsed
  · next fresh =>
    obtain ⟨pdata, rounds, parsed⟩ := Except.of_bind_eq_ok parsed
    obtain rfl := Except.ok.inj parsed
    refine ⟨Bool.eq_false_iff.mpr fresh, rfl, ?_⟩
    have start : Numbered t val [] s.pdata := nofun
    simpa using syscallRounds_numbered start rounds

theorem parseToken_cases {kinds : List InjectToken}
    (parsed : parseToken token faultTokensOnly s kinds = .ok s') :
    ∃ kind ∈ kinds, ∃ val, token = kind.start.toList ++ val ∧ kind.parse val s = .ok s' := by
  induction kinds with
  | nil => cases parsed
  | cons kind kinds ih =>
    unfold parseToken at parsed
    split at parsed
    · obtain ⟨later, mem, found⟩ := ih parsed
      exact ⟨later, mem_cons_of_mem _ mem, found⟩
    · split at parsed
      · next val stripped =>
        obtain ⟨start, split, same⟩ := dropPrefix?_eq_some_iff.mp stripped
        rw [eq_of_beq same] at split
        exact ⟨kind, mem_cons_self, val, split, parsed⟩
      · obtain ⟨later, mem, found⟩ := ih parsed
        exact ⟨later, mem_cons_of_mem _ mem, found⟩

theorem parseInjectToken_cases (parsed : parseInjectToken t faultTokensOnly s token = .ok s') :
    (∃ val, token = "syscall=".toList ++ val ∧ parseSyscallToken t val s = .ok s') ∨
      KeepsSyscall s s' ∧ ∀ val, token ≠ "syscall=".toList ++ val := by
  obtain ⟨kind, mem, val, rfl, taken⟩ := parseToken_cases parsed
  simp only [injectTokens, mem_cons, not_mem_nil, or_false] at mem
  obtain rfl | rfl | rfl | rfl | rfl | rfl | rfl | rfl | rfl := mem
  · exact .inr ⟨parseWhenToken_keeps taken, by simp⟩
  · exact .inl ⟨val, rfl, taken⟩
  · exact .inr ⟨parseErrorToken_keeps taken, by simp⟩
  · exact .inr ⟨parseRetvalToken_keeps taken, by simp⟩
  · exact .inr ⟨parseSignalToken_keeps taken, by simp⟩
  · exact .inr ⟨parsePokeToken_keeps taken, by simp⟩
  · exact .inr ⟨parsePokeToken_keeps taken, by simp⟩
  · exact .inr ⟨parseDelayToken_keeps taken, by simp⟩
  · exact .inr ⟨parseDelayToken_keeps taken, by simp⟩

theorem parseInjectToken_injects (parsed : parseInjectToken t faultTokensOnly s token = .ok s')
    (named : Injects t val s ∨ token = "syscall=".toList ++ val) : Injects t val s' := by
  obtain ⟨other, eq, taken⟩ | ⟨keeps, different⟩ := parseInjectToken_cases parsed
  · obtain ⟨fresh, injects⟩ := parseSyscallToken_injects taken
    obtain before | this := named
    · -- A second `syscall=` token is refused.
      rw [before.flag] at fresh
      cases fresh
    · rwa [← append_cancel_left (eq.symm.trans this)]
  · obtain before | this := named
    · exact ⟨keeps.flag.trans before.flag, by rw [keeps.pdata]; exact before.numbered⟩
    · exact absurd this (different val)

theorem parseInjectTokens_injects {tokens : List (List Char)}
    (parsed : tokens.foldlM (parseInjectToken t faultTokensOnly) s = .ok s')
    (named : Injects t val s ∨ "syscall=".toList ++ val ∈ tokens) : Injects t val s' := by
  induction tokens generalizing s with
  | nil =>
    obtain rfl := Except.ok.inj parsed
    exact named.resolve_right not_mem_nil
  | cons token tokens ih =>
    obtain ⟨next, first, rest⟩ := Except.of_bind_eq_ok parsed
    obtain before | mem := named
    · exact ih rest (.inl (parseInjectToken_injects first (.inl before)))
    · grind [parseInjectToken_injects]

theorem parseInjection_cases (parsed : parseInjection t o a = .ok (inj, a')) :
    qualifySyscallTokens t.toFilterTables o.name (fun _ => {}) = .ok inj.tmpSet ∧
    ∃ s, inj.pdata = s.pdata ∧ o.tokens.foldlM (parseInjectToken t o.faultTokensOnly)
      { fopts := defaultInjectOpts, pdata := fun _ => 0, arenas := a } = .ok s := by
  unfold parseInjection at parsed
  split at parsed
  · cases parsed
  · cases parsed
  · next name s expression =>
    obtain ⟨s, tokens, result⟩ := Except.of_bind_eq_ok expression
    obtain ⟨⟩ := Except.ok.inj result
    split at parsed
    · cases parsed
    · next tmpSet found =>
      split at parsed
      · obtain ⟨⟩ := Except.ok.inj parsed
        exact ⟨found, s, rfl, tokens⟩
      · split at parsed
        · grind
        · cases parsed

theorem parseInjection_numbered (parsed : parseInjection t o a = .ok (inj, a'))
    (named : "syscall=".toList ++ val ∈ o.tokens) (low : p < t.supportedPersonalities) :
    ∃ scno, scnoByName t.toFilterTables val p 0 = some scno ∧ (inj.pdata p).toNat = scno := by
  obtain ⟨-, s, eq, tokens⟩ := parseInjection_cases parsed
  rw [eq]
  exact (parseInjectTokens_injects tokens (.inr named)).numbered p (mem_range.mpr low)

end

end Strace
