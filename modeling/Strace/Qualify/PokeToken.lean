import Strace.Qualify.InjectTables
import Mathlib.Data.List.Nodup

/-! `parse_poke_token`: which strings list payloads, and which it takes for such lists. -/
namespace Strace
open List Option

/-! ## `sscanf` with `%2hhx` -/

def hexDigitValue (c : Char) : Option Nat :=
  if '0' ≤ c ∧ c ≤ '9' then some (c.toNat - '0'.toNat)
  else if 'a' ≤ c ∧ c ≤ 'f' then some (c.toNat - 'a'.toNat + 10)
  else if 'A' ≤ c ∧ c ≤ 'F' then some (c.toNat - 'A'.toNat + 10)
  else none

def isHexDigit (c : Char) : Bool := (hexDigitValue c).isSome

structure Scanf where
  isspace : Char → Bool
  bareBase : Option UInt8
  isspace_digit : ∀ c, isHexDigit c = true → isspace c = false

namespace Scanf

variable (l : Scanf)

def scanHex : List Char → Option UInt8
  | [] => none
  | c :: rest =>
    match hexDigitValue c, rest.head?.bind hexDigitValue with
    | some high, some low => some (UInt8.ofNat (16 * high + low))
    | some value, none =>
      if c = '0' ∧ (rest.head? = some 'x' ∨ rest.head? = some 'X') then l.bareBase
      else some (UInt8.ofNat value)
    | none, some value =>
      if c = '+' then some (UInt8.ofNat value)
      else if c = '-' then some (0 - UInt8.ofNat value)
      else none
    | none, none => none

def sscanfHex (str : List Char) : Option UInt8 := l.scanHex (str.dropWhile l.isspace)

/-- Behind the white space there is a hexadecimal digit or a sign and a digit. Whether `0x`
alone is a number is left open. -/
def FindsNumber (str : List Char) : Prop :=
  match str.dropWhile l.isspace with
  | [] => False
  | c :: rest =>
    isHexDigit c = true ∧
        (c = '0' → rest.head? = some 'x' ∨ rest.head? = some 'X' → l.bareBase.isSome = true) ∨
      (c = '+' ∨ c = '-') ∧ rest.head?.any isHexDigit = true

theorem sscanfHex_isSome (str : List Char) :
    (l.sscanfHex str).isSome = true ↔ l.FindsNumber str := by
  unfold sscanfHex FindsNumber
  cases str.dropWhile l.isspace with
  | nil => simp [scanHex]
  | cons c rest =>
    have base : hexDigitValue 'x' = none ∧ hexDigitValue 'X' = none := by decide
    have next : rest.head?.any isHexDigit = (rest.head?.bind hexDigitValue).isSome := by
      cases rest.head? <;> rfl
    simp only [scanHex, isHexDigit]
    cases hexDigitValue c <;> grind

end Scanf

/-! ## Lists of payloads -/

/-- `@argN=HEX` -/
structure PokeItem where
  argNo : Nat
  hex : List Char

namespace PokeItem

def text (item : PokeItem) : List Char :=
  ['@', 'a', 'r', 'g', Char.ofNat ('0'.toNat + item.argNo), '='] ++ item.hex

structure Valid (item : PokeItem) : Prop where
  argument : 1 ≤ item.argNo ∧ item.argNo ≤ 7
  nonempty : item.hex ≠ []
  even : item.hex.length % 2 = 0
  short : item.hex.length ≤ 2048
  digits : ∀ c ∈ item.hex, isHexDigit c = true

/-- The bytes that pairs of digits denote. -/
def bytes : List Char → List UInt8
  | high :: low :: hex =>
    UInt8.ofNat (16 * (hexDigitValue high).getD 0 + (hexDigitValue low).getD 0) :: bytes hex
  | _ => []

def payload (isenter : Bool) (item : PokeItem) : PokePayload :=
  { isEnter := isenter, argNo := item.argNo, data := bytes item.hex }

end PokeItem

inductive Separated : List (List Char) → List Char → Prop
  | one (part : List Char) : Separated [part] part
  | more (part : List Char) (commas : Nat) {parts : List (List Char)} {rest : List Char}
      (separated : Separated parts rest) :
      Separated (part :: parts) (part ++ List.replicate (commas + 1) ',' ++ rest)

structure PokeListing (items : List PokeItem) (input : List Char) : Prop where
  separated : Separated (items.map PokeItem.text) input
  valid : ∀ item ∈ items, item.Valid
  distinct : (items.map PokeItem.argNo).Nodup

/-- The payloads that new ones are added to. -/
def InjectParse.oldPokes (s : InjectParse) : List PokePayload :=
  if s.fopts.data.pokeIdx = 0xffff then [] else s.poke

/-- No payload of this side was given. -/
structure InjectParse.Unpoked (s : InjectParse) (isenter : Bool) : Prop where
  flag : s.fopts.data.pokes isenter = false
  pokes : ∀ poke ∈ s.oldPokes, poke.isEnter ≠ isenter

/-- An index is there or can be allocated. -/
def InjectParse.HasPokeIndex (s : InjectParse) : Prop :=
  s.fopts.data.pokeIdx = 0xffff → s.arenas.pokeDataVecSize < 2 ^ 16

structure AcceptsListings (t : InjectTables) (input : List Char) (isenter : Bool)
    (s : InjectParse) : Prop where
  accepts : ∀ items, PokeListing items input →
    ∃ s', parsePokeToken t input isenter s = .ok s' ∧
      s'.poke = (items.map (PokeItem.payload isenter)).reverse ++ s.oldPokes ∧
      ∀ item ∈ items, (item.payload isenter).data.length = item.hex.length / 2
  rejects : (¬ ∃ items, PokeListing items input) →
    parsePokeToken t input isenter s = .error .invalid

/-! ## What is checked -/

def PokeChecks (l : Scanf) (token : List Char) : Prop :=
  ∃ digit val, token = ['@', 'a', 'r', 'g', digit, '='] ++ val ∧ '1' ≤ digit ∧ digit ≤ '7' ∧
    val ≠ [] ∧ val.length % 2 = 0 ∧ val.length ≤ 2048 ∧
    ∀ i < val.length / 2, l.FindsNumber (val.drop (2 * i))

def PokesCheck (l : Scanf) (input : List Char) : Prop :=
  (∀ token ∈ strtokAll ',' input, PokeChecks l token) ∧
    ((strtokAll ',' input).map fun token => token[4]?).Nodup

def OuterComma (input : List Char) : Prop := input.head? = some ',' ∨ input.getLast? = some ','

def HexValues (input : List Char) : Prop :=
  ∀ token ∈ strtokAll ',' input, ∀ c ∈ token.drop 6, isHexDigit c = true

instance (input : List Char) : Decidable (OuterComma input) :=
  inferInstanceAs (Decidable (_ ∨ _))

instance (input : List Char) : Decidable (HexValues input) :=
  decidable_of_iff (((strtokAll ',' input).all fun token => (token.drop 6).all isHexDigit) = true)
    (by simp only [List.all_eq_true, HexValues])

/-! ## Bytes -/

section
variable {l : Scanf}

theorem Scanf.sscanfHex_pair {high low : Char} (digit : isHexDigit high = true)
    (digit' : isHexDigit low = true) (rest : List Char) :
    l.sscanfHex (high :: low :: rest) =
      some (UInt8.ofNat (16 * (hexDigitValue high).getD 0 + (hexDigitValue low).getD 0)) := by
  obtain ⟨a, eq⟩ := isSome_iff_exists.mp digit
  obtain ⟨b, eq'⟩ := isSome_iff_exists.mp digit'
  have start := l.isspace_digit high digit
  rw [sscanfHex, dropWhile_cons_of_neg (by simp [start])]
  simp [scanHex, eq, eq']

namespace PokeItem

theorem length_bytes (hex : List Char) : (bytes hex).length = hex.length / 2 := by
  fun_induction bytes hex with
  | case1 high low hex ih =>
    simp only [length_cons]
    omega
  | case2 hex single =>
    match hex with
    | [] => rfl
    | [_] => simp
    | high :: low :: hex => exact absurd rfl (single high low hex)

end PokeItem

variable {t : InjectTables} (scans : t.sscanfHex = l.sscanfHex)
include scans

theorem parsePokeBytes_isSome (val : List Char) : (parsePokeBytes t val).isSome = true ↔
    ∀ i < val.length / 2, l.FindsNumber (val.drop (2 * i)) := by
  have each (is : List Nat) : (is.mapM fun i => t.sscanfHex (val.drop (2 * i))).isSome = true ↔
      ∀ i ∈ is, (l.sscanfHex (val.drop (2 * i))).isSome = true := by
    induction is with
    | nil => simp
    | cons i is ih =>
      rw [forall_mem_cons, ← ih, mapM_cons, scans]
      cases l.sscanfHex (val.drop (2 * i)) with
      | none => simp
      | some byte => cases is.mapM fun i => l.sscanfHex (val.drop (2 * i)) <;> simp
  rw [parsePokeBytes, each]
  simp only [mem_range, Scanf.sscanfHex_isSome]

theorem parsePokeBytes_digits {hex : List Char} (even : hex.length % 2 = 0)
    (digits : ∀ c ∈ hex, isHexDigit c = true) :
    parsePokeBytes t hex = some (PokeItem.bytes hex) := by
  fun_induction PokeItem.bytes hex with
  | case1 high low hex ih =>
    rw [forall_mem_cons, forall_mem_cons] at digits
    have tail := ih (by simp only [length_cons] at even; omega) digits.2.2
    have count : (high :: low :: hex).length / 2 = hex.length / 2 + 1 := by
      simp only [length_cons]
      omega
    have pair := l.sscanfHex_pair digits.1 digits.2.1 hex
    rw [parsePokeBytes] at tail
    rw [parsePokeBytes, count, range_succ_eq_map, mapM_cons, mapM_map]
    have shifted : (fun i => t.sscanfHex ((high :: low :: hex).drop (2 * i))) ∘ Nat.succ =
        fun i => t.sscanfHex (hex.drop (2 * i)) := rfl
    rw [shifted, tail, drop_zero, scans, pair]
    rfl
  | case2 hex single =>
    match hex with
    | [] => rfl
    | [_] => simp at even
    | high :: low :: hex => exact absurd rfl (single high low hex)

omit scans

/-! ## Items -/

variable {isenter : Bool} {token input : List Char} {poke : PokePayload} {new : List PokePayload}

theorem parsePoke_eq_some :
    parsePoke t isenter token = some poke ↔
      ∃ digit val, token = ['@', 'a', 'r', 'g', digit, '='] ++ val ∧ ('1' ≤ digit ∧ digit ≤ '7' ∧
        val ≠ [] ∧ val.length % 2 = 0 ∧ val.length ≤ 2048) ∧
        ∃ data, parsePokeBytes t val = some data ∧
          poke = { isEnter := isenter, argNo := digit.toNat - '0'.toNat, data } := by
  constructor
  · intro parsed
    unfold parsePoke at parsed
    split at parsed
    · next digit val stripped =>
      obtain ⟨start, rfl, same⟩ := dropPrefix?_eq_some_iff.mp stripped
      split at parsed
      · next checks =>
        obtain ⟨data, read, rfl⟩ := map_eq_some_iff.mp parsed
        exact ⟨digit, val, by rw [eq_of_beq same]; rfl, checks, data, read, rfl⟩
      · cases parsed
    · cases parsed
  · rintro ⟨digit, val, rfl, checks, data, read, rfl⟩
    have stripped : strStripPrefix (['@', 'a', 'r', 'g', digit, '='] ++ val) "@arg" =
        some (digit :: '=' :: val) := rfl
    simp only [parsePoke, stripped, if_pos checks, read, map_some]

theorem argument_digit {digit : Char} (low : '1' ≤ digit) (high : digit ≤ '7') :
    1 ≤ digit.toNat - '0'.toNat ∧ digit.toNat - '0'.toNat ≤ 7 ∧
      Char.ofNat ('0'.toNat + (digit.toNat - '0'.toNat)) = digit := by
  have low : 49 ≤ digit.toNat := UInt32.le_iff_toNat_le.mp (Char.le_def.mp low)
  have high : digit.toNat ≤ 55 := UInt32.le_iff_toNat_le.mp (Char.le_def.mp high)
  have zero : '0'.toNat = 48 := rfl
  refine ⟨by omega, by omega, ?_⟩
  rw [Nat.add_sub_cancel' (by omega), Char.ofNat_toNat]

theorem digit_argument {argNo : Nat} (low : 1 ≤ argNo) (high : argNo ≤ 7) :
    '1' ≤ Char.ofNat ('0'.toNat + argNo) ∧ Char.ofNat ('0'.toNat + argNo) ≤ '7' ∧
      (Char.ofNat ('0'.toNat + argNo)).toNat - '0'.toNat = argNo := by
  have all : ∀ n < 8, 1 ≤ n → '1' ≤ Char.ofNat ('0'.toNat + n) ∧ Char.ofNat ('0'.toNat + n) ≤ '7' ∧
      (Char.ofNat ('0'.toNat + n)).toNat - '0'.toNat = n := by decide
  exact all argNo (by omega) low

theorem parsePoke_fields (parsed : parsePoke t isenter token = some poke) :
    poke.isEnter = isenter ∧ poke.argNo ≤ 7 ∧
      token[4]? = some (Char.ofNat ('0'.toNat + poke.argNo)) := by
  obtain ⟨digit, val, rfl, ⟨low, high, _⟩, data, _, rfl⟩ := parsePoke_eq_some.mp parsed
  obtain ⟨-, seven, same⟩ := argument_digit low high
  exact ⟨rfl, seven, congrArg some same.symm⟩

include scans in
theorem parsePoke_checks (isenter : Bool) :
    (∃ poke, parsePoke t isenter token = some poke) ↔ PokeChecks l token := by
  constructor
  · rintro ⟨poke, parsed⟩
    obtain ⟨digit, val, shape, ⟨low, high, checks⟩, data, read, -⟩ := parsePoke_eq_some.mp parsed
    refine ⟨digit, val, shape, low, high, checks.1, checks.2.1, checks.2.2, ?_⟩
    exact (parsePokeBytes_isSome scans val).mp (isSome_of_mem read)
  · rintro ⟨digit, val, shape, low, high, nonempty, even, short, converted⟩
    obtain ⟨data, read⟩ := isSome_iff_exists.mp
      ((parsePokeBytes_isSome scans val).mpr converted)
    exact ⟨_, parsePoke_eq_some.mpr
      ⟨digit, val, shape, ⟨low, high, nonempty, even, short⟩, data, read, rfl⟩⟩

include scans in
theorem PokeItem.Valid.parsePoke {item : PokeItem} (valid : item.Valid) (isenter : Bool) :
    parsePoke t isenter item.text = some (item.payload isenter) := by
  obtain ⟨low, high, number⟩ := digit_argument valid.argument.1 valid.argument.2
  refine parsePoke_eq_some.mpr ⟨_, item.hex, rfl,
    ⟨low, high, valid.nonempty, valid.even, valid.short⟩, PokeItem.bytes item.hex,
    parsePokeBytes_digits scans valid.even valid.digits, ?_⟩
  rw [number]
  rfl

theorem PokeChecks.item (checks : PokeChecks l token)
    (digits : ∀ c ∈ token.drop 6, isHexDigit c = true) :
    ∃ item : PokeItem, item.Valid ∧ item.text = token := by
  obtain ⟨digit, val, rfl, low, high, nonempty, even, short, -⟩ := checks
  obtain ⟨low, high, same⟩ := argument_digit low high
  refine ⟨⟨digit.toNat - '0'.toNat, val⟩, ⟨⟨low, high⟩, nonempty, even, short, digits⟩, ?_⟩
  rw [PokeItem.text, same]

/-! ## The loop -/

theorem pokeAdd_eq_some {pokes : List PokePayload} :
    pokeAdd pokes poke = some new ↔
      (∀ old ∈ pokes, old.isEnter = poke.isEnter → old.argNo ≠ poke.argNo) ∧
        new = poke :: pokes := by
  unfold pokeAdd
  split
  · next duplicate =>
    obtain ⟨old, mem, same⟩ := any_eq_true.mp duplicate
    have same := of_decide_eq_true same
    exact ⟨nofun, fun fresh => absurd same.2 (fresh.1 old mem same.1)⟩
  · grind

theorem foldlM_pokeAdd {tokens : List (List Char)} {old : List PokePayload} :
    tokens.foldlM (fun pokes token => (parsePoke t isenter token).bind (pokeAdd pokes)) old =
        some new ↔
      ∃ added, List.Forall₂ (fun token poke => parsePoke t isenter token = some poke) tokens added ∧
        (added.map PokePayload.argNo).Nodup ∧
        (∀ q ∈ old, q.isEnter = isenter → ∀ poke ∈ added, q.argNo ≠ poke.argNo) ∧
        new = added.reverse ++ old := by
  induction tokens generalizing old with
  | nil =>
    constructor
    · rintro ⟨⟩
      exact ⟨[], .nil, nodup_nil, fun _ _ _ => nofun, rfl⟩
    · rintro ⟨_, each, -, -, rfl⟩
      cases each
      rfl
  | cons token tokens ih =>
    rw [foldlM_cons, bind_eq_bind]
    simp only [bind_eq_some_iff, pokeAdd_eq_some, ih]
    constructor
    · rintro ⟨_, ⟨poke, parsed, fresh, rfl⟩, added, each, distinct, other, rfl⟩
      rw [(parsePoke_fields parsed).1] at fresh
      rw [forall_mem_cons] at other
      refine ⟨poke :: added, .cons parsed each, ?_, ?_, by simp⟩
      · rw [map_cons, nodup_cons]
        refine ⟨fun mem => ?_, distinct⟩
        obtain ⟨poke', mem', same⟩ := mem_map.mp mem
        exact other.1 (parsePoke_fields parsed).1 poke' mem' same.symm
      · intro q mem enter
        exact forall_mem_cons.mpr ⟨fresh q mem enter, other.2 q mem enter⟩
    · rintro ⟨_, each, distinct, other, rfl⟩
      cases each with
      | @cons _ poke _ added parsed each =>
        rw [map_cons, nodup_cons] at distinct
        refine ⟨poke :: old, ⟨poke, parsed, ?_, rfl⟩, added, each, distinct.2, ?_, by simp⟩
        · rw [(parsePoke_fields parsed).1]
          intro q mem enter
          exact other q mem enter poke mem_cons_self
        · refine forall_mem_cons.mpr ⟨fun _ poke' mem' same => ?_, fun q mem enter poke' mem' => ?_⟩
          · exact distinct.1 (same ▸ mem_map_of_mem mem')
          · exact other q mem enter poke' (mem_cons_of_mem _ mem')

/-! ## Commas -/

open FilterTables (tokens)

theorem tokens_commas (commas : Nat) (rest : List Char) :
    tokens (List.replicate commas ',' ++ rest) = tokens rest := by
  rw [← tokens_dropWhile, dropWhile_append_of_pos (by simp), tokens_dropWhile]

theorem tokens_part {part rest : List Char} (nonempty : part ≠ []) (plain : ',' ∉ part)
    (stop : rest = [] ∨ rest.head? = some ',') :
      tokens (part ++ rest) = part :: tokens rest.tail := by
  have word : ∀ c ∈ part, (c != ',') = true := by
    grind
  have ends : rest.takeWhile (· != ',') = [] ∧ rest.dropWhile (· != ',') = rest := by
    cases rest with
    | nil => exact ⟨rfl, rfl⟩
    | cons c rest =>
      obtain rfl : c = ',' := by simpa using stop
      exact ⟨rfl, rfl⟩
  have first : (part ++ rest).takeWhile (· != ',') = part := by
    rw [takeWhile_append_of_pos word, ends.1, append_nil]
  have later : (part ++ rest).dropWhile (· != ',') = rest := by
    rw [dropWhile_append_of_pos word, ends.2]
  obtain ⟨c, part, rfl⟩ := exists_cons_of_ne_nil nonempty
  rw [cons_append] at first later ⊢
  rw [tokens_word (bne_iff_ne.mp (word c mem_cons_self)), first, later]

theorem Separated.tokens {parts : List (List Char)} (separated : Separated parts input)
    (plain : ∀ part ∈ parts, part ≠ [] ∧ ',' ∉ part) :
    FilterTables.tokens input = parts ∧ input ≠ [] ∧ ¬ OuterComma input := by
  induction separated with
  | one part =>
    obtain ⟨nonempty, inner⟩ := forall_mem_singleton.mp plain
    have alone := tokens_part nonempty inner (.inl rfl)
    rw [append_nil] at alone
    refine ⟨alone, nonempty, ?_⟩
    rintro (comma | comma)
    · exact inner (mem_of_head? comma)
    · exact inner (mem_of_getLast? comma)
  | more part commas separated ih =>
    rw [forall_mem_cons] at plain
    obtain ⟨⟨nonempty, inner⟩, plain⟩ := plain
    obtain ⟨later, nonempty', inner'⟩ := ih plain
    rw [append_assoc]
    refine ⟨?_, append_ne_nil_of_left_ne_nil nonempty _, ?_⟩
    · rw [tokens_part nonempty inner (.inr rfl), replicate_succ, cons_append, tail_cons,
        tokens_commas, later]
    · rintro (comma | comma)
      · rw [head?_append_of_ne_nil _ nonempty] at comma
        exact inner (mem_of_head? comma)
      · rw [getLast?_append_of_ne_nil _ (append_ne_nil_of_right_ne_nil _ nonempty'),
          getLast?_append_of_ne_nil _ nonempty'] at comma
        exact inner' (.inr comma)

theorem separated_tokens (nonempty : input ≠ []) (inner : ¬ OuterComma input) :
    Separated (tokens input) input := by
  induction size : input.length using Nat.strongRecOn generalizing input with
  | ind n ih =>
    obtain ⟨c, input, rfl⟩ := exists_cons_of_ne_nil nonempty
    have start : c ≠ ',' := fun comma => inner (.inl (congrArg some comma))
    rw [tokens_word start]
    have whole := takeWhile_append_dropWhile (p := (· != ',')) (l := c :: input)
    generalize (c :: input).takeWhile (· != ',') = part at whole
    cases after : (c :: input).dropWhile (· != ',') with
    | nil =>
      rw [after, append_nil] at whole
      rw [← whole]
      exact .one part
    | cons d tail =>
      obtain rfl : d = ',' := by
        have stop := head?_dropWhile_not (· != ',') (c :: input)
        simpa [after] using stop
      have split := takeWhile_append_dropWhile (p := (· == ',')) (l := tail)
      have commas : tail.takeWhile (· == ',') =
          List.replicate (tail.takeWhile (· == ',')).length ',' := by
        refine eq_replicate_iff.mpr ⟨rfl, fun d mem => ?_⟩
        simpa using all_eq_true.mp all_takeWhile d mem
      generalize (tail.takeWhile (· == ',')).length = k at commas
      have before := tokens_dropWhile tail
      have begins := head?_dropWhile_not (· == ',') tail
      rw [tail_cons, ← before]
      generalize tail.dropWhile (· == ',') = rest at *
      have joined : c :: input = part ++ List.replicate (k + 1) ',' ++ rest := by
        grind
      rw [joined] at inner size ⊢
      have remains : rest ≠ [] := by
        rintro rfl
        refine inner (.inr ?_)
        rw [append_nil, getLast?_append_of_ne_nil _ (by simp), getLast?_replicate,
          if_neg (Nat.succ_ne_zero k)]
      refine .more part k (ih rest.length ?_ remains ?_ rfl)
      · grind
      · rintro (comma | comma)
        · simp [comma] at begins
        · exact inner (.inr ((getLast?_append_of_ne_nil _ remains).trans comma))

/-! ## What is accepted -/

theorem PokeItem.Valid.plain {item : PokeItem} (valid : item.Valid) :
    item.text ≠ [] ∧ ',' ∉ item.text := by
  obtain ⟨low, -, -⟩ := digit_argument valid.argument.1 valid.argument.2
  refine ⟨cons_ne_nil _ _, fun comma => ?_⟩
  rcases mem_append.mp comma with mem | mem
  · generalize Char.ofNat ('0'.toNat + item.argNo) = digit at low mem
    obtain rfl : ',' = digit := by simpa using mem
    exact absurd low (by decide)
  · exact absurd (valid.digits _ mem) (by decide)

section
variable {items : List PokeItem} {input : List Char}

theorem PokeListing.tokens (listing : PokeListing items input) :
    strtokAll ',' input = items.map PokeItem.text ∧ input ≠ [] ∧ ¬ OuterComma input := by
  refine listing.separated.tokens fun part mem => ?_
  obtain ⟨item, listed, rfl⟩ := mem_map.mp mem
  exact (listing.valid item listed).plain

theorem PokeListing.hexValues (listing : PokeListing items input) : HexValues input := by
  intro token mem
  rw [listing.tokens.1] at mem
  obtain ⟨item, listed, rfl⟩ := mem_map.mp mem
  exact (listing.valid item listed).digits

theorem PokesCheck.listing (check : PokesCheck l input) (nonempty : input ≠ [])
    (inner : ¬ OuterComma input) (hex : HexValues input) : ∃ items, PokeListing items input := by
  have found (tokens : List (List Char)) (each : ∀ token ∈ tokens, ∃ item : PokeItem,
      item.Valid ∧ item.text = token) :
      ∃ items : List PokeItem, (∀ item ∈ items, item.Valid) ∧ items.map PokeItem.text = tokens := by
    induction tokens with
    | nil => exact ⟨[], nofun, rfl⟩
    | cons token tokens ih =>
      rw [List.forall_mem_cons] at each
      obtain ⟨⟨item, valid, rfl⟩, each⟩ := each
      obtain ⟨items, valids, rfl⟩ := ih each
      exact ⟨item :: items, List.forall_mem_cons.mpr ⟨valid, valids⟩, rfl⟩
  obtain ⟨items, valid, texts⟩ := found _ fun token mem => (check.1 token mem).item (hex token mem)
  refine ⟨items, ?_, valid, ?_⟩
  · rw [texts]
    exact separated_tokens nonempty inner
  · have distinct := check.2
    rw [← texts, List.map_map] at distinct
    have digits : (fun token : List Char => token[4]?) ∘ PokeItem.text =
        (fun n => some (Char.ofNat ('0'.toNat + n))) ∘ PokeItem.argNo := rfl
    rw [digits, ← List.map_map] at distinct
    exact List.Nodup.of_map _ distinct

end

/-- The items are read one by one. -/
def Reads (t : InjectTables) (isenter : Bool) (input : List Char) (added : List PokePayload) :
    Prop :=
  List.Forall₂ (fun token poke => parsePoke t isenter token = some poke)
    (strtokAll ',' input) added ∧
    (added.map PokePayload.argNo).Nodup

theorem argument_digits {tokens : List (List Char)} {added : List PokePayload}
    (each : List.Forall₂ (fun token poke => parsePoke t isenter token = some poke) tokens added) :
    (tokens.map fun token => token[4]?).Nodup ↔ (added.map PokePayload.argNo).Nodup := by
  have digits : (tokens.map fun token => token[4]?) =
      (added.map PokePayload.argNo).map (fun n => some (Char.ofNat ('0'.toNat + n))) ∧
      ∀ n ∈ added.map PokePayload.argNo, n < 8 := by
    induction each with
    | nil => exact ⟨rfl, nofun⟩
    | cons parsed each ih =>
      obtain ⟨-, seven, digit⟩ := parsePoke_fields parsed
      refine ⟨?_, forall_mem_cons.mpr ⟨Nat.lt_succ_of_le seven, ih.2⟩⟩
      rw [map_cons, map_cons, map_cons, digit, ih.1]
  have differ : ∀ a < 8, ∀ b < 8, some (Char.ofNat ('0'.toNat + a)) =
      some (Char.ofNat ('0'.toNat + b)) → a = b := by decide
  rw [digits.1]
  constructor
  · exact List.Nodup.of_map _
  · exact List.Nodup.map_on fun a mem b mem' => differ a (digits.2 a mem) b (digits.2 b mem')

include scans in
theorem reads_iff_check (isenter : Bool) :
    (∃ added, Reads t isenter input added) ↔ PokesCheck l input := by
  have each (tokens : List (List Char)) : (∃ added, List.Forall₂
      (fun token poke => parsePoke t isenter token = some poke) tokens added) ↔
      ∀ token ∈ tokens, PokeChecks l token := by
    induction tokens with
    | nil => exact ⟨fun _ => nofun, fun _ => ⟨[], .nil⟩⟩
    | cons token tokens ih =>
      rw [forall_mem_cons, ← ih, ← parsePoke_checks scans isenter]
      constructor
      · rintro ⟨_, each⟩
        cases each with
        | cons parsed each => exact ⟨⟨_, parsed⟩, _, each⟩
      · rintro ⟨⟨poke, parsed⟩, added, each⟩
        exact ⟨poke :: added, .cons parsed each⟩
  constructor
  · rintro ⟨added, reads, distinct⟩
    exact ⟨(each _).mp ⟨added, reads⟩, (argument_digits reads).mpr distinct⟩
  · rintro ⟨checks, distinct⟩
    obtain ⟨added, reads⟩ := (each _).mpr checks
    exact ⟨added, reads, (argument_digits reads).mp distinct⟩

include scans in
theorem PokeListing.reads {items : List PokeItem} (listing : PokeListing items input)
    (isenter : Bool) :
    Reads t isenter input (items.map (PokeItem.payload isenter)) := by
  constructor
  · rw [listing.tokens.1, List.forall₂_map_left_iff, List.forall₂_map_right_iff, List.forall₂_same]
    exact fun item mem => (listing.valid item mem).parsePoke scans isenter
  · rw [List.map_map]
    exact listing.distinct

section
variable {s : InjectParse} {isenter : Bool} {input : List Char}

theorem InjectParse.pokeIndex_ok (room : s.HasPokeIndex) :
    ∃ pokeIdx arenas, s.pokeIndex = .ok (pokeIdx, arenas, s.oldPokes) := by
  unfold pokeIndex oldPokes
  split
  · next unset =>
    have small : ¬ s.arenas.pokeDataVecSize.toUInt16.toNat < s.arenas.pokeDataVecSize := by
      rw [UInt16.toNat_ofNat', Nat.mod_eq_of_lt (room unset)]
      exact Nat.lt_irrefl _
    rw [allocPokeData, if_neg small]
    exact ⟨_, _, rfl⟩
  · exact ⟨_, _, rfl⟩

theorem InjectParse.pokeIndex_fatal (full : ¬ s.HasPokeIndex) :
    ∃ f, s.pokeIndex = .error (.fatal f) := by
  obtain ⟨unset, full⟩ := Classical.not_imp.mp full
  have wraps : s.arenas.pokeDataVecSize.toUInt16.toNat < s.arenas.pokeDataVecSize := by
    rw [UInt16.toNat_ofNat']
    omega
  rw [pokeIndex, if_pos unset, allocPokeData, if_pos wraps]
  exact ⟨_, rfl⟩

theorem parsePokeToken_eq {pokeIdx : UInt16} {arenas : Arenas} {old : List PokePayload}
    (unset : s.fopts.data.pokes isenter = false) (nonempty : input ≠ [])
    (index : s.pokeIndex = .ok (pokeIdx, arenas, old)) :
    parsePokeToken t input isenter s = (parsePokes t isenter old input).map fun poke =>
      { s with arenas, poke, fopts.data := { s.fopts.data with pokeIdx }.setPokes isenter } := by
  rw [parsePokeToken, if_neg (by simp [unset]), if_neg nonempty, index]
  rfl

variable (unpoked : s.Unpoked isenter)
include unpoked

theorem parsePokeToken_reads (nonempty : input ≠ [])
    (room : s.HasPokeIndex) {added : List PokePayload} (reads : Reads t isenter input added) :
    ∃ s', parsePokeToken t input isenter s = .ok s' ∧ s'.poke = added.reverse ++ s.oldPokes := by
  obtain ⟨pokeIdx, arenas, index⟩ := InjectParse.pokeIndex_ok room
  have looped := foldlM_pokeAdd.mpr ⟨added, reads.1, reads.2,
    fun q mem enter => absurd enter (unpoked.pokes q mem), rfl⟩
  rw [parsePokeToken_eq unpoked.flag nonempty index, parsePokes, looped]
  exact ⟨_, rfl, rfl⟩

theorem parsePokeToken_stuck (nonempty : input ≠ [])
    (room : s.HasPokeIndex) (stuck : ¬ ∃ added, Reads t isenter input added) :
    parsePokeToken t input isenter s = .error .invalid := by
  obtain ⟨pokeIdx, arenas, index⟩ := InjectParse.pokeIndex_ok room
  rw [parsePokeToken_eq unpoked.flag nonempty index, parsePokes]
  split
  · rfl
  · next looped =>
    obtain ⟨added, each, distinct, -⟩ := foldlM_pokeAdd.mp looped
    exact absurd ⟨added, each, distinct⟩ stuck

theorem parsePokeToken_fatal (nonempty : input ≠ [])
    (full : ¬ s.HasPokeIndex) : ∃ f, parsePokeToken t input isenter s = .error (.fatal f) := by
  obtain ⟨f, dies⟩ := InjectParse.pokeIndex_fatal full
  rw [parsePokeToken, if_neg (by simp [unpoked.flag]), if_neg nonempty, dies]
  exact ⟨f, rfl⟩

end

end

/-- Exactly the lists of payloads are accepted if there is an index, and a string that passes
the checks has no commas at its ends and no other characters than digits in its values. -/
theorem parse_poke_token_accepts_iff {t : InjectTables} {l : Scanf}
    (scans : t.sscanfHex = l.sscanfHex)
    {s : InjectParse} {isenter : Bool} (unpoked : s.Unpoked isenter) (input : List Char) :
    AcceptsListings t input isenter s ↔
      (input ≠ [] → s.HasPokeIndex) ∧
      (input ≠ [] → PokesCheck l input → ¬ OuterComma input ∧ HexValues input) := by
  constructor
  · intro exact
    have room (nonempty : input ≠ []) : s.HasPokeIndex := by
      by_contra full
      obtain ⟨f, dies⟩ := parsePokeToken_fatal unpoked nonempty full
      by_cases listed : ∃ items, PokeListing items input
      · obtain ⟨items, listing⟩ := listed
        obtain ⟨s', accepted, -⟩ := exact.accepts items listing
        cases accepted.symm.trans dies
      · cases (exact.rejects listed).symm.trans dies
    refine ⟨room, fun nonempty check => ?_⟩
    obtain ⟨added, reads⟩ := (reads_iff_check scans isenter).mpr check
    obtain ⟨s', accepted, -⟩ := parsePokeToken_reads unpoked nonempty (room nonempty) reads
    by_cases listed : ∃ items, PokeListing items input
    · obtain ⟨items, listing⟩ := listed
      exact ⟨listing.tokens.2.2, listing.hexValues⟩
    · cases accepted.symm.trans (exact.rejects listed)
  · rintro ⟨room, clean⟩
    constructor
    · intro items listing
      have nonempty := listing.tokens.2.1
      obtain ⟨s', accepted, stored⟩ :=
        parsePokeToken_reads unpoked nonempty (room nonempty) (listing.reads scans isenter)
      exact ⟨s', accepted, stored, fun item _ => PokeItem.length_bytes item.hex⟩
    · intro unlisted
      by_cases nonempty : input = []
      · subst nonempty
        rw [parsePokeToken, if_neg (by simp [unpoked.flag]), if_pos rfl]
      · refine parsePokeToken_stuck unpoked nonempty (room nonempty) fun reads => ?_
        have check := (reads_iff_check scans isenter).mp reads
        obtain ⟨inner, hex⟩ := clean nonempty check
        exact unlisted (check.listing nonempty inner hex)

def cLocale : Scanf where
  isspace c := [' ', '\t', '\n', '\x0b', '\x0c', '\r'].contains c
  bareBase := some 0
  isspace_digit c digit := by
    rw [Bool.eq_false_iff]
    intro space
    simp only [List.contains_cons, List.contains_nil, Bool.or_eq_true, Bool.or_false,
      beq_iff_eq] at space
    rcases space with rfl | rfl | rfl | rfl | rfl | rfl <;> exact absurd digit (by decide)

def scanningTables : InjectTables := { pureSyscalls with sscanfHex := cLocale.sscanfHex }

def freshParse : InjectParse where
  fopts := { data := { pokeIdx := 0xffff } }
  pdata _ := 0
  arenas := {}

/-- `@arg1=dead,,@arg2=BE` -/
theorem parse_poke_token_accepts_two :
    AcceptsListings scanningTables ['@', 'a', 'r', 'g', '1', '=', 'd', 'e', 'a', 'd', ',', ',',
      '@', 'a', 'r', 'g', '2', '=', 'B', 'E'] true freshParse :=
  (parse_poke_token_accepts_iff rfl
    ⟨rfl, fun _ mem => absurd mem List.not_mem_nil⟩ _).mpr
    ⟨fun _ _ => (by decide : 0 < 2 ^ 16), fun _ _ => by decide⟩

/-- `@arg1=ag` is no list of payloads, but the byte 10 is stored for it. -/
theorem parse_poke_token_takes_other_letters :
    (∃ s, parsePokeToken scanningTables ['@', 'a', 'r', 'g', '1', '=', 'a', 'g'] true freshParse =
      .ok s ∧ s.poke = [{ isEnter := true, argNo := 1, data := [10] }]) ∧
    ¬ AcceptsListings scanningTables ['@', 'a', 'r', 'g', '1', '=', 'a', 'g'] true freshParse := by
  have accepted : ∃ s, parsePokeToken scanningTables ['@', 'a', 'r', 'g', '1', '=', 'a', 'g'] true
      freshParse = .ok s ∧ s.poke = [{ isEnter := true, argNo := 1, data := [10] }] := ⟨_, rfl, rfl⟩
  refine ⟨accepted, fun exact => ?_⟩
  obtain ⟨s, accepted, -⟩ := accepted
  have rejected := exact.rejects fun ⟨items, listing⟩ => absurd listing.hexValues (by decide)
  cases accepted.symm.trans rejected

end Strace
