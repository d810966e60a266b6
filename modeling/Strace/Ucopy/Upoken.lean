import Mathlib.Data.List.GetD
import Strace.Ucopy.Umove

/-! `upoken` of `ucopy.c`, and reads after writes. Writes go past the page cache. -/
namespace Strace
open List

def Memory.write (g : Geometry) (mem : Memory) (addr : Nat) (data : List UInt8) : Memory :=
  fun a => data.getD ((a + (g.space - addr % g.space)) % g.space) (mem a)

namespace Ucopy

variable {g : Geometry} (k : Kernel g) (mem : Memory)

def vmWriteMem (s : Ucopy) (raddr len : Nat) : Ucopy × Except Errno Nat :=
  match k.writev raddr len with
  | .error .enosys => ({ s with processVmWritevNotSupported := true }, .error .enosys)
  | rc => (s, rc)

def upokenPeekpoke (addr : Nat) (data : List UInt8) (offset : Nat) : Option Memory :=
  match k.peek addr with
  | some _ => none
  | none =>
    let word := mem.bytes g addr g.wordSize
    let word := word.take offset ++ data ++ word.drop (offset + data.length)
    match k.poke addr with
    | some _ => none
    | none => some (mem.write g addr word)

def upokenWords : (fuel : Nat) → Memory → (addr : Nat) → (data : List UInt8) →
    (nwritten : Nat) → Memory × Nat
  | 0, mem, _, _, nwritten => (mem, nwritten)
  | fuel + 1, mem, addr, data, nwritten =>
    if g.wordSize ≤ data.length then
      match k.poke addr with
      | some _ => (mem, nwritten)
      | none =>
        upokenWords fuel (mem.write g addr (data.take g.wordSize))
          ((addr + g.wordSize) % g.space) (data.drop g.wordSize) (nwritten + g.wordSize)
    else if data.length ≠ 0 then
      match upokenPeekpoke k mem addr data 0 with
      | none => (mem, nwritten)
      | some mem => (mem, nwritten + data.length)
    else (mem, nwritten)

def upokenPokedata (addr : Nat) (data : List UInt8) : Memory × Nat :=
  if data.length ≠ 0 ∧ addr % g.wordSize ≠ 0 then
    let residue := addr % g.wordSize
    let npoke := min (g.wordSize - residue) data.length
    let addr := g.wordStart addr
    match upokenPeekpoke k mem addr (data.take npoke) residue with
    | none => (mem, 0)
    | some mem =>
      upokenWords k data.length mem ((addr + g.wordSize) % g.space) (data.drop npoke) npoke
  else upokenWords k data.length mem addr data 0

def upoken (s : Ucopy) (currentWordsize addr : Nat) (data : List UInt8) : Ucopy × Memory × Nat :=
  if traceeAddrIsInvalid g currentWordsize addr then (s, mem, 0)
  else if s.processVmWritevNotSupported then (s, upokenPokedata k mem addr data)
  else
    match vmWriteMem k s addr data.length with
    | (s, .ok r) => (s, mem.write g addr (data.take r), r)
    | (s, .error e) =>
      if data.length = 2 ^ 32 - 1 then (s, mem, data.length)
      else
        match e with
        | .enosys => (s, upokenPokedata k mem addr data)
        | .eperm => (s, upokenPokedata k mem addr data)
        | .efault => (s, upokenPokedata k mem addr data)
        | .eio => (s, upokenPokedata k mem addr data)
        | _ => (s, mem, 0)

/-! ## Answers that differ from request to request -/

section

variable (answers : Nat → Kernel g)

def upokenPeekpokeAt (i : Nat) (addr : Nat) (data : List UInt8) (offset : Nat) : Option Memory :=
  match (answers i).peek addr with
  | some _ => none
  | none =>
    let word := mem.bytes g addr g.wordSize
    let word := word.take offset ++ data ++ word.drop (offset + data.length)
    match (answers (i + 1)).poke addr with
    | some _ => none
    | none => some (mem.write g addr word)

/-- The loop from request `i` on. -/
def upokenWordsAt : (fuel i : Nat) → Memory → (addr : Nat) → (data : List UInt8) →
    (nwritten : Nat) → Memory × Nat
  | 0, _, mem, _, _, nwritten => (mem, nwritten)
  | fuel + 1, i, mem, addr, data, nwritten =>
    if g.wordSize ≤ data.length then
      match (answers i).poke addr with
      | some _ => (mem, nwritten)
      | none =>
        upokenWordsAt fuel (i + 1) (mem.write g addr (data.take g.wordSize))
          ((addr + g.wordSize) % g.space) (data.drop g.wordSize) (nwritten + g.wordSize)
    else if data.length ≠ 0 then
      match upokenPeekpokeAt mem answers i addr data 0 with
      | none => (mem, nwritten)
      | some mem => (mem, nwritten + data.length)
    else (mem, nwritten)

def upokenPokedataAt (addr : Nat) (data : List UInt8) : Memory × Nat :=
  if data.length ≠ 0 ∧ addr % g.wordSize ≠ 0 then
    let residue := addr % g.wordSize
    let npoke := min (g.wordSize - residue) data.length
    let addr := g.wordStart addr
    match upokenPeekpokeAt mem answers 0 addr (data.take npoke) residue with
    | none => (mem, 0)
    | some mem =>
      upokenWordsAt answers data.length 2 mem ((addr + g.wordSize) % g.space)
        (data.drop npoke) npoke
  else upokenWordsAt answers data.length 0 mem addr data 0

end

theorem upokenWords_eq (fuel i : Nat) (addr : Nat) (data : List UInt8) (nwritten : Nat) :
    upokenWords k fuel mem addr data nwritten =
      upokenWordsAt (fun _ => k) fuel i mem addr data nwritten := by
  induction fuel generalizing mem i addr data nwritten with
  | zero => rfl
  | succ fuel ih =>
    unfold upokenWords upokenWordsAt
    split
    · split
      · rfl
      · exact ih ..
    · rfl

theorem upokenPokedata_eq (addr : Nat) (data : List UInt8) :
    upokenPokedata k mem addr data = upokenPokedataAt mem (fun _ => k) addr data := by
  have peekpoke (addr : Nat) (data : List UInt8) (offset : Nat) :
      upokenPeekpoke k mem addr data offset =
        upokenPeekpokeAt mem (fun _ => k) 0 addr data offset := rfl
  unfold upokenPokedata upokenPokedataAt
  split
  · dsimp only
    rw [peekpoke]
    split
    · rfl
    · exact upokenWords_eq ..
  · exact upokenWords_eq ..

end Ucopy

/-! ## What is written -/

section

variable {g : Geometry} {mem : Memory}

def Wrote (g : Geometry) (mem : Memory) (addr : Nat) (data : List UInt8) (mem' : Memory) : Prop :=
  ∀ i < g.space, mem' ((addr + i) % g.space) = data.getD i (mem ((addr + i) % g.space))

theorem two_pow_le_space : 2 ^ 32 ≤ g.space := by
  rcases g.long with long | long <;> simp [Geometry.space, long]

theorem space_pos : 0 < g.space := Nat.two_pow_pos _

theorem add_around (addr i : Nat) :
    (addr + i + (g.space - addr % g.space)) % g.space = i % g.space := by
  have below : addr % g.space < g.space := Nat.mod_lt _ space_pos
  have parts := Nat.div_add_mod addr g.space
  have whole : addr + i + (g.space - addr % g.space) = i + g.space * (addr / g.space + 1) := by
    rw [Nat.mul_succ]
    omega
  rw [whole, Nat.add_mul_mod_self_left]

theorem exists_offset (addr : Nat) {a : Nat} (low : a < g.space) :
    ∃ i < g.space, a = (addr + i) % g.space := by
  refine ⟨(a + (g.space - addr % g.space)) % g.space, Nat.mod_lt _ space_pos, ?_⟩
  rw [Nat.add_mod_mod, ← Nat.add_assoc, add_around, Nat.mod_eq_of_lt low]

theorem wrote_write (addr : Nat) (data : List UInt8) :
    Wrote g mem addr data (mem.write g addr data) := by
  intro i inside
  unfold Memory.write
  rw [Nat.mod_add_mod, add_around, Nat.mod_eq_of_lt inside]

theorem Wrote.nil (addr : Nat) : Wrote g mem addr [] mem := fun _ _ => rfl

variable {addr : Nat}

theorem Wrote.append {mem₁ mem₂ : Memory} {next : Nat} {first second : List UInt8}
    (one : Wrote g mem addr first mem₁) (two : Wrote g mem₁ next second mem₂)
    (follows : next % g.space = (addr + first.length) % g.space)
    (fits : first.length + second.length ≤ g.space) :
    Wrote g mem addr (first ++ second) mem₂ := by
  intro i inside
  by_cases early : i < first.length
  · have index : (next + (i + g.space - first.length)) % g.space = (addr + i) % g.space := by
      rw [Nat.add_mod, follows, ← Nat.add_mod,
        show addr + first.length + (i + g.space - first.length) = addr + i + g.space by omega,
        Nat.add_mod_right]
    have later := two (i + g.space - first.length) (by omega)
    rw [index, one i inside, getD_eq_default _ _ (by omega)] at later
    rw [later, getD_append _ _ _ _ early]
  · have index : (next + (i - first.length)) % g.space = (addr + i) % g.space := by
      rw [Nat.add_mod, follows, ← Nat.add_mod,
        show addr + first.length + (i - first.length) = addr + i by omega]
    have later := two (i - first.length) (by omega)
    rw [index, one i inside, getD_eq_default first _ (by omega)] at later
    rw [later, getD_append_right _ _ _ _ (by omega)]

theorem getD_bytes (addr n j : Nat) :
    (mem.bytes g addr n).getD j (mem ((addr + j) % g.space)) = mem ((addr + j) % g.space) := by
  unfold Memory.bytes
  by_cases inside : j < n
  · simp [getElem?_range inside]
  · grind

theorem bytes_drop (addr m n : Nat) :
    (mem.bytes g addr n).drop m = mem.bytes g (addr + m) (n - m) := by
  rcases Nat.le_total m n with inside | beyond
  · have parts : mem.bytes g addr n = mem.bytes g addr m ++ mem.bytes g (addr + m) (n - m) := by
      rw [← Memory.bytes_append, Nat.add_sub_cancel' inside]
    rw [parts, drop_left' (Memory.length_bytes g mem addr m)]
  · rw [drop_eq_nil_of_le (by rwa [Memory.length_bytes]), Nat.sub_eq_zero_of_le beyond]
    rfl

theorem Wrote.inWord {mem' : Memory} {offset n : Nat} {data : List UInt8}
    (inside : offset + data.length ≤ n) (short : n ≤ g.space)
    (word : Wrote g mem addr ((mem.bytes g addr n).take offset ++ data ++
      (mem.bytes g addr n).drop (offset + data.length)) mem') :
    Wrote g mem (addr + offset) data mem' := by
  have before : ((mem.bytes g addr n).take offset).length = offset := by
    rw [bytes_take, Memory.length_bytes]
    omega
  intro i below
  by_cases around : g.space ≤ offset + i
  · have index : (addr + offset + i) % g.space = (addr + (offset + i - g.space)) % g.space := by
      rw [← Nat.add_mod_right (addr + (offset + i - g.space))]
      congr 1
      omega
    rw [index, word _ (by omega), append_assoc, getD_append _ _ _ _ (by omega),
      bytes_take, getD_bytes, getD_eq_default _ _ (by omega)]
  · rw [Nat.add_assoc, word _ (by omega), append_assoc,
      getD_append_right _ _ _ _ (by omega), before, Nat.add_sub_cancel_left]
    by_cases inData : i < data.length
    · rw [getD_append _ _ _ _ inData]
    · rw [getD_append_right _ _ _ _ (by omega), getD_eq_default data _ (by omega),
        bytes_drop]
      have after : addr + (offset + i) = addr + (offset + data.length) + (i - data.length) := by
        omega
      rw [after, getD_bytes]

end

namespace Ucopy

variable {g : Geometry} {k : Kernel g} {mem : Memory}

section

variable {answers : Nat → Kernel g} {i addr : Nat} {data : List UInt8}

theorem upokenPeekpokeAt_wrote {mem' : Memory} {offset : Nat}
    (inside : offset + data.length ≤ g.wordSize)
    (poked : upokenPeekpokeAt mem answers i addr data offset = some mem') :
    Wrote g mem (addr + offset) data mem' := by
  unfold upokenPeekpokeAt at poked
  split at poked
  · cases poked
  · split at poked
    · cases poked
    · cases poked
      exact Wrote.inWord inside (Nat.le_of_dvd space_pos g.wordSize_dvd_space) (wrote_write _ _)

theorem upokenWordsAt_nil (fuel i addr nwritten : Nat) :
    upokenWordsAt answers fuel i mem addr [] nwritten = (mem, nwritten) := by
  cases fuel with
  | zero => rfl
  | succ fuel =>
    unfold upokenWordsAt
    rw [length_nil, if_neg (Nat.not_le.mpr g.wordSize_pos), if_neg (by simp)]

theorem upokenWordsAt_wrote {fuel nwritten : Nat} (enough : data.length ≤ fuel)
    (fits : data.length ≤ g.space) :
    ∃ n ≤ data.length, (upokenWordsAt answers fuel i mem addr data nwritten).2 = nwritten + n ∧
      Wrote g mem addr (data.take n) (upokenWordsAt answers fuel i mem addr data nwritten).1 := by
  induction fuel generalizing i mem addr data nwritten with
  | zero => exact ⟨0, Nat.zero_le _, rfl, Wrote.nil addr⟩
  | succ fuel ih =>
    have word := g.wordSize_pos
    unfold upokenWordsAt
    split
    · next whole =>
      split
      · exact ⟨0, Nat.zero_le _, rfl, Wrote.nil addr⟩
      · have left : (data.drop g.wordSize).length = data.length - g.wordSize := length_drop
        have first := length_take_of_le whole
        obtain ⟨n, bound, count, wrote⟩ := ih
          (show (data.drop g.wordSize).length ≤ fuel by omega) (by omega)
        refine ⟨g.wordSize + n, by omega, count.trans (Nat.add_assoc _ _ _), ?_⟩
        rw [take_add]
        refine (wrote_write addr _).append wrote ?_ ?_
        · rw [first, Nat.mod_mod]
        · rw [first, length_take]
          omega
    · split
      · split
        · exact ⟨0, Nat.zero_le _, rfl, Wrote.nil addr⟩
        · next poked =>
          refine ⟨data.length, Nat.le_refl _, rfl, ?_⟩
          rw [take_length]
          exact upokenPeekpokeAt_wrote (by omega) poked
      · exact ⟨0, Nat.zero_le _, rfl, Wrote.nil addr⟩

variable (answers mem) in
theorem upokenPokedataAt_wrote (addr : Nat) (fits : data.length ≤ g.space) :
    (upokenPokedataAt mem answers addr data).2 ≤ data.length ∧
      Wrote g mem addr (data.take (upokenPokedataAt mem answers addr data).2)
        (upokenPokedataAt mem answers addr data).1 := by
  unfold upokenPokedataAt
  split
  · have start := g.wordStart_add addr
    have inside : addr % g.wordSize < g.wordSize := Nat.mod_lt _ g.wordSize_pos
    dsimp only
    generalize npoke : min (g.wordSize - addr % g.wordSize) data.length = m
    have first : (data.take m).length = m := length_take_of_le (by omega)
    split
    · exact ⟨Nat.zero_le _, Wrote.nil addr⟩
    · next poked =>
      have one := upokenPeekpokeAt_wrote (by omega) poked
      rw [start] at one
      -- If the data ends in the first word, the next address does not follow it.
      by_cases last : m = data.length
      · rw [drop_eq_nil_of_le (Nat.le_of_eq last.symm), upokenWordsAt_nil]
        exact ⟨Nat.le_of_eq last, one⟩
      · have left : (data.drop m).length = data.length - m := length_drop
        obtain ⟨n, bound, count, wrote⟩ := upokenWordsAt_wrote
          (show (data.drop m).length ≤ data.length by omega)
          (show (data.drop m).length ≤ g.space by omega)
        rw [count, take_add]
        refine ⟨by omega, one.append wrote ?_ ?_⟩
        · rw [first, Nat.mod_mod, show g.wordStart addr + g.wordSize = addr + m by omega]
        · rw [first, length_take]
          omega
  · obtain ⟨n, bound, count, wrote⟩ := upokenWordsAt_wrote (Nat.le_refl _) fits
    rw [count, Nat.zero_add]
    exact ⟨bound, wrote⟩

section

variable (able : ∀ i addr, (answers i).peek addr = none ∧ (answers i).poke addr = none)
include able

variable (mem) in
theorem upokenPeekpokeAt_some (i addr : Nat) (data : List UInt8) (offset : Nat) :
    ∃ mem', upokenPeekpokeAt mem answers i addr data offset = some mem' := by
  simp [(able i addr).1, (able (i + 1) addr).2, upokenPeekpokeAt]

theorem upokenWordsAt_all {fuel i addr nwritten : Nat} {data : List UInt8}
    (enough : data.length ≤ fuel) :
    (upokenWordsAt answers fuel i mem addr data nwritten).2 = nwritten + data.length := by
  induction fuel generalizing i mem addr data nwritten with
  | zero =>
    obtain rfl := eq_nil_of_length_eq_zero (Nat.le_zero.mp enough)
    rfl
  | succ fuel ih =>
    have word := g.wordSize_pos
    unfold upokenWordsAt
    split
    · have left : (data.drop g.wordSize).length = data.length - g.wordSize := length_drop
      rw [(able i addr).2]
      rw [ih (by omega)]
      omega
    · split
      · obtain ⟨mem', poked⟩ := upokenPeekpokeAt_some mem able i addr data 0
        rw [poked]
      · next empty => omega

variable (mem) in
theorem upokenPokedataAt_all (addr : Nat) (data : List UInt8) :
    (upokenPokedataAt mem answers addr data).2 = data.length := by
  unfold upokenPokedataAt
  split
  · dsimp only
    obtain ⟨mem', poked⟩ := upokenPeekpokeAt_some mem able 0 (g.wordStart addr)
      (data.take (min (g.wordSize - addr % g.wordSize) data.length)) (addr % g.wordSize)
    rw [poked]
    rw [upokenWordsAt_all able (by rw [length_drop]; omega), length_drop]
    omega
  · rw [upokenWordsAt_all able (Nat.le_refl _), Nat.zero_add]

end

end

/-- Whatever requests fail, the bytes that are counted have been replaced, and no others.
All of them are if no request fails. -/
theorem upoken_pokedata_replaces (answers : Nat → Kernel g) (mem : Memory) (addr : Nat)
    {data : List UInt8} (len : data.length < 2 ^ 32) {mem' : Memory} {n : Nat}
    (result : upokenPokedataAt mem answers addr data = (mem', n)) :
    n ≤ data.length ∧ Wrote g mem addr (data.take n) mem' ∧
      (n = data.length → Wrote g mem addr data mem') ∧
      ((∀ i addr, (answers i).peek addr = none ∧ (answers i).poke addr = none) →
        n = data.length) := by
  obtain ⟨bound, wrote⟩ := upokenPokedataAt_wrote mem answers addr
    (Nat.le_trans (Nat.le_of_lt len) two_pow_le_space)
  rw [result] at bound wrote
  refine ⟨bound, wrote, fun all => ?_, fun able => ?_⟩
  · rwa [all, List.take_length] at wrote
  · have all := upokenPokedataAt_all mem able addr data
    rwa [result] at all

/-- Only the third request fails. -/
def thirdFails (i : Nat) : Kernel x8664 := pageKernel x8664 fun _ => i ≠ 2

/-- The two bytes in the first word are replaced, and nothing of the second word. -/
theorem upoken_pokedata_replaces_two :
    (upokenPokedataAt (fun _ => 0x61) thirdFails 0x1006 (List.replicate 12 0x62)).2 = 2 ∧
    Wrote x8664 (fun _ => 0x61) 0x1006 [0x62, 0x62]
      (upokenPokedataAt (fun _ => 0x61) thirdFails 0x1006 (List.replicate 12 0x62)).1 := by
  have count : (upokenPokedataAt (fun _ => 0x61) thirdFails 0x1006
      (List.replicate 12 0x62)).2 = 2 := by decide
  generalize result : upokenPokedataAt (fun _ => 0x61) thirdFails 0x1006
    (List.replicate 12 0x62) = written at count ⊢
  obtain ⟨mem', n⟩ := written
  obtain rfl := count
  exact ⟨rfl, (upoken_pokedata_replaces thirdFails (fun _ => 0x61) 0x1006
    (by decide : (List.replicate 12 (0x62 : UInt8)).length < 2 ^ 32) result).2.1⟩

variable {data : List UInt8} {addr len m next fuel : Nat}

variable (k mem) in
theorem upokenPokedata_wrote (addr : Nat) (fits : data.length ≤ g.space) :
    Wrote g mem addr (data.take (upokenPokedata k mem addr data).2)
      (upokenPokedata k mem addr data).1 := by
  rw [upokenPokedata_eq]
  exact (upokenPokedataAt_wrote mem _ addr fits).2

theorem vmWriteMem_slots (k : Kernel g) (s : Ucopy) (raddr len : Nat) :
    SameSlots s (vmWriteMem k s raddr len).1 := by
  unfold vmWriteMem
  split <;> exact ⟨rfl, rfl, rfl⟩

theorem upoken_cases (k : Kernel g) (mem : Memory) (s : Ucopy) (currentWordsize addr : Nat)
    (data : List UInt8) :
    SameSlots s (upoken k mem s currentWordsize addr data).1 ∧
      ((upoken k mem s currentWordsize addr data).2 = (mem, 0) ∨
        (upoken k mem s currentWordsize addr data).2 = upokenPokedata k mem addr data ∨
        (∃ r, (upoken k mem s currentWordsize addr data).2 =
          (mem.write g addr (data.take r), r)) ∨
        data.length = 2 ^ 32 - 1 ∧
          (upoken k mem s currentWordsize addr data).2 = (mem, data.length)) := by
  have slots := vmWriteMem_slots k s addr data.length
  unfold upoken
  split
  · exact ⟨⟨rfl, rfl, rfl⟩, .inl rfl⟩
  · split
    · exact ⟨⟨rfl, rfl, rfl⟩, .inr (.inl rfl)⟩
    · split
      · grind
      · next failed =>
        rw [failed] at slots
        split
        · next same => exact ⟨slots, .inr (.inr (.inr ⟨same, rfl⟩))⟩
        · split
          case h_5 => exact ⟨slots, .inl rfl⟩
          all_goals exact ⟨slots, .inr (.inl rfl)⟩

theorem upoken_wrote (k : Kernel g) (mem : Memory) (s : Ucopy) (currentWordsize addr : Nat)
    (fits : data.length ≤ g.space) :
    ∃ n, Wrote g mem addr (data.take n) (upoken k mem s currentWordsize addr data).2.1 ∧
      (data.length ≠ 2 ^ 32 - 1 → (upoken k mem s currentWordsize addr data).2.2 = n) := by
  obtain ⟨-, result | result | ⟨r, result⟩ | ⟨longest, result⟩⟩ :=
    upoken_cases k mem s currentWordsize addr data
  · rw [result]
    exact ⟨0, Wrote.nil addr, fun _ => rfl⟩
  · rw [result]
    exact ⟨_, upokenPokedata_wrote k mem addr fits, fun _ => rfl⟩
  · rw [result]
    exact ⟨r, wrote_write addr _, fun _ => rfl⟩
  · rw [result]
    exact ⟨0, Wrote.nil addr, fun differs => absurd longest differs⟩

/-! ## What is read -/

def Current (g : Geometry) (mem : Memory) (addr len : Nat) (stored : List UInt8) : Prop :=
  ∃ n ≤ len, stored = mem.bytes g addr n ∧ (n = len ∨ 0 ∈ stored)

def Follows (g : Geometry) (addr len m next : Nat) : Prop :=
  m = len ∨ next % g.space = (addr + m) % g.space

theorem Follows.bytes_append {n : Nat} (follows : Follows g addr len m next) (bound : n ≤ len - m) :
    mem.bytes g addr m ++ mem.bytes g next n = mem.bytes g addr (m + n) := by
  rcases follows with rfl | follows
  · obtain rfl : n = 0 := by omega
    exact append_nil _
  · rw [Memory.bytes_append, bytes_congr follows]

theorem follows_nextWord (addr len : Nat) :
    Follows g addr len (min (g.wordSize - addr % g.wordSize) len)
      ((g.wordStart addr + g.wordSize) % g.space) := by
  have start := g.wordStart_add addr
  have word : addr % g.wordSize < g.wordSize := Nat.mod_lt _ g.wordSize_pos
  rcases Nat.le_total len (g.wordSize - addr % g.wordSize) with last | more
  · exact .inl (Nat.min_eq_right last)
  · refine .inr ?_
    rw [Nat.min_eq_left more, Nat.mod_mod, show g.wordStart addr + g.wordSize =
      addr + (g.wordSize - addr % g.wordSize) by omega]

theorem Current.append {stored : List UInt8} (bound : m ≤ len) (follows : Follows g addr len m next)
    (rest : Current g mem next (len - m) stored) :
    Current g mem addr len (mem.bytes g addr m ++ stored) := by
  obtain ⟨n, short, rfl, whole⟩ := rest
  refine ⟨m + n, by omega, follows.bytes_append short, ?_⟩
  · rcases whole with all | zero
    · exact .inl (by omega)
    · exact .inr (mem_append_right _ zero)

variable {s : Ucopy}

theorem vmReadMem_current (valid : s.Valid g (fun _ => True) mem) (low : addr < g.space)
    (small : len < g.space / 2) :
    ∃ n ≤ len, (vmReadMem k mem s addr len).2.1 = mem.bytes g addr n ∧
      ∀ r, (vmReadMem k mem s addr len).2.2 = .ok r → r = n ∧ (0 < len → 0 < r) := by
  rcases Nat.eq_zero_or_pos len with rfl | positive
  · refine ⟨0, Nat.le_refl _, rfl, ?_⟩
    rintro _ ⟨⟩
    exact ⟨rfl, id⟩
  · cases cached : g.cached addr len with
    | true =>
      obtain ⟨n, -, bound, stored, -, rc⟩ :=
        vmReadMem_cached (fun _ _ _ _ => trivial) valid positive low small cached
      refine ⟨n, bound, stored, fun r answer => ?_⟩
      rcases rc with ⟨rfl, rc⟩ | ⟨short, e, -, rc⟩
      · grind
      · grind
    | false =>
      rw [(vmReadMem_direct positive cached).2]
      cases answer : k.readv addr len with
      | ok n =>
        obtain ⟨some, bound⟩ := k.readv_bounds positive answer
        refine ⟨n, bound, rfl, ?_⟩
        rintro _ ⟨⟩
        exact ⟨rfl, fun _ => some⟩
      | error e =>
        refine ⟨0, Nat.zero_le _, rfl, ?_⟩
        rintro _ ⟨⟩

theorem umovenPeekLoop_current (addr : Nat) (enough : len ≤ fuel) :
    (umovenPeekLoop k mem fuel addr (addr % g.wordSize) len).2 = 0 →
      (umovenPeekLoop k mem fuel addr (addr % g.wordSize) len).1 = mem.bytes g addr len := by
  induction fuel generalizing addr len with
  | zero =>
    obtain rfl : len = 0 := by omega
    exact fun _ => rfl
  | succ fuel ih =>
    unfold umovenPeekLoop
    split
    · next empty =>
      rw [empty]
      exact fun _ => rfl
    · have word : addr % g.wordSize < g.wordSize := Nat.mod_lt _ g.wordSize_pos
      have follows : Follows g addr len _ _ := follows_nextWord addr len
      have aligned := g.nextWord_mod addr
      dsimp only
      rw [g.wordStart_add]
      generalize (g.wordStart addr + g.wordSize) % g.space = next at follows aligned
      generalize left : min (g.wordSize - addr % g.wordSize) len = m at follows
      split
      · rintro ⟨⟩
      · have rest := ih next (show len - m ≤ fuel by omega)
        rw [aligned] at rest
        intro rc
        rw [rest rc, follows.bytes_append (Nat.le_refl _), show m + (len - m) = len by omega]

theorem umovestrPeekLoop_current (addr : Nat) (done : Nat) (enough : len ≤ fuel) :
    0 ≤ (umovestrPeekLoop k mem fuel addr (addr % g.wordSize) len done).2 →
      Current g mem addr len
        (umovestrPeekLoop k mem fuel addr (addr % g.wordSize) len done).1 := by
  induction fuel generalizing addr len done with
  | zero =>
    obtain rfl : len = 0 := by omega
    exact fun _ => ⟨0, Nat.le_refl _, rfl, .inl rfl⟩
  | succ fuel ih =>
    unfold umovestrPeekLoop
    split
    · next empty =>
      rw [empty]
      exact fun _ => ⟨0, Nat.le_refl _, rfl, .inl rfl⟩
    · have word : addr % g.wordSize < g.wordSize := Nat.mod_lt _ g.wordSize_pos
      have follows : Follows g addr len _ _ := follows_nextWord addr len
      have aligned := g.nextWord_mod addr
      dsimp only
      rw [g.wordStart_add]
      generalize (g.wordStart addr + g.wordSize) % g.space = next at follows aligned
      generalize left : min (g.wordSize - addr % g.wordSize) len = m at follows
      split
      · rintro ⟨⟩
      · split
        · next i found =>
          intro _
          refine ⟨m, by omega, rfl, ?_⟩
          rcases Nat.le_total len (g.wordSize - addr % g.wordSize) with last | more
          · exact .inl (by omega)
          · obtain rfl : g.wordSize - addr % g.wordSize = m := by omega
            exact .inr (isSome_idxOf?.mp (found ▸ rfl))
        · have rest := ih next (done + m) (show len - m ≤ fuel by omega)
          rw [aligned] at rest
          exact fun rc => (rest rc).append (by omega) follows

theorem umoven_current (k : Kernel g) (valid : s.Valid g (fun _ => True) mem) (errno : Errno)
    (currentWordsize : Nat) (low : addr < g.space) (small : len < g.space / 2)
    (short : len ≠ 2 ^ 32 - 1) :
    (umoven k mem s errno currentWordsize addr len).1.Valid g (fun _ => True) mem ∧
      ((umoven k mem s errno currentWordsize addr len).2.2 = 0 →
        (umoven k mem s errno currentWordsize addr len).2.1 = mem.bytes g addr len) := by
  have peeked : (umovenPeekdata k mem addr len).2 = 0 →
      (umovenPeekdata k mem addr len).1 = mem.bytes g addr len :=
    umovenPeekLoop_current addr (Nat.le_refl len)
  have fallback (stored : List UInt8) (e : Errno) :
      (umovenFallback k mem addr len stored e).2 = 0 →
        (umovenFallback k mem addr len stored e).1 = mem.bytes g addr len := by
    unfold umovenFallback
    split
    case h_3 => rintro ⟨⟩
    all_goals exact peeked
  have valid' : (vmReadMem k mem s addr len).1.Valid g (fun _ => True) mem :=
    vmReadMem_valid (fun _ _ _ _ => trivial) valid low small
  obtain ⟨n, bound, stored, answer⟩ : ∃ n ≤ len, (vmReadMem k mem s addr len).2.1 = _ ∧ _ :=
    vmReadMem_current valid low small
  unfold umoven
  split
  · refine ⟨valid, ?_⟩
    rintro ⟨⟩
  · split
    · exact ⟨valid, peeked⟩
    · split
      · next read =>
        split
        · grind
        · grind
      · grind

theorem umovestrLoop_current (k : Kernel g) (valid : s.Valid g (fun _ => True) mem) (nread : Nat)
    (enough : len ≤ fuel) (low : addr < g.space) :
    (umovestrLoop k mem fuel s addr len nread).1.Valid g (fun _ => True) mem ∧
      (0 ≤ (umovestrLoop k mem fuel s addr len nread).2.2 →
        Current g mem addr len (umovestrLoop k mem fuel s addr len nread).2.1) := by
  induction fuel generalizing s addr len nread with
  | zero =>
    obtain rfl : len = 0 := by omega
    exact ⟨valid, fun _ => ⟨0, Nat.le_refl _, rfl, .inl rfl⟩⟩
  | succ fuel ih =>
    unfold umovestrLoop
    split
    · next empty =>
      rw [empty]
      exact ⟨valid, fun _ => ⟨0, Nat.le_refl _, rfl, .inl rfl⟩⟩
    · next nonempty =>
      have fit := g.pages_fit
      obtain ⟨some, bound, fits⟩ := g.chunkLen_bounds addr (Nat.pos_of_ne_zero nonempty)
      generalize chunkLen g addr len = c at some bound fits
      have valid' : (vmReadMem k mem s addr c).1.Valid g (fun _ => True) mem :=
        vmReadMem_valid (fun _ _ _ _ => trivial) valid low (by omega)
      obtain ⟨n, short, stored, answer⟩ : ∃ n ≤ c, (vmReadMem k mem s addr c).2.1 = _ ∧ _ :=
        vmReadMem_current valid low (by omega)
      split
      · next u chunk r read =>
        rw [read] at valid' stored answer
        obtain ⟨rfl, progress⟩ := answer _ rfl
        subst stored
        split
        · next found =>
          exact ⟨valid', fun _ => ⟨r, by omega, rfl, .inr (isSome_idxOf?.mp (found ▸ rfl))⟩⟩
        · have rest := ih valid' (nread + r) (show len - r ≤ fuel by omega)
            (Nat.mod_lt (addr + r) (Nat.two_pow_pos _))
          refine ⟨rest.1, fun rc => (rest.2 rc).append (by omega) (.inr (Nat.mod_mod _ _))⟩
      · next read =>
        rw [read] at valid'
        split
        case h_3 => exact ⟨valid', by rintro ⟨⟩⟩
        all_goals exact ⟨valid', umovestrPeekLoop_current addr 0 (Nat.le_refl len)⟩

theorem umovestr_current (k : Kernel g) (valid : s.Valid g (fun _ => True) mem)
    (currentWordsize : Nat) (low : addr < g.space) :
    (umovestr k mem s currentWordsize addr len).1.Valid g (fun _ => True) mem ∧
      (0 ≤ (umovestr k mem s currentWordsize addr len).2.2 →
        Current g mem addr len (umovestr k mem s currentWordsize addr len).2.1) := by
  unfold umovestr
  split
  · refine ⟨valid, ?_⟩
    rintro ⟨⟩
  · split
    · exact ⟨valid, umovestrPeekLoop_current addr 0 (Nat.le_refl len)⟩
    · exact umovestrLoop_current k valid 0 (Nat.le_refl len) low

/-! ## Reads and writes of one stop -/

structure Session where
  ucopy : Ucopy := {}
  mem : Memory

inductive Call (g : Geometry)
  | umoven (k : Kernel g) (errno : Errno) (currentWordsize addr len : Nat)
  | umovestr (k : Kernel g) (currentWordsize addr len : Nat)
  | upoken (k : Kernel g) (currentWordsize addr : Nat) (data : List UInt8)

def Session.run (s : Session) : Call g → Session
  | .umoven k errno currentWordsize addr len =>
    { s with ucopy := (Ucopy.umoven k s.mem s.ucopy errno currentWordsize addr len).1 }
  | .umovestr k currentWordsize addr len =>
    { s with ucopy := (Ucopy.umovestr k s.mem s.ucopy currentWordsize addr len).1 }
  | .upoken k currentWordsize addr data =>
    let result := Ucopy.upoken k s.mem s.ucopy currentWordsize addr data
    ⟨result.1, result.2.1⟩

/-- No address of the range, whether its byte is then stored or not, is in a cached page. -/
def Apart (g : Geometry) (s : Ucopy) (addr len : Nat) : Prop :=
  s.cachedIdx ≠ none → ∀ i, s.cachedRaddr i ≠ 0 → ∀ off < g.pageSize, ∀ j < len,
    (s.cachedRaddr i + off) % g.space ≠ (addr + j) % g.space

def Coherent (s : Session) : Call g → Prop
  | .umoven _ _ _ addr len => addr < g.space ∧ len < g.space / 2 ∧ len ≠ 2 ^ 32 - 1
  | .umovestr _ _ addr _ => addr < g.space
  | .upoken _ _ addr data => data.length < 2 ^ 32 ∧ Apart g s.ucopy addr data.length

theorem Valid.write {mem' : Memory} (valid : s.Valid g (fun _ => True) mem)
    (wrote : Wrote g mem addr data mem') (apart : Apart g s addr data.length) :
    s.Valid g (fun _ => True) mem' := by
  intro used i nonzero
  refine ⟨trivial, fun off inside => ?_⟩
  rw [(valid used i nonzero).2 off inside]
  obtain ⟨j, below, same⟩ := exists_offset addr
    (Nat.mod_lt (s.cachedRaddr i + off) space_pos)
  have outside : data.length ≤ j := by
    by_contra among
    exact apart used i nonzero off inside j (by omega) same
  rw [same, wrote j below, getD_eq_default _ _ outside]

theorem Session.run_valid (s : Session) (valid : s.ucopy.Valid g (fun _ => True) s.mem)
    {call : Call g} (coherent : Coherent s call) :
    (s.run call).ucopy.Valid g (fun _ => True) (s.run call).mem := by
  cases call with
  | umoven k errno currentWordsize addr len =>
    obtain ⟨low, small, short⟩ := coherent
    exact (umoven_current k valid errno currentWordsize low small short).1
  | umovestr k currentWordsize addr len =>
    exact (umovestr_current k valid currentWordsize coherent).1
  | upoken k currentWordsize addr data =>
    obtain ⟨short, apart⟩ := coherent
    have fits := Nat.le_trans (Nat.le_of_lt short) (two_pow_le_space (g := g))
    have same := (upoken_cases k s.mem s.ucopy currentWordsize addr data).1
    obtain ⟨n, wrote, -⟩ := upoken_wrote k s.mem s.ucopy currentWordsize addr fits
    refine (valid.write wrote fun used i nonzero off inside j below => ?_).of_eq same
    refine apart used i nonzero off inside j (Nat.lt_of_lt_of_le below ?_)
    rw [length_take]
    exact Nat.min_le_right _ _

/-- Between two calls of `invalidate_umove_cache`, in every run of coherent calls, a read
that succeeds gives what is in the memory then. -/
theorem reads_current_contents (s : Session)
    (run : Runs.Run (fun s : Session => ∃ u : Ucopy, s.ucopy = u.invalidateUmoveCache)
      (fun s (call : Call g) s' => s' = s.run call) Coherent s) :
    (∀ k errno currentWordsize addr len,
      Coherent s (.umoven k errno currentWordsize addr len : Call g) →
      (umoven k s.mem s.ucopy errno currentWordsize addr len).2.2 = 0 →
      (umoven k s.mem s.ucopy errno currentWordsize addr len).2.1 = s.mem.bytes g addr len) ∧
    ∀ k currentWordsize addr len,
      Coherent s (.umovestr k currentWordsize addr len : Call g) →
      0 ≤ (umovestr k s.mem s.ucopy currentWordsize addr len).2.2 →
      Current g s.mem addr len (umovestr k s.mem s.ucopy currentWordsize addr len).2.1 := by
  have valid : s.ucopy.Valid g (fun _ => True) s.mem := by
    refine run.invariant (P := fun s => s.ucopy.Valid g (fun _ => True) s.mem) ?_ ?_
    · rintro ⟨_, mem⟩ ⟨u, rfl⟩ used
      exact absurd rfl used
    · rintro s call _ valid coherent rfl
      exact s.run_valid valid coherent
  refine ⟨?_, ?_⟩
  · rintro k errno currentWordsize addr len ⟨low, small, short⟩
    exact (umoven_current k valid errno currentWordsize low small short).2
  · intro k currentWordsize addr len low
    exact (umovestr_current k valid currentWordsize low).2

/-- A byte of page 1 has been read. -/
def afterRead : Session :=
  Session.run ⟨{}, fun _ => 0x61⟩ (.umoven (pageKernel x8664 twoPages) .eio 8 0x1000 1)

def afterPoke (addr : Nat) : Session :=
  afterRead.run (.upoken (pageKernel x8664 twoPages) 8 addr [0x62])

/-- The byte that was overwritten is read from the cache. -/
theorem reads_stale_contents :
    (umoven (pageKernel x8664 twoPages) (afterPoke 0x1000).mem (afterPoke 0x1000).ucopy
      .eio 8 0x1000 1).2 = ([0x61], 0) ∧
    (afterPoke 0x1000).mem.bytes x8664 0x1000 1 = [0x62] := by
  constructor
  · decide
  · decide

/-- On another page the new byte is read. -/
theorem reads_current_contents_poked :
    (umoven (pageKernel x8664 twoPages) (afterPoke 0x2000).mem (afterPoke 0x2000).ucopy
      .eio 8 0x2000 1).2.1 = [0x62] := by
  have apart : Apart x8664 afterRead.ucopy 0x2000 1 := by
    intro _ i nonzero off inside j below
    have slot : ∀ i, afterRead.ucopy.cachedRaddr i ≠ 0 →
        afterRead.ucopy.cachedRaddr i = 0x1000 := by decide
    have page : x8664.pageSize = 4096 := rfl
    have space : x8664.space = 2 ^ 64 := rfl
    rw [slot i nonzero, space]
    omega
  have read : Coherent ⟨{}, fun _ => 0x61⟩
      (.umoven (pageKernel x8664 twoPages) .eio 8 0x1000 1 : Call x8664) :=
    ⟨by decide, by decide, by decide⟩
  have poke : Coherent afterRead
      (.upoken (pageKernel x8664 twoPages) 8 0x2000 [0x62] : Call x8664) := ⟨by decide, apart⟩
  have run : Runs.Run (fun s : Session => ∃ u : Ucopy, s.ucopy = u.invalidateUmoveCache)
      (fun s (call : Call x8664) s' => s' = s.run call) Coherent (afterPoke 0x2000) :=
    .next (.next (.start ⟨{}, rfl⟩) read rfl) poke rfl
  have current := (reads_current_contents _ run).1 (pageKernel x8664 twoPages) .eio 8 0x2000 1
    ⟨by decide, by decide, by decide⟩ (by decide)
  exact current.trans (by decide)

end Ucopy

end Strace
