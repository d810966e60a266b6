import Mathlib.Data.List.GetD
import Mathlib.Data.List.OfFn
import Strace.Escapes
import Strace.Pidns.Translate

/-! `struct proc_data` of `pidns.c` as it is laid out: arrays of `MAX_NS_DEPTH` elements,
with counts beside them. An access outside an array leaves no result. -/
namespace Strace.Pidns
open List Option Function
open Escapes (ch)

/-- An array of `MAX_NS_DEPTH` elements. -/
abbrev Row (α : Type) := Fin maxNsDepth → α

section
variable {α : Type}

def Row.read (row : Row α) (i : Int) : Option α :=
  if inside : 0 ≤ i ∧ i < maxNsDepth then some (row ⟨i.toNat, by omega⟩) else none

def Row.write (row : Row α) (i : Int) (x : α) : Option (Row α) :=
  if inside : 0 ≤ i ∧ i < maxNsDepth then some (Function.update row ⟨i.toNat, by omega⟩ x) else none

end

/-- `struct proc_data`. -/
structure ProcRecord where
  nsCount : Int := 0
  nsHierarchy : Row UInt32 := fun _ => 0
  idCount : PidType → Int := fun _ => 0
  idHierarchy : PidType → Row Nat := fun _ _ => 0

/-! ## Reading `/proc` -/

def NsFile.ino : NsFile → Option UInt32
  | .top ino _ | .inner ino _ => ino

def storeNs (enotty : Bool) (row : Row UInt32) (n : Nat) : NsFile → Option (Row UInt32 × Nat × Bool)
  | .top ino errno =>
    if n ≥ maxNsDepth then some (row, n, enotty)
    else
      match ino with
      | none => some (row, n, enotty)
      | some ino => do
        let row ← row.write n ino
        if n + 1 ≥ maxNsDepth then some (row, n + 1, enotty)
        else some (row, n + 1, enotty || errno == .enotty)
  | .inner ino parent =>
    if n ≥ maxNsDepth then some (row, n, enotty)
    else
      match ino with
      | none => some (row, n, enotty)
      | some ino => do
        let row ← row.write n ino
        if n + 1 ≥ maxNsDepth ∨ enotty then some (row, n + 1, enotty)
        else storeNs enotty row (n + 1) parent

def storeNsHierarchy (enotty : Bool) (row : Row UInt32) :
    Option NsFile → Option (Row UInt32 × Nat × Bool)
  | none => some (row, 0, enotty)
  | some file => storeNs enotty row 0 file

/-- `id_strs` -/
def idStr : PidType → List UInt8
  | .tid => ['N', 'S', 'p', 'i', 'd', ':', '\t'].map ch
  | .tgid => ['N', 'S', 't', 'g', 'i', 'd', ':', '\t'].map ch
  | .pgid => ['N', 'S', 'p', 'g', 'i', 'd', ':', '\t'].map ch
  | .sid => ['N', 'S', 's', 'i', 'd', ':', '\t'].map ch

def afterTabs : List UInt8 → List (List UInt8)
  | [] => []
  | c :: rest => if c = ch '\t' then rest :: afterTabs rest else afterTabs rest

section
variable (strtol : List UInt8 → Option Nat)

def idsAt : List (List UInt8) → List Nat
  | [] => []
  | p :: later =>
    match strtol p with
    | none => []
    | some id => id :: idsAt later

def statusIds (lines : Option (List (List UInt8))) (str : List UInt8) : List Nat :=
  match (lines.getD []).find? fun line => decide (str <+: line) with
  | none => []
  | some line => idsAt strtol (line.drop str.length :: afterTabs (line.drop str.length))

def storeIds (row : Row Nat) (n : Nat) : (ids : List Nat) → Option (Row Nat × Nat)
  | [] => some (row, n)
  | id :: rest => do
    let row ← if n < maxNsDepth then row.write n id else some row
    storeIds row (n + 1) rest

structure ProcFiles where
  ns : Option NsFile
  status : Option (List (List UInt8))

/-- A `size_t` that is stored in an `int`. -/
def toInt (n : Nat) : Int := (BitVec.ofNat 32 n).toInt

def updateRecord (files : ProcFiles) (type : PidType) (pd : ProcRecord) (enotty : Bool) :
    Option (Option ProcRecord × Bool) := do
  let (nsHierarchy, nsCount, enotty) ← storeNsHierarchy enotty pd.nsHierarchy files.ns
  if toInt nsCount = 0 then some (none, enotty)
  else
    let (ids, idCount) ← storeIds (pd.idHierarchy type) 0
      (statusIds strtol files.status (idStr type))
    if toInt idCount = 0 then some (none, enotty)
    else
      some (some
        { nsCount := toInt nsCount
          nsHierarchy
          idCount := Function.update pd.idCount type (toInt idCount)
          idHierarchy := Function.update pd.idHierarchy type ids }, enotty)

end

def recordLevels (q : Query) (procPid : Nat) (pd : ProcRecord) : (left i : Nat) → Option Found
  | 0, _ => some {}
  | left + 1, i => do
    let ns ← pd.nsHierarchy.read i
    let nsId ← (pd.idHierarchy q.type).read (pd.idCount q.type - i - 1)
    let ourId ← (pd.idHierarchy q.type).read (pd.idCount q.type - pd.nsCount)
    if ns ≠ q.fromNs then recordLevels q procPid pd left (i + 1)
    else if nsId ≠ q.fromId then some {}
    else some ⟨ourId, some procPid⟩

def translateRecord (q : Query) (procPid : Nat) (pd : ProcRecord) : Option Found :=
  if pd.nsCount = 0 ∨ pd.idCount q.type < pd.nsCount then some {}
  else recordLevels q procPid pd pd.nsCount.toNat 0

/-! ## Calls -/

structure Records where
  keyBits : Nat
  cache : Nat → Option ProcRecord := fun _ => none
  enotty : Bool := false

def Records.set (r : Records) (procPid : Nat) (pd : Option ProcRecord) : Records :=
  { r with cache := fun key => if key = procPid ∧ procPid < 2 ^ r.keyBits then pd else r.cache key }

inductive TranslateCall where
  | reads (q : Query) (procPid : Nat) (files : ProcFiles)
  | cached (q : Query) (procPid : Nat)

def Records.call (strtol : List UInt8 → Option Nat) (r : Records) :
    TranslateCall → Option (Found × Records)
  | .reads q procPid files => do
    let (pd, enotty) ← updateRecord strtol files q.type ((r.cache procPid).getD {}) r.enotty
    let r := { r with enotty }.set procPid pd
    match pd with
    | none => some ({}, r)
    | some pd => do
      let found ← translateRecord q procPid pd
      some (found, r)
  | .cached q procPid =>
    match r.cache procPid with
    | none => some ({}, r)
    | some pd => do
      let found ← translateRecord q procPid pd
      some (found, r)

def Records.run (strtol : List UInt8 → Option Nat) (r : Records) :
    List TranslateCall → Option Records
  | [] => some r
  | call :: rest => do
    let (_, r) ← r.call strtol call
    r.run strtol rest

/-! ## Arrays as lists -/

section
variable {α : Type}

/-- The first `n` elements. -/
def Row.list (row : Row α) (n : Nat) : List α := (List.ofFn row).take n

theorem Row.length_list (row : Row α) {n : Nat} (fits : n ≤ maxNsDepth) :
    (row.list n).length = n := by
  rw [Row.list, length_take, length_ofFn]
  omega

theorem Row.read_eq (row : Row α) {n i : Nat} {k : Int} (fits : n ≤ maxNsDepth) (inside : i < n)
    (index : k = i) (x : α) : row.read k = some ((row.list n).getD i x) := by
  subst index
  have within : (0 : Int) ≤ i ∧ (i : Int) < maxNsDepth := by omega
  rw [Row.read, dif_pos within, getD_eq_getElem _ _ (by rwa [row.length_list fits])]
  simp [Row.list]

theorem Row.write_eq (row : Row α) {n : Nat} (fits : n < maxNsDepth) (x : α) :
    ∃ row', row.write n x = some row' ∧ row'.list (n + 1) = row.list n ++ [x] := by
  have within : (0 : Int) ≤ n ∧ (n : Int) < maxNsDepth := by omega
  rw [Row.write, dif_pos within]
  refine ⟨_, rfl, ?_⟩
  unfold Row.list
  rw [List.take_succ_eq_append_getElem (by rwa [List.length_ofFn])]
  congr 1
  · apply List.ext_getElem (by simp)
    intro i before _
    rw [List.length_take] at before
    rw [List.getElem_take, List.getElem_take, List.getElem_ofFn, List.getElem_ofFn]
    refine Function.update_of_ne ?_ _ _
    rw [ne_eq, Fin.mk.injEq]
    omega
  · simp

end

theorem storeNs_eq (row : Row UInt32) {n room : Nat} (fits : n + room = maxNsDepth) (enotty : Bool)
    (file : NsFile) :
    ∃ row', storeNs enotty row n file =
        some (row', n + (nsHierarchyOf enotty file room).1.length,
          (nsHierarchyOf enotty file room).2) ∧
      (nsHierarchyOf enotty file room).1.length ≤ room ∧
      row'.list (n + (nsHierarchyOf enotty file room).1.length) =
        row.list n ++ (nsHierarchyOf enotty file room).1 := by
  induction file generalizing row n room with
  | top ino errno =>
    unfold storeNs
    cases room with
    | zero =>
      rw [if_pos (by omega)]
      exact ⟨row, rfl, Nat.le_refl _, (append_nil _).symm⟩
    | succ room =>
      rw [if_neg (by omega)]
      cases ino with
      | none => exact ⟨row, rfl, Nat.zero_le _, (append_nil _).symm⟩
      | some ino =>
        obtain ⟨row', writes, list⟩ := row.write_eq (show n < maxNsDepth by omega) ino
        refine ⟨row', ?_, Nat.succ_le_succ (Nat.zero_le room), list⟩
        simp only [writes, bind_eq_bind, bind_some, nsHierarchyOf]
        cases room with
        | zero => rw [if_pos (by omega)]; simp
        | succ room => rw [if_neg (by omega)]; simp
  | inner ino parent ih =>
    unfold storeNs
    cases room with
    | zero =>
      rw [if_pos (by omega)]
      exact ⟨row, rfl, Nat.le_refl _, (append_nil _).symm⟩
    | succ room =>
      rw [if_neg (by omega)]
      cases ino with
      | none => exact ⟨row, rfl, Nat.zero_le _, (append_nil _).symm⟩
      | some ino =>
        obtain ⟨row', writes, list⟩ := row.write_eq (show n < maxNsDepth by omega) ino
        have last : n + 1 ≥ maxNsDepth ↔ room = 0 := by omega
        rw [nsHierarchyOf]
        simp only [writes, bind_eq_bind, bind_some, last]
        split
        · exact ⟨row', rfl, Nat.succ_le_succ (Nat.zero_le room), list⟩
        · obtain ⟨row'', stores, most, list'⟩ := ih row' (show n + 1 + room = maxNsDepth by omega)
          refine ⟨row'', ?_, Nat.succ_le_succ most, ?_⟩
          · rw [stores, length_cons, Nat.add_right_comm, Nat.add_assoc]
          · grind

theorem storeIds_some (row : Row Nat) (n : Nat) (ids : List Nat) :
    ∃ row', storeIds row n ids = some (row', n + ids.length) ∧
      (n + ids.length ≤ maxNsDepth → row'.list (n + ids.length) = row.list n ++ ids) := by
  induction ids generalizing row n with
  | nil => exact ⟨row, rfl, fun _ => (append_nil _).symm⟩
  | cons id rest ih =>
    have total : n + (id :: rest).length = n + 1 + rest.length := by
      rw [length_cons]
      omega
    rw [total]
    unfold storeIds
    by_cases room : n < maxNsDepth
    · obtain ⟨row', writes, list⟩ := row.write_eq room id
      obtain ⟨row'', stores, list'⟩ := ih row' (n + 1)
      rw [if_pos room, writes]
      refine ⟨row'', stores, fun fits => ?_⟩
      rw [list' fits, list, append_assoc]
      rfl
    · obtain ⟨row', stores, -⟩ := ih row (n + 1)
      rw [if_neg room]
      exact ⟨row', stores, fun fits => by omega⟩

/-! ## What is stored -/

def shownNs (enotty : Bool) : Option NsFile → List UInt32 × Bool
  | none => ([], enotty)
  | some file => nsHierarchyOf enotty file maxNsDepth

theorem storeNsHierarchy_eq (enotty : Bool) (row : Row UInt32) (ns : Option NsFile) :
    ∃ row', storeNsHierarchy enotty row ns =
        some (row', (shownNs enotty ns).1.length, (shownNs enotty ns).2) ∧
      (shownNs enotty ns).1.length ≤ maxNsDepth ∧
      row'.list (shownNs enotty ns).1.length = (shownNs enotty ns).1 := by
  cases ns with
  | none => exact ⟨row, rfl, Nat.zero_le _, rfl⟩
  | some file =>
    obtain ⟨row', stores, most, list⟩ := storeNs_eq row (Nat.zero_add maxNsDepth) enotty file
    rw [Nat.zero_add] at stores list
    exact ⟨row', stores, most, list⟩

theorem shownNs_eq_nil (enotty : Bool) (ns : Option NsFile) :
    (shownNs enotty ns).1 = [] ↔ ns.bind NsFile.ino = none := by
  cases ns with
  | none => simp [shownNs]
  | some file =>
    rw [shownNs, maxNsDepth]
    cases file with
    | top ino errno => cases ino <;> simp [nsHierarchyOf, NsFile.ino]
    | inner ino parent =>
      cases ino with
      | none => simp [nsHierarchyOf, NsFile.ino]
      | some ino =>
        grind [nsHierarchyOf, NsFile.ino]

theorem toInt_small {n : Nat} (small : n ≤ maxNsDepth) : toInt n = n := by
  unfold toInt
  unfold maxNsDepth at small
  rw [BitVec.toInt_ofNat', Int.bmod_eq_of_le (by omega) (by omega)]

/-- The record after an update that succeeds. -/
structure Updated (type : PidType) (ns : List UInt32) (ids : List Nat)
    (pd pd' : ProcRecord) : Prop where
  nsCount : pd'.nsCount = ns.length
  nsFit : ns.length ≤ maxNsDepth
  nsHierarchy : pd'.nsHierarchy.list ns.length = ns
  idCount : pd'.idCount = Function.update pd.idCount type (toInt ids.length)
  others : ∀ other ≠ type, pd'.idHierarchy other = pd.idHierarchy other
  idHierarchy : ids.length ≤ maxNsDepth → (pd'.idHierarchy type).list ids.length = ids

variable (strtol : List UInt8 → Option Nat)

theorem updateRecord_spec (files : ProcFiles) (type : PidType) (pd : ProcRecord) (enotty : Bool) :
    let ids := statusIds strtol files.status (idStr type)
    ((shownNs enotty files.ns).1 = [] ∨ toInt ids.length = 0 →
      updateRecord strtol files type pd enotty = some (none, (shownNs enotty files.ns).2)) ∧
    ((shownNs enotty files.ns).1 ≠ [] → toInt ids.length ≠ 0 →
      ∃ pd', updateRecord strtol files type pd enotty =
          some (some pd', (shownNs enotty files.ns).2) ∧
        Updated type (shownNs enotty files.ns).1 ids pd pd') := by
  obtain ⟨nsRow, storesNs, nsFit, nsList⟩ := storeNsHierarchy_eq enotty pd.nsHierarchy files.ns
  obtain ⟨idRow, storesIds, idList⟩ :=
    storeIds_some (pd.idHierarchy type) 0 (statusIds strtol files.status (idStr type))
  rw [Nat.zero_add] at storesIds idList
  have empty : toInt (shownNs enotty files.ns).1.length = 0 ↔ (shownNs enotty files.ns).1 = [] := by
    rw [toInt_small nsFit, Int.natCast_eq_zero, length_eq_zero_iff]
  unfold updateRecord
  simp only [storesNs, storesIds, empty, bind_eq_bind, bind_some]
  constructor
  · grind
  · intro found read
    rw [if_neg found, if_neg read]
    rw [toInt_small nsFit]
    refine ⟨_, rfl, rfl, nsFit, nsList, rfl, fun other differs => ?_, fun fits => ?_⟩
    · exact update_of_ne differs ..
    · dsimp only
      rw [update_self]
      exact idList fits

/-! ## Translation from a record -/

/-- The counts are within the arrays. -/
structure ProcRecord.Fits (pd : ProcRecord) : Prop where
  ns : 0 ≤ pd.nsCount ∧ pd.nsCount ≤ maxNsDepth
  ids : ∀ type, pd.idCount type ≤ maxNsDepth

def ProcRecord.nsList (pd : ProcRecord) : List UInt32 := pd.nsHierarchy.list pd.nsCount.toNat

def ProcRecord.idList (pd : ProcRecord) (type : PidType) : List Nat :=
  (pd.idHierarchy type).list (pd.idCount type).toNat

section
variable {pd : ProcRecord} (q : Query) (procPid : Nat)

theorem recordLevels_eq (fits : pd.Fits) (deep : pd.nsCount ≤ pd.idCount q.type) {left i : Nat}
    (levels : i + left = pd.nsCount.toNat) :
    recordLevels q procPid pd left i =
      some (match searchLevels q (pd.idList q.type)
          ((pd.idList q.type).getD ((pd.idList q.type).length - pd.nsList.length) 0) i
          (pd.nsList.drop i) with
        | none => {}
        | some ourId => ⟨ourId, some procPid⟩) := by
  have nsFit : pd.nsCount.toNat ≤ maxNsDepth := by
    have := fits.ns
    omega
  have idFit : (pd.idCount q.type).toNat ≤ maxNsDepth := by
    have := fits.ids q.type
    omega
  have nsLength : pd.nsList.length = pd.nsCount.toNat := Row.length_list _ nsFit
  have idLength : (pd.idList q.type).length = (pd.idCount q.type).toNat := Row.length_list _ idFit
  induction left generalizing i with
  | zero =>
    rw [drop_eq_nil_of_le (by omega)]
    rfl
  | succ left ih =>
    have here : i < pd.nsList.length := by omega
    have ns : pd.nsHierarchy.read i = some (pd.nsList.getD i 0) :=
      Row.read_eq _ nsFit (by omega) rfl 0
    have nsId : (pd.idHierarchy q.type).read (pd.idCount q.type - i - 1) =
        some ((pd.idList q.type).getD ((pd.idCount q.type).toNat - i - 1) 0) :=
      Row.read_eq _ idFit (by omega) (by omega) 0
    have ourId : (pd.idHierarchy q.type).read (pd.idCount q.type - pd.nsCount) =
        some ((pd.idList q.type).getD ((pd.idCount q.type).toNat - pd.nsCount.toNat) 0) :=
      Row.read_eq _ idFit (by omega) (by omega) 0
    unfold recordLevels
    rw [ns, nsId, ourId, drop_eq_getElem_cons here, searchLevels, idLength, nsLength,
      ← getD_eq_getElem _ 0 here]
    simp only [bind_eq_bind, bind_some]
    split
    · rw [ih (by omega), idLength, nsLength]
    · split <;> rfl

theorem translateRecord_eq (fits : pd.Fits) :
    translateRecord q procPid pd = some (translateFrom q procPid pd.nsList (pd.idList q.type)) := by
  have nsLength : pd.nsList.length = pd.nsCount.toNat :=
    Row.length_list _ (by have := fits.ns; omega)
  have idLength : (pd.idList q.type).length = (pd.idCount q.type).toNat :=
    Row.length_list _ (by have := fits.ids q.type; omega)
  have empty : pd.nsList = [] ↔ pd.nsCount = 0 := by
    rw [← length_eq_zero_iff]
    have := fits.ns
    omega
  unfold translateRecord translateFrom
  by_cases none : pd.nsCount = 0
  · rw [if_pos (.inl none), if_pos (.inl (empty.mpr none))]
  · have shallow : (pd.idList q.type).length < pd.nsList.length ↔
        pd.idCount q.type < pd.nsCount := by
      have := fits.ns
      omega
    simp only [empty, shallow, none]
    split
    · rfl
    · grind [recordLevels_eq]

theorem translateRecord_overruns (some : 0 < pd.nsCount) (fit : pd.nsCount ≤ maxNsDepth)
    (many : maxNsDepth < pd.idCount q.type) : translateRecord q procPid pd = none := by
  obtain ⟨left, levels⟩ : ∃ left, pd.nsCount.toNat = left + 1 :=
    ⟨pd.nsCount.toNat - 1, by omega⟩
  have beyond : (pd.idHierarchy q.type).read (pd.idCount q.type - (0 : Nat) - 1) = none := by
    rw [Row.read, dif_neg (by omega)]
  unfold translateRecord
  rw [if_neg (by omega), levels, recordLevels, beyond]
  cases pd.nsHierarchy.read (0 : Nat) <;> rfl

end

/-! ## Whole runs -/

def Records.Fit (r : Records) : Prop := ∀ procPid pd, r.cache procPid = some pd → pd.Fits

def TranslateCall.Fits : TranslateCall → Prop
  | .reads q _ files => files.ns.bind NsFile.ino = none ∨
      toInt (statusIds strtol files.status (idStr q.type)).length ≤ maxNsDepth
  | .cached _ _ => True

section
variable {r : Records}

theorem Records.Fit.set (fit : r.Fit) (procPid : Nat) {pd : Option ProcRecord}
    (fits : ∀ p ∈ pd, p.Fits) : (r.set procPid pd).Fit := by
  intro key p stored
  unfold Records.set at stored
  dsimp only at stored
  split at stored
  · exact fits p stored
  · exact fit key p stored

theorem Records.Fit.getD (fit : r.Fit) (procPid : Nat) : ((r.cache procPid).getD {}).Fits := by
  cases stored : r.cache procPid with
  | none => exact ⟨⟨Int.le_refl 0, Int.natCast_nonneg _⟩, fun _ => Int.natCast_nonneg _⟩
  | some pd => exact fit procPid pd stored

theorem Updated.fits {type : PidType} {ns : List UInt32} {ids : List Nat} {pd pd' : ProcRecord}
    (updated : Updated type ns ids pd pd') (fits : pd.Fits) (few : toInt ids.length ≤ maxNsDepth) :
    pd'.Fits := by
  constructor
  · have := updated.nsFit
    rw [updated.nsCount]
    omega
  · intro other
    rw [updated.idCount]
    by_cases same : other = type
    · subst same
      rwa [update_self]
    · rw [update_of_ne same]
      exact fits.ids other

theorem Records.Fit.call (fit : r.Fit) {call : TranslateCall} (fits : call.Fits strtol) :
    ∃ found r', r.call strtol call = some (found, r') ∧ r'.Fit := by
  cases call with
  | reads q procPid files =>
    obtain ⟨fails, succeeds⟩ :=
      updateRecord_spec strtol files q.type ((r.cache procPid).getD {}) r.enotty
    have enotty := fit
    rw [Records.call]
    by_cases unread : (shownNs r.enotty files.ns).1 = [] ∨
        toInt (statusIds strtol files.status (idStr q.type)).length = 0
    · rw [fails unread]
      exact ⟨_, _, rfl, enotty.set procPid nofun⟩
    · obtain ⟨found, read⟩ := not_or.mp unread
      obtain ⟨pd, update, updated⟩ := succeeds found read
      have few := fits.resolve_left ((shownNs_eq_nil r.enotty files.ns).not.mp found)
      have pdFits := updated.fits (fit.getD procPid) few
      have translates := translateRecord_eq q procPid pdFits
      simp only [update, translates, bind_eq_bind, bind_some]
      refine ⟨_, _, rfl, enotty.set procPid ?_⟩
      rintro _ ⟨⟩
      exact pdFits
  | cached q procPid =>
    rw [Records.call]
    cases stored : r.cache procPid with
    | none => exact ⟨_, _, rfl, fit⟩
    | some pd =>
      have translates := translateRecord_eq q procPid (fit procPid pd stored)
      simp only [translates]
      exact ⟨_, _, rfl, fit⟩

theorem Records.call_overruns {call : TranslateCall} (overruns : ¬ call.Fits strtol) :
    r.call strtol call = none := by
  cases call with
  | reads q procPid files =>
    obtain ⟨found, many⟩ := not_or.mp overruns
    have some := (shownNs_eq_nil r.enotty files.ns).not.mpr found
    have read : toInt (statusIds strtol files.status (idStr q.type)).length ≠ 0 := by
      grind
    obtain ⟨pd, update, updated⟩ :=
      (updateRecord_spec strtol files q.type ((r.cache procPid).getD {}) r.enotty).2 some read
    have translates : translateRecord q procPid pd = none := by
      apply translateRecord_overruns
      · simpa [updated.nsCount] using Int.natCast_pos.mpr (length_pos_iff.mpr some)
      · simpa [updated.nsCount] using Int.ofNat_le.mpr updated.nsFit
      · simpa [updated.idCount] using Int.not_le.mp many
    simp only [Records.call, update, translates, bind_eq_bind, bind_some, bind_none]
  | cached q procPid => exact absurd trivial overruns

theorem Records.Fit.run_isSome (fit : r.Fit) (calls : List TranslateCall) :
    (r.run strtol calls).isSome ↔ ∀ call ∈ calls, call.Fits strtol := by
  induction calls generalizing r with
  | nil => simp [Records.run]
  | cons call rest ih =>
    unfold Records.run
    by_cases fits : call.Fits strtol
    · obtain ⟨found, r', calls, fit'⟩ := fit.call strtol fits
      rw [calls]
      exact (ih fit').trans (by simp [fits])
    · simp [Records.call_overruns strtol fits, fits]

end

/-! ## Records as lists -/

def ProcRecord.lists (pd : ProcRecord) : ProcData := ⟨pd.nsList, pd.idList⟩

structure Related (r : Records) (s : State) : Prop where
  keyBits : r.keyBits = s.pidMaxSize
  enotty : r.enotty = s.nsGetParentEnotty
  fit : r.Fit
  cache : ∀ key, s.procDataCache key = (r.cache key).map ProcRecord.lists

section
variable {r : Records} {s : State}

theorem Related.set (related : Related r s) (procPid : Nat) {pd : Option ProcRecord}
    (fits : ∀ p ∈ pd, p.Fits) :
    Related (r.set procPid pd) (s.setProcData procPid (pd.map ProcRecord.lists)) := by
  refine ⟨related.keyBits, related.enotty, related.fit.set procPid fits, fun key => ?_⟩
  unfold Records.set State.setProcData
  rw [related.keyBits]
  dsimp only
  split
  · rfl
  · exact related.cache key

theorem Updated.lists {type : PidType} {ns : List UInt32} {ids : List Nat} {pd pd' : ProcRecord}
    (updated : Updated type ns ids pd pd') (few : ids.length ≤ maxNsDepth) :
    pd'.lists = ⟨ns, Function.update pd.lists.idHierarchy type ids⟩ := by
  unfold ProcRecord.lists
  congr 1
  · simp [ProcRecord.nsList, updated.nsCount, updated.nsHierarchy]
  · funext other
    rw [ProcRecord.idList, updated.idCount]
    by_cases same : other = type
    · subst same
      rw [update_self, update_self, toInt_small few]
      exact updated.idHierarchy few
    · rw [update_of_ne same, update_of_ne same, updated.others other same]
      rfl

theorem Related.call (related : Related r s) (w : Proc) (q : Query) (procPid : Nat)
    {files : ProcFiles} (ns : files.ns = w.nsPid procPid)
    (ids : statusIds strtol files.status (idStr q.type) = getIdList w procPid q.type) :
    ∃ r', r.call strtol (.reads q procPid files) = some ((translateIdProcPid w q procPid s).1, r') ∧
      Related r' (translateIdProcPid w q procPid s).2 := by
  have few : (getIdList w procPid q.type).length ≤ maxNsDepth := (w.status q.type procPid).depth
  have shown : getNsHierarchy w procPid maxNsDepth s = ((shownNs r.enotty files.ns).1,
      { s with nsGetParentEnotty := (shownNs r.enotty files.ns).2 }) := by
    rw [ns, related.enotty]
    unfold getNsHierarchy
    cases w.nsPid procPid <;> rfl
  have enotty : Related { r with enotty := (shownNs r.enotty files.ns).2 }
      { s with nsGetParentEnotty := (shownNs r.enotty files.ns).2 } :=
    ⟨related.keyBits, rfl, related.fit, related.cache⟩
  obtain ⟨fails, succeeds⟩ :=
    updateRecord_spec strtol files q.type ((r.cache procPid).getD {}) r.enotty
  have empty : toInt (getIdList w procPid q.type).length = 0 ↔ getIdList w procPid q.type = [] := by
    rw [toInt_small few, Int.natCast_eq_zero, length_eq_zero_iff]
  simp only [ids, empty, ne_eq] at fails succeeds
  rw [Records.call, translateIdProcPid, updateProcData, shown]
  dsimp only
  by_cases unread : (shownNs r.enotty files.ns).1 = [] ∨ getIdList w procPid q.type = []
  · rw [if_pos unread, fails unread]
    exact ⟨_, rfl, enotty.set procPid nofun⟩
  · obtain ⟨found, read⟩ := not_or.mp unread
    obtain ⟨pd, update, updated⟩ := succeeds found read
    have pdFits := updated.fits (related.fit.getD procPid) (by rw [toInt_small few]; omega)
    have translates := translateRecord_eq q procPid pdFits
    have remembered : ((s.procDataCache procPid).getD {}).idHierarchy =
        ((r.cache procPid).getD {}).lists.idHierarchy := by
      rw [related.cache procPid]
      cases r.cache procPid <;> rfl
    have lists := updated.lists few
    rw [if_neg unread, remembered, ← lists, update]
    simp only [translates, bind_eq_bind, bind_some]
    refine ⟨_, rfl, enotty.set procPid ?_⟩
    rintro _ ⟨⟩
    exact pdFits

variable {strtol}

/-- A call that both levels make: what it reads of `/proc`, as bytes and as lists. -/
inductive Reading (strtol : List UInt8 → Option Nat)
  | reads (w : Proc) (q : Query) (procPid : Nat) (files : ProcFiles)
      (ns : files.ns = w.nsPid procPid)
      (ids : statusIds strtol files.status (idStr q.type) = getIdList w procPid q.type)
  | cached (q : Query) (procPid : Nat)

def Reading.call : Reading strtol → TranslateCall
  | .reads _ q procPid files _ _ => .reads q procPid files
  | .cached q procPid => .cached q procPid

def Reading.translate (s : State) : Reading strtol → Found × State
  | .reads w q procPid _ _ _ => translateIdProcPid w q procPid s
  | .cached q procPid =>
    (((s.procDataCache procPid).map fun pd =>
      translateFrom q procPid pd.nsHierarchy (pd.idHierarchy q.type)).getD {}, s)

theorem Related.translate (related : Related r s) (x : Reading strtol) :
    ∃ r', r.call strtol x.call = some ((x.translate s).1, r') ∧ Related r' (x.translate s).2 := by
  cases x with
  | reads w q procPid files ns ids => exact related.call strtol w q procPid ns ids
  | cached q procPid =>
    refine ⟨r, ?_, related⟩
    simp only [Reading.call, Records.call, Reading.translate, related.cache]
    cases stored : r.cache procPid with
    | none => rfl
    | some pd =>
      simp only [translateRecord_eq q procPid (related.fit procPid pd stored)]
      rfl

/-- Over any calls, the arrays and counts answer as the lists do that they stand for. -/
theorem records_refine_lists (pidMax : Nat) (calls : List (Reading strtol)) (x : Reading strtol) :
    let s := calls.foldl (fun s x => (x.translate s).2) { pidMax }
    ∃ r r', Records.run strtol { keyBits := State.pidMaxSize { pidMax } }
      (calls.map (·.call)) = some r ∧
      r.call strtol x.call = some ((x.translate s).1, r') ∧ Related r' (x.translate s).2 := by
  have start : Related { keyBits := State.pidMaxSize { pidMax } } { pidMax } :=
    ⟨rfl, rfl, nofun, fun _ => rfl⟩
  generalize ({ pidMax } : State) = s, ({ keyBits := _ } : Records) = r at start ⊢
  induction calls generalizing r s with
  | nil =>
    obtain ⟨r', answer⟩ := start.translate x
    exact ⟨r, r', rfl, answer⟩
  | cons first rest ih =>
    obtain ⟨next, made, related⟩ := start.translate first
    obtain ⟨last, r', run, answer⟩ := ih _ _ related
    refine ⟨last, r', ?_, answer⟩
    rw [map_cons, Records.run, made]
    exact run

end

/-- A sequence of calls stays within the arrays exactly if each call that reads a
namespace reads at most `MAX_NS_DEPTH` ids. -/
theorem id_hierarchy_in_bounds_iff (keyBits : Nat) (calls : List TranslateCall) :
    (Records.run strtol { keyBits } calls).isSome ↔ ∀ call ∈ calls, call.Fits strtol := by
  apply Records.Fit.run_isSome
  intro procPid pd stored
  cases stored

def oneDigit : List UInt8 → Option Nat
  | [] => none
  | c :: _ => if ch '0' ≤ c ∧ c ≤ ch '9' then some (c.toNat - 48) else none

def nestedFiles (depth : Nat) : ProcFiles where
  ns := some (.top (some 3) .eperm)
  status :=
    some [idStr .tid ++ (List.replicate (depth - 1) [ch '1', ch '\t']).flatten ++ [ch '1', ch '\n']]

example :
  (Records.run oneDigit { keyBits := 22 } [.reads ⟨3, 1, .tid⟩ 7 (nestedFiles 32)]).isSome := by
  decide

/-- A process in 33 namespaces, as many as the kernel allows. -/
theorem id_hierarchy_overruns :
    ¬ (Records.run oneDigit { keyBits := 22 } [.reads ⟨3, 1, .tid⟩ 7 (nestedFiles 33)]).isSome := by
  decide

end Strace.Pidns
