import Vyasa.Memoization.KeyInfo
import Mathlib.Tactic.IntervalCases

/-! When the stores of a cache key fill it exactly once, and equal keys then mean equal
dependencies. -/
namespace Vyasa.Memoization.KeyInfo

open Bytes

variable {ε : Type} {key : KeyInfo ε} {values values' : Values ε}

/-- Bytes of a run of dependencies. -/
def total (deps : DependencyMap ε) : Nat := (deps.map fun i => i.2.type.bytes).sum

/-- The dependencies before each one take up a multiple of its size. -/
def Aligned (deps : DependencyMap ε) : Prop :=
  ∀ before i after, deps = before ++ i :: after → i.2.type.bytes ∣ total before

/-- The stores of a key fill it, each byte once, and the key determines the values. -/
structure Exact (key : KeyInfo ε) : Prop where
  covered : ∀ values : Values ε, ∀ i < key.keySize, ∃ w ∈ key.generateKey values, w.Covers i
  inside : ∀ values : Values ε, ∀ w ∈ key.generateKey values, ∀ i, w.Covers i → i < key.keySize
  apart : ∀ values : Values ε, (key.generateKey values).Pairwise Write.Apart
  injective : ∀ (values values' : Values ε) (memory memory' : Nat → BitVec 8),
    (∀ i < key.keySize, applyAll memory (key.generateKey values) i =
        applyAll memory' (key.generateKey values') i) ↔
      ∀ i ∈ key.dependency_info, values i.2.value_expr i.2.type = values' i.2.value_expr i.2.type

@[simp] theorem total_nil : total ([] : DependencyMap ε) = 0 := rfl

@[simp] theorem total_cons (i : DependencyKey × DependencyInfo ε) (deps : DependencyMap ε) :
    total (i :: deps) = i.2.type.bytes + total deps := by
  simp [total]

theorem bytes_mem (t : ScalarType) : t.bytes = 1 ∨ t.bytes = 2 ∨ t.bytes = 4 ∨ t.bytes = 8 := by
  have hWidth := t.width
  simpa [ScalarType.bytes] using hWidth

theorem bytes_pos (t : ScalarType) : 0 < t.bytes := by
  rcases bytes_mem t with h | h | h | h <;> omega

/-! ### Bytes of a value -/

@[simp] theorem length_bytesOf {n : Nat} (v : BitVec (8 * n)) : (bytesOf v).length = n := by
  simp [bytesOf]

theorem bytesOf_injective {n : Nat} {v v' : BitVec (8 * n)} (h : bytesOf v = bytesOf v') :
    v = v' := by
  refine BitVec.eq_of_getLsbD_eq fun j hj => ?_
  have hByte : v.extractLsb' (8 * (j / 8)) 8 = v'.extractLsb' (8 * (j / 8)) 8 := by
    have hAt := congrArg (fun l => l[j / 8]?) h
    have hLt : j / 8 < n := by omega
    simpa [bytesOf, hLt] using hAt
  have hBit := congrArg (fun b => b.getLsbD (j % 8)) hByte
  have hMod : j % 8 < 8 := Nat.mod_lt j (by decide)
  simpa [hMod, Nat.div_add_mod] using hBit

/-! ### Where the dependencies start -/

/-- The natural alignment of the largest dependency. -/
theorem maxAlignment_spec (deps : DependencyMap ε) (m : Nat) :
    let largest := deps.foldl (fun a i => if i.2.type.bytes > a then i.2.type.bytes else a) m
    m ≤ largest ∧ (∀ i ∈ deps, i.2.type.bytes ≤ largest) ∧
      (largest = m ∨ ∃ i ∈ deps, largest = i.2.type.bytes) := by
  induction deps generalizing m with
  | nil => simp
  | cons i deps ih =>
    have hMax : (if i.2.type.bytes > m then i.2.type.bytes else m) = max m i.2.type.bytes := by
      split <;> omega
    obtain ⟨hLe, hAll, hSome⟩ := ih (max m i.2.type.bytes)
    simp only [List.foldl_cons, hMax]
    refine ⟨by omega, ?_, ?_⟩
    · intro k hk
      rcases List.mem_cons.mp hk with rfl | hk
      · omega
      · exact hAll k hk
    · rcases hSome with hEq | ⟨k, hk, hEq⟩
      · rcases Nat.le_total m i.2.type.bytes with hm | hm
        · exact Or.inr ⟨i, List.mem_cons_self, hEq.trans (Nat.max_eq_right hm)⟩
        · exact Or.inl (hEq.trans (Nat.max_eq_left hm))
      · exact Or.inr ⟨k, List.mem_cons_of_mem i hk, hEq⟩

/-- The alignment is a power of two up to eight that every size divides. -/
theorem parametersAlignment_spec (key : KeyInfo ε) :
    (key.parametersAlignment = 1 ∨ key.parametersAlignment = 2 ∨ key.parametersAlignment = 4 ∨
      key.parametersAlignment = 8) ∧
      ∀ i ∈ key.dependency_info, i.2.type.bytes ∣ key.parametersAlignment := by
  obtain ⟨-, hAll, hSome⟩ := maxAlignment_spec key.dependency_info 0
  simp only [parametersAlignment]
  generalize key.dependency_info.foldl _ 0 = largest at hAll hSome
  have hLargest : largest = 0 ∨ largest = 1 ∨ largest = 2 ∨ largest = 4 ∨ largest = 8 := by
    rcases hSome with h | ⟨k, -, h⟩
    · exact Or.inl h
    · exact Or.inr (h ▸ bytes_mem k.2.type)
  have hShift : ∀ l, l = 0 ∨ l = 1 ∨ l = 2 ∨ l = 4 ∨ l = 8 →
      2 ^ alignmentShift l 4 0 = max 1 l := by
    rintro l (rfl | rfl | rfl | rfl | rfl) <;> decide
  rw [hShift largest hLargest]
  refine ⟨by omega, fun i hi => ?_⟩
  have hLe := hAll i hi
  have hPos := bytes_pos i.2.type
  rcases hLargest with rfl | rfl | rfl | rfl | rfl <;> rcases bytes_mem i.2.type with h | h | h | h <;>
    rw [h] at hLe ⊢ <;> omega

/-- The stores before the dependencies, and the index where these start. -/
def header (key : KeyInfo ε) : List (Write (BitVec 8)) × Nat :=
  let (zeros, index) :=
    if key.parametersAlignment > 1 then
      padding key.parametersAlignment key.parametersAlignment (handleBytes + 4) (0 + handleBytes + 4)
    else ([], 0 + handleBytes + 4)
  (store handleBytes (key.address key.identifier) (0 / handleBytes) ::
    store 4 key.memoize_instance ((0 + handleBytes) / 4) :: zeros, index)

theorem generateKey_eq (key : KeyInfo ε) (values : Values ε) :
    key.generateKey values =
      key.header.1 ++ dependencyWrites values key.header.2 key.dependency_info := by
  simp only [generateKey, header]
  split <;> rfl

/-- The stores before the dependencies tile the space that was reserved for them. -/
theorem header_spec (key : KeyInfo ε) :
    key.header.2 = key.sizeSoFar ∧ Tiles 0 key.header.1 key.sizeSoFar ∧
      0 < key.sizeSoFar ∧ key.parametersAlignment ∣ key.sizeSoFar := by
  simp only [header, sizeSoFar]
  rcases (parametersAlignment_spec key).1 with h | h | h | h <;> rw [h]
  all_goals
    simp [padding, handleBytes, store, bytesOf, Tiles, Write.stop]

theorem size_dvd_sizeSoFar (key : KeyInfo ε) {i : DependencyKey × DependencyInfo ε}
    (hi : i ∈ key.dependency_info) : i.2.type.bytes ∣ key.sizeSoFar :=
  ((parametersAlignment_spec key).2 i hi).trans (header_spec key).2.2.2

theorem keySize_eq (key : KeyInfo ε) :
    key.keySize = key.sizeSoFar + total key.dependency_info := by
  have hFold : ∀ (deps : DependencyMap ε) n,
      deps.foldl (fun size i => size + i.2.type.bytes) n = n + total deps := by
    intro deps
    induction deps with
    | nil => simp
    | cons i deps ih =>
      intro n
      rw [List.foldl_cons, ih, total_cons, Nat.add_assoc]
  exact hFold _ _

/-! ### The stores of the dependencies -/

theorem dependencyWrites_tiles (values : Values ε) {deps : DependencyMap ε} {index : Nat}
    (h : ∀ before i after, deps = before ++ i :: after → i.2.type.bytes ∣ index + total before) :
    Tiles index (dependencyWrites values index deps) (index + total deps) := by
  induction deps generalizing index with
  | nil => simp [dependencyWrites, Tiles]
  | cons i deps ih =>
    have hHere : i.2.type.bytes ∣ index := by simpa using h [] i deps rfl
    have hOffset : index / i.2.type.bytes * i.2.type.bytes = index := Nat.div_mul_cancel hHere
    refine ⟨hOffset, ?_⟩
    have hStop : (store i.2.type.bytes (values i.2.value_expr i.2.type)
        (index / i.2.type.bytes)).stop = index + i.2.type.bytes := by
      simp [store, Write.stop, hOffset]
    rw [hStop, total_cons, ← Nat.add_assoc]
    refine ih fun before k after hSplit => ?_
    have hLater := h (i :: before) k after (by rw [hSplit, List.cons_append])
    rwa [total_cons, ← Nat.add_assoc] at hLater

/-- After stores that tile the space before them, the stores of the dependencies overlap
nothing only where every size divides its index. -/
theorem dvd_of_apart (values : Values ε) {deps : DependencyMap ε}
    {front : List (Write (BitVec 8))} {index : Nat} (hFront : Tiles 0 front index)
    (hApart : (front ++ dependencyWrites values index deps).Pairwise Write.Apart) :
    ∀ before i after, deps = before ++ i :: after → i.2.type.bytes ∣ index + total before := by
  induction deps generalizing front index with
  | nil => simp
  | cons k deps ih =>
    set w := store k.2.type.bytes (values k.2.value_expr k.2.type) (index / k.2.type.bytes) with hW
    have hPos := bytes_pos k.2.type
    have hHere : k.2.type.bytes ∣ index := by
      by_contra hNot
      -- A misaligned store starts below its index, on a byte stored already.
      have hLt : w.offset < index := by
        have hMod : index % k.2.type.bytes ≠ 0 := fun hZero => hNot (Nat.dvd_of_mod_eq_zero hZero)
        have hDiv := Nat.div_add_mod' index k.2.type.bytes
        show index / k.2.type.bytes * k.2.type.bytes < index
        omega
      obtain ⟨v, hv, hCovers⟩ := hFront.exists_covers (Nat.zero_le _) hLt
      have hSelf : w.Covers w.offset := by
        refine ⟨Nat.le_refl _, ?_⟩
        simp only [Write.stop, hW, store, length_bytesOf]
        omega
      exact (List.pairwise_append.mp hApart).2.2 v hv w List.mem_cons_self _ hCovers hSelf
    have hOffset : w.offset = index := Nat.div_mul_cancel hHere
    have hStop : w.stop = index + k.2.type.bytes := by
      rw [Write.stop, hOffset, hW, store, length_bytesOf]
    have hNext : Tiles 0 (front ++ [w]) (index + k.2.type.bytes) :=
      tiles_append.mpr ⟨index, hFront, hOffset, hStop⟩
    have hRest := ih hNext (by simpa [dependencyWrites, hW] using hApart)
    intro before i after hSplit
    cases before with
    | nil =>
      obtain ⟨rfl, -⟩ := List.cons.inj hSplit
      simpa using hHere
    | cons b before =>
      obtain ⟨rfl, hTail⟩ := List.cons.inj hSplit
      have hDvd := hRest before i after hTail
      rwa [Nat.add_assoc, ← total_cons] at hDvd

theorem cells_dependencyWrites (values : Values ε) (deps : DependencyMap ε) (index : Nat) :
    (dependencyWrites values index deps).flatMap Write.cells =
      deps.flatMap fun i => bytesOf (values i.2.value_expr i.2.type) := by
  induction deps generalizing index with
  | nil => rfl
  | cons i deps ih => simp [dependencyWrites, store, ih]

theorem values_eq_of_cells {deps : DependencyMap ε}
    (h : (deps.flatMap fun i => bytesOf (values i.2.value_expr i.2.type)) =
      deps.flatMap fun i => bytesOf (values' i.2.value_expr i.2.type)) :
    ∀ i ∈ deps, values i.2.value_expr i.2.type = values' i.2.value_expr i.2.type := by
  induction deps with
  | nil => simp
  | cons k deps ih =>
    simp only [List.flatMap_cons] at h
    obtain ⟨hHead, hTail⟩ := List.append_inj h (by simp)
    intro i hi
    rcases List.mem_cons.mp hi with rfl | hi
    · exact bytesOf_injective hHead
    · exact ih hTail i hi

/-! ### The whole key -/

theorem generateKey_tiles (hAligned : Aligned key.dependency_info) (values : Values ε) :
    Tiles 0 (key.generateKey values) key.keySize := by
  obtain ⟨hStart, hHeader, -, -⟩ := header_spec key
  rw [generateKey_eq, keySize_eq, tiles_append]
  refine ⟨key.sizeSoFar, hHeader, ?_⟩
  rw [hStart]
  refine dependencyWrites_tiles values fun before i after hSplit => ?_
  have hMem : i ∈ key.dependency_info := by simp [hSplit]
  exact Nat.dvd_add (size_dvd_sizeSoFar key hMem) (hAligned before i after hSplit)

theorem aligned_of_apart (hApart : (key.generateKey values).Pairwise Write.Apart) :
    Aligned key.dependency_info := by
  obtain ⟨hStart, hHeader, -, -⟩ := header_spec key
  rw [generateKey_eq, hStart] at hApart
  intro before i after hSplit
  have hDvd := dvd_of_apart values hHeader hApart before i after hSplit
  have hMem : i ∈ key.dependency_info := by simp [hSplit]
  exact (Nat.dvd_add_right (size_dvd_sizeSoFar key hMem)).mp hDvd

/-- What a key that is filled exactly once holds. -/
theorem read_generateKey (hAligned : Aligned key.dependency_info) (values : Values ε)
    (memory : Nat → BitVec 8) :
    (List.range key.keySize).map (applyAll memory (key.generateKey values)) =
      key.header.1.flatMap Write.cells ++
        key.dependency_info.flatMap fun i => bytesOf (values i.2.value_expr i.2.type) := by
  have hTiles := generateKey_tiles hAligned values
  have hRead := hTiles.read fun w hw => held_applyAll memory hTiles.pairwise_apart hw
  rw [List.range_eq_range', ← Nat.sub_zero key.keySize, hRead, generateKey_eq, List.flatMap_append,
    cells_dependencyWrites]

theorem exact_of_aligned (hAligned : Aligned key.dependency_info) : key.Exact := by
  refine ⟨fun values i hi => ?_, fun values w hw i hi => ?_, fun values => ?_,
    fun values values' memory memory' => ?_⟩
  · exact (generateKey_tiles hAligned values).exists_covers (Nat.zero_le i) hi
  · exact Nat.lt_of_lt_of_le hi.2 ((generateKey_tiles hAligned values).inside hw).2
  · exact (generateKey_tiles hAligned values).pairwise_apart
  · have hRead := read_generateKey hAligned values memory
    have hRead' := read_generateKey hAligned values' memory'
    constructor
    · intro hEq
      have hMap : (List.range key.keySize).map (applyAll memory (key.generateKey values)) =
          (List.range key.keySize).map (applyAll memory' (key.generateKey values')) :=
        List.map_congr_left fun i hi => hEq i (List.mem_range.mp hi)
      rw [hRead, hRead'] at hMap
      exact values_eq_of_cells (List.append_cancel_left hMap)
    · intro hValues i hi
      have hCells : (key.dependency_info.flatMap fun i =>
            bytesOf (values i.2.value_expr i.2.type)) =
          key.dependency_info.flatMap fun i => bytesOf (values' i.2.value_expr i.2.type) :=
        List.flatMap_congr fun i hi => by rw [hValues i hi]
      rw [hCells, ← hRead'] at hRead
      exact List.map_inj_left.mp hRead i (List.mem_range.mpr hi)

/-- The stores of a key fill it exactly once, and tell different values apart, if and only
if the sizes recorded before each dependency add up to a multiple of its own. -/
theorem generateKey_exact_iff (key : KeyInfo ε) : key.Exact ↔ Aligned key.dependency_info := by
  constructor
  · intro hExact
    exact aligned_of_apart (hExact.apart fun _ _ => 0)
  · exact exact_of_aligned

/-- A parameter of one byte and a parameter of eight. -/
def byteAndWord : List (Dependency Unit) :=
  [.parameter ⟨"b", false, .scalar ⟨.uint, 8, by decide⟩⟩,
    .parameter ⟨"w", false, .scalar ⟨.uint, 64, by decide⟩⟩]

/-- An execution in which the parameter of one byte has this value, and the other is zero. -/
def byteIs (value : Nat) : Values Unit := fun e t =>
  match e with
  | .variable p => if p.name = "b" then BitVec.ofNat (8 * t.bytes) value else 0
  | .tagged _ => 0

def byteAndWordKey (deps : DependencyMap Unit) : KeyInfo Unit := ⟨deps, "top", "f", 0, fun _ => 0⟩

/-- The word is stored over the byte, which the key then does not depend on. -/
theorem byteAndWord_collides :
    ∃ deps, dependencyInfo byteAndWord = .ok deps ∧ ¬ (byteAndWordKey deps).Exact ∧
      (∃ i ∈ deps, byteIs 1 i.2.value_expr i.2.type ≠ byteIs 2 i.2.value_expr i.2.type) ∧
      ∀ i < (byteAndWordKey deps).keySize,
        applyAll (fun _ => 0) ((byteAndWordKey deps).generateKey (byteIs 1)) i =
          applyAll (fun _ => 0) ((byteAndWordKey deps).generateKey (byteIs 2)) i := by
  refine ⟨_, rfl, ?_, ?_, ?_⟩
  · intro hExact
    have hCovered := hExact.covered (byteIs 1) 24 (by decide)
    revert hCovered
    decide
  · decide
  · decide

end Vyasa.Memoization.KeyInfo
