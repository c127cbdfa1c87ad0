import Mathlib

/-! A queue that takes a batch and then gives its largest element away, batch after batch, and which
of two elements it gives away first. -/

universe u v

variable {α : Type u} {β : Type v}

/-- There is a place where the first comes before the second. -/
def List.Precedes (a b : α) (l : List α) : Prop := ∃ u v, l = u ++ v ∧ a ∈ u ∧ b ∈ v

namespace List.Precedes

variable {a b c : α} {l : List α}

theorem cons (h : Precedes a b l) : Precedes a b (c :: l) := by
  obtain ⟨u, v, rfl, ha, hb⟩ := h
  exact ⟨c :: u, v, rfl, mem_cons_of_mem _ ha, hb⟩

theorem head (h : b ∈ l) : Precedes a b (a :: l) := ⟨[a], l, rfl, mem_cons_self, h⟩

theorem cons_iff (hNe : a ≠ c) : Precedes a b (c :: l) ↔ Precedes a b l := by
  refine ⟨?_, cons⟩
  rintro ⟨u, v, hEq, ha, hb⟩
  rcases u with _ | ⟨d, u⟩
  · cases ha
  · rw [cons_append, List.cons.injEq] at hEq
    obtain ⟨rfl, rfl⟩ := hEq
    exact ⟨u, v, rfl, (mem_cons.mp ha).resolve_left hNe, hb⟩

theorem not_symm (hNodup : l.Nodup) (h : Precedes a b l) : ¬Precedes b a l := by
  obtain ⟨u, v, rfl, ha, hb⟩ := h
  obtain ⟨-, -, hDisjoint⟩ := nodup_append.mp hNodup
  rintro ⟨u', v', hEq, hb', ha'⟩
  rcases append_eq_append_iff.mp hEq with ⟨w, rfl, rfl⟩ | ⟨w, rfl, rfl⟩
  · exact hDisjoint a ha a (mem_append_right _ ha') rfl
  · exact hDisjoint b (mem_append_left _ hb') b hb rfl

theorem total : ∀ {l : List α}, a ∈ l → b ∈ l → a ≠ b → Precedes a b l ∨ Precedes b a l
  | c :: l, ha, hb, hNe => by
    rcases mem_cons.mp ha with rfl | ha'
    · exact .inl (head ((mem_cons.mp hb).resolve_left hNe.symm))
    · rcases mem_cons.mp hb with rfl | hb'
      · exact .inr (head ha')
      · exact (total ha' hb' hNe).imp cons cons

end List.Precedes

namespace Queue

open List (Precedes)

section Distinct

variable {key : α → β} {a e : α} {l l' : List α}

/-- All keys are different ones. -/
def Distinct (key : α → β) (l : List α) : Prop := (l.map key).Nodup

theorem Distinct.nodup (h : Distinct key l) : l.Nodup := List.Nodup.of_map key h

theorem Distinct.perm (h : Distinct key l) (hPerm : l.Perm l') : Distinct key l' :=
  (hPerm.map key).nodup_iff.mp h

theorem Distinct.tail (h : Distinct key (a :: l)) : Distinct key l := (List.nodup_cons.mp h).2

theorem Distinct.ne_of_mem (h : Distinct key (e :: l)) (ha : a ∈ l) : key e ≠ key a := by
  intro hEq
  exact (List.nodup_cons.mp h).1 (hEq ▸ List.mem_map_of_mem ha)

end Distinct

variable [LinearOrder β] (key : α → β)

/-- The largest element is the first one. -/
def enqueue (y : α) : List α → List α
  | [] => [y]
  | x :: q => if key x < key y then y :: x :: q else x :: enqueue y q

def enqueueAll : List α → List α → List α
  | [], q => q
  | y :: ys, q => enqueueAll ys (enqueue key y q)

/-- What the queue gives away, and at last what is left of it. -/
def serve : List α → List (List α) → List α
  | q, [] => q
  | q, batch :: batches =>
    match enqueueAll key batch q with
    | [] => serve [] batches
    | e :: q => e :: serve q batches

/-- The elements that are larger. -/
def above (a : α) (l : List α) : ℕ := l.countP fun x => key a < key x

/-- How many larger elements there are in the queue, with one batch more. -/
def backlog (a : α) : ℕ → List (List α) → ℕ → ℕ
  | _, [], _ => 0
  | n, batch :: _, 0 => n + above key a batch
  | n, batch :: batches, k + 1 => backlog a (n + above key a batch - 1) batches k

variable {key} {q batch : List α} {batches : List (List α)} {a b e y : α}

section Enqueue

theorem enqueue_perm : ∀ {q : List α}, (enqueue key y q).Perm (y :: q)
  | [] => .refl _
  | x :: q => by
    unfold enqueue
    split_ifs
    · exact .refl _
    · exact (enqueue_perm.cons x).trans (.swap y x q)

theorem enqueueAll_perm : ∀ batch q : List α, (enqueueAll key batch q).Perm (batch ++ q)
  | [], _ => .refl _
  | _ :: ys, _ => (enqueueAll_perm ys _).trans ((enqueue_perm.append_left _).trans List.perm_middle)

/-- No element is larger than one before it. -/
def Descending (key : α → β) (q : List α) : Prop := q.Pairwise fun x y => key y ≤ key x

theorem Descending.enqueue : ∀ {q : List α}, Descending key q → Descending key (enqueue key y q)
  | [], _ => List.pairwise_singleton _ _
  | x :: q, h => by
    unfold Queue.enqueue
    obtain ⟨hx, hq⟩ := List.pairwise_cons.mp h
    split_ifs with hLt
    · refine List.pairwise_cons.mpr ⟨fun z hz => ?_, h⟩
      rcases List.mem_cons.mp hz with rfl | hz
      · exact hLt.le
      · exact (hx z hz).trans hLt.le
    · refine List.pairwise_cons.mpr ⟨fun z hz => ?_, Descending.enqueue hq⟩
      rcases List.mem_cons.mp (enqueue_perm.mem_iff.mp hz) with rfl | hz
      · exact not_lt.mp hLt
      · exact hx z hz

theorem Descending.enqueueAll : ∀ (batch : List α) {q : List α}, Descending key q →
    Descending key (enqueueAll key batch q)
  | [], _, h => h
  | _ :: ys, _, h => Descending.enqueueAll ys h.enqueue

theorem above_append (a : α) (l l' : List α) : above key a (l ++ l') = above key a l + above key a l' :=
  List.countP_append

theorem above_perm {l l' : List α} (h : l.Perm l') : above key a l = above key a l' := h.countP_eq _

theorem above_cons_of_lt (h : key a < key e) : above key a (e :: q) = above key a q + 1 :=
  List.countP_cons_of_pos (decide_eq_true h)

theorem above_cons_of_le (h : key e ≤ key a) : above key a (e :: q) = above key a q :=
  List.countP_cons_of_neg (by simpa using h)

theorem above_eq_zero_iff : above key a q = 0 ↔ ∀ x ∈ q, key x ≤ key a := by
  rw [above, List.countP_eq_zero]
  simp

theorem serve_perm : ∀ (batches : List (List α)) (q : List α),
    (serve key q batches).Perm (q ++ batches.flatten)
  | [], q => by rw [serve, List.flatten_nil, List.append_nil]
  | batch :: batches, q => by
    have hAll : (enqueueAll key batch q).Perm (batch ++ q) := enqueueAll_perm batch q
    rw [serve]
    cases hq : enqueueAll key batch q with
    | nil =>
      rw [hq] at hAll
      obtain ⟨rfl, rfl⟩ := List.append_eq_nil_iff.mp hAll.nil_eq.symm
      exact serve_perm batches []
    | cons e q' =>
      rw [hq] at hAll
      have hRest := (serve_perm batches q').cons e
      rw [← List.cons_append] at hRest
      refine hRest.trans ((hAll.append_right _).trans ?_)
      rw [List.flatten_cons, ← List.append_assoc]
      exact List.perm_append_comm.append_right _

end Enqueue

section Order

theorem Descending.head_ge (h : Descending key (e :: q)) (ha : a ∈ e :: q) : key a ≤ key e := by
  rcases List.mem_cons.mp ha with rfl | ha
  · exact le_rfl
  · exact (List.pairwise_cons.mp h).1 a ha

theorem Descending.tail (h : Descending key (e :: q)) : Descending key q := (List.pairwise_cons.mp h).2

theorem Descending.precedes (h : Descending key q) (hLt : key a < key b) (ha : a ∈ q) (hb : b ∈ q) :
    Precedes b a q := by
  refine (List.Precedes.total ha hb fun hEq => hLt.ne (congrArg key hEq)).resolve_left ?_
  rintro ⟨u, v, rfl, ha, hb⟩
  exact hLt.not_ge ((List.pairwise_append.mp h).2.2 a ha b hb)

/-- A batch can be put into the queue before. -/
theorem serve_enqueueAll (q batch : List α) (batches : List (List α)) :
    serve key q (batch :: batches) = serve key (enqueueAll key batch q) ([] :: batches) := rfl

theorem serve_cons {q' : List α} (h : enqueueAll key batch q = e :: q') :
    serve key q (batch :: batches) = e :: serve key q' batches := by
  rw [serve, h]

/-- The larger one of two elements goes first if it is there. -/
theorem precedes_of_mem : ∀ {batches : List (List α)} {q : List α}, Descending key q →
    Distinct key (q ++ batches.flatten) → key a < key b → b ∈ q → a ∈ q ++ batches.flatten →
    Precedes b a (serve key q batches)
  | [], q, hDesc, _, hLt, hb, ha => by
    rw [List.flatten_nil, List.append_nil] at ha
    exact hDesc.precedes hLt ha hb
  | batch :: batches, q, hDesc, hKeys, hLt, hb, ha => by
    have hAll : (enqueueAll key batch q).Perm (batch ++ q) := enqueueAll_perm batch q
    have hDesc' := hDesc.enqueueAll batch
    have hPerm : (q ++ (batch :: batches).flatten).Perm (enqueueAll key batch q ++ batches.flatten) := by
      rw [List.flatten_cons, ← List.append_assoc]
      exact (List.perm_append_comm.trans hAll.symm).append_right _
    cases hq : enqueueAll key batch q with
    | nil =>
      rw [hq] at hAll
      exact absurd (hAll.mem_iff.mpr (List.mem_append_right _ hb)) List.not_mem_nil
    | cons e q' =>
      rw [hq] at hAll hDesc' hPerm
      rw [serve_cons hq]
      have hb' : b ∈ e :: q' := hAll.mem_iff.mpr (List.mem_append_right _ hb)
      have ha' : a ∈ e :: (q' ++ batches.flatten) := hPerm.mem_iff.mp ha
      have hNe : a ≠ e := by
        rintro rfl
        exact hLt.not_ge (hDesc'.head_ge hb')
      have hLater := (List.mem_cons.mp ha').resolve_left hNe
      rcases List.mem_cons.mp hb' with rfl | hb'
      · exact List.Precedes.head ((serve_perm _ _).mem_iff.mpr hLater)
      · exact (precedes_of_mem hDesc'.tail (hKeys.perm hPerm).tail hLt hb' hLater).cons

theorem Descending.above_tail (h : Descending key (e :: q)) (hNe : key e ≠ key a) :
    above key a q = above key a (e :: q) - 1 := by
  rcases lt_or_gt_of_ne hNe with hLt | hGt
  · have hZero : above key a q = 0 :=
      above_eq_zero_iff.mpr fun x hx => (h.head_ge (List.mem_cons_of_mem _ hx)).trans hLt.le
    rw [above_cons_of_le hLt.le, hZero]
  · rw [above_cons_of_lt hGt, Nat.add_sub_cancel]

theorem Descending.head_eq (h : Descending key (e :: q)) (hKeys : Distinct key (e :: q)) (ha : a ∈ e :: q)
    (hZero : above key a (e :: q) = 0) : a = e := by
  by_contra hNe
  have hEq := le_antisymm (h.head_ge ha) (above_eq_zero_iff.mp hZero e List.mem_cons_self)
  exact hKeys.ne_of_mem ((List.mem_cons.mp ha).resolve_left hNe) hEq.symm

/-- Where an element is at first: in the queue, or in a batch that comes. -/
def Arrives (a : α) (q : List α) (batches : List (List α)) : ℕ → Prop
  | 0 => a ∈ q ∨ ∃ batch, batches[0]? = some batch ∧ a ∈ batch
  | t + 1 => ∃ batch, batches[t + 1]? = some batch ∧ a ∈ batch

theorem mem_of_getElem? {t : ℕ} (h : batches[t]? = some batch) (ha : a ∈ batch) : a ∈ batches.flatten :=
  List.mem_flatten.mpr ⟨batch, List.mem_of_getElem? h, ha⟩

theorem Arrives.of_getElem? {t : ℕ} (h : batches[t]? = some batch) (ha : a ∈ batch) : Arrives a q batches t := by
  cases t with
  | zero => exact .inr ⟨batch, h, ha⟩
  | succ t => exact ⟨batch, h, ha⟩

theorem Arrives.mem {t : ℕ} (h : Arrives a q batches t) : a ∈ q ++ batches.flatten := by
  cases t with
  | zero =>
    rcases h with h | ⟨_, h, ha⟩
    · exact List.mem_append_left _ h
    · exact List.mem_append_right _ (mem_of_getElem? h ha)
  | succ t =>
    obtain ⟨_, h, ha⟩ := h
    exact List.mem_append_right _ (mem_of_getElem? h ha)

/-- After a batch has come, the element is in the queue, or comes with a later batch. -/
theorem Arrives.step (key : α → β) {t : ℕ} (h : Arrives a q (batch :: batches) t) :
    t = 0 ∧ a ∈ enqueueAll key batch q ∨ t ≠ 0 ∧ ∃ batch, batches[t - 1]? = some batch ∧ a ∈ batch := by
  cases t with
  | zero =>
    refine .inl ⟨rfl, (enqueueAll_perm batch q).mem_iff.mpr (List.mem_append.mpr ?_)⟩
    rcases h with h | ⟨_, h, ha⟩
    · exact .inr h
    · cases h
      exact .inl ha
  | succ t => exact .inr ⟨Nat.succ_ne_zero t, h⟩

theorem exists_shift {t u : ℕ} {P Q : ℕ → Prop} (hZero : t = 0 → ¬P 0) (hSucc : ∀ k, P (k + 1) ↔ Q k) :
    (∃ k, t ≤ k ∧ k < u + 1 ∧ P k) ↔ ∃ k, t - 1 ≤ k ∧ k < u ∧ Q k := by
  constructor
  · rintro ⟨_ | k, hLe, hLt, hP⟩
    · exact absurd hP (hZero (Nat.le_zero.mp hLe))
    · exact ⟨k, by omega, by omega, (hSucc k).mp hP⟩
  · rintro ⟨k, hLe, hLt, hQ⟩
    exact ⟨k + 1, by omega, by omega, (hSucc k).mpr hQ⟩

/-- The smaller one of two elements goes first if there is no larger one at some time before the
other one comes. -/
theorem precedes_iff : ∀ {batches : List (List α)} {q : List α} {t u : ℕ}, Descending key q →
    Distinct key (q ++ batches.flatten) → key a < key b → Arrives a q batches t →
    (∃ batch, batches[u]? = some batch ∧ b ∈ batch) →
    (Precedes a b (serve key q batches) ↔
      ∃ k, t ≤ k ∧ k < u ∧ backlog key a (above key a q) batches k = 0)
  | [], _, _, _, _, _, _, _, ⟨_, hb, _⟩ => by cases hb
  | batch :: batches, q, t, u, hDesc, hKeys, hLt, ha, hb => by
    have hAll : (enqueueAll key batch q).Perm (batch ++ q) := enqueueAll_perm batch q
    have hDesc' := hDesc.enqueueAll batch
    have hPerm : (q ++ (batch :: batches).flatten).Perm (enqueueAll key batch q ++ batches.flatten) := by
      rw [List.flatten_cons, ← List.append_assoc]
      exact (List.perm_append_comm.trans hAll.symm).append_right _
    have hAbove : above key a q + above key a batch = above key a (enqueueAll key batch q) := by
      rw [above_perm hAll, above_append, Nat.add_comm]
    have hKeys' := hKeys.perm hPerm
    cases u with
    | zero =>
      obtain ⟨_, hEq, hb⟩ := hb
      cases hEq
      have hFirst : Precedes b a (serve key q (batch :: batches)) := by
        rw [serve_enqueueAll]
        exact precedes_of_mem hDesc' hKeys' hLt (hAll.mem_iff.mpr (List.mem_append_left _ hb))
          (hPerm.mem_iff.mp ha.mem)
      refine iff_of_false (hFirst.not_symm ?_) fun ⟨_, _, hNot, _⟩ => absurd hNot (Nat.not_lt_zero _)
      exact (serve_perm _ _).nodup_iff.mpr hKeys.nodup
    | succ u =>
      obtain ⟨_, hb', hb⟩ := hb
      rw [List.getElem?_cons_succ] at hb'
      cases hq : enqueueAll key batch q with
      | nil =>
        rw [hq] at hAll hAbove
        have hStep := ha.step key
        rw [hq] at hStep
        obtain ⟨hLate, _, ha', ha⟩ := hStep.resolve_left fun h => List.not_mem_nil h.2
        rw [serve, hq, precedes_iff List.Pairwise.nil (hKeys'.perm (hq ▸ .refl _)) hLt (.of_getElem? ha' ha)
          ⟨_, hb', hb⟩]
        refine (exists_shift (fun h => absurd h hLate) fun k => ?_).symm
        rw [backlog, hAbove]
        rfl
      | cons e q' =>
        rw [hq] at hAll hDesc' hAbove hKeys'
        rw [serve_cons hq]
        have hLater : b ∈ serve key q' batches :=
          (serve_perm _ _).mem_iff.mpr (List.mem_append_right _ (mem_of_getElem? hb' hb))
        -- the others wait for as many larger ones as before, but one
        have hRest : key e ≠ key a → Arrives a q' batches (t - 1) →
            (t = 0 → above key a (e :: q') ≠ 0) →
            (Precedes a b (e :: serve key q' batches) ↔
              ∃ k, t ≤ k ∧ k < u + 1 ∧ backlog key a (above key a q) (batch :: batches) k = 0) := by
          intro hNe hArrives hZero
          rw [List.Precedes.cons_iff fun hEq => hNe (congrArg key hEq.symm),
            precedes_iff hDesc'.tail hKeys'.tail hLt hArrives ⟨_, hb', hb⟩]
          refine (exists_shift (fun h => ?_) fun k => ?_).symm
          · rw [backlog, hAbove]
            exact hZero h
          · rw [backlog, hAbove, hDesc'.above_tail hNe]
        have hStep := ha.step key
        rw [hq] at hStep
        rcases hStep with ⟨rfl, hIn⟩ | ⟨hLate, _, ha', hIn⟩
        · by_cases hZero : above key a (e :: q') = 0
          · obtain rfl := hDesc'.head_eq (List.Nodup.sublist ((List.sublist_append_left _ _).map key) hKeys') hIn hZero
            exact iff_of_true (List.Precedes.head hLater)
              ⟨0, Nat.le_refl 0, Nat.succ_pos u, by rw [backlog, hAbove, hZero]⟩
          · have hNe : key e ≠ key a := fun hEq => hZero <| above_eq_zero_iff.mpr fun x hx =>
              (hDesc'.head_ge hx).trans_eq hEq
            exact hRest hNe (.inl ((List.mem_cons.mp hIn).resolve_left fun hEq => hNe (congrArg key hEq.symm)))
              fun _ => hZero
        · exact hRest (hKeys'.ne_of_mem (List.mem_append_right _ (mem_of_getElem? ha' hIn)))
            (.of_getElem? ha' hIn) fun h => absurd h hLate

end Order

end Queue
