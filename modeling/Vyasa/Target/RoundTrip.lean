import Vyasa.Target.Strings
import Mathlib.Data.Finset.Dedup
import Mathlib.Data.Finset.Lattice.Lemmas

/-! What is printed for a target is read back as that target. -/
namespace Vyasa.Target

open Text

variable {t : Target} {host : Target} {base : List (List Char)} {l : List (String × Feature)}

/-! ### What is printed -/

/-- The entries of a map whose features are set. -/
def present (t : Target) (l : List (String × Feature)) : List (String × Feature) := l.filter fun e => t.has_feature e.2

/-- Their names. -/
def presentNames (t : Target) (l : List (String × Feature)) : List (List Char) := (present t l).map fun e => e.1.toList

theorem foldl_join (hBase : base ≠ []) :
    l.foldl (fun result e => if t.has_feature e.2 then result ++ ('-' :: e.1.toList) else result) (join '-' base) =
      join '-' (base ++ presentNames t l) := by
  induction l generalizing base with
  | nil => rw [List.foldl_nil, presentNames, present, List.filter_nil, List.map_nil, List.append_nil]
  | cons e l ih =>
    rw [List.foldl_cons, presentNames, present, List.filter_cons]
    by_cases he : t.has_feature e.2 = true
    · have hOne : join '-' base ++ ('-' :: e.1.toList) = join '-' (base ++ [e.1.toList]) := by
        rw [join_append hBase (List.cons_ne_nil _ _), join_singleton]
      rw [if_pos he, if_pos he, hOne, ih (List.append_ne_nil_of_left_ne_nil hBase _), List.map_cons,
        List.append_assoc, List.singleton_append, presentNames, present]
    · rw [if_neg he, if_neg he, ih hBase, presentNames, present]

theorem dashes_of_present (hl : ∀ e ∈ l, e ∈ inOrder feature_name_map) : ∀ tok ∈ presentNames t l, '-' ∉ tok := by
  intro tok hTok
  obtain ⟨e, he, rfl⟩ := List.mem_map.mp hTok
  exact (feature_names e ((List.mem_insertionSort _).mp (hl e (List.mem_of_mem_filter he)))).2.2.2.2

/-- The tokens before and after the traces are other ones. -/
theorem trace_not_mem (hl : ∀ e ∈ l, e ∈ namesBefore ++ namesAfter) :
    "trace_realizations".toList ∉ presentNames t l := by
  rw [presentNames, List.mem_map]
  rintro ⟨e, he, hEq⟩
  exact ne_trace_realizations e (hl e (List.mem_of_mem_filter he)) hEq

/-- The traces that are collapsed, where all of them are set. -/
def Traces (t : Target) : Prop :=
  .TraceLoads ∈ t.features ∧ .TraceStores ∈ t.features ∧ .TraceRealizations ∈ t.features

instance : Decidable (Traces t) := inferInstanceAs (Decidable (_ ∧ _ ∧ _))

theorem present_traces (h : Traces t) : present t (inOrder feature_name_map) = present t namesBefore ++
    ("trace_loads", .TraceLoads) :: (present t [("trace_pipeline", .TracePipeline)] ++
      ("trace_realizations", .TraceRealizations) :: ("trace_stores", .TraceStores) :: present t namesAfter) := by
  obtain ⟨hLoads, hStores, hRealizations⟩ := h
  rw [inOrder_feature_name_map]
  by_cases hPipeline : .TracePipeline ∈ t.features
  · simp [present, has_feature, hLoads, hStores, hRealizations, hPipeline]
  · simp [present, has_feature, hLoads, hStores, hRealizations, hPipeline]

section Collapse

variable (hDashes : ∀ tok ∈ base, '-' ∉ tok) (hBase : "trace_realizations".toList ∉ base) (hNonempty : base ≠ [])
  (hTraces : Traces t)
include hDashes hBase hTraces

/-- Where the text of the three traces occurs, the tokens before it end with the first of them. -/
theorem eq_join_of_traces {u v : List Char} (hOccurs : join '-' (base ++ presentNames t (inOrder feature_name_map)) =
    u ++ "trace_loads-trace_realizations-trace_stores".toList ++ v) :
    join '-' (base ++ presentNames t namesBefore ++ "trace_loads".toList ::
      presentNames t [("trace_pipeline", .TracePipeline)]) = u ++ "trace_loads".toList := by
  have hTokens : base ++ presentNames t (inOrder feature_name_map) =
      (base ++ presentNames t namesBefore ++ "trace_loads".toList ::
        presentNames t [("trace_pipeline", .TracePipeline)]) ++
          "trace_realizations".toList :: "trace_stores".toList :: presentNames t namesAfter := by
    rw [presentNames, present_traces hTraces]
    simp only [presentNames, List.map_append, List.map_cons, List.append_assoc, List.cons_append]
  have hAll : ∀ tok ∈ base ++ presentNames t (inOrder feature_name_map), '-' ∉ tok := fun tok h =>
    (List.mem_append.mp h).elim (hDashes tok) (dashes_of_present (fun _ h => h) tok)
  have hPipeline : "trace_realizations".toList ∉ presentNames t [("trace_pipeline", .TracePipeline)] := by
    rw [presentNames, List.mem_map]
    rintro ⟨e, he, hEq⟩
    obtain rfl := List.mem_singleton.mp (List.mem_of_mem_filter he)
    exact absurd hEq (by decide)
  have hBefore := trace_not_mem (t := t) (l := namesBefore) fun e he => List.mem_append_left _ he
  have hAfter := trace_not_mem (t := t) (l := namesAfter) fun e he => List.mem_append_right _ he
  rw [hTokens] at hOccurs hAll
  refine eq_join_of_occurs (c := "trace_stores".toList) hAll ?_ ?_ hOccurs
  · simp only [List.mem_append, List.mem_cons, not_or]
    exact ⟨⟨hBase, hBefore⟩, by decide, hPipeline⟩
  · simp only [List.mem_cons, not_or]
    exact ⟨by decide, hAfter⟩

/-- With the trace of the pipeline between them, the traces are printed one by one. -/
theorem replaceAll_of_pipeline (hPipeline : .TracePipeline ∈ t.features) :
    replaceAll "trace_loads-trace_realizations-trace_stores".toList "trace_all".toList
      (join '-' (base ++ presentNames t (inOrder feature_name_map))) =
        join '-' (base ++ presentNames t (inOrder feature_name_map)) := by
  refine replaceAll_of_none fun u v hOccurs => ?_
  have hEq := eq_join_of_traces hDashes hBase hTraces hOccurs
  have hOne : presentNames t [("trace_pipeline", .TracePipeline)] = ["trace_pipeline".toList] := by
    simp [presentNames, present, has_feature, hPipeline]
  rw [hOne, List.append_cons, join_append (List.append_ne_nil_of_right_ne_nil _ (List.cons_ne_nil _ _))
    (List.cons_ne_nil _ _), join_singleton] at hEq
  have hLast := congrArg List.getLast? hEq
  rw [List.getLast?_append_of_ne_nil _ (List.cons_ne_nil _ _), List.getLast?_append_of_ne_nil _ (by decide)] at hLast
  exact absurd hLast (by decide)

include hNonempty in
/-- Without it, they are printed as one. -/
theorem replaceAll_of_collapse (hPipeline : .TracePipeline ∉ t.features) :
    replaceAll "trace_loads-trace_realizations-trace_stores".toList "trace_all".toList
      (join '-' (base ++ presentNames t (inOrder feature_name_map))) =
        join '-' (base ++ presentNames t namesBefore ++ "trace_all".toList :: presentNames t namesAfter) := by
  have hNone : presentNames t [("trace_pipeline", .TracePipeline)] = [] := by
    simp [presentNames, present, has_feature, hPipeline]
  have hFirst : base ++ presentNames t namesBefore ≠ [] := List.append_ne_nil_of_left_ne_nil hNonempty _
  have hText : join '-' (base ++ presentNames t (inOrder feature_name_map)) =
      (join '-' (base ++ presentNames t namesBefore) ++ ['-']) ++
        "trace_loads-trace_realizations-trace_stores".toList ++
          ((presentNames t namesAfter).map ('-' :: ·)).flatten := by
    have hTokens : base ++ presentNames t (inOrder feature_name_map) = base ++ presentNames t namesBefore ++
        "trace_loads".toList :: "trace_realizations".toList :: "trace_stores".toList :: presentNames t namesAfter := by
      have hEmpty : present t [("trace_pipeline", .TracePipeline)] = [] := by simp [present, has_feature, hPipeline]
      rw [presentNames, present_traces hTraces, hEmpty]
      simp only [presentNames, List.map_append, List.map_cons, List.append_assoc, List.nil_append]
    have hJoined : "trace_loads-trace_realizations-trace_stores".toList =
        "trace_loads".toList ++ ('-' :: "trace_realizations".toList ++ ('-' :: "trace_stores".toList)) := rfl
    rw [hTokens, join_append hFirst (List.cons_ne_nil _ _), join_cons_eq, hJoined]
    simp only [List.map_cons, List.flatten_cons, List.append_assoc, List.cons_append, List.nil_append]
  have hShown : join '-' (base ++ presentNames t namesBefore ++ "trace_all".toList :: presentNames t namesAfter) =
      (join '-' (base ++ presentNames t namesBefore) ++ ['-']) ++ "trace_all".toList ++
        ((presentNames t namesAfter).map ('-' :: ·)).flatten := by
    rw [join_append hFirst (List.cons_ne_nil _ _), join_cons_eq]
    simp only [List.append_assoc, List.cons_append, List.nil_append]
  rw [hShown]
  have hUnique : ∀ u v, (join '-' (base ++ presentNames t namesBefore) ++ ['-']) ++
      "trace_loads-trace_realizations-trace_stores".toList ++ ((presentNames t namesAfter).map ('-' :: ·)).flatten =
        u ++ "trace_loads-trace_realizations-trace_stores".toList ++ v →
      u = join '-' (base ++ presentNames t namesBefore) ++ ['-'] := by
    intro u v hOccurs
    have hEq := eq_join_of_traces hDashes hBase hTraces (hText.trans hOccurs)
    rw [hNone, join_append hFirst (List.cons_ne_nil _ _), join_singleton] at hEq
    exact (List.append_cancel_right (hEq.symm.trans (List.append_cons _ _ _)))
  rw [hText]
  exact replaceAll_of_unique (by decide) hUnique

end Collapse

/-! ### What is read -/

/-- A token that stands for features is read as them. -/
def Reads (host : Target) (p : List Char × List Feature) : Prop :=
  ∀ i s, mergeToken host i p.1 s = some { s with t := s.t.set_features p.2, features_specified := true }

/-- A token that is neither reserved nor the name of an architecture or of an operating system. -/
theorem mergeToken_feature {tok : List Char} {i : Nat} {s : Merge} (hReserved : ¬ IsReserved tok)
    (hArch : lookup_arch tok = none) (hOs : lookup_os tok = none) :
    mergeToken host i tok s = mergeFeature tok s := by
  rw [mergeToken, if_neg fun h => hReserved (Or.inl h), if_neg fun h => hReserved (Or.inr h), hArch]
  simp only [hOs]

theorem reads_feature {e : String × Feature} (he : e ∈ feature_name_map) : Reads host (e.1.toList, [e.2]) := by
  obtain ⟨hReserved, hArch, hOs, hFeature, -⟩ := feature_names e he
  intro i s
  rw [mergeToken_feature hReserved hArch hOs, mergeFeature, hFeature]
  rfl

theorem reads_trace_all :
    Reads host ("trace_all".toList, [.TraceLoads, .TraceStores, .TraceRealizations]) := by
  intro i s
  have hFeature : lookup_feature "trace_all".toList = none := by decide +kernel
  rw [mergeToken_feature (by decide) (by decide +kernel) (by decide +kernel), mergeFeature, hFeature]
  exact if_pos rfl

theorem set_features_append (fs fs' : List Feature) :
    t.set_features (fs ++ fs') = (t.set_features fs).set_features fs' := List.foldl_append

theorem set_features_eq (fs : List Feature) :
    t.set_features fs = { t with features := t.features ∪ fs.toFinset } := by
  induction fs generalizing t with
  | nil => rw [set_features, List.foldl_nil, List.toFinset_nil, Finset.union_empty]
  | cons f fs ih =>
    have hOne : t.set_features (f :: fs) = (t.set_feature (some f)).set_features fs := rfl
    rw [hOne, ih, set_feature, List.toFinset_cons, Finset.insert_union, Finset.union_insert]

/-- The tokens of features are read one after the other. -/
theorem mergeTokens_features {l : List (List Char × List Feature)} (hReads : ∀ p ∈ l, Reads host p) (i : Nat)
    (s : Merge) : ∃ specified, mergeTokens host i (l.map Prod.fst) s =
      some { s with t := s.t.set_features (l.flatMap Prod.snd), features_specified := specified } := by
  induction l generalizing i s with
  | nil => exact ⟨s.features_specified, rfl⟩
  | cons p l ih =>
    obtain ⟨specified, hRest⟩ := ih (fun p hp => hReads p (List.mem_cons_of_mem _ hp)) (i + 1)
      { s with t := s.t.set_features p.2, features_specified := true }
    refine ⟨specified, ?_⟩
    rw [List.map_cons, mergeTokens, hReads p List.mem_cons_self, Option.bind_eq_bind, Option.bind_some, hRest,
      List.flatMap_cons, set_features_append]

theorem arch_shown (arch : Arch) : ∃ name, nameOf arch_name_map arch = some name ∧ ¬ IsReserved name ∧
    lookup_arch name = some arch ∧ '-' ∉ name := by
  obtain ⟨e, he, rfl⟩ := arch_named arch
  exact ⟨_, arch_names e he⟩

theorem os_shown (os : OS) : ∃ name, nameOf os_name_map os = some name ∧ ¬ IsReserved name ∧
    lookup_arch name = none ∧ lookup_os name = some os ∧ '-' ∉ name := by
  obtain ⟨e, he, rfl⟩ := os_named os
  exact ⟨_, os_names e he⟩

/-- The tokens of the features that are printed, each with the features that it stands for. -/
def printed (t : Target) : List (List Char × List Feature) :=
  if Traces t ∧ .TracePipeline ∉ t.features then
    (present t namesBefore).map (fun e => (e.1.toList, [e.2])) ++
      ("trace_all".toList, [.TraceLoads, .TraceStores, .TraceRealizations]) ::
        (present t namesAfter).map fun e => (e.1.toList, [e.2])
  else (present t (inOrder feature_name_map)).map fun e => (e.1.toList, [e.2])

theorem mem_inOrder {e : String × Feature} : e ∈ inOrder feature_name_map ↔ e ∈ feature_name_map :=
  List.mem_insertionSort _

theorem reads_printed : ∀ p ∈ printed t, Reads host p := by
  have hOne (l : List (String × Feature)) (hl : ∀ e ∈ l, e ∈ inOrder feature_name_map) :
      ∀ p ∈ (present t l).map (fun e => (e.1.toList, [e.2])), Reads host p := by
    intro p hp
    obtain ⟨e, he, rfl⟩ := List.mem_map.mp hp
    exact reads_feature (mem_inOrder.mp (hl e (List.mem_of_mem_filter he)))
  intro p hp
  rw [printed] at hp
  split at hp
  · rcases List.mem_append.mp hp with hp | hp
    · exact hOne _ (fun e he => List.mem_of_mem_take he) p hp
    · rcases List.mem_cons.mp hp with rfl | hp
      · exact reads_trace_all
      · exact hOne _ (fun e he => List.mem_of_mem_drop he) p hp
  · exact hOne _ (fun e he => he) p hp

/-- The tokens stand for the features of the target. -/
theorem toFinset_printed : ((printed t).flatMap Prod.snd).toFinset = t.features := by
  have hAll : ((present t (inOrder feature_name_map)).map Prod.snd).toFinset = t.features := by
    ext f
    rw [List.mem_toFinset, List.mem_map]
    constructor
    · rintro ⟨e, he, rfl⟩
      exact of_decide_eq_true (List.mem_filter.mp he).2
    · intro hf
      obtain ⟨e, he, rfl⟩ := feature_named f
      exact ⟨e, List.mem_filter.mpr ⟨mem_inOrder.mpr he, decide_eq_true hf⟩, rfl⟩
  have hFlat (l : List (String × Feature)) :
      (l.map fun e => (e.1.toList, [e.2])).flatMap Prod.snd = l.map Prod.snd := by
    rw [List.flatMap_map]
    exact List.map_eq_flatMap.symm
  rw [printed]
  split
  · next h =>
    have hNone : present t [("trace_pipeline", .TracePipeline)] = [] := by simp [present, has_feature, h.2]
    rw [← hAll, present_traces h.1, hNone, List.flatMap_append, List.flatMap_cons, hFlat, hFlat]
    ext f
    simp only [List.mem_toFinset, List.mem_append, List.mem_cons, List.map_append, List.map_cons, List.nil_append,
      List.not_mem_nil]
    tauto
  · rw [hFlat, hAll]

/-! ### The round trip -/

/-- What is printed, token by token. -/
theorem to_string_eq {arch os : List Char} (hArch : nameOf arch_name_map t.arch = some arch)
    (hOs : nameOf os_name_map t.os = some os) (hDashes : ∀ tok ∈ [arch, (toString t.bits).toList, os], '-' ∉ tok)
    (hTrace : "trace_realizations".toList ∉ [arch, (toString t.bits).toList, os]) :
    t.to_string = join '-' ([arch, (toString t.bits).toList, os] ++ (printed t).map Prod.fst) := by
  have hBase : arch ++ ('-' :: (toString t.bits).toList) ++ ('-' :: os) =
      join '-' [arch, (toString t.bits).toList, os] := by
    rw [join_cons _ (List.cons_ne_nil _ _), join_cons _ (List.cons_ne_nil _ _), join_singleton, List.append_assoc,
      List.cons_append]
  have hNames (l : List (String × Feature)) :
      ((present t l).map fun e => (e.1.toList, [e.2])).map Prod.fst = presentNames t l := by
    rw [List.map_map]
    rfl
  have hText : join '-' ([arch, (toString t.bits).toList, os] ++ presentNames t (inOrder feature_name_map)) =
      (inOrder feature_name_map).foldl
        (fun result e => if t.has_feature e.2 then result ++ ('-' :: e.1.toList) else result)
        (arch ++ ('-' :: (toString t.bits).toList) ++ ('-' :: os)) := by
    rw [hBase, foldl_join (List.cons_ne_nil _ _)]
  have hAll : (t.has_feature .TraceLoads && t.has_feature .TraceStores && t.has_feature .TraceRealizations) = true ↔
      Traces t := by
    simp only [has_feature, Bool.and_eq_true, decide_eq_true_iff, Traces, and_assoc]
  simp only [to_string, hArch, hOs, Option.getD_some, ← hText, hAll]
  by_cases hTraces : Traces t
  · rw [if_pos hTraces]
    by_cases hPipeline : .TracePipeline ∈ t.features
    · rw [replaceAll_of_pipeline hDashes hTrace hTraces hPipeline, printed, if_neg fun h => h.2 hPipeline, hNames]
    · rw [replaceAll_of_collapse hDashes hTrace (List.cons_ne_nil _ _) hTraces hPipeline, printed,
        if_pos ⟨hTraces, hPipeline⟩, List.map_append, List.map_cons, hNames, hNames, List.append_assoc]
  · rw [if_neg hTraces, printed, if_neg fun h => hTraces h.1, hNames]

theorem dashes_printed : ∀ tok ∈ (printed t).map Prod.fst, '-' ∉ tok := by
  have hOne (l : List (String × Feature)) (hl : ∀ e ∈ l, e ∈ inOrder feature_name_map) :
      ∀ tok ∈ ((present t l).map fun e => (e.1.toList, [e.2])).map Prod.fst, '-' ∉ tok := by
    rw [List.map_map]
    exact dashes_of_present hl
  intro tok hTok
  rw [printed] at hTok
  split at hTok
  · rw [List.map_append, List.map_cons] at hTok
    rcases List.mem_append.mp hTok with hTok | hTok
    · exact hOne _ (fun e he => List.mem_of_mem_take he) tok hTok
    · rcases List.mem_cons.mp hTok with rfl | hTok
      · decide
      · exact hOne _ (fun e he => List.mem_of_mem_drop he) tok hTok
  · exact hOne _ (fun e he => he) tok hTok

theorem mergeToken_arch {tok : List Char} {i : Nat} {s : Merge} {arch : Arch} (hReserved : ¬ IsReserved tok)
    (hArch : lookup_arch tok = some arch) (hFirst : s.arch_specified = false) :
    mergeToken host i tok s = some { s with arch_specified := true, t := { s.t with arch := arch } } := by
  rw [mergeToken, if_neg fun h => hReserved (Or.inl h), if_neg fun h => hReserved (Or.inr h), hArch]
  simp only [hFirst, Bool.false_eq_true, if_false]

theorem mergeToken_os {tok : List Char} {i : Nat} {s : Merge} {os : OS} (hReserved : ¬ IsReserved tok)
    (hArch : lookup_arch tok = none) (hOs : lookup_os tok = some os) (hFirst : s.os_specified = false) :
    mergeToken host i tok s = some { s with os_specified := true, t := { s.t with os := os } } := by
  rw [mergeToken, if_neg fun h => hReserved (Or.inl h), if_neg fun h => hReserved (Or.inr h), hArch]
  simp only [hOs, hFirst, Bool.false_eq_true, if_false]

/-- The widths that targets have. -/
def ValidBits (bits : Int) : Prop := bits = 32 ∨ bits = 64

theorem mergeToken_bits {bits : Int} {i : Nat} {s : Merge} (hBits : ValidBits bits) (hFirst : s.bits_specified = false) :
    mergeToken host i (toString bits).toList s =
      some { s with bits_specified := true, t := { s.t with bits := bits } } := by
  rcases hBits with rfl | rfl
  · rw [mergeToken, if_neg (by decide), if_pos (by decide), if_neg (by rw [hFirst]; decide), if_pos (by decide)]
  · rw [mergeToken, if_neg (by decide), if_pos (by decide), if_neg (by rw [hFirst]; decide), if_neg (by decide),
      if_pos (by decide)]

theorem bits_shown {bits : Int} (hBits : ValidBits bits) :
    '-' ∉ (toString bits).toList ∧ "trace_realizations".toList ≠ (toString bits).toList := by
  rcases hBits with rfl | rfl
  · decide
  · decide

theorem merge_string_to_string (host : Target) (capability : Target → Option Feature) {initial t : Target}
    (hFeatures : initial.features = ∅) (hBits : ValidBits t.bits) :
    merge_string host capability initial t.to_string = some t := by
  obtain ⟨arch, hArch, hArchReserved, hArchFound, hArchDashes⟩ := arch_shown t.arch
  obtain ⟨os, hOs, hOsReserved, hOsNot, hOsFound, hOsDashes⟩ := os_shown t.os
  obtain ⟨hBitsDashes, hBitsTrace⟩ := bits_shown hBits
  have hDashes : ∀ tok ∈ [arch, (toString t.bits).toList, os], '-' ∉ tok := by
    simp only [List.mem_cons, List.not_mem_nil, or_false]
    rintro tok (rfl | rfl | rfl)
    · exact hArchDashes
    · exact hBitsDashes
    · exact hOsDashes
  have hTrace : "trace_realizations".toList ∉ [arch, (toString t.bits).toList, os] := by
    simp only [List.mem_cons, List.not_mem_nil, or_false]
    rintro (rfl | hEq | rfl)
    · have hNone : lookup_arch "trace_realizations".toList = none := by decide +kernel
      cases hNone.symm.trans hArchFound
    · exact hBitsTrace hEq
    · have hNone : lookup_os "trace_realizations".toList = none := by decide +kernel
      cases hNone.symm.trans hOsFound
  have hTokens : t.to_string.splitOn '-' = arch :: (toString t.bits).toList :: os :: (printed t).map Prod.fst := by
    rw [to_string_eq hArch hOs hDashes hTrace]
    exact split_join (fun tok h => (List.mem_append.mp h).elim (hDashes tok) (dashes_printed tok))
      (List.cons_ne_nil _ _)
  obtain ⟨specified, hRead⟩ : ∃ specified, mergeTokens host 0 (t.to_string.splitOn '-')
      ⟨initial, false, false, false, false, false⟩ = some ⟨t, true, true, true, specified, false⟩ := by
    have hReads : ∀ p ∈ printed t, Reads host p := reads_printed
    obtain ⟨specified, hRest⟩ := mergeTokens_features hReads 3
      ⟨⟨t.os, t.arch, t.bits, initial.features⟩, true, true, true, false, false⟩
    rw [set_features_eq, toFinset_printed, hFeatures, Finset.empty_union] at hRest
    refine ⟨specified, ?_⟩
    rw [hTokens]
    simp only [mergeTokens, mergeToken_arch hArchReserved hArchFound, mergeToken_bits hBits,
      mergeToken_os hOsReserved hOsNot hOsFound, Option.bind_eq_bind, Option.bind_some, hFeatures]
    exact hRest
  have hNonzero : (t.bits == 0) = false := by
    rcases hBits with hEq | hEq
    · rw [hEq]
      decide
    · rw [hEq]
      decide
  rw [merge_string, hRead, Option.bind_eq_bind, Option.bind_some]
  simp only [hNonzero, Bool.false_and, Bool.false_eq_true, if_false, Bool.not_true, Bool.and_false]

/-- A target that is printed is read as that target, whatever it is merged into; so no two targets are printed
alike. -/
theorem target_strings_round_trip (host : Target) (capability : Target → Option Feature) :
    (∀ initial t : Target, initial.features = ∅ → ValidBits t.bits →
      merge_string host capability initial t.to_string = some t) ∧
    ∀ t t' : Target, ValidBits t.bits → ValidBits t'.bits → t.to_string = t'.to_string → t = t' := by
  refine ⟨fun initial t hFeatures hBits => merge_string_to_string host capability hFeatures hBits, ?_⟩
  intro t t' hBits hBits' hEq
  have hRead := merge_string_to_string host capability
    (show (⟨.OSUnknown, .ArchUnknown, 0, ∅⟩ : Target).features = ∅ from rfl) hBits
  rw [hEq, merge_string_to_string host capability rfl hBits'] at hRead
  exact (Option.some.inj hRead).symm

/-- A target with all traces, which are printed as one. -/
theorem traced_round_trip :
    merge_string ⟨.Linux, .X86, 64, ∅⟩ (fun _ => none) ⟨.Linux, .X86, 64, ∅⟩
      (to_string ⟨.NoOS, .AI, 32, {.JIT, .TraceLoads, .TraceStores, .TraceRealizations, .TSAN}⟩) =
        some ⟨.NoOS, .AI, 32, {.JIT, .TraceLoads, .TraceStores, .TraceRealizations, .TSAN}⟩ :=
  (target_strings_round_trip _ _).1 _ _ rfl (Or.inl rfl)

end Vyasa.Target
