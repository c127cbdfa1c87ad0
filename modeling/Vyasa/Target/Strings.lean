import Vyasa.Text.Replace
import Mathlib

/-! Operating systems, architectures and features, and the names they have in target strings. -/
namespace Vyasa.Target

inductive OS where
  | OSUnknown | Linux | Windows | OSX | Android | IOS | QuRT | NoOS | Fuchsia | WebAssemblyRuntime
deriving DecidableEq

inductive Arch where
  | ArchUnknown | X86 | ARM | MIPS | Hexagon | POWERPC | WebAssembly | RISCV | AI
deriving DecidableEq

/-- The features below `FeatureEnd`. -/
inductive Feature where
  | JIT | Debug | NoAsserts | NoBoundsQuery | SSE41 | AVX | AVX2 | FMA | FMA4 | F16C | ARMv7s | NoNEON
  | VSX | POWER_ARCH_2_07 | CUDA | CUDACapability30 | CUDACapability32 | CUDACapability35
  | CUDACapability50 | CUDACapability61 | OpenCL | CLDoubles | CLHalf | OpenGL | OpenGLCompute | EGL
  | UserContext | Matlab | Profile | NoRuntime | Metal | MinGW | CPlusPlusMangling | LargeBuffers
  | HexagonDma | HVX_64 | HVX_128 | HVX_v62 | HVX_v65 | HVX_v66 | HVX_shared_object | FuzzFloatStores
  | SoftFloatABI | MSAN | AVX512 | AVX512_KNL | AVX512_Skylake | AVX512_Cannonlake | TraceLoads
  | TraceStores | TraceRealizations | TracePipeline | D3D12Compute | StrictFloat | LegacyBufferWrappers
  | TSAN | ASAN | CheckUnsafePromises | EmbedBitcode | DisableLLVMLoopVectorize
  | DisableLLVMLoopUnroll | WasmSimd128 | WasmSignExt | SVE | SVE2
deriving DecidableEq

def os_name_map : List (String × OS) :=
  [("os_unknown", .OSUnknown), ("linux", .Linux), ("windows", .Windows), ("osx", .OSX),
    ("android", .Android), ("ios", .IOS), ("qurt", .QuRT), ("noos", .NoOS), ("fuchsia", .Fuchsia),
    ("wasmrt", .WebAssemblyRuntime)]

def arch_name_map : List (String × Arch) :=
  [("arch_unknown", .ArchUnknown), ("x86", .X86), ("arm", .ARM), ("mips", .MIPS), ("powerpc", .POWERPC),
    ("hexagon", .Hexagon), ("wasm", .WebAssembly), ("riscv", .RISCV), ("AI", .AI)]

def feature_name_map : List (String × Feature) :=
  [("jit", .JIT), ("debug", .Debug), ("no_asserts", .NoAsserts), ("no_bounds_query", .NoBoundsQuery),
    ("sse41", .SSE41), ("avx", .AVX), ("avx2", .AVX2), ("fma", .FMA), ("fma4", .FMA4), ("f16c", .F16C),
    ("armv7s", .ARMv7s), ("no_neon", .NoNEON), ("vsx", .VSX), ("power_arch_2_07", .POWER_ARCH_2_07),
    ("cuda", .CUDA), ("cuda_capability_30", .CUDACapability30), ("cuda_capability_32", .CUDACapability32),
    ("cuda_capability_35", .CUDACapability35), ("cuda_capability_50", .CUDACapability50),
    ("cuda_capability_61", .CUDACapability61), ("opencl", .OpenCL), ("cl_doubles", .CLDoubles),
    ("cl_half", .CLHalf), ("opengl", .OpenGL), ("openglcompute", .OpenGLCompute), ("egl", .EGL),
    ("user_context", .UserContext), ("matlab", .Matlab), ("profile", .Profile), ("no_runtime", .NoRuntime),
    ("metal", .Metal), ("mingw", .MinGW), ("c_plus_plus_name_mangling", .CPlusPlusMangling),
    ("large_buffers", .LargeBuffers), ("hvx_64", .HVX_64), ("hvx_128", .HVX_128), ("hvx_v62", .HVX_v62),
    ("hvx_v65", .HVX_v65), ("hvx_v66", .HVX_v66), ("hvx_shared_object", .HVX_shared_object),
    ("fuzz_float_stores", .FuzzFloatStores), ("soft_float_abi", .SoftFloatABI), ("msan", .MSAN),
    ("avx512", .AVX512), ("avx512_knl", .AVX512_KNL), ("avx512_skylake", .AVX512_Skylake),
    ("avx512_cannonlake", .AVX512_Cannonlake), ("trace_loads", .TraceLoads), ("trace_stores", .TraceStores),
    ("trace_realizations", .TraceRealizations), ("trace_pipeline", .TracePipeline),
    ("d3d12compute", .D3D12Compute), ("strict_float", .StrictFloat),
    ("legacy_buffer_wrappers", .LegacyBufferWrappers), ("tsan", .TSAN), ("asan", .ASAN),
    ("check_unsafe_promises", .CheckUnsafePromises), ("hexagon_dma", .HexagonDma),
    ("embed_bitcode", .EmbedBitcode), ("disable_llvm_loop_vectorize", .DisableLLVMLoopVectorize),
    ("disable_llvm_loop_unroll", .DisableLLVMLoopUnroll), ("wasm_simd128", .WasmSimd128),
    ("wasm_signext", .WasmSignExt), ("sve", .SVE), ("sve2", .SVE2)]

/-! ### The maps -/

/-- A map is visited in the order of its names. -/
def inOrder {β : Type} (table : List (String × β)) : List (String × β) :=
  table.insertionSort fun a b => a.1.toList ≤ b.1.toList

def lookup {β : Type} (table : List (String × β)) (tok : List Char) : Option β :=
  (table.find? fun e => e.1.toList = tok).map Prod.snd

def lookup_os (tok : List Char) : Option OS := lookup os_name_map tok

def lookup_arch (tok : List Char) : Option Arch := lookup arch_name_map tok

def lookup_feature (tok : List Char) : Option Feature := lookup feature_name_map tok

/-- The first name that is found for a value. -/
def nameOf {β : Type} [DecidableEq β] (table : List (String × β)) (x : β) : Option (List Char) :=
  ((inOrder table).find? fun e => e.2 = x).map fun e => e.1.toList

/-- The tokens that are not looked up in a map. -/
def IsReserved (tok : List Char) : Prop :=
  tok = "host".toList ∨ tok = "32".toList ∨ tok = "64".toList ∨ tok = "0".toList

instance (tok : List Char) : Decidable (IsReserved tok) :=
  inferInstanceAs (Decidable (tok = _ ∨ tok = _ ∨ tok = _ ∨ tok = _))

/-! ### Every value has a name, and only one -/

theorem arch_named (arch : Arch) : ∃ e ∈ arch_name_map, e.2 = arch := by
  cases arch <;> decide

theorem os_named (os : OS) : ∃ e ∈ os_name_map, e.2 = os := by
  cases os <;> decide

theorem feature_named (f : Feature) : ∃ e ∈ feature_name_map, e.2 = f := by
  cases f <;> decide

theorem arch_names : ∀ e ∈ arch_name_map, nameOf arch_name_map e.2 = some e.1.toList ∧
    ¬ IsReserved e.1.toList ∧ lookup_arch e.1.toList = some e.2 ∧ '-' ∉ e.1.toList := by
  decide +kernel

theorem os_names : ∀ e ∈ os_name_map, nameOf os_name_map e.2 = some e.1.toList ∧ ¬ IsReserved e.1.toList ∧
    lookup_arch e.1.toList = none ∧ lookup_os e.1.toList = some e.2 ∧ '-' ∉ e.1.toList := by
  decide +kernel

theorem feature_names : ∀ e ∈ feature_name_map, ¬ IsReserved e.1.toList ∧ lookup_arch e.1.toList = none ∧
    lookup_os e.1.toList = none ∧ lookup_feature e.1.toList = some e.2 ∧ '-' ∉ e.1.toList := by
  decide +kernel

/-- The names before and after those of tracing. -/
def namesBefore : List (String × Feature) := (inOrder feature_name_map).take 56

def namesAfter : List (String × Feature) := (inOrder feature_name_map).drop 60

/-- Only the pipeline comes between the traces that are collapsed. -/
theorem inOrder_feature_name_map : inOrder feature_name_map = namesBefore ++
    ("trace_loads", .TraceLoads) :: ("trace_pipeline", .TracePipeline) ::
      ("trace_realizations", .TraceRealizations) :: ("trace_stores", .TraceStores) :: namesAfter := by
  decide +kernel

theorem ne_trace_realizations : ∀ e ∈ namesBefore ++ namesAfter, e.1.toList ≠ "trace_realizations".toList := by
  decide +kernel

end Vyasa.Target

/-! Targets, the strings they are printed as, and the parser that merges a string into a target. -/
namespace Vyasa

/-- `features` holds the bits that are set. -/
structure Target where
  os : Target.OS
  arch : Target.Arch
  bits : Int
  features : Finset Target.Feature
deriving DecidableEq

namespace Target

def has_feature (t : Target) (f : Feature) : Bool := f ∈ t.features

/-- `FeatureEnd` is `none`: it is never set. -/
def set_feature (t : Target) : Option Feature → Target
  | none => t
  | some f => { t with features := insert f t.features }

def set_features (t : Target) (features_to_set : List Feature) : Target :=
  features_to_set.foldl (fun t f => t.set_feature (some f)) t

def to_string (t : Target) : List Char :=
  let result := (nameOf arch_name_map t.arch).getD []
  let result := result ++ ('-' :: (toString t.bits).toList)
  let result := match nameOf os_name_map t.os with
    | some name => result ++ ('-' :: name)
    | none => result
  let result := (inOrder feature_name_map).foldl
    (fun result e => if t.has_feature e.2 then result ++ ('-' :: e.1.toList) else result) result
  if t.has_feature .TraceLoads && t.has_feature .TraceStores && t.has_feature .TraceRealizations then
    Text.replaceAll "trace_loads-trace_realizations-trace_stores".toList "trace_all".toList result
  else result

/-- What `merge_string` keeps while it reads the tokens. -/
structure Merge where
  t : Target
  os_specified : Bool
  arch_specified : Bool
  bits_specified : Bool
  features_specified : Bool
  is_host : Bool

/-- A token for one feature or for all traces. -/
def mergeFeature (tok : List Char) (s : Merge) : Option Merge :=
  match lookup_feature tok with
  | some feature => some { s with t := s.t.set_feature (some feature), features_specified := true }
  | none =>
    if tok = "trace_all".toList then
      some { s with
        t := s.t.set_features [.TraceLoads, .TraceStores, .TraceRealizations], features_specified := true }
    else none

/-- One token; `none` is the return of `false`. -/
def mergeToken (host : Target) (i : Nat) (tok : List Char) (s : Merge) : Option Merge :=
  if tok = "host".toList then
    if i > 0 then none else some { s with is_host := true, t := host }
  else if tok = "32".toList ∨ tok = "64".toList ∨ tok = "0".toList then
    if s.bits_specified then none
    else
      let bits := if tok = "32".toList then 32 else if tok = "64".toList then 64 else 0
      some { s with bits_specified := true, t := { s.t with bits := bits } }
  else match lookup_arch tok with
    | some arch =>
      if s.arch_specified then none
      else some { s with arch_specified := true, t := { s.t with arch := arch } }
    | none => match lookup_os tok with
      | some os =>
        if s.os_specified then none else some { s with os_specified := true, t := { s.t with os := os } }
      | none => mergeFeature tok s

def mergeTokens (host : Target) : Nat → List (List Char) → Merge → Option Merge
  | _, [], s => some s
  | i, tok :: tokens, s => do
    let s ← mergeToken host i tok s
    mergeTokens host (i + 1) tokens s

/-- `host` is what `get_host_target` returns, and `capability` what `get_host_cuda_capability` does. -/
def merge_string (host : Target) (capability : Target → Option Feature) (t : Target) (target : List Char) :
    Option Target := do
  let s ← mergeTokens host 0 (target.splitOn '-') ⟨t, false, false, false, false, false⟩
  let t := s.t
  let t :=
    if s.is_host && t.has_feature .CUDA && !t.has_feature .CUDACapability30 && !t.has_feature .CUDACapability32 &&
        !t.has_feature .CUDACapability35 && !t.has_feature .CUDACapability50 && !t.has_feature .CUDACapability61
    then t.set_feature (capability t)
    else t
  if s.arch_specified && !s.bits_specified then none
  else if s.bits_specified && t.bits == 0 && (!(s.arch_specified && t.arch == .ArchUnknown) ||
      !(s.os_specified && t.os == .OSUnknown) || s.features_specified) then none
  else some t

end Target

end Vyasa
