/-
# IR.Assembly.Keyword — the keywords of assembly text

A word that is none of these is no part of a module and is passed over, so the list
decides what a text means.
-/

namespace Faultline.IR.Assembly

def generalKeywords : List String :=
  ["...", "double", "float", "fp128", "half", "label", "metadata", "opaque", "ppc_fp128", "token", "type",
   "void", "vscale", "x", "x86_fp80", "x86_mmx",
   "c", "false", "none", "null", "true", "undef", "zeroinitializer", "blockaddress", "asm", "inteldialect",
   "sideeffect",
   "addrspace", "alias", "any", "attributes", "comdat", "constant", "datalayout", "declare", "define",
   "distinct", "exactmatch", "gc", "global", "ifunc", "largest", "module", "noduplicates", "partition",
   "personality", "prefix", "prologue", "samesize", "section", "source_filename", "target", "triple",
   "uselistorder", "uselistorder_bb",
   "appending", "available_externally", "common", "extern_weak", "external", "internal", "linkonce",
   "linkonce_odr", "private", "weak", "weak_odr", "dso_local", "dso_preemptable", "default", "hidden",
   "protected", "dllexport", "dllimport", "thread_local", "initialexec", "localdynamic", "localexec",
   "local_unnamed_addr", "unnamed_addr", "externally_initialized"]

def callingKeywords : List String :=
  ["aarch64_sve_vector_pcs", "aarch64_vector_pcs", "amdgpu_cs", "amdgpu_es", "amdgpu_gs", "amdgpu_hs",
   "amdgpu_kernel", "amdgpu_ls", "amdgpu_ps", "amdgpu_vs", "anyregcc", "arm_aapcs_vfpcc", "arm_aapcscc",
   "arm_apcscc", "avr_intrcc", "avr_signalcc", "cc", "ccc", "cfguard_checkcc", "coldcc", "cxx_fast_tlscc",
   "fastcc", "ghccc", "hhvm_ccc", "hhvmcc", "intel_ocl_bicc", "msp430_intrcc", "preserve_allcc",
   "preserve_mostcc", "ptx_device", "ptx_kernel", "spir_func", "spir_kernel", "swiftcc", "tailcc",
   "webkit_jscc", "win64cc", "x86_64_sysvcc", "x86_fastcallcc", "x86_intrcc", "x86_regcallcc",
   "x86_stdcallcc", "x86_thiscallcc", "x86_vectorcallcc"]

def attributeKeywords : List String :=
  ["align", "alignstack", "allocsize", "alwaysinline", "argmemonly", "builtin", "byval", "cold",
   "convergent", "dereferenceable", "dereferenceable_or_null", "immarg", "inaccessiblemem_or_argmemonly",
   "inaccessiblememonly", "inalloca", "inlinehint", "inreg", "jumptable", "minsize", "naked", "nest",
   "noalias", "nobuiltin", "nocapture", "nocf_check", "noduplicate", "nofree", "noimplicitfloat",
   "noinline", "nonlazybind", "nonnull", "norecurse", "noredzone", "noreturn", "nosync", "nounwind",
   "optforfuzzing", "optnone", "optsize", "readnone", "readonly", "returned", "returns_twice", "safestack",
   "sanitize_address", "sanitize_hwaddress", "sanitize_memory", "sanitize_memtag", "sanitize_thread",
   "shadowcallstack", "signext", "speculatable", "speculative_load_hardening", "sret", "ssp", "sspreq",
   "sspstrong", "strictfp", "swifterror", "swiftself", "uwtable", "willreturn", "writeonly", "zeroext"]

def instructionKeywords : List String :=
  ["add", "addrspacecast", "alloca", "and", "ashr", "atomicrmw", "bitcast", "br", "call", "callbr",
   "catchpad", "catchret", "catchswitch", "cleanuppad", "cleanupret", "cmpxchg", "extractelement",
   "extractvalue", "fadd", "fcmp", "fdiv", "fence", "fmul", "fneg", "fpext", "fptosi", "fptoui", "fptrunc",
   "freeze", "frem", "fsub", "getelementptr", "icmp", "indirectbr", "insertelement", "insertvalue",
   "inttoptr", "invoke", "landingpad", "load", "lshr", "mul", "or", "phi", "ptrtoint", "resume", "ret",
   "sdiv", "select", "sext", "shl", "shufflevector", "sitofp", "srem", "store", "sub", "switch", "trunc",
   "udiv", "uitofp", "unreachable", "urem", "va_arg", "xor", "zext",
   "eq", "ne", "oeq", "oge", "ogt", "ole", "olt", "one", "ord", "sge", "sgt", "sle", "slt", "ueq", "uge",
   "ugt", "ule", "ult", "une", "uno",
   "afn", "arcp", "contract", "exact", "fast", "inbounds", "inrange", "ninf", "nnan", "nsw", "nsz", "nuw",
   "reassoc", "musttail", "notail", "tail",
   "atomic", "volatile", "syncscope", "acq_rel", "acquire", "monotonic", "release", "seq_cst", "unordered",
   "max", "min", "nand", "umax", "umin", "xchg",
   "caller", "catch", "cleanup", "filter", "from", "to", "unwind", "within"]

def debugStems : List String :=
  ["DW_ATE_", "DW_CC_", "DW_LANG_", "DW_MACINFO_", "DW_OP_", "DW_TAG_", "DW_VIRTUALITY_", "DIFlag",
   "DISPFlag", "CSK_", "FullDebug", "LineTablesOnly", "NoDebug", "DebugDirectivesOnly", "GNU", "None"]

def keywords : List String :=
  generalKeywords ++ callingKeywords ++ attributeKeywords ++ instructionKeywords

end Faultline.IR.Assembly
