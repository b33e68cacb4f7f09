import Hummingbird.Kernel.Registry

/-!
The order of registration. Registration keeps apart kernels that claim one dtype under the
same layout flags; resolution takes the first kernel whose flags the key includes. Two
kernels with different flags can both serve a key, and then the order decides.
-/

namespace Hummingbird

/-- Two kernels claim one dtype for the same operation and device. -/
def Kernel.Shadows (e k : Kernel) : Prop :=
  e.op = k.op ∧ e.device = k.device ∧
    ∃ dt ∈ k.supportedDtypes, hbiKernelSupportsDtype e dt = true

theorem Kernel.Shadows.symm {e k : Kernel} (h : e.Shadows k) : k.Shadows e := by
  obtain ⟨hop, hdevice, dt, hdt, hsupports⟩ := h
  refine ⟨hop.symm, hdevice.symm, dt, ?_, ?_⟩
  · simpa [hbiKernelSupportsDtype] using hsupports
  · simpa [hbiKernelSupportsDtype] using hdt

/-- Kernels that serve one key claim its dtype. -/
theorem KernelKey.shadows_of_matched {key : KernelKey} {e k : Kernel}
    (he : key.matchedBy e = true) (hk : key.matchedBy k = true) : e.Shadows k := by
  obtain ⟨heop, hedevice, hedtype, -⟩ := of_decide_eq_true he
  obtain ⟨hkop, hkdevice, hkdtype, -⟩ := of_decide_eq_true hk
  refine ⟨heop.trans hkop.symm, hedevice.trans hkdevice.symm, key.dtype, ?_, hedtype⟩
  simpa [hbiKernelSupportsDtype] using hkdtype

/-- The key that asks for what either of two kernels needs. -/
theorem Kernel.Shadows.exists_key {e k : Kernel} (h : e.Shadows k) :
    ∃ key : KernelKey, key.op = e.op ∧ key.matchedBy e = true ∧ key.matchedBy k = true := by
  obtain ⟨hop, hdevice, dt, hdt, hsupports⟩ := h
  have hle : ∀ a b : BitVec 32, a &&& ~~~(a ||| b) = 0 := by
    intro a b
    ext i hi
    cases ha : a[i] <;> simp [ha]
  refine ⟨⟨e.op, e.device, dt, e.layoutFlags ||| k.layoutFlags⟩, rfl, ?_, ?_⟩
  · exact decide_eq_true ⟨rfl, rfl, hsupports, hle _ _⟩
  · refine decide_eq_true ⟨hop.symm, hdevice.symm, ?_, ?_⟩
    · simpa [hbiKernelSupportsDtype] using hdt
    · rw [BitVec.or_comm]
      exact hle _ _

/-- What a list of kernels needs to be a registry, whatever its order. -/
structure Registrable (kernels : List Kernel) : Prop where
  ops_valid : ∀ k ∈ kernels, hbiKernelOpIsValid k.op = true
  dtypes_ne : ∀ k ∈ kernels, k.supportedDtypes ≠ []
  length_le : kernels.length ≤ hbiKernelRegistryMax
  apart : kernels.Pairwise fun e k => ¬ e.Overlaps k

theorem registrable_append_iff {kernels : List Kernel} {k : Kernel} :
    Registrable (kernels ++ [k]) ↔ Registrable kernels ∧
      ∃ kernels', hbiKernelRegister false kernels k = .ok kernels' := by
  have hregister : (∃ kernels', hbiKernelRegister false kernels k = .ok kernels') ↔
      hbiKernelOpIsValid k.op = true ∧ k.supportedDtypes ≠ [] ∧
        kernels.length < hbiKernelRegistryMax ∧ ∀ e ∈ kernels, ¬ e.Overlaps k := by
    simp only [hbiKernelRegister_eq_ok, true_and, exists_and_left, exists_eq', and_true]
  rw [hregister]
  constructor
  · rintro ⟨hops, hdtypes, hlength, hapart⟩
    rw [List.length_append, List.length_singleton] at hlength
    obtain ⟨hpair, -, hnew⟩ := List.pairwise_append.mp hapart
    refine ⟨⟨?_, ?_, by omega, hpair⟩, hops k (by simp), hdtypes k (by simp), by omega, ?_⟩
    · exact fun e he => hops e (by simp [he])
    · exact fun e he => hdtypes e (by simp [he])
    · exact fun e he => hnew e he k (by simp)
  · rintro ⟨⟨hops, hdtypes, -, hapart⟩, hop, hdtype, hroom, hnew⟩
    refine ⟨?_, ?_, ?_, ?_⟩
    · intro e he
      rcases List.mem_append.mp he with he | he
      · exact hops e he
      · rw [List.mem_singleton.mp he]
        exact hop
    · intro e he
      rcases List.mem_append.mp he with he | he
      · exact hdtypes e he
      · rw [List.mem_singleton.mp he]
        exact hdtype
    · rw [List.length_append, List.length_singleton]
      omega
    · refine List.pairwise_append.mpr ⟨hapart, List.pairwise_singleton _ _, ?_⟩
      intro e he k' hk'
      rw [List.mem_singleton.mp hk']
      exact hnew e he

/-- A registry is a list of kernels of which each could be registered behind the others. -/
theorem registered_iff {kernels : List Kernel} : Registered kernels ↔ Registrable kernels := by
  constructor
  · intro h
    induction h with
    | empty => exact ⟨by simp, by simp, Nat.zero_le _, List.Pairwise.nil⟩
    | @register kernels kernels' k dispatched _ hk ih =>
        obtain ⟨rfl, -, -, -, -, rfl⟩ := hbiKernelRegister_eq_ok.mp hk
        exact registrable_append_iff.mpr ⟨ih, _, hk⟩
  · intro h
    induction kernels using List.reverseRecOn with
    | nil => exact .empty
    | append_singleton kernels k ih =>
        obtain ⟨hkernels, kernels', hk⟩ := registrable_append_iff.mp h
        have heq := (hbiKernelRegister_eq_ok.mp hk).2.2.2.2.2
        rw [heq]
        exact .register (ih hkernels) hk

theorem Registrable.perm {kernels kernels' : List Kernel} (h : Registrable kernels)
    (hperm : kernels.Perm kernels') : Registrable kernels' := by
  refine ⟨?_, ?_, hperm.length_eq ▸ h.length_le, ?_⟩
  · exact fun k hk => h.ops_valid k (hperm.mem_iff.mpr hk)
  · exact fun k hk => h.dtypes_ne k (hperm.mem_iff.mpr hk)
  · exact hperm.pairwise h.apart fun hnot hback => hnot hback.symm

/-- A search that can find one element only finds the same one in any order. -/
theorem find?_perm_of_unique {α : Type} {p : α → Bool} {l l' : List α} (hperm : l.Perm l')
    (hunique : ∀ a ∈ l, ∀ b ∈ l, p a = true → p b = true → a = b) : l.find? p = l'.find? p := by
  cases h : l.find? p with
  | none =>
      symm
      rw [List.find?_eq_none] at h ⊢
      exact fun a ha => h a (hperm.mem_iff.mpr ha)
  | some a =>
      have ha := List.mem_of_find?_eq_some h
      cases h' : l'.find? p with
      | none => exact absurd (List.find?_some h) (List.find?_eq_none.mp h' a (hperm.subset ha))
      | some b =>
          have hb := hperm.mem_iff.mpr (List.mem_of_find?_eq_some h')
          rw [hunique a ha b hb (List.find?_some h) (List.find?_some h')]

/-- No two kernels claim one dtype for the same operation and device. -/
def NoShadow (kernels : List Kernel) : Prop := kernels.Pairwise fun e k => ¬ e.Shadows k

theorem NoShadow.resolve_perm {kernels kernels' : List Kernel} (h : NoShadow kernels)
    (hperm : kernels.Perm kernels') (key : KernelKey) :
    hbiKernelResolve kernels' key = hbiKernelResolve kernels key := by
  have hsymm : Std.Symm fun e k : Kernel => ¬ e.Shadows k :=
    ⟨fun _ _ hnot hback => hnot hback.symm⟩
  have hfind : kernels.find? key.matchedBy = kernels'.find? key.matchedBy := by
    apply find?_perm_of_unique hperm
    intro e he k hk hme hmk
    by_contra hne
    exact List.Pairwise.forall h he hk hne (key.shadows_of_matched hme hmk)
  unfold hbiKernelResolve
  rw [hfind]

/-- Of two kernels that claim one dtype the one in front is found for some key. -/
theorem hbiKernelResolve_front {e : Kernel} {kernels : List Kernel} {key : KernelKey}
    (hop : hbiKernelOpIsValid key.op = true) (hmatch : key.matchedBy e = true) :
    hbiKernelResolve (e :: kernels) key = .ok e := by
  unfold hbiKernelResolve
  rw [if_neg (by rw [hop]; decide), List.find?_cons_of_pos hmatch]

theorem noShadow_of_resolve_perm {kernels : List Kernel} (h : Registrable kernels)
    (hsame : ∀ kernels', kernels.Perm kernels' → ∀ key,
      hbiKernelResolve kernels' key = hbiKernelResolve kernels key) : NoShadow kernels := by
  apply List.pairwise_of_forall_sublist
  intro e k hsub hshadows
  obtain ⟨rest, hperm⟩ := hsub.exists_perm_append
  obtain ⟨key, hop, hme, hmk⟩ := hshadows.exists_key
  have hvalid : hbiKernelOpIsValid key.op = true :=
    hop ▸ h.ops_valid e (hperm.mem_iff.mpr (by simp))
  have hfirst := hsame _ hperm key
  have hsecond := hsame _ (hperm.trans (List.Perm.swap k e rest)) key
  rw [List.cons_append, hbiKernelResolve_front hvalid hme] at hfirst
  rw [hbiKernelResolve_front hvalid hmk, ← hfirst] at hsecond
  obtain rfl := Except.ok.inj hsecond
  have hover : k.Overlaps k := ⟨rfl, rfl, rfl, hshadows.2.2⟩
  have hpair := (h.perm hperm).apart
  exact List.rel_of_pairwise_cons hpair (by simp) hover

/-- Resolution does not depend on the order of registration exactly when no two of the
registered kernels claim one dtype for the same operation and device. -/
theorem hbi_kernel_resolve_order_iff {kernels : List Kernel} (h : Registered kernels) :
    (∀ kernels', kernels.Perm kernels' → Registered kernels' → ∀ key,
      hbiKernelResolve kernels' key = hbiKernelResolve kernels key) ↔ NoShadow kernels := by
  have hset := registered_iff.mp h
  constructor
  · intro hsame
    apply noShadow_of_resolve_perm hset
    exact fun kernels' hperm => hsame kernels' hperm (registered_iff.mpr (hset.perm hperm))
  · exact fun hshadow kernels' hperm _ key => hshadow.resolve_perm hperm key

/-- A kernel that copies FP32. -/
def copyKernel (name : String) (layoutFlags : BitVec 32) : Kernel :=
  ⟨.copy, name, .cpu, [.fp32], layoutFlags, none, fun _ _ => .ok ()⟩

theorem registered_copyKernel (name : String) (layoutFlags : BitVec 32) :
    Registered [copyKernel name layoutFlags] :=
  .register .empty (hbiKernelRegister_eq_ok.mpr
    ⟨rfl, rfl, List.cons_ne_nil _ _, by decide, by simp, rfl⟩)

/-- Kernels for two operations and two devices; dtypes are shared across devices and across
operations, but not within one device and operation. -/
def spreadKernels : List Kernel :=
  [⟨.copy, "copy", .cpu, [.fp32, .int8], 0, none, fun _ _ => .ok ()⟩,
    ⟨.copy, "copy.far", .reserved1, [.int8, .fp32], 0, none, fun _ _ => .ok ()⟩,
    ⟨.copy, "copy.half", .cpu, [.fp16], 1, none, fun _ _ => .ok ()⟩,
    ⟨.fill, "fill", .cpu, [.fp32, .fp16], 0, none, fun _ _ => .ok ()⟩]

instance (e k : Kernel) : Decidable (e.Shadows k) :=
  inferInstanceAs (Decidable (_ ∧ _ ∧ ∃ dt ∈ k.supportedDtypes, _))

theorem spreadKernels_noShadow : NoShadow spreadKernels := by
  unfold NoShadow spreadKernels
  decide

theorem spreadKernels_registered : Registered spreadKernels := by
  refine registered_iff.mpr ⟨by decide, by decide, by decide, ?_⟩
  refine spreadKernels_noShadow.imp ?_
  exact fun hnot hover => hnot ⟨hover.1, hover.2.1, hover.2.2.2⟩

/-- Registered the other way round the four kernels answer every key alike. -/
theorem hbi_kernel_resolve_order_devices :
    Registered spreadKernels ∧ Registered spreadKernels.reverse ∧ NoShadow spreadKernels ∧
      (∀ key, hbiKernelResolve spreadKernels.reverse key =
        hbiKernelResolve spreadKernels key) ∧
      hbiKernelResolve spreadKernels.reverse ⟨.copy, .reserved1, .fp32, 0⟩ =
        spreadKernels[1]?.elim (errSet .notFound "") .ok := by
  have hperm := (List.reverse_perm spreadKernels).symm
  have hreversed : Registered spreadKernels.reverse :=
    registered_iff.mpr ((registered_iff.mp spreadKernels_registered).perm hperm)
  refine ⟨spreadKernels_registered, hreversed, spreadKernels_noShadow, ?_, rfl⟩
  exact (hbi_kernel_resolve_order_iff spreadKernels_registered).mpr spreadKernels_noShadow
    _ hperm hreversed

/-- A general kernel and one that requires contiguous operands. -/
theorem hbi_kernel_resolve_order_contiguous :
    let general := copyKernel "copy" 0
    let contig := copyKernel "copy.contig" 1
    Registered [general, contig] ∧ Registered [contig, general] ∧
      hbiKernelResolve [general, contig] ⟨.copy, .cpu, .fp32, 1⟩ = .ok general ∧
      hbiKernelResolve [contig, general] ⟨.copy, .cpu, .fp32, 1⟩ = .ok contig ∧
      general.name ≠ contig.name := by
  have hapart : ∀ (a b : String) (f g : BitVec 32), f ≠ g →
      ∀ e ∈ [copyKernel a f], ¬ e.Overlaps (copyKernel b g) := by
    intro a b f g hne e he hover
    rw [List.mem_singleton.mp he] at hover
    exact hne hover.2.2.1
  refine ⟨?_, ?_, rfl, rfl, by decide⟩
  · exact .register (registered_copyKernel _ _) (hbiKernelRegister_eq_ok.mpr
      ⟨rfl, rfl, List.cons_ne_nil _ _, by decide, hapart _ _ _ _ (by decide), rfl⟩)
  · exact .register (registered_copyKernel _ _) (hbiKernelRegister_eq_ok.mpr
      ⟨rfl, rfl, List.cons_ne_nil _ _, by decide, hapart _ _ _ _ (by decide), rfl⟩)

end Hummingbird
