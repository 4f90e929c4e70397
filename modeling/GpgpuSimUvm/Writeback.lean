-- The write-back of a page (`gpu_writeback`): it copies, for each copied allocation, the
-- bytes of the allocation that lie on the page, and no others.
import GpgpuSimUvm.System

namespace gpgpu_sim_uvm

variable (cfg : Config)

/-! ## One copy -/

theorem copyBytes_of_lt {dst src : Nat → UInt8} {d s n i : Nat} (h : i < n) :
    copyBytes dst d src s n (d + i) = src (s + i) := by
  rw [copyBytes, if_pos (by omega), Nat.add_sub_cancel_left]

theorem copyBytes_of_outside {dst src : Nat → UInt8} {d s n x : Nat}
    (h : ∀ i < n, x ≠ d + i) : copyBytes dst d src s n x = dst x := by
  rw [copyBytes, if_neg]
  rintro ⟨hle, hlt⟩
  exact h (x - d) (by omega) (by omega)

/-! ## One allocation -/

/-- Byte `i` of a copied allocation lies on page `p`. -/
def AllocationInfo.OnPage (a : AllocationInfo) (p i : Nat) : Prop :=
  a.copied = true ∧ i < a.allocation_size ∧ cfg.get_page_num (a.gpu_mem_addr + i) = p

theorem get_page_num_eq_iff (x p : Nat) :
    cfg.get_page_num x = p ↔ cfg.get_mem_addr p ≤ x ∧ x < cfg.get_mem_addr p + cfg.page_size := by
  rw [Config.get_page_num, Config.get_mem_addr, Nat.div_eq_iff cfg.page_size_pos]
  have hpos := cfg.page_size_pos
  omega

theorem le_get_page_num_iff (p x : Nat) : p ≤ cfg.get_page_num x ↔ cfg.get_mem_addr p ≤ x :=
  Nat.le_div_iff_mul_le cfg.page_size_pos

theorem get_page_num_le_iff (x p : Nat) :
    cfg.get_page_num x ≤ p ↔ x < cfg.get_mem_addr p + cfg.page_size := by
  rw [Config.get_page_num, ← Nat.lt_add_one_iff, Nat.div_lt_iff_lt_mul cfg.page_size_pos,
    Nat.succ_mul, Config.get_mem_addr]

variable {cfg}

/-- The bytes of one allocation that the function copies are those on the page: they go from
an offset on, and their number is what the page and the allocation have in common. -/
theorem writeback_allocation_spec (cfg : Config) (device host : Nat → UInt8) (p : Nat) (a : AllocationInfo) :
    ∃ off n,
      writeback_allocation cfg device (cfg.get_mem_addr p) host a =
        copyBytes host (a.cpu_mem_addr + off) device (a.gpu_mem_addr + off) n ∧
      ∀ i, a.OnPage cfg p i ↔ off ≤ i ∧ i < off + n := by
  have hon : ∀ i, a.OnPage cfg p i ↔ a.copied = true ∧ i < a.allocation_size ∧
      cfg.get_mem_addr p ≤ a.gpu_mem_addr + i ∧
        a.gpu_mem_addr + i < cfg.get_mem_addr p + cfg.page_size := by
    intro i
    rw [AllocationInfo.OnPage, get_page_num_eq_iff]
  have hfirst : p = cfg.get_page_num a.gpu_mem_addr ↔
      cfg.get_mem_addr p ≤ a.gpu_mem_addr ∧
        a.gpu_mem_addr < cfg.get_mem_addr p + cfg.page_size := by
    rw [eq_comm, get_page_num_eq_iff]
  have hpos := cfg.page_size_pos
  simp only [writeback_allocation, Config.get_page_num_get_mem_addr, get_page_num_le_iff,
    le_get_page_num_iff, hon, hfirst]
  by_cases hcopied : a.copied = true
  · simp only [hcopied, true_and]
    by_cases hreach : a.gpu_mem_addr < cfg.get_mem_addr p + cfg.page_size ∧
        cfg.get_mem_addr p ≤ a.gpu_mem_addr + a.allocation_size
    · rw [if_pos hreach]
      by_cases hstart : cfg.get_mem_addr p ≤ a.gpu_mem_addr ∧
          a.gpu_mem_addr < cfg.get_mem_addr p + cfg.page_size
      · -- the page has the first byte of the allocation
        rw [if_pos hstart]
        refine ⟨0, _, rfl, fun i => ?_⟩
        split_ifs <;> omega
      · -- the allocation starts on an earlier page
        rw [if_neg hstart]
        have hlater : a.gpu_mem_addr + (cfg.get_mem_addr p - a.gpu_mem_addr) =
            cfg.get_mem_addr p := by omega
        refine ⟨cfg.get_mem_addr p - a.gpu_mem_addr, _,
          congrArg (fun s => copyBytes host _ device s _) hlater.symm, fun i => ?_⟩
        split_ifs <;> omega
    · rw [if_neg hreach]
      refine ⟨0, 0, ?_, fun i => ?_⟩
      · exact (funext fun x => copyBytes_of_outside (by omega)).symm
      · omega
  · rw [if_neg fun h => hcopied h.1]
    refine ⟨0, 0, ?_, fun i => ?_⟩
    · exact (funext fun x => copyBytes_of_outside (by omega)).symm
    · exact iff_of_false (fun h => hcopied h.1) (by omega)

theorem writeback_allocation_on_page {device host : Nat → UInt8} {p i : Nat} {a : AllocationInfo}
    (h : a.OnPage cfg p i) :
    writeback_allocation cfg device (cfg.get_mem_addr p) host a (a.cpu_mem_addr + i) =
      device (a.gpu_mem_addr + i) := by
  obtain ⟨off, n, hcopy, hon⟩ := writeback_allocation_spec cfg device host p a
  obtain ⟨hle, hlt⟩ := (hon i).mp h
  have hi : off + (i - off) = i := by omega
  have hbyte : copyBytes host (a.cpu_mem_addr + off) device (a.gpu_mem_addr + off) n
      (a.cpu_mem_addr + off + (i - off)) = device (a.gpu_mem_addr + off + (i - off)) :=
    copyBytes_of_lt (by omega)
  rw [Nat.add_assoc, hi, Nat.add_assoc, hi] at hbyte
  rw [hcopy]
  exact hbyte

theorem writeback_allocation_elsewhere {device host : Nat → UInt8} {p x : Nat}
    {a : AllocationInfo} (h : ∀ i, a.OnPage cfg p i → x ≠ a.cpu_mem_addr + i) :
    writeback_allocation cfg device (cfg.get_mem_addr p) host a x = host x := by
  obtain ⟨off, n, hcopy, hon⟩ := writeback_allocation_spec cfg device host p a
  rw [hcopy]
  apply copyBytes_of_outside
  intro i hi
  have hne := h (off + i) ((hon _).mpr (by omega))
  omega

/-! ## All allocations -/

/-- The host buffers of two allocations do not overlap. -/
def AllocationInfo.Apart (a b : AllocationInfo) : Prop :=
  a.cpu_mem_addr + a.allocation_size ≤ b.cpu_mem_addr ∨
    b.cpu_mem_addr + b.allocation_size ≤ a.cpu_mem_addr

/-- Bytes that no later allocation has on the page stay. -/
theorem writeback_fold_elsewhere {device : Nat → UInt8} {p x : Nat} {as : List AllocationInfo}
    (h : ∀ a ∈ as, ∀ i, a.OnPage cfg p i → x ≠ a.cpu_mem_addr + i) (host : Nat → UInt8) :
    as.foldl (writeback_allocation cfg device (cfg.get_mem_addr p)) host x = host x := by
  induction as generalizing host with
  | nil => rfl
  | cons a as ih =>
    rw [List.foldl_cons, ih fun b hb => h b (List.mem_cons_of_mem _ hb)]
    exact writeback_allocation_elsewhere (h a (List.mem_cons_self ..))

theorem writeback_fold_on_page {device : Nat → UInt8} {p i : Nat} {as : List AllocationInfo}
    (hapart : as.Pairwise AllocationInfo.Apart) {a : AllocationInfo} (ha : a ∈ as)
    (h : a.OnPage cfg p i) (host : Nat → UInt8) :
    as.foldl (writeback_allocation cfg device (cfg.get_mem_addr p)) host (a.cpu_mem_addr + i) =
      device (a.gpu_mem_addr + i) := by
  induction as generalizing host with
  | nil => cases ha
  | cons b bs ih =>
    obtain ⟨hb, hbs⟩ := List.pairwise_cons.mp hapart
    rw [List.foldl_cons]
    rcases List.mem_cons.mp ha with rfl | ha
    · rw [writeback_fold_elsewhere]
      · exact writeback_allocation_on_page h
      · intro c hc j hj
        have hlt := h.2.1
        have hlt' := hj.2.1
        rcases hb c hc with hle | hle <;> omega
    · exact ih hbs ha _

/-- The write-back of a page sets the host bytes of its copied allocations to the device
bytes, where they lie on the page, and changes no other host byte. -/
theorem writeback_copies_exactly (cfg : Config) (g : Gpu) (host : Nat → UInt8) (p : Nat)
    (hapart : g.managedAllocations.Pairwise AllocationInfo.Apart) :
    (∀ a ∈ g.managedAllocations, ∀ i, a.OnPage cfg p i →
        gpu_writeback cfg g host (cfg.get_mem_addr p) (a.cpu_mem_addr + i) =
          g.device (a.gpu_mem_addr + i)) ∧
      ∀ x, (∀ a ∈ g.managedAllocations, ∀ i, a.OnPage cfg p i → x ≠ a.cpu_mem_addr + i) →
        gpu_writeback cfg g host (cfg.get_mem_addr p) x = host x := by
  refine ⟨?_, ?_⟩
  · intro a ha i hi
    exact writeback_fold_on_page hapart ha hi host
  · intro x hx
    exact writeback_fold_elsewhere hx host

/-- Two allocations of 64KB behind each other, the first of them copied. -/
def twoAllocations : Gpu :=
  { boot smallConfig with
    managedAllocations :=
      [{ cpu_mem_addr := 0, gpu_mem_addr := 0xC0000000, allocation_size := 65536, copied := true },
        { cpu_mem_addr := 65536, gpu_mem_addr := 0xC0010000, allocation_size := 65536 }]
    device := fun _ => 7 }

/-- The page behind the first allocation is its last byte's page no more. -/
theorem twoAllocations_written_back :
    gpu_writeback smallConfig twoAllocations (fun _ => 0) (smallConfig.get_mem_addr 0xC000F) 65535 = 7 ∧
      gpu_writeback smallConfig twoAllocations (fun _ => 0) (smallConfig.get_mem_addr 0xC0010) 65536 =
        0 := by
  have hapart : twoAllocations.managedAllocations.Pairwise AllocationInfo.Apart := by
    simp [twoAllocations, AllocationInfo.Apart]
  have hlast := (writeback_copies_exactly smallConfig twoAllocations (fun _ => 0) 0xC000F hapart).1
    _ (List.mem_cons_self ..) 65535
    ⟨rfl, by simp, by simp [Config.get_page_num, smallConfig]⟩
  have hother := (writeback_copies_exactly smallConfig twoAllocations (fun _ => 0) 0xC0010
    hapart).2 65536
  rw [Nat.zero_add] at hlast
  refine ⟨hlast, hother ?_⟩
  intro a ha i hi
  simp only [twoAllocations, List.mem_cons, List.not_mem_nil, or_false] at ha
  rcases ha with rfl | rfl
  · have hlt := hi.2.1
    simp only at hlt ⊢
    omega
  · have hcopied := hi.1
    simp at hcopied

end gpgpu_sim_uvm
